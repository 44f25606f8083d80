import LibDispatch.Workqueue.Accounting

/-!
# The items of the pool

The threads of the pool use the list of queues as any threads would: what holds for every use
of the list holds for the pool.  So its items are taken in the order in which they were added,
and every item that has been taken is called once, by the worker that took it; an item without
a function is never called, it makes the worker that took it leave the pool.
-/

namespace LibDispatch.Workqueue.Scoreboard

open Interleaving Served

variable {T α : Type*} {cfg : Config} {m m' : Mem T α} {l l' : Loc α} {t : T}
  {a : Act T α}

/-! ## The pool uses the list -/

theorem base_next (k : User) (n : Next α) : (k.next n).base = Wqlist.Next.loc n := by
  cases n
  case scanned witem => cases k <;> cases witem <;> rfl
  case added => cases k <;> rfl
  case op => rfl

theorem Trans.uses (h : Trans cfg t m l m' l') :
    (m'.list = m.list ∧ l'.base = l.base) ∨
      ∃ b, Wqlist.use t b m.list l.base = some (m'.list, l'.base) := by
  cases h
  case op k o q n hq =>
    refine .inr ⟨.go, ?_⟩
    rw [base_next]
    simp [Loc.base, Wqlist.use, hq]
  case manager hp => cases hp <;> exact .inl ⟨rfl, rfl⟩
  case stopFind j hsome => exact .inr ⟨.add true j none, by simp [Loc.base, Wqlist.use, hsome]⟩
  case add i witem hsome =>
    exact .inr ⟨.add false i (some witem), by simp [Loc.base, Wqlist.use, hsome]⟩
  case createQueue i q hq => exact .inr ⟨.create i, by simp [Loc.base, Wqlist.use, hq]⟩
  case start | giveIdle => exact .inr ⟨.scan true, rfl⟩
  case scan k skip hk hidle hbase _ hq =>
    refine .inr ⟨.scan skip, ?_⟩
    rw [hbase, hq.list]
    rfl
  case idle hbase hq _ hbase' _ _ => exact .inl ⟨hq.list, hbase'.trans hbase.symm⟩
  case caller hbase hq _ hbase' => exact .inl ⟨hq.list, hbase'.trans hbase.symm⟩
  all_goals exact .inl ⟨rfl, rfl⟩

theorem consistent_of_run [DecidableEq T] {C : Pool T (Mem T α) (Loc α) → T → Act T α → Prop}
    {s : Pool T (Mem T α) (Loc α)} (h : Pool.Runs (step cfg) C managerInit s) :
    Wqlist.Consistent s.mem.list fun t ↦ (s.loc t).base :=
  Wqlist.consistent_of_run (h.refines Mem.list Loc.base fun _ _ _ _ _ _ hP ↦
    (trans_of_step hP).uses)

/-! ## Only functions are called -/

theorem Trans.safe (h : Trans cfg t m l m' l') (hfit : l.Fits) (hS : Wqlist.Sound m.list l.base)
    (hl : l.Safe) : l'.Safe := by
  cases h
  case op k o q n hq =>
    cases n
    case op => trivial
    case added => cases k <;> trivial
    case scanned r =>
      rcases r with _ | witem
      · cases k <;> trivial
      obtain ⟨skip, i, rfl⟩ := Wqlist.isSome_of_scanned hq
      cases k
      case loop | spin => exact hS (Option.some.inj hfit)
      all_goals trivial
  case idle hsafe => exact hsafe hl
  case caller hcaller _ _ => cases l' <;> trivial
  case takeIdle => exact hl
  all_goals trivial

theorem safe_of_run [DecidableEq T] {C : Pool T (Mem T α) (Loc α) → T → Act T α → Prop}
    {s : Pool T (Mem T α) (Loc α)} (h : Pool.Runs (step cfg) C managerInit s) (t : T) :
    (s.loc t).Safe := by
  refine h.invariant (I := fun s ↦ ∀ t, (s.loc t).Safe) (fun _ ↦ trivial) ?_ t
  intro s t a m l hr hI _ hP u
  rcases eq_or_ne u t with rfl | hu
  · simpa using (trans_of_step hP).safe (fits_of_run hr u) ((consistent_of_run hr).sound u) (hI u)
  · simpa [hu] using hI u

/-! ## Items in order -/

/-- The record of an insertion, of a removal, of a call, and of a worker that leaves. -/
def record (_ : T) (_ : Act T α) (_ : Mem T α) (l : Loc α) (log : Log (Option α)) :
    Log (Option α) :=
  match l with
  | .op _ o => Wqlist.record o log
  | .call witem => log.finish witem
  | .exitCount => log.finish none
  | _ => log

section Order

variable {log : Log (Option α)}

theorem inOrder_record (hbase : l.base = none) (hI : InOrder log m.list.items) :
    InOrder (record t a m l log) m.list.items := by
  cases l
  case op => cases hbase
  all_goals exact hI

theorem Trans.inOrder (h : Trans cfg t m l m' l') (hS : Wqlist.Sound m.list l.base)
    (hI : InOrder log m.list.items) : InOrder (record t a m l log) m'.list.items := by
  cases h
  case op k o q n hq => exact Wqlist.inOrder_of_step hq hS hI
  case manager hp => cases hp <;> exact hI
  case createQueue hq => exact Wqlist.inOrder_of_create hq hI
  case scan hbase _ hq | idle hbase hq _ _ _ _ | caller hbase hq _ _ =>
    rw [hq.list]
    exact inOrder_record hbase hI
  all_goals exact hI

/-- Whether the thread has `witem` in hand. -/
def Loc.hands [DecidableEq α] (witem : Option α) (l : Loc α) : ℤ :=
  if l.inHand = some witem then 1 else 0

theorem inHand_next {k : User} {o : Op α} {n : Next α} (hfit : (Loc.op k o).Fits)
    (hn : Continues o n) : (k.next n).inHand = Wqlist.Next.inHand n := by
  cases n
  case op => rfl
  case added => cases k <;> rfl
  case scanned witem =>
    cases k
    case add | stop =>
      have hnone : skips o = none := hfit
      rw [Continues, hnone] at hn
      cases hn
    all_goals cases witem <;> rfl

theorem inHand_of_isCaller (hl : l.isCaller) (hbase : l.base = none) : l.inHand = none := by
  cases l <;> first | rfl | cases hl | cases hbase

theorem record_of_base (hbase : l.base = none) (hcall : ∀ witem, l ≠ .call witem)
    (hexit : l ≠ .exitCount) : record t a m l log = log := by
  cases l
  case op => cases hbase
  case call witem => exact absurd rfl (hcall witem)
  case exitCount => exact absurd rfl hexit
  all_goals rfl

theorem record_of_isIdle (hbase : l.base = none) (hl : l.isIdle) : record t a m l log = log := by
  refine record_of_base hbase (fun witem ↦ ?_) ?_
  all_goals
    rintro rfl
    cases hl

theorem record_of_isCaller (hbase : l.base = none) (hl : l.isCaller) :
    record t a m l log = log := by
  refine record_of_base hbase (fun witem ↦ ?_) ?_
  all_goals
    rintro rfl
    cases hl

variable [DecidableEq α]

theorem hands_of_inHand (h : l'.inHand = l.inHand) (witem : Option α) :
    l'.hands witem = l.hands witem := by
  rw [Loc.hands, Loc.hands, h]

theorem hands_none (h : l.inHand = none) (witem : Option α) : l.hands witem = 0 := by
  simp [Loc.hands, h]

theorem hands_some {x : Option α} (h : l.inHand = some x) (witem : Option α) :
    l.hands witem = if x == witem then 1 else 0 := by
  simp [Loc.hands, h]

theorem hands_finish {x : Option α} (h : l.inHand = some x) (h' : l'.inHand = none)
    (witem : Option α) :
    (log.finish x).timesTaken workqNumPrioqueue witem + log.done.count witem + l.hands witem =
      log.timesTaken workqNumPrioqueue witem + (log.finish x).done.count witem +
        l'.hands witem := by
  have htaken : (log.finish x).timesTaken workqNumPrioqueue witem =
    log.timesTaken workqNumPrioqueue witem := rfl
  rw [count_finish, hands_some h, hands_none h', htaken]
  ring

theorem Trans.hands (h : Trans cfg t m l m' l') (a : Act T α) (log : Log (Option α)) (hfit : l.Fits)
    (hlt : ∀ i, Wqlist.queue l.base = some i → i < workqNumPrioqueue) (witem : Option α) :
    (record t a m l log).timesTaken workqNumPrioqueue witem + log.done.count witem +
        l.hands witem =
      log.timesTaken workqNumPrioqueue witem + (record t a m l log).done.count witem +
        l'.hands witem := by
  cases h
  case op k o q n hq =>
    have hn := inHand_next hfit (continues_of_step hq)
    have hdone : (Wqlist.record o log).done = log.done := by cases o <;> rfl
    simp only [record, hdone]
    rcases Wqlist.inHand_of_step hq with ⟨skip, i, x, rfl, hx⟩ | ⟨hx, htaken⟩
    · have htake : (Wqlist.record (.remove skip i x) log).timesTaken workqNumPrioqueue witem = _ :=
        timesTaken_take (hlt i rfl) x
      rw [htake, hands_some (hn.trans hx), hands_none rfl]
      ring
    · rw [hands_of_inHand (l := .op k o) (hn.trans hx), Log.timesTaken, htaken]
      rfl
  case call x => exact hands_finish rfl rfl witem
  case exitCount => exact hands_finish rfl rfl witem
  case scan hidle hbase hhand hq =>
    rw [record_of_isIdle hbase hidle, hands_none hhand, hands_none rfl]
  case idle hidle hbase hq hidle' hbase' hhand hsafe =>
    rw [record_of_isIdle hbase hidle, hands_of_inHand hhand]
  case caller hcaller hbase hq hcaller' hbase' =>
    rw [record_of_isCaller hbase hcaller, hands_none (inHand_of_isCaller hcaller hbase),
      hands_none (inHand_of_isCaller hcaller' hbase')]
  all_goals rfl

end Order

section Runs

variable [DecidableEq T] {s : Pool T (Mem T α × Log (Option α)) (Loc α)}

theorem run_of_observed
    (h : Pool.Reachable ((step cfg).observe record) (managerInit.recorded .empty) s) :
    Pool.Reachable (step cfg) managerInit s.forget :=
  Pool.Runs.unobserved (C := fun _ _ _ ↦ True) h

theorem inOrder_of_run
    (h : Pool.Reachable ((step cfg).observe record) (managerInit.recorded .empty) s) :
    InOrder s.mem.2 s.mem.1.list.items := by
  refine h.invariant (I := fun s ↦ InOrder s.mem.2 s.mem.1.list.items) (fun _ ↦ rfl) ?_
  intro s t a m l hr hI _ hP
  obtain ⟨hstep, hnext⟩ := Program.observe_eq_some hP
  rw [hnext]
  exact (trans_of_step hstep).inOrder ((consistent_of_run (run_of_observed hr)).sound t) hI

variable [Fintype T] [DecidableEq α]

theorem taken_of_run
    (h : Pool.Reachable ((step cfg).observe record) (managerInit.recorded .empty) s)
    (witem : Option α) :
    s.mem.2.timesTaken workqNumPrioqueue witem =
      s.mem.2.done.count witem + total (Loc.hands witem) s.loc := by
  refine h.invariant (I := fun s ↦ s.mem.2.timesTaken workqNumPrioqueue witem =
      s.mem.2.done.count witem + total (Loc.hands witem) s.loc) ?_ ?_
  · simp [managerInit, Pool.recorded, Log.timesTaken, Log.empty, total, Loc.hands, Loc.inHand]
  · intro s t a m l hr hI _ hP
    obtain ⟨hstep, hnext⟩ := Program.observe_eq_some hP
    have hcons := consistent_of_run (run_of_observed hr)
    have hhands := (trans_of_step hstep).hands a s.mem.2
      (fits_of_run (run_of_observed hr) t)
      (fun i hi ↦ hcons.lt_of_isSome i (hcons.isSome_of_queue t i hi)) witem
    rw [hnext, total_update]
    omega

/-- The items of one priority are taken in the order in which they were added, and a queue
with items is in the mask of a scan.  Every item has been dealt with as often as it has been
taken, but for those that a worker has in hand, and only items with a function are called. -/
theorem pool_items_in_order
    (h : Pool.Reachable ((step cfg).observe record) (managerInit.recorded .empty) s) :
    (∀ i, s.mem.2.added i = s.mem.2.taken i ++ s.mem.1.list.items i) ∧
    (∀ i, s.mem.1.list.items i ≠ [] → s.mem.1.list.wqlistMask.getLsbD i) ∧
    (∀ witem, s.mem.2.timesTaken workqNumPrioqueue witem = s.mem.2.done.count witem +
      (Finset.univ.filter fun u ↦ (s.loc u).inHand = some witem).card) ∧
    ∀ t witem, s.loc t = .call witem → witem.isSome := by
  refine ⟨inOrder_of_run h, (consistent_of_run (run_of_observed h)).present, fun witem ↦ ?_,
    fun t witem ht ↦ ?_⟩
  · have hhands := total_eq_card (fun l ↦ l.inHand = some witem) s.loc
    exact (taken_of_run h witem).trans (congrArg _ hhands)
  · have hsafe := safe_of_run (run_of_observed h) t
    rw [Pool.forget, ht] at hsafe
    exact hsafe

end Runs

/-- Thread 1 is the manager; thread 2 is a worker that has called item 7 and is about to call
item 8. -/
def callingState : Pool (Fin 3) (Mem (Fin 3) ℕ × Log (Option ℕ)) (Loc ℕ) :=
  ((managerInit.recorded Log.empty).run ((step smallConfig).observe record) (fun _ _ _ ↦ True)
    (List.flatten [[(0, .create 1)], .replicate 4 (0, .go), [(1, .startManager)],
      .replicate 11 (1, .go), [(0, .add 1 7)], .replicate 6 (0, .go),
      [(0, .unblock 0), (0, .add 1 8)], .replicate 5 (0, .go), [(2, .start)],
      .replicate 16 (2, .go)])).get (by decide +kernel)

theorem pool_items_in_order_calling :
    callingState.mem.2.done = [some 7] ∧ callingState.loc 2 = .call (some 8) ∧
    callingState.mem.2.added 1 =
      callingState.mem.2.taken 1 ++ callingState.mem.1.list.items 1 ∧
    callingState.mem.2.timesTaken workqNumPrioqueue (some 8) =
      callingState.mem.2.done.count (some 8) +
        (Finset.univ.filter fun u ↦ (callingState.loc u).inHand = some (some 8)).card :=
  have h := pool_items_in_order (show Pool.Reachable ((step smallConfig).observe record)
    (managerInit.recorded .empty) callingState from Pool.runs_get _)
  have hstate : callingState.mem.2.done = [some 7] ∧ callingState.loc 2 = .call (some 8) := by
    decide +kernel
  ⟨hstate.1, hstate.2, h.1 1, h.2.2.1 (some 8)⟩

end LibDispatch.Workqueue.Scoreboard
