import LibDispatch.Workqueue.Overcommit

/-!
# Every item is executed once, in order

The items of one priority are taken in the order in which they were added, the queue of the
highest priority first, and each item that is taken is called once, by the worker that took it.
-/

namespace LibDispatch.Workqueue.Overcommit

open Interleaving Served

variable {T α : Type*} [DecidableEq T] {m m' : Mem T α} {l l' : Loc α} {t : T} {a : Act T α}

def record (_ : T) (_ : Act T α) (_ : Mem T α) (l : Loc α) (log : Log α) : Log α :=
  match l with
  | .addInsert i witem => log.add i witem
  | .remove i witem => log.take i witem
  | .run witem => log.finish witem
  | _ => log

def Loc.inHand : Loc α → Option α
  | .clear _ witem | .unlock witem | .run witem => some witem
  | _ => none

section Order

variable {log : Log α}

theorem Trans.inOrder (ht : Trans t m l m' l') (hS : Sound m l) (hI : InOrder log m.items) :
    InOrder (record t a m l log) m'.items := by
  cases ht
  case create i _ hnone =>
    refine hI.congr fun j ↦ ?_
    rcases eq_or_ne j i with rfl | hj <;> simp [Mem.items, *]
  case addInsert i witem =>
    exact hI.add (by simp [Mem.items]) fun j hj ↦ by simp [Mem.items, hj]
  case remove i witem =>
    exact hI.take hS.2.1 (by simp [Mem.items]) fun j hj ↦ by simp [Mem.items, hj]
  all_goals exact hI

variable [Fintype T] [DecidableEq α] {loc : T → Loc α}

def Loc.hands (witem : α) (l : Loc α) : ℤ := if l.inHand = some witem then 1 else 0

theorem Trans.taken (ht : Trans t m (loc t) m' l') (hS : Sound m (loc t)) (hM : Masked m loc)
    (witem : α) (hI : log.timesTaken workqNumPrioqueue witem =
      log.done.count witem + total (Loc.hands witem) loc) :
    (record t a m (loc t) log).timesTaken workqNumPrioqueue witem =
      (record t a m (loc t) log).done.count witem +
        total (Loc.hands witem) (Function.update loc t l') := by
  have hsum := total_update (Loc.hands witem) loc t l'
  generalize loc t = l at ht hS hsum
  cases ht
  case remove i x =>
    have htaken : (record t a m (.remove i x) log).timesTaken workqNumPrioqueue witem = _ :=
      timesTaken_take (hM.exists_of i (isSome_of_items hS.1)) x
    simp only [Loc.hands, Loc.inHand, Option.some.injEq] at hsum
    rw [htaken, hsum, hI]
    simp only [record, Log.take, reduceCtorEq, if_false, beq_iff_eq]
    ring
  case run x =>
    have hdone : ((record t a m (.run x) log).done.count witem : ℤ) = _ := count_finish x
    simp only [Loc.hands, Loc.inHand, Option.some.injEq] at hsum
    rw [hdone, hsum]
    simp only [reduceCtorEq, if_false, beq_iff_eq]
    have htaken : (record t a m (.run x) log).timesTaken workqNumPrioqueue witem =
      log.timesTaken workqNumPrioqueue witem := rfl
    omega
  all_goals
    rw [hsum]
    simpa [record, Log.add, Log.timesTaken, Loc.hands, Loc.inHand] using hI

end Order

section Runs

variable {s : Pool T (Mem T α × Log α) (Loc α)}

theorem consistent_of_observed
    (h : Pool.Reachable (step.observe record) (managerInit.recorded .empty) s) :
    Consistent s.mem.1 s.loc :=
  consistent_of_run (Pool.Runs.unobserved (C := fun _ _ _ ↦ True) h)

theorem inOrder_of_run
    (h : Pool.Reachable (step.observe record) (managerInit.recorded .empty) s) :
    InOrder s.mem.2 s.mem.1.items := by
  refine h.invariant (I := fun s ↦ InOrder s.mem.2 s.mem.1.items) (fun _ ↦ rfl) ?_
  intro s t a m l hr hI _ hP
  obtain ⟨hstep, hnext⟩ := Program.observe_eq_some hP
  rw [hnext]
  exact (trans_of_step hstep).inOrder ((consistent_of_observed hr).sound t) hI

variable [Fintype T] [DecidableEq α]

theorem taken_of_run
    (h : Pool.Reachable (step.observe record) (managerInit.recorded .empty) s) (witem : α) :
    s.mem.2.timesTaken workqNumPrioqueue witem =
      s.mem.2.done.count witem + total (Loc.hands witem) s.loc := by
  refine h.invariant (I := fun s ↦ s.mem.2.timesTaken workqNumPrioqueue witem =
      s.mem.2.done.count witem + total (Loc.hands witem) s.loc) ?_ ?_
  · simp [managerInit, Pool.recorded, Log.timesTaken, Log.empty, total, Loc.hands, Loc.inHand]
  · intro s t a m l hr hI _ hP
    obtain ⟨hstep, hnext⟩ := Program.observe_eq_some hP
    have hcons := consistent_of_observed hr
    rw [hnext]
    exact (trans_of_step hstep).taken (hcons.sound t) hcons.masked witem hI

/-- The items of one priority are taken in the order in which they were added; an item is
taken when all queues of a higher priority are empty; and every item has been called as often
as it has been taken, but for those that a worker has in hand. -/
theorem called_once_in_order
    (h : Pool.Reachable (step.observe record) (managerInit.recorded .empty) s) :
    (∀ i, s.mem.2.added i = s.mem.2.taken i ++ s.mem.1.items i) ∧
    (∀ t i witem, s.loc t = .remove i witem →
      (s.mem.1.items i).head? = some witem ∧ ∀ j < i, s.mem.1.items j = []) ∧
    ∀ witem, s.mem.2.timesTaken workqNumPrioqueue witem = s.mem.2.done.count witem +
      (Finset.univ.filter fun u ↦ (s.loc u).inHand = some witem).card := by
  refine ⟨inOrder_of_run h, fun t i witem ht ↦ ?_, fun witem ↦ ?_⟩
  · have hsound := (consistent_of_observed h).sound t
    rw [ht] at hsound
    exact hsound.2
  · have hhands := total_eq_card (fun l ↦ l.inHand = some witem) s.loc
    exact (taken_of_run h witem).trans (congrArg _ hhands)

end Runs

/-- Thread 1 has called item 7 and goes on with item 5 of a higher priority, which was added
after item 8. -/
def orderedState : Pool (Fin 2) (Mem (Fin 2) ℕ × Log ℕ) (Loc ℕ) :=
  ((managerInit.recorded Log.empty).run (step.observe record) (fun _ _ _ ↦ True)
    (List.flatten [[(0, .create 1), (0, .create 0), (0, .add 1 7)], .replicate 6 (0, .go),
      [(1, .start)], .replicate 6 (1, .go), [(0, .add 1 8)], .replicate 6 (0, .go),
      [(0, .add 0 5)], .replicate 6 (0, .go), .replicate 4 (1, .go)])).get (by decide +kernel)

theorem called_once_in_order_two :
    orderedState.mem.2.done = [7] ∧ orderedState.loc 1 = .remove 0 5 ∧
      orderedState.mem.2.added 1 = orderedState.mem.2.taken 1 ++ orderedState.mem.1.items 1 ∧
      orderedState.mem.2.timesTaken workqNumPrioqueue 7 = orderedState.mem.2.done.count 7 +
        (Finset.univ.filter fun u ↦ (orderedState.loc u).inHand = some 7).card :=
  have h := called_once_in_order (s := orderedState) (Pool.runs_get _)
  have hstate : orderedState.mem.2.done = [7] ∧ orderedState.loc 1 = .remove 0 5 := by
    decide +kernel
  ⟨hstate.1, hstate.2, h.1 1, h.2.2 7⟩

end LibDispatch.Workqueue.Overcommit
