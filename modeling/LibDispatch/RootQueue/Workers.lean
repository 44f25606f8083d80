import LibDispatch.Interleaving.Refinement
import LibDispatch.RootQueue.Loop

/-!
# The workers of a root queue

With a kernel work queue, whoever finds items on a root queue requests a worker, unless a
request is pending; a worker that starts resets the flag before it looks at the queue.
Each worker drains the queue until it finds it empty or loses the race for it.

At every moment some thread is bound to look at a queue that is not empty: it has just
stored the head, it is about to test the list or to request a worker, it has been
requested, or it is a worker that will come back to the queue.
-/

namespace LibDispatch.RootQueue.Workers

open Interleaving TailList

/-- The root queue, the flag `dgq_pending`, and the workers that have been requested and
have not started. -/
structure Mem (α : Type*) where
  queue : RootQueue.Mem α
  dgqPending : ℕ
  requested : ℕ

/-- The places of a thread that wakes up a queue with a kernel work queue, and where a worker
starts. -/
inductive Own (α : Type*)
  | wakeupPending (k : After α)
  | request (k : After α)
  | start
  deriving DecidableEq

/-- Where a thread stands; after its loop a worker goes back to the kernel. -/
abbrev Loc (α : Type*) := Place α (Own α)

/-- What the threads and the kernel decide; `fail` is a request that fails. -/
inductive Act (α : Type*)
  | push (head : α) (rest : List α)
  | start
  | go
  | fail
  deriving DecidableEq

variable {α T : Type*}

def After.loc (k : After α) : Loc α := k.place .outside

variable [DecidableEq α]

/-- `_dispatch_queue_wakeup_global` with a kernel work queue. -/
def dispatchQueueWakeupGlobal (m : Mem α) : Loc α → Option (Mem α × Loc α)
  | .wakeup k =>
      some (m, if m.queue.dq.dqItemsTail = none then After.loc k else .own (.wakeupPending k))
  | .own (.wakeupPending k) =>
      if m.dgqPending = 0 then some ({ m with dgqPending := 1 }, .own (.request k))
      else some (m, After.loc k)
  | .own (.request k) => some ({ m with requested := m.requested + 1 }, After.loc k)
  | _ => none

def dispatchWorkerThread2 (m : Mem α) : Loc α → Option (Mem α × Loc α)
  | .own .start => some ({ m with dgqPending := 0 }, .loop)
  | l => (workerLoop .outside m.queue l).map fun r ↦ ({ m with queue := r.1 }, r.2)

/-- One step of a thread that pushes to the root queue or works for it.  A failed request is
logged, and that is all. -/
def step : Program T (Act α) (Mem α) (Loc α) := fun _ a m l ↦
  match l, a with
  | .outside, .push head rest =>
      (m.queue.dq.prepare head rest).map fun r ↦ ({ m with queue.dq := r.1 }, .push r.2)
  | .push p, .go =>
      let r := m.queue.dq.pushList p
      some ({ m with queue.dq := r.1 }, afterPush p r.2)
  | .outside, .start =>
      if 0 < m.requested then some ({ m with requested := m.requested - 1 }, .own .start)
      else none
  | .own (.request k), .fail => some (m, After.loc k)
  | l, .go => dispatchQueueWakeupGlobal m l <|> dispatchWorkerThread2 m l
  | _, _ => none

def created (doNext : α → Option α) : Pool T (Mem α) (Loc α) :=
  ⟨⟨⟨.empty doNext, 0, []⟩, 0, 0⟩, fun _ ↦ .outside⟩

/-! ## What a step can do -/

inductive Trans (m : Mem α) : Loc α → Mem α → Loc α → Prop
  | loop {q : RootQueue.Mem α} {l l' : Loc α} : LoopTrans .outside m.queue l q l' →
      Trans m l { m with queue := q } l'
  | begin : 0 < m.requested →
      Trans m .outside { m with requested := m.requested - 1 } (.own .start)
  | fail {k : After α} : Trans m (.own (.request k)) m (After.loc k)
  | wakeupEmpty {k : After α} : m.queue.dq.dqItemsTail = none →
      Trans m (.wakeup k) m (After.loc k)
  | wakeup {k : After α} : m.queue.dq.dqItemsTail ≠ none →
      Trans m (.wakeup k) m (.own (.wakeupPending k))
  | pending {k : After α} : m.dgqPending = 0 →
      Trans m (.own (.wakeupPending k)) { m with dgqPending := 1 } (.own (.request k))
  | pendingMissed {k : After α} : m.dgqPending ≠ 0 →
      Trans m (.own (.wakeupPending k)) m (After.loc k)
  | request {k : After α} :
      Trans m (.own (.request k)) { m with requested := m.requested + 1 } (After.loc k)
  | reset : Trans m (.own .start) { m with dgqPending := 0 } .loop

variable {m m' : Mem α} {l l' : Loc α} {t : T} {a : Act α}

theorem trans_of_wakeup (h : dispatchQueueWakeupGlobal m l = some (m', l')) :
    Trans m l m' l' := by
  unfold dispatchQueueWakeupGlobal at h
  split at h
  · cases h
    split
    · exact .wakeupEmpty ‹_›
    · exact .wakeup ‹_›
  · split at h <;> cases h
    · exact .pending ‹_›
    · exact .pendingMissed ‹_›
  · cases h
    exact .request
  · cases h

theorem trans_of_worker (h : dispatchWorkerThread2 m l = some (m', l')) : Trans m l m' l' := by
  unfold dispatchWorkerThread2 at h
  split at h
  · cases h
    exact .reset
  · obtain ⟨r, hr, heq⟩ := Option.map_eq_some_iff.mp h
    cases heq
    exact .loop (loopTrans_of_worker hr)

theorem trans_of_step (h : step t a m l = some (m', l')) : Trans m l m' l' := by
  unfold step at h
  split at h
  · obtain ⟨⟨i, p⟩, hp, heq⟩ := Option.map_eq_some_iff.mp h
    cases heq
    exact .loop (.prepare hp)
  · cases h
    exact .loop (.push rfl)
  · split at h <;> cases h
    exact .begin ‹_›
  · cases h
    exact .fail
  · simp only [Option.orElse_eq_orElse, Option.orElse_eq_or, Option.or_eq_some_iff] at h
    rcases h with h | ⟨-, h⟩
    · exact trans_of_wakeup h
    · exact trans_of_worker h
  · cases h

/-! ## The list -/

def Own.base : Own α → RootQueue.Loc α
  | .wakeupPending k | .request k => k.base
  | .start => .idle

theorem base_reachable [DecidableEq T] {C : Pool T (Mem α) (Loc α) → T → Act α → Prop}
    {doNext : α → Option α} {s : Pool T (Mem α) (Loc α)}
    (h : Pool.Runs step C (created doNext) s) :
    Pool.Reachable RootQueue.step (RootQueue.created doNext)
      ⟨s.mem.queue, fun t ↦ (s.loc t).base Own.base⟩ := by
  refine h.refines Mem.queue (Place.base Own.base) fun t a m l m' l' hP ↦ ?_
  cases trans_of_step hP
  case loop hloop => exact hloop.base rfl t
  case fail | wakeupEmpty | pendingMissed | request => exact .inl ⟨rfl, base_place rfl _⟩
  all_goals exact .inl ⟨rfl, rfl⟩

/-! ## The flag -/

/-- The thread answers for a pending request: it is about to make it, or it is the worker
that has not yet reset the flag. -/
def Own.unreset : Own α → Bool
  | .request _ | .start => true
  | .wakeupPending _ => false

def unreset (l : Loc α) : Bool := l.isOwn Own.unreset

/-- At most one request is pending, and the flag shows it. -/
structure Token (m : Mem α) (loc : T → Loc α) : Prop where
  le_one : m.requested ≤ 1
  unique : ∀ t u, unreset (loc t) → unreset (loc u) → t = u
  excl : ∀ t, unreset (loc t) → m.requested = 0
  free : m.dgqPending = 0 → m.requested = 0 ∧ ∀ t, unreset (loc t) = false

omit [DecidableEq α] in
theorem unreset_afterLoc (k : After α) : unreset (After.loc k) = false := by
  cases k <;> rfl

section Token

variable [DecidableEq T] {loc : T → Loc α}

omit [DecidableEq α] in
theorem unreset_update {u : T} (hl' : unreset l' = false)
    (hu : unreset (Function.update loc t l' u)) : unreset (loc u) ∧ u ≠ t := by
  rcases eq_or_ne u t with rfl | hut
  · simp [hl'] at hu
  · exact ⟨by simpa [hut] using hu, hut⟩

omit [DecidableEq α] in
theorem Token.stay (h : Token m loc) (hreq : m'.requested = m.requested)
    (hpend : m'.dgqPending = m.dgqPending) (hl' : unreset l' = false) :
    Token m' (Function.update loc t l') := by
  obtain ⟨le_one, unique, excl, free⟩ := h
  refine ⟨by rwa [hreq], fun u v hu hv ↦ ?_, fun u hu ↦ ?_, fun hp ↦ ?_⟩
  · exact unique u v (unreset_update hl' hu).1 (unreset_update hl' hv).1
  · rw [hreq]
    exact excl u (unreset_update hl' hu).1
  · rw [hreq]
    refine (free (hpend ▸ hp)).imp_right fun hall u ↦ ?_
    rcases eq_or_ne u t with rfl | hut <;> simp [*]

theorem Trans.token (h : Trans m (loc t) m' l') (hT : Token m loc) :
    Token m' (Function.update loc t l') := by
  generalize ht : loc t = l at h
  cases h
  case loop hloop => exact hT.stay rfl rfl (hloop.isOwn_eq_false rfl).2
  case wakeup => exact hT.stay rfl rfl rfl
  case fail | wakeupEmpty | pendingMissed => exact hT.stay rfl rfl (unreset_afterLoc _)
  case begin hpos =>
    have hone : m.requested = 1 := le_antisymm hT.le_one hpos
    have hnone : ∀ u, unreset (loc u) = false := fun u ↦ by
      by_contra hu
      rw [Bool.not_eq_false] at hu
      have := hT.excl u hu
      omega
    have hself : ∀ u, unreset (Function.update loc t (.own .start) u) → u = t := fun u hu ↦ by
      by_contra hut
      simp [hut, hnone u] at hu
    refine ⟨by simp [hone], fun u v hu hv ↦ (hself u hu).trans (hself v hv).symm, fun _ _ ↦ ?_,
      fun hp ↦ ?_⟩
    · simp [hone]
    · have := (hT.free hp).1
      omega
  case pending k hfree =>
    obtain ⟨hreq, hnone⟩ := hT.free hfree
    have hself : ∀ u, unreset (Function.update loc t (.own (.request k)) u) → u = t := fun u hu ↦ by
      by_contra hut
      simp [hut, hnone u] at hu
    exact ⟨hT.le_one, fun u v hu hv ↦ (hself u hu).trans (hself v hv).symm, fun _ _ ↦ hreq, nofun⟩
  case request k =>
    have hmine : unreset (loc t) := by rw [ht]; rfl
    have hreq := hT.excl t hmine
    have hnone : ∀ u, unreset (Function.update loc t (After.loc k) u) = false := fun u ↦ by
      by_contra hu
      rw [Bool.not_eq_false] at hu
      obtain ⟨hu, hut⟩ := unreset_update (unreset_afterLoc k) hu
      exact hut (hT.unique u t hu hmine)
    refine ⟨by simp [hreq], fun u _ hu ↦ ?_, fun u hu ↦ ?_, fun hp ↦ ?_⟩
    · simp [hnone u] at hu
    · simp [hnone u] at hu
    · have hfalse := (hT.free hp).2 t
      rw [hmine] at hfalse
      cases hfalse
  case reset =>
    have hmine : unreset (loc t) := by rw [ht]; rfl
    have hnone : ∀ u, unreset (Function.update loc t .loop u) = false := fun u ↦ by
      by_contra hu
      rw [Bool.not_eq_false] at hu
      obtain ⟨hu, hut⟩ := unreset_update (rfl : unreset (.loop : Loc α) = false) hu
      exact hut (hT.unique u t hu hmine)
    refine ⟨hT.le_one, fun u _ hu ↦ ?_, fun u hu ↦ ?_, fun _ ↦ ⟨hT.excl t hmine, hnone⟩⟩
    · simp [hnone u] at hu
    · simp [hnone u] at hu

end Token

/-! ## Somebody looks after the queue -/

def attends (l : Loc α) : Bool := l.attends fun _ ↦ true

omit [DecidableEq α] in
theorem attends_of_unreset (h : unreset l) : attends l := by
  cases l <;> first | rfl | cases h

section Attended

variable [DecidableEq T] {loc : T → Loc α}

theorem Trans.pending_attended (h : Trans m (loc t) m' l')
    (hok : ∀ k, loc t = .own (.request k) → m'.requested = m.requested + 1)
    (hI : m.dgqPending ≠ 0 → m.requested ≠ 0 ∨ ∃ t, unreset (loc t))
    (hpend : m'.dgqPending ≠ 0) :
    m'.requested ≠ 0 ∨ ∃ u, unreset (Function.update loc t l' u) := by
  generalize ht : loc t = l at h hok
  cases h
  case begin | pending => exact .inr (exists_self rfl)
  case request | fail => exact .inl (by rw [hok _ rfl]; omega)
  case reset => exact absurd rfl hpend
  case loop hloop =>
    exact (hI hpend).imp_right (exists_update (by rw [ht]; exact (hloop.isOwn_eq_false rfl).1))
  all_goals exact (hI hpend).imp_right (exists_update (by rw [ht]; rfl))

theorem Trans.tail_attended {gone chain : List α} (h : Trans m (loc t) m' l')
    (hnum : Numbered m.queue (fun u ↦ (loc u).base Own.base) gone chain)
    (hok : ∀ k, loc t = .own (.request k) → m'.requested = m.requested + 1)
    (hpending : m.dgqPending ≠ 0 → m.requested ≠ 0 ∨ ∃ t, unreset (loc t))
    (hI : m.queue.dq.dqItemsTail ≠ none → m.requested ≠ 0 ∨ ∃ t, attends (loc t))
    (htail : m'.queue.dq.dqItemsTail ≠ none) :
    m'.requested ≠ 0 ∨ ∃ u, attends (Function.update loc t l' u) := by
  generalize ht : loc t = l at h hok
  cases h
  case loop hloop =>
    rw [← ht] at hloop
    rcases hloop.attended (g := fun _ ↦ true) hnum htail with hself | ⟨u, hut, hu⟩ | ⟨hold, hno, -⟩
    · exact .inr (exists_self hself)
    · exact .inr ⟨u, by simpa [hut, attends] using attends_of_hold (fun _ _ ↦ rfl) hu⟩
    · exact (hI hold).imp_right (exists_update hno)
  case wakeupEmpty hnone => exact absurd hnone htail
  case request | fail => exact .inl (by rw [hok _ rfl]; omega)
  case pendingMissed hset =>
    refine (hpending hset).imp_right fun ⟨u, hu⟩ ↦ ?_
    have hut : u ≠ t := by
      rintro rfl
      rw [ht] at hu
      cases hu
    exact ⟨u, by simpa [hut] using attends_of_unreset hu⟩
  all_goals exact .inr (exists_self rfl)

end Attended

/-! ## No work is stranded -/

section Runs

variable [DecidableEq T] {doNext : α → Option α} {s : Pool T (Mem α) (Loc α)}

theorem token_of_run (h : Pool.Reachable step (created doNext) s) : Token s.mem s.loc := by
  induction h with
  | refl => exact ⟨Nat.zero_le 1, nofun, nofun, fun _ ↦ ⟨rfl, fun _ ↦ rfl⟩⟩
  | step _ _ hs ih =>
      obtain ⟨m', l', hP, rfl⟩ := Pool.step_eq_some hs
      exact (trans_of_step hP).token ih

omit [DecidableEq T] in
theorem requested_of_step (h : step t a m l = some (m', l')) (ha : a ≠ .fail) (k : After α)
    (hl : l = .own (.request k)) : m'.requested = m.requested + 1 := by
  subst hl
  cases a <;> cases h <;> first | rfl | exact absurd rfl ha

structure Attended (m : Mem α) (loc : T → Loc α) : Prop where
  pending : m.dgqPending ≠ 0 → m.requested ≠ 0 ∨ ∃ t, unreset (loc t)
  tail : m.queue.dq.dqItemsTail ≠ none → m.requested ≠ 0 ∨ ∃ t, attends (loc t)

theorem attended_of_run (h : Pool.Runs step (fun _ _ a ↦ a ≠ .fail) (created doNext) s) :
    Attended s.mem s.loc := by
  induction h with
  | refl => exact ⟨fun h ↦ absurd rfl h, fun h ↦ absurd rfl h⟩
  | step hrun ha hs ih =>
      obtain ⟨m', l', hP, rfl⟩ := Pool.step_eq_some hs
      obtain ⟨gone, chain, hnum⟩ := numbered_of_run (base_reachable hrun)
      have htrans := trans_of_step hP
      have hok := requested_of_step hP ha
      exact ⟨htrans.pending_attended hok ih.1, htrans.tail_attended hnum hok ih.1 ih.2⟩

/-- The requests of a root queue are exact: at most one requested worker has not passed its
reset of `dgq_pending`, and if no request fails, the queue is empty and the flag reset
whenever no thread is inside of the library and no worker is outstanding. -/
theorem no_stranded_work (h : Pool.Reachable step (created doNext) s) :
    (s.mem.requested ≤ 1 ∧ (∀ t u, s.loc t = .own .start → s.loc u = .own .start → t = u) ∧
      ∀ t, s.loc t = .own .start → s.mem.requested = 0) ∧
    (Pool.Runs step (fun _ _ a ↦ a ≠ .fail) (created doNext) s →
      (∀ t, s.loc t = .outside) → s.mem.requested = 0 →
        s.mem.queue.dq.dqItemsTail = none ∧ s.mem.queue.dq.dqItemsHead = .null ∧
          s.mem.dgqPending = 0) := by
  have hT := token_of_run h
  refine ⟨⟨hT.le_one, fun t u ht hu ↦ hT.unique t u (by rw [ht]; rfl) (by rw [hu]; rfl),
    fun t ht ↦ hT.excl t (by rw [ht]; rfl)⟩, fun hrun hidle hreq ↦ ?_⟩
  have hI := attended_of_run hrun
  have hno : ∀ {f : Loc α → Bool}, f .outside = false → ¬ ∃ t, f (s.loc t) := by
    rintro f hf ⟨t, ht⟩
    rw [hidle t, hf] at ht
    cases ht
  have htail : s.mem.queue.dq.dqItemsTail = none := by
    by_contra htail
    exact (hI.tail htail).elim (absurd hreq) (hno rfl)
  have hhead := head_of_tail htail (base_reachable hrun) fun hmed ↦
    hno (f := fun l ↦ (l.base Own.base).repairs) rfl (repairing_of_run (base_reachable hrun) hmed)
  refine ⟨htail, hhead, ?_⟩
  by_contra hpend
  exact (hI.pending hpend).elim (absurd hreq) (hno rfl)

end Runs

/-- The state after one push to an empty queue, by a worker that takes the item and finds the
queue empty when it comes back. -/
def workedState : Pool (Fin 2) (Mem ℕ) (Loc ℕ) :=
  ((created fun _ ↦ none).run step (fun _ _ a ↦ a ≠ .fail)
    ((0, Act.push 7 []) :: List.replicate 6 (0, Act.go) ++
      (1, Act.start) :: List.replicate 9 (1, Act.go))).get (by decide)

theorem no_stranded_work_once :
    workedState.mem.queue.returned = [(0, .item 7)] ∧ workedState.mem.queue.dq.dqItemsTail = none ∧
      workedState.mem.queue.dq.dqItemsHead = .null ∧ workedState.mem.dgqPending = 0 :=
  have hrun := Pool.runs_get (P := step) _
  ⟨by decide, (no_stranded_work hrun.reachable).2 hrun (by decide) (by decide)⟩

/-- The same push, with a kernel that refuses the request. -/
def refusedState : Pool (Fin 2) (Mem ℕ) (Loc ℕ) :=
  ((created fun _ ↦ none).run step (fun _ _ _ ↦ True)
    ((0, .push 7 []) :: List.replicate 5 (0, .go) ++ [(0, .fail)])).get (by decide)

/-- A request that fails strands the item, and the flag keeps later pushers from asking again. -/
theorem stranded_by_refusal :
    Pool.Reachable step (created fun _ ↦ none) refusedState ∧
      (∀ t, refusedState.loc t = .outside) ∧ refusedState.mem.requested = 0 ∧
        refusedState.mem.queue.dq.dqItemsTail = some 7 ∧ refusedState.mem.dgqPending = 1 :=
  ⟨Pool.runs_get _, by decide⟩

end LibDispatch.RootQueue.Workers
