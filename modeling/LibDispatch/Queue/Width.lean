import LibDispatch.Queue.Exclusion

/-!
# The width of a queue

A queue of width `w` lets at most `w` of its items run beside each other: the drain redirects
an item to the root queue only if it has found `dq_running` at most `2 * w`.  Other threads
count themselves in and out between the test and the increment, but none of them redirects
an item: the test is made by the thread that has the low bit.
-/

namespace LibDispatch.Queue

open Interleaving

variable {T Q : Type*}

/-- The counts of processors in `_dispatch_hw_config`. -/
structure HwConfig where
  ccMaxActive : ℕ
  ccMaxLogical : ℕ
  ccMaxPhysical : ℕ

/-- The value of `dq_width` after `dispatch_queue_set_width` on a private queue.  The argument
is truncated to an `int`, and the doubling is one of type `uint32_t`. -/
def dispatchQueueSetWidth (hw : HwConfig) (width : ℤ) : ℕ :=
  let w := width.bmod (2 ^ 32)
  if w = 1 ∨ w = 0 then 1
  else
    let tmp :=
      if 0 < w then w.toNat
      else if w = -2 then hw.ccMaxPhysical
      else if w = -1 then hw.ccMaxActive
      -- unknown negative values are taken for `DISPATCH_QUEUE_WIDTH_MAX_LOGICAL_CPUS`
      else hw.ccMaxLogical
    tmp * 2 % 2 ^ 32

/-- One if the thread has a redirected item in hand: on its way to the root queue, or from
there. -/
def Loc.redirecting : Loc T Q → ℤ
  | .redirectRetain _ | .redirectAlloc _ | .redirectPush _ | .crash | .redirectRun
  | .redirectLeave => 1
  | _ => 0

/-- The synchronous readers that a thread whose semaphore has the value `n` answers for:
itself, also before it backs out; the caller that it has counted and is about to signal;
itself if it has been signalled in the slow path. -/
def Loc.reading (l : Loc T Q) (n : ℕ) : ℤ :=
  match l with
  | .syncBackOff | .syncRun | .syncLeave | .slow2Signal .. => 1
  | l => l.signalled false n

/-- The drain has found room for another item and not yet used it. -/
def Loc.hasRoom : Loc T Q → Bool
  | .drainTarget .. | .drainBarrier .. | .drainPop .. | .redirectAdd _ => true
  | _ => false

theorem Loc.readers_eq (l : Loc T Q) (n : ℕ) :
    l.readers + l.signalled false n = l.redirecting + l.reading n := by
  cases l <;> simp [Loc.readers, Loc.redirecting, Loc.reading, Loc.signalled, Loc.call]

theorem Loc.redirecting_nonneg (l : Loc T Q) : 0 ≤ l.redirecting := by
  unfold Loc.redirecting
  split <;> decide

theorem Loc.reading_nonneg (l : Loc T Q) (n : ℕ) : 0 ≤ l.reading n := by
  unfold Loc.reading
  split
  all_goals first | decide | exact l.signalled_nonneg false n

theorem Loc.bit_of_hasRoom {l : Loc T Q} (h : l.hasRoom) : l.bit = 1 := by
  cases l <;> first | rfl | cases h

section Step

variable [DecidableEq T] [DecidableEq Q] {width : ℕ} {t : T} {m m' : Mem T Q} {l l' : Loc T Q}

theorem Trans.redirecting_le (h : Trans width t m l m' l') :
    m'.redirected + l'.redirecting ≤ m.redirected + l.redirecting ∨
      (∃ d, l = .redirectAdd d ∧ l' = .redirectRetain d) ∧ m'.redirected = m.redirected := by
  cases h
  case redirectAdd d => exact .inr ⟨⟨d, rfl, rfl⟩, rfl⟩
  case release k | pushLink k | wakeupSuspended k _ | wakeupEmpty k _ | wakeupMissed k _ |
      wakeupPush k => exact .inl (by cases k <;> exact le_rfl)
  case resumeInner | resumeOuter | barrierResume =>
    exact .inl (by rcases resumeLoc_cases m with hl | hl | hl <;> rw [hl] <;> exact le_rfl)
  case drainRun d | drainSetTarget d _ | slowSignal d _ | slow2Signal d _ =>
    exact .inl (by rcases drainLoop_cases (T := T) d with hl | hl <;> rw [hl] <;> exact le_rfl)
  case redirectPush d =>
    refine .inl ?_
    rcases drainLoop_cases (T := T) d with hl | hl <;> rw [hl] <;> simp [Loc.redirecting]
  case redirect2 hpos =>
    refine .inl ?_
    simp only [Loc.redirecting]
    omega
  case drainPop d dc =>
    refine .inl ?_
    cases dc <;> simp only [drainCall]
    case async barrier => split <;> exact le_rfl
    all_goals exact le_rfl
  case drainOut d dc hl =>
    refine .inl ?_
    rcases drainOut_eq d dc with ⟨ho, -⟩ | ⟨ho, -⟩ <;> rw [ho] <;>
      rcases hl with ⟨rfl, -⟩ | ⟨rfl, -⟩ | ⟨rfl, -⟩ | ⟨rfl, -⟩ <;> exact le_rfl
  case redirectLeave | redirectLeaveBusy =>
    refine .inl ?_
    simp [Loc.redirecting]
  all_goals exact .inl le_rfl

theorem Trans.hasRoom (h : Trans width t m l m' l') (hl' : l'.hasRoom) :
    l.hasRoom ∨ l.bit = 1 ∧ m.dqRunning ≤ width := by
  cases h
  case drainRunning hle => exact .inr ⟨rfl, hle⟩
  case drainTarget | drainTargetPop | drainBarrier | drainPop => exact .inl rfl
  case suspendInner => exact .inl hl'
  case release k | pushLink k | wakeupSuspended k _ | wakeupEmpty k _ | wakeupMissed k _ |
      wakeupPush k => cases k <;> cases hl'
  case resumeInner | resumeOuter | barrierResume =>
    rcases resumeLoc_cases m with hl | hl | hl <;> rw [hl] at hl' <;> cases hl'
  case drainRun d | drainSetTarget d _ | slowSignal d _ | slow2Signal d _ | redirectPush d =>
    rcases drainLoop_cases (T := T) d with hl | hl <;> rw [hl] at hl' <;> cases hl'
  case drainOut d dc _ =>
    rcases drainOut_eq d dc with ⟨ho, -⟩ | ⟨ho, -⟩ <;> rw [ho] at hl' <;> cases hl'
  all_goals cases hl'

end Step

/-! ## Whole runs -/

section Runs

variable [Fintype T]

def unfinished (m : Mem T Q) (loc : T → Loc T Q) : ℤ := m.redirected + ∑ u, (loc u).redirecting

/-- The synchronous readers that are counted in `dq_running`. -/
def syncReaders (m : Mem T Q) (loc : T → Loc T Q) : ℤ := ∑ u, (loc u).reading (m.sema u)

theorem unfinished_nonneg (m : Mem T Q) (loc : T → Loc T Q) : 0 ≤ unfinished m loc := by
  have hsum := Finset.sum_nonneg fun u (_ : u ∈ Finset.univ) ↦ (loc u).redirecting_nonneg
  unfold unfinished
  omega

variable [DecidableEq T] {m m' : Mem T Q} {loc : T → Loc T Q} {t : T} {l' : Loc T Q} {width w : ℕ}

theorem Accounts.running_split (h : Accounts m loc) :
    (m.dqRunning : ℤ) = 2 * (unfinished m loc + syncReaders m loc) + ∑ u, (loc u).bit := by
  have hshares : ∑ u, (loc u).runningShare (m.sema u) = ∑ u, (loc u).bit +
      2 * (∑ u, (loc u).redirecting + syncReaders m loc) := by
    unfold syncReaders
    rw [← Finset.sum_add_distrib, Finset.mul_sum, ← Finset.sum_add_distrib]
    refine Finset.sum_congr rfl fun u _ ↦ ?_
    rw [← Loc.readers_eq, Loc.runningShare]
    ring
  rw [h.running, hshares, unfinished]
  ring

theorem Accounts.sum_bit_eq_one (h : Accounts m loc) (ht : (loc t).bit = 1) :
    ∑ u, (loc u).bit = 1 := by
  rw [Finset.sum_eq_single t (fun u _ hut ↦ h.bit_of_ne ht hut) (by simp), ht]

theorem Accounts.unfinished_le (h : Accounts m loc) :
    2 * unfinished m loc + (loc t).bit ≤ m.dqRunning := by
  have hsplit := h.running_split
  have hreaders : 0 ≤ syncReaders m loc :=
    Finset.sum_nonneg fun u _ ↦ (loc u).reading_nonneg (m.sema u)
  have hnonneg : ∀ u ∈ Finset.univ, 0 ≤ (loc u).bit := fun u _ ↦ by
    rcases (loc u).bit_eq with hbit | hbit <;> omega
  have hbit := Finset.single_le_sum hnonneg (Finset.mem_univ t)
  omega

theorem unfinished_update (m m' : Mem T Q) (loc : T → Loc T Q) (t : T) (l' : Loc T Q) :
    unfinished m' (Function.update loc t l') =
      unfinished m loc - (m.redirected + (loc t).redirecting) +
        (m'.redirected + l'.redirecting) := by
  have hsum := Pool.sum_update (fun _ l ↦ l.redirecting) loc t l'
  unfold unfinished
  rw [hsum]
  ring

/-- At most `w` items are redirected, fewer if the drain has found room for another one, and
none if it has found itself alone. -/
structure Bounded (w : ℕ) (m : Mem T Q) (loc : T → Loc T Q) : Prop where
  le : unfinished m loc ≤ w
  room : ∀ u, (loc u).hasRoom → unfinished m loc + 1 ≤ w
  alone : ∀ u, (loc u).guarded (2 * w) → unfinished m loc ≤ 0

variable [DecidableEq Q]

theorem Trans.bounded (h : Trans (2 * w) t m (loc t) m' l') (hacc : Accounts m loc)
    (hb : Bounded w m loc) : Bounded w m' (Function.update loc t l') := by
  have hupdate := unfinished_update m m' loc t l'
  rcases h.redirecting_le with hle | ⟨⟨d, ht, rfl⟩, hsame⟩
  · have hmono : unfinished m' (Function.update loc t l') ≤ unfinished m loc := by omega
    have hread := hacc.unfinished_le (t := t)
    refine ⟨hmono.trans hb.le, fun u hu ↦ ?_, fun u hu ↦ hmono.trans ?_⟩
    · rcases eq_or_ne u t with rfl | hut
      · rw [Function.update_self] at hu
        rcases h.hasRoom hu with hroom | ⟨hbit, htest⟩
        · have := hb.room u hroom
          omega
        · omega
      · have := hb.room u (by simpa [hut] using hu)
        omega
    · rcases eq_or_ne u t with rfl | hut
      · rw [Function.update_self] at hu
        rcases h.guarded hu with hguarded | htest
        · exact hb.alone u hguarded
        · omega
      · exact hb.alone u (by simpa [hut] using hu)
  · -- the thread that redirects has the low bit, so that no other one has made a test
    have hbit : (loc t).bit = 1 := by rw [ht]; rfl
    have hself : ∀ u, (Function.update loc t (.redirectRetain d) u).bit = 1 → u = t := fun u hu ↦ by
      by_contra hut
      rw [Function.update_of_ne hut] at hu
      exact hut (hacc.bit_unique u t hu hbit)
    have hone : unfinished m' (Function.update loc t (.redirectRetain d)) =
      unfinished m loc + 1 := by
      rw [hupdate, ht, hsame]
      simp only [Loc.redirecting]
      ring
    refine ⟨by rw [hone]; exact hb.room t (by rw [ht]; rfl), fun u hu ↦ ?_, fun u hu ↦ ?_⟩
    · rw [hself u (Loc.bit_of_hasRoom hu), Function.update_self] at hu
      cases hu
    · rw [hself u (Loc.bit_of_guarded hu), Function.update_self] at hu
      cases hu

theorem bounded_of_run {C : Pool T (Mem T Q) (Loc T Q) → T → Act Q → Prop} {tq : Q}
    {s : Pool T (Mem T Q) (Loc T Q)} (h : Pool.Runs (step (2 * w)) C (created tq) s) :
    Bounded w s.mem s.loc := by
  refine h.invariant (I := fun s ↦ Bounded w s.mem s.loc) ?_ ?_
  · have hzero : unfinished (created tq).mem (created tq : Pool T (Mem T Q) (Loc T Q)).loc = 0 := by
      simp [unfinished, created, Loc.redirecting]
    refine ⟨by omega, fun u hu ↦ ?_, fun u hu ↦ ?_⟩ <;> cases hu
  · intro s t a m l hr hb _ hP
    exact (trans_of_step hP).bounded (accounts_of_run hr).1 hb

/-- Some thread has the low bit of `dq_running`: it is between its trylock and its unlock. -/
def Locked (s : Pool T (Mem T Q) (Loc T Q)) : Prop := ∃ t, (s.loc t).bit = 1

instance (s : Pool T (Mem T Q) (Loc T Q)) : Decidable (Locked s) :=
  inferInstanceAs (Decidable (∃ t, (s.loc t).bit = 1))

theorem width_respected {hw : HwConfig} {width : ℤ} {tq : Q} {s : Pool T (Mem T Q) (Loc T Q)}
    (hwidth : dispatchQueueSetWidth hw width = 2 * w)
    (h : Pool.Reachable (step (dispatchQueueSetWidth hw width)) (created tq) s) :
    unfinished s.mem s.loc ≤ w ∧
      (s.mem.dqRunning : ℤ) = 2 * (unfinished s.mem s.loc + syncReaders s.mem s.loc) +
        (if Locked s then 1 else 0) ∧
      ∀ t d dc, s.loc t = .drainPop d dc → dc.isBarrier → unfinished s.mem s.loc = 0 := by
  rw [hwidth] at h
  have hacc := (accounts_of_run h).1
  have hb := bounded_of_run h
  refine ⟨hb.le, ?_, fun t d dc ht hbar ↦ ?_⟩
  · rw [hacc.running_split]
    split
    · obtain ⟨t, ht⟩ := ‹Locked s›
      rw [hacc.sum_bit_eq_one ht]
    · have hfree : ∀ u ∈ Finset.univ, (s.loc u).bit = 0 := fun u _ ↦
        (s.loc u).bit_eq.resolve_right fun hbit ↦ ‹¬ Locked s› ⟨u, hbit⟩
      rw [Finset.sum_eq_zero hfree]
  · refine le_antisymm (hb.alone t ?_) (unfinished_nonneg s.mem s.loc)
    simp [ht, Loc.guarded, hbar]

end Runs

/-- On a queue of width two, thread 0 submits an item, thread 1 redirects it, and thread 0 has
counted itself as a reader before it finds the queue locked. -/
def redirectedState : Pool (Fin 2) (Mem (Fin 2) Unit) (Loc (Fin 2) Unit) :=
  ((created ()).run (step (dispatchQueueSetWidth ⟨1, 1, 1⟩ 2)) (fun _ _ _ ↦ True)
    ((0, Act.async false) :: List.replicate 10 (0, Act.go) ++ (1, Act.invoke ()) ::
      List.replicate 13 (1, Act.go) ++ (0, Act.sync) :: List.replicate 3 (0, Act.go))).get
    (by decide)

theorem width_respected_redirected :
    redirectedState.mem.dqRunning = 5 ∧ redirectedState.loc 0 = .syncBackOff ∧
      unfinished redirectedState.mem redirectedState.loc = 1 ∧
      unfinished redirectedState.mem redirectedState.loc ≤ (2 : ℕ) :=
  ⟨by decide, by decide, by decide,
    (width_respected (w := 2) (by decide) (Pool.runs_get _)).1⟩

end LibDispatch.Queue
