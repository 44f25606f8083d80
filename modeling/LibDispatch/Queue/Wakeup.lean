import LibDispatch.Queue.Exclusion

/-!
# No lost wakeup of a queue

A wakeup is dropped if the queue is suspended, if its suspend count is not zero, or if
`dq_running` has not come down to zero.  Whoever removes the last of these obstacles looks
at the queue again, so a queue with items is on the list of its target queue, or locked by
items that have not finished.
-/

namespace LibDispatch.Queue

open Interleaving

variable {T Q : Type*}

/-- The queue has items, and nothing keeps them from being run. -/
def Mem.Stalled (m : Mem T Q) : Prop := m.items ≠ [] ∧ m.doSuspendCnt = 0 ∧ m.dqRunning = 0

/-- The thread will look whether the queue has to be woken up. -/
def Loc.wakes : Loc T Q → Bool
  | .pushRetain _ | .pushHead _ | .wakeup _ | .wakeupProbe _ | .wakeupLock _
  | .invokeRunning => true
  | _ => false

/-- The references in the hands of a thread when the function it is in returns. -/
def After.refs : After → ℤ
  | .release k => 1 + k.refs
  | _ => 0

/-- The references to the queue in the hands of a thread. -/
def Loc.refs : Loc T Q → ℤ
  | .pushExchange _ k | .pushLink k | .pushRetain k | .wakeup k | .wakeupProbe k
  | .wakeupLock k | .wakeupRetain k => k.refs
  | .pushHead k | .wakeupTarget k | .wakeupPush _ k | .release k => 1 + k.refs
  | .redirectRun | .redirectLeave | .invokeTarget | .invokeSuspended _ | .invokeLock _
  | .invokeCompare _ | .invokeReload | .invokeUnlock _ | .invokePush _ | .invokeSubLock
  | .invokeRunning | .drainOrig _ | .drainTail _ | .drainTake _ | .drainSuspended ..
  | .drainRunning .. | .drainTarget .. | .drainBarrier .. | .drainPop .. | .drainRun _
  | .drainSetTarget .. | .slowSuspend .. | .slowSignal .. | .slow2Add .. | .slow2Signal ..
  | .redirectAdd _ | .redirectRetain _ | .outSwap .. | .outFront .. | .outHead _ => 1
  | .redirectAlloc _ | .redirectPush _ | .crash => 2
  | _ => 0

/-- The target queue that a thread has read in order to put the queue on its list. -/
def Loc.pushes : Loc T Q → Option Q
  | .wakeupPush tq _ | .invokeUnlock (some tq) | .invokePush tq => some tq
  | _ => none

theorem refs_afterLoc (t : T) (k : After) : (k.loc t : Loc T Q).refs = k.refs := by
  cases k <;> rfl

theorem Loc.lock_of_pushes {l : Loc T Q} {tq : Q} (h : l.pushes = some tq) : l.lock = 1 := by
  cases l <;> first | rfl | cases h

theorem LockUnique.linked_eq_nil [Fintype T] {m : Mem T Q} {loc : T → Loc T Q} {t : T}
    (h : LockUnique m loc) (ht : (loc t).lock = 1) : m.linked = [] := by
  have hle := Finset.single_le_sum (f := fun u ↦ (loc u).lock)
    (fun u _ ↦ (loc u).lock_nonneg) (Finset.mem_univ t)
  unfold LockUnique at h
  exact List.length_eq_zero_iff.mp (by omega)

section Steps

variable [DecidableEq T] [DecidableEq Q] {width : ℕ} {t : T} {m m' : Mem T Q} {l l' : Loc T Q}

omit [DecidableEq T] [DecidableEq Q] in
theorem drainCall_held (d : Drain Q) (dc : Item T Q) :
    (drainCall width d dc).refs = 1 ∧ (drainCall width d dc).pushes = none := by
  cases dc
  case async barrier =>
    simp only [drainCall]
    split <;> exact ⟨rfl, rfl⟩
  all_goals exact ⟨rfl, rfl⟩

/-- A step that leaves the queue stalled is taken by a thread that will wake it up, or
finds the queue stalled and does not belong to such a thread. -/
theorem Trans.stalled (h : Trans width t m l m' l')
    (hle : l.lock + 2 * l.handed + m.linked.length + 2 * (m.inner + m.outer) ≤ m.doSuspendCnt)
    (hm' : m'.Stalled) : l'.wakes ∨ (m.Stalled ∧ l.wakes = false) := by
  obtain ⟨hitems, hcnt, hrun⟩ := hm'
  cases h
  case suspendInner hexec =>
    simp only at hcnt
    omega
  case exchangeBehind hne => exact .inr ⟨⟨hne, hcnt, hrun⟩, rfl⟩
  case resumeInner | resumeOuter | barrierResume =>
    have htwo : m.doSuspendCnt = 2 := by
      simp only [Loc.lock, Loc.bit, Loc.handed] at hle
      dsimp only at hcnt
      omega
    left
    simp [resumeLoc, htwo, suspendInterval, Loc.wakes]
  case drainOut d dc hl =>
    rcases hl with ⟨rfl, -⟩ | ⟨rfl, -⟩ | ⟨rfl, -⟩ | ⟨rfl, -⟩ <;>
      simp only [Loc.lock, Loc.bit, Loc.handed] at hle <;> omega
  all_goals first
    | exact .inl rfl
    | exact .inr ⟨⟨hitems, hcnt, hrun⟩, rfl⟩
    | exact (hitems ‹_›).elim
    | simp only [Loc.lock, Loc.bit, Loc.handed] at hle hcnt hrun
      omega

theorem Trans.refs_eq (h : Trans width t m l m' l') :
    m'.doRefCnt - m'.linked.length - m'.redirected - l'.refs =
      m.doRefCnt - m.linked.length - m.redirected - l.refs := by
  cases h
  case pushLink k | wakeupSuspended k _ | wakeupEmpty k _ | wakeupMissed k _ =>
    rw [refs_afterLoc]
    rfl
  case release k =>
    rw [refs_afterLoc]
    simp only [Loc.refs]
    ring
  case wakeupPush k =>
    rw [refs_afterLoc]
    simp only [Loc.refs, List.length_cons]
    push_cast
    ring
  case resumeInner | resumeOuter | barrierResume =>
    rcases resumeLoc_cases m with hl | hl | hl <;> rw [hl] <;> rfl
  case invoke hmem =>
    have hlen := List.length_erase_of_mem hmem
    have hpos := List.length_pos_of_mem hmem
    simp only [Loc.refs]
    omega
  case drainOut d dc hl =>
    rcases drainOut_eq d dc with ⟨ho, -⟩ | ⟨ho, -⟩ <;> rw [ho] <;>
      rcases hl with ⟨rfl, -⟩ | ⟨rfl, -⟩ | ⟨rfl, -⟩ | ⟨rfl, -⟩ <;> rfl
  case drainPop d dc => rw [(drainCall_held d dc).1]; rfl
  case drainRun d | drainSetTarget d _ | slowSignal d _ | slow2Signal d _ =>
    rcases drainLoop_cases (T := T) d with hl | hl <;> rw [hl] <;> rfl
  case redirectPush d =>
    rcases drainLoop_cases (T := T) d with hl | hl <;> rw [hl] <;>
      simp only [Loc.refs] <;> push_cast <;> ring
  all_goals try rfl
  all_goals
    simp only [Loc.refs, List.length_cons]
    omega

theorem Trans.doTargetq_eq (h : Trans width t m l m' l') :
    m'.doTargetq = m.doTargetq ∨ (l.lock = 1 ∧ m'.linked = m.linked ∧ l'.pushes = none) := by
  cases h
  case drainSetTarget d tq =>
    refine .inr ⟨rfl, rfl, ?_⟩
    rcases drainLoop_cases (T := T) d with hl | hl <;> rw [hl] <;> rfl
  all_goals exact .inl rfl

theorem Trans.pushes (h : Trans width t m l m' l') (hl : ∀ tq ∈ l.pushes, tq = m.doTargetq)
    (hlinked : ∀ tq ∈ m.linked, tq = m.doTargetq) (heq : m'.doTargetq = m.doTargetq) :
    (∀ tq ∈ l'.pushes, tq = m'.doTargetq) ∧ ∀ tq ∈ m'.linked, tq = m'.doTargetq := by
  cases h
  case suspendInner => exact ⟨hl, hlinked⟩
  case wakeupTarget | invokeReload => exact ⟨by simp [Loc.pushes], hlinked⟩
  case wakeupPush tq k =>
    have htq : tq = m.doTargetq := hl tq rfl
    exact ⟨by cases k <;> simp [After.loc, Loc.pushes], by simpa using ⟨htq, hlinked⟩⟩
  case invokeUnlockMoved => exact ⟨hl, hlinked⟩
  case invokePush tq =>
    have htq : tq = m.doTargetq := hl tq rfl
    exact ⟨by simp [Loc.pushes], by simpa using ⟨htq, hlinked⟩⟩
  case invoke hmem =>
    exact ⟨by simp [Loc.pushes], fun q hq ↦ hlinked q (List.mem_of_mem_erase hq)⟩
  case release k | pushLink k | wakeupSuspended k _ | wakeupEmpty k _ | wakeupMissed k _ =>
    exact ⟨by cases k <;> simp [After.loc, Loc.pushes], hlinked⟩
  case resumeInner | resumeOuter | barrierResume =>
    rcases resumeLoc_cases m with h | h | h <;> rw [h] <;> exact ⟨by simp [Loc.pushes], hlinked⟩
  case drainRun d | slowSignal d _ | slow2Signal d _ | redirectPush d =>
    rcases drainLoop_cases (T := T) d with h | h <;> rw [h] <;>
      exact ⟨by simp [Loc.pushes], hlinked⟩
  case drainSetTarget d _ =>
    rcases drainLoop_cases (T := T) d with h | h <;> rw [h] <;>
      exact ⟨by simp [Loc.pushes], heq ▸ hlinked⟩
  case drainOut d dc _ =>
    rcases drainOut_eq d dc with ⟨ho, -⟩ | ⟨ho, -⟩ <;> rw [ho] <;>
      exact ⟨by simp [Loc.pushes], hlinked⟩
  case drainPop d dc =>
    exact ⟨by simp [(drainCall_held d dc).2], hlinked⟩
  all_goals exact ⟨by simp [Loc.pushes], hlinked⟩

theorem Trans.wakeup_of_running (h : Trans width t m l m' l') (hrun : m.dqRunning ≠ 0)
    (hrun' : m'.dqRunning = 0) : (∃ k, l' = .wakeup k) ∨ ∃ tq, l = .invokeUnlock tq := by
  cases h
  case barrierUnlock | syncBackOff | syncLeave | redirectLeave => exact .inl ⟨_, rfl⟩
  case invokeUnlock | invokeUnlockMoved => exact .inr ⟨_, rfl⟩
  all_goals first | exact (hrun hrun').elim | simp_all

theorem Trans.draining (h : Trans width t m l m' l') (hrun : m.dqRunning ≠ 0)
    (hl' : l'.bit = 1 ∧ l'.lock = 1) : l.bit = 1 ∧ l.lock = 1 := by
  cases h
  case suspendInner => exact hl'
  case invokeLock hfree | barrierLock hfree => exact (hrun hfree).elim
  case barrierRun => cases hl'.2
  case release k | pushLink k | wakeupSuspended k _ | wakeupEmpty k _ | wakeupMissed k _ |
      wakeupPush k => cases k <;> cases hl'.1
  case resumeInner | resumeOuter | barrierResume =>
    rcases resumeLoc_cases m with h | h | h <;> rw [h] at hl' <;> cases hl'.1
  case drainOut hl =>
    rcases hl with ⟨rfl, -⟩ | ⟨rfl, -⟩ | ⟨rfl, -⟩ | ⟨rfl, -⟩ <;> exact ⟨rfl, rfl⟩
  all_goals first | exact ⟨rfl, rfl⟩ | cases hl'.1

end Steps

/-! ## Whole runs -/

section Runs

variable [DecidableEq T] [DecidableEq Q] [Fintype T] {width : ℕ} {tq : Q}
  {C : Pool T (Mem T Q) (Loc T Q) → T → Act Q → Prop} {s : Pool T (Mem T Q) (Loc T Q)}

theorem lockUnique_of_run (h : Pool.Runs (step width) C (created tq) s) :
    LockUnique s.mem s.loc := by
  refine h.invariant (I := fun s ↦ LockUnique s.mem s.loc)
    (by simp [created, LockUnique, Loc.lock, Loc.bit]) ?_
  intro s t a m l hr hI _ hP
  exact (trans_of_step hP).lockUnique (accounts_of_run hr).1 hI

/-- The references to a queue: its own, that of the list it is on, those of its redirected
items, and those in the hands of threads. -/
theorem refs_of_run (h : Pool.Runs (step width) C (created tq) s) :
    s.mem.doRefCnt = 1 + s.mem.linked.length + s.mem.redirected + ∑ t, (s.loc t).refs := by
  have hbal := h.balance
    (fun m ↦ m.doRefCnt - (m.linked.length : ℤ) - (m.redirected : ℤ) - 1) (fun _ l ↦ l.refs)
    (by simp [created, Loc.refs]) ?_
  · omega
  · intro s t a m l _ _ _ hP
    have heq := (trans_of_step hP).refs_eq
    omega

theorem wakes_of_run (h : Pool.Runs (step width) C (created tq) s) (hs : s.mem.Stalled) :
    ∃ t, (s.loc t).wakes := by
  refine h.exists_loc (N := Mem.Stalled) (R := fun l ↦ l.wakes = true) ?_ ?_ hs
  · simp [created, Mem.Stalled]
  · intro s t a m l hr _ hP hN
    have hshare := (accounts_of_run hr).1.share_le_suspend t
    have hle := ((s.loc t).shares_le (s.mem.sema t)).2.2.2
    simpa using (trans_of_step hP).stalled (by omega) hN

theorem linked_of_run (h : Pool.Runs (step width) C (created tq) s) :
    (∀ q ∈ s.mem.linked, q = s.mem.doTargetq) ∧
      ∀ t, ∀ q ∈ (s.loc t).pushes, q = s.mem.doTargetq := by
  refine h.invariant (I := fun s ↦ (∀ q ∈ s.mem.linked, q = s.mem.doTargetq) ∧
    ∀ t, ∀ q ∈ (s.loc t).pushes, q = s.mem.doTargetq) (by simp [created, Loc.pushes]) ?_
  rintro s t a m l hr ⟨hlinked, hpushes⟩ - hP
  have htrans := trans_of_step hP
  have hlock := lockUnique_of_run hr
  rcases htrans.doTargetq_eq with heq | ⟨hone, hsame, hnone⟩
  · obtain ⟨hl, hm⟩ := htrans.pushes (hpushes t) hlinked heq
    refine ⟨hm, fun u ↦ ?_⟩
    rcases eq_or_ne u t with rfl | hu
    · simpa using hl
    · simpa [hu, heq] using hpushes u
  · have hempty : s.mem.linked = [] := hlock.linked_eq_nil hone
    refine ⟨by simp [hsame, hempty], fun u ↦ ?_⟩
    rcases eq_or_ne u t with rfl | hu
    · simp [hnone]
    · have hzero := hlock.eq_zero hone hu
      intro q hq
      replace hq : q ∈ (s.loc u).pushes := by simpa [hu] using hq
      rw [Loc.lock_of_pushes hq] at hzero
      cases hzero

theorem lock_of_run (h : Pool.Runs (step width) C (created tq) s) :
    (s.mem.doSuspendCnt % 2 : ℕ) = s.mem.linked.length + ∑ t, (s.loc t).lock := by
  have hlock := lockUnique_of_run h
  have heq := (accounts_of_run h).1.handovers_eq
  have hnonneg : 0 ≤ ∑ t, (s.loc t).lock := Finset.sum_nonneg fun t _ ↦ (s.loc t).lock_nonneg
  unfold handovers at heq
  unfold LockUnique at hlock
  omega

end Runs

/-! ## Queues at rest -/

/-- The thread is in none of the functions of the library, or waits for its turn, or is in
the function of an item that it does not run in a drain. -/
def Loc.atRest (n : ℕ) : Loc T Q → Bool
  | .idle | .barrierRun | .barrierSlowRun | .syncRun | .redirectRun => true
  | .barrierWait | .syncWait => n = 0
  | _ => false

/-- The thread has set the lock bit in order to put the queue on the list of its target. -/
def Loc.linking : Loc T Q → Bool
  | .wakeupRetain _ | .wakeupTarget _ | .wakeupPush .. => true
  | _ => false

/-- The thread has taken the queue off a list and is in `_dispatch_queue_invoke`, up to the
point where it clears the lock bit or puts the queue on another list. -/
def Loc.invoking : Loc T Q → Bool
  | .barrierRun | .barrierUnlock => false
  | .invokeTarget | .invokeSuspended _ | .invokeLock _ | .invokePush _ | .invokeSubLock => true
  | l => l.bit = 1

theorem Loc.lock_iff (l : Loc T Q) : l.lock = 1 ↔ l.linking ∨ l.invoking := by
  cases l <;> simp [Loc.lock, Loc.bit, Loc.linking, Loc.invoking]

theorem Loc.lock_of_atRest {l : Loc T Q} {n : ℕ} (h : l.atRest n) : l.lock = 0 := by
  cases l <;> first | rfl | cases h

theorem Loc.wakes_of_atRest {l : Loc T Q} {n : ℕ} (h : l.atRest n) : l.wakes = false := by
  cases l <;> first | rfl | cases h

theorem Loc.executing_of_atRest {l : Loc T Q} {n : ℕ} (h : l.atRest n)
    (hpos : 0 < l.runningShare n) : l.executing := by
  cases l
  case barrierWait | syncWait =>
    simp_all [Loc.atRest, Loc.runningShare, Loc.bit, Loc.readers, Loc.signalled]
  case idle => simp [Loc.runningShare, Loc.bit, Loc.readers, Loc.signalled, Loc.call] at hpos
  all_goals first | rfl | cases h

section Rest

variable [DecidableEq T] [DecidableEq Q] [Fintype T] {width : ℕ} {tq : Q}
  {s : Pool T (Mem T Q) (Loc T Q)}

def AtRest (s : Pool T (Mem T Q) (Loc T Q)) : Prop := ∀ t, (s.loc t).atRest (s.mem.sema t)

theorem linked_or_running_of_atRest (h : Pool.Reachable (step width) (created tq) s)
    (hrest : AtRest s) (hitems : s.mem.items ≠ []) (hcnt : s.mem.doSuspendCnt < 2) :
    (s.mem.doSuspendCnt = 1 ∧ s.mem.linked = [s.mem.doTargetq]) ∨
      (s.mem.dqRunning ≠ 0 ∧ ((∃ t, (s.loc t).executing) ∨ 0 < s.mem.redirected)) := by
  have hzero : ∑ t, (s.loc t).lock = 0 :=
    Finset.sum_eq_zero fun t _ ↦ Loc.lock_of_atRest (hrest t)
  have hlock := lock_of_run h
  rcases Nat.lt_succ_iff_lt_or_eq.mp hcnt with hcnt | hcnt
  · right
    have hrun : s.mem.dqRunning ≠ 0 := by
      intro hrun
      obtain ⟨t, ht⟩ := wakes_of_run h ⟨hitems, by omega, hrun⟩
      rw [Loc.wakes_of_atRest (hrest t)] at ht
      cases ht
    refine ⟨hrun, ?_⟩
    by_contra hnone
    push Not at hnone
    obtain ⟨hexec, hred⟩ := hnone
    have hshare : ∑ t, (s.loc t).runningShare (s.mem.sema t) ≤ 0 := by
      refine Finset.sum_nonpos fun t _ ↦ ?_
      by_contra hpos
      exact hexec t (Loc.executing_of_atRest (hrest t) (by omega))
    have hacc := (accounts_of_run h).1.running
    omega
  · left
    have hlen : s.mem.linked.length = 1 := by omega
    obtain ⟨q, hq⟩ := List.length_eq_one_iff.mp hlen
    have htarget := (linked_of_run h).1 q (by simp [hq])
    exact ⟨hcnt, by rw [hq, htarget]⟩

theorem lock_iff_of_run (h : Pool.Reachable (step width) (created tq) s) :
    s.mem.doSuspendCnt % 2 = 1 ↔
      s.mem.linked ≠ [] ∨ ∃ t, (s.loc t).linking ∨ (s.loc t).invoking := by
  have hlock := lock_of_run h
  have hunique := lockUnique_of_run h
  have hnonneg : ∀ t ∈ Finset.univ, 0 ≤ (s.loc t).lock := fun t _ ↦ (s.loc t).lock_nonneg
  constructor
  · intro hodd
    by_contra hnone
    push Not at hnone
    obtain ⟨hempty, hfree⟩ := hnone
    have hzero : ∑ t, (s.loc t).lock = 0 := by
      refine Finset.sum_eq_zero fun t _ ↦ ?_
      have hne : (s.loc t).lock ≠ 1 := fun hone ↦ by simpa [hfree t] using (Loc.lock_iff _).mp hone
      have hle := Finset.single_le_sum hnonneg (Finset.mem_univ t)
      have hpos := (s.loc t).lock_nonneg
      unfold LockUnique at hunique
      omega
    rw [hempty, hzero, hodd] at hlock
    simp at hlock
  · rintro (hne | ⟨t, ht⟩)
    · have hlen := List.length_pos_iff.mpr hne
      have hsum := Finset.sum_nonneg hnonneg
      omega
    · have hone := (Loc.lock_iff _).mpr ht
      have hle := Finset.single_le_sum hnonneg (Finset.mem_univ t)
      omega

omit [Fintype T] in
/-- From a queue at rest with items that have not finished, the last of them to finish
wakes the queue up: when `dq_running` comes to zero, a thread calls `_dispatch_wakeup`. -/
theorem wakeup_of_last {s' : Pool T (Mem T Q) (Loc T Q)} (hrest : AtRest s)
    (hrun : s.mem.dqRunning ≠ 0)
    (h : Pool.Runs (step width) (fun s _ _ ↦ s.mem.dqRunning ≠ 0) s s')
    (hzero : s'.mem.dqRunning = 0) : ∃ t k, s'.loc t = .wakeup k := by
  have hinv : (∀ t, ¬ ((s'.loc t).bit = 1 ∧ (s'.loc t).lock = 1)) ∧
      (s'.mem.dqRunning = 0 → ∃ t k, s'.loc t = .wakeup k) := by
    refine h.invariant (I := fun s ↦ (∀ t, ¬ ((s.loc t).bit = 1 ∧ (s.loc t).lock = 1)) ∧
      (s.mem.dqRunning = 0 → ∃ t k, s.loc t = .wakeup k)) ⟨fun t ↦ ?_, fun h ↦ (hrun h).elim⟩ ?_
    · rw [Loc.lock_of_atRest (hrest t)]
      rintro ⟨-, hone⟩
      cases hone
    · rintro s t a m l - ⟨hdrain, -⟩ hC hP
      have htrans := trans_of_step hP
      refine ⟨fun u ↦ ?_, fun hzero ↦ ?_⟩
      · rcases eq_or_ne u t with rfl | hu
        · simpa using fun hbit hlock ↦ hdrain u (htrans.draining hC ⟨hbit, hlock⟩)
        · simpa [hu] using hdrain u
      · rcases htrans.wakeup_of_running hC hzero with ⟨k, rfl⟩ | ⟨q, hl⟩
        · exact ⟨t, k, by simp⟩
        · refine (hdrain t ?_).elim
          rw [hl]
          exact ⟨rfl, rfl⟩
  exact hinv.2 hzero

end Rest

end LibDispatch.Queue
