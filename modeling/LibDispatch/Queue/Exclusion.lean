import LibDispatch.Queue.Accounting

/-!
# Mutual exclusion

A barrier runs while its thread has the low bit of `dq_running`, or after the queue has
been handed over to it by suspending the queue.  In the first case the count shows that
no reader is there.  In the second case the count is zero, and the other threads are kept
out by the suspend count alone.  The fast paths of the synchronous calls test that count
before they touch `dq_running`, so a thread may pass the test before the queue is handed
over and take `dq_running` afterwards.  As long as no thread does so, a barrier runs alone.
-/

namespace LibDispatch.Queue

open Interleaving

variable {T Q : Type*}

/-- The suspensions by which the queue is handed over to a barrier, as far as thread `l`
with its semaphore at `n` answers for them: from `dispatch_suspend` in
`_dispatch_barrier_sync_f_slow_invoke` to `dispatch_resume`. -/
def Loc.handover (l : Loc T Q) (n : ℕ) : ℤ := l.handed + l.signalled true n

def HandedOver (s : Pool T (Mem T Q) (Loc T Q)) : Prop :=
  ∃ u, 0 < (s.loc u).handover (s.mem.sema u)

/-- The fast path of a synchronous call succeeds in taking `dq_running`. -/
def TakesFastPath (m : Mem T Q) (l : Loc T Q) : Prop :=
  (l = .barrierLock ∧ m.dqRunning = 0) ∨ (l = .syncAdd ∧ m.dqRunning % 2 ≠ 1)

/-- No fast path takes `dq_running` while the queue is handed over. -/
def FastPathClear (s : Pool T (Mem T Q) (Loc T Q)) (t : T) (_ : Act Q) : Prop :=
  TakesFastPath s.mem (s.loc t) → ¬ HandedOver s

/-- An item that has to run alone; on a queue of width one every item has to. -/
def Loc.RunsAlone (width : ℕ) (l : Loc T Q) : Prop :=
  l.executing ∧ (width = 1 ∨ l.readers = 0)

/-- From here an item may come to run without another look at the suspend count. -/
def Loc.disturbs : Loc T Q → Bool
  | .barrierRun | .barrierUnlock | .drainOrig _ | .drainRunning .. | .drainTarget ..
  | .drainBarrier .. | .drainPop .. | .drainRun _ | .drainSetTarget .. | .slowSuspend ..
  | .slow2Add .. | .slow2Signal .. | .redirectAdd _ | .redirectRetain _ | .redirectAlloc _
  | .redirectPush _ | .crash | .syncRun | .syncLeave | .redirectRun | .redirectLeave
  | .invokeLock _ | .wakeupRetain _ | .wakeupTarget _ | .wakeupPush .. => true
  | _ => false

/-- The thread has made sure that no reader is there. -/
def Loc.guarded (width : ℕ) : Loc T Q → Bool
  | .barrierRun | .drainRun _ | .drainSetTarget .. | .slowSuspend .. => true
  | .drainTarget .. => width = 1
  | .drainPop _ dc => width = 1 || dc.isBarrier
  | _ => false

theorem Loc.bit_of_guarded {width : ℕ} {l : Loc T Q} (h : l.guarded width) : l.bit = 1 := by
  cases l <;> first | rfl | cases h

theorem Loc.disturbs_of_guarded {width : ℕ} {l : Loc T Q} (h : l.guarded width) :
    l.disturbs := by
  cases l <;> first | rfl | cases h

theorem Loc.not_disturbs {l : Loc T Q} (hbit : l.bit = 0) (hlock : l.lock = 0)
    (hreaders : l.readers = 0 ∨ l = .syncBackOff) : l.disturbs = false := by
  rcases hreaders with hreaders | rfl
  · cases l <;> simp_all [Loc.bit, Loc.lock, Loc.readers, Loc.disturbs]
  · rfl

theorem Loc.handover_nonneg (l : Loc T Q) (n : ℕ) : 0 ≤ l.handover n := by
  have hsig := l.signalled_nonneg true n
  have hhanded : 0 ≤ l.handed := by cases l <;> simp [Loc.handed]
  unfold Loc.handover
  omega

theorem Loc.lock_nonneg (l : Loc T Q) : 0 ≤ l.lock := by
  cases l <;> simp [Loc.lock, Loc.bit]

theorem Loc.readers_nonneg (l : Loc T Q) : 0 ≤ l.readers := by
  cases l <;> simp [Loc.readers]

section Counts

variable [Fintype T] [DecidableEq T] {m : Mem T Q} {loc : T → Loc T Q} {t : T}

theorem Accounts.suspended_of_handover (h : Accounts m loc)
    (ht : 0 < (loc t).handover (m.sema t)) : 2 ≤ m.doSuspendCnt := by
  have hsus := h.share_le_suspend t
  have hlock := (loc t).lock_nonneg
  unfold Loc.handover at ht
  unfold Loc.suspendShare at hsus
  omega

theorem Accounts.bit_of_ne (h : Accounts m loc) {u : T} (ht : (loc t).bit = 1) (hu : u ≠ t) :
    (loc u).bit = 0 :=
  (loc u).bit_eq.resolve_right fun hbit ↦ hu (h.bit_unique u t hbit ht)

theorem Accounts.running_odd (h : Accounts m loc) (ht : (loc t).bit = 1) :
    m.dqRunning % 2 = 1 := by
  have hbits : ∑ u, (loc u).bit = 1 := by
    rw [Finset.sum_eq_single t (fun u _ hut ↦ h.bit_of_ne ht hut) (by simp), ht]
  have hrun := h.running
  have hsplit : ∑ u, (loc u).runningShare (m.sema u) = ∑ u, (loc u).bit +
      2 * ∑ u, ((loc u).readers + (loc u).signalled false (m.sema u)) := by
    rw [Finset.mul_sum, ← Finset.sum_add_distrib]
    refine Finset.sum_congr rfl fun u _ ↦ ?_
    unfold Loc.runningShare
    ring
  omega

end Counts

/-! ## The lock has one holder -/

section Lock

variable [DecidableEq T] [DecidableEq Q] {width : ℕ} {t : T} {m m' : Mem T Q} {l l' : Loc T Q}

theorem Trans.lock_le (h : Trans width t m l m' l') :
    l'.lock + m'.linked.length ≤ l.lock + m.linked.length ∨
      (m.doSuspendCnt = 0 ∧ l'.lock + m'.linked.length ≤ 1 + m.linked.length) := by
  cases h
  case wakeupLock hfree => exact .inr ⟨hfree, by simp [Loc.lock]⟩
  case release k | pushLink k | wakeupSuspended k _ | wakeupEmpty k _ | wakeupMissed k _ =>
    exact .inl (by cases k <;> exact le_rfl)
  case wakeupPush k =>
    refine .inl ?_
    cases k <;> simp [After.loc, Loc.lock, Loc.bit]
  case resumeInner | resumeOuter | barrierResume =>
    exact .inl (by rcases resumeLoc_cases m with hl | hl | hl <;> rw [hl] <;> exact le_rfl)
  case invoke hmem =>
    have hlen := List.length_erase_of_mem hmem
    have hpos := List.length_pos_of_mem hmem
    refine .inl ?_
    simp only [Loc.lock, Loc.bit]
    omega
  case drainRun d | drainSetTarget d _ | slowSignal d _ | slow2Signal d _ | redirectPush d =>
    exact .inl (by rcases drainLoop_cases (T := T) d with hl | hl <;> rw [hl] <;> exact le_rfl)
  case drainPop d dc =>
    obtain ⟨-, -, -, -, hlock, -⟩ := drainCall_spec width d dc
    exact .inl (by rw [hlock]; exact le_rfl)
  case drainOut d dc hl =>
    refine .inl ?_
    rcases drainOut_eq d dc with ⟨ho, -⟩ | ⟨ho, -⟩ <;> rw [ho] <;>
      rcases hl with ⟨rfl, -⟩ | ⟨rfl, -⟩ | ⟨rfl, -⟩ | ⟨rfl, -⟩ <;> exact le_rfl
  all_goals try exact .inl le_rfl
  all_goals
    refine .inl ?_
    simp [Loc.lock, Loc.bit]

variable [Fintype T] {loc : T → Loc T Q}

/-- The lock is held by one thread, or the queue is on one list. -/
def LockUnique (m : Mem T Q) (loc : T → Loc T Q) : Prop :=
  ∑ u, (loc u).lock + m.linked.length ≤ 1

theorem Trans.lockUnique (h : Trans width t m (loc t) m' l') (hacc : Accounts m loc)
    (hlock : LockUnique m loc) : LockUnique m' (Function.update loc t l') := by
  have hsum := Pool.sum_update (fun _ l ↦ l.lock) loc t l'
  unfold LockUnique at hlock ⊢
  rw [hsum]
  rcases h.lock_le with hle | ⟨hfree, hle⟩
  · omega
  · have hnone : ∑ u, (loc u).lock ≤ ∑ u, (loc u).suspendShare (m.sema u) := by
      refine Finset.sum_le_sum fun u _ ↦ ?_
      have hsig := (loc u).signalled_nonneg true (m.sema u)
      have hhanded : 0 ≤ (loc u).handed := by cases loc u <;> simp [Loc.handed]
      unfold Loc.suspendShare
      omega
    have hsus := hacc.suspend
    have htl := (loc t).lock_nonneg
    have hle₀ : 0 ≤ ∑ u, (loc u).lock := Finset.sum_nonneg fun u _ ↦ (loc u).lock_nonneg
    omega

omit [DecidableEq Q] in
theorem LockUnique.eq_zero (h : LockUnique m loc) (ht : (loc t).lock = 1) {u : T} (hu : u ≠ t) :
    (loc u).lock = 0 := by
  have hpair := Finset.add_sum_erase Finset.univ (fun v ↦ (loc v).lock) (Finset.mem_univ t)
  have hle := Finset.single_le_sum (f := fun v ↦ (loc v).lock)
    (fun v _ ↦ (loc v).lock_nonneg) (Finset.mem_erase.mpr ⟨hu, Finset.mem_univ u⟩)
  have hnonneg := (loc u).lock_nonneg
  unfold LockUnique at h
  omega

end Lock

/-! ## No reader beside a barrier -/

section Alone

variable [DecidableEq T] [DecidableEq Q] {width : ℕ} {t : T} {m m' : Mem T Q} {l l' : Loc T Q}

theorem Trans.guarded (h : Trans width t m l m' l') (hl' : l'.guarded width) :
    l.guarded width ∨ (m.dqRunning : ℤ) ≤ l.bit := by
  cases h
  case suspendInner => exact .inl hl'
  case barrierLock hfree => exact .inr (by simp [hfree, Loc.bit])
  case drainRunning hle =>
    have hwidth : width = 1 := by simpa [Loc.guarded] using hl'
    exact .inr (by simp only [Loc.bit]; omega)
  case drainBarrier hle => exact .inr (by simp only [Loc.bit]; omega)
  case drainTargetPop hbar =>
    refine .inl ?_
    rcases hbar with hwidth | hbar
    · simpa [Loc.guarded] using hwidth
    · simpa [Loc.guarded, hbar] using hl'
  case drainPop d dc =>
    refine .inl ?_
    cases dc <;> simp_all [drainCall, Loc.guarded, Item.isBarrier]
    by_contra hnot
    simp_all
  case release k | pushLink k | wakeupSuspended k _ | wakeupEmpty k _ | wakeupMissed k _ |
      wakeupPush k => cases k <;> cases hl'
  case resumeInner | resumeOuter | barrierResume =>
    rcases resumeLoc_cases m with hl | hl | hl <;> rw [hl] at hl' <;> cases hl'
  case drainRun d | drainSetTarget d _ | slowSignal d _ | slow2Signal d _ | redirectPush d =>
    rcases drainLoop_cases (T := T) d with hl | hl <;> rw [hl] at hl' <;> cases hl'
  case drainOut d dc _ =>
    rcases drainOut_eq d dc with ⟨ho, -⟩ | ⟨ho, -⟩ <;> rw [ho] at hl' <;> cases hl'
  all_goals cases hl'

end Alone

/-! ## While the queue is handed over -/

section Calm

variable [DecidableEq T] [DecidableEq Q] {width : ℕ} {t : T} {m m' : Mem T Q} {l l' : Loc T Q}

theorem Trans.calm (h : Trans width t m l m' l') (hl : l.disturbs = false)
    (hcnt : 2 ≤ m.doSuspendCnt) (hred : m.redirected = 0)
    (hsig : l.signalled false (m.sema t) = 0) (hfast : ¬ TakesFastPath m l) :
    l'.disturbs = false := by
  unfold TakesFastPath at hfast
  cases h
  case suspendInner => exact hl
  case redirect2 hpos => omega
  case syncAdd heven => exact (hfast (.inr ⟨rfl, heven⟩)).elim
  case barrierLock hfree => exact (hfast (.inl ⟨rfl, hfree⟩)).elim
  case syncWait hpos =>
    simp only [Loc.signalled, Loc.call, if_true] at hsig
    omega
  case invokeSuspended hlt | drainSuspended hlt => omega
  case wakeupLock hfree => omega
  case release k | pushLink k | wakeupSuspended k _ | wakeupEmpty k _ | wakeupMissed k _ =>
    cases k <;> rfl
  case resumeInner | resumeOuter | barrierResume =>
    rcases resumeLoc_cases m with h | h | h <;> rw [h] <;> rfl
  case slowSignal d _ =>
    rcases drainLoop_cases (T := T) d with h | h <;> rw [h] <;> rfl
  case drainOut d dc _ =>
    rcases drainOut_eq d dc with ⟨ho, -⟩ | ⟨ho, -⟩ <;> rw [ho] <;> rfl
  all_goals first | rfl | cases hl

end Calm

/-! ## Readers and handed over barriers, counted -/

/-- A reader that has found the low bit set and is about to take its addition back. -/
def Loc.backsOff : Loc T Q → ℤ
  | .syncBackOff => 1
  | _ => 0

section Numbers

variable [Fintype T]

/-- Twice the number of readers and redirected items, those that back off left out. -/
def activeReaders (m : Mem T Q) (loc : T → Loc T Q) : ℤ :=
  m.dqRunning - ∑ u, ((loc u).bit + 2 * (loc u).backsOff)

/-- Twice the number of barriers to which the queue is handed over. -/
def handovers (m : Mem T Q) (loc : T → Loc T Q) : ℤ :=
  m.doSuspendCnt - ∑ u, (loc u).lock - m.linked.length - 2 * (m.inner + m.outer)

variable [DecidableEq T] {m : Mem T Q} {loc : T → Loc T Q} {t : T}

theorem Accounts.activeReaders_eq (h : Accounts m loc) : activeReaders m loc =
    2 * ∑ u, ((loc u).readers - (loc u).backsOff + (loc u).signalled false (m.sema u)) +
      2 * m.redirected := by
  have hsplit : ∑ u, (loc u).runningShare (m.sema u) =
      ∑ u, ((loc u).bit + 2 * (loc u).backsOff) +
        2 * ∑ u, ((loc u).readers - (loc u).backsOff + (loc u).signalled false (m.sema u)) := by
    rw [Finset.mul_sum, ← Finset.sum_add_distrib]
    refine Finset.sum_congr rfl fun u _ ↦ ?_
    unfold Loc.runningShare
    ring
  unfold activeReaders
  rw [h.running, hsplit]
  ring

theorem Accounts.handovers_eq (h : Accounts m loc) :
    handovers m loc = 2 * ∑ u, (loc u).handover (m.sema u) := by
  have hsplit : ∑ u, (loc u).suspendShare (m.sema u) =
      ∑ u, (loc u).lock + 2 * ∑ u, (loc u).handover (m.sema u) := by
    rw [Finset.mul_sum, ← Finset.sum_add_distrib]
    refine Finset.sum_congr rfl fun u _ ↦ ?_
    unfold Loc.suspendShare Loc.handover
    ring
  unfold handovers
  rw [h.suspend, hsplit]
  ring

omit [Fintype T] [DecidableEq T] in
theorem Loc.backsOff_le (l : Loc T Q) : 0 ≤ l.readers - l.backsOff := by
  cases l <;> simp [Loc.readers, Loc.backsOff]

theorem Accounts.readers_eq_zero (h : Accounts m loc) (hzero : activeReaders m loc ≤ 0) :
    m.redirected = 0 ∧ ∀ u, (loc u).signalled false (m.sema u) = 0 ∧
      (loc u).readers = (loc u).backsOff := by
  have hnonneg : ∀ u ∈ Finset.univ, 0 ≤
      (loc u).readers - (loc u).backsOff + (loc u).signalled false (m.sema u) := by
    intro u _
    have hsig := (loc u).signalled_nonneg false (m.sema u)
    have hback := (loc u).backsOff_le
    omega
  have htotal := Finset.sum_nonneg hnonneg
  have heq := h.activeReaders_eq
  refine ⟨by omega, fun u ↦ ?_⟩
  have hle := Finset.single_le_sum hnonneg (Finset.mem_univ u)
  have hsig := (loc u).signalled_nonneg false (m.sema u)
  have hback := (loc u).backsOff_le
  omega

omit [DecidableEq T] in
theorem activeReaders_le_of_running (hrun : (m.dqRunning : ℤ) ≤ (loc t).bit) :
    activeReaders m loc ≤ 0 := by
  have hle := Finset.single_le_sum (f := fun u ↦ (loc u).bit + 2 * (loc u).backsOff)
    (fun u _ ↦ by cases loc u <;> simp [Loc.bit, Loc.backsOff]) (Finset.mem_univ t)
  have hback : 0 ≤ (loc t).backsOff := by cases loc t <;> simp [Loc.backsOff]
  unfold activeReaders
  omega

theorem Accounts.handovers_pos (h : Accounts m loc) (ht : 0 < (loc t).handover (m.sema t)) :
    0 < handovers m loc := by
  have hle := Finset.single_le_sum (f := fun u ↦ (loc u).handover (m.sema u))
    (fun u _ ↦ (loc u).handover_nonneg (m.sema u)) (Finset.mem_univ t)
  have heq := h.handovers_eq
  omega

theorem Accounts.exists_handover (h : Accounts m loc) (hpos : 0 < handovers m loc) :
    ∃ u, 0 < (loc u).handover (m.sema u) := by
  by_contra hnone
  push Not at hnone
  have hle := Finset.sum_nonpos fun u (_ : u ∈ Finset.univ) ↦ hnone u
  have heq := h.handovers_eq
  omega

theorem Accounts.handover_unique (h : Accounts m loc) (hle : handovers m loc ≤ 2) {u : T}
    (ht : 0 < (loc t).handover (m.sema t)) (hu : 0 < (loc u).handover (m.sema u)) : t = u := by
  by_contra hne
  have hrest := Finset.add_sum_erase Finset.univ (fun v ↦ (loc v).handover (m.sema v))
    (Finset.mem_univ t)
  have hle' := Finset.single_le_sum (f := fun v ↦ (loc v).handover (m.sema v))
    (fun v _ ↦ (loc v).handover_nonneg (m.sema v))
    (Finset.mem_erase.mpr ⟨Ne.symm hne, Finset.mem_univ u⟩)
  have heq := h.handovers_eq
  omega

end Numbers

/-- What a step adds to the number of handed over barriers. -/
def Loc.grants : Loc T Q → ℤ
  | .slowSuspend .. => 1
  | .barrierResume => -1
  | _ => 0

/-- The next step makes a reader active: by the fast path, or by the thread that drains. -/
def Loc.Admits (l : Loc T Q) (m : Mem T Q) : Prop :=
  (l = .syncAdd ∧ m.dqRunning % 2 ≠ 1) ∨ (∃ d caller, l = .slow2Add d caller) ∨
    ∃ d, l = .redirectAdd d

theorem Loc.grants_le {l : Loc T Q} (h : l.disturbs = false) : l.grants ≤ 0 := by
  cases l <;> simp_all [Loc.grants, Loc.disturbs]

theorem Loc.eq_slowSuspend {l : Loc T Q} (h : 0 < l.grants) :
    ∃ d caller, l = .slowSuspend d caller := by
  cases l <;> first | exact ⟨_, _, rfl⟩ | simp [Loc.grants] at h

theorem Loc.readers_cases {l : Loc T Q} (h : l.readers = l.backsOff) :
    l.readers = 0 ∨ l = .syncBackOff := by
  cases l <;> simp_all [Loc.readers, Loc.backsOff]

section Steps

variable [DecidableEq T] [DecidableEq Q] {width : ℕ} {t : T} {m m' : Mem T Q} {l l' : Loc T Q}

theorem Trans.grants_eq (h : Trans width t m l m' l')
    (hle : l.lock + 2 * l.handed + m.linked.length + 2 * (m.inner + m.outer) ≤ m.doSuspendCnt) :
    (m'.doSuspendCnt : ℤ) - l'.lock - m'.linked.length - 2 * (m'.inner + m'.outer) =
      m.doSuspendCnt - l.lock - m.linked.length - 2 * (m.inner + m.outer) + 2 * l.grants := by
  cases h
  case release k | pushLink k | wakeupSuspended k _ | wakeupEmpty k _ | wakeupMissed k _ =>
    cases k <;> simp [After.loc, Loc.lock, Loc.bit, Loc.grants]
  case wakeupPush k =>
    cases k <;> simp only [After.loc, Loc.lock, Loc.bit, Loc.grants, List.length_cons] <;>
      push_cast <;> ring
  case suspendInner l hexec =>
    have hgrants : l.grants = 0 := by cases l <;> first | rfl | cases hexec
    simp only [hgrants]
    push_cast
    ring
  case resumeInner | resumeOuter | barrierResume =>
    rcases resumeLoc_cases m with hl | hl | hl <;> rw [hl] <;>
      simp only [Loc.lock, Loc.bit, Loc.handed, Loc.grants] at hle ⊢ <;> omega
  case invoke hmem =>
    have hlen := List.length_erase_of_mem hmem
    have hpos := List.length_pos_of_mem hmem
    simp only [Loc.lock, Loc.bit, Loc.grants]
    omega
  case drainRun d | drainSetTarget d _ | redirectPush d | slowSignal d _ | slow2Signal d _ =>
    rcases drainLoop_cases (T := T) d with hl | hl <;> rw [hl] <;>
      simp [Loc.lock, Loc.bit, Loc.grants]
  case drainPop d dc =>
    rw [(drainCall_spec width d dc).2.2.2.2.1]
    simp [Loc.lock, Loc.bit, Loc.grants]
  case drainOut d dc hl =>
    rcases drainOut_eq d dc with ⟨ho, -⟩ | ⟨ho, -⟩ <;> rw [ho] <;>
      rcases hl with ⟨rfl, -⟩ | ⟨rfl, -⟩ | ⟨rfl, -⟩ | ⟨rfl, -⟩ <;>
      simp [Loc.lock, Loc.bit, Loc.grants]
  all_goals
    simp only [Loc.lock, Loc.bit, Loc.handed, Loc.grants, List.length_cons] at hle ⊢
    omega

theorem Trans.active_le (h : Trans width t m l m' l') (hle : l.bit + 2 * l.readers ≤ m.dqRunning) :
    (m'.dqRunning : ℤ) - l'.bit - 2 * l'.backsOff ≤ m.dqRunning - l.bit - 2 * l.backsOff ∨
      l.Admits m := by
  cases h
  case syncAdd hodd => exact .inr (.inl ⟨rfl, hodd⟩)
  case slow2Add => exact .inr (.inr (.inl ⟨_, _, rfl⟩))
  case redirectAdd => exact .inr (.inr (.inr ⟨_, rfl⟩))
  case release k | pushLink k | wakeupSuspended k _ | wakeupEmpty k _ | wakeupMissed k _ |
      wakeupPush k => exact .inl (by cases k <;> exact le_rfl)
  case resumeInner | resumeOuter | barrierResume =>
    exact .inl (by rcases resumeLoc_cases m with hl | hl | hl <;> rw [hl] <;> exact le_rfl)
  case drainRun d | drainSetTarget d _ | redirectPush d | slowSignal d _ | slow2Signal d _ =>
    exact .inl (by rcases drainLoop_cases (T := T) d with hl | hl <;> rw [hl] <;> exact le_rfl)
  case drainPop d dc =>
    obtain ⟨-, -, hbit, hreaders, -⟩ := drainCall_spec width d dc
    have hback : 0 ≤ (drainCall width d dc).backsOff := by
      cases drainCall width d dc <;> simp [Loc.backsOff]
    have hpop : (Loc.drainPop d dc).bit = 1 ∧ (Loc.drainPop d dc).backsOff = 0 := ⟨rfl, rfl⟩
    refine .inl ?_
    dsimp only
    omega
  case drainOut d dc hl =>
    refine .inl ?_
    rcases drainOut_eq d dc with ⟨ho, -⟩ | ⟨ho, -⟩ <;> rw [ho] <;>
      rcases hl with ⟨rfl, -⟩ | ⟨rfl, -⟩ | ⟨rfl, -⟩ | ⟨rfl, -⟩ <;> exact le_rfl
  all_goals try exact .inl le_rfl
  all_goals
    refine .inl ?_
    simp only [Loc.bit, Loc.readers, Loc.backsOff] at hle ⊢
    omega

theorem Trans.not_admits (h : Trans width t m l m' l') (hl' : l'.guarded width) :
    ¬ l.Admits m := by
  rintro (⟨rfl, -⟩ | ⟨d, caller, rfl⟩ | ⟨d, rfl⟩) <;> cases h <;> try cases hl'
  all_goals rename_i hl
  all_goals simp at hl

theorem Trans.slowSuspend_disturbs {d : Drain Q} {caller : T}
    (h : Trans width t m (.slowSuspend d caller) m' l') : l'.disturbs = false := by
  cases h <;> first | rfl | simp_all [Loc.executing]

end Steps

/-! ## Exclusion over whole runs -/

section Excluded

variable [DecidableEq T] [DecidableEq Q] [Fintype T] {width : ℕ} {t : T} {m m' : Mem T Q}
  {loc : T → Loc T Q} {l' : Loc T Q}

theorem Trans.handovers_eq (h : Trans width t m (loc t) m' l') (hacc : Accounts m loc) :
    handovers m' (Function.update loc t l') = handovers m loc + 2 * (loc t).grants := by
  have hsum := Pool.sum_update (fun _ l ↦ l.lock) loc t l'
  have hshare := hacc.share_le_suspend t
  have hsig := (loc t).signalled_nonneg true (m.sema t)
  have hgrants := h.grants_eq (by unfold Loc.suspendShare at hshare; omega)
  unfold handovers
  rw [hsum]
  omega

theorem Trans.activeReaders_le (h : Trans width t m (loc t) m' l') (hacc : Accounts m loc)
    (hnot : ¬ (loc t).Admits m) :
    activeReaders m' (Function.update loc t l') ≤ activeReaders m loc := by
  have hsum := Pool.sum_update (fun _ l ↦ l.bit + 2 * l.backsOff) loc t l'
  have hshare := hacc.share_le_running t
  have hsig := (loc t).signalled_nonneg false (m.sema t)
  have hle := (h.active_le (by unfold Loc.runningShare at hshare; omega)).resolve_right hnot
  unfold activeReaders
  rw [hsum]
  omega

structure Excluded (width : ℕ) (m : Mem T Q) (loc : T → Loc T Q) : Prop where
  lock : LockUnique m loc
  alone : ∀ t, (loc t).guarded width → activeReaders m loc ≤ 0
  calm : 0 < handovers m loc →
    handovers m loc ≤ 2 ∧ activeReaders m loc ≤ 0 ∧ ∀ u, (loc u).disturbs = false

theorem Trans.alone (h : Trans width t m (loc t) m' l') (hacc : Accounts m loc)
    (hex : Excluded width m loc) (u : T)
    (hu : (Function.update loc t l' u).guarded width) :
    activeReaders m' (Function.update loc t l') ≤ 0 := by
  rcases eq_or_ne u t with rfl | hut
  · rw [Function.update_self] at hu
    have hzero : activeReaders m loc ≤ 0 := by
      rcases h.guarded hu with hg | hrun
      · exact hex.alone u hg
      · exact activeReaders_le_of_running hrun
    exact (h.activeReaders_le hacc (h.not_admits hu)).trans hzero
  · rw [Function.update_of_ne hut] at hu
    have hbit := Loc.bit_of_guarded hu
    have hodd := hacc.running_odd hbit
    have hself := hacc.bit_of_ne hbit hut.symm
    refine (h.activeReaders_le hacc ?_).trans (hex.alone u hu)
    rintro (⟨-, hne⟩ | ⟨d, caller, hl⟩ | ⟨d, hl⟩)
    · exact hne hodd
    · simp [hl, Loc.bit] at hself
    · simp [hl, Loc.bit] at hself

theorem Trans.calm_step (h : Trans width t m (loc t) m' l') (hacc : Accounts m loc)
    (hex : Excluded width m loc)
    (hfast : TakesFastPath m (loc t) → ¬ ∃ u, 0 < (loc u).handover (m.sema u))
    (hpos : 0 < handovers m' (Function.update loc t l')) :
    handovers m' (Function.update loc t l') ≤ 2 ∧
      activeReaders m' (Function.update loc t l') ≤ 0 ∧
      ∀ u, (Function.update loc t l' u).disturbs = false := by
  have hhand := h.handovers_eq hacc
  by_cases hpre : 0 < handovers m loc
  · obtain ⟨hle, hact, hdis⟩ := hex.calm hpre
    obtain ⟨u, hu⟩ := hacc.exists_handover hpre
    have hslow : ¬ TakesFastPath m (loc t) := fun hf ↦ hfast hf ⟨u, hu⟩
    obtain ⟨hred, hread⟩ := hacc.readers_eq_zero hact
    have hcalm := h.calm (hdis t) (hacc.suspended_of_handover hu) hred (hread t).1 hslow
    have hgrants : (loc t).grants ≤ 0 := Loc.grants_le (hdis t)
    refine ⟨by omega, (h.activeReaders_le hacc ?_).trans hact, fun v ↦ ?_⟩
    · rintro (hf | ⟨d, caller, hl⟩ | ⟨d, hl⟩)
      · exact hslow (.inr hf)
      · simpa [hl, Loc.disturbs] using hdis t
      · simpa [hl, Loc.disturbs] using hdis t
    · rcases eq_or_ne v t with rfl | hv
      · rwa [Function.update_self]
      · rw [Function.update_of_ne hv]
        exact hdis v
  · obtain ⟨d, caller, hl⟩ : ∃ d caller, loc t = .slowSuspend d caller :=
      Loc.eq_slowSuspend (by omega)
    have hgrants : (loc t).grants = 1 := by rw [hl]; rfl
    have hguard : (loc t).guarded width := by rw [hl]; rfl
    have hact := hex.alone t hguard
    refine ⟨by omega, (h.activeReaders_le hacc ?_).trans hact, fun v ↦ ?_⟩
    · simp [hl, Loc.Admits]
    · rcases eq_or_ne v t with rfl | hv
      · rw [Function.update_self]
        rw [hl] at h
        exact h.slowSuspend_disturbs
      · rw [Function.update_of_ne hv]
        have hlock : (loc t).lock = 1 := by rw [hl]; rfl
        refine Loc.not_disturbs (hacc.bit_of_ne (Loc.bit_of_guarded hguard) hv)
          (hex.lock.eq_zero hlock hv) ?_
        exact Loc.readers_cases ((hacc.readers_eq_zero hact).2 v).2

theorem Trans.excluded (h : Trans width t m (loc t) m' l') (hacc : Accounts m loc)
    (hex : Excluded width m loc)
    (hfast : TakesFastPath m (loc t) → ¬ ∃ u, 0 < (loc u).handover (m.sema u)) :
    Excluded width m' (Function.update loc t l') where
  lock := h.lockUnique hacc hex.lock
  alone := h.alone hacc hex
  calm := h.calm_step hacc hex hfast

theorem excluded_of_run {C : Pool T (Mem T Q) (Loc T Q) → T → Act Q → Prop} {tq : Q}
    {s : Pool T (Mem T Q) (Loc T Q)} (h : Pool.Runs (step width) C (created tq) s)
    (hclear : ∀ s t a, Pool.Runs (step width) C (created tq) s → C s t a → FastPathClear s t a) :
    Excluded width s.mem s.loc := by
  refine h.invariant (I := fun s ↦ Excluded width s.mem s.loc) ?_ ?_
  · constructor <;>
      simp [created, LockUnique, handovers, activeReaders, Loc.lock, Loc.bit, Loc.backsOff]
  · intro s t a m l hr hI hC hP
    exact (trans_of_step hP).excluded (accounts_of_run hr).1 hI (hclear s t a hr hC)

end Excluded

/-! ## Queues of width one -/

def Item.serial : Item T Q → Bool
  | .syncSlow _ => false
  | _ => true

def After.serial : After → Bool
  | .waitReader | .syncSlow => false
  | .release k => k.serial
  | .return | .waitBarrier => true

/-- A place that a thread can come to on a queue of width one. -/
def Loc.serial : Loc T Q → Bool
  | .pushExchange item k => item.serial && k.serial
  | .pushLink k | .pushRetain k | .pushHead k | .wakeup k | .wakeupProbe k | .wakeupLock k
  | .wakeupRetain k | .wakeupTarget k | .wakeupPush _ k | .release k => k.serial
  | .drainSuspended _ dc | .drainRunning _ dc | .drainTarget _ dc | .drainBarrier _ dc
  | .drainPop _ dc | .outSwap _ dc | .outFront _ dc => dc.serial
  | .syncTail | .syncSuspended | .syncAdd | .syncBackOff | .syncWait | .syncRun | .syncLeave
  | .redirectRun | .redirectLeave | .slow2Add .. | .slow2Signal .. | .redirectAdd _
  | .redirectRetain _ | .redirectAlloc _ | .redirectPush _ | .crash => false
  | _ => true

/-- Neither on the list nor on the list of the root queue is anything of a reader. -/
def Mem.Serial (m : Mem T Q) : Prop := m.redirected = 0 ∧ ∀ item ∈ m.items, item.serial

theorem serial_afterLoc (t : T) {k : After} (h : k.serial) : (k.loc t : Loc T Q).serial := by
  cases k <;> exact h

section Serial

variable [DecidableEq T] [DecidableEq Q] {t : T} {m m' : Mem T Q} {l l' : Loc T Q}

omit [DecidableEq T] [DecidableEq Q] in
theorem serial_drainCall (d : Drain Q) {dc : Item T Q} (h : dc.serial) :
    (drainCall 1 d dc).serial := by
  cases dc <;> first | rfl | cases h

theorem Trans.serial (h : Trans 1 t m l m' l') (hm : m.Serial) (hl : l.serial) :
    m'.Serial ∧ l'.serial := by
  obtain ⟨hred, hitems⟩ := hm
  cases h
  case sync hne => exact (hne rfl).elim
  case suspendInner => exact ⟨⟨hred, hitems⟩, hl⟩
  case redirect2 hpos => omega
  case exchange item k _ | exchangeBehind item k _ =>
    obtain ⟨hitem, hk⟩ : item.serial ∧ k.serial := by simpa [Loc.serial] using hl
    refine ⟨⟨hred, fun i hi ↦ ?_⟩, hk⟩
    rcases List.mem_append.mp hi with hi | hi
    · exact hitems i hi
    · rwa [List.mem_singleton.mp hi]
  case release k | pushLink k | wakeupSuspended k _ | wakeupEmpty k _ | wakeupMissed k _ |
      wakeupPush k => exact ⟨⟨hred, hitems⟩, serial_afterLoc t hl⟩
  case resumeInner | resumeOuter | barrierResume =>
    rcases resumeLoc_cases m with h | h | h <;> rw [h] <;> exact ⟨⟨hred, hitems⟩, rfl⟩
  case drainLast dc hdc => exact ⟨⟨hred, by simp⟩, hitems dc (by simp [hdc])⟩
  case drainTake dc _ _ hdc => exact ⟨⟨hred, hitems⟩, hitems dc (by simp [hdc])⟩
  case drainPop d dc =>
    refine ⟨⟨hred, fun i hi ↦ hitems i ?_⟩, serial_drainCall d hl⟩
    dsimp only at hi
    split at hi
    · exact List.mem_of_mem_tail hi
    · exact hi
  case drainOut d dc hl' =>
    have hdc : dc.serial := by
      rcases hl' with ⟨rfl, -⟩ | ⟨rfl, -⟩ | ⟨rfl, -⟩ | ⟨rfl, -⟩ <;> exact hl
    rcases drainOut_eq d dc with ⟨ho, -⟩ | ⟨ho, -⟩ <;> rw [ho] <;>
      exact ⟨⟨hred, hitems⟩, by first | exact hdc | rfl⟩
  case drainRun d | drainSetTarget d _ | slowSignal d _ =>
    rcases drainLoop_cases (T := T) d with h | h <;> rw [h] <;> exact ⟨⟨hred, hitems⟩, rfl⟩
  case outSwap dc _ =>
    have hdc : dc.serial := hl
    exact ⟨⟨hred, by simpa using hdc⟩, rfl⟩
  case outFront dc =>
    have hdc : dc.serial := hl
    exact ⟨⟨hred, by simpa using ⟨hdc, hitems⟩⟩, rfl⟩
  all_goals first | exact ⟨⟨hred, hitems⟩, hl⟩ | exact ⟨⟨hred, hitems⟩, rfl⟩ | cases hl

theorem serial_of_run {C : Pool T (Mem T Q) (Loc T Q) → T → Act Q → Prop} {tq : Q}
    {s : Pool T (Mem T Q) (Loc T Q)} (h : Pool.Runs (step 1) C (created tq) s) :
    s.mem.Serial ∧ ∀ u, (s.loc u).serial := by
  refine h.invariant (I := fun s ↦ s.mem.Serial ∧ ∀ u, (s.loc u).serial) ?_ ?_
  · simp [created, Mem.Serial, Loc.serial]
  · rintro s t a m l hr ⟨hm, hloc⟩ - hP
    obtain ⟨hm', hl'⟩ := (trans_of_step hP).serial hm (hloc t)
    refine ⟨hm', fun u ↦ ?_⟩
    rcases eq_or_ne u t with rfl | hu <;> simp [*]

end Serial

/-! ## A barrier runs alone -/

section Main

variable [DecidableEq T] [DecidableEq Q] [Fintype T] {width : ℕ} {tq : Q}
  {s : Pool T (Mem T Q) (Loc T Q)}

omit [DecidableEq T] [DecidableEq Q] [Fintype T] in
theorem Loc.executing_cases (width : ℕ) {l : Loc T Q} (h : l.executing) :
    l.guarded width ∨ l = .barrierSlowRun ∨ l.readers = 1 ∧ l.disturbs := by
  cases l <;> simp_all [Loc.executing, Loc.guarded, Loc.readers, Loc.disturbs]

omit [DecidableEq Q] in
theorem Excluded.not_executing_of_guarded {m : Mem T Q} {loc : T → Loc T Q}
    (hex : Excluded width m loc) (hacc : Accounts m loc) {t u : T} (hne : u ≠ t)
    (ht : (loc t).guarded width) : ¬ (loc u).executing := by
  intro hu
  have hbit := hacc.bit_of_ne (Loc.bit_of_guarded ht) hne
  have hread := ((hacc.readers_eq_zero (hex.alone t ht)).2 u).2
  rcases Loc.executing_cases width hu with hg | hslow | ⟨hone, -⟩
  · rw [Loc.bit_of_guarded hg] at hbit
    cases hbit
  · have hhand : 0 < (loc u).handover (m.sema u) := by rw [hslow]; exact Int.one_pos
    have hdis := (hex.calm (hacc.handovers_pos hhand)).2.2 t
    rw [Loc.disturbs_of_guarded ht] at hdis
    cases hdis
  · rcases Loc.readers_cases hread with hzero | hback
    · omega
    · rw [hback] at hu
      cases hu

omit [DecidableEq Q] in
theorem Excluded.not_executing_of_handover {m : Mem T Q} {loc : T → Loc T Q}
    (hex : Excluded width m loc) (hacc : Accounts m loc) {t u : T} (hne : u ≠ t)
    (ht : 0 < (loc t).handover (m.sema t)) : ¬ (loc u).executing := by
  intro hu
  obtain ⟨hle, -, hdis⟩ := hex.calm (hacc.handovers_pos ht)
  have hdis := hdis u
  rcases Loc.executing_cases width hu with hg | hslow | ⟨-, hone⟩
  · rw [Loc.disturbs_of_guarded hg] at hdis
    cases hdis
  · have hhand : 0 < (loc u).handover (m.sema u) := by rw [hslow]; exact Int.one_pos
    exact hne (hacc.handover_unique hle hhand ht)
  · rw [hone] at hdis
    cases hdis

/-- While a barrier runs, no other item of the queue does, as long as no fast path takes
`dq_running` while the queue is handed over to a barrier. -/
theorem runsAlone_of_fastPathClear (h : Pool.Runs (step width) FastPathClear (created tq) s)
    (t u : T) (hne : u ≠ t) (ht : (s.loc t).RunsAlone width) : ¬ (s.loc u).executing := by
  have hex := excluded_of_run h fun _ _ _ _ hC ↦ hC
  have hacc := (accounts_of_run h).1
  obtain ⟨hexec, halone⟩ := ht
  rcases Loc.executing_cases width hexec with hg | hslow | ⟨hone, -⟩
  · exact hex.not_executing_of_guarded hacc hne hg
  · refine hex.not_executing_of_handover hacc hne ?_
    rw [hslow]
    exact Int.one_pos
  · -- only a queue of width one asks a reader to run alone, and it has no readers
    rcases halone with rfl | hzero
    · have hserial := (serial_of_run h).2 t
      cases hl : s.loc t <;> simp_all [Loc.executing, Loc.readers, Loc.serial]
    · omega

instance (m : Mem T Q) (l : Loc T Q) : Decidable (TakesFastPath m l) :=
  inferInstanceAs (Decidable ((_ ∧ _) ∨ (_ ∧ _)))

instance (s : Pool T (Mem T Q) (Loc T Q)) : Decidable (HandedOver s) :=
  inferInstanceAs (Decidable (∃ _, _))

instance (s : Pool T (Mem T Q) (Loc T Q)) (t : T) (a : Act Q) : Decidable (FastPathClear s t a) :=
  inferInstanceAs (Decidable (_ → ¬ _))

instance (l : Loc T Q) : Decidable (l.RunsAlone width) :=
  inferInstanceAs (Decidable (_ ∧ _))

end Main

def steps (t : T) (n : ℕ) : List (T × Act Q) := List.replicate n (t, .go)

/-- Thread 1 finds the queue locked by thread 0 and waits; worker 2 hands the queue over. -/
def handOverTrace : List (Fin 3 × Act (Fin 1)) :=
  [(0, Act.barrierSync)] ++ steps 0 3 ++ [(1, Act.barrierSync)] ++ steps 1 13 ++ steps 0 5 ++
    [(2, Act.invoke 0)] ++ steps 2 13 ++ steps 1 1

theorem runsAlone_of_fastPathClear_handOver :
    ∃ s : Pool (Fin 3) (Mem (Fin 3) (Fin 1)) (Loc (Fin 3) (Fin 1)),
      Pool.Runs (step 1) FastPathClear (created 0) s ∧ s.loc 1 = .barrierSlowRun ∧
        ∀ u ≠ 1, ¬ (s.loc u).executing := by
  refine ⟨((created 0).run (step 1) FastPathClear handOverTrace).get (by decide),
    Pool.runs_get _, by decide, fun u hu ↦ ?_⟩
  exact runsAlone_of_fastPathClear (Pool.runs_get _) 1 u hu (by decide)

/-- Thread 0 has seen the queue idle and not suspended, and is about to lock it.  Worker 2
drains the queue meanwhile and hands it over to thread 1, which has come by the slow path.
The worker leaves and the lock is free: both threads run their items. -/
def lateLockTrace : List (Fin 3 × Act (Fin 1)) :=
  [(0, Act.barrierSync)] ++ steps 0 2 ++ [(2, Act.async true)] ++ steps 2 10 ++
    [(1, Act.barrierSync)] ++
    steps 1 3 ++ [(2, Act.invoke 0)] ++ steps 2 23 ++ steps 1 1 ++ steps 0 1

theorem not_runsAlone_lateLock :
    ∃ s : Pool (Fin 3) (Mem (Fin 3) (Fin 1)) (Loc (Fin 3) (Fin 1)),
      Pool.Reachable (step 1) (created 0) s ∧ (s.loc 0).RunsAlone 1 ∧ (s.loc 1).executing ∧
        s.mem.inner = 0 ∧ s.mem.outer = 0 := by
  exact ⟨((created 0).run (step 1) (fun _ _ _ ↦ True) lateLockTrace).get (by decide),
    Pool.runs_get _, by decide, by decide, by decide, by decide⟩

end LibDispatch.Queue
