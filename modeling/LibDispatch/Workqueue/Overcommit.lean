import LibDispatch.Interleaving.Monitor
import LibDispatch.Interleaving.Refinement
import LibDispatch.Lists.Served
import LibDispatch.Workqueue.Mask

/-!
# The overcommit workers of a kernel-less work queue

Where the kernel has no work queues, `libpthread_workqueue` runs the items of the overcommit
queues on threads of its own.  All of its data is used under one mutex.  Whoever adds an item
signals a worker that waits for one, or creates a new worker if none waits.  The signaller
takes the worker it counts on out of the number of idle workers and leaves a token for it;
any worker that wakes up may be the one that takes the token.

An item never waits for another item to return: as long as threads can be created, there is
for every item in the queues a worker of its own that executes nothing.
-/

namespace LibDispatch.Workqueue.Overcommit

open Interleaving

/-- The queues that exist, by priority; the mask of those with items; the mutex `ocwq_mtx`
with the condition `ocwq_has_work`; the two counters; and the threads that have been created
and do not run yet. -/
structure Mem (T α : Type*) where
  ocwq : ℕ → Option (List α)
  ocwqMask : Mask
  ocwqMtx : Monitor T
  ocwqIdleThreads : BitVec 32
  ocwqSignalCount : BitVec 32
  created : ℕ

/-- Where a thread stands in `manager_workqueue_additem` or `overcommit_worker_main`, by the
statement that is next. -/
inductive Loc (α : Type*)
  | outside
  | addLock (i : ℕ) (witem : α)
  | addInsert (i : ℕ) (witem : α)
  | addMask (i : ℕ)
  | addTest
  | addSignal
  | addIdle
  | addCount
  | addCreate
  | addUnlock
  | lock
  | scan
  | first (i : ℕ)
  | remove (i : ℕ) (witem : α)
  | clear (i : ℕ) (witem : α)
  | unlock (witem : α)
  | run (witem : α)
  | idle
  | wait
  | asleep
  | awake (failed : Bool)
  | consume
  | leave
  | exit
  deriving DecidableEq

/-- What the callers, the scheduler and the kernel decide: which function is called, that a
created thread starts, whom a signal unblocks, how a wait ends, and whether `pthread_create`
fails. -/
inductive Act (T α : Type*)
  | create (i : ℕ)
  | add (i : ℕ) (witem : α)
  | start
  | go
  | unblock (u : T)
  | resume (early failed : Bool)
  | fail
  deriving DecidableEq

variable {T α : Type*}

def Mem.items (m : Mem T α) (i : ℕ) : List α := (m.ocwq i).getD []

/-- `pthread_workqueue_create_np` for an overcommit queue, with
`manager_workqueue_create`.  A second queue of one priority ends the process. -/
def workqueueCreate (m : Mem T α) (i : ℕ) : Option (Mem T α) :=
  if i < workqNumPrioqueue then
    match m.ocwq i with
    | none => some { m with ocwq := Function.update m.ocwq i (some []) }
    | some _ => none
  else some m

variable [DecidableEq T]

def managerWorkqueueAdditem (t : T) (a : Act T α) (m : Mem T α) :
    Loc α → Option (Mem T α × Loc α)
  | .addLock i witem =>
      (m.ocwqMtx.lock t).map fun mtx ↦ ({ m with ocwqMtx := mtx }, .addInsert i witem)
  | .addInsert i witem =>
      some ({ m with ocwq := Function.update m.ocwq i (some (m.items i ++ [witem])) }, .addMask i)
  | .addMask i => some ({ m with ocwqMask := m.ocwqMask ||| indexBit i }, .addTest)
  | .addTest => some (m, if m.ocwqIdleThreads = 0 then .addCreate else .addSignal)
  | .addSignal =>
      match a with
      | .unblock u => (m.ocwqMtx.signal u).map fun mtx ↦ ({ m with ocwqMtx := mtx }, .addIdle)
      | _ => none
  | .addIdle => some ({ m with ocwqIdleThreads := m.ocwqIdleThreads - 1 }, .addCount)
  | .addCount => some ({ m with ocwqSignalCount := m.ocwqSignalCount + 1 }, .addUnlock)
  | .addCreate =>
      match a with
      -- the result of pthread_create is not looked at
      | .fail => some (m, .addUnlock)
      | _ => some ({ m with created := m.created + 1 }, .addUnlock)
  | .addUnlock => some ({ m with ocwqMtx := m.ocwqMtx.unlock }, .outside)
  | _ => none

def overcommitWorkerMain (t : T) (a : Act T α) (m : Mem T α) : Loc α → Option (Mem T α × Loc α)
  | .lock => (m.ocwqMtx.lock t).map fun mtx ↦ ({ m with ocwqMtx := mtx }, .scan)
  | .scan =>
      match ffs m.ocwqMask with
      | 0 => some (m, .idle)
      | i + 1 => some (m, .first i)
  | .first i =>
      match m.ocwq i with
      | none => none
      | some [] => some (m, .idle)
      | some (witem :: _) => some (m, .remove i witem)
  | .remove i witem =>
      some ({ m with ocwq := Function.update m.ocwq i (some (m.items i).tail) }, .clear i witem)
  | .clear i witem =>
      some ({ m with
        ocwqMask := if m.items i = [] then m.ocwqMask &&& ~~~ indexBit i else m.ocwqMask },
        .unlock witem)
  | .unlock witem => some ({ m with ocwqMtx := m.ocwqMtx.unlock }, .run witem)
  | .run _ => some (m, .lock)
  | .idle => some ({ m with ocwqIdleThreads := m.ocwqIdleThreads + 1 }, .wait)
  | .wait => some ({ m with ocwqMtx := m.ocwqMtx.wait t }, .asleep)
  | .asleep =>
      match a with
      | .resume early failed =>
          (m.ocwqMtx.resume t early).map fun mtx ↦ ({ m with ocwqMtx := mtx }, .awake failed)
      | _ => none
  | .awake failed =>
      if m.ocwqSignalCount = 0 then
        if failed then none else some (m, .leave)
      else some (m, .consume)
  | .consume => some ({ m with ocwqSignalCount := m.ocwqSignalCount - 1 }, .scan)
  | .leave => some ({ m with ocwqIdleThreads := m.ocwqIdleThreads - 1 }, .exit)
  | .exit => some ({ m with ocwqMtx := m.ocwqMtx.unlock }, .outside)
  | _ => none

def step : Program T (Act T α) (Mem T α) (Loc α) := fun t a m l ↦
  match l, a with
  | .outside, .create i => (workqueueCreate m i).map fun m' ↦ (m', .outside)
  | .outside, .add i witem => if (m.ocwq i).isSome then some (m, .addLock i witem) else none
  | .outside, .start =>
      if 0 < m.created then some ({ m with created := m.created - 1 }, .lock) else none
  | .outside, _ => none
  | l, a => managerWorkqueueAdditem t a m l <|> overcommitWorkerMain t a m l

def managerInit : Pool T (Mem T α) (Loc α) :=
  ⟨⟨fun _ ↦ none, 0, .free, 0, 0, 0⟩, fun _ ↦ .outside⟩

/-! ## What a step can do -/

inductive Trans (t : T) (m : Mem T α) : Loc α → Mem T α → Loc α → Prop
  | create {i : ℕ} : i < workqNumPrioqueue → m.ocwq i = none →
      Trans t m .outside { m with ocwq := Function.update m.ocwq i (some []) } .outside
  | createRefused : Trans t m .outside m .outside
  | add {i : ℕ} {witem : α} : (m.ocwq i).isSome → Trans t m .outside m (.addLock i witem)
  | start : 0 < m.created → Trans t m .outside { m with created := m.created - 1 } .lock
  | addLock {i : ℕ} {witem : α} : m.ocwqMtx.owner = none →
      Trans t m (.addLock i witem) { m with ocwqMtx.owner := some t } (.addInsert i witem)
  | addInsert {i : ℕ} {witem : α} : Trans t m (.addInsert i witem)
      { m with ocwq := Function.update m.ocwq i (some (m.items i ++ [witem])) } (.addMask i)
  | addMask {i : ℕ} :
      Trans t m (.addMask i) { m with ocwqMask := m.ocwqMask ||| indexBit i } .addTest
  | addTestNone : m.ocwqIdleThreads = 0 → Trans t m .addTest m .addCreate
  | addTest : m.ocwqIdleThreads ≠ 0 → Trans t m .addTest m .addSignal
  | signalNone : m.ocwqMtx.blocked = [] → Trans t m .addSignal m .addIdle
  | signal {u : T} : u ∈ m.ocwqMtx.blocked → Trans t m .addSignal
      { m with ocwqMtx.blocked := m.ocwqMtx.blocked.erase u } .addIdle
  | addIdle :
      Trans t m .addIdle { m with ocwqIdleThreads := m.ocwqIdleThreads - 1 } .addCount
  | addCount :
      Trans t m .addCount { m with ocwqSignalCount := m.ocwqSignalCount + 1 } .addUnlock
  | addCreate : Trans t m .addCreate { m with created := m.created + 1 } .addUnlock
  | addCreateFailed : Trans t m .addCreate m .addUnlock
  | addUnlock : Trans t m .addUnlock { m with ocwqMtx := m.ocwqMtx.unlock } .outside
  | lock : m.ocwqMtx.owner = none → Trans t m .lock { m with ocwqMtx.owner := some t } .scan
  | scanNone : ffs m.ocwqMask = 0 → Trans t m .scan m .idle
  | scan {i : ℕ} : ffs m.ocwqMask = i + 1 → Trans t m .scan m (.first i)
  | firstNone {i : ℕ} : m.items i = [] → Trans t m (.first i) m .idle
  | first {i : ℕ} {witem : α} {rest : List α} : m.items i = witem :: rest →
      Trans t m (.first i) m (.remove i witem)
  | remove {i : ℕ} {witem : α} : Trans t m (.remove i witem)
      { m with ocwq := Function.update m.ocwq i (some (m.items i).tail) } (.clear i witem)
  | clear {i : ℕ} {witem : α} : m.items i = [] → Trans t m (.clear i witem)
      { m with ocwqMask := m.ocwqMask &&& ~~~ indexBit i } (.unlock witem)
  | keep {i : ℕ} {witem : α} : m.items i ≠ [] → Trans t m (.clear i witem) m (.unlock witem)
  | unlock {witem : α} :
      Trans t m (.unlock witem) { m with ocwqMtx := m.ocwqMtx.unlock } (.run witem)
  | run {witem : α} : Trans t m (.run witem) m .lock
  | idle : Trans t m .idle { m with ocwqIdleThreads := m.ocwqIdleThreads + 1 } .wait
  | wait : Trans t m .wait { m with ocwqMtx := m.ocwqMtx.wait t } .asleep
  | resume {failed : Bool} : m.ocwqMtx.owner = none → Trans t m .asleep
      { m with ocwqMtx := ⟨some t, m.ocwqMtx.blocked.erase t⟩ } (.awake failed)
  | awakeNone {failed : Bool} : m.ocwqSignalCount = 0 → Trans t m (.awake failed) m .leave
  | awake {failed : Bool} : m.ocwqSignalCount ≠ 0 → Trans t m (.awake failed) m .consume
  | consume : Trans t m .consume { m with ocwqSignalCount := m.ocwqSignalCount - 1 } .scan
  | leave : Trans t m .leave { m with ocwqIdleThreads := m.ocwqIdleThreads - 1 } .exit
  | exit : Trans t m .exit { m with ocwqMtx := m.ocwqMtx.unlock } .outside

variable {m m' : Mem T α} {l l' : Loc α} {t : T} {a : Act T α}

theorem trans_of_additem (h : managerWorkqueueAdditem t a m l = some (m', l')) :
    Trans t m l m' l' := by
  unfold managerWorkqueueAdditem at h
  split at h
  case h_1 =>
    obtain ⟨mtx, hmtx, heq⟩ := Option.map_eq_some_iff.mp h
    obtain ⟨hfree, rfl⟩ := Monitor.lock_eq_some hmtx
    cases heq
    exact .addLock hfree
  case h_5 =>
    split at h
    · obtain ⟨mtx, hmtx, heq⟩ := Option.map_eq_some_iff.mp h
      rcases Monitor.signal_eq_some hmtx with ⟨hnone, rfl⟩ | ⟨hmem, rfl⟩ <;> cases heq
      · exact .signalNone hnone
      · exact .signal hmem
    · cases h
  case h_4 =>
    cases h
    split
    · exact .addTestNone ‹_›
    · exact .addTest ‹_›
  case h_8 =>
    split at h <;> cases h
    · exact .addCreateFailed
    · exact .addCreate
  all_goals cases h <;> constructor

theorem trans_of_worker (h : overcommitWorkerMain t a m l = some (m', l')) :
    Trans t m l m' l' := by
  unfold overcommitWorkerMain at h
  split at h
  case h_1 =>
    obtain ⟨mtx, hmtx, heq⟩ := Option.map_eq_some_iff.mp h
    obtain ⟨hfree, rfl⟩ := Monitor.lock_eq_some hmtx
    cases heq
    exact .lock hfree
  case h_2 =>
    split at h <;> cases h
    · exact .scanNone ‹_›
    · exact .scan ‹_›
  case h_3 i =>
    split at h <;> cases h
    · exact .firstNone (by simp [Mem.items, *])
    · exact .first (by simp [Mem.items, *]; rfl)
  case h_5 =>
    cases h
    split
    · exact .clear ‹_›
    · exact .keep ‹_›
  case h_10 =>
    split at h
    · obtain ⟨mtx, hmtx, heq⟩ := Option.map_eq_some_iff.mp h
      obtain ⟨hfree, rfl⟩ := Monitor.resume_eq_some hmtx
      cases heq
      exact .resume hfree
    · cases h
  case h_11 =>
    split at h
    · split at h <;> cases h
      exact .awakeNone ‹_›
    · cases h
      exact .awake ‹_›
  all_goals cases h <;> constructor

theorem trans_of_step (h : step t a m l = some (m', l')) : Trans t m l m' l' := by
  unfold step at h
  split at h
  · unfold workqueueCreate at h
    split at h
    · split at h <;> cases h
      exact .create ‹_› ‹_›
    · cases h
      exact .createRefused
  · split at h <;> cases h
    exact .add ‹_›
  · split at h <;> cases h
    exact .start ‹_›
  · cases h
  · simp only [Option.orElse_eq_orElse, Option.orElse_eq_or, Option.or_eq_some_iff] at h
    rcases h with h | ⟨-, h⟩
    · exact trans_of_additem h
    · exact trans_of_worker h

/-! ## The mutex -/

def Loc.inside : Loc α → Bool
  | .outside | .addLock .. | .lock | .run _ | .asleep => false
  | _ => true

theorem Trans.holds (h : Trans t m l m' l') :
    Holds t m.ocwqMtx.owner l.inside m'.ocwqMtx.owner l'.inside := by
  cases h
  case addLock hfree | lock hfree | resume hfree =>
    rw [hfree]
    exact .enter
  case addUnlock | unlock | wait | exit => exact .leave
  all_goals exact .stay

/-! ## The queues and the mask -/

/-- The queue whose bit the thread is about to bring up to date. -/
def Loc.stale : Loc α → Option ℕ
  | .addMask i | .clear i _ => some i
  | _ => none

/-- The bits of the mask are the queues with items, but for the one being brought up to date;
only queues that exist have items. -/
structure Masked (m : Mem T α) (loc : T → Loc α) : Prop where
  exact_of : ∀ i, (∀ t, (loc t).stale ≠ some i) → (m.ocwqMask.getLsbD i ↔ m.items i ≠ [])
  exists_of : ∀ i, (m.ocwq i).isSome → i < workqNumPrioqueue

def Sound (m : Mem T α) : Loc α → Prop
  | .addLock i _ | .addInsert i _ => (m.ocwq i).isSome
  | .addMask i => m.items i ≠ []
  | .addSignal | .addIdle => m.ocwqIdleThreads ≠ 0
  | .first i => m.items i ≠ [] ∧ ∀ j < i, m.items j = []
  | .remove i witem => m.items i ≠ [] ∧ (m.items i).head? = some witem ∧ ∀ j < i, m.items j = []
  | .clear i _ => m.ocwqMask.getLsbD i
  | .idle => ∀ i, m.items i = []
  | .consume => m.ocwqSignalCount ≠ 0
  | .leave => m.ocwqSignalCount = 0
  | _ => True

theorem Trans.frame (h : Trans t m l m' l') (hl : l.inside = false) :
    (∀ i, m'.items i = m.items i) ∧ m'.ocwqMask = m.ocwqMask ∧
      m'.ocwqIdleThreads = m.ocwqIdleThreads ∧ m'.ocwqSignalCount = m.ocwqSignalCount := by
  cases h
  case create i _ hnone =>
    refine ⟨fun j ↦ ?_, rfl, rfl, rfl⟩
    rcases eq_or_ne j i with rfl | hj
    · simp [Mem.items, hnone]
    · simp [Mem.items, hj]
  all_goals first | exact ⟨fun _ ↦ rfl, rfl, rfl, rfl⟩ | cases hl

theorem Trans.isSome_mono (h : Trans t m l m' l') {i : ℕ} (hi : (m.ocwq i).isSome) :
    (m'.ocwq i).isSome := by
  cases h
  case create j _ _ | addInsert j _ | remove j _ =>
    rcases eq_or_ne i j with rfl | hj
    · simp
    · simpa [hj] using hi
  all_goals exact hi

omit [DecidableEq T] in
theorem Sound.frame (h : Sound m l) (hitems : ∀ i, m'.items i = m.items i)
    (hmask : m'.ocwqMask = m.ocwqMask) (hidle : m'.ocwqIdleThreads = m.ocwqIdleThreads)
    (hcount : m'.ocwqSignalCount = m.ocwqSignalCount)
    (hsome : ∀ i, (m.ocwq i).isSome → (m'.ocwq i).isSome) : Sound m' l := by
  cases l
  case addLock i _ | addInsert i _ => exact hsome i h
  all_goals
    simp only [Sound, hitems, hmask, hidle, hcount] at h ⊢
    try exact h

omit [DecidableEq T] in
theorem Sound.of_not_inside (h : Sound m l) (hl : l.inside = false)
    (hsome : ∀ i, (m.ocwq i).isSome → (m'.ocwq i).isSome) : Sound m' l := by
  cases l
  case addLock i _ => exact hsome i h
  all_goals trivial

section Queues

variable {loc : T → Loc α}

omit [DecidableEq T] in
theorem stale_of_not_inside (h : l.inside = false) : l.stale = none := by
  cases l <;> first | rfl | cases h

omit [DecidableEq T] in
theorem Masked.of_inside (hM : Masked m loc) (hG : Guarded Loc.inside loc m.ocwqMtx.owner)
    (ht : (loc t).inside) {i : ℕ} (hi : (loc t).stale ≠ some i) :
    m.ocwqMask.getLsbD i ↔ m.items i ≠ [] := by
  refine hM.exact_of i fun u ↦ ?_
  rcases eq_or_ne u t with rfl | hu
  · exact hi
  · simp [stale_of_not_inside (hG.not_inside ht hu)]

omit [DecidableEq T] in
theorem isSome_of_items {i : ℕ} (h : m.items i ≠ []) : (m.ocwq i).isSome := by
  unfold Mem.items at h
  cases hq : m.ocwq i
  · simp [hq] at h
  · rfl

theorem Trans.sound (h : Trans t m (loc t) m' l') (hG : Guarded Loc.inside loc m.ocwqMtx.owner)
    (hM : Masked m loc) (hS : Sound m (loc t)) : Sound m' l' := by
  have hbit := fun i ↦ hM.of_inside hG (t := t) (i := i)
  generalize ht : loc t = l at h hS hbit
  cases h
  case add hi => exact hi
  case addLock | signalNone | signal => exact hS
  case addInsert i witem => simp [Sound, Mem.items]
  case addTest hne | awake hne => exact hne
  case scanNone hffs =>
    intro i
    by_contra hne
    have := (hbit i rfl nofun).mpr hne
    rw [ffs_eq_zero hffs i] at this
    cases this
  case scan i hffs =>
    obtain ⟨hset, hlt⟩ := ffs_eq_succ hffs
    refine ⟨(hbit i rfl nofun).mp hset, fun j hj ↦ ?_⟩
    by_contra hne
    have := (hbit j rfl nofun).mpr hne
    rw [hlt j hj] at this
    cases this
  case firstNone hnil => exact absurd hnil hS.1
  case first hcons => exact ⟨hS.1, by simp [hcons], hS.2⟩
  case remove i witem => exact (hbit i rfl nofun).mpr hS.1
  case awakeNone hzero => exact hzero
  all_goals trivial

theorem Trans.exists_of (h : Trans t m l m' l') (hS : Sound m l)
    (hM : ∀ i, (m.ocwq i).isSome → i < workqNumPrioqueue) (i : ℕ) (hi : (m'.ocwq i).isSome) :
    i < workqNumPrioqueue := by
  cases h
  case create j hj _ =>
    rcases eq_or_ne i j with rfl | hne
    · exact hj
    · exact hM i (by simpa [hne] using hi)
  case addInsert j _ =>
    rcases eq_or_ne i j with rfl | hne
    · exact hM i hS
    · exact hM i (by simpa [hne] using hi)
  case remove j _ =>
    rcases eq_or_ne i j with rfl | hne
    · exact hM i (isSome_of_items hS.1)
    · exact hM i (by simpa [hne] using hi)
  all_goals exact hM i hi

omit [DecidableEq T] in
theorem Masked.lt_of_items (hM : Masked m loc) {i : ℕ} (h : m.items i ≠ []) : i < 32 :=
  (hM.exists_of i (isSome_of_items h)).trans (by decide)

theorem Trans.masked (h : Trans t m (loc t) m' l') (hG : Guarded Loc.inside loc m.ocwqMtx.owner)
    (hM : Masked m loc) (hS : Sound m (loc t)) : Masked m' (Function.update loc t l') := by
  refine ⟨fun i hi ↦ ?_, h.exists_of hS hM.exists_of⟩
  rcases hin : (loc t).inside with _ | _
  · obtain ⟨hitems, hmask, -⟩ := h.frame hin
    rw [hitems, hmask]
    refine hM.exact_of i fun u ↦ ?_
    rcases eq_or_ne u t with rfl | hu
    · simp [stale_of_not_inside hin]
    · simpa [hu] using hi u
  · have hl' : l'.stale ≠ some i := by simpa using hi t
    have hbit := fun h ↦ hM.of_inside hG hin (i := i) h
    generalize loc t = l at h hS hbit hin
    cases h
    case addInsert j witem =>
      have hij : i ≠ j := by
        rintro rfl
        exact hl' rfl
      simpa [Mem.items, hij] using hbit nofun
    case remove j witem =>
      have hij : i ≠ j := by
        rintro rfl
        exact hl' rfl
      simpa [Mem.items, hij] using hbit nofun
    case addMask j =>
      rw [getLsbD_set (hM.lt_of_items hS)]
      rcases eq_or_ne i j with rfl | hij
      · simpa [Sound, Mem.items] using hS
      · simpa [hij.symm, Mem.items] using hbit (by simpa [Loc.stale] using hij.symm)
    case clear j witem hnil =>
      have hj : j < 32 := by
        by_contra hge
        rw [Sound, BitVec.getLsbD_of_ge _ _ (by omega)] at hS
        cases hS
      rw [getLsbD_clear hj]
      rcases eq_or_ne i j with rfl | hij
      · simpa [Mem.items] using hnil
      · simpa [hij.symm, Mem.items] using hbit (by simpa [Loc.stale] using hij.symm)
    case keep j witem hne =>
      rcases eq_or_ne i j with rfl | hij
      · exact ⟨fun _ ↦ hne, fun _ ↦ hS⟩
      · exact hbit (by simpa [Loc.stale] using hij.symm)
    case create => cases hin
    all_goals exact hbit nofun

/-- What the threads know, the mask and the mutex fit together. -/
structure Consistent (m : Mem T α) (loc : T → Loc α) : Prop where
  guarded : Guarded Loc.inside loc m.ocwqMtx.owner
  masked : Masked m loc
  sound : ∀ t, Sound m (loc t)

theorem Trans.consistent (h : Trans t m (loc t) m' l') (hI : Consistent m loc) :
    Consistent m' (Function.update loc t l') := by
  refine ⟨hI.guarded.step h.holds, h.masked hI.guarded hI.masked (hI.sound t), fun u ↦ ?_⟩
  rcases eq_or_ne u t with rfl | hu
  · rw [Function.update_self]
    exact h.sound hI.guarded hI.masked (hI.sound u)
  · rw [Function.update_of_ne hu]
    have hsome : ∀ i, (m.ocwq i).isSome → (m'.ocwq i).isSome := fun i hi ↦ h.isSome_mono hi
    rcases hin : (loc t).inside with _ | _
    · obtain ⟨hitems, hmask, hidle, hcount⟩ := h.frame hin
      exact (hI.sound u).frame hitems hmask hidle hcount hsome
    · exact (hI.sound u).of_not_inside (hI.guarded.not_inside hin hu) hsome

end Queues

section Runs

variable {C : Pool T (Mem T α) (Loc α) → T → Act T α → Prop} {s : Pool T (Mem T α) (Loc α)}

theorem consistent_of_run (h : Pool.Runs step C managerInit s) : Consistent s.mem s.loc := by
  refine h.invariant (I := fun s ↦ Consistent s.mem s.loc) ⟨fun t ↦ ?_, ⟨fun i _ ↦ ?_, nofun⟩,
    fun _ ↦ trivial⟩ fun s t a m l _ hI _ hP ↦ (trans_of_step hP).consistent hI
  · simp [managerInit, Monitor.free, Loc.inside]
  · simp [managerInit, Mem.items]

end Runs

end LibDispatch.Workqueue.Overcommit
