import LibDispatch.Interleaving.Refinement
import LibDispatch.RootQueue.Loop

/-!
# The thread pool of a root queue

Without a kernel work queue, a root queue has a pool of at most `n` workers of its own.
Whoever finds items on the queue signals the mediator; if no worker waits there, a new one
is created, unless the pool is exhausted.  A worker that has found nothing to do waits at the
mediator for a while, and at last gives its slot back and looks at the queue once more.

A wakeup may find neither a waiter nor a slot.  It has then left a count at the mediator,
and all the workers are about to wait there, or have given up waiting and are about to look.
-/

namespace LibDispatch.RootQueue.ThreadPool

open Interleaving TailList

/-- A counting semaphore: its surplus, the threads that sleep in a wait, and the wakeups that
have been handed to sleeping threads and that these have not acted upon yet. -/
structure Mediator where
  value : ℕ
  waiting : ℕ
  handed : ℕ
  deriving DecidableEq

/-- The root queue, the slots that are left, the mediator, and the workers that have been
created and do not run yet. -/
structure Mem (α : Type*) where
  queue : RootQueue.Mem α
  dgqThreadPoolSize : ℕ
  dgqThreadMediator : Mediator
  spawned : ℕ

/-- The places of a thread that wakes up a queue with a pool of threads, and of a worker after
its loop.  At `poolTake` the variable `t_count` is `rest + 1`. -/
inductive Own (α : Type*)
  | signal (k : After α)
  | poolSize (k : After α)
  | poolTake (k : After α) (rest : ℕ)
  | create (k : After α)
  | wait
  | asleep
  | giveBack
  | recheck
  deriving DecidableEq

/-- Where a thread stands; after its loop a worker goes on with the wait of
`_dispatch_worker_thread`. -/
abbrev Loc (α : Type*) := Place α (Own α)

/-- What the threads and the kernel decide: `fail` is a `pthread_create` that fails, `giveUp`
a wait that times out. -/
inductive Act (α : Type*)
  | push (head : α) (rest : List α)
  | start
  | go
  | fail
  | giveUp
  deriving DecidableEq

variable {α T : Type*}

def After.loc (k : After α) : Loc α := k.place (.own .wait)

variable [DecidableEq α]

/-- `_dispatch_queue_wakeup_global` without a kernel work queue. -/
def dispatchQueueWakeupGlobal (m : Mem α) : Loc α → Option (Mem α × Loc α)
  | .wakeup k => some (m, if m.queue.dq.dqItemsTail = none then After.loc k else .own (.signal k))
  | .own (.signal k) =>
      if 0 < m.dgqThreadMediator.waiting then
        some ({ m with
          dgqThreadMediator.waiting := m.dgqThreadMediator.waiting - 1
          dgqThreadMediator.handed := m.dgqThreadMediator.handed + 1 }, After.loc k)
      else
        some ({ m with dgqThreadMediator.value := m.dgqThreadMediator.value + 1 },
          .own (.poolSize k))
  | .own (.poolSize k) =>
      match m.dgqThreadPoolSize with
      | 0 => some (m, After.loc k)
      | rest + 1 => some (m, .own (.poolTake k rest))
  | .own (.poolTake k rest) =>
      if m.dgqThreadPoolSize = rest + 1 then
        some ({ m with dgqThreadPoolSize := rest }, .own (.create k))
      else some (m, .own (.poolSize k))
  | .own (.create k) => some ({ m with spawned := m.spawned + 1 }, After.loc k)
  | _ => none

def dispatchWorkerThread2 (m : Mem α) (l : Loc α) : Option (Mem α × Loc α) :=
  (workerLoop (.own .wait) m.queue l).map fun r ↦ ({ m with queue := r.1 }, r.2)

def dispatchWorkerThread (m : Mem α) : Loc α → Option (Mem α × Loc α)
  | .own .wait =>
      if 0 < m.dgqThreadMediator.value then
        some ({ m with dgqThreadMediator.value := m.dgqThreadMediator.value - 1 }, .loop)
      else
        some ({ m with dgqThreadMediator.waiting := m.dgqThreadMediator.waiting + 1 },
          .own .asleep)
  | .own .asleep =>
      if 0 < m.dgqThreadMediator.handed then
        some ({ m with dgqThreadMediator.handed := m.dgqThreadMediator.handed - 1 }, .loop)
      else none
  | .own .giveBack =>
      some ({ m with dgqThreadPoolSize := m.dgqThreadPoolSize + 1 }, .own .recheck)
  | .own .recheck =>
      some (m, if m.queue.dq.dqItemsTail = none then .outside else .wakeup .outside)
  | _ => none

/-- One step of a thread that pushes to the root queue or works for it.  A creation that has
failed is tried again after a second. -/
def step : Program T (Act α) (Mem α) (Loc α) := fun _ a m l ↦
  match l, a with
  | .outside, .push head rest =>
      (m.queue.dq.prepare head rest).map fun r ↦ ({ m with queue.dq := r.1 }, .push r.2)
  | .push p, .go =>
      let r := m.queue.dq.pushList p
      some ({ m with queue.dq := r.1 }, afterPush p r.2)
  | .outside, .start =>
      if 0 < m.spawned then some ({ m with spawned := m.spawned - 1 }, .loop) else none
  | .own (.create k), .fail => some (m, .own (.create k))
  | .own .asleep, .giveUp =>
      if 0 < m.dgqThreadMediator.waiting then
        some ({ m with dgqThreadMediator.waiting := m.dgqThreadMediator.waiting - 1 },
          .own .giveBack)
      else none
  | l, .go =>
      dispatchQueueWakeupGlobal m l <|> dispatchWorkerThread2 m l <|> dispatchWorkerThread m l
  | _, _ => none

/-- A root queue with a pool of `n` threads that no thread uses yet. -/
def created (doNext : α → Option α) (n : ℕ) : Pool T (Mem α) (Loc α) :=
  ⟨⟨⟨.empty doNext, 0, []⟩, n, ⟨0, 0, 0⟩, 0⟩, fun _ ↦ .outside⟩

/-! ## What a step can do -/

inductive Trans (m : Mem α) : Loc α → Mem α → Loc α → Prop
  | loop {q : RootQueue.Mem α} {l l' : Loc α} : LoopTrans (.own .wait) m.queue l q l' →
      Trans m l { m with queue := q } l'
  | begin : 0 < m.spawned → Trans m .outside { m with spawned := m.spawned - 1 } .loop
  | wakeupEmpty {k : After α} : m.queue.dq.dqItemsTail = none →
      Trans m (.wakeup k) m (After.loc k)
  | wakeup {k : After α} : m.queue.dq.dqItemsTail ≠ none →
      Trans m (.wakeup k) m (.own (.signal k))
  | handed {k : After α} : 0 < m.dgqThreadMediator.waiting → Trans m (.own (.signal k))
      { m with
        dgqThreadMediator.waiting := m.dgqThreadMediator.waiting - 1
        dgqThreadMediator.handed := m.dgqThreadMediator.handed + 1 } (After.loc k)
  | surplus {k : After α} : m.dgqThreadMediator.waiting = 0 → Trans m (.own (.signal k))
      { m with dgqThreadMediator.value := m.dgqThreadMediator.value + 1 } (.own (.poolSize k))
  | poolFull {k : After α} : m.dgqThreadPoolSize = 0 →
      Trans m (.own (.poolSize k)) m (After.loc k)
  | poolSize {k : After α} {rest : ℕ} : m.dgqThreadPoolSize = rest + 1 →
      Trans m (.own (.poolSize k)) m (.own (.poolTake k rest))
  | poolTake {k : After α} {rest : ℕ} : m.dgqThreadPoolSize = rest + 1 →
      Trans m (.own (.poolTake k rest)) { m with dgqThreadPoolSize := rest } (.own (.create k))
  | poolMissed {k : After α} {rest : ℕ} :
      Trans m (.own (.poolTake k rest)) m (.own (.poolSize k))
  | create {k : After α} :
      Trans m (.own (.create k)) { m with spawned := m.spawned + 1 } (After.loc k)
  | createFailed {k : After α} : Trans m (.own (.create k)) m (.own (.create k))
  | take : 0 < m.dgqThreadMediator.value → Trans m (.own .wait)
      { m with dgqThreadMediator.value := m.dgqThreadMediator.value - 1 } .loop
  | sleep : m.dgqThreadMediator.value = 0 → Trans m (.own .wait)
      { m with dgqThreadMediator.waiting := m.dgqThreadMediator.waiting + 1 } (.own .asleep)
  | wake : 0 < m.dgqThreadMediator.handed → Trans m (.own .asleep)
      { m with dgqThreadMediator.handed := m.dgqThreadMediator.handed - 1 } .loop
  | giveUp : 0 < m.dgqThreadMediator.waiting → Trans m (.own .asleep)
      { m with dgqThreadMediator.waiting := m.dgqThreadMediator.waiting - 1 } (.own .giveBack)
  | giveBack : Trans m (.own .giveBack)
      { m with dgqThreadPoolSize := m.dgqThreadPoolSize + 1 } (.own .recheck)
  | recheckEmpty : m.queue.dq.dqItemsTail = none → Trans m (.own .recheck) m .outside
  | recheck : m.queue.dq.dqItemsTail ≠ none → Trans m (.own .recheck) m (.wakeup .outside)

variable {m m' : Mem α} {l l' : Loc α} {t : T} {a : Act α}

theorem trans_of_wakeup (h : dispatchQueueWakeupGlobal m l = some (m', l')) :
    Trans m l m' l' := by
  unfold dispatchQueueWakeupGlobal at h
  split at h
  · cases h
    split
    · exact .wakeupEmpty ‹_›
    · exact .wakeup ‹_›
  · split at h <;> cases h
    · exact .handed ‹_›
    · exact .surplus (Nat.eq_zero_of_not_pos ‹_›)
  · split at h <;> cases h
    · exact .poolFull ‹_›
    · exact .poolSize ‹_›
  · split at h <;> cases h
    · exact .poolTake ‹_›
    · exact .poolMissed
  · cases h
    exact .create
  · cases h

theorem trans_of_worker2 (h : dispatchWorkerThread2 m l = some (m', l')) : Trans m l m' l' := by
  obtain ⟨r, hr, heq⟩ := Option.map_eq_some_iff.mp h
  cases heq
  exact .loop (loopTrans_of_worker hr)

theorem trans_of_worker (h : dispatchWorkerThread m l = some (m', l')) : Trans m l m' l' := by
  unfold dispatchWorkerThread at h
  split at h
  · split at h <;> cases h
    · exact .take ‹_›
    · exact .sleep (Nat.eq_zero_of_not_pos ‹_›)
  · split at h <;> cases h
    exact .wake ‹_›
  · cases h
    exact .giveBack
  · cases h
    split
    · exact .recheckEmpty ‹_›
    · exact .recheck ‹_›
  · cases h

theorem trans_of_step (h : step t a m l = some (m', l')) : Trans m l m' l' := by
  unfold step at h
  split at h
  · obtain ⟨⟨i, p⟩, hp, heq⟩ := Option.map_eq_some_iff.mp h
    cases heq
    exact .loop (.prepare hp)
  · cases h
    exact .loop (.push rfl)
  · split at h <;> cases h
    exact .begin ‹_›
  · cases h
    exact .createFailed
  · split at h <;> cases h
    exact .giveUp ‹_›
  · simp only [Option.orElse_eq_orElse, Option.orElse_eq_or, Option.or_eq_some_iff] at h
    rcases h with h | ⟨-, h | ⟨-, h⟩⟩
    · exact trans_of_wakeup h
    · exact trans_of_worker2 h
    · exact trans_of_worker h
  · cases h

/-! ## The list -/

def Own.base : Own α → RootQueue.Loc α
  | .signal k | .poolSize k | .poolTake k _ | .create k => k.base
  | _ => .idle

theorem base_reachable [DecidableEq T] {doNext : α → Option α} {n : ℕ}
    {s : Pool T (Mem α) (Loc α)} (h : Pool.Reachable step (created doNext n) s) :
    Pool.Reachable RootQueue.step (RootQueue.created doNext)
      ⟨s.mem.queue, fun t ↦ (s.loc t).base Own.base⟩ := by
  refine h.refines Mem.queue (Place.base Own.base) fun t a m l m' l' hP ↦ ?_
  cases trans_of_step hP
  case loop hloop => exact hloop.base rfl t
  case wakeupEmpty | handed | poolFull | create => exact .inl ⟨rfl, base_place rfl _⟩
  all_goals exact .inl ⟨rfl, rfl⟩

/-! ## The slots -/

/-- The thread comes back to `_dispatch_worker_thread` as a worker. -/
def After.worker : After α → Bool
  | .outside => false
  | _ => true

/-- The thread is a worker that has not made its final increment. -/
def worker : Loc α → Bool
  | .loop | .drain _ | .run | .own .wait | .own .asleep | .own .giveBack => true
  | .wakeup k | .own (.signal k) | .own (.poolSize k) | .own (.poolTake k _)
  | .own (.create k) => After.worker k
  | _ => false

/-- The thread has taken a slot and not yet created the worker for it. -/
def creates : Loc α → Bool
  | .own (.create _) => true
  | _ => false

def slots (l : Loc α) : ℤ := (if worker l then 1 else 0) + if creates l then 1 else 0

def sleeps : Loc α → ℤ
  | .own .asleep => 1
  | _ => 0

omit [DecidableEq α] in
theorem slots_afterLoc (k : After α) :
    slots (After.loc k) = slots (.wakeup k) ∧ sleeps (After.loc k) = 0 := by
  cases k <;> exact ⟨rfl, rfl⟩

omit [DecidableEq α] in
theorem slots_create (k : After α) : slots (.own (.create k)) = slots (.wakeup k) + 1 := by
  cases k <;> rfl

theorem slots_loop {q q' : RootQueue.Mem α} (h : LoopTrans (.own .wait) q l q' l') :
    slots l' = slots l ∧ sleeps l' = sleeps l := by
  cases h
  case push p i p' hp => cases p' <;> cases p <;> exact ⟨rfl, rfl⟩
  case drain l l' hl hq =>
    rcases hl with ⟨rfl, -⟩ | ⟨rfl, -⟩ <;> cases l <;> cases l' <;> exact ⟨rfl, rfl⟩
  all_goals exact ⟨rfl, rfl⟩

theorem Trans.slots_eq (h : Trans m l m' l') :
    (m'.dgqThreadPoolSize + m'.spawned : ℤ) + slots l' =
      m.dgqThreadPoolSize + m.spawned + slots l := by
  cases h
  case loop hloop => rw [(slots_loop hloop).1]
  case wakeupEmpty k _ | handed k _ | poolFull k _ => exact congrArg (_ + ·) (slots_afterLoc k).1
  case create k =>
    rw [(slots_afterLoc k).1, slots_create]
    push_cast
    ring
  case poolTake k rest hsize =>
    have hslots : slots (.own (.poolTake k rest)) = slots (.wakeup k) := rfl
    rw [slots_create, hslots, hsize]
    push_cast
    ring
  case begin hpos =>
    have hloop : slots (.loop : Loc α) = 1 := rfl
    have hout : slots (.outside : Loc α) = 0 := rfl
    rw [hloop, hout]
    simp only
    omega
  case giveBack =>
    have hgive : slots (.own .giveBack : Loc α) = 1 := rfl
    have hlook : slots (.own .recheck : Loc α) = 0 := rfl
    rw [hgive, hlook]
    push_cast
    ring
  all_goals rfl

theorem Trans.sleeps_eq (h : Trans m l m' l') :
    (m'.dgqThreadMediator.waiting + m'.dgqThreadMediator.handed : ℤ) - sleeps l' =
      m.dgqThreadMediator.waiting + m.dgqThreadMediator.handed - sleeps l := by
  cases h
  case loop hloop => rw [(slots_loop hloop).2]
  case wakeupEmpty k _ | poolFull k _ | create k =>
    rw [(slots_afterLoc k).2]
    rfl
  case handed k hpos =>
    rw [(slots_afterLoc k).2]
    simp only [sleeps]
    omega
  case sleep | wake | giveUp =>
    simp only [sleeps]
    omega
  all_goals rfl

theorem Trans.surplus_eq (h : Trans m l m' l')
    (hm : 0 < m.dgqThreadMediator.value → m.dgqThreadMediator.waiting = 0)
    (hpos : 0 < m'.dgqThreadMediator.value) : m'.dgqThreadMediator.waiting = 0 := by
  cases h
  case handed | giveUp =>
    simp only [hm hpos]
  case surplus hnone => exact hnone
  case take hpos' => exact hm hpos'
  case sleep hzero =>
    simp only [hzero] at hpos
    omega
  all_goals exact hm hpos

/-! ## Somebody looks after the queue -/

/-- The thread is bound to look at the queue again, or to have it looked at, also if it finds
the pool exhausted. -/
def Own.attends : Own α → Bool
  | .wait | .asleep => false
  | .poolSize k | .poolTake k _ =>
      match k with
      | .drainReturn .. => true
      | _ => false
  | _ => true

/-- The thread comes to the mediator, and will find a surplus there, or it is about to look
for a slot. -/
def lingers : Loc α → Bool
  | .drain .drainReset | .own .wait | .own (.poolSize _) | .own (.poolTake ..) => true
  | _ => false

omit [DecidableEq α] in
theorem Own.attends_of_hold {x : Own α} (h : x.base.hold ≠ none) : x.attends := by
  cases x
  case poolSize k | poolTake k _ => cases k <;> first | rfl | exact absurd rfl h
  case wait | asleep => exact absurd rfl h
  all_goals rfl

omit [DecidableEq α] in
theorem attends_of_slots (h : slots l ≠ 0) :
    l.attends Own.attends ∨ lingers l ∨ l = .own .asleep := by
  cases l
  case outside | push => exact absurd rfl h
  case drain l => cases l <;> first | exact .inl rfl | exact .inr (.inl rfl)
  case own x =>
    cases x
    case poolSize | poolTake | wait => exact .inr (.inl rfl)
    case asleep => exact .inr (.inr rfl)
    case recheck => exact absurd rfl h
    all_goals exact .inl rfl
  all_goals exact .inl rfl

theorem lingers_of_loop {q q' : RootQueue.Mem α} (h : LoopTrans (.own .wait) q l q' l')
    (hleave : l = .drain .drainReset → l' = .own .wait) (hl : lingers l) : lingers l' := by
  cases h
  case drain l l' hl' hq =>
    rcases hl' with ⟨rfl, -⟩ | ⟨rfl, -⟩
    · cases hl
    · cases l <;> first | exact absurd hl Bool.false_ne_true | rw [hleave rfl]; rfl
  all_goals cases hl

/-- Somebody looks after the queue: a worker that has been created or woken up, a thread that
attends, or a count at the mediator that a thread will find. -/
def Attended (m : Mem α) (loc : T → Loc α) : Prop :=
  m.spawned ≠ 0 ∨ m.dgqThreadMediator.handed ≠ 0 ∨ (∃ t, (loc t).attends Own.attends) ∨
    0 < m.dgqThreadMediator.value ∧ ∃ t, lingers (loc t)

section Attended

variable [DecidableEq T] {loc : T → Loc α}

omit [DecidableEq α] in
theorem Attended.self (h : l'.attends Own.attends) : Attended m' (Function.update loc t l') :=
  .inr (.inr (.inl (exists_self h)))

omit [DecidableEq α] in
theorem Attended.move (h : Attended m loc) (hspawned : m'.spawned = m.spawned)
    (hmed : m'.dgqThreadMediator = m.dgqThreadMediator) (hatt : (loc t).attends Own.attends = false)
    (hling : lingers (loc t) → lingers l') : Attended m' (Function.update loc t l') := by
  unfold Attended
  rw [hspawned, hmed]
  refine h.imp_right (Or.imp_right (Or.imp (exists_update hatt) (And.imp_right ?_)))
  rintro ⟨u, hu⟩
  rcases eq_or_ne u t with rfl | hut
  · exact exists_self (hling hu)
  · exact ⟨u, by simpa [hut] using hu⟩

omit [DecidableEq α] in
theorem Attended.poolFull {k : After α} (h : Attended m loc) (ht : loc t = .own (.poolSize k))
    (hsurplus : 0 < m.dgqThreadMediator.value → m.dgqThreadMediator.waiting = 0)
    (hsleeps : ∀ u, loc u = .own .asleep →
      m.dgqThreadMediator.waiting + m.dgqThreadMediator.handed ≠ 0)
    (hslots : m.spawned ≠ 0 ∨ ∃ u, slots (loc u) ≠ 0) :
    Attended m (Function.update loc t (After.loc k)) := by
  cases k
  case drainReturn => exact .self rfl
  case leave => exact h.move rfl rfl (by rw [ht]; rfl) fun _ ↦ rfl
  case outside =>
    rcases h with hsp | hha | hatt | ⟨hpos, -⟩
    · exact .inl hsp
    · exact .inr (.inl hha)
    · exact .inr (.inr (.inl (exists_update (by rw [ht]; rfl) hatt)))
    · rcases hslots with hsp | ⟨u, hu⟩
      · exact .inl hsp
      have hut : u ≠ t := by
        rintro rfl
        rw [ht] at hu
        exact hu rfl
      rcases attends_of_slots hu with hatt | hling | hasleep
      · exact .inr (.inr (.inl ⟨u, by simpa [hut] using hatt⟩))
      · exact .inr (.inr (.inr ⟨hpos, u, by simpa [hut] using hling⟩))
      · -- nobody waits, so that the sleeper has been handed a wakeup
        have hne := hsleeps u hasleep
        rw [hsurplus hpos, Nat.zero_add] at hne
        exact .inr (.inl hne)

theorem Trans.attended {gone chain : List α} (h : Trans m (loc t) m' l')
    (hnum : Numbered m.queue (fun u ↦ (loc u).base Own.base) gone chain)
    (hsurplus : 0 < m.dgqThreadMediator.value → m.dgqThreadMediator.waiting = 0)
    (hsleeps : ∀ u, loc u = .own .asleep →
      m.dgqThreadMediator.waiting + m.dgqThreadMediator.handed ≠ 0)
    (hslots : m.dgqThreadPoolSize = 0 → m.spawned ≠ 0 ∨ ∃ u, slots (loc u) ≠ 0)
    (hI : m.queue.dq.dqItemsTail ≠ none → Attended m loc)
    (htail : m'.queue.dq.dqItemsTail ≠ none) : Attended m' (Function.update loc t l') := by
  generalize ht : loc t = l at h
  cases h
  case loop hloop =>
    rw [← ht] at hloop
    rcases hloop.attended (g := Own.attends) hnum htail with hself | ⟨u, hut, hu⟩ |
      ⟨hold, hno, hleave⟩
    · exact .self hself
    · have hatt := attends_of_hold (fun _ ↦ Own.attends_of_hold) hu
      exact .inr (.inr (.inl ⟨u, by simpa [hut] using hatt⟩))
    · exact (hI hold).move rfl rfl hno (lingers_of_loop hloop hleave)
  case wakeupEmpty hnone | recheckEmpty hnone => exact absurd hnone htail
  case handed => exact .inr (.inl (Nat.succ_ne_zero _))
  case surplus => exact .inr (.inr (.inr ⟨Nat.succ_pos _, exists_self rfl⟩))
  case poolFull hfull => exact (hI htail).poolFull ht hsurplus hsleeps (hslots hfull)
  case poolSize k rest _ | poolMissed k rest =>
    cases k
    case drainReturn => exact .self rfl
    all_goals exact (hI htail).move rfl rfl (by rw [ht]; rfl) fun _ ↦ rfl
  case create => exact .inl (Nat.succ_ne_zero _)
  case sleep hzero =>
    rcases hI htail with hsp | hha | hatt | ⟨hpos, -⟩
    · exact .inl hsp
    · exact .inr (.inl hha)
    · exact .inr (.inr (.inl (exists_update (by rw [ht]; rfl) hatt)))
    · exact absurd hzero hpos.ne'
  all_goals exact .self rfl

end Attended

/-! ## No work is stranded -/

section Runs

variable [DecidableEq T] [Fintype T] {doNext : α → Option α} {n : ℕ} {s : Pool T (Mem α) (Loc α)}

theorem slots_of_run (h : Pool.Reachable step (created doNext n) s) :
    (s.mem.dgqThreadPoolSize + s.mem.spawned : ℤ) + ∑ t, slots (s.loc t) = n := by
  have hsum : (n : ℤ) - (s.mem.dgqThreadPoolSize + s.mem.spawned) = ∑ t, slots (s.loc t) := by
    refine h.balance (fun m ↦ (n : ℤ) - (m.dgqThreadPoolSize + m.spawned)) (fun _ ↦ slots) ?_ ?_
    · simp [created, slots, worker, creates]
    · intro s t a m l _ _ _ hP
      have heq := (trans_of_step hP).slots_eq
      linarith
  linarith

theorem sleeps_of_run (h : Pool.Reachable step (created doNext n) s) :
    (s.mem.dgqThreadMediator.waiting + s.mem.dgqThreadMediator.handed : ℤ) =
      ∑ t, sleeps (s.loc t) := by
  refine h.balance (fun m ↦ (m.dgqThreadMediator.waiting + m.dgqThreadMediator.handed : ℤ))
    (fun _ ↦ sleeps) ?_ ?_
  · simp [created, sleeps]
  · intro s t a m l _ _ _ hP
    exact (trans_of_step hP).sleeps_eq

omit [Fintype T] in
theorem surplus_of_run (h : Pool.Reachable step (created doNext n) s) :
    0 < s.mem.dgqThreadMediator.value → s.mem.dgqThreadMediator.waiting = 0 := by
  refine h.invariant
    (I := fun s ↦ 0 < s.mem.dgqThreadMediator.value → s.mem.dgqThreadMediator.waiting = 0)
    (fun _ ↦ rfl) ?_
  intro s t a m l _ hI _ hP
  exact (trans_of_step hP).surplus_eq hI

theorem sleeper_counted (h : Pool.Reachable step (created doNext n) s) {u : T}
    (hu : s.loc u = .own .asleep) :
    s.mem.dgqThreadMediator.waiting + s.mem.dgqThreadMediator.handed ≠ 0 := by
  have hsum := sleeps_of_run h
  have hnonneg : ∀ t ∈ Finset.univ, 0 ≤ sleeps (s.loc t) := fun t _ ↦ by
    unfold sleeps
    split <;> decide
  have hone := Finset.single_le_sum hnonneg (Finset.mem_univ u)
  rw [hu, ← hsum] at hone
  have hasleep : sleeps (.own .asleep : Loc α) = 1 := rfl
  omega

theorem slots_taken (hn : 1 ≤ n) (h : Pool.Reachable step (created doNext n) s)
    (hfull : s.mem.dgqThreadPoolSize = 0) : s.mem.spawned ≠ 0 ∨ ∃ u, slots (s.loc u) ≠ 0 := by
  by_contra! hnone
  have hslots := slots_of_run h
  rw [hfull, hnone.1, Finset.sum_eq_zero fun t _ ↦ hnone.2 t] at hslots
  omega

theorem attended_of_run (hn : 1 ≤ n) (h : Pool.Reachable step (created doNext n) s) :
    s.mem.queue.dq.dqItemsTail ≠ none → Attended s.mem s.loc := by
  refine h.invariant (I := fun s ↦ s.mem.queue.dq.dqItemsTail ≠ none → Attended s.mem s.loc)
    (fun h ↦ absurd rfl h) ?_
  intro s t a m l hr hI _ hP
  obtain ⟨gone, chain, hnum⟩ := numbered_of_run (base_reachable hr)
  exact (trans_of_step hP).attended hnum (surplus_of_run hr) (fun u ↦ sleeper_counted hr)
    (slots_taken hn hr) hI

/-- No thread is inside of the library but for workers that sleep at the mediator, and of
these none has been handed a wakeup. -/
structure AtRest (s : Pool T (Mem α) (Loc α)) : Prop where
  loc : ∀ t, s.loc t = .outside ∨ s.loc t = .own .asleep
  spawned : s.mem.spawned = 0
  handed : s.mem.dgqThreadMediator.handed = 0

omit [DecidableEq α] [DecidableEq T] [Fintype T] in
theorem AtRest.not_attended (h : AtRest s) : ¬ Attended s.mem s.loc := by
  rintro (hsp | hha | ⟨t, ht⟩ | ⟨hpos, t, ht⟩)
  · exact hsp h.spawned
  · exact hha h.handed
  all_goals rcases h.loc t with heq | heq <;> rw [heq] at ht <;> cases ht

/-- A pool of `n` threads keeps count of its slots, and leaves no item behind: each slot is
free, or taken for a worker to be created, or that of a worker that has not made its final
increment; and when all workers sleep, the queue is empty. -/
theorem pool_not_stranded (hn : 1 ≤ n) (h : Pool.Reachable step (created doNext n) s) :
    s.mem.dgqThreadPoolSize + (s.mem.spawned + (Finset.univ.filter fun t ↦ worker (s.loc t)).card) +
        (Finset.univ.filter fun t ↦ creates (s.loc t)).card = n ∧
      (AtRest s → s.mem.queue.dq.dqItemsTail = none ∧ s.mem.queue.dq.dqItemsHead = .null) := by
  refine ⟨?_, fun hrest ↦ ?_⟩
  · have hslots := slots_of_run h
    simp only [slots, Finset.sum_add_distrib, Finset.sum_boole] at hslots
    omega
  · have htail : s.mem.queue.dq.dqItemsTail = none := by
      by_contra htail
      exact hrest.not_attended (attended_of_run hn h htail)
    refine ⟨htail, head_of_tail htail (base_reachable h) fun hmed ↦ ?_⟩
    obtain ⟨t, ht⟩ := repairing_of_run (base_reachable h) hmed
    rcases hrest.loc t with heq | heq
    all_goals
      simp only [heq] at ht
      cases ht

end Runs

/-- Thread 0 pushes an item to a queue with a pool of one thread, and creates the worker. -/
def pushTrace : List (Fin 2 × Act ℕ) := (0, Act.push 7 []) :: List.replicate 7 (0, Act.go)

/-- Thread 1 is the worker: it takes the item, comes back to the queue, takes the surplus at
the mediator, finds the queue empty once more and sleeps. -/
def workTrace : List (Fin 2 × Act ℕ) :=
  pushTrace ++ (0, Act.go) :: (1, Act.start) :: List.replicate 12 (1, Act.go)

def workedState : Pool (Fin 2) (Mem ℕ) (Loc ℕ) :=
  ((created (fun _ ↦ none) 1).run step (fun _ _ _ ↦ True) workTrace).get (by decide)

theorem pool_not_stranded_once :
    workedState.mem.queue.returned = [(0, .item 7)] ∧ workedState.mem.dgqThreadPoolSize = 0 ∧
      workedState.loc 1 = .own .asleep ∧ workedState.mem.queue.dq.dqItemsTail = none ∧
      workedState.mem.queue.dq.dqItemsHead = .null :=
  ⟨by decide, by decide, by decide, (pool_not_stranded le_rfl (Pool.runs_get _)).2
    ⟨by decide, by decide, by decide⟩⟩

/-- The pusher has taken the slot and has not created the worker yet. -/
def creatingState : Pool (Fin 2) (Mem ℕ) (Loc ℕ) :=
  ((created (fun _ ↦ none) 1).run step (fun _ _ _ ↦ True) pushTrace).get (by decide)

/-- The worker has given up, a second push has found neither a waiter nor a slot, and the
worker has given its slot back but not yet looked at the queue. -/
def lookingState : Pool (Fin 2) (Mem ℕ) (Loc ℕ) :=
  ((created (fun _ ↦ none) 1).run step (fun _ _ _ ↦ True)
    (workTrace ++ (1, Act.giveUp) :: (0, Act.push 8 []) :: List.replicate 6 (0, Act.go) ++
      [(1, Act.go)])).get (by decide)

/-- Between the compare-and-swap and `pthread_create` a slot belongs to no worker, and between
the final increment and the last look at the queue no worker answers for its items. -/
theorem slots_between :
    (Pool.Reachable step (created (fun _ ↦ none) 1) creatingState ∧
      creatingState.mem.dgqThreadPoolSize + (creatingState.mem.spawned +
        (Finset.univ.filter fun t ↦ worker (creatingState.loc t)).card) = 0) ∧
    Pool.Reachable step (created (fun _ ↦ none) 1) lookingState ∧
      lookingState.mem.spawned = 0 ∧ (∀ t, worker (lookingState.loc t) = false) ∧
      lookingState.loc 0 = .outside ∧ lookingState.loc 1 = .own .recheck ∧
      lookingState.mem.queue.dq.dqItemsTail = some 8 :=
  ⟨⟨Pool.runs_get _, by decide⟩, Pool.runs_get _, by decide⟩

end LibDispatch.RootQueue.ThreadPool
