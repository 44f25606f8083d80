import LibDispatch.Workqueue.Wqlist

/-!
# The workers and their manager

The items of the queues that do not overcommit are executed by a pool of workers, which a
manager thread lets grow and shrink.  Workers and manager share a scoreboard: the number of
workers, the number of those that execute nothing, and the number of workers that have been
asked for and have not started yet.  A worker is asked to exit by an item without a function.
-/

namespace LibDispatch.Workqueue.Scoreboard

open Interleaving

/-- What is fixed when the library is initialised, or when the manager starts. -/
structure Config where
  pwqSpinThreads : BitVec 32
  cpuCount : BitVec 32
  workerIdleThreshold : BitVec 32
  workerMax : BitVec 32

def workerMin : ℕ := 2

def workerIdleSecondsThreshold : BitVec 32 := 15

/-- The list of queues; the mutex `wqlist_mtx` with the condition `wqlist_has_work`; the
scoreboard with its semaphore; the worker and manager threads that have been created and do
not run yet; and the number of workers that could not be created. -/
structure Mem (T α : Type*) where
  list : Wqlist T α
  wqlistMtx : Monitor T
  wqlistHasManager : Bool
  count : BitVec 32
  idle : BitVec 32
  sbSem : ℕ
  sbSuspend : Bool
  pendingThreadCreate : BitVec 32
  currentThreadsSpinning : BitVec 32
  created : ℕ
  managers : ℕ
  failed : ℕ

/-- The variables of `manager_main` that live from one turn of its loop to the next:
`worker_idle_seconds_accumulated`, and whether `sem_timedwait_rv` is `ETIMEDOUT`. -/
structure Local where
  accumulated : BitVec 32
  timedOut : Bool
  deriving DecidableEq

/-- From where `worker_start` has been called: the loop over the first workers, or the main
loop. -/
inductive Caller
  | init (i : ℕ)
  | loop (v : Local)
  deriving DecidableEq

/-- Where the manager stands, by the statement that is next: `init` is the loop over the first
workers, `start` is in `worker_start` and `fail` after a creation that has failed, `stop` is the
loop over `worker_stop`, and the others are in the main loop in the order of its statements. -/
inductive Manager
  | init (i : ℕ)
  | startPending (k : Caller)
  | startIdle (k : Caller)
  | startCount (k : Caller)
  | startCreate (k : Caller)
  | failIdle (k : Caller)
  | failCount (k : Caller)
  | top (v : Local)
  | timedWait (v : Local)
  | suspended (v : Local)
  | testIdle (v : Local)
  | testCount (v : Local)
  | testPending (v : Local)
  | testThreshold (v : Local)
  | testMax (v : Local)
  | runnable (v : Local)
  | runqueue (v : Local)
  | idleAgain (v : Local)
  | tick (v : Local)
  | tickIdle (v : Local)
  | accumulate (v : Local)
  | rampDown (v : Local)
  | surplus (v : Local) (stop : BitVec 32)
  | stopLoop (v : Local) (i stop : BitVec 32)
  | stopLock (v : Local) (i stop : BitVec 32)
  | stopFind (v : Local) (i stop : BitVec 32)
  | stopSignal (v : Local) (i stop : BitVec 32)
  | stopUnlock (v : Local) (i stop : BitVec 32)
  deriving DecidableEq

/-- Who uses the list of queues: `manager_workqueue_additem`, the three scans of a worker, or
`worker_stop`. -/
inductive User
  | add
  | loop
  | spin
  | wait
  | stop (v : Local) (i stop : BitVec 32)
  deriving DecidableEq

/-- Where a thread stands: `create` and `add` are in the calls of those names, `resume` in
`manager_resume`, and `spin` and `wait` are the idle work and the idle wait of a worker. -/
inductive Loc (α : Type*)
  | outside
  | create (i : ℕ)
  | createManager (i : ℕ)
  | createQueue (i : ℕ)
  | createUnlock
  | op (k : User) (o : Op α)
  | addIdle
  | addSignal
  | start
  | spinEnter
  | spinPause
  | spinIdle (witem : Option α)
  | spinPost (witem : Option α)
  | spinLeave (witem : Option (Option α))
  | waitLock
  | waitBlock
  | asleep
  | waitUnlock (witem : Option α)
  | waitIdle (witem : Option α)
  | waitPost (witem : Option α)
  | waitTest (witem : Option α)
  | exitIdle
  | exitCount
  | takeIdle (witem : Option α)
  | call (witem : Option α)
  | giveIdle
  | resumeClear
  | resumePost
  | manager (p : Manager)
  deriving DecidableEq

/-- What the callers, the scheduler and the system decide: which function is called, that a
created thread starts, whom a signal unblocks, that a wait ends without a reason, and what the
system says about its load.  `fail` is a `pthread_create` that fails, `timeOut` and
`interrupt` are waits at the semaphore that end without a post. -/
inductive Act (T α : Type*)
  | create (i : ℕ)
  | add (i : ℕ) (witem : α)
  | suspend
  | resume
  | start
  | startManager
  | go
  | unblock (u : T)
  | wake (early : Bool)
  | timeOut
  | interrupt
  | load (n : BitVec 32)
  | fail
  deriving DecidableEq

variable {T α : Type*}

def Caller.next : Caller → Manager
  | .init i => .init (i + 1)
  | .loop v => .top v

/-- Where a user of the list goes on after the list has been used. -/
def User.next (k : User) : Next α → Loc α
  | .op o => .op k o
  | .scanned witem =>
      match k, witem with
      | .loop, none => .spinEnter
      | .loop, some witem => .takeIdle witem
      | .spin, none => .spinPause
      | .spin, some witem => .spinIdle witem
      | .wait, none => .waitBlock
      | .wait, some witem => .waitUnlock witem
      | .add, _ => .outside
      | .stop _ _ _, _ => .outside
  | .added =>
      match k with
      | .stop v i n => .manager (.stopSignal v i n)
      | _ => .addIdle

variable [DecidableEq T]

def workerMain (cfg : Config) (t : T) (a : Act T α) (m : Mem T α) :
    Loc α → Option (Mem T α × Loc α)
  | .start =>
      some ({ m with pendingThreadCreate := m.pendingThreadCreate - 1 }, .op .loop (.scan true))
  | .spinEnter =>
      some ({ m with currentThreadsSpinning := m.currentThreadsSpinning + 1 },
        if m.currentThreadsSpinning + 1 ≤ cfg.pwqSpinThreads then .op .spin (.scan true)
        else .spinLeave none)
  | .spinPause => some (m, .op .spin (.scan true))
  | .spinIdle witem =>
      some (m, if m.idle = 1 then .spinPost witem else .spinLeave (some witem))
  | .spinPost witem => some ({ m with sbSem := m.sbSem + 1 }, .spinLeave (some witem))
  | .spinLeave witem =>
      some ({ m with currentThreadsSpinning := m.currentThreadsSpinning - 1 },
        witem.elim .waitLock .takeIdle)
  | .waitLock =>
      (m.wqlistMtx.lock t).map fun mtx ↦ ({ m with wqlistMtx := mtx }, .op .wait (.scan false))
  | .waitBlock => some ({ m with wqlistMtx := m.wqlistMtx.wait t }, .asleep)
  | .asleep =>
      match a with
      | .wake early =>
          (m.wqlistMtx.resume t early).map fun mtx ↦
            ({ m with wqlistMtx := mtx }, .op .wait (.scan false))
      | _ => none
  | .waitUnlock witem => some ({ m with wqlistMtx := m.wqlistMtx.unlock }, .waitIdle witem)
  | .waitIdle witem => some (m, if m.idle = 1 then .waitPost witem else .waitTest witem)
  | .waitPost witem => some ({ m with sbSem := m.sbSem + 1 }, .waitTest witem)
  | .waitTest witem => some (m, if witem.isNone then .exitIdle else .takeIdle witem)
  | .exitIdle => some ({ m with idle := m.idle - 1 }, .exitCount)
  | .exitCount => some ({ m with count := m.count - 1 }, .outside)
  | .takeIdle witem => some ({ m with idle := m.idle - 1 }, .call witem)
  | .call (some _) => some (m, .giveIdle)
  | .call none => none
  | .giveIdle => some ({ m with idle := m.idle + 1 }, .op .loop (.scan true))
  | _ => none

/-- `worker_start`.  If the thread cannot be created, `pending_thread_create` keeps its value. -/
def workerStart (a : Act T α) (m : Mem T α) : Manager → Option (Mem T α × Manager)
  | .startPending k =>
      some ({ m with pendingThreadCreate := m.pendingThreadCreate + 1 }, .startIdle k)
  | .startIdle k => some ({ m with idle := m.idle + 1 }, .startCount k)
  | .startCount k => some ({ m with count := m.count + 1 }, .startCreate k)
  | .startCreate k =>
      match a with
      | .fail => some ({ m with failed := m.failed + 1 }, .failIdle k)
      | _ => some ({ m with created := m.created + 1 }, k.next)
  | .failIdle k => some ({ m with idle := m.idle - 1 }, .failCount k)
  | .failCount k => some ({ m with count := m.count - 1 }, k.next)
  | _ => none

/-- The queue that `worker_stop` uses: the first one that exists. -/
def stopQueue (m : Mem T α) : Option ℕ :=
  (List.range pthreadWorkqueueMax).find? fun i ↦ (m.list.wqlist i).isSome

/-- `worker_stop` outside of the spin lock.  Without any queue the process ends. -/
def workerStop (t : T) (a : Act T α) (m : Mem T α) : Manager → Option (Mem T α × Loc α)
  | .stopLock v i stop =>
      (m.wqlistMtx.lock t).map fun mtx ↦
        ({ m with wqlistMtx := mtx }, .manager (.stopFind v i stop))
  | .stopFind v i stop =>
      (stopQueue m).map fun j ↦ (m, .op (.stop v i stop) (.addLock true j none))
  | .stopSignal v i stop =>
      match a with
      | .unblock u =>
          (m.wqlistMtx.signal u).map fun mtx ↦
            ({ m with wqlistMtx := mtx }, .manager (.stopUnlock v i stop))
      | _ => none
  | .stopUnlock v i stop =>
      some ({ m with wqlistMtx := m.wqlistMtx.unlock }, .manager (.stopLoop v (i + 1) stop))
  | _ => none

/-- `manager_main` outside of `worker_start` and `worker_stop`. -/
def managerMain (cfg : Config) (a : Act T α) (m : Mem T α) :
    Manager → Option (Mem T α × Manager)
  | .init i => some (m, if i < workerMin then .startPending (.init i) else .top ⟨0, false⟩)
  | .top v => some (m, if m.sbSuspend then .suspended v else .timedWait v)
  | .timedWait v =>
      match a with
      | .timeOut => some (m, .testIdle { v with timedOut := true })
      | .interrupt => some (m, .testIdle { v with timedOut := false })
      | _ =>
          if 0 < m.sbSem then
            some ({ m with sbSem := m.sbSem - 1 }, .testIdle { v with timedOut := false })
          else none
  -- here sem_timedwait_rv keeps the value of the last timed wait
  | .suspended v =>
      match a with
      | .interrupt => some (m, .testIdle v)
      | _ => if 0 < m.sbSem then some ({ m with sbSem := m.sbSem - 1 }, .testIdle v) else none
  | .testIdle v => some (m, if m.idle = 0 then .testCount v else .tick v)
  | .testCount v => some (m, if 0 < m.count then .testPending v else .tick v)
  | .testPending v => some (m, if m.pendingThreadCreate = 0 then .testThreshold v else .tick v)
  | .testThreshold v =>
      some (m, if m.count < cfg.workerIdleThreshold then .startPending (.loop v) else .testMax v)
  | .testMax v => some (m, if m.count < cfg.workerMax then .runnable v else .top v)
  | .runnable v =>
      match a with
      | .load n => some (m, if n ≤ cfg.cpuCount then .runqueue v else .top v)
      | _ => none
  | .runqueue v =>
      match a with
      | .load n => some (m, if n ≤ cfg.cpuCount then .idleAgain v else .top v)
      | _ => none
  | .idleAgain v => some (m, if m.idle = 0 then .startPending (.loop v) else .top v)
  | .tick v => some (m, if v.timedOut then .tickIdle v else .top v)
  | .tickIdle v =>
      some (m, if cfg.workerIdleThreshold < m.idle then .accumulate v
        else .rampDown { v with accumulated := 0 })
  | .accumulate v => some (m, .rampDown { v with accumulated := v.accumulated + m.idle })
  | .rampDown v =>
      let stop := v.accumulated / workerIdleSecondsThreshold
      some (m, if 0 < stop then .surplus { v with accumulated := 0 } stop else .top v)
  | .surplus v stop =>
      let surplus := m.idle - cfg.workerIdleThreshold
      some (m, .stopLoop v 0 (if surplus < stop then surplus else stop))
  | .stopLoop v i stop =>
      some (m, if i < stop then
          if cfg.workerIdleThreshold < m.idle then .stopLock v i stop else .stopLoop v (i + 1) stop
        else .top v)
  | _ => none

/-- `manager_workqueue_create` for a queue that does not overcommit.  The flag is set under the
mutex right after the manager has been created. -/
def managerWorkqueueCreate (t : T) (m : Mem T α) : Loc α → Option (Mem T α × Loc α)
  | .create i =>
      (m.wqlistMtx.lock t).map fun mtx ↦ ({ m with wqlistMtx := mtx }, .createManager i)
  | .createManager i =>
      some (if m.wqlistHasManager then m
        else { m with wqlistHasManager := true, managers := m.managers + 1 }, .createQueue i)
  | .createQueue i => (m.list.create i).map fun q ↦ ({ m with list := q }, .createUnlock)
  | .createUnlock => some ({ m with wqlistMtx := m.wqlistMtx.unlock }, .outside)
  | _ => none

/-- What a thread outside of the library may begin with. -/
def enter (a : Act T α) (m : Mem T α) : Option (Mem T α × Loc α) :=
  match a with
  -- pthread_workqueue_create_np refuses other priorities
  | .create i => some (m, if i < workqNumPrioqueue then .create i else .outside)
  | .add i witem =>
      if (m.list.wqlist i).isSome then some (m, .op .add (.addLock false i (some witem))) else none
  -- manager_suspend waits for the manager
  | .suspend => if m.wqlistHasManager then some ({ m with sbSuspend := true }, .outside) else none
  | .resume => some (m, if m.sbSuspend then .resumeClear else .outside)
  | .start => if 0 < m.created then some ({ m with created := m.created - 1 }, .start) else none
  | .startManager =>
      if 0 < m.managers then
        some ({ m with managers := m.managers - 1 }, .manager (.init 0))
      else none
  | _ => none

def step (cfg : Config) : Program T (Act T α) (Mem T α) (Loc α) := fun t a m l ↦
  match l with
  | .outside => enter a m
  | .op k o => (m.list.step t o).map fun r ↦ ({ m with list := r.1 }, k.next r.2)
  | .addIdle => some (m, if 0 < m.idle then .addSignal else .outside)
  | .addSignal =>
      match a with
      | .unblock u => (m.wqlistMtx.signal u).map fun mtx ↦ ({ m with wqlistMtx := mtx }, .outside)
      | _ => none
  | .resumeClear => some ({ m with sbSuspend := false }, .resumePost)
  | .resumePost => some ({ m with sbSem := m.sbSem + 1 }, .outside)
  | .manager p =>
      (managerMain cfg a m p <|> workerStart a m p).map (fun r ↦ (r.1, .manager r.2)) <|>
        workerStop t a m p
  | l => managerWorkqueueCreate t m l <|> workerMain cfg t a m l

def managerInit : Pool T (Mem T α) (Loc α) :=
  ⟨⟨.init, .free, false, 0, 0, 0, false, 0, 0, 0, 0, 0⟩, fun _ ↦ .outside⟩

/-- Two processors, at most two workers without a look at the load, four in all. -/
def smallConfig : Config := ⟨0, 2, 2, 4⟩

/-! ## What a step can do -/

/-- The manager starts one of the first workers, or is inside of `worker_start`. -/
def Manager.inStart : Manager → Bool
  | .init _ | .startPending _ | .startIdle _ | .startCount _ | .startCreate _ => true
  | .failIdle _ | .failCount _ => true
  | _ => false

/-- The manager has found that a worker may be missing. -/
def Manager.ready : Manager → Bool
  | .testThreshold _ | .testMax _ | .runnable _ | .runqueue _ | .idleAgain _ => true
  | _ => false

inductive ManagerTrans (cfg : Config) (m : Mem T α) : Manager → Mem T α → Manager → Prop
  | init {i : ℕ} : i < workerMin → ManagerTrans cfg m (.init i) m (.startPending (.init i))
  | initDone {i : ℕ} : ManagerTrans cfg m (.init i) m (.top ⟨0, false⟩)
  | startPending {k : Caller} : ManagerTrans cfg m (.startPending k)
      { m with pendingThreadCreate := m.pendingThreadCreate + 1 } (.startIdle k)
  | startIdle {k : Caller} :
      ManagerTrans cfg m (.startIdle k) { m with idle := m.idle + 1 } (.startCount k)
  | startCount {k : Caller} :
      ManagerTrans cfg m (.startCount k) { m with count := m.count + 1 } (.startCreate k)
  | created {k : Caller} :
      ManagerTrans cfg m (.startCreate k) { m with created := m.created + 1 } k.next
  | failed {k : Caller} :
      ManagerTrans cfg m (.startCreate k) { m with failed := m.failed + 1 } (.failIdle k)
  | failIdle {k : Caller} :
      ManagerTrans cfg m (.failIdle k) { m with idle := m.idle - 1 } (.failCount k)
  | failCount {k : Caller} :
      ManagerTrans cfg m (.failCount k) { m with count := m.count - 1 } k.next
  | testPending {v : Local} : m.pendingThreadCreate = 0 →
      ManagerTrans cfg m (.testPending v) m (.testThreshold v)
  | testThreshold {v : Local} : m.count < cfg.workerIdleThreshold →
      ManagerTrans cfg m (.testThreshold v) m (.startPending (.loop v))
  | threshold {v : Local} : ManagerTrans cfg m (.testThreshold v) m (.testMax v)
  | testMax {v : Local} : m.count < cfg.workerMax →
      ManagerTrans cfg m (.testMax v) m (.runnable v)
  | runnable {v : Local} : ManagerTrans cfg m (.runnable v) m (.runqueue v)
  | runqueue {v : Local} : ManagerTrans cfg m (.runqueue v) m (.idleAgain v)
  | idleAgain {v : Local} : ManagerTrans cfg m (.idleAgain v) m (.startPending (.loop v))
  | other {p p' : Manager} (sem : ℕ) : p.inStart = false → p'.inStart = false →
      p'.ready = false → ManagerTrans cfg m p { m with sbSem := sem } p'

/-- The part of the memory that the scoreboard is about is as it was. -/
structure Quiet (m m' : Mem T α) : Prop where
  list : m'.list = m.list
  wqlistHasManager : m'.wqlistHasManager = m.wqlistHasManager
  count : m'.count = m.count
  idle : m'.idle = m.idle
  pendingThreadCreate : m'.pendingThreadCreate = m.pendingThreadCreate
  created : m'.created = m.created
  managers : m'.managers = m.managers
  failed : m'.failed = m.failed

/-- A worker that has started and executes nothing. -/
def Loc.isIdle : Loc α → Bool
  | .op .loop _ | .op .spin _ | .op .wait _ | .spinEnter | .spinPause | .spinIdle _
  | .spinPost _ | .spinLeave _ | .waitLock | .waitBlock | .asleep | .waitUnlock _ | .waitIdle _
  | .waitPost _ | .waitTest _ | .exitIdle | .takeIdle _ => true
  | _ => false

/-- The place is neither one of a worker nor one of the manager. -/
def Loc.isCaller : Loc α → Bool
  | .outside | .create _ | .createManager _ | .createQueue _ | .createUnlock | .op .add _
  | .addIdle | .addSignal | .resumeClear | .resumePost => true
  | _ => false

/-- The use of the list that the thread is in the middle of. -/
def Loc.base : Loc α → Option (Op α)
  | .op _ o => some o
  | _ => none

def Loc.inHand : Loc α → Option (Option α)
  | .op _ o => Wqlist.inHand o
  | .spinIdle witem | .spinPost witem | .waitUnlock witem | .waitIdle witem | .waitPost witem
  | .waitTest witem | .takeIdle witem | .call witem => some witem
  | .spinLeave witem => witem
  | .exitIdle | .exitCount => some none
  | _ => none

/-- What a worker is going to call is not null. -/
def Loc.Safe : Loc α → Prop
  | .spinIdle witem | .spinPost witem | .spinLeave (some witem) | .takeIdle witem
  | .call witem => witem.isSome
  | _ => True

inductive Trans (cfg : Config) (t : T) (m : Mem T α) : Loc α → Mem T α → Loc α → Prop
  | op {k : User} {o : Op α} {q : Wqlist T α} {n : Next α} : m.list.step t o = some (q, n) →
      Trans cfg t m (.op k o) { m with list := q } (k.next n)
  | manager {p p' : Manager} {m' : Mem T α} : ManagerTrans cfg m p m' p' →
      Trans cfg t m (.manager p) m' (.manager p')
  | stopMtx {p p' : Manager} (mtx : Monitor T) : p.inStart = false → p'.inStart = false →
      p'.ready = false → Trans cfg t m (.manager p) { m with wqlistMtx := mtx } (.manager p')
  | stopFind {v : Local} {i n : BitVec 32} {j : ℕ} : (m.list.wqlist j).isSome →
      Trans cfg t m (.manager (.stopFind v i n)) m (.op (.stop v i n) (.addLock true j none))
  | add {i : ℕ} {witem : α} : (m.list.wqlist i).isSome →
      Trans cfg t m .outside m (.op .add (.addLock false i (some witem)))
  | createQueue {i : ℕ} {q : Wqlist T α} : m.list.create i = some q →
      Trans cfg t m (.createQueue i) { m with list := q } .createUnlock
  | createManager {i : ℕ} : m.wqlistHasManager = false → Trans cfg t m (.createManager i)
      { m with wqlistHasManager := true, managers := m.managers + 1 } (.createQueue i)
  | begin : 0 < m.created → Trans cfg t m .outside { m with created := m.created - 1 } .start
  | beginManager : 0 < m.managers →
      Trans cfg t m .outside { m with managers := m.managers - 1 } (.manager (.init 0))
  | start : Trans cfg t m .start
      { m with pendingThreadCreate := m.pendingThreadCreate - 1 } (.op .loop (.scan true))
  | exitIdle : Trans cfg t m .exitIdle { m with idle := m.idle - 1 } .exitCount
  | exitCount : Trans cfg t m .exitCount { m with count := m.count - 1 } .outside
  | takeIdle {witem : Option α} :
      Trans cfg t m (.takeIdle witem) { m with idle := m.idle - 1 } (.call witem)
  | call {witem : α} : Trans cfg t m (.call (some witem)) m .giveIdle
  | giveIdle : Trans cfg t m .giveIdle { m with idle := m.idle + 1 } (.op .loop (.scan true))
  | scan {l : Loc α} {m' : Mem T α} {k : User} {skip : Bool} : Quiet m m' → l.isIdle →
      l.base = none → l.inHand = none → (k = .spin ∧ skip = true ∨ k = .wait ∧ skip = false) →
      Trans cfg t m l m' (.op k (.scan skip))
  | idle {l l' : Loc α} {m' : Mem T α} : Quiet m m' → l.isIdle → l'.isIdle → l.base = none →
      l'.base = none → l'.inHand = l.inHand → (l.Safe → l'.Safe) → Trans cfg t m l m' l'
  | caller {l l' : Loc α} {m' : Mem T α} : Quiet m m' → l.isCaller → l'.isCaller →
      l.base = none → l'.base = none → Trans cfg t m l m' l'

variable {cfg : Config} {m m' : Mem T α} {l l' : Loc α} {p p' : Manager} {t : T} {a : Act T α}

omit [DecidableEq T] in
theorem quiet_refl : Quiet m m := ⟨rfl, rfl, rfl, rfl, rfl, rfl, rfl, rfl⟩

omit [DecidableEq T] in
theorem quiet_rest (mtx : Monitor T) (sem : ℕ) (suspend : Bool) (spinning : BitVec 32) :
    Quiet m { m with
      wqlistMtx := mtx, sbSem := sem, sbSuspend := suspend, currentThreadsSpinning := spinning } :=
  ⟨rfl, rfl, rfl, rfl, rfl, rfl, rfl, rfl⟩

omit [DecidableEq T] in
theorem trans_of_workerStart (h : workerStart a m p = some (m', p')) :
    ManagerTrans cfg m p m' p' := by
  unfold workerStart at h
  split at h
  case h_4 =>
    split at h <;> cases h
    · exact .failed
    · exact .created
  all_goals cases h <;> constructor

omit [DecidableEq T] in
theorem trans_of_managerMain (h : managerMain cfg a m p = some (m', p')) :
    ManagerTrans cfg m p m' p' := by
  unfold managerMain at h
  split at h
  case h_1 =>
    cases h
    split
    · exact .init ‹_›
    · exact .initDone
  case h_7 =>
    cases h
    split
    · exact .testPending ‹_›
    · exact .other m.sbSem rfl rfl rfl
  case h_8 =>
    cases h
    split
    · exact .testThreshold ‹_›
    · exact .threshold
  case h_9 =>
    cases h
    split
    · exact .testMax ‹_›
    · exact .other m.sbSem rfl rfl rfl
  case h_10 =>
    split at h <;> cases h
    split
    · exact .runnable
    · exact .other m.sbSem rfl rfl rfl
  case h_11 =>
    split at h <;> cases h
    split
    · exact .runqueue
    · exact .other m.sbSem rfl rfl rfl
  case h_12 =>
    cases h
    split
    · exact .idleAgain
    · exact .other m.sbSem rfl rfl rfl
  all_goals
    (repeat' split at h) <;> cases h <;> (repeat' split) <;> exact .other _ rfl rfl rfl

theorem trans_of_workerStop (h : workerStop t a m p = some (m', l')) :
    Trans cfg t m (.manager p) m' l' := by
  unfold workerStop at h
  split at h
  · obtain ⟨mtx, -, heq⟩ := Option.map_eq_some_iff.mp h
    cases heq
    exact .stopMtx mtx rfl rfl rfl
  · obtain ⟨j, hj, heq⟩ := Option.map_eq_some_iff.mp h
    cases heq
    exact .stopFind (by simpa using List.find?_some hj)
  · split at h
    · obtain ⟨mtx, -, heq⟩ := Option.map_eq_some_iff.mp h
      cases heq
      exact .stopMtx mtx rfl rfl rfl
    · cases h
  · cases h
    exact .stopMtx _ rfl rfl rfl
  · cases h

theorem trans_of_workerMain (h : workerMain cfg t a m l = some (m', l')) :
    Trans cfg t m l m' l' := by
  unfold workerMain at h
  split at h
  case h_1 => cases h; exact .start
  case h_2 =>
    cases h
    split
    · exact .scan (quiet_rest ..) rfl rfl rfl (.inl ⟨rfl, rfl⟩)
    · exact .idle (quiet_rest ..) rfl rfl rfl rfl rfl id
  case h_3 => cases h; exact .scan quiet_refl rfl rfl rfl (.inl ⟨rfl, rfl⟩)
  case h_4 =>
    cases h
    split <;> exact .idle quiet_refl rfl rfl rfl rfl rfl id
  case h_6 witem =>
    cases h
    cases witem <;> exact .idle (quiet_rest ..) rfl rfl rfl rfl rfl id
  case h_7 =>
    obtain ⟨mtx, -, heq⟩ := Option.map_eq_some_iff.mp h
    cases heq
    exact .scan (quiet_rest ..) rfl rfl rfl (.inr ⟨rfl, rfl⟩)
  case h_9 =>
    split at h
    · obtain ⟨mtx, -, heq⟩ := Option.map_eq_some_iff.mp h
      cases heq
      exact .scan (quiet_rest ..) rfl rfl rfl (.inr ⟨rfl, rfl⟩)
    · cases h
  case h_11 =>
    cases h
    split <;> exact .idle quiet_refl rfl rfl rfl rfl rfl id
  case h_13 witem =>
    cases h
    rcases witem with _ | witem
    · exact .idle quiet_refl rfl rfl rfl rfl rfl id
    · exact .idle quiet_refl rfl rfl rfl rfl rfl fun _ ↦ rfl
  case h_14 => cases h; exact .exitIdle
  case h_15 => cases h; exact .exitCount
  case h_16 => cases h; exact .takeIdle
  case h_17 => cases h; exact .call
  case h_18 => cases h
  case h_19 => cases h; exact .giveIdle
  case h_20 => cases h
  all_goals
    cases h
    exact .idle (quiet_rest ..) rfl rfl rfl rfl rfl id

omit [DecidableEq T] in
theorem trans_of_create (h : managerWorkqueueCreate t m l = some (m', l')) :
    Trans cfg t m l m' l' := by
  unfold managerWorkqueueCreate at h
  split at h
  · obtain ⟨mtx, -, heq⟩ := Option.map_eq_some_iff.mp h
    cases heq
    exact .caller (quiet_rest ..) rfl rfl rfl rfl
  · cases h
    split
    · exact .caller quiet_refl rfl rfl rfl rfl
    · exact .createManager (eq_false_of_ne_true ‹_›)
  · obtain ⟨q, hq, heq⟩ := Option.map_eq_some_iff.mp h
    cases heq
    exact .createQueue hq
  · cases h
    exact .caller (quiet_rest ..) rfl rfl rfl rfl
  · cases h

omit [DecidableEq T] in
theorem trans_of_enter (h : enter a m = some (m', l')) : Trans cfg t m .outside m' l' := by
  unfold enter at h
  split at h
  · cases h
    split <;> exact .caller quiet_refl rfl rfl rfl rfl
  · split at h <;> cases h
    exact .add ‹_›
  · split at h <;> cases h
    exact .caller (quiet_rest ..) rfl rfl rfl rfl
  · cases h
    split <;> exact .caller quiet_refl rfl rfl rfl rfl
  · split at h <;> cases h
    exact .begin ‹_›
  · split at h <;> cases h
    exact .beginManager ‹_›
  · cases h

theorem trans_of_step (h : step cfg t a m l = some (m', l')) : Trans cfg t m l m' l' := by
  unfold step at h
  split at h
  · exact trans_of_enter h
  · obtain ⟨⟨q, n⟩, hq, heq⟩ := Option.map_eq_some_iff.mp h
    cases heq
    exact .op hq
  · cases h
    split <;> exact .caller quiet_refl rfl rfl rfl rfl
  · split at h
    · obtain ⟨mtx, -, heq⟩ := Option.map_eq_some_iff.mp h
      cases heq
      exact .caller (quiet_rest ..) rfl rfl rfl rfl
    · cases h
  · cases h
    exact .caller (quiet_rest ..) rfl rfl rfl rfl
  · cases h
    exact .caller (quiet_rest ..) rfl rfl rfl rfl
  · simp only [Option.orElse_eq_orElse, Option.orElse_eq_or, Option.or_eq_some_iff,
      Option.map_eq_some_iff] at h
    rcases h with ⟨⟨m₁, p₁⟩, h | ⟨-, h⟩, heq⟩ | ⟨-, h⟩
    · cases heq
      exact .manager (trans_of_managerMain h)
    · cases heq
      exact .manager (trans_of_workerStart h)
    · exact trans_of_workerStop h
  · simp only [Option.orElse_eq_orElse, Option.orElse_eq_or, Option.or_eq_some_iff] at h
    rcases h with h | ⟨-, h⟩
    · exact trans_of_create h
    · exact trans_of_workerMain h

end LibDispatch.Workqueue.Scoreboard
