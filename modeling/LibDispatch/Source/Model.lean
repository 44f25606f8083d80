import LibDispatch.Queue.Model

/-!
# Sources

A source is a serial queue with a function of its own for `dx_invoke` and `dx_probe`.  It
goes back and forth between its target queue, where its handlers are called, and the
manager queue, where it is registered and unregistered.  One step for each atomic
operation and each load or store that another thread can observe.  The runs of this
machine are not limited to threads that hold a reference to the source, so they are more
than those of well-behaved clients.
-/

namespace LibDispatch.Source

open Interleaving
open Queue (suspendLock suspendInterval dispatchObjectSuspended)

/-- What the library pushes on a source: the barriers of
`dispatch_source_set_event_handler`, `dispatch_source_set_cancel_handler` and
`dispatch_set_target_queue`, the first two with a function or a null pointer. -/
inductive Item (Q : Type*)
  | setEventHandler (func block : Bool)
  | setCancelHandler (func : Bool)
  | setTargetQueue (tq : Q)
  deriving DecidableEq

/-- The source.  `dsCanceled` is `DSF_CANCELED`, `dsDkev` says that `ds_dkev` is not null,
`dkSources` that the source is on a list `dk_sources`, and `linked` are the queues on whose
lists it is.  The handlers for cancellation are numbered as they are installed.  The last
fields are history: the number of installed handlers, the calls that have been made to
them, the suspensions by clients, the parameters of `dispatch_source_set_timer` on the list
of the manager queue, whether the source has been disposed of, the data that has been
merged, the number of merges before the last exchange of `ds_pending_data`, and for each
call of the event handler the number of merges before its exchange and the `ds_data` that
it sees. -/
structure Mem (Q : Type*) where
  items : List (Item Q)
  dqRunning : ℕ
  doSuspendCnt : ℕ
  doTargetq : Q
  doRefCnt : ℤ
  doXrefCnt : ℕ
  linked : List Q
  dsIsInstalled : Bool
  dsCanceled : Bool
  dsDkev : Bool
  dkSources : Bool
  dsHandlerFunc : Bool
  dsHandlerIsBlock : Bool
  dsCancelHandler : Option ℕ
  dsPendingData : BitVec 64
  dsPendingDataMask : BitVec 64
  dsData : BitVec 64
  dsNeedsRearm : Bool
  dsIsArmed : Bool
  installs : ℕ
  cancelCalls : List ℕ
  suspensions : ℕ
  timers : ℕ
  disposed : Bool
  merges : List (BitVec 64)
  latchedAt : ℕ
  deliveries : List (ℕ × BitVec 64)

/-- What is given: the manager's thread and queue, and the kind of the source. -/
structure Setting (T Q : Type*) where
  mgr : T
  mgrQ : Q
  dsIsLevel : Bool
  dsIsAdder : Bool

structure Kevent where
  error : Bool
  proc : Bool
  data : BitVec 64
  fflags : BitVec 32
  deriving DecidableEq

inductive Probe
  | isInstalled
  | flags
  | xref
  | dkev
  | cancelHandler
  | pendingData
  | needsRearm
  | isArmed
  deriving DecidableEq

inductive Wake (Q : Type*)
  | suspended
  | probe (p : Probe)
  | tail
  | lock
  | retain
  | target
  | push (tq : Q)
  deriving DecidableEq

/-- What follows when `_dispatch_wakeup` returns: nothing, `_dispatch_release` or
`dispatch_release`. -/
inductive After
  | return
  | release
  | releaseXref
  deriving DecidableEq

inductive Merge
  | isInstalled
  | insert
  | arm
  deriving DecidableEq

/-- The queue from whose list a thread has taken the source, which is the current queue of
that thread, and the local variables of `_dispatch_queue_invoke` and
`_dispatch_queue_drain`. -/
structure Frame (Q : Type*) where
  current : Q
  tq : Q
  origTq : Q
  next : Bool
  deriving DecidableEq

/-- Where a thread stands in `_dispatch_queue_invoke` while it has `dq_running`: in
`_dispatch_queue_drain`, in `_dispatch_source_invoke` and the functions that it calls. -/
inductive Held (Q : Type*)
  | drainOrig
  | drainTail
  | drainTake
  | drainSuspended (dc : Item Q)
  | drainRunning (dc : Item Q)
  | drainTarget (dc : Item Q)
  | drainPop (dc : Item Q)
  | drainItem (dc : Item Q)
  | outSwap (dc : Item Q)
  | outFront (dc : Item Q)
  | outHead
  | compare
  | reload
  | isInstalled
  | merge (p : Merge)
  | flags
  | xref
  | dkev
  | releaseDkev
  | releaseRemove
  | releaseArmed
  | releaseRearm
  | releaseRef
  | releaseTarget
  | cancelHandler
  | calloutMask
  | calloutPending
  | calloutData
  | calloutHandler
  | calloutFlags (handler : ℕ)
  | calloutRun (handler : ℕ)
  | calloutClear
  | pendingData
  | latchFlags
  | latchXref
  | latchXchg
  | latchData (prev : BitVec 64)
  | latchRun
  | latchRearm
  | needsRearm
  | arm
  | unlock (tq : Option Q)
  deriving DecidableEq

inductive Crash
  | nullDkev
  | overRelease
  | releaseSuspended
  | releaseReferenced
  | overResume
  deriving DecidableEq

inductive Loc (Q : Type*)
  | idle
  | pushExchange (item : Item Q)
  | pushLink
  | pushRetain
  | pushHead
  | wakeup (p : Wake Q) (k : After)
  | release
  | releaseXref
  | xrefSuspended
  | cancelRetain
  | cancelFlag
  | mergeDkev (ke : Kevent)
  | mergeFlags (ke : Kevent)
  | mergeXref (ke : Kevent)
  | mergePending (ke : Kevent)
  | mergeRearm
  | mergeDisarm
  | setTimerSuspend
  | setTimerPush
  | timerDkev
  | timerMerge (p : Merge)
  | timerResume
  | nextFireSuspended
  | nextFireDisarm
  | invokeTarget (current : Q)
  | invokeSuspended (current tq : Q)
  | invokeLock (current tq : Q)
  | held (f : Frame Q) (p : Held Q)
  | invokePush (tq : Q)
  | invokeSubLock
  | invokeRunning
  | crash (why : Crash)
  deriving DecidableEq

/-- The calls of the clients, of the manager and of the workers.  The action `found` says
that `_dispatch_kevent_merge` finds a kernel event that needs no new flags. -/
inductive Act (Q : Type*)
  | setEventHandler (func block : Bool)
  | setCancelHandler (func : Bool)
  | setTargetQueue (tq : Q)
  | cancel
  | mergeData (val : BitVec 64)
  | kevent (ke : Kevent)
  | fire (n : BitVec 64)
  | setTimer
  | setTimer2
  | nextFire
  | retain
  | release
  | suspend
  | resume
  | invoke (tq : Q)
  | found
  | go
  deriving DecidableEq

/-- The error code of the kernel for a process that is a zombie. -/
def esrch : BitVec 64 := 3

def noteExit : BitVec 32 := 0x80000000

variable {T Q : Type*}

abbrev Mem.suspended (m : Mem Q) : Bool := dispatchObjectSuspended m.doSuspendCnt

/-- Where a thread goes on when `_dispatch_wakeup` returns. -/
def After.loc : After → Loc Q
  | .return => .idle
  | .release => .release
  | .releaseXref => .releaseXref

def dispatchQueuePush (m : Mem Q) : Loc Q → Option (Mem Q × Loc Q)
  | .pushExchange item =>
      some ({ m with items := m.items ++ [item] }, if m.items = [] then .pushRetain else .pushLink)
  | .pushLink => some (m, .idle)
  | .pushRetain => some ({ m with doRefCnt := m.doRefCnt + 1 }, .pushHead)
  | .pushHead => some (m, .wakeup .suspended .release)
  | _ => none

/-- One load of `_dispatch_source_probe`: the next load, or the result. -/
def dispatchSourceProbe (m : Mem Q) : Probe → Probe ⊕ Bool
  | .isInstalled => if m.dsIsInstalled then .inl .flags else .inr true
  | .flags => .inl (if m.dsCanceled then .dkev else .xref)
  | .xref => .inl (if m.doXrefCnt = 0 then .dkev else .pendingData)
  | .dkev => if m.dsDkev then .inr true else .inl .cancelHandler
  | .cancelHandler => .inr m.dsCancelHandler.isSome
  | .pendingData => if m.dsPendingData = 0 then .inl .needsRearm else .inr true
  | .needsRearm => if m.dsNeedsRearm then .inl .isArmed else .inr false
  | .isArmed => .inr !m.dsIsArmed

def dispatchWakeup (m : Mem Q) (k : After) : Wake Q → Mem Q × Loc Q
  | .suspended => (m, if m.suspended then k.loc else .wakeup (.probe .isInstalled) k)
  | .probe p =>
      match dispatchSourceProbe m p with
      | .inl p' => (m, .wakeup (.probe p') k)
      | .inr true => (m, .wakeup .lock k)
      | .inr false => (m, .wakeup .tail k)
  | .tail => (m, if m.items = [] then k.loc else .wakeup .lock k)
  | .lock =>
      if m.doSuspendCnt = 0 then ({ m with doSuspendCnt := suspendLock }, .wakeup .retain k)
      else (m, k.loc)
  | .retain => ({ m with doRefCnt := m.doRefCnt + 1 }, .wakeup .target k)
  | .target => (m, .wakeup (.push m.doTargetq) k)
  | .push tq => ({ m with linked := tq :: m.linked }, k.loc)

def dispatchRelease (m : Mem Q) (l : Loc Q) : Mem Q × Loc Q :=
  if m.doRefCnt = 1 then
    if m.doXrefCnt = 0 then ({ m with doRefCnt := 0, disposed := true }, l)
    else ({ m with doRefCnt := 0 }, .crash .releaseReferenced)
  else ({ m with doRefCnt := m.doRefCnt - 1 }, l)

/-- Where `dispatch_resume` goes on, by the suspend count that it finds. -/
def resumeLoc (m : Mem Q) (k : After) : Loc Q :=
  if m.doSuspendCnt = suspendInterval then .wakeup .suspended k
  else if m.doSuspendCnt = suspendLock ∨ m.doSuspendCnt = 0 then .crash .overResume
  else k.loc

def dispatchResume (m : Mem Q) (k : After) : Mem Q × Loc Q :=
  ({ m with doSuspendCnt := m.doSuspendCnt - suspendInterval }, resumeLoc m k)

/-- The release of an external reference: `dispatch_release` with
`_dispatch_source_xref_release`. -/
def dispatchSourceXrefRelease (m : Mem Q) : Loc Q → Option (Mem Q × Loc Q)
  | .releaseXref =>
      if m.doXrefCnt = 0 then some (m, .crash .overRelease)
      else some ({ m with doXrefCnt := m.doXrefCnt - 1 },
        if m.doXrefCnt = 1 then .xrefSuspended else .idle)
  | .xrefSuspended =>
      some (m, if m.suspended then .crash .releaseSuspended else .wakeup .suspended .release)
  | _ => none

def dispatchSourceCancel (m : Mem Q) : Loc Q → Option (Mem Q × Loc Q)
  | .cancelRetain => some ({ m with doRefCnt := m.doRefCnt + 1 }, .cancelFlag)
  | .cancelFlag => some ({ m with dsCanceled := true }, .wakeup .suspended .release)
  | _ => none

/-- The event that is delivered in place of `ke`, if any. -/
def Kevent.actual (ke : Kevent) : Option Kevent :=
  if ke.error then
    -- a process that is a zombie: an exit is simulated
    if ke.proc ∧ ke.data = esrch then some ⟨false, ke.proc, 0, noteExit⟩ else none
  else some ke

/-- The pending data after the delivery of an event. -/
def mergedData (set : Setting T Q) (m : Mem Q) (ke : Kevent) : BitVec 64 :=
  if set.dsIsLevel then ~~~ke.data
  else if set.dsIsAdder then m.dsPendingData + ke.data
  else m.dsPendingData ||| (ke.fflags.setWidth 64 &&& m.dsPendingDataMask)

/-- `_dispatch_source_merge_kevent`, and before it the assertion of
`dispatch_source_merge_data`, which reads through `ds_dkev`. -/
def dispatchSourceMergeKevent (set : Setting T Q) (m : Mem Q) : Loc Q → Option (Mem Q × Loc Q)
  | .mergeDkev ke => some (m, if m.dsDkev then .mergeFlags ke else .crash .nullDkev)
  | .mergeFlags ke => some (m, if m.dsCanceled then .idle else .mergeXref ke)
  | .mergeXref ke => some (m, if m.doXrefCnt = 0 then .idle else .mergePending ke)
  | .mergePending ke =>
      match ke.actual with
      | none => some (m, .idle)
      | some ke =>
          some ({ m with dsPendingData := mergedData set m ke, merges := m.merges ++ [ke.data] },
            .mergeRearm)
  | .mergeRearm => some (m, if m.dsNeedsRearm then .mergeDisarm else .wakeup .suspended .return)
  | .mergeDisarm => some ({ m with dsIsArmed := false }, .wakeup .suspended .return)
  | _ => none

/-- `_dispatch_kevent_merge`; `found` says that no new flags are needed. -/
def dispatchKeventMerge (m : Mem Q) (found : Bool) : Merge → Mem Q × Option Merge
  | .isInstalled =>
      if m.dsIsInstalled then (m, none) else ({ m with dsIsInstalled := true }, some .insert)
  | .insert => ({ m with dkSources := true }, if found then none else some .arm)
  | .arm => ({ m with dsIsArmed := true }, none)

/-- `dispatch_source_set_timer`, and `_dispatch_source_set_timer2` on the manager queue. -/
def dispatchSourceSetTimer (m : Mem Q) (found : Bool) : Loc Q → Option (Mem Q × Loc Q)
  | .setTimerSuspend =>
      some ({ m with doSuspendCnt := m.doSuspendCnt + suspendInterval }, .setTimerPush)
  | .setTimerPush => some ({ m with timers := m.timers + 1 }, .idle)
  | .timerDkev => some (m, if m.dsDkev then .timerMerge .isInstalled else .timerResume)
  | .timerMerge p =>
      let (m', next) := dispatchKeventMerge m found p
      some (m', next.elim .timerResume .timerMerge)
  | .timerResume => some (dispatchResume m .releaseXref)
  | _ => none

/-- A turn of the loop of `_dispatch_get_next_timer_fire` over the timers.  The manager stores
`ds_is_armed` after it has found the timer suspended. -/
def dispatchGetNextTimerFire (m : Mem Q) : Loc Q → Option (Mem Q × Loc Q)
  | .nextFireSuspended => some (m, if m.suspended then .nextFireDisarm else .idle)
  | .nextFireDisarm => some ({ m with dsIsArmed := false }, .idle)
  | _ => none

/-- The function of an item that the source runs. -/
def Item.run (m : Mem Q) : Item Q → Mem Q
  | .setEventHandler func block => { m with dsHandlerFunc := func, dsHandlerIsBlock := block }
  | .setCancelHandler func =>
      { m with
        dsCancelHandler := if func then some m.installs else none
        installs := m.installs + 1 }
  | .setTargetQueue tq => { m with doTargetq := tq }

/-- The label `out` of `_dispatch_queue_drain`, reached with an item in hand. -/
def drainOut (f : Frame Q) (dc : Item Q) : Held Q := if f.next then .outHead else .outSwap dc

def dispatchQueueDrain [DecidableEq Q] (m : Mem Q) (f : Frame Q) :
    Held Q → Option (Mem Q × Frame Q × Held Q)
  | .drainOrig => some (m, { f with origTq := m.doTargetq, next := false }, .drainTail)
  | .drainTail => some (m, f, if m.items = [] then .compare else .drainTake)
  | .drainTake =>
      match m.items with
      | [] => some (m, f, .drainTake)
      | [dc] => some ({ m with items := [] }, { f with next := false }, .drainSuspended dc)
      | dc :: _ :: _ => some (m, { f with next := true }, .drainSuspended dc)
  | .drainSuspended dc => some (m, f, if m.suspended then drainOut f dc else .drainRunning dc)
  | .drainRunning dc => some (m, f, if m.dqRunning > 1 then drainOut f dc else .drainTarget dc)
  | .drainTarget dc =>
      some (m, f, if f.origTq ≠ m.doTargetq then drainOut f dc else .drainPop dc)
  | .drainPop dc =>
      some ({ m with items := if f.next then m.items.tail else m.items }, f, .drainItem dc)
  | .drainItem dc => some (dc.run m, f, if f.next then .drainTake else .drainTail)
  | .outSwap dc =>
      if m.items = [] then some ({ m with items := [dc] }, f, .outHead)
      else some (m, f, .outFront dc)
  | .outFront dc => some ({ m with items := dc :: m.items }, f, .compare)
  | .outHead => some (m, f, .compare)
  | .compare => some (m, f, if f.tq = m.doTargetq then .isInstalled else .reload)
  | .reload => some (m, f, .unlock (some m.doTargetq))
  | _ => none

/-- `_dispatch_kevent_release` up to its call of `_dispatch_release`. -/
def dispatchKeventRelease (m : Mem Q) : Held Q → Option (Mem Q × Held Q)
  | .releaseDkev => some ({ m with dsDkev := false }, .releaseRemove)
  | .releaseRemove => some ({ m with dkSources := false }, .releaseArmed)
  | .releaseArmed => some ({ m with dsIsArmed := false }, .releaseRearm)
  | .releaseRearm => some ({ m with dsNeedsRearm := false }, .releaseRef)
  | .releaseTarget => some (m, .unlock (some m.doTargetq))
  | _ => none

def dispatchSourceCancelCallout (m : Mem Q) : Held Q → Option (Mem Q × Held Q)
  | .calloutMask => some ({ m with dsPendingDataMask := 0 }, .calloutPending)
  | .calloutPending => some ({ m with dsPendingData := 0 }, .calloutData)
  | .calloutData =>
      some ({ m with
        dsData := 0
        dsHandlerFunc := m.dsHandlerFunc && !m.dsHandlerIsBlock
        dsHandlerIsBlock := false }, .calloutHandler)
  | .calloutHandler => some (m, m.dsCancelHandler.elim (.unlock none) .calloutFlags)
  | .calloutFlags handler =>
      if m.dsCanceled then
        some ({ m with cancelCalls := handler :: m.cancelCalls }, .calloutRun handler)
      else some (m, .calloutClear)
  | .calloutRun _ => some (m, .calloutClear)
  | .calloutClear => some ({ m with dsCancelHandler := none }, .unlock none)
  | _ => none

/-- The data that the event handler sees, by the pending data that has been taken. -/
def latchedData (set : Setting T Q) (prev : BitVec 64) : BitVec 64 :=
  if set.dsIsLevel then ~~~prev else prev

/-- `_dispatch_source_latch_and_call`, and the test after it. -/
def dispatchSourceLatchAndCall (set : Setting T Q) (m : Mem Q) : Held Q → Option (Mem Q × Held Q)
  | .latchFlags => some (m, if m.dsCanceled then .latchRearm else .latchXref)
  | .latchXref => some (m, if m.doXrefCnt = 0 then .latchRearm else .latchXchg)
  | .latchXchg =>
      some ({ m with dsPendingData := 0, latchedAt := m.merges.length },
        .latchData m.dsPendingData)
  | .latchData prev =>
      if prev ≠ 0 ∧ m.dsHandlerFunc then
        some ({ m with
          dsData := latchedData set prev
          deliveries := m.deliveries ++ [(m.latchedAt, latchedData set prev)] }, .latchRun)
      else some ({ m with dsData := latchedData set prev }, .latchRearm)
  | .latchRun => some (m, .latchRearm)
  | .latchRearm => some (m, .unlock (if m.dsNeedsRearm then some set.mgrQ else none))
  | _ => none

def dispatchSourceInvoke [DecidableEq Q] (set : Setting T Q) (m : Mem Q) (f : Frame Q)
    (found : Bool) : Held Q → Option (Mem Q × Held Q)
  | .isInstalled =>
      some (m, if m.dsIsInstalled then .flags
        else if f.current = set.mgrQ then .merge .isInstalled else .unlock (some set.mgrQ))
  | .merge p =>
      let (m', next) := dispatchKeventMerge m found p
      some (m', next.elim (.unlock none) .merge)
  | .flags => some (m, if m.dsCanceled then .dkev else .xref)
  | .xref => some (m, if m.doXrefCnt = 0 then .dkev else .pendingData)
  | .dkev =>
      some (m, if m.dsDkev then
          if f.current = set.mgrQ then .releaseDkev else .unlock (some set.mgrQ)
        else .cancelHandler)
  | .cancelHandler =>
      some (m, if m.dsCancelHandler.isSome ∧ f.current ≠ m.doTargetq then
        .unlock (some m.doTargetq) else .calloutMask)
  | .pendingData =>
      some (m, if m.dsPendingData = 0 then .needsRearm
        else if f.current = m.doTargetq then .latchFlags else .unlock (some m.doTargetq))
  | .needsRearm =>
      some (m, if m.dsNeedsRearm ∧ !m.dsIsArmed then
          if f.current = set.mgrQ then .arm else .unlock (some set.mgrQ)
        else .unlock none)
  | .arm => some ({ m with dsIsArmed := true }, .unlock none)
  | p => dispatchKeventRelease m p <|> dispatchSourceCancelCallout m p <|>
      dispatchSourceLatchAndCall set m p

def dispatchQueueInvoke [DecidableEq Q] (set : Setting T Q) (m : Mem Q) (found : Bool) :
    Loc Q → Option (Mem Q × Loc Q)
  | .invokeTarget current => some (m, .invokeSuspended current m.doTargetq)
  | .invokeSuspended current tq =>
      some (m, if m.suspended then .invokeSubLock else .invokeLock current tq)
  | .invokeLock current tq =>
      if m.dqRunning = 0 then
        some ({ m with dqRunning := 1 }, .held ⟨current, tq, tq, false⟩ .drainOrig)
      else some (m, .invokeSubLock)
  | .held _ (.unlock tq) =>
      some ({ m with dqRunning := m.dqRunning - 1 }, tq.elim .invokeSubLock .invokePush)
  | .held f .releaseRef => some (dispatchRelease m (.held f .releaseTarget))
  | .held f p =>
      (dispatchQueueDrain m f p).map (fun (m', f', p') ↦ (m', .held f' p')) <|>
        (dispatchSourceInvoke set m f found p).map fun (m', p') ↦ (m', .held f p')
  | .invokePush tq => some ({ m with linked := tq :: m.linked }, .idle)
  | .invokeSubLock =>
      some ({ m with doSuspendCnt := m.doSuspendCnt - suspendLock },
        if m.doSuspendCnt - suspendLock = 0 then .invokeRunning else .release)
  | .invokeRunning =>
      some (m, if m.dqRunning = 0 then .wakeup .suspended .release else .release)
  | _ => none

def go [DecidableEq Q] (set : Setting T Q) (m : Mem Q) (found : Bool) :
    Loc Q → Option (Mem Q × Loc Q)
  | .wakeup p k => some (dispatchWakeup m k p)
  | .release => some (dispatchRelease m .idle)
  | l => dispatchQueuePush m l <|> dispatchSourceXrefRelease m l <|> dispatchSourceCancel m l <|>
      dispatchSourceMergeKevent set m l <|> dispatchSourceSetTimer m found l <|>
      dispatchGetNextTimerFire m l <|> dispatchQueueInvoke set m found l

/-- One step of a thread that uses a source.  Events and timers are delivered by the
manager to a registered source; a source on the list of the manager queue is invoked by the
manager; a resumption matches a suspension. -/
def step [DecidableEq T] [DecidableEq Q] (set : Setting T Q) :
    Program T (Act Q) (Mem Q) (Loc Q) := fun t a m l ↦
  match a with
  | .go => go set m false l
  | .found => go set m true l
  | a =>
      if l = .idle then
        match a with
        | .setEventHandler func block => some (m, .pushExchange (.setEventHandler func block))
        | .setCancelHandler func => some (m, .pushExchange (.setCancelHandler func))
        | .setTargetQueue tq => some (m, .pushExchange (.setTargetQueue tq))
        | .cancel => some (m, .cancelRetain)
        | .mergeData val => some (m, .mergeDkev ⟨false, false, val, val.setWidth 32⟩)
        | .kevent ke => if t = set.mgr ∧ m.dkSources then some (m, .mergeFlags ke) else none
        | .fire n =>
            if t = set.mgr ∧ m.dkSources then
              some ({ m with dsPendingData := m.dsPendingData + n, merges := m.merges ++ [n] },
                .wakeup .suspended .return)
            else none
        | .setTimer =>
            if 0 < m.doXrefCnt then
              some ({ m with doXrefCnt := m.doXrefCnt + 1 }, .setTimerSuspend)
            else none
        | .setTimer2 =>
            if t = set.mgr ∧ 0 < m.timers then
              some ({ m with timers := m.timers - 1 }, .timerDkev)
            else none
        | .nextFire => if t = set.mgr ∧ m.dkSources then some (m, .nextFireSuspended) else none
        | .retain =>
            if 0 < m.doXrefCnt then some ({ m with doXrefCnt := m.doXrefCnt + 1 }, .idle)
            else none
        | .release => if 0 < m.doXrefCnt then some (m, .releaseXref) else none
        | .suspend =>
            some ({ m with
              doSuspendCnt := m.doSuspendCnt + suspendInterval
              suspensions := m.suspensions + 1 }, .idle)
        | .resume =>
            if 0 < m.suspensions then
              some (dispatchResume { m with suspensions := m.suspensions - 1 } .return)
            else none
        | .invoke tq =>
            if tq ∈ m.linked ∧ (tq = set.mgrQ → t = set.mgr) then
              some ({ m with linked := m.linked.erase tq }, .invokeTarget tq)
            else none
        | _ => none
      else none

/-- A source as `dispatch_source_create` returns it: suspended, with one reference for its
owner and one for the manager. -/
def created (tq : Q) (mask : BitVec 64) (needsRearm : Bool) : Pool T (Mem Q) (Loc Q) where
  mem :=
    { items := [], dqRunning := 0, doSuspendCnt := suspendInterval, doTargetq := tq
      doRefCnt := 2, doXrefCnt := 1, linked := [], dsIsInstalled := false
      dsCanceled := false, dsDkev := true, dkSources := false, dsHandlerFunc := false
      dsHandlerIsBlock := false, dsCancelHandler := none, dsPendingData := 0
      dsPendingDataMask := mask, dsData := 0, dsNeedsRearm := needsRearm, dsIsArmed := false
      installs := 0, cancelCalls := [], suspensions := 1, timers := 0, disposed := false
      merges := [], latchedAt := 0, deliveries := [] }
  loc := fun _ ↦ .idle

end LibDispatch.Source
