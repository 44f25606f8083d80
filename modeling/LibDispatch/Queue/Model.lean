import LibDispatch.Interleaving.Pool

/-!
# Private queues

A queue of any width with all the ways to use it: pushing, waking up, the fast and the
slow paths of the synchronous calls, suspending and resuming, invoking and draining.
One step for each atomic operation and each load or store that another thread can
observe.  Only the thread that drains looks at `dq_items_head`, so the list appears as
the list of its items, and `dq_items_tail` is null if it is empty.  What an item does
while it runs, other threads of the pool do in its place.
-/

namespace LibDispatch.Queue

open Interleaving

/-- What can be pushed: a function to be called, with or without
`DISPATCH_OBJ_BARRIER_BIT`, the items by which the slow paths of the synchronous calls
of a thread wait for their turn, and the item of `dispatch_set_target_queue`. -/
inductive Item (T Q : Type*)
  | async (barrier : Bool)
  | barrierSyncSlow (caller : T)
  | syncSlow (caller : T)
  | setTargetQueue (tq : Q)
  deriving DecidableEq

def Item.isBarrier {T Q : Type*} : Item T Q → Bool
  | .async barrier => barrier
  | .barrierSyncSlow _ | .setTargetQueue _ => true
  | .syncSlow _ => false

/-- The queue.  `sema` holds the values of the semaphores of the threads, `linked` the
queues on whose lists this one is, and `redirected` counts its items on the list of the
root queue.  The last two fields are history: the suspensions by items of the queue and
by others that have not been resumed. -/
structure Mem (T Q : Type*) where
  items : List (Item T Q)
  dqRunning : ℕ
  doSuspendCnt : ℕ
  doTargetq : Q
  doRefCnt : ℤ
  sema : T → ℕ
  linked : List Q
  redirected : ℕ
  inner : ℕ
  outer : ℕ

/-- What a thread does when the function it is in returns. -/
inductive After
  | return
  | waitBarrier
  | waitReader
  | syncSlow
  | release (k : After)
  deriving DecidableEq

/-- The local variables of `_dispatch_queue_invoke` and `_dispatch_queue_drain`: their
copies of the target queue, and whether `next_dc` is set. -/
structure Drain (Q : Type*) where
  tq : Q
  origTq : Q
  next : Bool
  deriving DecidableEq

inductive Loc (T Q : Type*)
  | idle
  | pushExchange (item : Item T Q) (k : After)
  | pushLink (k : After)
  | pushRetain (k : After)
  | pushHead (k : After)
  | wakeup (k : After)
  | wakeupProbe (k : After)
  | wakeupLock (k : After)
  | wakeupRetain (k : After)
  | wakeupTarget (k : After)
  | wakeupPush (tq : Q) (k : After)
  | release (k : After)
  | barrierTail
  | barrierSuspended
  | barrierLock
  | barrierRun
  | barrierUnlock
  | barrierWait
  | barrierSlowRun
  | barrierResume
  | syncTail
  | syncSuspended
  | syncAdd
  | syncBackOff
  | syncWait
  | syncRun
  | syncLeave
  | redirectRun
  | redirectLeave
  | invokeTarget
  | invokeSuspended (tq : Q)
  | invokeLock (tq : Q)
  | invokeCompare (tq : Q)
  | invokeReload
  | invokeUnlock (tq : Option Q)
  | invokePush (tq : Q)
  | invokeSubLock
  | invokeRunning
  | drainOrig (tq : Q)
  | drainTail (d : Drain Q)
  | drainTake (d : Drain Q)
  | drainSuspended (d : Drain Q) (dc : Item T Q)
  | drainRunning (d : Drain Q) (dc : Item T Q)
  | drainTarget (d : Drain Q) (dc : Item T Q)
  | drainBarrier (d : Drain Q) (dc : Item T Q)
  | drainPop (d : Drain Q) (dc : Item T Q)
  | drainRun (d : Drain Q)
  | drainSetTarget (d : Drain Q) (tq : Q)
  | slowSuspend (d : Drain Q) (caller : T)
  | slowSignal (d : Drain Q) (caller : T)
  | slow2Add (d : Drain Q) (caller : T)
  | slow2Signal (d : Drain Q) (caller : T)
  | redirectAdd (d : Drain Q)
  | redirectRetain (d : Drain Q)
  | redirectAlloc (d : Drain Q)
  | redirectPush (d : Drain Q)
  | outSwap (tq : Q) (dc : Item T Q)
  | outFront (tq : Q) (dc : Item T Q)
  | outHead (tq : Q)
  | crash
  | overResume
  deriving DecidableEq

/-- The calls of the users and of the workers.  An item that runs may suspend the
queue; `cached` says that a thread has a continuation in its cache. -/
inductive Act (Q : Type*)
  | async (barrier : Bool)
  | setTargetQueue (tq : Q)
  | barrierSync
  | sync
  | suspend
  | resume (inner : Bool)
  | invoke (tq : Q)
  | redirect2
  | go
  | cached
  deriving DecidableEq

def suspendLock : ℕ := 1

def suspendInterval : ℕ := 2

variable {T Q : Type*}

/-- `DISPATCH_OBJECT_SUSPENDED`. -/
def dispatchObjectSuspended (doSuspendCnt : ℕ) : Bool := suspendInterval ≤ doSuspendCnt

theorem suspended_iff {n : ℕ} : dispatchObjectSuspended n = true ↔ 2 ≤ n :=
  decide_eq_true_iff

abbrev Mem.suspended (m : Mem T Q) : Bool := dispatchObjectSuspended m.doSuspendCnt

/-- Where thread `t` goes on when the function it is in returns. -/
def After.loc (t : T) : After → Loc T Q
  | .return => .idle
  | .waitBarrier => .barrierWait
  | .waitReader => .syncWait
  | .syncSlow => .pushExchange (.syncSlow t) .waitReader
  | .release k => .release k

def dispatchQueuePush (m : Mem T Q) (t : T) : Loc T Q → Option (Mem T Q × Loc T Q)
  | .pushExchange item k =>
      some ({ m with items := m.items ++ [item] },
        if m.items = [] then .pushRetain k else .pushLink k)
  | .pushLink k => some (m, k.loc t)
  | .pushRetain k => some ({ m with doRefCnt := m.doRefCnt + 1 }, .pushHead k)
  | .pushHead k => some (m, .wakeup (.release k))
  | _ => none

/-- `_dispatch_wakeup`; the probe of a queue is always false. -/
def dispatchWakeup (m : Mem T Q) (t : T) : Loc T Q → Option (Mem T Q × Loc T Q)
  | .wakeup k => some (m, if m.suspended then k.loc t else .wakeupProbe k)
  | .wakeupProbe k => some (m, if m.items = [] then k.loc t else .wakeupLock k)
  | .wakeupLock k =>
      if m.doSuspendCnt = 0 then
        some ({ m with doSuspendCnt := suspendLock }, .wakeupRetain k)
      else some (m, k.loc t)
  | .wakeupRetain k => some ({ m with doRefCnt := m.doRefCnt + 1 }, .wakeupTarget k)
  | .wakeupTarget k => some (m, .wakeupPush m.doTargetq k)
  | .wakeupPush tq k => some ({ m with linked := tq :: m.linked }, k.loc t)
  | _ => none

/-- Where `dispatch_resume` goes on, by the suspend count that it finds. -/
def resumeLoc (m : Mem T Q) : Loc T Q :=
  if m.doSuspendCnt = suspendInterval then .wakeup .return
  else if m.doSuspendCnt = suspendLock ∨ m.doSuspendCnt = 0 then .overResume
  else .idle

def dispatchResume (m : Mem T Q) : Mem T Q × Loc T Q :=
  ({ m with doSuspendCnt := m.doSuspendCnt - suspendInterval }, resumeLoc m)

/-- `dispatch_barrier_sync_f` with `_dispatch_barrier_sync_f_slow` and
`_dispatch_queue_unlock`. -/
def dispatchBarrierSync (m : Mem T Q) [DecidableEq T] (t : T) :
    Loc T Q → Option (Mem T Q × Loc T Q)
  | .barrierTail =>
      some (m, if m.items = [] then .barrierSuspended
        else .pushExchange (.barrierSyncSlow t) .waitBarrier)
  | .barrierSuspended =>
      some (m, if m.suspended then .pushExchange (.barrierSyncSlow t) .waitBarrier
        else .barrierLock)
  | .barrierLock =>
      if m.dqRunning = 0 then some ({ m with dqRunning := 1 }, .barrierRun)
      else some (m, .pushExchange (.barrierSyncSlow t) .waitBarrier)
  | .barrierRun => some (m, .barrierUnlock)
  | .barrierUnlock =>
      some ({ m with dqRunning := m.dqRunning - 1 },
        if m.dqRunning - 1 = 0 then .wakeup .return else .idle)
  | .barrierWait =>
      if 0 < m.sema t then
        some ({ m with sema := Function.update m.sema t (m.sema t - 1) }, .barrierSlowRun)
      else none
  | .barrierSlowRun => some (m, .barrierResume)
  | .barrierResume => some (dispatchResume m)
  | _ => none

/-- `dispatch_sync_f` on a queue of width above one, with `_dispatch_sync_f_slow`. -/
def dispatchSync (m : Mem T Q) [DecidableEq T] (t : T) : Loc T Q → Option (Mem T Q × Loc T Q)
  | .syncTail =>
      some (m, if m.items = [] then .syncSuspended
        else .pushExchange (.syncSlow t) .waitReader)
  | .syncSuspended =>
      some (m, if m.suspended then .pushExchange (.syncSlow t) .waitReader else .syncAdd)
  | .syncAdd =>
      some ({ m with dqRunning := m.dqRunning + 2 },
        if m.dqRunning % 2 = 1 then .syncBackOff else .syncRun)
  | .syncBackOff =>
      some ({ m with dqRunning := m.dqRunning - 2 },
        if m.dqRunning - 2 = 0 then .wakeup .syncSlow
        else .pushExchange (.syncSlow t) .waitReader)
  | .syncWait =>
      if 0 < m.sema t then
        some ({ m with sema := Function.update m.sema t (m.sema t - 1) }, .syncRun)
      else none
  | .syncRun => some (m, .syncLeave)
  | .syncLeave =>
      some ({ m with dqRunning := m.dqRunning - 2 },
        if m.dqRunning - 2 = 0 then .wakeup .return else .idle)
  | _ => none

def dispatchAsyncRedirect2 (m : Mem T Q) : Loc T Q → Option (Mem T Q × Loc T Q)
  | .redirectRun => some (m, .redirectLeave)
  | .redirectLeave =>
      some ({ m with dqRunning := m.dqRunning - 2 },
        if m.dqRunning - 2 = 0 then .wakeup (.release .return) else .release .return)
  | _ => none

/-- The next turn of a loop of `_dispatch_queue_drain`. -/
def drainLoop (d : Drain Q) : Loc T Q := if d.next then .drainTake d else .drainTail d

/-- The label `out` of `_dispatch_queue_drain`, reached with an item in hand. -/
def drainOut (d : Drain Q) (dc : Item T Q) : Loc T Q :=
  if d.next then .outHead d.tq else .outSwap d.tq dc

/-- The call of an item that has been taken off the list, by `_dispatch_continuation_pop`
or `_dispatch_async_f_redirect`. -/
def drainCall (width : ℕ) (d : Drain Q) : Item T Q → Loc T Q
  | .async barrier => if width = 1 ∨ barrier then .drainRun d else .redirectAdd d
  | .barrierSyncSlow caller => .slowSuspend d caller
  | .syncSlow caller => .slow2Add d caller
  | .setTargetQueue tq => .drainSetTarget d tq

def dispatchQueueDrain [DecidableEq T] [DecidableEq Q] (width : ℕ) (m : Mem T Q) :
    Loc T Q → Option (Mem T Q × Loc T Q)
  | .drainOrig tq => some (m, .drainTail ⟨tq, m.doTargetq, false⟩)
  | .drainTail d => some (m, if m.items = [] then .invokeCompare d.tq else .drainTake d)
  | .drainTake d =>
      match m.items with
      | [] => some (m, .drainTake d)
      | [dc] => some ({ m with items := [] }, .drainSuspended { d with next := false } dc)
      | dc :: _ :: _ => some (m, .drainSuspended { d with next := true } dc)
  | .drainSuspended d dc =>
      some (m, if m.suspended then drainOut d dc else .drainRunning d dc)
  | .drainRunning d dc =>
      some (m, if m.dqRunning > width then drainOut d dc else .drainTarget d dc)
  | .drainTarget d dc =>
      some (m, if d.origTq ≠ m.doTargetq then drainOut d dc
        else if width ≠ 1 ∧ dc.isBarrier then .drainBarrier d dc else .drainPop d dc)
  | .drainBarrier d dc =>
      some (m, if m.dqRunning > 1 then drainOut d dc else .drainPop d dc)
  | .drainPop d dc =>
      some ({ m with items := if d.next then m.items.tail else m.items }, drainCall width d dc)
  | .drainRun d => some (m, drainLoop d)
  | .drainSetTarget d tq => some ({ m with doTargetq := tq }, drainLoop d)
  | .slowSuspend d caller =>
      some ({ m with doSuspendCnt := m.doSuspendCnt + suspendInterval }, .slowSignal d caller)
  | .slow2Add d caller => some ({ m with dqRunning := m.dqRunning + 2 }, .slow2Signal d caller)
  | .slowSignal d caller | .slow2Signal d caller =>
      some ({ m with sema := Function.update m.sema caller (m.sema caller + 1) }, drainLoop d)
  | .redirectAdd d => some ({ m with dqRunning := m.dqRunning + 2 }, .redirectRetain d)
  | .redirectRetain d => some ({ m with doRefCnt := m.doRefCnt + 1 }, .redirectAlloc d)
  | .redirectAlloc d => some (m, .redirectPush d)
  | .redirectPush d => some ({ m with redirected := m.redirected + 1 }, drainLoop d)
  | .outSwap tq dc =>
      if m.items = [] then some ({ m with items := [dc] }, .outHead tq)
      else some (m, .outFront tq dc)
  | .outFront tq dc => some ({ m with items := dc :: m.items }, .invokeCompare tq)
  | .outHead tq => some (m, .invokeCompare tq)
  | _ => none

/-- `_dispatch_queue_invoke`; the function `dx_invoke` of a queue returns null. -/
def dispatchQueueInvoke [DecidableEq Q] (m : Mem T Q) : Loc T Q → Option (Mem T Q × Loc T Q)
  | .invokeTarget => some (m, .invokeSuspended m.doTargetq)
  | .invokeSuspended tq => some (m, if m.suspended then .invokeSubLock else .invokeLock tq)
  | .invokeLock tq =>
      if m.dqRunning = 0 then some ({ m with dqRunning := 1 }, .drainOrig tq)
      else some (m, .invokeSubLock)
  | .invokeCompare tq =>
      some (m, if tq = m.doTargetq then .invokeUnlock none else .invokeReload)
  | .invokeReload => some (m, .invokeUnlock (some m.doTargetq))
  | .invokeUnlock tq =>
      some ({ m with dqRunning := m.dqRunning - 1 }, tq.elim .invokeSubLock .invokePush)
  | .invokePush tq => some ({ m with linked := tq :: m.linked }, .idle)
  | .invokeSubLock =>
      some ({ m with doSuspendCnt := m.doSuspendCnt - suspendLock },
        if m.doSuspendCnt - suspendLock = 0 then .invokeRunning else .release .return)
  | .invokeRunning =>
      some (m, if m.dqRunning = 0 then .wakeup (.release .return) else .release .return)
  | _ => none

/-- The thread is in the function of an item of the queue. -/
def Loc.executing : Loc T Q → Bool
  | .barrierRun | .barrierSlowRun | .syncRun | .redirectRun | .drainRun _
  | .drainSetTarget .. => true
  | _ => false

def dispatchSuspend (m : Mem T Q) : Mem T Q :=
  { m with doSuspendCnt := m.doSuspendCnt + suspendInterval }

def go [DecidableEq T] [DecidableEq Q] (width : ℕ) (t : T) (m : Mem T Q) (l : Loc T Q) :
    Option (Mem T Q × Loc T Q) :=
  match l with
  | .release k => some ({ m with doRefCnt := m.doRefCnt - 1 }, k.loc t)
  | l => dispatchQueuePush m t l <|> dispatchWakeup m t l <|> dispatchBarrierSync m t l <|>
      dispatchSync m t l <|> dispatchAsyncRedirect2 m l <|> dispatchQueueDrain width m l <|>
      dispatchQueueInvoke m l

/-- One step of a thread that uses a queue of the given width.  A resumption is one that
matches a suspension: by an item of the queue, or by anyone else. -/
def step [DecidableEq T] [DecidableEq Q] (width : ℕ) : Program T (Act Q) (Mem T Q) (Loc T Q) :=
  fun t a m l ↦
  match a with
  | .go => go width t m l
  | .cached =>
      match l with
      -- the continuation found in the cache is replaced by a null pointer
      | .redirectAlloc _ => some (m, .crash)
      | _ => none
  | .suspend =>
      if l = .idle then some ({ dispatchSuspend m with outer := m.outer + 1 }, .idle)
      else if l.executing then some ({ dispatchSuspend m with inner := m.inner + 1 }, l)
      else none
  | a =>
      if l = .idle then
        match a with
        | .async barrier => some (m, .pushExchange (.async barrier) .return)
        | .setTargetQueue tq => some (m, .pushExchange (.setTargetQueue tq) .return)
        | .barrierSync => some (m, .barrierTail)
        | .sync => some (m, if width = 1 then .barrierTail else .syncTail)
        | .resume true =>
            if 0 < m.inner then some (dispatchResume { m with inner := m.inner - 1 }) else none
        | .resume false =>
            if 0 < m.outer then some (dispatchResume { m with outer := m.outer - 1 }) else none
        | .invoke tq =>
            if tq ∈ m.linked then some ({ m with linked := m.linked.erase tq }, .invokeTarget)
            else none
        | .redirect2 =>
            if 0 < m.redirected then
              some ({ m with redirected := m.redirected - 1 }, .redirectRun)
            else none
        | _ => none
      else none

def created (tq : Q) : Pool T (Mem T Q) (Loc T Q) where
  mem :=
    { items := [], dqRunning := 0, doSuspendCnt := 0, doTargetq := tq, doRefCnt := 1
      sema := fun _ ↦ 0, linked := [], redirected := 0, inner := 0, outer := 0 }
  loc := fun _ ↦ .idle

end LibDispatch.Queue
