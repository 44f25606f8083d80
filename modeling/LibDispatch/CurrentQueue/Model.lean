import LibDispatch.Interleaving.CallStack

/-!
# The current queue of a thread

`dispatch_queue_key` is a thread's own variable that says which queue the thread works
for.  The functions that run items set it by hand and give it back by hand, and they call
each other: a worker pops a queue, which is drained, which pops another queue or an item,
whose function makes a synchronous call, and so on.  The stack of these calls is explicit
here, with one step for each stretch between two operations on shared memory or on the
variable.

Of the counts of a queue only the lock, the lowest bit of `dq_running`, is kept.  The
outcome of a test on the other counts, on the suspension of a queue or on the flags of a
source is settled by the action.
-/

namespace LibDispatch.CurrentQueue

open Interleaving

/-- The objects that have a list of items: the root queues, the main queue, the manager
queue, and the queues and the sources of the clients. -/
inductive Queue (ι : Type*)
  | root (i : Fin 6)
  | main
  | mgr
  | priv (dq : ι)
  | source (ds : ι)
  deriving DecidableEq

/-- The objects with `DISPATCH_OBJECT_GLOBAL_REFCNT`. -/
def Queue.isGlobal {ι : Type*} : Queue ι → Bool
  | .root _ | .main | .mgr => true
  | .priv _ | .source _ => false

/-- What hangs on the list of a queue: another queue, or a continuation by its function.
That an item with a function of a client has been submitted to `dq` is history. -/
inductive Item (T ι : Type*)
  | queue (dq : Queue ι)
  | client (dq : Queue ι) (barrier : Bool) (f : ℕ)
  | barrierSyncFSlowInvoke (dq : Queue ι) (f : ℕ) (sema : T)
  | syncFSlow2 (sema : T)
  | setTargetQueue2 (tq : Queue ι)
  | asyncFRedirect2 (dq : Queue ι) (other : Item T ι)
  deriving DecidableEq

variable {T ι : Type*}

def Item.barrier : Item T ι → Bool
  | .client _ barrier _ => barrier
  | .barrierSyncFSlowInvoke _ _ _ | .setTargetQueue2 _ => true
  | .queue _ | .syncFSlow2 _ | .asyncFRedirect2 _ _ => false

/-- What the holder of a lock is doing with it. -/
inductive Phase
  | drain
  | invoke
  | sync
  deriving DecidableEq

/-- The call that has set a lock: the thread and its height in the stack.  The code has
the bit only. -/
structure Holder (T : Type*) where
  thread : T
  height : ℕ
  phase : Phase
  deriving DecidableEq

structure Mem (T ι : Type*) where
  items : Queue ι → List (Item T ι)
  doTargetq : Queue ι → Option (Queue ι)
  dqWidth : Queue ι → ℕ
  locked : Queue ι → Option (Holder T)
  sema : T → ℕ
  mainQIsDraining : Bool

/-- The functions that the library calls, with their arguments.  The last two are the
function of a client's item and a handler of a source. -/
inductive Call (T ι : Type*)
  | workerThread2 (i : Fin 6)
  | continuationPop (item : Item T ι)
  | queueInvoke (dq : Queue ι)
  | queueDrain (dq : Queue ι)
  | sourceInvoke (ds : ι)
  | mgrInvoke
  | asyncFRedirect (dq : Queue ι) (other : Item T ι)
  | asyncFRedirect2 (dq : Queue ι) (other : Item T ι)
  | barrierSyncF (dq : Queue ι) (f : ℕ)
  | barrierSyncFSlow (dq : Queue ι) (f : ℕ)
  | barrierSyncFSlowInvoke (dq : Queue ι) (f : ℕ) (sema : T)
  | syncF (dq : Queue ι) (f : ℕ)
  | syncFSlow (dq : Queue ι)
  | syncFSlow2 (sema : T)
  | setTargetQueue2 (tq : Queue ι)
  | mainQueueCallback
  | item (dq : Queue ι) (f : ℕ)
  | handler (ds : ι)
  deriving DecidableEq

inductive Crash
  | prematureThreadRecycling
  | barrierSyncAssertion
  deriving DecidableEq

/-- Where an activation is, with its local variables: at its start, at its end, or
behind one of the calls it makes.  A thread of a client starts in its own code, a worker
waits for work. -/
inductive Loc (T ι : Type*)
  | enter (c : Call T ι)
  | leave (r : Option (Queue ι))
  | outside
  | idle
  | working (i : Fin 6)
  | invokeDrained (dq : Queue ι) (tq : Option (Queue ι))
  | dxInvoked (dq : Queue ι)
  | invoked (dq : Queue ι) (tq : Option (Queue ι))
  | draining (dq : Queue ι) (oldDq origTq : Option (Queue ι))
  | redirectFollow (dq : Queue ι) (other : Item T ι) (rootDq : Queue ι)
  | redirectTest (dq : Queue ι) (other : Item T ι) (rootDq : Queue ι)
  | redirected (oldDq : Option (Queue ι))
  | barrierSynced (dq : Queue ι) (oldDq : Option (Queue ι))
  | barrierWait (dq : Queue ι) (f : ℕ) (oldDq : Option (Queue ι))
  | barrierSlow (oldDq : Option (Queue ι))
  | slowInvoked (sema : T)
  | syncing (dq : Queue ι) (f : ℕ)
  | synced (oldDq : Option (Queue ι))
  | syncWait
  | sourceInvoked (r : Option (Queue ι))
  | managing
  | mainDrained
  | crash (c : Crash)
  deriving DecidableEq

/-- The branch of `_dispatch_source_invoke` that the flags of the source select.  Whether
a handler is called at the end depends on more of them. -/
inductive Branch
  | install
  | uninstall
  | cancel (hasHandler called : Bool)
  | event (called needsRearm : Bool)
  | rearm
  | nothing
  deriving DecidableEq

/-- The calls of a client, what the timers and the manager wake up, and the outcomes of
tests. -/
inductive Act (ι : Type*)
  | async (dq : Queue ι) (barrier : Bool) (f : ℕ)
  | setTargetQueue (dq tq : Queue ι)
  | setWidth (dq : Queue ι) (width : ℕ)
  | wakeup (dq : Queue ι)
  | sync (dq : Queue ι) (f : ℕ)
  | barrierSync (dq : Queue ι) (f : ℕ)
  | mainQueueCallback
  | work (i : Fin 6)
  | source (b : Branch)
  | test (passed : Bool)
  | run
  deriving DecidableEq

/-- `dispatch_get_current_queue`, from the value of `dispatch_queue_key`.  The default
is the root queue of default priority that overcommits. -/
def dispatchGetCurrentQueue (key : Option (Queue ι)) : Queue ι :=
  key.getD (.root 3)

/-- What a step gives: the memory, `dispatch_queue_key`, and what the activation does. -/
abbrev Result (T ι : Type*) :=
  Option (Mem T ι × Option (Queue ι) × Next (Loc T ι) (Option (Queue ι)))

def goto (m : Mem T ι) (key : Option (Queue ι)) (l : Loc T ι) : Result T ι :=
  some (m, key, .goto l)

def call (m : Mem T ι) (key : Option (Queue ι)) (l : Loc T ι) (c : Call T ι) : Result T ι :=
  some (m, key, .call l (.enter c))

variable [DecidableEq T] [DecidableEq ι]

def dispatchQueuePush (dq : Queue ι) (item : Item T ι) (m : Mem T ι) : Mem T ι :=
  { m with items := Function.update m.items dq (m.items dq ++ [item]) }

def setLock (dq : Queue ι) (holder : Option (Holder T)) (m : Mem T ι) : Mem T ι :=
  { m with locked := Function.update m.locked dq holder }

def signal (sema : T) (m : Mem T ι) : Mem T ι :=
  { m with sema := Function.update m.sema sema (m.sema sema + 1) }

/-- `dispatch_semaphore_wait` without a timeout, when it returns. -/
def wait (sema : T) (m : Mem T ι) : Option (Mem T ι) :=
  if m.sema sema = 0 then none
  else some { m with sema := Function.update m.sema sema (m.sema sema - 1) }

def dispatchSetTargetQueue (dq tq : Queue ι) (m : Mem T ι) : Mem T ι :=
  if dq.isGlobal then m else dispatchQueuePush dq (.setTargetQueue2 tq) m

def dispatchQueueSetWidth (dq : Queue ι) (width : ℕ) (m : Mem T ι) : Mem T ι :=
  if dq.isGlobal then m else { m with dqWidth := Function.update m.dqWidth dq width }

/-- The end of `_dispatch_wakeup`; a root queue is on no list. -/
def dispatchWakeup (dq : Queue ι) (m : Mem T ι) : Mem T ι :=
  match m.doTargetq dq with
  | none => m
  | some tq => dispatchQueuePush tq (.queue dq) m

def dispatchWorkerThread2 (a : Act ι) (m : Mem T ι) (key : Option (Queue ι)) :
    Loc T ι → Result T ι
  | .enter (.workerThread2 i) =>
      match key with
      | some _ => goto m key (.crash .prematureThreadRecycling)
      | none => goto m (some (.root i)) (.working i)
  | .working i =>
      match a, m.items (.root i) with
      | .test true, item :: rest =>
          call { m with items := Function.update m.items (.root i) rest } key (.working i)
            (.continuationPop item)
      | .test false, _ => goto m none (.leave none)
      | _, _ => none
  | _ => none

def dispatchContinuationPop (m : Mem T ι) (key : Option (Queue ι)) (item : Item T ι) :
    Result T ι :=
  match item with
  | .queue dq => call m key (.leave none) (.queueInvoke dq)
  | .client dq _ f => call m key (.leave none) (.item dq f)
  | .barrierSyncFSlowInvoke dq f sema =>
      call m key (.leave none) (.barrierSyncFSlowInvoke dq f sema)
  | .syncFSlow2 sema => call m key (.leave none) (.syncFSlow2 sema)
  | .setTargetQueue2 tq => call m key (.leave none) (.setTargetQueue2 tq)
  | .asyncFRedirect2 dq other => call m key (.leave none) (.asyncFRedirect2 dq other)

/-- The call `dx_invoke(dq)`: sources and the manager queue have functions of their own. -/
def dxInvoke (m : Mem T ι) (key : Option (Queue ι)) : Queue ι → Result T ι
  | .source ds => call m key (.dxInvoked (.source ds)) (.sourceInvoke ds)
  | .mgr => call m key (.dxInvoked .mgr) .mgrInvoke
  | dq => goto m key (.invoked dq none)

def dispatchQueueInvoke (t : T) (a : Act ι) (m : Mem T ι) (n : ℕ) (key : Option (Queue ι)) :
    Loc T ι → Result T ι
  | .enter (.queueInvoke dq) =>
      match a, m.locked dq with
      | .test true, none =>
          call (setLock dq (some ⟨t, n, .drain⟩) m) key (.invokeDrained dq (m.doTargetq dq))
            (.queueDrain dq)
      | .test false, _ => goto m key (.leave none)
      | _, _ => none
  | .invokeDrained dq tq =>
      let m := setLock dq (some ⟨t, n, .invoke⟩) m
      if tq = m.doTargetq dq then dxInvoke m key dq
      else goto m key (.invoked dq (m.doTargetq dq))
  | .invoked dq tq =>
      let m := setLock dq none m
      match tq with
      | some tq => goto (dispatchQueuePush tq (.queue dq) m) key (.leave none)
      | none => goto m key (.leave none)
  | _ => none

/-- `_dispatch_queue_drain`.  An item that fails a test stays on the list. -/
def dispatchQueueDrain (a : Act ι) (m : Mem T ι) (key : Option (Queue ι)) :
    Loc T ι → Result T ι
  | .enter (.queueDrain dq) => goto m (some dq) (.draining dq key (m.doTargetq dq))
  | .draining dq oldDq origTq =>
      match a, m.items dq with
      | .test true, item :: rest =>
          let m' := { m with items := Function.update m.items dq rest }
          if origTq ≠ m.doTargetq dq then none
          else if m.dqWidth dq = 1 ∨ item.barrier then
            call m' key (.draining dq oldDq origTq) (.continuationPop item)
          else call m' key (.draining dq oldDq origTq) (.asyncFRedirect dq item)
      | .test false, _ => goto m oldDq (.leave none)
      | _, _ => none
  | _ => none

/-- `_dispatch_async_f_redirect`: the root queue is found by its null target. -/
def dispatchAsyncFRedirect (m : Mem T ι) (key : Option (Queue ι)) : Loc T ι → Result T ι
  | .enter (.asyncFRedirect dq other) =>
      match other with
      | .syncFSlow2 sema => call m key (.leave none) (.syncFSlow2 sema)
      | _ => goto m key (.redirectFollow dq other dq)
  | .redirectFollow dq other rootDq =>
      match m.doTargetq rootDq with
      | some tq => goto m key (.redirectTest dq other tq)
      | none => none
  | .redirectTest dq other rootDq =>
      match m.doTargetq rootDq with
      | some _ => goto m key (.redirectFollow dq other rootDq)
      | none =>
          goto (dispatchQueuePush rootDq (.asyncFRedirect2 dq other) m) key (.leave none)
  | _ => none

def dispatchAsyncFRedirect2 (m : Mem T ι) (key : Option (Queue ι)) : Loc T ι → Result T ι
  | .enter (.asyncFRedirect2 dq other) =>
      call m (some dq) (.redirected key) (.continuationPop other)
  | .redirected oldDq => goto m oldDq (.leave none)
  | _ => none

/-- `_dispatch_barrier_sync_f_slow_invoke`.  The functions of the main queue must run on
the main thread, all others run on the thread that waits. -/
def dispatchBarrierSyncFSlowInvoke (m : Mem T ι) (key : Option (Queue ι)) :
    Loc T ι → Result T ι
  | .enter (.barrierSyncFSlowInvoke dq f sema) =>
      if dq ≠ dispatchGetCurrentQueue key then goto m key (.crash .barrierSyncAssertion)
      else if dq = .main then call m key (.slowInvoked sema) (.item dq f)
      else goto (signal sema m) key (.leave none)
  | .slowInvoked sema => goto (signal sema m) key (.leave none)
  | _ => none

def dispatchBarrierSyncFSlow (t : T) (m : Mem T ι) (key : Option (Queue ι)) :
    Loc T ι → Result T ι
  | .enter (.barrierSyncFSlow dq f) =>
      goto (dispatchQueuePush dq (.barrierSyncFSlowInvoke dq f t) m) key (.barrierWait dq f key)
  | .barrierWait dq f oldDq =>
      (wait t m).bind fun m ↦
        if dq = .main then goto m key (.leave none)
        else call m (some dq) (.barrierSlow oldDq) (.item dq f)
  | .barrierSlow oldDq => goto m oldDq (.leave none)
  | _ => none

def dispatchBarrierSyncF (t : T) (a : Act ι) (m : Mem T ι) (n : ℕ) (key : Option (Queue ι)) :
    Loc T ι → Result T ι
  | .enter (.barrierSyncF dq f) =>
      match a, m.locked dq with
      | .test true, none =>
          call (setLock dq (some ⟨t, n, .sync⟩) m) (some dq) (.barrierSynced dq key) (.item dq f)
      | .test false, _ => call m key (.leave none) (.barrierSyncFSlow dq f)
      | _, _ => none
  | .barrierSynced dq oldDq => goto (setLock dq none m) oldDq (.leave none)
  | _ => none

def dispatchSyncFSlow2 (m : Mem T ι) (key : Option (Queue ι)) (sema : T) : Result T ι :=
  match key with
  | some _ => goto (signal sema m) key (.leave none)
  | none => none

def dispatchSyncFSlow (t : T) (m : Mem T ι) (key : Option (Queue ι)) : Loc T ι → Result T ι
  | .enter (.syncFSlow dq) =>
      match m.doTargetq dq with
      | none => goto m key (.leave none)
      | some _ => goto (dispatchQueuePush dq (.syncFSlow2 t) m) key .syncWait
  | .syncWait => (wait t m).bind fun m ↦ goto m key (.leave none)
  | _ => none

def dispatchSyncF (a : Act ι) (m : Mem T ι) (key : Option (Queue ι)) : Loc T ι → Result T ι
  | .enter (.syncF dq f) =>
      if m.dqWidth dq = 1 then call m key (.leave none) (.barrierSyncF dq f)
      else
        match a with
        | .test true => goto m key (.syncing dq f)
        | .test false => call m key (.syncing dq f) (.syncFSlow dq)
        | _ => none
  | .syncing dq f => call m (some dq) (.synced key) (.item dq f)
  | .synced oldDq => goto m oldDq (.leave none)
  | _ => none

def dispatchSetTargetQueue2 (m : Mem T ι) (key : Option (Queue ι)) (tq : Queue ι) :
    Result T ι :=
  match key with
  | some dq =>
      goto { m with doTargetq := Function.update m.doTargetq dq (some tq) } key (.leave none)
  | none => none

/-- `_dispatch_source_invoke`, with `_dispatch_source_latch_and_call` and
`_dispatch_source_cancel_callout`. -/
def dispatchSourceInvoke (a : Act ι) (m : Mem T ι) (key : Option (Queue ι)) :
    Loc T ι → Result T ι
  | .enter (.sourceInvoke ds) =>
      let tq := m.doTargetq (.source ds)
      match a with
      | .source .install => goto m key (.leave (if key ≠ some .mgr then some .mgr else none))
      | .source .uninstall => goto m key (.leave (if key ≠ some .mgr then some .mgr else tq))
      | .source (.cancel hasHandler called) =>
          if hasHandler ∧ key ≠ tq then goto m key (.leave tq)
          else if hasHandler ∧ called then call m key (.sourceInvoked none) (.handler ds)
          else goto m key (.leave none)
      | .source (.event called needsRearm) =>
          let r := if needsRearm then some .mgr else none
          if key ≠ tq then goto m key (.leave tq)
          else if called then call m key (.sourceInvoked r) (.handler ds)
          else goto m key (.leave r)
      | .source .rearm => goto m key (.leave (if key ≠ some .mgr then some .mgr else none))
      | .source .nothing => goto m key (.leave none)
      | _ => none
  | .sourceInvoked r => goto m key (.leave r)
  | _ => none

def dispatchMgrInvoke (m : Mem T ι) (key : Option (Queue ι)) : Loc T ι → Result T ι
  | .enter .mgrInvoke => goto m (some .mgr) .managing
  | .managing => call m key .managing (.queueDrain .mgr)
  | _ => none

/-- `_dispatch_main_queue_callback_4CF` and `_dispatch_main_queue_callback_4QT`. -/
def dispatchMainQueueCallback (m : Mem T ι) (key : Option (Queue ι)) : Loc T ι → Result T ι
  | .enter .mainQueueCallback =>
      if m.mainQIsDraining then goto m key (.leave none)
      else call { m with mainQIsDraining := true } key .mainDrained (.queueDrain .main)
  | .mainDrained => goto { m with mainQIsDraining := false } key (.leave none)
  | _ => none

/-- The code of a client: it makes synchronous calls and runs the main loop. -/
def clientCode (a : Act ι) (m : Mem T ι) (key : Option (Queue ι)) (l : Loc T ι) :
    Result T ι :=
  match a with
  | .sync dq f => call m key l (.syncF dq f)
  | .barrierSync dq f => call m key l (.barrierSyncF dq f)
  | .mainQueueCallback => call m key l .mainQueueCallback
  | .run => if l = .outside then none else goto m key (.leave none)
  | _ => none

def inside (t : T) (a : Act ι) (m : Mem T ι) (n : ℕ) (key : Option (Queue ι)) (l : Loc T ι) :
    Result T ι :=
  match l with
  | .leave r => some (m, key, .ret r)
  | .outside | .enter (.item _ _) | .enter (.handler _) => clientCode a m key l
  | .idle =>
      match a with
      | .work i => call m key .idle (.workerThread2 i)
      | _ => none
  | .enter (.workerThread2 _) | .working _ => dispatchWorkerThread2 a m key l
  | .enter (.continuationPop item) => dispatchContinuationPop m key item
  | .enter (.queueInvoke _) | .invokeDrained _ _ | .invoked _ _ =>
      dispatchQueueInvoke t a m n key l
  | .enter (.queueDrain _) | .draining _ _ _ => dispatchQueueDrain a m key l
  | .enter (.sourceInvoke _) | .sourceInvoked _ => dispatchSourceInvoke a m key l
  | .enter .mgrInvoke | .managing => dispatchMgrInvoke m key l
  | .enter (.asyncFRedirect _ _) | .redirectFollow _ _ _ | .redirectTest _ _ _ =>
      dispatchAsyncFRedirect m key l
  | .enter (.asyncFRedirect2 _ _) | .redirected _ => dispatchAsyncFRedirect2 m key l
  | .enter (.barrierSyncF _ _) | .barrierSynced _ _ => dispatchBarrierSyncF t a m n key l
  | .enter (.barrierSyncFSlow _ _) | .barrierWait _ _ _ | .barrierSlow _ =>
      dispatchBarrierSyncFSlow t m key l
  | .enter (.barrierSyncFSlowInvoke _ _ _) | .slowInvoked _ =>
      dispatchBarrierSyncFSlowInvoke m key l
  | .enter (.syncF _ _) | .syncing _ _ | .synced _ => dispatchSyncF a m key l
  | .enter (.syncFSlow _) | .syncWait => dispatchSyncFSlow t m key l
  | .enter (.syncFSlow2 sema) => dispatchSyncFSlow2 m key sema
  | .enter (.setTargetQueue2 tq) => dispatchSetTargetQueue2 m key tq
  | .enter .mainQueueCallback | .mainDrained => dispatchMainQueueCallback m key l
  | .dxInvoked _ | .crash _ => none

/-- One step of a thread.  The calls that only push or store can come from every place:
from a client, but also from the library itself, when it leaves a group or gives back a
count. -/
def body : Body T (Act ι) (Mem T ι) (Option (Queue ι)) (Loc T ι) (Option (Queue ι)) :=
  fun t a m n key l ↦
    match a with
    | .async dq barrier f => goto (dispatchQueuePush dq (.client dq barrier f) m) key l
    | .setTargetQueue dq tq => goto (dispatchSetTargetQueue dq tq m) key l
    | .setWidth dq width => goto (dispatchQueueSetWidth dq width m) key l
    | .wakeup dq => goto (dispatchWakeup dq m) key l
    | a => inside t a m n key l

/-- The result of a call is used by `_dispatch_queue_invoke` only. -/
def resume : Loc T ι → Option (Queue ι) → Loc T ι
  | .dxInvoked dq, tq => .invoked dq tq
  | l, _ => l

abbrev State (T ι : Type*) := Pool T (Mem T ι) (Calls (Option (Queue ι)) (Loc T ι))

/-- A thread before its first step: in the code of a client with any current queue (the
main thread starts with the main queue), or a worker that has none. -/
def Ready (c : Calls (Option (Queue ι)) (Loc T ι)) : Prop :=
  c.stack = [(.outside, c.key)] ∨ (c.key = none ∧ c.stack = [(.idle, none)])

/-- Nothing has been pushed; the root queues are the ones without a target. -/
structure Fresh (s : State T ι) : Prop where
  items : ∀ dq, s.mem.items dq = []
  targets : ∀ dq, s.mem.doTargetq dq = none ↔ ∃ i, dq = .root i
  ready : ∀ t, Ready (s.loc t)

def Reachable (s : State T ι) : Prop :=
  ∃ s₀, Fresh s₀ ∧ Pool.Reachable (Calls.program body resume) s₀ s

end LibDispatch.CurrentQueue
