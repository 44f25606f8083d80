import Mathlib.Logic.Function.Basic
import Mathlib.Logic.Relation
import Mathlib.Data.List.Nodup
import Mathlib.Data.Int.Notation
import Mathlib.Order.Nat
import Mathlib.Tactic.Common

/-!
# Continuations and their caches

Items of a concurrent queue that are no barriers are not run by the thread that drains
the queue: it wraps each of them in a continuation of its own and pushes that one to the
root queue.  Here a continuation is a piece of memory with an address.  Freed ones are
kept in a list of the thread that ran them, from which its next calls allocate.  One
operation for each call of the library; a function called by the library is entered by
one operation and left by another one, with anything in between.
-/

namespace LibDispatch.Redirect

/-- A pointer to a continuation; null is 0. -/
abbrev Addr := ℕ

inductive Func
  | client (f : ℕ)
  | barrierSyncSlowInvoke
  | syncSlow2
  | redirect2
  deriving DecidableEq

/-- What hangs on the list of a queue: a continuation, or another queue that has this
one as its target. -/
inductive Item (Q : Type*)
  | cont (dc : Addr)
  | queue (dq : Q)
  deriving DecidableEq

/-- A continuation.  The first three fields are the bits of `do_vtable`, the third one
together with `dc_group`. -/
structure Cont (Q : Type*) where
  asyncBit : Bool
  barrierBit : Bool
  dcGroup : Option ℕ
  dcFunc : Func
  dcCtxt : ℕ
  dcData0 : Option Q
  dcData1 : Option (Item Q)
  deriving DecidableEq

/-- The target queues.  Following them one always comes to a root queue. -/
structure Targets (Q : Type*) where
  doTargetq : Q → Option Q
  depth : Q → ℕ
  depth_lt : ∀ {q q'}, doTargetq q = some q' → depth q' < depth q

/-- What is left to do when a called function returns: a group to leave, the value that
`dispatch_queue_key` gets back, and the queue whose counts `_dispatch_async_f_redirect2`
gives back. -/
structure Frame (Q : Type*) where
  dcGroup : Option ℕ
  oldDq : Option Q
  redirected : Option Q
  deriving DecidableEq

inductive Event (Q : Type*)
  | call (f ctxt : ℕ)
  | signal (ctxt : ℕ)
  | invoke (dq : Q)
  | leave (dg : ℕ)
  | wakeup (dq : Q)
  deriving DecidableEq

/-- The memory.  No continuation has been allocated at `heap` or behind it; `events` is
history, each event with its thread and the current queue of the thread. -/
structure Mem (T Q : Type*) where
  conts : Addr → Cont Q
  heap : Addr
  cache : T → List Addr
  current : T → Option Q
  frames : T → List (Frame Q)
  dqRunning : Q → ℤ
  doRefCnt : Q → ℤ
  items : Q → List (Item Q)
  targets : Targets Q
  events : List (T × Option Q × Event Q)

variable {T Q : Type*} [DecidableEq T] [DecidableEq Q]

def dispatchContinuationAllocCacheonly (t : T) (m : Mem T Q) : Mem T Q × Addr :=
  match m.cache t with
  | [] => (m, 0)
  | dc :: rest => ({ m with cache := Function.update m.cache t rest }, dc)

def dispatchContinuationAllocFromHeap (m : Mem T Q) : Mem T Q × Addr :=
  ({ m with heap := m.heap + 1 }, m.heap)

def dispatchContinuationFree (t : T) (dc : Addr) (m : Mem T Q) : Mem T Q :=
  { m with cache := Function.update m.cache t (dc :: m.cache t) }

/-- Stores to the fields of a continuation; a store through a null pointer is a crash. -/
def store (dc : Addr) (c : Cont Q) (m : Mem T Q) : Option (Mem T Q) :=
  if dc = 0 then none else some { m with conts := Function.update m.conts dc c }

def dispatchQueuePush (dq : Q) (item : Item Q) (m : Mem T Q) : Mem T Q :=
  { m with items := Function.update m.items dq (m.items dq ++ [item]) }

/-- The allocation of the asynchronous calls: from the cache, or else from the heap. -/
def asyncAlloc (t : T) (m : Mem T Q) : Mem T Q × Addr :=
  let r := dispatchContinuationAllocCacheonly t m
  if r.2 = 0 then dispatchContinuationAllocFromHeap r.1 else r

structure Work where
  barrier : Bool
  group : Option ℕ
  func : ℕ
  ctxt : ℕ

/-- `dispatch_async_f`, `dispatch_barrier_async_f`, `dispatch_group_async_f` and their
slow paths.  The fields they do not store keep their values. -/
def dispatchAsyncF (t : T) (dq : Q) (w : Work) (m : Mem T Q) : Option (Mem T Q) :=
  let r := asyncAlloc t m
  let c := { r.1.conts r.2 with
    asyncBit := true
    barrierBit := w.barrier
    dcGroup := w.group
    dcFunc := .client w.func
    dcCtxt := w.ctxt }
  (store r.2 c r.1).map (dispatchQueuePush dq (.cont r.2))

/-- A slow path of the synchronous calls pushes a continuation on its own stack. -/
def pushOnStack (barrier : Bool) (func : Func) (dq : Q) (ctxt : ℕ) (m : Mem T Q) : Mem T Q :=
  let c := { m.conts m.heap with
    asyncBit := false
    barrierBit := barrier
    dcGroup := none
    dcFunc := func
    dcCtxt := ctxt }
  dispatchQueuePush dq (.cont m.heap)
    { m with heap := m.heap + 1, conts := Function.update m.conts m.heap c }

def dispatchBarrierSyncFSlow (dq : Q) (ctxt : ℕ) (m : Mem T Q) : Mem T Q :=
  pushOnStack true .barrierSyncSlowInvoke dq ctxt m

def dispatchSyncFSlow (dq : Q) (ctxt : ℕ) (m : Mem T Q) : Mem T Q :=
  pushOnStack false .syncSlow2 dq ctxt m

def addRunning (dq : Q) (n : ℤ) (m : Mem T Q) : Mem T Q :=
  { m with dqRunning := Function.update m.dqRunning dq (m.dqRunning dq + n) }

def addRef (dq : Q) (n : ℤ) (m : Mem T Q) : Mem T Q :=
  { m with doRefCnt := Function.update m.doRefCnt dq (m.doRefCnt dq + n) }

def note (t : T) (e : Event Q) (m : Mem T Q) : Mem T Q :=
  { m with events := m.events ++ [(t, m.current t, e)] }

def dispatchSyncFSlow2 (t : T) (ctxt : ℕ) (m : Mem T Q) : Option (Mem T Q) :=
  (m.current t).map fun dq ↦ note t (.signal ctxt) (addRunning dq 2 m)

/-- The queue that the loop `root_dq = root_dq->do_targetq` ends with. -/
def Targets.follow (τ : Targets Q) : ℕ → Q → Q
  | 0, q => q
  | n + 1, q =>
      match τ.doTargetq q with
      | some q' => τ.follow n q'
      | none => q

/-- The root queue under `dq`; the loop of `_dispatch_async_f_redirect` starts with the
target of `dq`, which is not null for a private queue. -/
def Targets.root (τ : Targets Q) (dq : Q) : Option Q :=
  (τ.doTargetq dq).map fun tq ↦ τ.follow (τ.depth tq) tq

def Mem.isSyncSlow2 (m : Mem T Q) : Item Q → Bool
  | .cont dc => (m.conts dc).dcFunc = .syncSlow2
  | .queue _ => false

def Mem.isBarrier (m : Mem T Q) : Item Q → Bool
  | .cont dc => (m.conts dc).barrierBit
  | .queue _ => false

def Item.ctxt (m : Mem T Q) : Item Q → ℕ
  | .cont dc => (m.conts dc).dcCtxt
  | .queue _ => 0

def redirectCont (dq : Q) (other : Item Q) (dc : Addr) : Cont Q where
  asyncBit := true
  barrierBit := false
  dcGroup := none
  dcFunc := .redirect2
  dcCtxt := dc
  dcData0 := some dq
  dcData1 := some other

/-- The expression `_dispatch_continuation_alloc_cacheonly() ? 0 :
_dispatch_continuation_alloc_from_heap()` of `_dispatch_async_f_redirect`. -/
def redirectAlloc (t : T) (m : Mem T Q) : Mem T Q × Addr :=
  let r := dispatchContinuationAllocCacheonly t m
  if r.2 ≠ 0 then (r.1, 0) else dispatchContinuationAllocFromHeap r.1

def dispatchAsyncFRedirect (t : T) (dq : Q) (other : Item Q) (m : Mem T Q) :
    Option (Mem T Q) :=
  if m.isSyncSlow2 other then dispatchSyncFSlow2 t (other.ctxt m) m
  else
    let m := addRef dq 1 (addRunning dq 2 m)
    let r := redirectAlloc t m
    (store r.2 (redirectCont dq other r.2) r.1).bind fun m ↦
      (m.targets.root dq).map fun root ↦ dispatchQueuePush root (.cont r.2) m

def setCurrent (t : T) (dq : Option Q) (m : Mem T Q) : Mem T Q :=
  { m with current := Function.update m.current t dq }

def pushFrame (t : T) (f : Frame Q) (m : Mem T Q) : Mem T Q :=
  { m with frames := Function.update m.frames t (f :: m.frames t) }

/-- A thread calls a function, and has the frame to come back to. -/
def enter (t : T) (f : Frame Q) (e : Event Q) (m : Mem T Q) : Mem T Q :=
  note t e (pushFrame t f m)

def freeIfAsync (t : T) (dc : Addr) (m : Mem T Q) : Mem T Q :=
  if (m.conts dc).asyncBit then dispatchContinuationFree t dc m else m

/-- `_dispatch_continuation_pop` with `_dispatch_async_f_redirect2`, up to the call of the
function.  The first argument bounds the depth to which continuations are wrapped. -/
def dispatchContinuationPop (t : T) : ℕ → Option Q → Option Q → Item Q → Mem T Q →
    Option (Mem T Q)
  | 0, _, _, _, _ => none
  | _ + 1, oldDq, redirected, .queue dq, m =>
      some (enter t ⟨none, oldDq, redirected⟩ (.invoke dq) m)
  | n + 1, oldDq, redirected, .cont dc, m =>
      let c := m.conts dc
      let m := freeIfAsync t dc m
      let f : Frame Q := ⟨c.dcGroup, oldDq, redirected⟩
      match c.dcFunc with
      | .client func => some (enter t f (.call func c.dcCtxt) m)
      | .barrierSyncSlowInvoke => some (enter t f (.signal c.dcCtxt) m)
      | .syncSlow2 => dispatchSyncFSlow2 t c.dcCtxt (pushFrame t f m)
      | .redirect2 =>
          match (m.conts c.dcCtxt).dcData0, (m.conts c.dcCtxt).dcData1 with
          | some dq, some other =>
              dispatchContinuationPop t n (m.current t) (some dq) other
                (setCurrent t (some dq) (pushFrame t f m))
          | _, _ => none

/-- One item of `_dispatch_queue_drain` that has passed its tests. -/
def dispatchQueueDrain (width : Q → ℕ) (t : T) (dq : Q) (m : Mem T Q) : Option (Mem T Q) :=
  match m.items dq with
  | [] => none
  | dc :: rest =>
      let m' := setCurrent t (some dq) { m with items := Function.update m.items dq rest }
      if width dq = 1 ∨ m.isBarrier dc then
        dispatchContinuationPop t 2 (m.current t) none dc m'
      else (dispatchAsyncFRedirect t dq dc m').map (setCurrent t (m.current t))

def dispatchWorkerThread2 (t : T) (dq : Q) (m : Mem T Q) : Option (Mem T Q) :=
  match m.items dq with
  | [] => none
  | dc :: rest =>
      dispatchContinuationPop t 2 (m.current t) none dc
        { m with items := Function.update m.items dq rest }

def wakeupIfIdle (t : T) (dq : Q) (m : Mem T Q) : Mem T Q :=
  if m.dqRunning dq = 0 then note t (.wakeup dq) m else m

def redirectLeave (t : T) (dq : Q) (m : Mem T Q) : Mem T Q :=
  addRef dq (-1) (wakeupIfIdle t dq (addRunning dq (-2) m))

/-- A thread that comes back to `_dispatch_continuation_pop` leaves the group of the item. -/
def leaveGroup (t : T) : Option ℕ → Mem T Q → Mem T Q
  | none, m => m
  | some dg, m => note t (.leave dg) m

/-- The function that a thread has called returns. -/
def functionReturn (t : T) (m : Mem T Q) : Option (Mem T Q) :=
  match m.frames t with
  | [] => none
  | f :: rest =>
      let m := leaveGroup t f.dcGroup { m with frames := Function.update m.frames t rest }
      let m := setCurrent t f.oldDq m
      match f.redirected with
      | none => some m
      | some dq => some (redirectLeave t dq m)

/-- What can happen: the calls of the clients and the workers, and what other threads do
to the counts and the targets of the queues.  A root queue stays one. -/
inductive Step (width : Q → ℕ) (m : Mem T Q) : Mem T Q → Prop
  | async {t : T} {dq : Q} {w : Work} {m' : Mem T Q} :
      dispatchAsyncF t dq w m = some m' → Step width m m'
  | barrierSyncSlow (dq : Q) (ctxt : ℕ) : Step width m (dispatchBarrierSyncFSlow dq ctxt m)
  | syncSlow (dq : Q) (ctxt : ℕ) : Step width m (dispatchSyncFSlow dq ctxt m)
  | wakeup (dq tq : Q) : Step width m (dispatchQueuePush tq (.queue dq) m)
  | drain {t : T} {dq : Q} {m' : Mem T Q} : m.targets.doTargetq dq ≠ none →
      dispatchQueueDrain width t dq m = some m' → Step width m m'
  | work {t : T} {dq : Q} {m' : Mem T Q} : m.targets.doTargetq dq = none →
      dispatchWorkerThread2 t dq m = some m' → Step width m m'
  | return {t : T} {m' : Mem T Q} : functionReturn t m = some m' → Step width m m'
  | cleanup (t : T) : Step width m { m with cache := Function.update m.cache t [] }
  | count (dq : Q) (running refs : ℤ) :
      Step width m (addRef dq refs (addRunning dq running m))
  | retarget (τ : Targets Q) :
      (∀ q, τ.doTargetq q = none ↔ m.targets.doTargetq q = none) →
      Step width m { m with targets := τ }

/-- Any memory in which nothing has been allocated or pushed. -/
structure Fresh (m : Mem T Q) : Prop where
  heap : 0 < m.heap
  cache : ∀ t, m.cache t = []
  items : ∀ q, m.items q = []
  frames : ∀ t, m.frames t = []

def Reachable (width : Q → ℕ) (m : Mem T Q) : Prop :=
  ∃ m₀, Fresh m₀ ∧ Relation.ReflTransGen (Step width) m₀ m

end LibDispatch.Redirect
