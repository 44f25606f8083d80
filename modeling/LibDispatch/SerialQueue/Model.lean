import LibDispatch.Queue.Items

/-!
# Draining a serial queue

The list of a queue of width one, pushed to by any number of threads and drained
by `_dispatch_queue_drain` under the lock `dq_running`.  A pass may stop at any
item because the queue has been suspended or retargeted; the item it has in hand
then goes back to the front of the list.  One step for each atomic operation and
each single load or store.  What an item does while it runs, other threads of the
pool do in its place.
-/

namespace LibDispatch.SerialQueue

open Interleaving TailList

/-- The queue, with `Q` for the queues it may be targeted at.  The last field is
history: the items handed to `_dispatch_continuation_pop`. -/
structure Mem (α Q : Type*) where
  dq : Items α
  dqRunning : ℕ
  doSuspendCnt : ℕ
  doTargetq : Q
  popped : List α

/-- Where a thread stands.  Inside `_dispatch_queue_drain` it has `orig_tq`, `dc` and
`next_dc` in local variables.  A thread that is `locked` holds `dq_running` for
another reason. -/
inductive Loc (α Q : Type*)
  | idle
  | push (p : Push α)
  | locked
  | drain
  | drainTail (origTq : Q)
  | drainHead (origTq : Q)
  | drainLoad (origTq : Q)
  | drainClear (origTq : Q) (dc : α)
  | drainNext (origTq : Q) (dc : α)
  | drainReset (origTq : Q) (dc : α)
  | drainSuspended (origTq : Q) (dc : α) (nextDc : Option α)
  | drainRunning (origTq : Q) (dc : α) (nextDc : Option α)
  | drainTarget (origTq : Q) (dc : α) (nextDc : Option α)
  | drainPop (origTq : Q) (dc : α) (nextDc : Option α)
  | outSwap (dc : α)
  | outHead (dc : α)
  | outWait (dc : α)
  | outFront (dc nextDc : α)
  | outLink (dc nextDc : α)
  | unlock
  | fault
  deriving DecidableEq

inductive Act (α Q : Type*)
  | push (head : α) (rest : List α)
  | drain
  | lock
  | suspend
  | resume
  | retarget (tq : Q)
  | go

def dqWidth : ℕ := 1

variable {α Q T : Type*} [DecidableEq α] [DecidableEq Q]

/-- The label `out` of `_dispatch_queue_drain`, reached with an item in hand. -/
def drainOut (dc : α) : Option α → Loc α Q
  | some _ => .outHead dc
  | none => .outSwap dc

def dispatchQueueDrain (m : Mem α Q) : Loc α Q → Option (Mem α Q × Loc α Q)
  | .drain => some (m, .drainTail m.doTargetq)
  | .drainTail tq =>
      match m.dq.dqItemsTail with
      | some _ => some (m, .drainHead tq)
      | none => some (m, .unlock)
  | .drainHead tq =>
      if m.dq.dqItemsHead = .null then some (m, .drainHead tq) else some (m, .drainLoad tq)
  | .drainLoad tq =>
      match m.dq.dqItemsHead with
      | .item dc => some (m, .drainClear tq dc)
      | _ => some (m, .fault)
  | .drainClear tq dc => some ({ m with dq.dqItemsHead := .null }, .drainNext tq dc)
  | .drainNext tq dc =>
      match m.dq.doNext dc with
      | some next => some (m, .drainSuspended tq dc (some next))
      | none => some (m, .drainReset tq dc)
  | .drainReset tq dc =>
      if m.dq.dqItemsTail = some dc then
        some ({ m with dq.dqItemsTail := none }, .drainSuspended tq dc none)
      else some (m, .drainNext tq dc)
  | .drainSuspended tq dc next =>
      if m.doSuspendCnt ≥ 2 then some (m, drainOut dc next)
      else some (m, .drainRunning tq dc next)
  | .drainRunning tq dc next =>
      if m.dqRunning > dqWidth then some (m, drainOut dc next)
      else some (m, .drainTarget tq dc next)
  | .drainTarget tq dc next =>
      if tq ≠ m.doTargetq then some (m, drainOut dc next) else some (m, .drainPop tq dc next)
  | .drainPop tq dc next =>
      some ({ m with dq.live := m.dq.live.erase dc, popped := m.popped ++ [dc] },
        next.elim (.drainTail tq) (.drainNext tq))
  | .outSwap dc =>
      if m.dq.dqItemsTail = none then
        some ({ m with dq.dqItemsTail := some dc }, .outHead dc)
      else some (m, .outWait dc)
  | .outHead dc => some ({ m with dq.dqItemsHead := .item dc }, .unlock)
  | .outWait dc =>
      match m.dq.dqItemsHead with
      | .null => some (m, .outWait dc)
      | .item next => some (m, .outFront dc next)
      | .mediator => some (m, .fault)
  | .outFront dc next => some ({ m with dq.dqItemsHead := .item dc }, .outLink dc next)
  | .outLink dc next =>
      some ({ m with dq.doNext := Function.update m.dq.doNext dc (some next) }, .unlock)
  | _ => none

/-- One step of a thread that pushes to the queue, drains it or changes its state. -/
def step : Program T (Act α Q) (Mem α Q) (Loc α Q) := fun _ a m l ↦
  match l, a with
  | .idle, .push head rest =>
      (m.dq.prepare head rest).map fun r ↦ ({ m with dq := r.1 }, .push r.2)
  | .push p, .go =>
      let r := m.dq.pushList p
      some ({ m with dq := r.1 }, r.2.elim .idle .push)
  | .idle, .drain => if m.dqRunning = 0 then some ({ m with dqRunning := 1 }, .drain) else none
  | .idle, .lock => if m.dqRunning = 0 then some ({ m with dqRunning := 1 }, .locked) else none
  | .locked, .go | .unlock, .go => some ({ m with dqRunning := m.dqRunning - 1 }, .idle)
  | .idle, .suspend => some ({ m with doSuspendCnt := m.doSuspendCnt + 2 }, .idle)
  | .idle, .resume =>
      if m.doSuspendCnt ≥ 2 then some ({ m with doSuspendCnt := m.doSuspendCnt - 2 }, .idle)
      else none
  | .idle, .retarget tq => some ({ m with doTargetq := tq }, .idle)
  | .idle, .go => none
  | l, .go => dispatchQueueDrain m l
  | _, _ => none

def created (doNext : α → Option α) (tq : Q) : Pool T (Mem α Q) (Loc α Q) :=
  ⟨⟨.empty doNext, 0, 0, tq, []⟩, fun _ ↦ .idle⟩

end LibDispatch.SerialQueue
