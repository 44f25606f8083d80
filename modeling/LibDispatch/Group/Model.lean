import LibDispatch.Interleaving.TailList
import LibDispatch.Semaphore.Model

/-!
# Dispatch groups

A group is a semaphore created with the largest value.  Entering takes one
from the value, leaving gives it back, and whoever sees the value at its
original again wakes the waiters and submits the notifications.  The
notifications form a list that `dispatch_group_notify_f` extends by exchanging
its tail and that `_dispatch_group_wake` walks.  Waiters sleep on the same
kernel semaphore as the callers of `dispatch_group_enter` that had to wait.
-/

namespace LibDispatch.Group

open Interleaving

/-- A moment in the life of a group: whether it had no members then, and how
often it had lost its last member before. -/
structure Moment where
  empty : Bool
  emptied : ℕ
  deriving DecidableEq, Repr

/-- `struct dispatch_sema_notify_s` without its link: `dsn_queue`, `dsn_ctxt` and
`dsn_func` together are the `note`.  The other fields are history: the enters that
were open as the call of `dispatch_group_notify_f` began, and the moment of its
exchange on `dsema_notify_tail`. -/
structure Notification (ν : Type*) where
  note : ν
  openEnters : Finset ℕ
  registeredAt : Moment
  deriving DecidableEq

/-- How one call of `dispatch_group_wait` ended: whether it returned nonzero, and
whether the group had no members at some moment during the call. -/
structure WaitReturn where
  timedOut : Bool
  sawEmpty : Bool
  deriving DecidableEq, Repr

/-- The group and the nodes of its notification list.  The field `live` is the
allocator's view of the nodes; the fields behind it are history. -/
structure Mem (α ν : Type*) where
  dsema : Semaphore.Mem
  dsemaGroupWaiters : ℤ
  notifyHead : Option α
  notifyTail : Option α
  dsnNext : α → Option α
  dsn : α → Notification ν
  live : Finset α
  /-- The members: enters that have decremented the value, less the leaves. -/
  members : ℕ
  /-- How many enters have returned. -/
  entered : ℕ
  /-- The enters that have returned and that no leave has matched yet. -/
  openEnters : Finset ℕ
  emptied : ℕ
  registered : List (Notification ν)
  submitted : List (Notification ν)
  /-- How often the list has become non-empty, and how often it has been drained. -/
  opened : ℕ
  drained : ℕ
  /-- For which of its fillings the group has been retained and released. -/
  retained : List ℕ
  released : List ℕ
  returns : List WaitReturn

/-- A call of `dispatch_group_wait`: its timeout and the moment it began. -/
structure WaitCall where
  timeout : Timeout
  began : Moment
  deriving DecidableEq, Repr

/-- The function that has called `_dispatch_group_wake`. -/
inductive Caller
  | leave
  | notify
  | wait (call : WaitCall)
  deriving DecidableEq, Repr

inductive Loc (α : Type*)
  | idle
  | entering (l : Semaphore.Loc)
  | leaving (l : Semaphore.Loc)
  | leaveCheck
  | notifyExchange (dsn : α)
  | notifyLink (prev dsn : α)
  | notifyRetain (dsn : α) (filling : ℕ)
  | notifyHead (dsn : α)
  | notifyCheck
  | waitCheck (call : WaitCall)
  | waitRegister (call : WaitCall)
  | waitRecheck (call : WaitCall)
  | timedWait (call : WaitCall)
  | undo (call : WaitCall)
  | undoSwap (call : WaitCall) (orig : ℤ)
  | kernelWait (call : WaitCall)
  | wake (caller : Caller)
  | wakeWaiters (caller : Caller) (head : Option α)
  | wakePost (caller : Caller) (head : Option α) (rval : ℕ)
  | wakeSubmit (caller : Caller) (head : α)
  | wakeNext (caller : Caller) (head : α)
  | wakeReset (caller : Caller) (head : α)
  | wakeFree (caller : Caller) (head tmp : α)
  | wakeFreeLast (caller : Caller) (head : α) (filling : ℕ)
  | wakeRelease (caller : Caller) (filling : ℕ)
  deriving DecidableEq

/-- What a thread does next where the code leaves it open.  A notification comes
with the address that `malloc` finds for it, a leave with the enter it matches. -/
inductive Act (α ν : Type*)
  | enter
  | leave (e : ℕ)
  | notify (note : ν) (addr : α)
  | wait (timeout : Timeout)
  | go
  | expire

def dsemaOrig : ℤ := longMax

variable {α ν T : Type*}

def Mem.now (m : Mem α ν) : Moment := ⟨m.members = 0, m.emptied⟩

/-- The group has had no members at some moment since. -/
def Mem.emptySince (m : Mem α ν) (k : Moment) : Bool := k.empty || k.emptied < m.emptied

/-- `dispatch_group_create`, with any contents of the memory for the list nodes. -/
def dispatchGroupCreate (dsnNext : α → Option α) (dsn : α → Notification ν) : Mem α ν where
  dsema := ⟨dsemaOrig, 0, 0, 0, []⟩
  dsemaGroupWaiters := 0
  notifyHead := none
  notifyTail := none
  dsnNext := dsnNext
  dsn := dsn
  live := ∅
  members := 0
  entered := 0
  openEnters := ∅
  emptied := 0
  registered := []
  submitted := []
  opened := 0
  drained := 0
  retained := []
  released := []
  returns := []

def Mem.enterReturned (m : Mem α ν) : Mem α ν :=
  { m with entered := m.entered + 1, openEnters := insert m.entered m.openEnters }

/-- The call of `dispatch_semaphore_wait` inside `dispatch_group_enter` goes on
at `l`, or has returned. -/
def enterReturn (m : Mem α ν) : Semaphore.Loc → Mem α ν × Loc α
  | .idle => (m.enterReturned, .idle)
  | l => (m, .entering l)

def dispatchGroupEnter (m : Mem α ν) : Mem α ν × Loc α :=
  let r := Semaphore.dispatchSemaphoreWait .forever m.dsema
  enterReturn { m with dsema := r.1, members := m.members + 1 } r.2

/-- A leave that matches the enter `e` has given back its unit. -/
def Mem.leaveSignalled (m : Mem α ν) (e : ℕ) : Mem α ν :=
  { m with
    members := m.members - 1
    openEnters := m.openEnters.erase e
    emptied := if m.members = 1 then m.emptied + 1 else m.emptied }

/-- The call of `dispatch_semaphore_signal` inside `dispatch_group_leave` goes on
at `l`, or has returned. -/
def leaveReturn (m : Mem α ν) : Semaphore.Loc → Mem α ν × Loc α
  | .idle => (m, .leaveCheck)
  | l => (m, .leaving l)

/-- `dispatch_group_leave` up to the comparison, called to match the enter `e`. -/
def dispatchGroupLeave (e : ℕ) (m : Mem α ν) : Mem α ν × Loc α :=
  let r := Semaphore.dispatchSemaphoreSignal m.dsema
  leaveReturn { m.leaveSignalled e with dsema := r.1 } r.2

/-- The calls of `dispatch_group_wait` that have returned once `_dispatch_group_wake`
has returned to its caller, which then returns as well. -/
def Caller.returns (m : Mem α ν) : Caller → List WaitReturn
  | .leave | .notify => m.returns
  | .wait call => ⟨false, m.emptySince call.began⟩ :: m.returns

def wakeReturn (m : Mem α ν) (caller : Caller) : Mem α ν × Loc α :=
  ({ m with returns := caller.returns m }, .idle)

/-- The loop of `_dispatch_group_wake` over the notifications, entered with `head`. -/
def wakeLoop (m : Mem α ν) (caller : Caller) : Option α → Mem α ν × Loc α
  | some head => (m, .wakeSubmit caller head)
  | none => wakeReturn m caller

variable [DecidableEq α]

def dispatchGroupWake (m : Mem α ν) : Loc α → Option (Mem α ν × Loc α)
  | .wake caller => some ({ m with notifyHead := none }, .wakeWaiters caller m.notifyHead)
  | .wakeWaiters caller head =>
      -- the exchanged word goes through a variable of type `uint32_t`
      let rval := (m.dsemaGroupWaiters % 2 ^ 32).toNat
      let m' := { m with dsemaGroupWaiters := 0 }
      if rval ≠ 0 then some (m', .wakePost caller head rval) else some (wakeLoop m' caller head)
  | .wakePost caller head rval =>
      let m' := { m with dsema.ksem := m.dsema.ksem + 1 }
      if rval - 1 ≠ 0 then some (m', .wakePost caller head (rval - 1))
      else some (wakeLoop m' caller head)
  | .wakeSubmit caller head =>
      some ({ m with submitted := m.submitted ++ [m.dsn head] }, .wakeNext caller head)
  | .wakeNext caller head =>
      match m.dsnNext head with
      | some tmp => some (m, .wakeFree caller head tmp)
      | none => some (m, .wakeReset caller head)
  | .wakeReset caller head =>
      if m.notifyTail = some head then
        some ({ m with notifyTail := none, drained := m.drained + 1 },
          .wakeFreeLast caller head m.drained)
      else
        some (m, .wakeNext caller head)
  | .wakeFree caller head tmp =>
      some ({ m with live := m.live.erase head }, .wakeSubmit caller tmp)
  | .wakeFreeLast caller head filling =>
      some ({ m with live := m.live.erase head }, .wakeRelease caller filling)
  | .wakeRelease caller filling =>
      some (wakeReturn { m with released := filling :: m.released } caller)
  | _ => none

/-- `dispatch_group_notify_f` up to the exchange of the tail. -/
def dispatchGroupNotify (note : ν) (addr : α) (m : Mem α ν) : Option (Mem α ν × Loc α) :=
  if addr ∈ m.live then none else
    some ({ m with
      live := insert addr m.live
      dsnNext := Function.update m.dsnNext addr none
      dsn := Function.update m.dsn addr ⟨note, m.openEnters, m.now⟩ }, .notifyExchange addr)

/-- `dispatch_group_notify_f` from the exchange of the tail on. -/
def dispatchGroupNotifyPush (m : Mem α ν) : Loc α → Option (Mem α ν × Loc α)
  | .notifyExchange dsn =>
      let reg := { m.dsn dsn with registeredAt := m.now }
      let m' := { m with
        notifyTail := some dsn
        dsn := Function.update m.dsn dsn reg
        registered := m.registered ++ [reg] }
      match m.notifyTail with
      | some prev => some (m', .notifyLink prev dsn)
      | none => some ({ m' with opened := m.opened + 1 }, .notifyRetain dsn m.opened)
  | .notifyLink prev dsn =>
      some ({ m with dsnNext := Function.update m.dsnNext prev (some dsn) }, .idle)
  | .notifyRetain dsn filling =>
      some ({ m with retained := filling :: m.retained }, .notifyHead dsn)
  | .notifyHead dsn => some ({ m with notifyHead := some dsn }, .notifyCheck)
  | .notifyCheck =>
      if m.dsema.dsemaValue = dsemaOrig then some (m, .wake .notify) else some (m, .idle)
  | _ => none

/-- `dispatch_group_wait` up to the call of the slow path. -/
def dispatchGroupWait (timeout : Timeout) (m : Mem α ν) : Mem α ν × Loc α :=
  if m.dsema.dsemaValue = dsemaOrig then
    ({ m with returns := ⟨false, m.emptySince m.now⟩ :: m.returns }, .idle)
  else if timeout = .now then
    ({ m with returns := ⟨true, m.emptySince m.now⟩ :: m.returns }, .idle)
  else
    (m, .waitCheck ⟨timeout, m.now⟩)

def dispatchGroupWaitSlow (m : Mem α ν) : Loc α → Option (Mem α ν × Loc α)
  | .waitCheck call =>
      if m.dsema.dsemaValue = dsemaOrig then some (m, .wake (.wait call))
      else some (m, .waitRegister call)
  | .waitRegister call =>
      some ({ m with dsemaGroupWaiters := wrap (m.dsemaGroupWaiters + 1) }, .waitRecheck call)
  | .waitRecheck call =>
      if m.dsema.dsemaValue = dsemaOrig then some (m, .wake (.wait call)) else
        match call.timeout with
        | .finite => some (m, .timedWait call)
        | .now => some (m, .undo call)
        | .forever => some (m, .kernelWait call)
  | .timedWait call | .kernelWait call =>
      if m.dsema.ksem > 0 then
        some ({ m with dsema.ksem := m.dsema.ksem - 1 }, .waitCheck call)
      else none
  | .undo call =>
      if m.dsemaGroupWaiters ≠ 0 then some (m, .undoSwap call m.dsemaGroupWaiters)
      else some (m, .kernelWait call)
  | .undoSwap call orig =>
      if m.dsemaGroupWaiters = orig then
        some ({ m with
          dsemaGroupWaiters := orig - 1
          returns := ⟨true, m.emptySince call.began⟩ :: m.returns }, .idle)
      else some (m, .undo call)
  | _ => none

def step : Program T (Act α ν) (Mem α ν) (Loc α) := fun _ a m l ↦
  match l, a with
  | .idle, .enter => some (dispatchGroupEnter m)
  | .idle, .leave e => if e ∈ m.openEnters then some (dispatchGroupLeave e m) else none
  | .idle, .notify note addr => dispatchGroupNotify note addr m
  | .idle, .wait timeout => some (dispatchGroupWait timeout m)
  | .timedWait call, .expire => some (m, .undo call)
  | .entering l, .go =>
      (Semaphore.dispatchSemaphoreWaitSlow m.dsema l).map fun r ↦
        enterReturn { m with dsema := r.1 } r.2
  | .leaving l, .go =>
      (Semaphore.dispatchSemaphoreSignalSlow m.dsema l).map fun r ↦
        leaveReturn { m with dsema := r.1 } r.2
  | .leaveCheck, .go =>
      if m.dsema.dsemaValue = dsemaOrig then some (m, .wake .leave) else some (m, .idle)
  | l, .go =>
      (dispatchGroupNotifyPush m l).or ((dispatchGroupWaitSlow m l).or (dispatchGroupWake m l))
  | _, _ => none

def created (dsnNext : α → Option α) (dsn : α → Notification ν) : Pool T (Mem α ν) (Loc α) :=
  ⟨dispatchGroupCreate dsnNext dsn, fun _ ↦ .idle⟩

end LibDispatch.Group
