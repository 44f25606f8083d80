import LibDispatch.Interleaving.Pool

/-!
# Counting semaphores

The semaphore of `semaphore.c`, one step for each atomic operation and each
load.  `dsema_value` and `dsema_sent_ksignals` are words of type `intptr_t`
whose atomic increments and decrements wrap; the kernel semaphore below them
is a counter whose timed wait may also give up.
-/

namespace LibDispatch

open Interleaving

def longMax : ℤ := 2 ^ 63 - 1

def longMin : ℤ := -2 ^ 63

/-- Reduction of an integer to a word of type `intptr_t`. -/
def wrap (x : ℤ) : ℤ := Int.bmod x (2 ^ 64)

theorem wrap_of_mem {x : ℤ} (hmin : longMin ≤ x) (hmax : x ≤ longMax) : wrap x = x := by
  unfold longMin at hmin
  unfold longMax at hmax
  exact Int.bmod_eq_of_le (by norm_num; omega) (by norm_num; omega)

/-- `dispatch_time_t` as far as the waiting functions look at it. -/
inductive Timeout
  | now
  | finite
  | forever
  deriving DecidableEq, Repr

namespace Semaphore

/-- How one call of `dispatch_semaphore_wait` ended: whether it returned
nonzero, and what all its own writes together added to the two words. -/
structure WaitReturn where
  timedOut : Bool
  valueEffect : ℤ
  ksignalsEffect : ℤ
  deriving DecidableEq, Repr

/-- The semaphore.  The last two fields are history: the signals that have
incremented `dsema_value`, and the waits that have returned. -/
structure Mem where
  dsemaValue : ℤ
  dsemaSentKsignals : ℤ
  ksem : ℕ
  signals : ℕ
  returns : List WaitReturn
  deriving DecidableEq, Repr

/-- Where a thread stands.  The states of the slow wait carry the timeout of
the call and what the call has added to `dsema_value` so far. -/
inductive Loc
  | idle
  | again (timeout : Timeout) (added : ℤ)
  | takeKsignal (timeout : Timeout) (added orig : ℤ)
  | timedWait (timeout : Timeout) (added : ℤ)
  | undo (timeout : Timeout) (added : ℤ)
  | undoSwap (timeout : Timeout) (added orig : ℤ)
  | kernelWait (timeout : Timeout) (added : ℤ)
  | sendKsignal
  | post
  deriving DecidableEq, Repr

inductive Act
  | wait (timeout : Timeout)
  | signal
  | go
  | expire
  deriving DecidableEq, Repr

def Mem.returned (m : Mem) (r : WaitReturn) : Mem :=
  { m with returns := r :: m.returns }

def dispatchSemaphoreCreate (value : ℤ) : Option Mem :=
  if value < 0 then none else
    some { dsemaValue := value, dsemaSentKsignals := 0, ksem := 0, signals := 0, returns := [] }

def dispatchSemaphoreWait (timeout : Timeout) (m : Mem) : Mem × Loc :=
  let value := wrap (m.dsemaValue - 1)
  let added := value - m.dsemaValue
  if value ≥ 0 then
    ({ m with dsemaValue := value }.returned ⟨false, added, 0⟩, .idle)
  else
    ({ m with dsemaValue := value }, .again timeout added)

def dispatchSemaphoreSignal (m : Mem) : Mem × Loc :=
  let value := wrap (m.dsemaValue + 1)
  let m' := { m with dsemaValue := value, signals := m.signals + 1 }
  if value > 0 then (m', .idle) else (m', .sendKsignal)

def dispatchSemaphoreWaitSlow (m : Mem) : Loc → Option (Mem × Loc)
  | .again timeout added =>
      if m.dsemaSentKsignals ≠ 0 then
        some (m, .takeKsignal timeout added m.dsemaSentKsignals)
      else
        match timeout with
        | .now => some (m, .undo timeout added)
        | .finite => some (m, .timedWait timeout added)
        | .forever => some (m, .kernelWait timeout added)
  | .takeKsignal timeout added orig =>
      if m.dsemaSentKsignals = orig then
        some ({ m with dsemaSentKsignals := orig - 1 }.returned ⟨false, added, -1⟩, .idle)
      else
        some (m, .again timeout added)
  | .timedWait timeout added | .kernelWait timeout added =>
      if m.ksem > 0 then some ({ m with ksem := m.ksem - 1 }, .again timeout added) else none
  | .undo timeout added =>
      if m.dsemaValue < 0 then
        some (m, .undoSwap timeout added m.dsemaValue)
      else
        some (m, .kernelWait timeout added)
  | .undoSwap timeout added orig =>
      if m.dsemaValue = orig then
        some ({ m with dsemaValue := orig + 1 }.returned ⟨true, added + 1, 0⟩, .idle)
      else
        some (m, .undo timeout added)
  | _ => none

def dispatchSemaphoreSignalSlow (m : Mem) : Loc → Option (Mem × Loc)
  | .sendKsignal => some ({ m with dsemaSentKsignals := wrap (m.dsemaSentKsignals + 1) }, .post)
  | .post => some ({ m with ksem := m.ksem + 1 }, .idle)
  | _ => none

variable {T : Type*}

def step : Program T Act Mem Loc := fun _ a m l ↦
  match l, a with
  | .idle, .wait timeout => some (dispatchSemaphoreWait timeout m)
  | .idle, .signal => some (dispatchSemaphoreSignal m)
  | .timedWait timeout added, .expire => some (m, .undo timeout added)
  | .sendKsignal, .go | .post, .go => dispatchSemaphoreSignalSlow m l
  | l, .go => dispatchSemaphoreWaitSlow m l
  | _, _ => none

def created (m : Mem) : Pool T Mem Loc := ⟨m, fun _ ↦ .idle⟩

end Semaphore

end LibDispatch
