import LibDispatch.Interleaving.Refinement
import LibDispatch.Source.Cancel
import LibDispatch.Kevent.Manager

/-!
# Calling a function at a given time

`dispatch_after_f` uses a timer for a single call.  The timer has the smallest period that
there is, and what ends it is its own handler, which cancels the source after it has called
the function; the handler for the cancellation frees the context of the two and gives up the
only external reference.

What a thread does to the timer are the steps of a source.  A function that a handler calls
has a thread of its own in the pool, and the handler waits until it returns.
-/

namespace LibDispatch.After

open Interleaving
open Kevent (Clock)

/-! ## The model -/

def forever : BitVec 64 := BitVec.allOnes 64

def clockOf (time : BitVec 64) : Clock := if time.msb then .wall else .mach

def valueOf (time : BitVec 64) : ℕ := if time.msb then (-time).toNat else time.toNat

/-- What is given: the manager and its queue, the thread that calls `dispatch_after_f`, the
arguments, and the conversion of intervals of the monotonic clock, a tick of which is not
shorter than a nanosecond. -/
structure Setting (T Q : Type*) extends Source.Setting T Q where
  caller : T
  time : BitVec 64
  queue : Q
  host : Kevent.Host
  mach2nano : ℕ → ℕ
  mach2nano_pos : ∀ n, 0 < n → 0 < mach2nano n

/-- Where `dispatch_after_f` stands: before its test of the time, after it has submitted the
function, or in front of one of its calls on the new source. -/
inductive Progress
  | start
  | async
  | asyncFunc
  | finished
  | setEventHandler
  | setCancelHandler
  | setTimer
  | resume
  | armed
  deriving DecidableEq

/-- Where `_dispatch_after_timer_callback` stands: in the function, in front of
`dispatch_source_cancel`, in it, or at its end. -/
inductive Callback (T : Type*)
  | outside
  | func
  | cancel
  | cancelling (t : T)
  | returned
  deriving DecidableEq

/-- Where `_dispatch_after_timer_cancel` stands, with `dispatch_release` in place of
`dispatch_source_cancel`. -/
inductive Callout (T : Type*)
  | outside
  | release
  | releasing (t : T)
  | returned
  deriving DecidableEq

/-- The source and its timer, and the progress of the functions that use them.  The last
fields are history: the readings of the clocks, the calls of the function and its returns, how
often the context has been freed, and the calls of `dispatch_release`. -/
structure Mem (T Q : Type*) where
  src : Source.Mem Q
  timer : Kevent.Source Unit
  progress : Progress
  callback : Callback T
  callout : Callout T
  reads : List (Clock × ℕ)
  calls : ℕ
  returns : ℕ
  frees : ℕ
  releases : ℕ

/-- The calls of `dispatch_after_f`, what the manager and the workers do, and the steps of the
handlers. -/
inductive Act (Q : Type*)
  | call (now : ℕ)
  | next
  | asyncFunc
  | asyncReturn
  | go
  | found
  | invoke (tq : Q)
  | setTimer2
  | pass (c : Clock) (now : ℕ)
  | callFunc
  | funcReturn
  | free
  | sourceCancel
  | release
  | handlerReturn
  deriving DecidableEq

section Functions

variable {T Q : Type*} (set : Setting T Q)

/-- `_dispatch_timeout`, where `now` is the reading of the clock of `set.time`. -/
def dispatchTimeout (now : ℕ) : ℕ :=
  if set.time = forever then forever.toNat
  else if set.time = 0 then 0
  else if set.time.msb then if now ≥ (-set.time).toNat then 0 else (-set.time).toNat - now
  else if now ≥ set.time.toNat then 0 else set.mach2nano (set.time.toNat - now)

/-- The reading of a clock that `_dispatch_timeout` makes, if any. -/
def timeoutReads (now : ℕ) : List (Clock × ℕ) :=
  if set.time = forever ∨ set.time = 0 then [] else [(clockOf set.time, now)]

def dispatchAfterF (m : Mem T Q) (now : ℕ) : Mem T Q :=
  if set.time = forever then { m with progress := .finished }
  else
    { m with
      reads := timeoutReads set now ++ m.reads
      progress := if dispatchTimeout set now = 0 then .async else .setEventHandler }

/-- The calls of `dispatch_after_f` on the source that it has created. -/
def Progress.call {Q : Type*} : Progress → Option (Source.Act Q × Progress)
  | .setEventHandler => some (.setEventHandler true false, .setCancelHandler)
  | .setCancelHandler => some (.setCancelHandler true, .setTimer)
  | .setTimer => some (.setTimer, .resume)
  | .resume => some (.resume, .armed)
  | _ => none

def newTimer : Kevent.Source Unit := Kevent.State.newSource () .timer 0 0

/-- The timer that the manager finds in the parameters of `dispatch_source_set_timer`.  The time
is not `DISPATCH_TIME_NOW`, so the monotonic clock is not read. -/
def setTimer2 (x : Kevent.Source Unit) : Kevent.Source Unit :=
  let p := Kevent.dispatchSourceSetTimer set.host () newTimer.dsTimer.flags set.time 0 0 0
  { x with dsIdentHack := p.ident, dsTimer := p.values, fires := 0 }

/-- The tests of `_dispatch_run_timers2`. -/
def due (x : Kevent.Source Unit) (c : Clock) (now : ℕ) : Bool :=
  c.index = x.dsIdentHack ∧ x.dsTimer.target ≠ 0 ∧ x.dsTimer.interval ≠ 0 ∧ x.dsTimer.target ≤ now

variable [DecidableEq T] [DecidableEq Q]

/-- A step on the source, together with a change of the rest. -/
def srcStep (t : T) (a : Source.Act Q) (m : Mem T Q) (l : Source.Loc Q)
    (k : Mem T Q → Mem T Q) : Option (Mem T Q × Source.Loc Q) :=
  (Source.step set.toSetting t a m.src l).map fun r ↦ (k { m with src := r.1 }, r.2)

/-- The step of a thread inside of the library.  Where it has called a handler, it goes on when
the handler has returned. -/
def go (t : T) (a : Source.Act Q) (m : Mem T Q) (l : Source.Loc Q) :
    Option (Mem T Q × Source.Loc Q) :=
  match l with
  | .held _ .latchRun =>
      if m.callback = .returned then srcStep set t a m l fun m ↦ { m with callback := .outside }
      else none
  | .held _ (.calloutRun _) =>
      if m.callout = .returned then srcStep set t a m l fun m ↦ { m with callout := .outside }
      else none
  | _ => srcStep set t a m l id

/-- The turn of the loop of `_dispatch_run_timers2` for the timer, with the reading of the clock
before the loop. -/
def pass (t : T) (m : Mem T Q) (c : Clock) (now : ℕ) : Option (Mem T Q × Source.Loc Q) :=
  let reads := (c, now) :: m.reads
  if due m.timer c now then
    let (timer, n) := m.timer.fire now
    srcStep set t (.fire (BitVec.ofNat 64 n)) m .idle fun m ↦ { m with reads, timer }
  else if t = set.mgr ∧ m.src.dkSources then some ({ m with reads }, .idle)
  else none

/-- `_dispatch_after_timer_callback` calls the function, and the function returns;
`_dispatch_after_timer_cancel` frees the context. -/
def handler (m : Mem T Q) (l : Source.Loc Q) : Act Q → Option (Mem T Q × Source.Loc Q)
  | .callFunc =>
      if (l matches .held _ .latchRun) ∧ m.callback = .outside then
        some ({ m with callback := .func, calls := m.calls + 1 }, l)
      else none
  | .funcReturn =>
      if (l matches .held _ .latchRun) ∧ m.callback = .func then
        some ({ m with callback := .cancel, returns := m.returns + 1 }, l)
      else none
  | .free =>
      if (l matches .held _ (.calloutRun _)) ∧ m.callout = .outside then
        some ({ m with callout := .release, frees := m.frees + 1 }, l)
      else none
  | _ => none

/-- The calls that the two handlers make, and the end of the handlers. -/
def handlerCall (t : T) (m : Mem T Q) : Act Q → Option (Mem T Q × Source.Loc Q)
  | .sourceCancel =>
      if m.callback = .cancel then
        srcStep set t .cancel m .idle fun m ↦ { m with callback := .cancelling t }
      else none
  | .release =>
      if m.callout = .release then
        srcStep set t .release m .idle fun m ↦
          { m with callout := .releasing t, releases := m.releases + 1 }
      else none
  | .handlerReturn =>
      if m.callback = .cancelling t then some ({ m with callback := .returned }, .idle)
      else if m.callout = .releasing t then some ({ m with callout := .returned }, .idle)
      else none
  | _ => none

/-- `dispatch_after_f`, and the function if it was submitted at once. -/
def afterCall (t : T) (m : Mem T Q) : Act Q → Option (Mem T Q × Source.Loc Q)
  | .call now =>
      if t = set.caller ∧ m.progress = .start then some (dispatchAfterF set m now, .idle) else none
  | .next =>
      if t = set.caller then
        (m.progress.call (Q := Q)).bind fun (a, progress) ↦
          srcStep set t a m .idle fun m ↦ { m with progress }
      else none
  | .asyncFunc =>
      if m.progress = .async then
        some ({ m with progress := .asyncFunc, calls := m.calls + 1 }, .idle)
      else none
  | .asyncReturn =>
      if m.progress = .asyncFunc then
        some ({ m with progress := .finished, returns := m.returns + 1 }, .idle)
      else none
  | _ => none

def step : Program T (Act Q) (Mem T Q) (Source.Loc Q) := fun t a m l ↦
  match a with
  | .go => go set t .go m l
  | .found => go set t .found m l
  | .callFunc | .funcReturn | .free => handler m l a
  | a =>
      if l = .idle then
        match a with
        | .invoke tq => srcStep set t (.invoke tq) m .idle id
        | .setTimer2 =>
            srcStep set t .setTimer2 m .idle fun m ↦ { m with timer := setTimer2 set m.timer }
        | .pass c now => pass set t m c now
        | .call _ | .next | .asyncFunc | .asyncReturn => afterCall set t m a
        | a => handlerCall set t m a
      else none

omit [DecidableEq T] [DecidableEq Q] in
def initial : Pool T (Mem T Q) (Source.Loc Q) where
  mem :=
    { src := (Source.created (T := T) set.queue 0 true).mem, timer := newTimer, progress := .start
      callback := .outside, callout := .outside, reads := [], calls := 0, returns := 0, frees := 0
      releases := 0 }
  loc _ := .idle

end Functions

end LibDispatch.After
