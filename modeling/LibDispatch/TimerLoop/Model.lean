import LibDispatch.Source.Wakeup
import LibDispatch.Kevent.Timers

/-!
# The manager loop and suspended timers

The loop of `_dispatch_mgr_invoke` around a set of installed timers: it runs the timers that
are due, looks for the next fire of a timer that is not suspended and waits for it, while
other threads suspend and resume the timers and workers invoke them on their target queues.
What a thread does to one timer are the steps of a source; the two lists and the parameters
of the timers belong to the manager alone.
-/

namespace LibDispatch.TimerLoop

open Interleaving
open Kevent (Clock)

def foreverNsec : ℕ := 31536000000000000

def uint64Max : ℕ := 2 ^ 64 - 1

/-- What is given: the manager and its queue, and how an interval of the monotonic clock is
converted to nanoseconds. -/
structure Setting (T Q : Type*) extends Source.Setting T Q where
  mach2nano : ℕ → ℕ
  mach2nano_mono : Monotone mach2nano

/-- The local variables of `_dispatch_get_next_timer_fire`, with the readings of the two
clocks that it has made. -/
structure Plan where
  delta : ℕ := uint64Max
  wall : Option ℕ := none
  mach : Option ℕ := none
  deriving DecidableEq

def Plan.now (p : Plan) : Clock → Option ℕ
  | .wall => p.wall
  | .mach => p.mach

/-- The clock `c` has been read, and a timer has been found that is due in `delta`. -/
def Plan.read (p : Plan) (now delta : ℕ) : Clock → Plan
  | .wall => { p with delta := min p.delta delta, wall := some now }
  | .mach => { p with delta := min p.delta delta, mach := some now }

/-- Where the manager stands in its loop; the other threads are outside. -/
inductive Place (S : Type*)
  | outside
  | clock (c : Clock)
  | timers (c : Clock) (now : ℕ)
  | scan (c : Clock) (rest : List S) (p : Plan)
  | disarm (c : Clock) (ds : S) (rest : List S) (p : Plan)
  | chosen (c : Clock) (ds : S) (p : Plan)
  | wait (p : Plan)
  | blocked (p : Plan) (timeout : Option ℕ)
  | drain
  deriving DecidableEq

/-- A thread, with the source on which it is at work. -/
structure Loc (S Q : Type*) where
  place : Place S
  work : Option (S × Source.Loc Q)
  deriving DecidableEq

/-- The timers: what the manager keeps of each, the two lists, and the objects that other
threads use as well. -/
structure Mem (S Q : Type*) where
  ds : S → Kevent.Source S
  list : Clock → List S
  src : S → Source.Mem Q

inductive Act (S Q : Type*)
  | suspend (ds : S)
  | resume (ds : S)
  | invoke (ds : S) (tq : Q)
  | clock (now : ℕ)
  | block (select : Bool)
  | wake
  | loop
  | go
  deriving DecidableEq

variable {T S Q : Type*}

namespace Mem

variable (m : Mem S Q)

def target (ds : S) : ℕ := (m.ds ds).dsTimer.target

variable [DecidableEq S]

/-- The timer `ds` has fired and has been put in its place on the list again. -/
def fired (c : Clock) (ds : S) (now : ℕ) : Mem S Q :=
  let x := ((m.ds ds).fire now).1
  { m with
    ds := Function.update m.ds ds x
    list := Function.update m.list c (OrderedList.insertBefore
      (fun dsi ↦ x.dsTimer.target ≠ 0 ∧ (m.target dsi = 0 ∨ x.dsTimer.target < m.target dsi)) ds
      ((m.list c).erase ds)) }

def setSrc (ds : S) (x : Source.Mem Q) : Mem S Q := { m with src := Function.update m.src ds x }

def disarm (ds : S) : Mem S Q := m.setSrc ds { m.src ds with dsIsArmed := false }

end Mem

/-- What is left until the timer is due, in nanoseconds. -/
def remaining (set : Setting T Q) (x : Kevent.Source S) (now : ℕ) : ℕ :=
  if x.dsTimer.wallClock then x.dsTimer.target - now
  else set.mach2nano (x.dsTimer.target - now)

/-- The next turn of the loop over the two lists in `_dispatch_get_next_timer_fire`. -/
def nextList (m : Mem S Q) (p : Plan) : Clock → Place S
  | .wall => .scan .mach (m.list .mach) p
  | .mach => .wait p

/-- Where the manager goes on after `_dispatch_run_timers2`. -/
def afterTimers (m : Mem S Q) : Clock → Place S
  | .wall => .clock .mach
  | .mach => .scan .wall (m.list .wall) {}

/-- The timeout that `_dispatch_get_next_timer_fire` returns; `select()` waits for whole
microseconds. -/
def Plan.timeout (p : Plan) (select : Bool) : Option ℕ :=
  if p.delta > foreverNsec then none
  else some (if select then p.delta / 1000 * 1000 else p.delta)

section Steps

variable [DecidableEq T] [DecidableEq S] [DecidableEq Q]

def stepSource (set : Setting T Q) (t : T) (a : Source.Act Q) (m : Mem S Q) (place : Place S)
    (ds : S) (l : Source.Loc Q) : Option (Mem S Q × Loc S Q) :=
  (Source.step set.toSetting t a (m.src ds) l).map fun (x, l') ↦
    (m.setSrc ds x, ⟨place, if l' = .idle then none else some (ds, l')⟩)

/-- One turn of the loop of `_dispatch_run_timers2`. -/
def dispatchRunTimers2 (set : Setting T Q) (t : T) (c : Clock) (now : ℕ) (m : Mem S Q) :
    Option (Mem S Q × Loc S Q) :=
  match m.list c with
  | [] => some (m, ⟨afterTimers m c, none⟩)
  | ds :: _ =>
      let x := m.ds ds
      if x.dsTimer.target = 0 ∨ x.dsTimer.interval = 0 then some (m, ⟨afterTimers m c, none⟩)
      else if now < x.dsTimer.target then some (m, ⟨afterTimers m c, none⟩)
      else stepSource set t (.fire (BitVec.ofNat 64 (x.fire now).2)) (m.fired c ds now)
        (.timers c now) ds .idle

def dispatchGetNextTimerFire (set : Setting T Q) (m : Mem S Q) (a : Act S Q) :
    Place S → Option (Mem S Q × Loc S Q)
  | .scan c rest p =>
      match rest, a with
      | [], .go => some (m, ⟨nextList m p c, none⟩)
      | ds :: rest, .go =>
          if m.target ds = 0 then some (m, ⟨nextList m p c, none⟩)
          else if (m.src ds).suspended then some (m, ⟨.disarm c ds rest p, none⟩)
          else some (m, ⟨.chosen c ds p, none⟩)
      | _, _ => none
  | .disarm c ds rest p =>
      match a with
      | .go => some (m.disarm ds, ⟨.scan c rest p, none⟩)
      | _ => none
  | .chosen c ds p =>
      match a with
      | .clock now =>
          -- a timer that is due: the manager only polls
          if m.target ds ≤ now then some (m, ⟨.drain, none⟩)
          else some (m, ⟨nextList m (p.read now (remaining set (m.ds ds) now) c) c, none⟩)
      | _ => none
  | _ => none

def step (set : Setting T Q) : Program T (Act S Q) (Mem S Q) (Loc S Q) := fun t a m l ↦
  match l.work with
  | some (ds, w) => if a = .go then stepSource set t .go m l.place ds w else none
  | none =>
      match l.place, a with
      | .outside, .suspend ds => stepSource set t .suspend m .outside ds .idle
      | .outside, .resume ds => stepSource set t .resume m .outside ds .idle
      | .outside, .invoke ds tq =>
          if tq = set.mgrQ then none else stepSource set t (.invoke tq) m .outside ds .idle
      -- `_dispatch_mgr_thread2` drains the manager queue
      | .drain, .invoke ds tq =>
          if tq = set.mgrQ then stepSource set t (.invoke tq) m .drain ds .idle else none
      | .drain, .loop => some (m, ⟨.clock .wall, none⟩)
      | .clock c, .clock now => some (m, ⟨.timers c now, none⟩)
      | .timers c now, .go => dispatchRunTimers2 set t c now m
      | .wait p, .block select => some (m, ⟨.blocked p (p.timeout select), none⟩)
      | .blocked _ _, .wake => some (m, ⟨.drain, none⟩)
      | place, a => dispatchGetNextTimerFire set m a place

end Steps

/-! ## Where the runs start -/

/-- An installed timer at rest: it is armed or suspended, has nothing to deliver or is
suspended, and is on no list. -/
structure Installed (m : Source.Mem Q) : Prop where
  items : m.items = []
  running : m.dqRunning = 0
  suspend : m.doSuspendCnt = 2 * m.suspensions
  refs : m.doRefCnt = m.ownRefs
  xrefs : m.doXrefCnt ≠ 0
  linked : m.linked = []
  installed : m.dsIsInstalled
  canceled : m.dsCanceled = false
  dkSources : m.dkSources
  needsRearm : m.dsNeedsRearm
  timers : m.timers = 0
  idle : m.suspensions = 0 → m.dsIsArmed ∧ m.dsPendingData = 0

/-- The order of the lists and the clocks of the timers on them. -/
structure Listed (m : Mem S Q) : Prop where
  nodup : ∀ c, (m.list c).Nodup
  disjoint : ∀ c c' ds, ds ∈ m.list c → ds ∈ m.list c' → c = c'
  sorted : ∀ c, (m.list c).Pairwise fun a b ↦
    Kevent.fireKey (m.target a) ≤ Kevent.fireKey (m.target b)
  clock : ∀ c, ∀ ds ∈ m.list c, m.target ds ≠ 0 → Kevent.Registry.clockOf (m.ds ds) = c

/-- The manager is at the top of its loop, and no other thread is at work. -/
structure Start (set : Setting T Q) (s : Pool T (Mem S Q) (Loc S Q)) : Prop where
  mgr : s.loc set.mgr = ⟨.drain, none⟩
  others : ∀ t ≠ set.mgr, s.loc t = ⟨.outside, none⟩
  installed : ∀ ds, Installed (s.mem.src ds)
  listed : Listed s.mem

end LibDispatch.TimerLoop
