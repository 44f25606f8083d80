import LibDispatch.Interleaving.Sequence
import LibDispatch.Kevent.Model
import LibDispatch.Lists.Ordered
import Mathlib.Logic.Relation

/-!
# The manager

The timers, and everything that can happen to the state of the manager: sources are created,
installed, cancelled and uninstalled, events arrive from the kernel queue or from `select()`,
sources are armed again, timers are set and run.
-/

namespace LibDispatch.Kevent

/-! ## The kernel queue -/

/-- A knote, with the part of its flags and the `udata` that it was registered with. -/
structure Knote (S : Type*) where
  enabled : Bool
  evDispatch : Bool
  udata : Dk S
  deriving DecidableEq

abbrev Knotes (S : Type*) := ℕ → Filter → Option (Knote S)

def setKnote {N : Type*} (knotes : ℕ → Filter → Option N) (ident : ℕ) (filter : Filter)
    (x : Option N) : ℕ → Filter → Option N :=
  Function.update knotes ident (Function.update (knotes ident) filter x)

/-- `kevent(2)` with one change and `EV_RECEIPT`.  The argument `errno` is what the kernel
answers to a registration; changes of an unknown knote are rejected. -/
def kevent {S : Type*} (knotes : Knotes S) (c : Change S) (errno : ℕ) : Knotes S × ℕ :=
  if c.flags.evDelete then
    match knotes c.ident c.filter with
    | some _ => (setKnote knotes c.ident c.filter none, 0)
    | none => (knotes, ENOENT)
  else if c.flags.evAdd then
    if errno = 0 then
      (setKnote knotes c.ident c.filter (some ⟨true, c.flags.evDispatch, c.udata⟩), 0)
    else (knotes, errno)
  else
    match knotes c.ident c.filter with
    | some x =>
        (setKnote knotes c.ident c.filter
          (some { x with enabled := x.enabled || c.flags.evEnable }), 0)
    | none => (knotes, ENOENT)

/-- The kernel marks each receipt with `EV_ERROR`. -/
instance {S : Type*} : EventQueue S (Knotes S) (Option ℕ) where
  kevent knotes c answer :=
    match answer with
    | none => (knotes, none)
    | some errno => ((kevent knotes c errno).1, some ⟨(kevent knotes c errno).2, true⟩)

abbrev Manager (S : Type*) := State S (Knotes S)

/-! ## Timers -/

namespace Registry

variable {S : Type*} [DecidableEq S] (r : Registry S)

def target (ds : S) : ℕ := ((r.ds ds).map fun x ↦ x.dsTimer.target).getD 0

/-- The list that the flags of the timer ask for. -/
def clockOf (x : Source S) : Clock := if x.dsTimer.wallClock then .wall else .mach

def isLater (target : ℕ) (dsi : S) : Bool :=
  target ≠ 0 ∧ (r.target dsi = 0 ∨ target < r.target dsi)

/-- Insert the timer into the list that its flags ask for. -/
def enqueueTimer (ds : S) (x : Source S) : Registry S :=
  let dk := Dk.timer (clockOf x)
  (r.setDk dk { r.dk dk with
    dkSources := OrderedList.insertBefore (r.isLater x.dsTimer.target) ds
      (r.dk dk).dkSources }).setDs ds
    { x with dsDkev := some dk }

/-- Move a timer that is on the list of `dk`. -/
def requeueTimer (ds : S) (x : Source S) (dk : Dk S) : Registry S :=
  (r.setDk dk { r.dk dk with dkSources := (r.dk dk).dkSources.erase ds }).enqueueTimer ds x

end Registry

/-- What a due timer looks like after it has fired, and what is added to `ds_pending_data`. -/
def Source.fire {S : Type*} (x : Source S) (now : ℕ) : Source S × ℕ :=
  if x.dsTimer.oneshot then ({ x with dsTimer.target := 0, fires := x.fires + 1 }, 1)
  else
    let n := wrap ((now - x.dsTimer.target) / x.dsTimer.interval + 1)
    ({ x with
        dsTimer.target := wrap (x.dsTimer.target + wrap (n * x.dsTimer.interval))
        fires := x.fires + n }, n)

namespace State

variable {S : Type*} [DecidableEq S] (st : Manager S)

/-- `_dispatch_timer_list_update`.  A timer is not registered with the kernel, so the answer
to a registration is not used. -/
def dispatchTimerListUpdate (ds : S) (x : Source S) : Manager S :=
  match x.dsDkev with
  | none => st
  | some _ =>
      let st' := st.dispatchKeventMerge ds x (some 0)
      match st'.reg.ds ds with
      | some x' =>
          match x'.dsDkev with
          | some dk => { st' with reg := st'.reg.requeueTimer ds x' dk }
          | none => st'
      | none => st'

/-- Store what has become of the timer and add its fires to `ds_pending_data`. -/
def fireTimer (ds : S) (x : Source S) (now : ℕ) : Manager S :=
  State.setDel { st with reg := st.reg.setDs ds (x.fire now).1 } ds
    { st.del ds with dsPendingData := wrap ((st.del ds).dsPendingData + (x.fire now).2) }

/-- The body of the loop of `_dispatch_run_timers2`; none if the loop ends. -/
def runTimers (c : Clock) (now : ℕ) : Option (Manager S) :=
  match (st.reg.dk (.timer c)).dkSources.head? with
  | none => none
  | some ds =>
      match st.reg.ds ds with
      | none => none
      | some x =>
          if c.index ≠ x.dsIdentHack then some (st.dispatchTimerListUpdate ds x)
          else if x.dsTimer.target = 0 ∨ x.dsTimer.interval = 0 then none
          else if now < x.dsTimer.target then none
          else some ((st.fireTimer ds x now).dispatchTimerListUpdate ds (x.fire now).1)

/-- `_dispatch_run_timers2` with the clock reading `now`; none if the loop takes more than
`n` turns. -/
def dispatchRunTimers2 (c : Clock) (now : ℕ) : ℕ → Manager S → Option (Manager S)
  | 0, _ => none
  | n + 1, st =>
      match st.runTimers c now with
      | none => some st
      | some st' => dispatchRunTimers2 c now n st'

end State

def adjustInterval (host : Host) (interval : BitVec 64) : BitVec 64 :=
  if interval = 0 then if host.ratio1To1 then 1 else BitVec.ofNat 64 host.fracCeil
  else if interval.msb then BitVec.intMax 64
  else interval

/-- The start as `dispatch_source_set_timer` adjusts it, where `now` is the reading of the
monotonic clock. -/
def adjustStart (start now : BitVec 64) : BitVec 64 :=
  if start = 0 then now
  else if start = BitVec.allOnes 64 then BitVec.intMax 64
  else start

def dispatchSourceSetTimer {S : Type*} (host : Host) (ds : S) (flags : BitVec 64)
    (start interval leeway now : BitVec 64) : SetTimerParams S :=
  let interval := (adjustInterval host interval).toNat
  let start := adjustStart start now
  let leeway := (if leeway.msb then BitVec.intMax 64 else leeway).toNat
  if start.msb then
    ⟨ds, Clock.wall.index, ⟨(-start).toNat, (-start).toNat, interval, leeway, flags ||| 4⟩⟩
  else
    ⟨ds, Clock.mach.index,
      ⟨start.toNat, start.toNat, host.nano2mach interval, host.nano2mach leeway, flags &&& ~~~4⟩⟩

namespace State

variable {S : Type*} [DecidableEq S] (st : Manager S)

def dispatchSourceSetTimer2 (p : SetTimerParams S) : Manager S :=
  match st.reg.ds p.ds with
  | some x =>
      let x' := { x with dsIdentHack := p.ident, dsTimer := p.values, fires := 0 }
      State.dispatchTimerListUpdate { st with reg := st.reg.setDs p.ds x' } p.ds x'
  | none => st

/-! ## Sources -/

def handleOk (host : Host) (handle : ℕ) (mask : BitVec 64) : Filter → Bool
  | .signal => handle < host.nsig
  | .customOr | .customAdd => mask = 0 && handle = 0
  | .fs | .timer => handle = 0
  | _ => true

def newSource (ds : S) (ty : SourceType) (handle : ℕ) (mask : BitVec 64) : Source S :=
  { dsType := ty
    dsDkev := some (.own ds)
    dsIsInstalled := false
    dsPendingDataMask := ty.fflags ||| mask.setWidth 32
    dsIdentHack := handle
    dsTimer := ⟨0, 0, 0, 0, if ty = .timer then mask else 0⟩
    fires := 0 }

def newDelivery (ty : SourceType) : Delivery :=
  let level := ty.flags.evDispatch || ty.flags.evOneshot
  { dsIsLevel := level
    dsNeedsRearm := level || ty = .timer
    dsIsAdder := !level && !ty.flags.evClear }

def dispatchSourceCreate {K : Type*} (st : State S K) (host : Host) (ds : S) (ty : SourceType)
    (handle : ℕ) (mask : BitVec 64) : Option (State S K) :=
  if mask &&& ~~~host.mask ty = 0 ∧ handleOk host handle mask ty.filter ∧
      st.reg.ds ds = none then
    some
      { st with
        reg := (st.reg.setDk (.own ds)
          ⟨handle, ty.filter, ty.fflags ||| mask.setWidth 32, []⟩).setDs ds
            (newSource ds ty handle mask)
        flags := Function.update st.flags (.own ds)
          { ty.flags with evAdd := true, evEnable := true }
        del := Function.update st.del ds (newDelivery ty) }
  else none

/-- `_dispatch_source_invoke` on the manager queue, if it finds something to do there. -/
def dispatchSourceInvoke (ds : S) (x : Source S) (answer : Option ℕ) : Option (Manager S) :=
  if !x.dsIsInstalled then some (st.dispatchKeventMerge ds x answer)
  else if (st.del ds).dsfCanceled ∨ (st.del ds).unreferenced then
    x.dsDkev.map fun dk ↦ st.dispatchKeventRelease ds x dk answer
  else if (st.del ds).dsPendingData = 0 ∧ (st.del ds).dsNeedsRearm ∧ !(st.del ds).dsIsArmed then
    x.dsDkev.map fun dk ↦
      let st' := st.dispatchKeventResume dk answer
      st'.setDel ds { st'.del ds with dsIsArmed := true }
  else none

/-- The kernel reports an event of an enabled knote.  `EV_DISPATCH` disables the knote, and
`EV_ONESHOT` in the event of a process says that it is gone. -/
def deliver (ident : ℕ) (filter : Filter) (evOneshot : Bool) (fflags : BitVec 32) (data : ℕ) :
    Option (Manager S) :=
  match st.kq.knotes ident filter with
  | some x =>
      if x.enabled ∧ (evOneshot → filter = .proc) then
        let x' := if evOneshot then none else some { x with enabled := !x.evDispatch }
        some (State.dispatchSourceDrainKevent
          { st with kq.knotes := setKnote st.kq.knotes ident filter x' } x.udata
          ⟨filter, evOneshot, false, fflags, data⟩)
      else none
  | none => none

/-- The turn of the loop over the descriptors in `_dispatch_mgr_invoke` for a descriptor that
`select()` reports readable. -/
def selectRead (fd : ℕ) : Option (Manager S) :=
  match st.kq.dispatchRfds fd, st.kq.dispatchRfdPtrs fd with
  | true, some dk =>
      some (State.dispatchSourceDrainKevent
        { st with
          kq.dispatchRfds := Function.update st.kq.dispatchRfds fd false
          kq.dispatchRfdPtrs := Function.update st.kq.dispatchRfdPtrs fd none } dk
        ⟨.read, false, false, 0, 1⟩)
  | _, _ => none

def selectWrite (fd : ℕ) : Option (Manager S) :=
  match st.kq.dispatchWfds fd, st.kq.dispatchWfdPtrs fd with
  | true, some dk =>
      some (State.dispatchSourceDrainKevent
        { st with
          kq.dispatchWfds := Function.update st.kq.dispatchWfds fd false
          kq.dispatchWfdPtrs := Function.update st.kq.dispatchWfdPtrs fd none } dk
        ⟨.write, false, false, 0, 1⟩)
  | _, _ => none

end State

/-! ## Runs -/

/-- What can happen.  The answers are those of the kernel to `kevent(2)`. -/
inductive Act (S : Type*)
  | create (ds : S) (ty : SourceType) (handle : ℕ) (mask : BitVec 64)
  | invoke (ds : S) (answer : Option ℕ)
  | latch (ds : S)
  | callout (ds : S)
  | cancel (ds : S)
  | unreference (ds : S)
  | event (ident : ℕ) (filter : Filter) (evOneshot : Bool) (fflags : BitVec 32) (data : ℕ)
  | selectRead (fd : ℕ)
  | selectWrite (fd : ℕ)
  | setTimer (ds : S) (start interval leeway now : BitVec 64)
  | setTimer2 (i : ℕ)
  | runTimers (c : Clock) (now n : ℕ)

variable {S : Type*} [DecidableEq S]

def step (host : Host) (a : Act S) (st : Manager S) : Option (Manager S) :=
  match a with
  | .create ds ty handle mask => st.dispatchSourceCreate host ds ty handle mask
  | .invoke ds answer => (st.reg.ds ds).bind fun x ↦ st.dispatchSourceInvoke ds x answer
  -- `_dispatch_source_latch_and_call`
  | .latch ds => some (st.setDel ds { st.del ds with dsPendingData := 0 })
  -- `_dispatch_source_cancel_callout`
  | .callout ds => (st.reg.ds ds).bind fun x ↦
      if x.dsIsInstalled ∧ ((st.del ds).dsfCanceled ∨ (st.del ds).unreferenced) ∧
        x.dsDkev = none then
        some (State.setDel { st with reg := st.reg.setDs ds { x with dsPendingDataMask := 0 } } ds
          { st.del ds with dsPendingData := 0 })
      else none
  | .cancel ds => some (st.setDel ds { st.del ds with dsfCanceled := true })
  | .unreference ds => some (st.setDel ds { st.del ds with unreferenced := true })
  | .event ident filter evOneshot fflags data => st.deliver ident filter evOneshot fflags data
  | .selectRead fd => st.selectRead fd
  | .selectWrite fd => st.selectWrite fd
  | .setTimer ds start interval leeway now => (st.reg.ds ds).bind fun x ↦
      if x.dsType = .timer then
        some { st with
          params := st.params ++
            [dispatchSourceSetTimer host ds x.dsTimer.flags start interval leeway now] }
      else none
  | .setTimer2 i => st.params[i]?.map fun p ↦
      State.dispatchSourceSetTimer2 { st with params := st.params.eraseIdx i } p
  | .runTimers c now n => State.dispatchRunTimers2 c now n st

def Dk.initial : Dk S → Dkevent S
  | .timer c => ⟨c.index, .timer, 0, []⟩
  | .dataOr => ⟨0, .customOr, 0, []⟩
  | .dataAdd => ⟨0, .customAdd, 0, []⟩
  | .own _ => ⟨0, .read, 0, []⟩

def initialSources : ℕ → List (Dk S)
  | 0 => [.timer .wall, .dataOr, .dataAdd]
  | 1 => [.timer .mach]
  | _ => []

/-- The state before there is a source, over an event queue with these knotes. -/
def initialOver {K : Type*} (knotes : K) : State S K where
  reg := ⟨initialSources, Dk.initial, fun _ ↦ none⟩
  flags dk := if dk = .dataOr then { evClear := true } else {}
  del _ := {}
  kq := ⟨knotes, false, fun _ ↦ false, fun _ ↦ false, fun _ ↦ none, fun _ ↦ none⟩
  params := []

def initial : Manager S := initialOver fun _ _ ↦ none

def Runs (host : Host) (C : Manager S → Act S → Prop) : Manager S → Prop :=
  Interleaving.Sequence.Runs (step host) C initial

end LibDispatch.Kevent
