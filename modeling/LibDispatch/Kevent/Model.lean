import Mathlib.Data.BitVec
import Mathlib.Data.List.Nodup
import Mathlib.Logic.Function.Basic
import Mathlib.Order.Nat
import Mathlib.Tactic.Common

/-!
# Sources and the kernel

The manager thread keeps one `dispatch_kevent_s` for each pair of an identifier and a filter
that some source monitors, on a hash table, with the list of the sources that share it.
Timers and custom data sources share kevents that are allocated statically and never
registered with it; the two lists of timers are ordered by their next fire.
Everything here runs on the manager thread.  A descriptor that the event queue refuses is
watched with `select()`.  The event queue itself, that of the kernel or that of a library, is a
parameter.
-/

namespace LibDispatch.Kevent

inductive Filter
  | read
  | write
  | proc
  | signal
  | vnode
  | fs
  | timer
  | customAdd
  | customOr
  deriving DecidableEq

/-- The sources of these filters live on statically allocated lists. -/
def Filter.isStatic : Filter → Bool
  | .timer | .customAdd | .customOr => true
  | _ => false

/-- The flags of a kevent that the library sets or reads. -/
structure Flags where
  evAdd : Bool := false
  evDelete : Bool := false
  evEnable : Bool := false
  evOneshot : Bool := false
  evClear : Bool := false
  evDispatch : Bool := false
  deriving DecidableEq

inductive SourceType
  | timer
  | read
  | write
  | proc
  | signal
  | vnode
  | vfs
  | dataAdd
  | dataOr
  deriving DecidableEq

namespace SourceType

def filter : SourceType → Filter
  | timer => .timer
  | read => .read
  | write => .write
  | proc => .proc
  | signal => .signal
  | vnode => .vnode
  | vfs => .fs
  | dataAdd => .customAdd
  | dataOr => .customOr

def flags : SourceType → Flags
  | read | write => { evDispatch := true }
  | proc | vnode | vfs | dataOr => { evClear := true }
  | timer | signal | dataAdd => {}

def fflags : SourceType → BitVec 32
  | dataOr => BitVec.allOnes 32
  | _ => 0

end SourceType

/-- What the library finds on the system it is compiled for: how many signals there are, which
bits the masks of three source types have, and how nanoseconds are converted to the unit of
the monotonic clock. -/
structure Host where
  nsig : ℕ
  procMask : BitVec 64
  vnodeMask : BitVec 64
  vfsMask : BitVec 64
  ratio1To1 : Bool
  fracCeil : ℕ
  nano2mach : ℕ → ℕ

def Host.mask (host : Host) : SourceType → BitVec 64
  | .timer => 7
  | .proc => host.procMask
  | .vnode => host.vnodeMask
  | .vfs => host.vfsMask
  | _ => 0

inductive Clock
  | wall
  | mach
  deriving DecidableEq

/-- `DISPATCH_TIMER_INDEX_WALL` and `DISPATCH_TIMER_INDEX_MACH`. -/
def Clock.index : Clock → ℕ
  | wall => 0
  | mach => 1

/-- A pointer to a `dispatch_kevent_s`: one of the static ones, or the one allocated together
with a source. -/
inductive Dk (S : Type*)
  | timer (c : Clock)
  | dataOr
  | dataAdd
  | own (ds : S)
  deriving DecidableEq

/-- A `dispatch_kevent_s`, except for the flags. -/
structure Dkevent (S : Type*) where
  ident : ℕ
  filter : Filter
  fflags : BitVec 32
  dkSources : List S
  deriving DecidableEq

/-- A `dispatch_timer_source_s`. -/
structure Timer where
  target : ℕ
  start : ℕ
  interval : ℕ
  leeway : ℕ
  flags : BitVec 64
  deriving DecidableEq

def Timer.wallClock (x : Timer) : Bool := x.flags &&& 4 ≠ 0

/-- `DISPATCH_TIMER_ONESHOT` or `DISPATCH_TIMER_ABSOLUTE` is set. -/
def Timer.oneshot (x : Timer) : Bool := x.flags &&& 3 ≠ 0

/-- The fields of a source that say where it is registered.  The type is not stored in a
source, but in what its fields were initialised to.  The last field is history: what has been
added to `ds_pending_data` since the timer was set. -/
structure Source (S : Type*) where
  dsType : SourceType
  dsDkev : Option (Dk S)
  dsIsInstalled : Bool
  dsPendingDataMask : BitVec 32
  dsIdentHack : ℕ
  dsTimer : Timer
  fires : ℕ
  deriving DecidableEq

/-- The fields of a source that its events change.  The last two say that `DSF_CANCELED` is
set and that `do_xref_cnt` is 0. -/
structure Delivery where
  dsIsLevel : Bool := false
  dsIsAdder : Bool := false
  dsNeedsRearm : Bool := false
  dsIsArmed : Bool := false
  dsPendingData : ℕ := 0
  dsfCanceled : Bool := false
  unreferenced : Bool := false
  deriving DecidableEq

/-! ## The hash table -/

def dslHashSize : ℕ := 256

def dispatchKeventHash (ident : ℕ) (_filter : Filter) : ℕ := ident &&& (dslHashSize - 1)

/-- The table `_dispatch_sources`, the kevents and the sources. -/
structure Registry (S : Type*) where
  dispatchSources : ℕ → List (Dk S)
  dk : Dk S → Dkevent S
  ds : S → Option (Source S)

namespace Registry

variable {S : Type*} [DecidableEq S] (r : Registry S)

def dispatchKeventFind (ident : ℕ) (filter : Filter) : Option (Dk S) :=
  (r.dispatchSources (dispatchKeventHash ident filter)).find? fun dki ↦
    (r.dk dki).ident = ident ∧ (r.dk dki).filter = filter

def dispatchKeventInsert (dk : Dk S) : Registry S :=
  let hash := dispatchKeventHash (r.dk dk).ident (r.dk dk).filter
  { r with
    dispatchSources := Function.update r.dispatchSources hash (r.dispatchSources hash ++ [dk]) }

def setDk (dk : Dk S) (x : Dkevent S) : Registry S := { r with dk := Function.update r.dk dk x }

def setDs (ds : S) (x : Source S) : Registry S :=
  { r with ds := Function.update r.ds ds (some x) }

@[simp] theorem setDk_dk_self (dk : Dk S) (x : Dkevent S) : (r.setDk dk x).dk dk = x := by
  simp [setDk]

@[simp] theorem setDk_dk_of_ne {dk dk' : Dk S} (h : dk' ≠ dk) (x : Dkevent S) :
    (r.setDk dk x).dk dk' = r.dk dk' := by
  simp [setDk, h]

@[simp] theorem setDk_ds (dk : Dk S) (x : Dkevent S) : (r.setDk dk x).ds = r.ds := rfl

@[simp] theorem setDk_dispatchSources (dk : Dk S) (x : Dkevent S) :
    (r.setDk dk x).dispatchSources = r.dispatchSources := rfl

@[simp] theorem setDs_ds_self (ds : S) (x : Source S) : (r.setDs ds x).ds ds = some x := by
  simp [setDs]

@[simp] theorem setDs_ds_of_ne {ds ds' : S} (h : ds' ≠ ds) (x : Source S) :
    (r.setDs ds x).ds ds' = r.ds ds' := by
  simp [setDs, h]

@[simp] theorem setDs_dk (ds : S) (x : Source S) : (r.setDs ds x).dk = r.dk := rfl

@[simp] theorem setDs_dispatchSources (ds : S) (x : Source S) :
    (r.setDs ds x).dispatchSources = r.dispatchSources := rfl

def attach (ds : S) (x : Source S) (dk : Dk S) : Registry S :=
  (r.setDk dk { r.dk dk with dkSources := (r.dk dk).dkSources ++ [ds] }).setDs ds
    { x with dsIsInstalled := true, dsDkev := some dk }

/-- The part of `_dispatch_kevent_merge` that changes the registration: the new registry, the
kevent of the source, and whether the kevent has to be registered again. -/
def merge (ds : S) (x : Source S) (own : Dk S) : Registry S × Dk S × Bool :=
  match r.dispatchKeventFind (r.dk own).ident (r.dk own).filter with
  | some dk =>
      ((r.setDk dk { r.dk dk with fflags := (r.dk dk).fflags ||| (r.dk own).fflags }).attach
        ds x dk, dk, ~~~(r.dk dk).fflags &&& (r.dk own).fflags ≠ 0)
  | none => ((r.dispatchKeventInsert own).attach ds x own, own, true)

def detach (ds : S) (x : Source S) (dk : Dk S) : Registry S :=
  (r.setDk dk { r.dk dk with dkSources := (r.dk dk).dkSources.erase ds }).setDs ds
    { x with dsDkev := none }

def remove (dk : Dk S) : Registry S :=
  let hash := dispatchKeventHash (r.dk dk).ident (r.dk dk).filter
  { r with
    dispatchSources := Function.update r.dispatchSources hash
      ((r.dispatchSources hash).erase dk) }

def pendingDataMask (ds : S) : BitVec 32 := ((r.ds ds).map Source.dsPendingDataMask).getD 0

def fflagsOf (l : List S) : BitVec 32 := l.foldl (fun fflags ds ↦ fflags ||| r.pendingDataMask ds) 0

end Registry

/-! ## The event queue -/

/-- What is watched with `select()`, and the knotes of the event queue. -/
structure Kq (S K : Type*) where
  knotes : K
  dispatchSelectWorkaround : Bool
  dispatchRfds : ℕ → Bool
  dispatchWfds : ℕ → Bool
  dispatchRfdPtrs : ℕ → Option (Dk S)
  dispatchWfdPtrs : ℕ → Option (Dk S)

/-- A change that is made to the event queue. -/
structure Change (S : Type*) where
  ident : ℕ
  filter : Filter
  flags : Flags
  fflags : BitVec 32
  udata : Dk S

/-- What a receipt says apart from the change that it is for. -/
structure Receipt where
  data : ℕ
  evError : Bool

/-- An event queue with knotes of type `K`: what `kevent()` does with one change, `EV_RECEIPT`
and room for the receipt, which is missing if the call itself fails.  How the system answers is
of type `A`. -/
class EventQueue (S K : Type*) (A : outParam (Type*)) where
  kevent : K → Change S → A → K × Option Receipt

def ENOENT : ℕ := 2
def ESRCH : ℕ := 3
def EBADF : ℕ := 9

/-- An event as it reaches the sources; an error has its number in `data`. -/
structure Event where
  filter : Filter
  evOneshot : Bool
  evError : Bool
  fflags : BitVec 32
  data : ℕ

def NOTE_EXIT : BitVec 32 := 0x80000000

/-- The event that a source gets to see: none for an unexpected error, an exit event for a
process that is a zombie. -/
def Event.seen (ke : Event) : Option Event :=
  if ke.evError then
    if ke.filter = .proc ∧ ke.data = ESRCH then
      some { ke with evError := false, fflags := NOTE_EXIT, data := 0 }
    else none
  else some ke

def wrap (n : ℕ) : ℕ := n % 2 ^ 64

def Delivery.pendingData (x : Delivery) (mask : BitVec 32) (ke : Event) : ℕ :=
  if x.dsIsLevel then 2 ^ 64 - 1 - ke.data
  else if x.dsIsAdder then wrap (x.dsPendingData + ke.data)
  else x.dsPendingData ||| (ke.fflags &&& mask).toNat

def dispatchSourceMergeKevent (x : Delivery) (mask : BitVec 32) (ke : Event) : Delivery :=
  if x.dsfCanceled ∨ x.unreferenced then x
  else
    match ke.seen with
    | some ke =>
        { x with
          dsPendingData := x.pendingData mask ke
          dsIsArmed := x.dsIsArmed && !x.dsNeedsRearm }
    | none => x

/-- The parameters of a call of `_dispatch_source_set_timer2` that waits on the manager
queue. -/
structure SetTimerParams (S : Type*) where
  ds : S
  ident : ℕ
  values : Timer

structure State (S K : Type*) where
  reg : Registry S
  flags : Dk S → Flags
  del : S → Delivery
  kq : Kq S K
  params : List (SetTimerParams S)

namespace State

variable {S K A : Type*} [DecidableEq S] (st : State S K)

def setFlags (dk : Dk S) (x : Flags) : State S K :=
  { st with flags := Function.update st.flags dk x }

def setDel (ds : S) (x : Delivery) : State S K := { st with del := Function.update st.del ds x }

def dispatchSourceDrainKevent (dk : Dk S) (ke : Event) : State S K :=
  { st with
    flags := Function.update st.flags dk
      { st.flags dk with evOneshot := (st.flags dk).evOneshot || ke.evOneshot }
    del := fun ds ↦
      if ds ∈ (st.reg.dk dk).dkSources then
        dispatchSourceMergeKevent (st.del ds) (st.reg.pendingDataMask ds) ke
      else st.del ds }

def change (dk : Dk S) : Change S :=
  ⟨(st.reg.dk dk).ident, (st.reg.dk dk).filter, st.flags dk, (st.reg.dk dk).fflags, dk⟩

/-- A registration that was refused: a descriptor is watched with `select()`, other sources are
told. -/
def registrationFailed (dk : Dk S) (receipt : Receipt) : State S K :=
  let ident := (st.reg.dk dk).ident
  match (st.reg.dk dk).filter with
  | .read =>
      { st with
        kq.dispatchSelectWorkaround := true
        kq.dispatchRfds := Function.update st.kq.dispatchRfds ident true
        kq.dispatchRfdPtrs := Function.update st.kq.dispatchRfdPtrs ident (some dk) }
  | .write =>
      { st with
        kq.dispatchSelectWorkaround := true
        kq.dispatchWfds := Function.update st.kq.dispatchWfds ident true
        kq.dispatchWfdPtrs := Function.update st.kq.dispatchWfdPtrs ident (some dk) }
  | filter =>
      st.dispatchSourceDrainKevent dk
        ⟨filter, (st.flags dk).evOneshot, receipt.evError, (st.reg.dk dk).fflags, receipt.data⟩

variable [EventQueue S K A]

/-- The call of `kevent()` in `_dispatch_update_kq` and what follows it. -/
def changeKq (dk : Dk S) (answer : A) : State S K :=
  let r := EventQueue.kevent st.kq.knotes (st.change dk) answer
  let st' := { st with kq.knotes := r.1 }
  match r.2 with
  | none => st'
  | some receipt =>
      -- only a registration falls back to `select()`
      if (st.flags dk).evAdd then
        if receipt.data = 0 ∨ receipt.data = EBADF then st' else st'.registrationFailed dk receipt
      else st'

/-- `_dispatch_update_kq`.  The case of `EVFILT_READ` falls through to the next one. -/
def dispatchUpdateKq (dk : Dk S) (answer : A) : State S K :=
  let ident := (st.reg.dk dk).ident
  let filter := (st.reg.dk dk).filter
  if (st.flags dk).evDelete ∧ filter = .read ∧ st.kq.dispatchRfds ident then
    { st with
      kq.dispatchRfds := Function.update st.kq.dispatchRfds ident false
      kq.dispatchRfdPtrs := Function.update st.kq.dispatchRfdPtrs ident none }
  else if (st.flags dk).evDelete ∧ (filter = .read ∨ filter = .write) ∧
      st.kq.dispatchWfds ident then
    { st with
      kq.dispatchWfds := Function.update st.kq.dispatchWfds ident false
      kq.dispatchWfdPtrs := Function.update st.kq.dispatchWfdPtrs ident none }
  else st.changeKq dk answer

/-! ## Registering sources -/

/-- The default case of `_dispatch_kevent_resume`. -/
def resumeKq (dk : Dk S) (answer : A) : State S K :=
  let st' := st.dispatchUpdateKq dk answer
  if (st'.flags dk).evDispatch then st'.setFlags dk { st'.flags dk with evAdd := false } else st'

def dispatchKeventResume (dk : Dk S) (answer : A) : State S K :=
  match (st.reg.dk dk).filter with
  | .timer | .customAdd | .customOr => st
  | .proc => if (st.flags dk).evOneshot then st else st.resumeKq dk answer
  | _ => st.resumeKq dk answer

/-- Register the kevent of a new source with the kernel. -/
def registerNew (ds : S) (dk : Dk S) (answer : A) : State S K :=
  let st' := (st.setFlags dk { st.flags dk with evAdd := true }).dispatchKeventResume dk answer
  st'.setDel ds { st'.del ds with dsIsArmed := true }

def dispatchKeventMerge (ds : S) (x : Source S) (answer : A) : State S K :=
  match x.dsIsInstalled, x.dsDkev with
  | false, some own =>
      let r := st.reg.merge ds x own
      if r.2.2 then State.registerNew { st with reg := r.1 } ds r.2.1 answer
      else { st with reg := r.1 }
  | _, _ => st

/-- Delete the knote of a kevent that no source uses. -/
def deleteKq (dk : Dk S) (answer : A) : State S K :=
  if (st.flags dk).evDelete then st
  else (st.setFlags dk { st.flags dk with evDelete := true }).dispatchUpdateKq dk answer

def dispatchKeventDispose (dk : Dk S) (answer : A) : State S K :=
  match (st.reg.dk dk).filter with
  | .timer | .customAdd | .customOr => st
  | .proc =>
      let st' := if (st.flags dk).evOneshot then st else st.deleteKq dk answer
      { st' with reg := st'.reg.remove dk }
  | _ =>
      let st' := st.deleteKq dk answer
      { st' with reg := st'.reg.remove dk }

/-- What `_dispatch_kevent_release` does with a kevent after a source with this mask has left
its list. -/
def releaseKevent (dk : Dk S) (mask : BitVec 32) (answer : A) : State S K :=
  let l := (st.reg.dk dk).dkSources
  let fflags := st.reg.fflagsOf l
  if l = [] then st.dispatchKeventDispose dk answer
  else if mask &&& ~~~fflags ≠ 0 then
    State.dispatchKeventResume
      { st with
        flags := Function.update st.flags dk { st.flags dk with evAdd := true }
        reg := st.reg.setDk dk { st.reg.dk dk with fflags := fflags } } dk answer
  else st

def dispatchKeventRelease (ds : S) (x : Source S) (dk : Dk S) (answer : A) : State S K :=
  let st' := State.releaseKevent { st with reg := st.reg.detach ds x dk } dk x.dsPendingDataMask
    answer
  st'.setDel ds { st'.del ds with dsIsArmed := false, dsNeedsRearm := false }

end State

end LibDispatch.Kevent
