import LibDispatch.Kevent.Model
import Mathlib.Algebra.Order.Floor.Ring
import Mathlib.Data.Rat.Floor

/-!
# Milestones

A `dispatch_time_t` is one word for two clocks.  Negative values are negated nanoseconds of the
wall clock, positive ones are a reading of the monotonic clock; zero means now and all ones
never.
-/

namespace LibDispatch.Time

open Kevent (Clock)

def forever : BitVec 64 := BitVec.allOnes 64

def now : BitVec 64 := 0

def nsecPerSec : BitVec 64 := 1000000000

structure Timespec where
  tvSec : BitVec 64
  tvNsec : BitVec 64
  deriving DecidableEq

/-- The readings of `_dispatch_get_nanoseconds`, of `_dispatch_absolute_time` and of
`CLOCK_REALTIME` at one instant. -/
structure Clocks where
  nanoseconds : BitVec 64
  absolute : BitVec 64
  realtime : Timespec

/-! ## The unit of the monotonic clock -/

/-- `_dispatch_host_time_data`, where `frac` is the length of a tick in nanoseconds. -/
structure HostTimeData where
  frac : ℚ
  ratio1To1 : Bool
  deriving DecidableEq

/-- What `_dispatch_get_host_time_init` stores where the monotonic clock counts nanoseconds. -/
def hostTimeInit : HostTimeData := ⟨1, true⟩

def dispatchTimeMach2nano (data : HostTimeData) (machtime : BitVec 64) : BitVec 64 :=
  BitVec.ofInt 64 ⌊machtime.toNat * data.frac⌋

def dispatchTimeNano2mach (data : HostTimeData) (nsec : BitVec 64) : BitVec 64 :=
  if data.ratio1To1 then nsec
  else
    let bigTmp : ℚ := nsec.toInt / data.frac
    if bigTmp > (BitVec.intMax 64).toInt then BitVec.intMax 64
    else if bigTmp < (BitVec.intMin 64).toInt then BitVec.intMin 64
    -- the conversion to an integer rounds toward zero
    else BitVec.ofInt 64 (bigTmp.num.tdiv bigTmp.den)

/-! ## Making milestones -/

def dispatchTime (data : HostTimeData) (clocks : Clocks) (inval delta : BitVec 64) : BitVec 64 :=
  if inval = forever then forever
  else if inval.toInt < 0 then
    if 0 ≤ delta.toInt then
      if 0 ≤ (inval - delta).toInt then forever else inval - delta
    else if -1 ≤ (inval - delta).toInt then -2
    else inval - delta
  else
    let delta := dispatchTimeNano2mach data delta
    let inval := if inval = 0 then clocks.absolute else inval
    if 0 ≤ delta.toInt then
      if (inval + delta).toInt ≤ 0 then forever else inval + delta
    else if (inval + delta).toInt < 1 then 1
    else inval + delta

/-- The time as one number of nanoseconds, which may wrap. -/
def Timespec.nsec (ts : Timespec) : BitVec 64 := ts.tvSec * nsecPerSec + ts.tvNsec

def dispatchWalltime (clocks : Clocks) (inval : Option Timespec) (delta : BitVec 64) : BitVec 64 :=
  let nsec := match inval with
    | some ts => ts.nsec
    | none => clocks.nanoseconds
  if (nsec + delta).toInt ≤ 1 then if 0 ≤ delta.toInt then forever else -2
  else -(nsec + delta)

/-! ## Waiting for milestones -/

/-- How long it takes until `when`, in nanoseconds. -/
def dispatchTimeout (data : HostTimeData) (clocks : Clocks) (when : BitVec 64) : BitVec 64 :=
  if when = forever then forever
  else if when = 0 then 0
  else if when.toInt < 0 then
    if -when ≤ clocks.nanoseconds then 0 else -when - clocks.nanoseconds
  else if when ≤ clocks.absolute then 0
  else dispatchTimeMach2nano data (when - clocks.absolute)

def Timespec.ofNsec (nsec : BitVec 64) : Timespec := ⟨nsec / nsecPerSec, nsec % nsecPerSec⟩

/-- The time of `CLOCK_REALTIME` for `sem_timedwait`. -/
def dispatchTimeoutTs (clocks : Clocks) (when : BitVec 64) : Timespec :=
  if when = 0 then clocks.realtime
  else if when.toInt < 0 then .ofNsec (-when + clocks.realtime.nsec)
  else .ofNsec (clocks.realtime.nsec + (when - clocks.absolute))

/-! ## What a milestone denotes -/

/-- A point in time on one of the clocks, in nanoseconds, or the end of all times. -/
inductive Instant
  | forever
  | on (clock : Clock) (value : ℤ)
  deriving DecidableEq

def instant (time : BitVec 64) : Instant :=
  if time = forever then .forever
  else if time.toInt < 0 then .on .wall (-time.toInt)
  else .on .mach time.toInt

def least : Clock → ℤ
  | .wall => 2
  | .mach => 1

def greatest : Clock → ℤ
  | .wall => 2 ^ 63
  | .mach => 2 ^ 63 - 1

end LibDispatch.Time
