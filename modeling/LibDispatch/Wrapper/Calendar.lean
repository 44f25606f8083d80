import LibDispatch.Calendar.LocalTime
import LibDispatch.Wrapper.Delay

/-!
# Calendar times of the C++ library

In both conversions `time( NULL )` is not a call: within the namespace `xdispatch` the name stands
for a type, and the expression is zero.  So `as_dispatch_time` takes a calendar time for the time
that has passed since the epoch and adds all of it to the present reading of the monotonic clock,
and `as_struct_tm` adds a whole reading to the epoch.  What comes back is late by the time that the
monotonic clock has run.
-/

namespace LibDispatch.Wrapper.Calendar

open LibDispatch.Calendar (Tm Zone)
open Time (Clocks now forever nsecPerSec)

def toInt32 (x : BitVec 64) : ℤ := (x.setWidth 32).toInt

/-- `time( NULL )`, a conversion to the type `xdispatch::time`. -/
def timeOfNull : ℤ := 0

/-- The difference and its product are those of numbers, not of doubles.  A product that is not in
the range of `uint64_t` has no conversion. -/
def asDispatchTime (zone : Zone) (clocks : Clocks) (t : Tm) : Option (BitVec 64) :=
  let diff := zone.mktime t - timeOfNull
  if diff < 0 then some (asDelayedTime clocks 0 now)
  else if diff * nsecPerSec.toNat < 2 ^ 64 then
    some (asDelayedTime clocks (BitVec.ofInt 64 (diff * nsecPerSec.toNat)) now)
  else none

def asStructTm (zone : Zone) (t : BitVec 64) : Tm :=
  let res := zone.localtime timeOfNull
  let hours := toInt32 (t / (3600 * nsecPerSec))
  let dtt := t % (3600 * nsecPerSec)
  let minutes := toInt32 (dtt / (60 * nsecPerSec))
  let dtt := dtt % (60 * nsecPerSec)
  let seconds := toInt32 (dtt / nsecPerSec)
  { res with
    tmHour := res.tmHour + hours
    tmMin := res.tmMin + minutes
    tmSec := res.tmSec + seconds }

section Fields

variable {x y : BitVec 64}

theorem toInt32_of_lt (h : x.toNat < 2 ^ 31) : toInt32 x = x.toNat := by
  have hnat : (x.setWidth 32).toNat = x.toNat := by
    rw [BitVec.toNat_setWidth]
    omega
  rw [toInt32, BitVec.toInt_eq_toNat_of_lt (by omega), hnat]

theorem toInt32_div (h : x.toNat < 2 ^ 31 * y.toNat) :
    toInt32 (x / y) = (x.toNat / y.toNat : ℕ) := by
  have hlt : x.toNat / y.toNat < 2 ^ 31 := Nat.div_lt_of_lt_mul (by omega)
  rw [toInt32_of_lt (by rwa [BitVec.toNat_udiv]), BitVec.toNat_udiv]

end Fields

theorem mktime_asStructTm (zone : Zone) (t : BitVec 64) :
    zone.mktime (asStructTm zone t) = (t.toNat / 1000000000 : ℕ) := by
  have hlt := t.isLt
  have hhour : (3600 * nsecPerSec).toNat = 3600000000000 := rfl
  have hminute : (60 * nsecPerSec).toNat = 60000000000 := rfl
  have hsecond : nsecPerSec.toNat = 1000000000 := rfl
  have hrest : (t % (3600 * nsecPerSec)).toNat = t.toNat % 3600000000000 := by
    rw [BitVec.toNat_umod, hhour]
  have hrest' : (t % (3600 * nsecPerSec) % (60 * nsecPerSec)).toNat =
      t.toNat % 3600000000000 % 60000000000 := by
    rw [BitVec.toNat_umod, hrest, hminute]
  rw [asStructTm, zone.mktime_carry, zone.mktime_localtime, toInt32_div (by omega),
    toInt32_div (by omega), toInt32_div (by omega), hrest', hrest, hhour, hminute, hsecond,
    timeOfNull]
  omega

section Word

variable {zone : Zone} {clocks : Clocks} {t : Tm} {n : ℕ}

theorem asDispatchTime_of_nat (h : zone.mktime t = n) :
    asDispatchTime zone clocks t =
      if n * 1000000000 < 2 ^ 64 then
        some (asDelayedTime clocks (BitVec.ofNat 64 (n * 1000000000)) now)
      else none := by
  have hproduct : (zone.mktime t - timeOfNull) * nsecPerSec.toNat = (n * 1000000000 : ℕ) := by
    have hsecond : nsecPerSec.toNat = 1000000000 := rfl
    rw [h, timeOfNull, sub_zero, hsecond, Int.natCast_mul]
  have hdiff : ¬ zone.mktime t - timeOfNull < 0 := by
    rw [h, timeOfNull]
    omega
  rw [asDispatchTime, if_neg hdiff, hproduct, BitVec.ofInt_natCast]
  split <;> split <;> first | rfl | omega

/-- The seconds of the milestone are those that were asked for while the monotonic clock is in its
first second, unless the reading at that time is not represented. -/
theorem seconds_asDelayedTime (hfits : n * 1000000000 < 2 ^ 64) :
    (asDelayedTime clocks (BitVec.ofNat 64 (n * 1000000000)) now).toNat / 1000000000 = n ↔
      clocks.absolute.toNat < 1000000000 ∧ 0 < clocks.absolute.toNat + n * 1000000000 ∧
      clocks.absolute.toNat + n * 1000000000 < 2 ^ 63 := by
  have habsolute := clocks.absolute.isLt
  set delay := BitVec.ofNat 64 (n * 1000000000) with hdelay
  have hnat : delay.toNat = n * 1000000000 := by
    rw [hdelay, BitVec.toNat_ofNat, Nat.mod_eq_of_lt hfits]
  have hsum : (clocks.absolute + delay).toNat =
      (clocks.absolute.toNat + n * 1000000000) % 2 ^ 64 := by
    rw [BitVec.toNat_add, hnat]
  have hcond := BitVec.toInt_eq_toNat_cond (clocks.absolute + delay)
  have hint := BitVec.toInt_eq_toNat_cond delay
  by_cases hsmall : n * 1000000000 < 2 ^ 63
  · rw [asDelayedTime_nonneg (by split at hint <;> omega)]
    split
    · have hforever : forever.toNat / 1000000000 = 18446744073 := rfl
      rw [hforever]
      split at hcond <;> omega
    · split at hcond <;> omega
  · -- `dispatch_time` takes the delay for a negative one
    rw [asDelayedTime_neg (by split at hint <;> omega)]
    split
    · have hone : (1 : BitVec 64).toNat / 1000000000 = 0 := rfl
      rw [hone]
      omega
    · split at hcond <;> omega

end Word

/-- The calendar time comes back exactly if it is not before the epoch, the monotonic clock is
in its
first second, and the reading that many seconds later is represented. -/
theorem calendar_roundTrip_iff (zone : Zone) (clocks : Clocks) (t : Tm) :
    (asDispatchTime zone clocks t).map (fun word ↦ zone.mktime (asStructTm zone word)) =
        some (zone.mktime t) ↔
      0 ≤ zone.mktime t ∧ clocks.absolute.toNat < 1000000000 ∧
      0 < clocks.absolute.toNat + zone.mktime t * 1000000000 ∧
      clocks.absolute.toNat + zone.mktime t * 1000000000 < 2 ^ 63 := by
  simp only [mktime_asStructTm]
  rcases lt_or_ge (zone.mktime t) 0 with hneg | hnonneg
  · have hword : asDispatchTime zone clocks t = some (asDelayedTime clocks 0 now) :=
      if_pos (by simpa [timeOfNull] using hneg)
    rw [hword, Option.map_some, Option.some.injEq]
    omega
  · obtain ⟨n, hn⟩ := Int.eq_ofNat_of_zero_le hnonneg
    rw [asDispatchTime_of_nat hn, hn]
    split
    case isTrue hfits =>
      rw [Option.map_some, Option.some.injEq, Int.natCast_inj, seconds_asDelayedTime hfits]
      omega
    case isFalse hlarge =>
      rw [Option.map_none]
      refine iff_of_false nofun ?_
      omega

def noon : Tm := ⟨0, 0, 12, 16, 10, 126⟩

/-- When the monotonic clock has run for an hour, the calendar time comes back an hour later. -/
theorem calendar_late :
    let zone := Zone.ahead 3600
    let clocks : Clocks := ⟨0, 3600000000000, ⟨0, 0⟩⟩
    zone.mktime noon = 1794826800 ∧
    asDispatchTime zone clocks noon = some 1794830400000000000 ∧
    asStructTm zone 1794830400000000000 = ⟨0, 0, 498565, 1, 0, 70⟩ ∧
    zone.mktime (asStructTm zone 1794830400000000000) = 1794830400 := by
  decide

end LibDispatch.Wrapper.Calendar
