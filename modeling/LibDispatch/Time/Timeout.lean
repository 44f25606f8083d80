import LibDispatch.After.Model
import LibDispatch.Time.Saturation

/-!
# Waiting until a milestone

`_dispatch_timeout` says how long it takes until a milestone, and `_dispatch_timeout_ts` at
which time of the realtime clock it comes.  The second one adds the reading of that clock to a
time of the wall clock, which is a reading of the same clock already.
-/

namespace LibDispatch.Time

def Made (when : BitVec 64) : Prop :=
  ∃ clocks delta, (∃ inval, when = dispatchTime hostTimeInit clocks inval delta) ∨
    ∃ inval, when = dispatchWalltime clocks inval delta

/-- Readings at one instant, of clocks that count from their beginning. -/
structure Clocks.Coherent (clocks : Clocks) : Prop where
  realtime_valid : clocks.realtime.Valid
  realtime_eq : clocks.realtime.value = clocks.nanoseconds.toNat
  nanoseconds_lt : clocks.nanoseconds.toNat < 2 ^ 63
  absolute_lt : clocks.absolute.toNat < 2 ^ 63

/-- The deadline on the realtime clock and the time until the milestone are the same. -/
structure Agree (clocks : Clocks) (when : BitVec 64) : Prop where
  nsec_nonneg : 0 ≤ (dispatchTimeoutTs clocks when).tvNsec.toInt
  nsec_lt : (dispatchTimeoutTs clocks when).tvNsec.toInt < 1000000000
  ahead : dispatchTimeout hostTimeInit clocks when ≠ 0 ∨
      clocks.nanoseconds.toNat < (dispatchTimeoutTs clocks when).value →
    (dispatchTimeoutTs clocks when).value =
      clocks.nanoseconds.toNat + (dispatchTimeout hostTimeInit clocks when).toNat
  past : dispatchTimeout hostTimeInit clocks when = 0 →
    (dispatchTimeoutTs clocks when).value ≤ clocks.nanoseconds.toNat

theorem dispatchWalltime_ne_now (clocks : Clocks) (inval : Option Timespec) (delta : BitVec 64) :
    dispatchWalltime clocks inval delta ≠ now := by
  have hne : ∀ nsec : BitVec 64,
      (if nsec.toInt ≤ 1 then if 0 ≤ delta.toInt then forever else -2 else -nsec) ≠ now := by
    intro nsec
    split
    · split <;> decide
    · rename_i hpos
      intro heq
      rw [show nsec = now from neg_eq_zero.mp heq] at hpos
      exact hpos (by decide)
  cases inval with
  | none => exact hne _
  | some ts => exact hne _

theorem Made.ne_now {when : BitVec 64} (h : Made when) : when ≠ now := by
  obtain ⟨clocks, delta, ⟨inval, rfl⟩ | ⟨inval, rfl⟩⟩ := h
  · exact dispatchTime_ne_now _ _ _ _
  · exact dispatchWalltime_ne_now _ _ _

theorem mach2nano_hostTimeInit (x : BitVec 64) : dispatchTimeMach2nano hostTimeInit x = x := by
  have hfloor : ⌊(x.toNat : ℚ) * 1⌋ = x.toNat := by
    rw [mul_one]
    exact Int.floor_natCast _
  rw [dispatchTimeMach2nano, hostTimeInit, hfloor, BitVec.ofInt_natCast, BitVec.ofNat_toNat,
    BitVec.setWidth_eq]

section OfNsec

variable (nsec : BitVec 64)

theorem toInt_tvSec_ofNsec : (Timespec.ofNsec nsec).tvSec.toInt = nsec.toNat / 1000000000 := by
  have hdiv : (Timespec.ofNsec nsec).tvSec.toNat = nsec.toNat / 1000000000 := rfl
  have hlt := nsec.isLt
  rw [BitVec.toInt_eq_toNat_of_lt (by omega), hdiv]
  rfl

theorem toInt_tvNsec_ofNsec : (Timespec.ofNsec nsec).tvNsec.toInt = nsec.toNat % 1000000000 := by
  have hmod : (Timespec.ofNsec nsec).tvNsec.toNat = nsec.toNat % 1000000000 := rfl
  rw [BitVec.toInt_eq_toNat_of_lt (by omega), hmod]
  rfl

theorem value_ofNsec : (Timespec.ofNsec nsec).value = nsec.toNat := by
  rw [Timespec.value, toInt_tvSec_ofNsec, toInt_tvNsec_ofNsec]
  omega

end OfNsec

variable {clocks : Clocks} {when : BitVec 64}

theorem Clocks.Coherent.nsec_eq (h : clocks.Coherent) :
    clocks.realtime.nsec = clocks.nanoseconds := by
  have hlt := h.nanoseconds_lt
  apply BitVec.eq_of_toInt_eq
  rw [toInt_nsec, h.realtime_eq, Int.bmod_eq_of_le (by omega) (by omega),
    BitVec.toInt_eq_toNat_of_lt (by omega)]

section Agreement

theorem agree_iff_ofNsec {nsec : BitVec 64} (h : dispatchTimeoutTs clocks when = .ofNsec nsec) :
    Agree clocks when ↔
      ((dispatchTimeout hostTimeInit clocks when).toNat ≠ 0 ∨
          clocks.nanoseconds.toNat < nsec.toNat →
        nsec.toNat =
          clocks.nanoseconds.toNat + (dispatchTimeout hostTimeInit clocks when).toNat) ∧
        ((dispatchTimeout hostTimeInit clocks when).toNat = 0 →
          nsec.toNat ≤ clocks.nanoseconds.toNat) := by
  have hzero : dispatchTimeout hostTimeInit clocks when = 0 ↔
      (dispatchTimeout hostTimeInit clocks when).toNat = 0 := BitVec.toNat_inj.symm
  constructor
  · rintro ⟨-, -, hahead, hpast⟩
    rw [h, value_ofNsec] at hahead hpast
    rw [Ne, hzero] at hahead
    rw [hzero] at hpast
    exact ⟨by exact_mod_cast hahead, by exact_mod_cast hpast⟩
  · rintro ⟨hahead, hpast⟩
    refine ⟨?_, ?_, ?_, ?_⟩
    · rw [h, toInt_tvNsec_ofNsec]
      omega
    · rw [h, toInt_tvNsec_ofNsec]
      omega
    · rw [h, value_ofNsec, Ne, hzero]
      exact_mod_cast hahead
    · rw [h, value_ofNsec, hzero]
      exact_mod_cast hpast

variable (hc : clocks.Coherent) (hne : when ≠ now) (hf : when ≠ forever)

include hc hf in
theorem agree_wall_iff (hwall : when.toInt < 0) :
    Agree clocks when ↔ clocks.nanoseconds = 0 := by
  have hts : dispatchTimeoutTs clocks when = .ofNsec (-when + clocks.nanoseconds) := by
    rw [dispatchTimeoutTs, if_neg (by rintro rfl; exact absurd hwall (by decide)), if_pos hwall,
      hc.nsec_eq]
  have hnano := hc.nanoseconds_lt
  have hlarge := BitVec.toInt_neg_iff.mp hwall
  have hlt := when.isLt
  have hlast : when.toNat ≠ 2 ^ 64 - 1 := fun h ↦ hf (BitVec.eq_of_toNat_eq h)
  have hneg : (-when).toNat = 2 ^ 64 - when.toNat := by
    rw [BitVec.toNat_neg]
    omega
  have hsum : (-when + clocks.nanoseconds).toNat =
      2 ^ 64 - when.toNat + clocks.nanoseconds.toNat := by
    rw [BitVec.toNat_add, hneg]
    omega
  have htimeout : (dispatchTimeout hostTimeInit clocks when).toNat =
      2 ^ 64 - when.toNat - clocks.nanoseconds.toNat := by
    rw [dispatchTimeout, if_neg hf, if_neg (by rintro rfl; exact absurd hwall (by decide)),
      if_pos hwall]
    split
    · rename_i hle
      rw [BitVec.le_def, hneg] at hle
      change 0 = _
      omega
    · rename_i hle
      rw [BitVec.le_def, hneg] at hle
      rw [BitVec.toNat_sub, hneg]
      omega
  have hzero : clocks.nanoseconds = 0 ↔ clocks.nanoseconds.toNat = 0 := BitVec.toNat_inj.symm
  rw [agree_iff_ofNsec hts, hsum, htimeout, hzero]
  omega

include hc hne hf in
theorem agree_mach_iff (hmach : ¬ when.toInt < 0) :
    Agree clocks when ↔
      clocks.absolute.toNat ≤ when.toNat + clocks.nanoseconds.toNat := by
  have hzero : when ≠ 0 := hne
  have hts : dispatchTimeoutTs clocks when =
      .ofNsec (clocks.nanoseconds + (when - clocks.absolute)) := by
    rw [dispatchTimeoutTs, if_neg hzero, if_neg hmach, hc.nsec_eq]
  have hnano := hc.nanoseconds_lt
  have habs := hc.absolute_lt
  have hsmall := mt BitVec.toInt_neg_iff.mpr hmach
  have hsum : (clocks.nanoseconds + (when - clocks.absolute)).toNat =
      (clocks.nanoseconds.toNat + (2 ^ 64 - clocks.absolute.toNat + when.toNat)) % 2 ^ 64 := by
    rw [BitVec.toNat_add, BitVec.toNat_sub, Nat.add_mod_mod]
  have htimeout : (dispatchTimeout hostTimeInit clocks when).toNat =
      when.toNat - clocks.absolute.toNat := by
    rw [dispatchTimeout, if_neg hf, if_neg hzero, if_neg hmach]
    split
    · rename_i hle
      rw [BitVec.le_def] at hle
      change 0 = _
      omega
    · rename_i hle
      rw [BitVec.le_def] at hle
      rw [mach2nano_hostTimeInit, BitVec.toNat_sub]
      omega
  rw [agree_iff_ofNsec hts, hsum, htimeout]
  omega

end Agreement

/-- The two conversions agree on a milestone of the monotonic clock that does not lie further
back than the realtime clock counts, and on one of the wall clock if that clock reads zero. -/
theorem timeouts_agree_iff (clocks : Clocks) (hc : clocks.Coherent) (when : BitVec 64)
    (hmade : Made when) (hf : when ≠ forever) :
    Agree clocks when ↔ if when.toInt < 0 then clocks.nanoseconds = 0
      else clocks.absolute.toNat ≤ when.toNat + clocks.nanoseconds.toNat := by
  split
  · exact agree_wall_iff hc hf ‹_›
  · exact agree_mach_iff hc hmade.ne_now hf ‹_›

/-- The readings of clocks that have been set in 2023 and started a second ago. -/
def reading : Clocks := ⟨1700000000000000000, 1000000000, ⟨1700000000, 0⟩⟩

theorem reading_coherent : reading.Coherent :=
  ⟨⟨by decide, by decide, by decide⟩, by decide, by decide, by decide⟩

theorem timeouts_agree_iff_second :
    Agree reading (dispatchTime hostTimeInit reading now 1000000000) :=
  (timeouts_agree_iff reading reading_coherent _ ⟨reading, _, .inl ⟨now, rfl⟩⟩ (by decide)).mpr
    (by decide)

/-- A second from now on the wall clock is 54 years from now on the realtime clock; and a time
on the monotonic clock that is further back than the realtime clock counts never comes. -/
theorem timeouts_disagree :
    (dispatchTimeout hostTimeInit reading (dispatchWalltime reading none 1000000000) = 1000000000 ∧
      dispatchTimeoutTs reading (dispatchWalltime reading none 1000000000) = ⟨3400000001, 0⟩ ∧
      ¬ Agree reading (dispatchWalltime reading none 1000000000)) ∧
      dispatchTimeout hostTimeInit ⟨0, 10, ⟨0, 0⟩⟩ 5 = 0 ∧
      dispatchTimeoutTs ⟨0, 10, ⟨0, 0⟩⟩ 5 = ⟨18446744073, 709551611⟩ ∧
      ¬ Agree ⟨0, 10, ⟨0, 0⟩⟩ 5 :=
  ⟨⟨by decide, by decide, fun h ↦ absurd (h.ahead (by decide)) (by decide)⟩, by decide, by decide,
    fun h ↦ absurd (h.past (by decide)) (by decide)⟩

/-! ## Calls at a given time -/

theorem after_dispatchTimeout {T Q : Type*} (set : After.Setting T Q) (data : HostTimeData)
    (clocks : Clocks)
    (hmach : ∀ n : BitVec 64, set.mach2nano n.toNat = (dispatchTimeMach2nano data n).toNat) :
    After.dispatchTimeout set
        (if set.time.msb then clocks.nanoseconds.toNat else clocks.absolute.toNat) =
      (dispatchTimeout data clocks set.time).toNat := by
  have hforever : After.forever = forever := rfl
  unfold After.dispatchTimeout dispatchTimeout
  rw [hforever, BitVec.msb_eq_toInt]
  simp only [decide_eq_true_eq]
  split
  · rfl
  split
  · rfl
  split
  · simp only [ge_iff_le, ← BitVec.le_def]
    split
    · rfl
    · exact (BitVec.toNat_sub_of_le (BitVec.le_of_lt (BitVec.not_le.mp ‹_›))).symm
  · simp only [ge_iff_le, ← BitVec.le_def]
    split
    · rfl
    · rw [← hmach, BitVec.toNat_sub_of_le (BitVec.le_of_lt (BitVec.not_le.mp ‹_›))]

end LibDispatch.Time
