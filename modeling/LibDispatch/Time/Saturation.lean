import LibDispatch.Time.Model
import Mathlib.Tactic.Common

/-!
# Milestones saturate

`dispatch_time` adds to a milestone and notices afterwards, by the sign of a sum that may have
wrapped, that the result does not exist.  `dispatch_walltime` decides by the sign of the offset
alone what to return in place of such a result.
-/

namespace LibDispatch.Time

open Kevent (Clock)

/-! ## Instants -/

namespace Instant

/-- The instant a while later, or the closest one that exists. -/
def plus : Instant → ℤ → Instant
  | forever, _ => forever
  | on c v, delta => if greatest c < v + delta then forever else on c (max (least c) (v + delta))

def clock : Instant → Option Clock
  | forever => none
  | on c _ => some c

/-- The first instant does not come after the second one. -/
def Le : Instant → Instant → Prop
  | _, forever => True
  | forever, on .. => False
  | on c v, on c' v' => c = c' ∧ v ≤ v'

section Plus

variable {c : Clock} {v d : ℤ}

theorem plus_above (h : greatest c < v + d) : (on c v).plus d = forever := if_pos h

theorem plus_exact (hlo : least c ≤ v + d) (hhi : v + d ≤ greatest c) :
    (on c v).plus d = on c (v + d) := by
  rw [plus, if_neg (not_lt.mpr hhi), max_eq_right hlo]

theorem plus_below (h : v + d < least c) : (on c v).plus d = on c (least c) := by
  have hle : least c ≤ greatest c := by cases c <;> decide
  rw [plus, if_neg (by omega), max_eq_left h.le]

end Plus

theorem plus_mono (t : Instant) {d d' : ℤ} (h : d ≤ d') : (t.plus d).Le (t.plus d') := by
  cases t with
  | forever => trivial
  | on c v =>
      simp only [plus]
      by_cases hd' : greatest c < v + d'
      · simp only [hd', if_true]
        split <;> trivial
      · have hd : ¬ greatest c < v + d := by omega
        simp only [hd, hd', if_false]
        exact ⟨rfl, by omega⟩

theorem plus_clock (t : Instant) (d : ℤ) : t.plus d = forever ∨ (t.plus d).clock = t.clock := by
  cases t with
  | forever => exact .inl rfl
  | on c v =>
      simp only [plus]
      split
      · exact .inl rfl
      · exact .inr rfl

end Instant

/-! ## Signed words -/

section Words

variable {x y : BitVec 64}

theorem toInt_range (x : BitVec 64) : -2 ^ 63 ≤ x.toInt ∧ x.toInt < 2 ^ 63 :=
  ⟨x.le_toInt, x.toInt_lt⟩

theorem eq_forever_iff : x = forever ↔ x.toInt = -1 := by
  rw [← BitVec.toInt_inj]
  rfl

theorem eq_now_iff : x = now ↔ x.toInt = 0 := by
  rw [← BitVec.toInt_inj]
  rfl

theorem toInt_add_eq (x y : BitVec 64) :
    (x + y).toInt = x.toInt + y.toInt ∨ (x + y).toInt = x.toInt + y.toInt - 2 ^ 64 ∨
      (x + y).toInt = x.toInt + y.toInt + 2 ^ 64 := by
  have hx := toInt_range x
  have hy := toInt_range y
  rw [BitVec.toInt_add, Int.bmod_def]
  split <;> omega

theorem toInt_sub_eq (x y : BitVec 64) :
    (x - y).toInt = x.toInt - y.toInt ∨ (x - y).toInt = x.toInt - y.toInt - 2 ^ 64 ∨
      (x - y).toInt = x.toInt - y.toInt + 2 ^ 64 := by
  have hx := toInt_range x
  have hy := toInt_range y
  rw [BitVec.toInt_sub, Int.bmod_def]
  split <;> omega

@[simp] theorem instant_forever : instant forever = .forever := rfl

theorem instant_wall (h : x.toInt < -1) : instant x = .on .wall (-x.toInt) := by
  have hne : x ≠ forever := by
    rw [Ne, eq_forever_iff]
    omega
  rw [instant, if_neg hne, if_pos (by omega)]

theorem instant_mach (h : 0 < x.toInt) : instant x = .on .mach x.toInt := by
  have hne : x ≠ forever := by
    rw [Ne, eq_forever_iff]
    omega
  rw [instant, if_neg hne, if_neg (by omega)]

theorem instant_eq_forever : instant x = .forever ↔ x = forever := by
  refine ⟨fun h ↦ ?_, fun h ↦ h ▸ rfl⟩
  unfold instant at h
  split at h
  · assumption
  · split at h <;> cases h

end Words

/-! ## `dispatch_time` -/

section DispatchTime

variable {clocks : Clocks} {t delta : BitVec 64}

theorem dispatchTime_forever :
    dispatchTime hostTimeInit clocks forever delta = forever := if_pos rfl

theorem dispatchTime_ne_now (data : HostTimeData) (clocks : Clocks) (t delta : BitVec 64) :
    dispatchTime data clocks t delta ≠ now := by
  have hforever : forever ≠ now := by decide
  have hne : ∀ x : BitVec 64, x.toInt ≠ 0 → x ≠ now := fun x ↦ mt eq_now_iff.mp
  unfold dispatchTime
  split
  · exact hforever
  · split
    · split
      · split
        · exact hforever
        · exact hne _ (by omega)
      · split
        · decide
        · exact hne _ (by omega)
    · dsimp only
      generalize (if t = 0 then clocks.absolute else t) = inval
      split
      · split
        · exact hforever
        · exact hne _ (by omega)
      · split
        · decide
        · exact hne _ (by omega)

theorem dispatchTime_wall (ht : t.toInt < -1) :
    instant (dispatchTime hostTimeInit clocks t delta) =
      (Instant.on .wall (-t.toInt)).plus delta.toInt := by
  have hne : t ≠ forever := by
    rw [Ne, eq_forever_iff]
    omega
  have hrange := toInt_range t
  have hdelta := toInt_range delta
  have hres := toInt_range (t - delta)
  have hsub := toInt_sub_eq t delta
  simp only [dispatchTime, hne, if_false, show t.toInt < 0 by omega, if_true]
  split
  · split
    · rw [Instant.plus_above (by simp only [greatest]; omega), instant_forever]
    · rw [Instant.plus_exact (by simp only [least]; omega) (by simp only [greatest]; omega),
        instant_wall (by omega)]
      congr 1
      omega
  · split
    · rw [Instant.plus_below (by simp only [least]; omega)]
      rfl
    · rw [Instant.plus_exact (by simp only [least]; omega) (by simp only [greatest]; omega),
        instant_wall (by omega)]
      congr 1
      omega

theorem dispatchTime_mach (ht : 0 < t.toInt) :
    instant (dispatchTime hostTimeInit clocks t delta) =
      (Instant.on .mach t.toInt).plus delta.toInt := by
  have hne : t ≠ forever := by
    rw [Ne, eq_forever_iff]
    omega
  have hzero : t ≠ 0 := by
    rintro rfl
    exact absurd ht (by decide)
  have hrange := toInt_range t
  have hdelta := toInt_range delta
  have hres := toInt_range (t + delta)
  have hadd := toInt_add_eq t delta
  simp only [dispatchTime, dispatchTimeNano2mach, hostTimeInit, hne, hzero, if_false,
    show ¬ t.toInt < 0 by omega, if_true]
  split
  · split
    · rw [Instant.plus_above (by simp only [greatest]; omega), instant_forever]
    · rw [Instant.plus_exact (by simp only [least]; omega) (by simp only [greatest]; omega),
        instant_mach (by omega)]
      congr 1
      omega
  · split
    · rw [Instant.plus_below (by simp only [least]; omega)]
      rfl
    · rw [Instant.plus_exact (by simp only [least]; omega) (by simp only [greatest]; omega),
        instant_mach (by omega)]
      congr 1
      omega

theorem dispatchTime_now (h : 0 < clocks.absolute.toInt) :
    dispatchTime hostTimeInit clocks now delta =
      dispatchTime hostTimeInit clocks clocks.absolute delta := by
  have hne : clocks.absolute ≠ forever := by
    rw [Ne, eq_forever_iff]
    omega
  have hzero : clocks.absolute ≠ 0 := fun h0 ↦ absurd h (by rw [h0]; decide)
  have hnow : now ≠ forever := by decide
  have hpos : ¬ now.toInt < 0 := by decide
  have hnow0 : now = 0 := rfl
  simp only [dispatchTime, hne, hzero, hnow, hpos, if_false,
    show ¬ clocks.absolute.toInt < 0 by omega]
  simp only [hnow0, if_true]

def origin (clocks : Clocks) (t : BitVec 64) : BitVec 64 := if t = now then clocks.absolute else t

theorem instant_dispatchTime (h : t = now → 0 < clocks.absolute.toInt) :
    instant (dispatchTime hostTimeInit clocks t delta) =
      (instant (origin clocks t)).plus delta.toInt := by
  unfold origin
  split
  · rename_i ht
    rw [ht, dispatchTime_now (h ht), instant_mach (h ht)]
    exact dispatchTime_mach (h ht)
  · rename_i ht
    rw [eq_now_iff] at ht
    rcases lt_trichotomy t.toInt (-1) with hlt | heq | hgt
    · rw [instant_wall hlt]
      exact dispatchTime_wall hlt
    · rw [eq_forever_iff.mpr heq, dispatchTime_forever]
      rfl
    · have hpos : 0 < t.toInt := by omega
      rw [instant_mach hpos]
      exact dispatchTime_mach hpos

/-- `dispatch_time` is saturating addition, on the clock of the milestone it starts from: the
result is never earlier for a larger offset, and never `DISPATCH_TIME_NOW`. -/
theorem dispatchTime_saturates (clocks : Clocks) (t delta : BitVec 64)
    (h : t = now → 0 < clocks.absolute.toInt) :
    instant (dispatchTime hostTimeInit clocks t delta) =
        (instant (origin clocks t)).plus delta.toInt ∧
      dispatchTime hostTimeInit clocks t delta ≠ now ∧
      (dispatchTime hostTimeInit clocks t delta = forever ∨
        (instant (dispatchTime hostTimeInit clocks t delta)).clock =
          (instant (origin clocks t)).clock) ∧
      ∀ delta' : BitVec 64, delta.toInt ≤ delta'.toInt →
        (instant (dispatchTime hostTimeInit clocks t delta)).Le
          (instant (dispatchTime hostTimeInit clocks t delta')) := by
  have heq : instant (dispatchTime hostTimeInit clocks t delta) =
      (instant (origin clocks t)).plus delta.toInt := instant_dispatchTime h
  refine ⟨heq, dispatchTime_ne_now _ _ _ _, ?_, fun delta' hle ↦ ?_⟩
  · rcases (instant (origin clocks t)).plus_clock delta.toInt with hf | hc
    · exact .inl (instant_eq_forever.mp (heq.trans hf))
    · exact .inr (heq ▸ hc)
  · rw [heq, instant_dispatchTime h]
    exact Instant.plus_mono _ hle

theorem dispatchTime_saturates_now :
    instant (dispatchTime hostTimeInit ⟨0, 5, ⟨0, 0⟩⟩ now 3) = .on .mach 8 :=
  (dispatchTime_saturates ⟨0, 5, ⟨0, 0⟩⟩ now 3 (by decide)).1.trans (by decide)

example : dispatchTime hostTimeInit ⟨0, 0, ⟨0, 0⟩⟩ now 0 = forever := by decide

end DispatchTime

/-! ## `dispatch_walltime` -/

structure Timespec.Valid (ts : Timespec) : Prop where
  sec_nonneg : 0 ≤ ts.tvSec.toInt
  nsec_nonneg : 0 ≤ ts.tvNsec.toInt
  nsec_lt : ts.tvNsec.toInt < 1000000000

def Timespec.value (ts : Timespec) : ℤ := ts.tvSec.toInt * 1000000000 + ts.tvNsec.toInt

def walltime (ts : Timespec) (delta : BitVec 64) : ℤ :=
  ts.value + delta.toInt

/-- The milestone for a time, or the closest one that exists. -/
def wallInstant (n : ℤ) : Instant :=
  if n ≤ 1 then .on .wall 2 else if n < 2 ^ 63 then .on .wall n else .forever

/-- A time that cannot be represented lies where the sign of the offset says, and comes out of
the arithmetic of words as a time that cannot be represented. -/
structure SaturatesRightly (ts : Timespec) (delta : BitVec 64) : Prop where
  below : walltime ts delta ≤ 1 → delta.toInt < 0
  above : 2 ^ 63 ≤ walltime ts delta → 0 ≤ delta.toInt ∧ (walltime ts delta).bmod (2 ^ 64) ≤ 1

section DispatchWalltime

variable {clocks : Clocks} {ts : Timespec} {delta x y : BitVec 64}

theorem toInt_nsec (ts : Timespec) : ts.nsec.toInt = ts.value.bmod (2 ^ 64) := by
  have hnsec : nsecPerSec.toInt = 1000000000 := rfl
  simp only [Timespec.nsec, Timespec.value, BitVec.toInt_add, BitVec.toInt_mul, hnsec,
    Int.bmod_add_bmod]

theorem toInt_walltime (ts : Timespec) (delta : BitVec 64) :
    (ts.nsec + delta).toInt = (walltime ts delta).bmod (2 ^ 64) := by
  rw [BitVec.toInt_add, toInt_nsec, Int.bmod_add_bmod, walltime]

theorem instant_dispatchWalltime (clocks : Clocks) (ts : Timespec) (delta : BitVec 64) :
    instant (dispatchWalltime clocks (some ts) delta) =
      if (walltime ts delta).bmod (2 ^ 64) ≤ 1 then
        if 0 ≤ delta.toInt then .forever else .on .wall 2
      else .on .wall ((walltime ts delta).bmod (2 ^ 64)) := by
  have hword := toInt_walltime ts delta
  have hrange := toInt_range (ts.nsec + delta)
  simp only [dispatchWalltime]
  rw [hword] at hrange ⊢
  split
  · split <;> rfl
  · have hneg : (-(ts.nsec + delta)).toInt =
        -(walltime ts delta).bmod (2 ^ 64) := by
      rw [BitVec.toInt_neg, hword, Int.bmod_eq_of_le (by omega) (by omega)]
    rw [instant_wall (by omega), hneg, neg_neg]

theorem walltime_ge (hts : ts.Valid) : -2 ^ 63 ≤ walltime ts delta := by
  have hsec := hts.sec_nonneg
  have hnsec := hts.nsec_nonneg
  have hdelta := toInt_range delta
  unfold walltime Timespec.value
  omega

theorem walltime_bmod (hts : ts.Valid) (h : walltime ts delta < 2 ^ 63) :
    (walltime ts delta).bmod (2 ^ 64) = walltime ts delta :=
  Int.bmod_eq_of_le (walltime_ge hts) h

theorem dispatchWalltime_iff (clocks : Clocks) (hts : ts.Valid) (delta : BitVec 64) :
    instant (dispatchWalltime clocks (some ts) delta) = wallInstant (walltime ts delta) ↔
      SaturatesRightly ts delta := by
  rw [instant_dispatchWalltime, wallInstant]
  by_cases hlow : walltime ts delta ≤ 1
  · rw [walltime_bmod hts (by omega), if_pos hlow, if_pos hlow]
    split
    · rename_i hdelta
      exact ⟨nofun, fun h ↦ absurd (h.below hlow) (by omega)⟩
    · rename_i hdelta
      exact ⟨fun _ ↦ ⟨fun _ ↦ by omega, fun h ↦ by omega⟩, fun _ ↦ rfl⟩
  · by_cases hhigh : walltime ts delta < 2 ^ 63
    · rw [walltime_bmod hts hhigh, if_neg hlow, if_neg hlow, if_pos hhigh]
      exact ⟨fun _ ↦ ⟨fun h ↦ absurd h hlow, fun h ↦ by omega⟩, fun _ ↦ rfl⟩
    · rw [if_neg hlow, if_neg hhigh]
      constructor
      · intro h
        refine ⟨fun hle ↦ absurd hle hlow, fun _ ↦ ?_⟩
        split at h
        · split at h
          · exact ⟨‹_›, ‹_›⟩
          · cases h
        · cases h
      · intro h
        obtain ⟨hdelta, hbmod⟩ := h.above (by omega)
        rw [if_pos hbmod, if_pos hdelta]

def Instant.word : Instant → BitVec 64
  | .forever => Time.forever
  | .on .wall v => BitVec.ofInt 64 (-v)
  | .on .mach v => BitVec.ofInt 64 v

theorem word_instant (x : BitVec 64) : (instant x).word = x := by
  unfold instant
  split
  · exact Eq.symm ‹_›
  · split
    · rw [Instant.word, neg_neg, BitVec.ofInt_toInt]
    · rw [Instant.word, BitVec.ofInt_toInt]

theorem instant_injective : Function.Injective instant :=
  Function.LeftInverse.injective word_instant

theorem walltime_add {a b : BitVec 64} (hab : (a + b).toInt = a.toInt + b.toInt) :
    walltime ts (a + b) = walltime ts a + b.toInt := by
  rw [walltime, walltime, hab, add_assoc]

theorem dispatchWalltime_add_iff (clocks : Clocks) (hts : ts.Valid) {a b : BitVec 64}
    (hab : (a + b).toInt = a.toInt + b.toInt) (hlow : 2 ≤ walltime ts a)
    (hhigh : walltime ts a < 2 ^ 63) :
    dispatchWalltime clocks (some ts) (a + b) =
        dispatchTime hostTimeInit clocks (dispatchWalltime clocks (some ts) a) b ↔
      (walltime ts (a + b) ≤ 1 → (a + b).toInt < 0) ∧
        (2 ^ 63 ≤ walltime ts (a + b) → 0 ≤ (a + b).toInt ∧ walltime ts (a + b) ≠ 2 ^ 63) := by
  have hfirst : instant (dispatchWalltime clocks (some ts) a) = .on .wall (walltime ts a) := by
    rw [instant_dispatchWalltime, walltime_bmod hts hhigh, if_neg (by omega)]
  have hword : (dispatchWalltime clocks (some ts) a).toInt < -1 := by
    rw [← word_instant (dispatchWalltime clocks (some ts) a), hfirst, Instant.word,
      BitVec.toInt_ofInt, Int.bmod_eq_of_le (by omega) (by omega)]
    omega
  have hneg : -(dispatchWalltime clocks (some ts) a).toInt = walltime ts a := by
    have h := instant_wall hword
    rw [hfirst] at h
    injection h with _ h
    exact h.symm
  have hb := toInt_range b
  have hsum : walltime ts (a + b) = walltime ts a + b.toInt := walltime_add hab
  rw [← instant_injective.eq_iff, dispatchTime_wall hword, hneg, instant_dispatchWalltime]
  rcases le_or_gt (walltime ts (a + b)) 1 with hle | hgt
  · rw [Instant.plus_below (by simp only [least]; omega), walltime_bmod hts (by omega), if_pos hle]
    split
    · exact ⟨nofun, fun h ↦ absurd (h.1 hle) (by omega)⟩
    · exact ⟨fun _ ↦ ⟨fun _ ↦ by omega, fun h ↦ by omega⟩, fun _ ↦ rfl⟩
  rcases lt_or_ge (walltime ts (a + b)) (2 ^ 63) with hlt | hge
  · rw [Instant.plus_exact (by simp only [least]; omega) (by simp only [greatest]; omega),
      walltime_bmod hts hlt, if_neg (by omega), hsum]
    exact ⟨fun _ ↦ ⟨fun h ↦ by omega, fun h ↦ by omega⟩, fun _ ↦ rfl⟩
  have hbmod : (walltime ts (a + b)).bmod (2 ^ 64) ≤ 1 := by
    rw [Int.bmod_def]
    split <;> omega
  rw [if_pos hbmod]
  rcases eq_or_ne (walltime ts (a + b)) (2 ^ 63) with heq | hne
  · rw [Instant.plus_exact (by simp only [least]; omega) (by simp only [greatest]; omega),
      ← hsum, heq]
    refine ⟨fun h ↦ ?_, fun h ↦ absurd rfl (h.2 le_rfl).2⟩
    split at h
    · cases h
    · exact absurd h (by decide)
  · rw [Instant.plus_above (by simp only [greatest]; omega)]
    split
    · exact ⟨fun _ ↦ ⟨fun h ↦ by omega, fun _ ↦ ⟨‹_›, hne⟩⟩, fun _ ↦ rfl⟩
    · exact ⟨nofun, fun h ↦ absurd (h.2 hge).1 ‹_›⟩

/-- `dispatch_walltime` saturates as it should where the sign of the offset tells on which side
the time lies.  Two offsets in a row have the effect of their sum, unless the sum
saturates at the wrong end or asks for the one time that only `dispatch_time` can represent. -/
theorem dispatchWalltime_saturates (clocks : Clocks) (ts : Timespec) (hts : ts.Valid) :
    (∀ delta : BitVec 64,
      instant (dispatchWalltime clocks (some ts) delta) = wallInstant (walltime ts delta) ↔
        SaturatesRightly ts delta) ∧
      ∀ a b : BitVec 64, (a + b).toInt = a.toInt + b.toInt → 2 ≤ walltime ts a →
        walltime ts a < 2 ^ 63 →
        (dispatchWalltime clocks (some ts) (a + b) =
            dispatchTime hostTimeInit clocks (dispatchWalltime clocks (some ts) a) b ↔
          (walltime ts (a + b) ≤ 1 → (a + b).toInt < 0) ∧
            (2 ^ 63 ≤ walltime ts (a + b) →
              0 ≤ (a + b).toInt ∧ walltime ts (a + b) ≠ 2 ^ 63)) :=
  ⟨dispatchWalltime_iff clocks hts, fun _ _ hab hlow hhigh ↦
    dispatchWalltime_add_iff clocks hts hab hlow hhigh⟩

theorem dispatchWalltime_saturates_second :
    instant (dispatchWalltime ⟨0, 0, ⟨0, 0⟩⟩ (some ⟨1, 5⟩) 3) = .on .wall 1000000008 :=
  ((dispatchWalltime_saturates ⟨0, 0, ⟨0, 0⟩⟩ ⟨1, 5⟩ ⟨by decide, by decide, by decide⟩).1 3).mpr
    ⟨by decide, by decide⟩

/-- The beginning of the epoch is taken for the end of all times, and a date in the year 2603
for one in 2019. -/
theorem dispatchWalltime_wrong_end :
    dispatchWalltime ⟨0, 0, ⟨0, 0⟩⟩ (some ⟨0, 0⟩) 0 = forever ∧
      wallInstant (walltime ⟨0, 0⟩ 0) = .on .wall 2 ∧
      instant (dispatchWalltime ⟨0, 0, ⟨0, 0⟩⟩ (some ⟨20000000000, 0⟩) 0) =
        .on .wall 1553255926290448384 ∧
      wallInstant (walltime ⟨20000000000, 0⟩ 0) = .forever := by
  decide

end DispatchWalltime

end LibDispatch.Time
