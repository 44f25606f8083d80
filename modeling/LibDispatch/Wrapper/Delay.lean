import LibDispatch.Time.Saturation

/-!
# Delays

`as_delayed_time` takes a delay without a sign and hands it to `dispatch_time`, which takes it for
a number with a sign.  Up to half of the range that is the addition it is meant to be; from there
on the result lies before the time it starts from.
-/

namespace LibDispatch.Wrapper

open Time

def asDelayedTime (clocks : Clocks) (delay base : BitVec 64) : BitVec 64 :=
  dispatchTime hostTimeInit clocks base delay

/-- The point in time a while later on the same clock, or never if no milestone denotes it. -/
def later : Instant → ℕ → Instant
  | .forever, _ => .forever
  | .on c v, d => if least c ≤ v + d ∧ v + d ≤ greatest c then .on c (v + d) else .forever

def InRange : Instant → Prop
  | .forever => True
  | .on c v => least c ≤ v ∧ v ≤ greatest c

section Later

variable {t : Instant} {d d' : ℕ}

theorem later_eq_plus (h : InRange t) : later t d = t.plus d := by
  cases t with
  | forever => rfl
  | on c v =>
      have hlo : least c ≤ v + d := h.1.trans (by omega)
      by_cases hhi : v + d ≤ greatest c
      · rw [later, if_pos ⟨hlo, hhi⟩, Instant.plus_exact hlo hhi]
      · rw [later, if_neg fun hle ↦ hhi hle.2, Instant.plus_above (by omega)]

theorem plus_zero (h : InRange t) : t.plus 0 = t := by
  cases t with
  | forever => rfl
  | on c v =>
      have heq : v + 0 = v := add_zero v
      have hplus : (Instant.on c v).plus 0 = .on c (v + 0) :=
        Instant.plus_exact (heq.symm ▸ h.1) (heq.symm ▸ h.2)
      rw [hplus, heq]

end Later

section Delayed

variable {clocks : Clocks} {base delay : BitVec 64} (h : base = now → 0 < clocks.absolute.toInt)

include h

theorem inRange_origin : InRange (instant (origin clocks base)) := by
  have hrange := toInt_range (origin clocks base)
  have hzero : (origin clocks base).toInt ≠ 0 := by
    unfold origin
    split
    · have hpos := h ‹_›
      omega
    · rwa [Ne, ← eq_now_iff]
  rcases lt_trichotomy (origin clocks base).toInt (-1) with hlt | heq | hgt
  · rw [instant_wall hlt]
    exact ⟨by simp only [least]; omega, by simp only [greatest]; omega⟩
  · rw [eq_forever_iff.mpr heq]
    trivial
  · have hpos : 0 < (origin clocks base).toInt := by omega
    rw [instant_mach hpos]
    exact ⟨by simp only [least]; omega, by simp only [greatest]; omega⟩

theorem instant_asDelayedTime (hdelay : delay.toNat < 2 ^ 63) :
    instant (asDelayedTime clocks delay base) =
      later (instant (origin clocks base)) delay.toNat := by
  have hint : delay.toInt = delay.toNat := BitVec.toInt_eq_toNat_of_lt (by omega)
  rw [later_eq_plus (inRange_origin h), ← hint]
  exact instant_dispatchTime h

theorem asDelayedTime_le_base (hdelay : 2 ^ 63 ≤ delay.toNat) :
    (instant (asDelayedTime clocks delay base)).Le (instant (origin clocks base)) := by
  have hneg : delay.toInt ≤ 0 := by
    have hlt := delay.isLt
    rw [BitVec.toInt_eq_toNat_cond]
    split <;> omega
  have hle := Instant.plus_mono (instant (origin clocks base)) hneg
  rw [plus_zero (inRange_origin h), ← instant_dispatchTime h] at hle
  exact hle

theorem asDelayedTime_eq_later_iff :
    instant (asDelayedTime clocks delay base) =
        later (instant (origin clocks base)) delay.toNat ↔
      delay.toNat < 2 ^ 63 ∨ base = forever := by
  constructor
  · intro heq
    by_contra hnot
    obtain ⟨hdelay, hbase⟩ := not_or.mp hnot
    have hback := asDelayedTime_le_base h (not_lt.mp hdelay)
    rw [heq] at hback
    have hin := inRange_origin h
    cases horigin : instant (origin clocks base) with
    | forever =>
        rw [instant_eq_forever] at horigin
        unfold origin at horigin
        split at horigin
        · have hpos := h ‹_›
          rw [horigin] at hpos
          exact absurd hpos (by decide)
        · exact hbase horigin
    | on c v =>
        rw [horigin] at hback hin
        have hhigh : ¬ v + delay.toNat ≤ greatest c := by
          have hle := hin.1
          cases c <;> simp only [least, greatest] at * <;> omega
        rw [later, if_neg fun hle ↦ hhigh hle.2] at hback
        exact hback
  · rintro (hdelay | rfl)
    · exact instant_asDelayedTime h hdelay
    · rfl

end Delayed

/-! ## Delays that count from now -/

section Now

variable {clocks : Clocks} {delay : BitVec 64}

theorem asDelayedTime_nonneg (hdelay : 0 ≤ delay.toInt) :
    asDelayedTime clocks delay now =
      if (clocks.absolute + delay).toInt ≤ 0 then forever else clocks.absolute + delay :=
  if_pos hdelay

theorem asDelayedTime_neg (hdelay : ¬ 0 ≤ delay.toInt) :
    asDelayedTime clocks delay now =
      if (clocks.absolute + delay).toInt < 1 then 1 else clocks.absolute + delay :=
  if_neg hdelay

theorem toNat_of_pos {reading : BitVec 64} (hpos : 0 < reading.toInt) :
    0 < reading.toNat ∧ reading.toNat < 2 ^ 63 := by
  rw [BitVec.toInt_eq_toNat_cond] at hpos
  split at hpos <;> omega

theorem asDelayedTime_now (hpos : 0 < clocks.absolute.toInt) (hdelay : delay.toNat < 2 ^ 63) :
    asDelayedTime clocks delay now =
      if clocks.absolute.toNat + delay.toNat < 2 ^ 63 then clocks.absolute + delay
      else forever := by
  obtain ⟨hlo, hhi⟩ := toNat_of_pos hpos
  have hint : delay.toInt = delay.toNat := BitVec.toInt_eq_toNat_of_lt (by omega)
  have hsum : (clocks.absolute + delay).toNat = clocks.absolute.toNat + delay.toNat := by
    rw [BitVec.toNat_add]
    omega
  have hcond := BitVec.toInt_eq_toNat_cond (clocks.absolute + delay)
  rw [asDelayedTime_nonneg (by omega)]
  by_cases hfits : clocks.absolute.toNat + delay.toNat < 2 ^ 63
  · have hpos' : ¬ (clocks.absolute + delay).toInt ≤ 0 := by
      split at hcond <;> omega
    rw [if_pos hfits, if_neg hpos']
  · have hneg : (clocks.absolute + delay).toInt ≤ 0 := by
      split at hcond <;> omega
    rw [if_neg hfits, if_pos hneg]

end Now

end LibDispatch.Wrapper
