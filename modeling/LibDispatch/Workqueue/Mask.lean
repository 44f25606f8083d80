import Mathlib.Tactic
import Mathlib.Data.List.Range

/-!
# Masks of pending work queues

The work queues with items are the bits set in a mask of machine size; `ffs` finds the first
of them, which is the queue of the highest priority.
-/

namespace LibDispatch.Workqueue

def workqNumPrioqueue : ℕ := 4

def pthreadWorkqueueMax : ℕ := 31

abbrev Mask := BitVec 32

/-- `0x1 << wqlist_index`. -/
def indexBit (i : ℕ) : Mask := 1#32 <<< i

/-- The position of the first bit that is set, counted from one; zero without any. -/
def ffs (mask : Mask) : ℕ :=
  match (List.range 32).find? mask.getLsbD with
  | some i => i + 1
  | none => 0

variable {mask : Mask} {i j : ℕ}

theorem ffs_eq_zero (h : ffs mask = 0) (i : ℕ) : mask.getLsbD i = false := by
  unfold ffs at h
  split at h
  · cases h
  · rename_i hnone
    rcases lt_or_ge i 32 with hi | hi
    · have := List.find?_eq_none.mp hnone i (List.mem_range.mpr hi)
      simpa using this
    · exact BitVec.getLsbD_of_ge mask i hi

theorem ffs_eq_succ (h : ffs mask = i + 1) :
    mask.getLsbD i = true ∧ ∀ j < i, mask.getLsbD j = false := by
  unfold ffs at h
  split at h
  · rename_i k hk
    obtain rfl : k = i := by omega
    obtain ⟨hbit, -, hlt⟩ := List.find?_range_eq_some.mp hk
    exact ⟨hbit, fun j hj ↦ by simpa using hlt j hj⟩
  · cases h

theorem getLsbD_indexBit (hi : i < 32) : (indexBit i).getLsbD j = decide (i = j) := by
  unfold indexBit
  rw [BitVec.getLsbD_shiftLeft]
  rcases lt_trichotomy i j with hij | rfl | hij
  · have hne : j - i ≠ 0 := by omega
    simp [BitVec.getLsbD_one, hne, hij.ne]
  · simp [hi]
  · simp [hij, hij.ne']

theorem getLsbD_set (hi : i < 32) :
    (mask ||| indexBit i).getLsbD j = (mask.getLsbD j || decide (i = j)) := by
  rw [BitVec.getLsbD_or, getLsbD_indexBit hi]

theorem getLsbD_clear (hi : i < 32) :
    (mask &&& ~~~ indexBit i).getLsbD j = (mask.getLsbD j && !decide (i = j)) := by
  rw [BitVec.getLsbD_and, BitVec.getLsbD_not, getLsbD_indexBit hi]
  rcases lt_or_ge j 32 with hj | hj
  · simp [hj]
  · simp [BitVec.getLsbD_of_ge mask j hj]

/-! ## Counters -/

theorem toNat_add_one {n : BitVec 32} (h : n.toNat + 1 < 2 ^ 32) : (n + 1).toNat = n.toNat + 1 := by
  rw [BitVec.toNat_add]
  exact Nat.mod_eq_of_lt h

theorem toNat_sub_one {n : BitVec 32} (h : n ≠ 0) : (n - 1).toNat + 1 = n.toNat := by
  have hpos : n.toNat ≠ 0 := fun hzero ↦ h (BitVec.eq_of_toNat_eq hzero)
  rw [BitVec.toNat_sub_of_le (by rw [BitVec.le_def]; exact Nat.one_le_iff_ne_zero.mpr hpos)]
  exact Nat.succ_pred_eq_of_ne_zero hpos

end LibDispatch.Workqueue
