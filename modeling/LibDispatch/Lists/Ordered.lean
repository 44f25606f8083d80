import Mathlib.Data.List.Perm.Basic
import Mathlib.Order.Lattice
import Mathlib.Tactic.Common

/-!
# Ordered lists

Insertion into an ordered list behind all elements that do not come later, so that elements
with the same key stay in the order of their insertion.
-/

namespace OrderedList

variable {α β : Type*}

/-- Insert before the first element that comes later. -/
def insertBefore (later : α → Bool) (a : α) : List α → List α
  | [] => [a]
  | b :: l => if later b then a :: b :: l else b :: insertBefore later a l

theorem perm_insertBefore (later : α → Bool) (a : α) (l : List α) :
    (insertBefore later a l).Perm (a :: l) := by
  induction l with
  | nil => exact .refl _
  | cons b l ih =>
      rw [insertBefore]
      split
      · exact .refl _
      · exact (ih.cons b).trans (.swap a b l)

theorem pairwise_insertBefore [LinearOrder β] (key : α → β) {later : α → Bool} {a : α}
    {l : List α} (hlater : ∀ b ∈ l, later b ↔ key a < key b)
    (hl : l.Pairwise fun b c ↦ key b ≤ key c) :
    (insertBefore later a l).Pairwise fun b c ↦ key b ≤ key c := by
  induction l with
  | nil => exact List.pairwise_singleton _ a
  | cons b l ih =>
      rw [List.pairwise_cons] at hl
      have hb := hlater b List.mem_cons_self
      rw [insertBefore]
      split
      · rename_i h
        have hab : key a < key b := hb.mp h
        refine List.pairwise_cons.mpr ⟨fun c hc ↦ ?_, List.pairwise_cons.mpr hl⟩
        rcases List.mem_cons.mp hc with rfl | hc
        · exact hab.le
        · exact hab.le.trans (hl.1 c hc)
      · rename_i h
        have hba : key b ≤ key a := le_of_not_gt fun hab ↦ h (hb.mpr hab)
        refine List.pairwise_cons.mpr
          ⟨fun c hc ↦ ?_, ih (fun c hc ↦ hlater c (List.mem_cons_of_mem b hc)) hl.2⟩
        rcases List.mem_cons.mp ((perm_insertBefore later a l).mem_iff.mp hc) with rfl | hc
        · exact hba
        · exact hl.1 c hc

end OrderedList
