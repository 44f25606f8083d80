import Mathlib.Tactic

/-!
# Cells that are emptied in batches

Values are merged into a cell with an associative operation, and from time to time the
whole content of the cell is taken and delivered.  Every delivery is then what has been
merged since the one before it, and nothing is lost and nothing is invented.
-/

namespace Interleaving

variable {M : Type*}

/-- The deliveries `ds` of what has been merged after the first `n` values: each one comes
with the number of values that had been merged when the cell was emptied for it. -/
def Batched (op : M → M → M) (e : M) (xs : List M) : ℕ → List (ℕ × M) → Prop
  | _, [] => True
  | n, (k, v) :: ds =>
      n ≤ k ∧ k ≤ xs.length ∧ v = ((xs.take k).drop n).foldr op e ∧ Batched op e xs k ds

/-- The number of values merged before the last delivery. -/
def lastCut : ℕ → List (ℕ × M) → ℕ
  | n, [] => n
  | _, (k, _) :: ds => lastCut k ds

variable {op : M → M → M} {e : M} {xs : List M} {ds : List (ℕ × M)} {n k : ℕ} {v value : M}

theorem lastCut_append_singleton : lastCut n (ds ++ [(k, v)]) = k := by
  induction ds generalizing n with
  | nil => rfl
  | cons d ds ih => exact ih

theorem Batched.lastCut_le (h : Batched op e xs n ds) (hn : n ≤ xs.length) :
    lastCut n ds ≤ xs.length := by
  induction ds generalizing n with
  | nil => exact hn
  | cons d ds ih => exact ih h.2.2.2 h.2.1

theorem Batched.merge (h : Batched op e xs n ds) (x : M) : Batched op e (xs ++ [x]) n ds := by
  induction ds generalizing n with
  | nil => trivial
  | cons d ds ih =>
      obtain ⟨hle, hlen, hv, hrest⟩ := h
      refine ⟨hle, ?_, ?_, ih hrest⟩
      · rw [List.length_append]
        omega
      · rw [List.take_append_of_le_length hlen]
        exact hv

theorem Batched.deliver (h : Batched op e xs n ds) (hle : lastCut n ds ≤ k) (hk : k ≤ xs.length)
    (hv : v = ((xs.take k).drop (lastCut n ds)).foldr op e) :
    Batched op e xs n (ds ++ [(k, v)]) := by
  induction ds generalizing n with
  | nil => exact ⟨hle, hk, hv, trivial⟩
  | cons d ds ih => exact ⟨h.1, h.2.1, h.2.2.1, ih h.2.2.2 hle hv⟩

theorem Batched.eq_of_append {ds' : List (ℕ × M)}
    (h : Batched op e xs n (ds ++ (k, v) :: ds')) :
    v = ((xs.take k).drop (lastCut n ds)).foldr op e := by
  induction ds generalizing n with
  | nil => exact h.2.2.1
  | cons d ds ih => exact ih h.2.2.2

section Fold

variable [Std.Associative op] [Std.LawfulIdentity op e]

theorem foldr_op_append (ys : List M) :
    (xs ++ ys).foldr op e = op (xs.foldr op e) (ys.foldr op e) := by
  induction xs with
  | nil => exact (Std.LawfulLeftIdentity.left_id _).symm
  | cons x xs ih =>
      rw [List.cons_append, List.foldr_cons, List.foldr_cons, ih]
      exact (Std.Associative.assoc _ _ _).symm

theorem foldr_drop_eq (hle : n ≤ k) (hk : k ≤ xs.length) :
    (xs.drop n).foldr op e =
      op (((xs.take k).drop n).foldr op e) ((xs.drop k).foldr op e) := by
  have hsplit : xs.drop n = (xs.take k).drop n ++ xs.drop k := by
    conv_lhs => rw [← List.take_append_drop k xs]
    rw [List.drop_append_of_le_length]
    rw [List.length_take]
    omega
  rw [hsplit, foldr_op_append]

theorem Batched.total (h : Batched op e xs n ds) (hn : n ≤ xs.length) :
    op ((ds.map Prod.snd).foldr op e) ((xs.drop (lastCut n ds)).foldr op e) =
      (xs.drop n).foldr op e := by
  induction ds generalizing n with
  | nil => exact Std.LawfulLeftIdentity.left_id _
  | cons d ds ih =>
      obtain ⟨hle, hlen, hv, hrest⟩ := h
      have htail := ih hrest hlen
      rw [foldr_drop_eq hle hlen, ← hv, ← htail]
      exact Std.Associative.assoc _ _ _

end Fold

/-- A cell with the content `value`, into which `xs` have been merged and from which `ds`
have been delivered; `inHand` has been taken and not delivered yet. -/
structure Cell (op : M → M → M) (e : M) (xs : List M) (ds : List (ℕ × M)) (value : M)
    (inHand : Option (ℕ × M)) : Prop where
  batched : Batched op e xs 0 ds
  whole : inHand = none → value = (xs.drop (lastCut 0 ds)).foldr op e
  taken : ∀ k v, inHand = some (k, v) → lastCut 0 ds ≤ k ∧ k ≤ xs.length ∧
    v = ((xs.take k).drop (lastCut 0 ds)).foldr op e ∧ value = (xs.drop k).foldr op e

theorem cell_empty : Cell op e [] [] e none := by
  refine ⟨trivial, fun _ ↦ rfl, nofun⟩

variable {inHand : Option (ℕ × M)}

theorem Cell.take (h : Cell op e xs ds value none) :
    Cell op e xs ds e (some (xs.length, value)) := by
  refine ⟨h.batched, nofun, ?_⟩
  rintro k v hkv
  obtain ⟨rfl, rfl⟩ := Prod.mk.inj (Option.some.inj hkv)
  refine ⟨h.batched.lastCut_le (Nat.zero_le _), le_rfl, ?_, ?_⟩
  · rw [List.take_length]
    exact h.whole rfl
  · rw [List.drop_length]
    rfl

theorem Cell.deliver (h : Cell op e xs ds value (some (k, v))) :
    Cell op e xs (ds ++ [(k, v)]) value none := by
  obtain ⟨hle, hk, hv, hvalue⟩ := h.taken k v rfl
  refine ⟨h.batched.deliver hle hk hv, fun _ ↦ ?_, nofun⟩
  rw [lastCut_append_singleton]
  exact hvalue

section Fold

variable [Std.Associative op] [Std.LawfulIdentity op e]

theorem Cell.merge (h : Cell op e xs ds value inHand) (x : M) :
    Cell op e (xs ++ [x]) ds (op value x) inHand := by
  have hone : [x].foldr op e = x := Std.LawfulRightIdentity.right_id x
  refine ⟨h.batched.merge x, fun hnone ↦ ?_, fun k v hkv ↦ ?_⟩
  · have hle := h.batched.lastCut_le (Nat.zero_le _)
    rw [List.drop_append_of_le_length hle, foldr_op_append, hone, ← h.whole hnone]
  · obtain ⟨hle, hk, hv, hvalue⟩ := h.taken k v hkv
    refine ⟨hle, ?_, ?_, ?_⟩
    · rw [List.length_append]
      omega
    · rw [List.take_append_of_le_length hk]
      exact hv
    · rw [List.drop_append_of_le_length hk, foldr_op_append, hone, ← hvalue]

theorem Cell.discard (h : Cell op e xs ds value (some (k, e))) : Cell op e xs ds value none := by
  obtain ⟨hle, hk, hv, hvalue⟩ := h.taken k e rfl
  refine ⟨h.batched, fun _ ↦ ?_, nofun⟩
  rw [foldr_drop_eq hle hk, ← hv, ← hvalue]
  exact (Std.LawfulLeftIdentity.left_id value).symm

theorem Cell.total (h : Cell op e xs ds value inHand) :
    op ((ds.map Prod.snd).foldr op e) (op (inHand.elim e Prod.snd) value) = xs.foldr op e := by
  have hall := h.batched.total (Nat.zero_le _)
  rw [List.drop_zero] at hall
  rw [← hall]
  congr 1
  cases inHand with
  | none =>
      rw [← h.whole rfl]
      exact Std.LawfulLeftIdentity.left_id value
  | some d =>
      obtain ⟨hle, hk, hv, hvalue⟩ := h.taken d.1 d.2 rfl
      rw [foldr_drop_eq hle hk, ← hv, ← hvalue]
      rfl

end Fold

end Interleaving
