import Mathlib.Algebra.BigOperators.Group.Finset.Basic
import Mathlib.Tactic

/-!
# Queues that are served in order

Several queues with a log of what has been added to each of them, what has been taken out of
it, and what has been dealt with after it was taken.
-/

namespace Served

variable {β : Type*}

theorem sum_range_update (w : β → ℤ) (q : ℕ → β) {n i : ℕ} (hi : i < n) (b : β) :
    ∑ j ∈ Finset.range n, w (Function.update q i b j) =
      ∑ j ∈ Finset.range n, w (q j) - w (q i) + w b := by
  have hmem := Finset.mem_range.mpr hi
  rw [← Finset.add_sum_erase _ _ hmem,
    ← Finset.add_sum_erase (a := i) _ (fun j ↦ w (q j)) hmem]
  have hrest : ∑ j ∈ (Finset.range n).erase i, w (Function.update q i b j) =
      ∑ j ∈ (Finset.range n).erase i, w (q j) := by
    refine Finset.sum_congr rfl fun j hj ↦ ?_
    rw [Function.update_of_ne (Finset.ne_of_mem_erase hj)]
  rw [hrest, Function.update_self]
  ring

/-- What has been added and taken, queue by queue, and what has been dealt with. -/
structure Log (β : Type*) where
  added : ℕ → List β
  taken : ℕ → List β
  done : List β

namespace Log

def empty : Log β := ⟨fun _ ↦ [], fun _ ↦ [], []⟩

def add (log : Log β) (i : ℕ) (x : β) : Log β :=
  { log with added := Function.update log.added i (log.added i ++ [x]) }

def take (log : Log β) (i : ℕ) (x : β) : Log β :=
  { log with taken := Function.update log.taken i (log.taken i ++ [x]) }

def finish (log : Log β) (x : β) : Log β := { log with done := log.done ++ [x] }

end Log

/-- Every queue holds what has been added and not been taken, in the order of addition. -/
def InOrder (log : Log β) (items : ℕ → List β) : Prop :=
  ∀ i, log.added i = log.taken i ++ items i

variable {log : Log β} {items items' : ℕ → List β} {i : ℕ} {x : β}

theorem InOrder.congr (h : InOrder log items) (hitems : ∀ i, items' i = items i) :
    InOrder log items' := fun i ↦ by rw [hitems, h i]

theorem InOrder.add (h : InOrder log items) (hself : items' i = items i ++ [x])
    (hother : ∀ j, j ≠ i → items' j = items j) : InOrder (log.add i x) items' := by
  intro j
  rcases eq_or_ne j i with rfl | hj
  · simp [Log.add, hself, h j]
  · simpa [Log.add, hj, hother j hj] using h j

theorem InOrder.take (h : InOrder log items) (hhead : (items i).head? = some x)
    (hself : items' i = (items i).tail) (hother : ∀ j, j ≠ i → items' j = items j) :
    InOrder (log.take i x) items' := by
  intro j
  rcases eq_or_ne j i with rfl | hj
  · simp only [Log.take, Function.update_self, hself, h j, List.append_assoc]
    rw [List.eq_cons_of_mem_head? hhead]
    simp
  · simpa [Log.take, hj, hother j hj] using h j

variable [BEq β]

/-- How often `x` has been taken out of the first `n` queues. -/
def Log.timesTaken (n : ℕ) (log : Log β) (x : β) : ℤ :=
  ∑ i ∈ Finset.range n, ((log.taken i).count x : ℤ)

theorem count_append_singleton (xs : List β) (x y : β) :
    ((xs ++ [y]).count x : ℤ) = xs.count x + if y == x then 1 else 0 := by
  rw [List.count_append, List.count_singleton]
  push_cast
  rfl

theorem timesTaken_take {n : ℕ} (hi : i < n) (y : β) :
    (log.take i y).timesTaken n x = log.timesTaken n x + if y == x then 1 else 0 := by
  have hsum := sum_range_update (fun q : List β ↦ (q.count x : ℤ)) log.taken hi
    (log.taken i ++ [y])
  rw [count_append_singleton] at hsum
  unfold Log.timesTaken Log.take
  rw [hsum]
  ring

theorem count_finish (y : β) :
    ((log.finish y).done.count x : ℤ) = log.done.count x + if y == x then 1 else 0 :=
  count_append_singleton log.done x y

end Served
