import Mathlib.Algebra.GroupWithZero.Nat
import Mathlib.Logic.Relation
import Mathlib.Tactic.Common

/-!
# Runs of a step function

Where a component is used from one place at a time, a run is a sequence of steps of one
state.

Concrete runs are traces over small types `Fin n`.  The numerals of such a type depend on a
proof that `n` is not zero; for the sizes in use it has a name here.
-/

namespace Interleaving

instance neZero_one : NeZero 1 := inferInstance

instance neZero_two : NeZero 2 := inferInstance

instance neZero_three : NeZero 3 := inferInstance

instance neZero_six : NeZero 6 := inferInstance

end Interleaving

namespace Interleaving.Sequence

variable {A σ : Type*}

/-- The states reached from `s₀` by steps that all meet `C`. -/
def Runs (step : A → σ → Option σ) (C : σ → A → Prop) (s₀ : σ) : σ → Prop :=
  Relation.ReflTransGen (fun s s' ↦ ∃ a, C s a ∧ step a s = some s') s₀

def run (step : A → σ → Option σ) (C : σ → A → Prop) [∀ s a, Decidable (C s a)] :
    σ → List A → Option σ
  | s, [] => some s
  | s, a :: rest => if C s a then (step a s).bind fun s' ↦ run step C s' rest else none

variable {step : A → σ → Option σ} {C : σ → A → Prop} {s₀ s s' : σ}

theorem runs_of_run [∀ s a, Decidable (C s a)] (l : List A) (h : Runs step C s₀ s)
    (hrun : run step C s l = some s') : Runs step C s₀ s' := by
  induction l generalizing s with
  | nil =>
      cases hrun
      exact h
  | cons a l ih =>
      rw [run] at hrun
      split at hrun
      · obtain ⟨s₁, hs, hrun⟩ := Option.bind_eq_some_iff.mp hrun
        exact ih (.tail h ⟨a, ‹_›, hs⟩) hrun
      · cases hrun

theorem runs_get [∀ s a, Decidable (C s a)] {l : List A} (h : (run step C s₀ l).isSome) :
    Runs step C s₀ ((run step C s₀ l).get h) :=
  runs_of_run l .refl (Option.some_get h).symm

theorem Runs.invariant {I : σ → Prop} (h : Runs step C s₀ s) (h₀ : I s₀)
    (hstep : ∀ s s' a, I s → C s a → step a s = some s' → I s') : I s := by
  induction h with
  | refl => exact h₀
  | tail _ hs ih =>
      obtain ⟨a, hc, hs⟩ := hs
      exact hstep _ _ a ih hc hs

end Interleaving.Sequence
