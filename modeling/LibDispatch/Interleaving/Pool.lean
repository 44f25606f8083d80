import LibDispatch.Interleaving.Sequence
import Mathlib.Algebra.BigOperators.Group.Finset.Basic
import Mathlib.Data.Fintype.BigOperators
import Mathlib.Tactic

/-!
# Pools of interleaved threads

A pool is a shared memory together with one local state for each thread.  A
program says what one step of one thread does to the memory and to its own
local state; a run takes such steps in any order.  Every atomic operation and
every single load or store of the code is one step, so the runs of a pool are
the sequentially consistent interleavings of its threads.
-/

namespace Interleaving

/-- The shared memory and the local state of every thread. -/
@[ext] structure Pool (T σ L : Type*) where
  mem : σ
  loc : T → L

/-- One step of thread `t`.  The argument `a : A` settles what the program
itself does not: which function is called next, whether a timer has expired.
The value `none` says that the thread cannot take this step now. -/
abbrev Program (T A σ L : Type*) := T → A → σ → L → Option (σ × L)

namespace Pool

variable {T A σ L : Type*} [DecidableEq T]

def step (P : Program T A σ L) (s : Pool T σ L) (t : T) (a : A) :
    Option (Pool T σ L) :=
  (P t a s.mem (s.loc t)).map fun r ↦ ⟨r.1, Function.update s.loc t r.2⟩

/-- Take the listed steps one after the other, as long as they meet `C`. -/
def run (P : Program T A σ L) (C : Pool T σ L → T → A → Prop) [∀ s t a, Decidable (C s t a)] :
    Pool T σ L → List (T × A) → Option (Pool T σ L)
  | s, [] => some s
  | s, (t, a) :: rest =>
      if C s t a then (s.step P t a).bind fun s' ↦ run P C s' rest else none

/-- The states reached from `s₀` by steps that all meet `C`. -/
inductive Runs (P : Program T A σ L) (C : Pool T σ L → T → A → Prop)
    (s₀ : Pool T σ L) : Pool T σ L → Prop
  | refl : Runs P C s₀ s₀
  | step {s s' : Pool T σ L} {t : T} {a : A} :
      Runs P C s₀ s → C s t a → s.step P t a = some s' → Runs P C s₀ s'

abbrev Reachable (P : Program T A σ L) (s₀ s : Pool T σ L) : Prop :=
  Runs P (fun _ _ _ ↦ True) s₀ s

variable {P : Program T A σ L} {C : Pool T σ L → T → A → Prop}
  {s₀ s s' : Pool T σ L}

theorem step_eq_some {t : T} {a : A} (h : s.step P t a = some s') :
    ∃ m l, P t a s.mem (s.loc t) = some (m, l) ∧
      s' = ⟨m, Function.update s.loc t l⟩ := by
  obtain ⟨⟨m, l⟩, hP, rfl⟩ := Option.map_eq_some_iff.mp h
  exact ⟨m, l, hP, rfl⟩

theorem step_of_program {t : T} {a : A} {m : σ} {l : L}
    (h : P t a s.mem (s.loc t) = some (m, l)) :
    s.step P t a = some ⟨m, Function.update s.loc t l⟩ := by
  simp [step, h]

theorem Runs.trans {s₁ s₂ : Pool T σ L} (h₁ : Runs P C s₀ s₁) (h₂ : Runs P C s₁ s₂) :
    Runs P C s₀ s₂ := by
  induction h₂ with
  | refl => exact h₁
  | step _ hC hs ih => exact ih.step hC hs

theorem Runs.imp {D : Pool T σ L → T → A → Prop} (h : Runs P C s₀ s)
    (hCD : ∀ s t a, Runs P C s₀ s → C s t a → D s t a) : Runs P D s₀ s := by
  induction h with
  | refl => exact .refl
  | step hr hC hs ih => exact ih.step (hCD _ _ _ hr hC) hs

theorem Runs.mono {D : Pool T σ L → T → A → Prop} (hCD : ∀ s t a, C s t a → D s t a)
    (h : Runs P C s₀ s) : Runs P D s₀ s :=
  h.imp fun s t a _ ↦ hCD s t a

theorem Runs.reachable (h : Runs P C s₀ s) : Reachable P s₀ s :=
  h.mono fun _ _ _ _ ↦ trivial

theorem runs_of_run [∀ s t a, Decidable (C s t a)] (tr : List (T × A))
    (h : s₀.run P C tr = some s) : Runs P C s₀ s := by
  induction tr generalizing s₀ with
  | nil =>
      obtain rfl : s₀ = s := by simpa [run] using h
      exact .refl
  | cons x rest ih =>
      unfold run at h
      split at h
      · obtain ⟨s₁, hs₁, hrest⟩ := Option.bind_eq_some_iff.mp h
        exact (Runs.refl.step ‹_› hs₁).trans (ih hrest)
      · cases h

theorem runs_get [∀ s t a, Decidable (C s t a)] {tr : List (T × A)}
    (h : (s₀.run P C tr).isSome) : Runs P C s₀ ((s₀.run P C tr).get h) :=
  runs_of_run tr (Option.some_get h).symm

/-- A step of thread `t` on the memory and its own local state. -/
def Alone (P : Program T A σ L) (t : T) (x y : σ × L) : Prop := ∃ a, P t a x.1 x.2 = some y

theorem Runs.of_alone {t : T} {l : L} {x : σ × L} (hl : s.loc t = l)
    (h : Relation.ReflTransGen (Alone P t) (s.mem, l) x) :
    Runs P (fun _ u _ ↦ u = t) s ⟨x.1, Function.update s.loc t x.2⟩ := by
  subst hl
  induction h with
  | refl =>
      rw [Function.update_eq_self]
      exact .refl
  | @tail y z _ hyz ih =>
      obtain ⟨a, ha⟩ := hyz
      have hP : P t a y.1 (Function.update s.loc t y.2 t) = some z := by
        rw [Function.update_self]
        exact ha
      have hstep := step_of_program (s := ⟨y.1, Function.update s.loc t y.2⟩) hP
      rw [Function.update_idem] at hstep
      exact ih.step rfl hstep

/-- What holds at the start and is kept by every step of a run holds throughout.
A step may be taken to start in a state of a run, so that the invariants already
known are at hand. -/
theorem Runs.invariant {I : Pool T σ L → Prop} (h : Runs P C s₀ s) (h₀ : I s₀)
    (hstep : ∀ s t a m l, Runs P C s₀ s → I s → C s t a →
      P t a s.mem (s.loc t) = some (m, l) → I ⟨m, Function.update s.loc t l⟩) : I s := by
  induction h with
  | refl => exact h₀
  | step hr hC hs ih =>
      obtain ⟨m, l, hP, rfl⟩ := step_eq_some hs
      exact hstep _ _ _ _ _ hr ih hC hP

theorem Runs.forall_loc {Q : T → L → Prop} (h : Runs P C s₀ s) (h₀ : ∀ t, Q t (s₀.loc t))
    (hstep : ∀ s t a m l, Runs P C s₀ s → Q t (s.loc t) → C s t a →
      P t a s.mem (s.loc t) = some (m, l) → Q t l) : ∀ t, Q t (s.loc t) := by
  refine h.invariant (I := fun s ↦ ∀ t, Q t (s.loc t)) h₀ ?_
  intro s t a m l hr hI hC hP u
  rcases eq_or_ne u t with rfl | hu
  · simpa using hstep s u a m l hr (hI u) hC hP
  · simpa [hu] using hI u

/-- While `N` holds, some thread is there to attend to it: a step that leaves `N`
true makes its own thread attend, or finds `N` true, does not take a thread that attends
away and does not make the others stop attending. -/
theorem Runs.exists_attends {N : σ → Prop} {R : σ → L → Prop} (h : Runs P C s₀ s)
    (h₀ : ¬ N s₀.mem)
    (hstep : ∀ s t a m l, Runs P C s₀ s → C s t a → P t a s.mem (s.loc t) = some (m, l) →
      N m → R m l ∨ (N s.mem ∧ ¬ R s.mem (s.loc t) ∧ ∀ l, R s.mem l → R m l)) :
    N s.mem → ∃ t, R s.mem (s.loc t) := by
  refine h.invariant (I := fun s ↦ N s.mem → ∃ t, R s.mem (s.loc t)) (fun hN ↦ (h₀ hN).elim) ?_
  intro s t a m l hr hI hC hP hN
  rcases hstep s t a m l hr hC hP hN with hl | ⟨hNs, hnot, hkeep⟩
  · exact ⟨t, by simpa using hl⟩
  · obtain ⟨u, hu⟩ := hI hNs
    have hut : u ≠ t := by
      rintro rfl
      exact hnot hu
    exact ⟨u, by simpa [hut] using hkeep _ hu⟩

theorem Runs.exists_loc {N : σ → Prop} {R : L → Prop} (h : Runs P C s₀ s) (h₀ : ¬ N s₀.mem)
    (hstep : ∀ s t a m l, Runs P C s₀ s → C s t a → P t a s.mem (s.loc t) = some (m, l) →
      N m → R l ∨ (N s.mem ∧ ¬ R (s.loc t))) : N s.mem → ∃ t, R (s.loc t) := by
  refine h.exists_attends (R := fun _ l ↦ R l) h₀ fun s t a m l hr hC hP hN ↦ ?_
  rcases hstep s t a m l hr hC hP hN with hl | ⟨hNs, hnot⟩
  · exact .inl hl
  · exact .inr ⟨hNs, hnot, fun _ ↦ id⟩

theorem not_infinite (μ : Pool T σ L → ℕ)
    (hstep : ∀ s s' t a, Runs P C s₀ s → C s t a → s.step P t a = some s' → μ s' < μ s)
    {f : ℕ → Pool T σ L} (h₀ : Runs P C s₀ (f 0)) :
    ¬ ∀ i, ∃ t a, C (f i) t a ∧ (f i).step P t a = some (f (i + 1)) := by
  intro hf
  have hruns : ∀ i, Runs P C s₀ (f i) := by
    intro i
    induction i with
    | zero => exact h₀
    | succ i ih =>
        obtain ⟨t, a, hC, hs⟩ := hf i
        exact ih.step hC hs
  refine not_strictAnti_of_wellFoundedLT (fun i ↦ μ (f i)) (strictAnti_nat_of_succ_lt fun i ↦ ?_)
  obtain ⟨t, a, hC, hs⟩ := hf i
  exact hstep _ _ _ _ (hruns i) hC hs

section Sums

variable [Fintype T] {M : Type*} [AddCommGroup M]

theorem sum_update (w : T → L → M) (loc : T → L) (t : T) (l : L) :
    ∑ u, w u (Function.update loc t l u) = ∑ u, w u (loc u) - w t (loc t) + w t l := by
  have hrest : ∑ u ∈ Finset.univ.erase t, w u (Function.update loc t l u) =
      ∑ u ∈ Finset.univ.erase t, w u (loc u) := by
    refine Finset.sum_congr rfl fun u hu ↦ ?_
    rw [Function.update_of_ne (Finset.ne_of_mem_erase hu)]
  rw [← Finset.add_sum_erase _ _ (Finset.mem_univ t),
    ← Finset.add_sum_erase (a := t) _ (fun u ↦ w u (loc u)) (Finset.mem_univ t), hrest,
    Function.update_self]
  abel

theorem sum_update₂ {N : Type*} (w : L → N → M) (loc : T → L) (n : T → N) (t : T) (l : L)
    (k : N) : ∑ u, w (Function.update loc t l u) (Function.update n t k u) =
      ∑ u, w (loc u) (n u) - w (loc t) (n t) + w l k := by
  rw [← sum_update (fun _ p ↦ w p.1 p.2) (fun u ↦ (loc u, n u)) t (l, k)]
  refine Finset.sum_congr rfl fun u _ ↦ ?_
  rcases eq_or_ne u t with rfl | hu <;> simp [*]

/-- Accounting: a quantity of the memory that every step changes by exactly what
the acting thread's share changes by is the sum of all shares. -/
theorem Runs.balance (f : σ → M) (w : T → L → M) (h : Runs P C s₀ s)
    (h₀ : f s₀.mem = ∑ u, w u (s₀.loc u))
    (hstep : ∀ s t a m l, Runs P C s₀ s → f s.mem = ∑ u, w u (s.loc u) → C s t a →
      P t a s.mem (s.loc t) = some (m, l) → f m - w t l = f s.mem - w t (s.loc t)) :
    f s.mem = ∑ u, w u (s.loc u) := by
  refine h.invariant (I := fun s ↦ f s.mem = ∑ u, w u (s.loc u)) h₀ ?_
  intro s t a m l hr hI hC hP
  have hloc : f m = f s.mem - w t (s.loc t) + w t l :=
    sub_eq_iff_eq_add.mp (hstep s t a m l hr hI hC hP)
  simp only [sum_update]
  rw [← hI, hloc]

end Sums

end Pool

/-! ## One thread at a time -/

section Moves

variable {T β : Type*}

/-- Thread `t` goes from `b` to `b'`; the others stay as they are. -/
def Moves (f f' : T → β) (t : T) (b b' : β) : Prop :=
  f t = b ∧ ∀ u, (u = t ∧ f' u = b') ∨ (u ≠ t ∧ f' u = f u)

theorem moves_update [DecidableEq T] {L : Type*} (f : L → β) (loc : T → L) (t : T) (l : L) :
    Moves (fun u ↦ f (loc u)) (fun u ↦ f (Function.update loc t l u)) t (f (loc t)) (f l) := by
  refine ⟨rfl, fun u ↦ ?_⟩
  rcases eq_or_ne u t with rfl | hu <;> simp [*]

theorem Moves.eq_of_eq {f f' : T → β} {t : T} {b : β} (h : Moves f f' t b b) : f' = f := by
  funext u
  rcases h.2 u with ⟨rfl, hu⟩ | ⟨-, hu⟩
  · rw [hu, h.1]
  · exact hu

theorem comp_update_of_eq [DecidableEq T] {L : Type*} (f : L → β) {loc : T → L} {t : T} {l : L}
    (h : f l = f (loc t)) :
    (fun u ↦ f (Function.update loc t l u)) = fun u ↦ f (loc u) := by
  funext u
  rcases eq_or_ne u t with rfl | hu <;> simp [*]

theorem exists_update [DecidableEq T] {L : Type*} {f : L → Bool} {loc : T → L} {t : T} {l' : L}
    (hf : f (loc t) = false) (h : ∃ u, f (loc u)) : ∃ u, f (Function.update loc t l' u) := by
  obtain ⟨u, hu⟩ := h
  have hut : u ≠ t := by
    rintro rfl
    rw [hf] at hu
    cases hu
  exact ⟨u, by simpa [hut] using hu⟩

theorem exists_self [DecidableEq T] {L : Type*} {f : L → Bool} {loc : T → L} {t : T} {l' : L}
    (hf : f l') : ∃ u, f (Function.update loc t l' u) :=
  ⟨t, by simpa using hf⟩

theorem eq_some_of_update [DecidableEq T] {L : Type*} {f : L → Option β} {loc : T → L} {t u : T}
    {l' : L} {b : β} (hl' : f l' = none) (h : f (Function.update loc t l' u) = some b) :
    u ≠ t ∧ f (loc u) = some b := by
  rcases eq_or_ne u t with rfl | hut
  · rw [Function.update_self, hl'] at h
    cases h
  · rw [Function.update_of_ne hut] at h
    exact ⟨hut, h⟩

/-- Numbered tasks: each number below `n` has been taken by one thread, which still
has it in hand or has done it. -/
structure Ledger (inHand : T → Option ℕ) (done : List ℕ) (n : ℕ) : Prop where
  done_nodup : done.Nodup
  inHand_notMem : ∀ t e, inHand t = some e → e ∉ done
  unique : ∀ t u e, inHand t = some e → inHand u = some e → t = u
  lt_of_done : ∀ e ∈ done, e < n
  lt_of_inHand : ∀ t e, inHand t = some e → e < n
  exists_of_lt : ∀ e < n, e ∉ done → ∃ t, inHand t = some e

theorem ledger_empty : Ledger (fun _ : T ↦ none) [] 0 := by
  constructor <;> simp

variable {inHand inHand' : T → Option ℕ} {done : List ℕ} {n e : ℕ} {t : T}

theorem Ledger.issue (h : Ledger inHand done n) (hm : Moves inHand inHand' t none (some n)) :
    Ledger inHand' done (n + 1) := by
  obtain ⟨ht, hmove⟩ := hm
  have hself := hmove t
  obtain ⟨done_nodup, inHand_notMem, unique, lt_of_done, lt_of_inHand, exists_of_lt⟩ := h
  constructor
  all_goals grind

theorem Ledger.settle (h : Ledger inHand done n) (hm : Moves inHand inHand' t (some e) none) :
    Ledger inHand' (e :: done) n := by
  obtain ⟨ht, hmove⟩ := hm
  obtain ⟨done_nodup, inHand_notMem, unique, lt_of_done, lt_of_inHand, exists_of_lt⟩ := h
  constructor
  all_goals grind

end Moves

end Interleaving
