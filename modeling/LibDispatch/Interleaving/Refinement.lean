import LibDispatch.Interleaving.Pool

/-!
# Runs of one program as runs of another

A program refines another one if each of its steps is a step of the other one, or none.

What a program does can also be recorded beside its memory: a record is a value that each
step changes by the places between which the thread moves, without any influence on the
steps.  Where the places do not settle what is recorded, each step may choose it.  A record
may also be kept by an observer that sees the whole step.
-/

namespace Interleaving

variable {T A B σ L H : Type*}

/-- If every step of a program is a step of `P` on the parts given by `f` and `g`, or
leaves them as they are, then its runs are runs of `P`. -/
theorem Pool.Runs.refines [DecidableEq T] {A' σ' L' : Type*} {P : Program T A σ L}
    {P' : Program T A' σ' L'} {C' : Pool T σ' L' → T → A' → Prop} {s₀ s : Pool T σ' L'}
    (f : σ' → σ) (g : L' → L) (h : Pool.Runs P' C' s₀ s)
    (hstep : ∀ t a m l m' l', P' t a m l = some (m', l') →
      (f m' = f m ∧ g l' = g l) ∨ ∃ b, P t b (f m) (g l) = some (f m', g l')) :
    Pool.Reachable P ⟨f s₀.mem, fun t ↦ g (s₀.loc t)⟩ ⟨f s.mem, fun t ↦ g (s.loc t)⟩ := by
  induction h with
  | refl => exact .refl
  | @step s s' t a _ _ hs ih =>
      obtain ⟨m, l, hP, rfl⟩ := step_eq_some hs
      have hloc : (fun u ↦ g (Function.update s.loc t l u)) =
          Function.update (fun u ↦ g (s.loc u)) t (g l) := by
        funext u
        rcases eq_or_ne u t with rfl | hu <;> simp [*]
      rcases hstep t a _ _ m l hP with ⟨hf, hg⟩ | ⟨b, hb⟩
      · dsimp only
        rw [hloc, hf, hg, Function.update_eq_self]
        exact ih
      · dsimp only
        rw [hloc]
        exact ih.step trivial (step_of_program hb)

/-- The program that also keeps a record; `next` may refuse a choice. -/
def Program.record (P : Program T A σ L) (next : T → B → L → L → H → Option H) :
    Program T (A × B) (σ × H) L := fun t a m l ↦
  (P t a.1 m.1 l).bind fun r ↦ (next t a.2 l r.2 m.2).map fun h ↦ ((r.1, h), r.2)

theorem Program.record_eq_some {P : Program T A σ L} {next : T → B → L → L → H → Option H}
    {t : T} {a : A × B} {m m' : σ × H} {l l' : L} (h : P.record next t a m l = some (m', l')) :
    P t a.1 m.1 l = some (m'.1, l') ∧ next t a.2 l l' m.2 = some m'.2 := by
  obtain ⟨⟨m₁, l₁⟩, hP, hrest⟩ := Option.bind_eq_some_iff.mp h
  obtain ⟨hist, hnext, heq⟩ := Option.map_eq_some_iff.mp hrest
  cases heq
  exact ⟨hP, hnext⟩

/-- The program whose steps are written down by an observer. -/
def Program.observe (P : Program T A σ L) (next : T → A → σ → L → H → H) :
    Program T A (σ × H) L := fun t a m l ↦
  (P t a m.1 l).map fun r ↦ ((r.1, next t a m.1 l m.2), r.2)

theorem Program.observe_eq_some {P : Program T A σ L} {next : T → A → σ → L → H → H} {t : T}
    {a : A} {m m' : σ × H} {l l' : L} (h : P.observe next t a m l = some (m', l')) :
    P t a m.1 l = some (m'.1, l') ∧ m'.2 = next t a m.1 l m.2 := by
  obtain ⟨⟨m₁, l₁⟩, hP, heq⟩ := Option.map_eq_some_iff.mp h
  cases heq
  exact ⟨hP, rfl⟩

theorem Program.observe_of_program {P : Program T A σ L} {next : T → A → σ → L → H → H} {t : T}
    {a : A} {m : σ × H} {m' : σ} {l l' : L} (h : P t a m.1 l = some (m', l')) :
    P.observe next t a m l = some ((m', next t a m.1 l m.2), l') := by
  simp [Program.observe, h]

namespace Pool

def forget (s : Pool T (σ × H) L) : Pool T σ L := ⟨s.mem.1, s.loc⟩

def recorded (s : Pool T σ L) (h : H) : Pool T (σ × H) L := ⟨(s.mem, h), s.loc⟩

variable [DecidableEq T] {P : Program T A σ L} {next : T → B → L → L → H → Option H}
  {C : Pool T σ L → T → A → Prop} {s₀ : Pool T σ L} {h₀ : H}

theorem Runs.forget {s : Pool T (σ × H) L}
    (h : Runs (P.record next) (fun s t a ↦ C s.forget t a.1) (s₀.recorded h₀) s) :
    Runs P C s₀ s.forget := by
  induction h with
  | refl => exact .refl
  | step _ hC hs ih =>
      obtain ⟨m, l, hP, rfl⟩ := step_eq_some hs
      exact ih.step hC (step_of_program (Program.record_eq_some hP).1)

theorem Runs.unobserved {next : T → A → σ → L → H → H} {s : Pool T (σ × H) L}
    (h : Runs (P.observe next) (fun s t a ↦ C s.forget t a) (s₀.recorded h₀) s) :
    Runs P C s₀ s.forget := by
  induction h with
  | refl => exact .refl
  | step _ hC hs ih =>
      obtain ⟨m, l, hP, rfl⟩ := step_eq_some hs
      exact ih.step hC (step_of_program (Program.observe_eq_some hP).1)

theorem Runs.exists_observed {next : T → A → σ → L → H → H} {s : Pool T σ L}
    (h : Runs P C s₀ s) : ∃ hist, Runs (P.observe next) (fun s t a ↦ C s.forget t a)
      (s₀.recorded h₀) (s.recorded hist) := by
  induction h with
  | refl => exact ⟨h₀, .refl⟩
  | @step s s' t a _ hC hs ih =>
      obtain ⟨hist, hrun⟩ := ih
      obtain ⟨m, l, hP, rfl⟩ := step_eq_some hs
      have hobs : P.observe next t a (s.mem, hist) (s.loc t) =
          some ((m, next t a s.mem (s.loc t) hist), l) := Program.observe_of_program hP
      exact ⟨_, hrun.step (t := t) (a := a) hC (step_of_program hobs)⟩

theorem Runs.exists_record {s : Pool T σ L} (h : Runs P C s₀ s)
    (hnext : ∀ (s : Pool T (σ × H) L) t a m l,
      Runs (P.record next) (fun s t a ↦ C s.forget t a.1) (s₀.recorded h₀) s →
      P t a s.mem.1 (s.loc t) = some (m, l) → ∃ b, (next t b (s.loc t) l s.mem.2).isSome) :
    ∃ hist, Runs (P.record next) (fun s t a ↦ C s.forget t a.1) (s₀.recorded h₀)
      (s.recorded hist) := by
  induction h with
  | refl => exact ⟨h₀, .refl⟩
  | @step s s' t a hr hC hs ih =>
      obtain ⟨hist, hrun⟩ := ih
      obtain ⟨m, l, hP, rfl⟩ := step_eq_some hs
      obtain ⟨b, hb⟩ := hnext _ t a m l hrun hP
      obtain ⟨hist', hb⟩ := Option.isSome_iff_exists.mp hb
      refine ⟨hist', hrun.step (t := t) (a := (a, b)) hC (step_of_program ?_)⟩
      simp only [Program.record, Pool.recorded] at hb ⊢
      rw [hP, Option.bind_some, hb, Option.map_some]

end Pool

end Interleaving
