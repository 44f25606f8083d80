import LibDispatch.Interleaving.Pool

/-!
# Threads with a stack of calls

A thread has a register of its own and a stack of activations, the innermost one
first.  Each activation comes with what the register held when it was called.  A body
says what the innermost activation does: it goes on, it calls, or it returns.  An
assertion about one activation, at its height in the stack, with the register and with
its value on entry, holds of whole stacks when every activation satisfies it with the
value that it will find when the ones above it have returned.
-/

namespace Interleaving

/-- What an activation does after it has changed the memory and the register. -/
inductive Next (F R : Type*)
  | goto (f : F)
  | call (f callee : F)
  | ret (r : R)

/-- What an assertion has to say after a step of an activation at height `n` that was
entered with `e`, when the register holds `k`.  An activation returns with the register
as it found it. -/
def Next.Sound {F R K : Type*} (ok : ℕ → F → K → K → Prop) (n : ℕ) (e k : K) : Next F R → Prop
  | .goto f => ok n f k e
  | .call f callee => ok n f k e ∧ ok (n + 1) callee k k
  | .ret _ => k = e

/-- The register and the activations of one thread. -/
structure Calls (K F : Type*) where
  key : K
  stack : List (F × K)
  deriving DecidableEq

/-- One step of the innermost activation `f` of thread `t`, at height `n`. -/
abbrev Body (T A σ K F R : Type*) := T → A → σ → ℕ → K → F → Option (σ × K × Next F R)

namespace Calls

variable {T A σ K F R : Type*}

/-- The stack after the innermost activation has done `x`; `resume` gives the result of
a call to the one that made it.  The outermost activation does not return. -/
def follow (resume : F → R → F) (e : K) (rest : List (F × K)) (k : K) :
    Next F R → Option (Calls K F)
  | .goto f => some ⟨k, (f, e) :: rest⟩
  | .call f callee => some ⟨k, (callee, k) :: (f, e) :: rest⟩
  | .ret r =>
      match rest with
      | [] => none
      | (f, d) :: rest => some ⟨k, (resume f r, d) :: rest⟩

/-- The program of threads whose innermost activations take the steps of `body`. -/
def program (body : Body T A σ K F R) (resume : F → R → F) : Program T A σ (Calls K F) :=
  fun t a m c ↦
    match c.stack with
    | [] => none
    | (f, e) :: rest =>
        (body t a m rest.length c.key f).bind fun r ↦
          (follow resume e rest r.2.1 r.2.2).map fun c ↦ (r.1, c)

/-- Every activation satisfies `ok`, given its height, what the register holds when it
is the innermost one, and what it held on entry. -/
def Disciplined (ok : ℕ → F → K → K → Prop) : K → List (F × K) → Prop
  | _, [] => True
  | k, (f, e) :: rest => ok rest.length f k e ∧ Disciplined ok e rest

variable {ok ok' : ℕ → F → K → K → Prop} {resume : F → R → F} {body : Body T A σ K F R}

theorem program_eq_some {t : T} {a : A} {m m' : σ} {c c' : Calls K F}
    (h : program body resume t a m c = some (m', c')) :
    ∃ f e rest k x, c.stack = (f, e) :: rest ∧
      body t a m rest.length c.key f = some (m', k, x) ∧
      follow resume e rest k x = some c' := by
  unfold program at h
  split at h
  case h_1 => cases h
  case h_2 f e rest hstack =>
    obtain ⟨⟨m₁, k, x⟩, hbody, hx⟩ := Option.bind_eq_some_iff.mp h
    obtain ⟨c₁, hfollow, heq⟩ := Option.map_eq_some_iff.mp hx
    obtain ⟨rfl, rfl⟩ := Prod.mk.inj heq
    exact ⟨f, e, rest, k, x, hstack, hbody, hfollow⟩

theorem Disciplined.mono {k : K} {stack : List (F × K)} (h : Disciplined ok k stack)
    (hok : ∀ n f k e, n < stack.length → ok n f k e → ok' n f k e) :
    Disciplined ok' k stack := by
  induction stack generalizing k with
  | nil => trivial
  | cons x rest ih =>
      refine ⟨hok _ _ _ _ (Nat.lt_succ_self _) h.1, ih h.2 ?_⟩
      intro n f k e hn
      exact hok n f k e (hn.trans (Nat.lt_succ_self _))

theorem Disciplined.follow {e k : K} {rest : List (F × K)} {x : Next F R} {c : Calls K F}
    (hresume : ∀ n f k e r, ok n f k e → ok n (resume f r) k e)
    (hrest : Disciplined ok e rest) (hx : x.Sound ok rest.length e k)
    (hc : follow resume e rest k x = some c) : Disciplined ok c.key c.stack := by
  cases x with
  | goto f =>
      obtain rfl := Option.some.inj hc
      exact ⟨hx, hrest⟩
  | call f callee =>
      obtain rfl := Option.some.inj hc
      exact ⟨hx.2, hx.1, hrest⟩
  | ret r =>
      obtain rfl : k = e := hx
      cases rest with
      | nil => cases hc
      | cons y rest =>
          obtain rfl := Option.some.inj hc
          exact ⟨hresume _ _ _ _ _ hrest.1, hrest.2⟩

variable [DecidableEq T]

/-- The rule for stacks.  A step of the innermost activation is sound for itself, and
changes the memory only in such a way (`guarantee`) that `ok` stays true of the other
threads and of the activations below. -/
theorem disciplined_of_run {ok : σ → T → ℕ → F → K → K → Prop} {I : σ → Prop}
    {guarantee : σ → T → ℕ → σ → Prop} {C : Pool T σ (Calls K F) → T → A → Prop}
    {s₀ s : Pool T σ (Calls K F)}
    (hstable : ∀ m t n m' u i f k e, guarantee m t n m' → (u = t → i < n) →
      ok m u i f k e → ok m' u i f k e)
    (hresume : ∀ m t n f k e r, ok m t n f k e → ok m t n (resume f r) k e)
    (hbody : ∀ t a m n k f e m' k' x, I m → ok m t n f k e →
      body t a m n k f = some (m', k', x) →
      I m' ∧ guarantee m t n m' ∧ x.Sound (ok m' t) n e k')
    (h₀ : I s₀.mem ∧ ∀ t, Disciplined (ok s₀.mem t) (s₀.loc t).key (s₀.loc t).stack)
    (h : Pool.Runs (program body resume) C s₀ s) :
    I s.mem ∧ ∀ t, Disciplined (ok s.mem t) (s.loc t).key (s.loc t).stack := by
  refine h.invariant (I := fun s ↦ I s.mem ∧
    ∀ t, Disciplined (ok s.mem t) (s.loc t).key (s.loc t).stack) h₀ ?_
  intro s t a m c _ hI _ hstep
  obtain ⟨f, e, rest, k, x, hstack, hb, hfollow⟩ := program_eq_some hstep
  have htop := hI.2 t
  rw [hstack] at htop
  obtain ⟨hm, hguar, hx⟩ := hbody t a s.mem rest.length _ f e m k x hI.1 htop.1 hb
  refine ⟨hm, fun u ↦ ?_⟩
  rcases eq_or_ne u t with rfl | hu
  · have hrest : Disciplined (ok m u) e rest :=
      htop.2.mono fun n f k e hn ↦ hstable _ _ _ _ _ _ _ _ _ hguar fun _ ↦ hn
    simpa using Disciplined.follow (hresume m u) hrest hx hfollow
  · have hother : Disciplined (ok m u) (s.loc u).key (s.loc u).stack :=
      (hI.2 u).mono fun n f k e _ ↦ hstable _ _ _ _ _ _ _ _ _ hguar fun h ↦ (hu h).elim
    simpa [hu] using hother

end Calls

end Interleaving
