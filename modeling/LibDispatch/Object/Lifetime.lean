import LibDispatch.Object.Model

/-!
# An object is disposed of once, after its last reference

Both counts are balanced against the references that are owned and those that a
release has taken in hand but not yet counted down.  The decrement that brings
`do_ref_cnt` to zero therefore finds nothing owned any more, and only the
thread that made it goes on to dispose of the object.
-/

namespace LibDispatch.Object

open Interleaving

variable {Q T : Type*} {kind : Kind} {m m' : Mem Q} {l l' : Loc Q}

/-! ## What a thread has in hand -/

/-- External references given up and not yet counted down. -/
def Loc.xrefs : Loc Q → ℤ
  | .releaseTest | .releaseDec => 1
  | _ => 0

/-- Internal references given up and not yet counted down, among them the one that belonged to
all external references together. -/
def Loc.refs : Loc Q → ℤ
  | .suspendedTest | .wakeup | .wakeupTest | .wakeupInc | .releaseInternalTest
  | .releaseInternalDec | .crashed .releaseSuspended => 1
  | _ => 0

/-- Between the last decrement and the call of the dispose function. -/
def Loc.finals : Loc Q → ℤ
  | .nextTest | .xrefTest | .dispose => 1
  | _ => 0

/-- In the dispose function, before the target queue is released. -/
def Loc.disposals : Loc Q → ℤ
  | .disposeRead | .finalize _ _ | .releaseTarget _ | .crashed .releaseByItself
  | .crashed .releaseWithItems | .crashed .deallocatedInUse => 1
  | _ => 0

def Loc.target : Loc Q → Option Q
  | .finalize tq _ | .releaseTarget tq => some tq
  | _ => none

theorem Loc.shares_nonneg (l : Loc Q) :
    0 ≤ l.xrefs ∧ 0 ≤ l.refs ∧ 0 ≤ l.finals ∧ 0 ≤ l.disposals := by
  refine ⟨?_, ?_, ?_, ?_⟩
  · unfold Loc.xrefs; split <;> decide
  · unfold Loc.refs; split <;> decide
  · unfold Loc.finals; split <;> decide
  · unfold Loc.disposals; split <;> decide

/-- The crashes that a client of the object can bring about: it releases the last reference
while the object is suspended, or while the queue or semaphore is in use. -/
def Kind.Allows (kind : Kind) (c : Crash) : Prop :=
  c = .releaseSuspended ∨ c ∈ kind.disposeCrashes

theorem disposals_of_mem {c : Crash} (h : c ∈ kind.disposeCrashes) :
    (Loc.crashed c : Loc Q).xrefs = 0 ∧ (Loc.crashed c : Loc Q).refs = 0 ∧
      (Loc.crashed c : Loc Q).finals = 0 ∧ (Loc.crashed c : Loc Q).disposals = 1 := by
  cases kind <;> simp only [Kind.disposeCrashes, List.mem_cons, List.not_mem_nil, or_false] at h
  · rcases h with rfl | rfl <;> exact ⟨rfl, rfl, rfl, rfl⟩
  · rcases h with rfl | rfl <;> exact ⟨rfl, rfl, rfl, rfl⟩
  · subst h
    exact ⟨rfl, rfl, rfl, rfl⟩

/-! ## One step -/

/-- The two counts and the two kinds of history against what all threads together have in
hand. -/
structure Balance (m : Mem Q) (xrefs refs finals disposals : ℤ) : Prop where
  xref : m.doXrefCnt = m.external + xrefs
  ref : m.doRefCnt = m.internal + (if m.listless then 0 else 1) +
    (if 0 < m.doXrefCnt then 1 else 0) + refs
  xref_lt : m.doXrefCnt < globalRefcnt
  ref_lt : m.doRefCnt < globalRefcnt
  final : finals + m.disposes = if m.doRefCnt = 0 then 1 else 0
  disposal : m.disposes = disposals + m.targetReleases.length

theorem wrap_of_small {x : ℤ} (hlo : -1 ≤ x) (hhi : x ≤ globalRefcnt) : wrap x = x :=
  wrap_of_mem (by unfold longMin; omega) (by unfold longMax; unfold globalRefcnt at hhi; omega)

/-- What the clients' discipline says at a place. -/
structure Place (m : Mem Q) (l : Loc Q) : Prop where
  external : l = .retainTest ∨ l = .retainInc → 0 < m.external
  held : l = .retainInternalTest ∨ l = .retainInternalInc → m.Held
  xref : l = .retainInc → m.doXrefCnt + 1 < globalRefcnt
  ref : l = .retainInternalInc ∨ l = .wakeupInc → m.doRefCnt + 1 < globalRefcnt

section Balance

variable {x r f d : ℤ}

theorem Balance.retain (h : Balance m x r f d) (hx : 0 ≤ x)
    (hpos : 0 < m.external) (hlt : m.doXrefCnt + 1 < globalRefcnt) :
    Balance { m with doXrefCnt := m.doXrefCnt + 1, external := m.external + 1 } x r f d :=
  { h with
    xref := by
      have hxref := h.xref
      push_cast
      omega
    ref := by
      have hxref := h.xref
      have href := h.ref
      rw [if_pos (show 0 < m.doXrefCnt by omega)] at href
      rw [if_pos (show 0 < m.doXrefCnt + 1 by omega)]
      exact href
    xref_lt := hlt }

theorem Balance.release (h : Balance m x r f d) (hpos : 0 < m.external) :
    Balance { m with external := m.external - 1 } (x + 1) r f d :=
  { h with
    xref := by
      have hxref := h.xref
      push_cast [Nat.cast_pred hpos]
      omega }

theorem Balance.released (h : Balance m x r f d) (hlt : 1 < m.doXrefCnt) :
    Balance { m with doXrefCnt := m.doXrefCnt - 1 } (x - 1) r f d :=
  { h with
    xref := by
      have hxref := h.xref
      dsimp only
      omega
    ref := by
      have href := h.ref
      rw [if_pos (show 0 < m.doXrefCnt by omega)] at href
      rw [if_pos (show 0 < m.doXrefCnt - 1 by omega)]
      exact href
    xref_lt := by
      have hbound := h.xref_lt
      dsimp only
      omega }

theorem Balance.releasedLast (h : Balance m x r f d) (hone : m.doXrefCnt = 1) :
    Balance { m with doXrefCnt := m.doXrefCnt - 1 } (x - 1) (r + 1) f d :=
  { h with
    xref := by
      have hxref := h.xref
      dsimp only
      omega
    ref := by
      have href := h.ref
      rw [if_pos (show 0 < m.doXrefCnt by omega)] at href
      rw [if_neg (show ¬ 0 < m.doXrefCnt - 1 by omega)]
      dsimp only
      omega
    xref_lt := by
      have hbound := h.xref_lt
      dsimp only
      omega }

theorem Balance.retainInternal (h : Balance m x r f d) (hpos : 0 < m.doRefCnt)
    (hlt : m.doRefCnt + 1 < globalRefcnt) :
    Balance { m with doRefCnt := m.doRefCnt + 1, internal := m.internal + 1 } x r f d :=
  { h with
    ref := by
      have href := h.ref
      push_cast
      omega
    ref_lt := hlt
    final := by
      have hfinal := h.final
      rw [if_neg (by omega)] at hfinal
      rwa [if_neg (show m.doRefCnt + 1 ≠ 0 by omega)] }

theorem Balance.releaseInternal (h : Balance m x r f d) (hpos : 0 < m.internal) :
    Balance { m with internal := m.internal - 1 } x (r + 1) f d :=
  { h with
    ref := by
      have href := h.ref
      push_cast [Nat.cast_pred hpos]
      omega }

theorem Balance.push (h : Balance m x r f d) (hpos : 0 < m.internal) (hlist : m.listless = true) :
    Balance { m with internal := m.internal - 1, listless := false } x r f d :=
  { h with
    ref := by
      have href := h.ref
      rw [if_pos hlist] at href
      rw [if_neg Bool.false_ne_true]
      push_cast [Nat.cast_pred hpos]
      omega }

theorem Balance.pop (h : Balance m x r f d) (hlist : m.listless = false) :
    Balance { m with internal := m.internal + 1, listless := true } x r f d :=
  { h with
    ref := by
      have href := h.ref
      rw [if_neg (by simp [hlist])] at href
      rw [if_pos rfl]
      push_cast
      omega }

theorem Balance.releasedInternal (h : Balance m x r f d) (hlt : 1 < m.doRefCnt) :
    Balance { m with doRefCnt := m.doRefCnt - 1 } x (r - 1) f d :=
  { h with
    ref := by
      have href := h.ref
      dsimp only
      omega
    ref_lt := by
      have hbound := h.ref_lt
      dsimp only
      omega
    final := by
      have hfinal := h.final
      rw [if_neg (by omega)] at hfinal
      rwa [if_neg (show m.doRefCnt - 1 ≠ 0 by omega)] }

theorem Balance.releasedInternalLast (h : Balance m x r f d) (hone : m.doRefCnt = 1) :
    Balance { m with doRefCnt := m.doRefCnt - 1 } x (r - 1) (f + 1) d :=
  { h with
    ref := by
      have href := h.ref
      dsimp only
      omega
    ref_lt := by
      have hbound := h.ref_lt
      dsimp only
      omega
    final := by
      have hfinal := h.final
      rw [if_neg (by omega)] at hfinal
      rw [if_pos (show m.doRefCnt - 1 = 0 by omega)]
      dsimp only
      omega }

theorem Balance.dispose (h : Balance m x r f d) :
    Balance { m with disposes := m.disposes + 1 } x r (f - 1) (d + 1) :=
  { h with
    final := by
      have hfinal := h.final
      push_cast
      omega
    disposal := by
      have hdisposal := h.disposal
      push_cast
      omega }

theorem Balance.releaseTarget (h : Balance m x r f d) (tq : Q) :
    Balance { m with targetReleases := tq :: m.targetReleases } x r f (d - 1) :=
  { h with
    disposal := by
      have hdisposal := h.disposal
      rw [List.length_cons]
      push_cast
      omega }

theorem Balance.write (h : Balance m x r f d) (suspended finalizes : Bool) (targetq : Q)
    (finalizers : List Q) :
    Balance { m with suspended, finalizes, targetq, finalizers } x r f d :=
  ⟨h.xref, h.ref, h.xref_lt, h.ref_lt, h.final, h.disposal⟩

theorem Balance.ref_pos_of_held (h : Balance m x r f d) (hx : 0 ≤ x) (hr : 0 ≤ r)
    (hheld : m.Held) : 0 < m.doRefCnt := by
  have hxref := h.xref
  have href := h.ref
  rcases hheld with hpos | hpos | hlist
  · rw [if_pos (show 0 < m.doXrefCnt by omega)] at href
    split_ifs at href <;> omega
  · split_ifs at href <;> omega
  · rw [if_neg (by simp [hlist])] at href
    split_ifs at href <;> omega

theorem Balance.ref_pos_of_refs (h : Balance m x r f d) (hr : 1 ≤ r) : 0 < m.doRefCnt := by
  have href := h.ref
  split_ifs at href <;> omega

theorem Balance.of_ref_eq_zero (h : Balance m x r f d) (hx : 0 ≤ x) (hr : 0 ≤ r)
    (hzero : m.doRefCnt = 0) : m.doXrefCnt = 0 ∧ ¬ m.Held := by
  have hxref := h.xref
  have href := h.ref
  refine ⟨?_, fun hheld ↦ ?_⟩
  · split_ifs at href <;> omega
  · have hpos := h.ref_pos_of_held hx hr hheld
    omega

theorem Balance.xref_bounds (h : Balance m x r f d) (hx : 0 ≤ x) (hr : 0 ≤ r) :
    0 ≤ m.doXrefCnt ∧ 0 ≤ m.doRefCnt := by
  have hxref := h.xref
  have href := h.ref
  refine ⟨by omega, ?_⟩
  split_ifs at href <;> omega

theorem Balance.of_final (h : Balance m x r f d) (hx : 0 ≤ x) (hr : 0 ≤ r) (hf : 1 ≤ f) :
    m.doXrefCnt = 0 ∧ m.listless = true := by
  have hfinal := h.final
  have hzero : m.doRefCnt = 0 := by
    by_contra hne
    rw [if_neg hne] at hfinal
    omega
  obtain ⟨hxzero, hheld⟩ := h.of_ref_eq_zero hx hr hzero
  unfold Mem.Held at hheld
  exact ⟨hxzero, by simpa using (not_or.mp (not_or.mp hheld).2).2⟩

theorem wrap_pred {v : ℤ} (hv : 0 ≤ v) (hlt : v < globalRefcnt) : wrap (v - 1) = v - 1 :=
  wrap_of_small (by omega) (by omega)

theorem wrap_succ {v : ℤ} (hv : 0 ≤ v) (hlt : v < globalRefcnt) : wrap (v + 1) = v + 1 :=
  wrap_of_small (by omega) (by omega)

theorem wrap_wrap_pred {v : ℤ} (hv : 0 ≤ v) (hlt : v < globalRefcnt) :
    wrap (wrap (v - 1) + 1) = v := by
  rw [wrap_pred hv hlt, sub_add_cancel]
  exact wrap_of_small (by omega) (by omega)

theorem wrap_wrap_succ {v : ℤ} (hv : 0 ≤ v) (hlt : v < globalRefcnt) :
    wrap (wrap (v + 1) - 1) = v := by
  rw [wrap_succ hv hlt, add_sub_cancel_right]
  exact wrap_of_small (by omega) (by omega)

/-- A caller of `_dispatch_retain` relies on a reference that is owned or on the one it has
in hand, and goes on with the same in hand. -/
theorem InternalRetain.shares {l₀ l₁ l₂ : Loc Q} (h : InternalRetain l₀ l₁ l₂) :
    l₁.xrefs = l₀.xrefs ∧ l₁.refs = l₀.refs ∧ l₁.finals = l₀.finals ∧
      l₁.disposals = l₀.disposals ∧ l₂.xrefs = l₀.xrefs ∧ l₂.refs = l₀.refs ∧
      l₂.finals = l₀.finals ∧ l₂.disposals = l₀.disposals ∧
      (l₁ = .retainInternalInc ∨ l₁ = .wakeupInc ∧ l₁.refs = 1) := by
  cases h
  · exact ⟨rfl, rfl, rfl, rfl, rfl, rfl, rfl, rfl, .inl rfl⟩
  · exact ⟨rfl, rfl, rfl, rfl, rfl, rfl, rfl, rfl, .inr ⟨rfl, rfl⟩⟩

theorem InternalRetain.not_crashed {l₀ l₁ l₂ : Loc Q} (h : InternalRetain l₀ l₁ l₂) (c : Crash) :
    l₁ ≠ .crashed c ∧ l₂ ≠ .crashed c := by
  cases h <;> exact ⟨nofun, nofun⟩

/-- Every step keeps the balance, and the steps that would crash the process are not taken,
but for those the clients are to blame for. -/
theorem Trans.balance (ht : Trans kind m l m' l') (hp : Place m l) (h : Balance m x r f d)
    (hx : l.xrefs ≤ x) (hr : l.refs ≤ r) (hf : l.finals ≤ f) :
    Balance m' (x - l.xrefs + l'.xrefs) (r - l.refs + l'.refs) (f - l.finals + l'.finals)
        (d - l.disposals + l'.disposals) ∧
      ∀ c, l' = .crashed c → kind.Allows c := by
  obtain ⟨hx₀, hr₀, hf₀, -⟩ := l.shares_nonneg
  have hx₁ := hx₀.trans hx
  have hr₁ := hr₀.trans hr
  obtain ⟨hxref, href⟩ := h.xref_bounds hx₁ hr₁
  have hxlt := h.xref_lt
  have hlt := h.ref_lt
  have hlast : 1 ≤ f → m.doXrefCnt = 0 ∧ m.listless = true := h.of_final hx₁ hr₁
  have hheld : l = .retainInternalInc → 0 < m.doRefCnt := fun hl ↦
    h.ref_pos_of_held hx₁ hr₁ (hp.held (.inr hl))
  have hhand : l = .wakeupInc ∧ l.refs = 1 → 0 < m.doRefCnt := fun hl ↦
    h.ref_pos_of_refs (hl.2 ▸ hr)
  cases ht with
  | retain | retainInternal | retainCounted | wake | noWake | releaseCounted
  | objectReleased _ | sourceReleased _ | releaseInternalCounted | nextListless _ | xrefZero _
  | noFinalizer | disposeRead =>
      exact ⟨by simpa [Loc.xrefs, Loc.refs, Loc.finals, Loc.disposals] using h, nofun⟩
  | release hpos =>
      exact ⟨by simpa [Loc.xrefs, Loc.refs, Loc.finals, Loc.disposals] using h.release hpos, nofun⟩
  | releaseInternal hpos =>
      exact ⟨by simpa [Loc.xrefs, Loc.refs, Loc.finals, Loc.disposals] using
        h.releaseInternal hpos, nofun⟩
  | push hpos hlist => exact ⟨by simpa using h.push hpos hlist, nofun⟩
  | pop hlist => exact ⟨by simpa using h.pop hlist, nofun⟩
  | suspend suspended _ =>
      exact ⟨by simpa using h.write suspended m.finalizes m.targetq m.finalizers, nofun⟩
  | setTarget targetq _ =>
      exact ⟨by simpa using h.write m.suspended m.finalizes targetq m.finalizers, nofun⟩
  | setFinalizer finalizes _ =>
      exact ⟨by simpa using h.write m.suspended finalizes m.targetq m.finalizers, nofun⟩
  | retainGlobal heq | releaseGlobal heq => exact absurd heq hxlt.ne
  | retainInternalGlobal _ heq | releaseInternalGlobal heq => exact absurd heq hlt.ne
  | retained _ =>
      rw [wrap_succ hxref hxlt]
      exact ⟨by simpa [Loc.xrefs, Loc.refs, Loc.finals, Loc.disposals] using
        h.retain hx₁ (hp.external (.inr rfl)) (hp.xref rfl), nofun⟩
  | resurrected hzero =>
      rw [wrap_wrap_succ hxref hxlt] at hzero
      have hcount := h.xref
      have hpos := hp.external (.inr rfl)
      omega
  | retainInternalCounted hret =>
      obtain ⟨h₁, h₂, h₃, h₄, -⟩ := hret.shares
      exact ⟨by simpa [h₁, h₂, h₃, h₄] using h, fun c hc ↦ ((hret.not_crashed c).1 hc).elim⟩
  | retainedInternal hret _ =>
      obtain ⟨h₁, h₂, h₃, h₄, h₅, h₆, h₇, h₈, hinc⟩ := hret.shares
      rw [wrap_succ href hlt]
      have hret' := h.retainInternal (hinc.elim hheld hhand) (hp.ref (hinc.imp_right And.left))
      exact ⟨by simpa [h₁, h₂, h₃, h₄, h₅, h₆, h₇, h₈] using hret',
        fun c hc ↦ ((hret.not_crashed c).2 hc).elim⟩
  | resurrectedInternal hret hzero =>
      obtain ⟨-, -, -, -, -, -, -, -, hinc⟩ := hret.shares
      rw [wrap_wrap_succ href hlt] at hzero
      exact absurd hzero (hinc.elim hheld hhand).ne'
  | released hgt =>
      rw [wrap_wrap_pred hxref hxlt] at hgt
      rw [wrap_pred hxref hxlt]
      exact ⟨by simpa [Loc.xrefs, Loc.refs, Loc.finals, Loc.disposals] using h.released hgt, nofun⟩
  | releasedLast hone =>
      rw [wrap_wrap_pred hxref hxlt] at hone
      rw [wrap_pred hxref hxlt]
      exact ⟨by simpa [Loc.xrefs, Loc.refs, Loc.finals, Loc.disposals] using
        h.releasedLast hone, nofun⟩
  | overReleased hlow =>
      rw [wrap_wrap_pred hxref hxlt] at hlow
      have hcount := h.xref
      change 1 ≤ x at hx
      omega
  | releaseSuspended _ =>
      refine ⟨by simpa [Loc.xrefs, Loc.refs, Loc.finals, Loc.disposals] using h, fun c hc ↦ ?_⟩
      cases hc
      exact .inl rfl
  | releasedInternal hgt =>
      rw [wrap_wrap_pred href hlt] at hgt
      rw [wrap_pred href hlt]
      exact ⟨by simpa [Loc.xrefs, Loc.refs, Loc.finals, Loc.disposals] using
        h.releasedInternal hgt, nofun⟩
  | releasedInternalLast hone =>
      rw [wrap_wrap_pred href hlt] at hone
      rw [wrap_pred href hlt]
      exact ⟨by simpa [Loc.xrefs, Loc.refs, Loc.finals, Loc.disposals] using
        h.releasedInternalLast hone, nofun⟩
  | overReleasedInternal hlow =>
      rw [wrap_wrap_pred href hlt] at hlow
      have hpos := h.ref_pos_of_refs hr
      omega
  | nextEnqueued hlist => exact absurd ((hlast hf).2.symm.trans hlist) (by decide)
  | xrefExternal hne => exact absurd (hlast hf).1 hne
  | dispose =>
      exact ⟨by simpa [Loc.xrefs, Loc.refs, Loc.finals, Loc.disposals] using h.dispose, nofun⟩
  | trap hmem =>
      obtain ⟨h₁, h₂, h₃, h₄⟩ := disposals_of_mem (Q := Q) hmem
      refine ⟨?_, fun c hc ↦ ?_⟩
      · rw [h₁, h₂, h₃, h₄]
        simpa [Loc.xrefs, Loc.refs, Loc.finals, Loc.disposals] using h
      · cases hc
        exact .inr hmem
  | finalizer =>
      refine ⟨?_, nofun⟩
      simpa [Loc.xrefs, Loc.refs, Loc.finals, Loc.disposals] using
        h.write m.suspended m.finalizes m.targetq (_ :: m.finalizers)
  | releaseTarget =>
      exact ⟨by simpa [Loc.xrefs, Loc.refs, Loc.finals, Loc.disposals] using
        h.releaseTarget _, nofun⟩

end Balance

/-! ## Whole runs -/

section Runs

variable [Fintype T] {loc : T → Loc Q} {t : T}

structure Accounts (kind : Kind) (m : Mem Q) (loc : T → Loc Q) : Prop where
  balance : Balance m (∑ t, (loc t).xrefs) (∑ t, (loc t).refs) (∑ t, (loc t).finals)
    (∑ t, (loc t).disposals)
  allowed : ∀ t c, loc t = .crashed c → kind.Allows c
  target : ∀ t tq, (loc t).target = some tq → tq = m.targetq
  released : ∀ tq ∈ m.targetReleases, tq = m.targetq

theorem share_le_sum (w : Loc Q → ℤ) (hw : ∀ l, 0 ≤ w l) (loc : T → Loc Q) (t : T) :
    w (loc t) ≤ ∑ u, w (loc u) :=
  Finset.single_le_sum (fun u _ ↦ hw (loc u)) (Finset.mem_univ t)

theorem Accounts.of_held (h : Accounts kind m loc) (hheld : m.Held) :
    (∀ t, (loc t).target = none) ∧ m.targetReleases = [] := by
  have hx := Finset.sum_nonneg fun u (_ : u ∈ Finset.univ) ↦ (loc u).shares_nonneg.1
  have hr := Finset.sum_nonneg fun u (_ : u ∈ Finset.univ) ↦ (loc u).shares_nonneg.2.1
  have hf := Finset.sum_nonneg fun u (_ : u ∈ Finset.univ) ↦ (loc u).shares_nonneg.2.2.1
  have hd := Finset.sum_nonneg fun u (_ : u ∈ Finset.univ) ↦ (loc u).shares_nonneg.2.2.2
  have hpos := h.balance.ref_pos_of_held hx hr hheld
  have hfinal := h.balance.final
  have hdisposal := h.balance.disposal
  rw [if_neg hpos.ne'] at hfinal
  refine ⟨fun t ↦ ?_, List.eq_nil_of_length_eq_zero (by omega)⟩
  have hshare := share_le_sum Loc.disposals (fun l ↦ l.shares_nonneg.2.2.2) loc t
  have hnone : (loc t).disposals ≤ 0 := by omega
  revert hnone
  cases loc t <;> simp [Loc.disposals, Loc.target]

theorem Trans.target (ht : Trans kind m l m' l') {tq : Q} (hl : l'.target = some tq) :
    l.target = some tq ∨ tq = m'.targetq := by
  cases ht with
  | disposeRead =>
      cases hl
      exact .inr rfl
  | finalizer | noFinalizer =>
      cases hl
      exact .inl rfl
  | retainInternalGlobal hret | retainInternalCounted hret | retainedInternal hret =>
      cases hret <;> cases hl
  | _ => cases hl

/-- The object changes its target queue only while a reference is owned, and
`_dispatch_dispose` releases the one it has read. -/
theorem Trans.targetq (ht : Trans kind m l m' l') :
    (m'.targetq = m.targetq ∧ ∀ tq ∈ m'.targetReleases, tq ∈ m.targetReleases ∨
        l.target = some tq) ∨
      (m.Held ∧ m'.targetReleases = m.targetReleases) := by
  cases ht with
  | setTarget _ hheld => exact .inr ⟨hheld, rfl⟩
  | releaseTarget =>
      refine .inl ⟨rfl, fun tq htq ↦ ?_⟩
      rcases List.mem_cons.mp htq with rfl | hmem
      · exact .inr rfl
      · exact .inl hmem
  | _ => exact .inl ⟨rfl, fun _ ↦ .inl⟩

theorem Accounts.step [DecidableEq T] (h : Accounts kind m loc)
    (ht : Trans kind m (loc t) m' l') (hp : Place m (loc t)) :
    Accounts kind m' (Function.update loc t l') := by
  obtain ⟨hbal, hcrash⟩ := ht.balance hp h.balance
    (share_le_sum Loc.xrefs (fun l ↦ l.shares_nonneg.1) loc t)
    (share_le_sum Loc.refs (fun l ↦ l.shares_nonneg.2.1) loc t)
    (share_le_sum Loc.finals (fun l ↦ l.shares_nonneg.2.2.1) loc t)
  have htarget : ∀ u tq, (Function.update loc t l' u).target = some tq →
      (∃ v, (loc v).target = some tq) ∨ tq = m'.targetq := by
    intro u tq hu
    rcases eq_or_ne u t with rfl | hne
    · rw [Function.update_self] at hu
      exact (ht.target hu).imp_left fun hl ↦ ⟨u, hl⟩
    · rw [Function.update_of_ne hne] at hu
      exact .inl ⟨u, hu⟩
  refine ⟨?_, ?_, ?_, ?_⟩
  · rw [Pool.sum_update fun _ ↦ Loc.xrefs, Pool.sum_update fun _ ↦ Loc.refs,
      Pool.sum_update fun _ ↦ Loc.finals, Pool.sum_update fun _ ↦ Loc.disposals]
    exact hbal
  · intro u c hu
    rcases eq_or_ne u t with rfl | hne
    · rw [Function.update_self] at hu
      exact hcrash c hu
    · rw [Function.update_of_ne hne] at hu
      exact h.allowed u c hu
  · intro u tq hu
    rcases htarget u tq hu with ⟨v, hv⟩ | heq
    · rcases ht.targetq with ⟨hq, -⟩ | ⟨hheld, -⟩
      · rw [hq]
        exact h.target v tq hv
      · rw [(h.of_held hheld).1 v] at hv
        cases hv
    · exact heq
  · intro tq htq
    rcases ht.targetq with ⟨hq, hmem⟩ | ⟨hheld, heq⟩
    · rw [hq]
      exact (hmem tq htq).elim (h.released tq) (h.target t tq)
    · rw [heq, (h.of_held hheld).2] at htq
      cases htq

theorem accounts_created (kind : Kind) (q : Q) :
    Accounts kind (created kind q : Pool T (Mem Q) (Loc Q)).mem
      (created kind q : Pool T (Mem Q) (Loc Q)).loc := by
  refine ⟨⟨?_, ?_, ?_, ?_, ?_, ?_⟩, nofun, nofun, nofun⟩ <;> cases kind <;>
    simp [created, Loc.xrefs, Loc.refs, Loc.finals, Loc.disposals, globalRefcnt]

theorem accounts_of_run [DecidableEq T] {q : Q} {s : Pool T (Mem Q) (Loc Q)}
    (h : Pool.Runs (step kind) Disciplined (created kind q) s) :
    Accounts kind s.mem s.loc := by
  refine h.invariant (I := fun s ↦ Accounts kind s.mem s.loc) (accounts_created kind q) ?_
  intro s t a m l _ hI hC hs
  exact hI.step (trans_of_step hs) ⟨hC.1.1, hC.1.2, hC.2.1, hC.2.2⟩

def Loc.Finishing (l : Loc Q) : Prop := l = .nextTest ∨ l = .xrefTest ∨ l = .dispose

theorem Loc.finals_eq_one {l : Loc Q} : l.finals = 1 ↔ l.Finishing := by
  unfold Loc.Finishing
  cases l <;> simp [Loc.finals]

theorem Accounts.exists_finishing (h : Accounts kind m loc) (hzero : m.doRefCnt = 0)
    (hnone : m.disposes = 0) : ∃ t, (loc t).Finishing := by
  by_contra hno
  have hfinal := h.balance.final
  rw [if_pos hzero, hnone, Finset.sum_eq_zero] at hfinal
  · simp at hfinal
  · intro t _
    have hne : (loc t).finals ≠ 1 := fun h1 ↦ hno ⟨t, Loc.finals_eq_one.mp h1⟩
    revert hne
    cases loc t <;> simp [Loc.finals]

theorem Accounts.of_finishing (h : Accounts kind m loc) (ht : (loc t).Finishing) :
    m.doRefCnt = 0 ∧ m.disposes = 0 ∧ ∀ u, (loc u).Finishing → u = t := by
  classical
  have hone := Loc.finals_eq_one.mpr ht
  have hnonneg : ∀ u, 0 ≤ (loc u).finals := fun u ↦ (loc u).shares_nonneg.2.2.1
  have hshare := share_le_sum Loc.finals (fun l ↦ l.shares_nonneg.2.2.1) loc t
  have hfinal := h.balance.final
  have hzero : m.doRefCnt = 0 := by
    by_contra hne
    rw [if_neg hne] at hfinal
    omega
  rw [if_pos hzero] at hfinal
  refine ⟨hzero, by omega, fun u hu ↦ ?_⟩
  by_contra hut
  have hpair : (loc u).finals + (loc t).finals ≤ ∑ v, (loc v).finals :=
    calc (loc u).finals + (loc t).finals = ∑ v ∈ {u, t}, (loc v).finals :=
          (Finset.sum_pair (f := fun v ↦ (loc v).finals) hut).symm
      _ ≤ ∑ v, (loc v).finals :=
          Finset.sum_le_sum_of_subset_of_nonneg (Finset.subset_univ _) fun v _ _ ↦ hnonneg v
  rw [Loc.finals_eq_one.mpr hu, hone] at hpair
  omega

theorem Trans.disposes (ht : Trans kind m l m' l') (h : m'.disposes ≠ m.disposes) :
    l.Finishing := by
  cases ht with
  | dispose => exact .inr (.inr rfl)
  | _ => exact absurd rfl h

theorem Trans.finishing (ht : Trans kind m l m' l') (hpos : 0 ≤ m.doRefCnt)
    (hlt : m.doRefCnt < globalRefcnt) (hne : m.doRefCnt ≠ 0) (hzero : m'.doRefCnt = 0) :
    l'.Finishing := by
  cases ht with
  | releasedInternalLast _ => exact .inl rfl
  | releasedInternal hgt =>
      rw [wrap_wrap_pred hpos hlt] at hgt
      dsimp only at hzero
      rw [wrap_pred hpos hlt] at hzero
      omega
  | overReleasedInternal hlow =>
      rw [wrap_wrap_pred hpos hlt] at hlow
      omega
  | retainedInternal _ _ | resurrectedInternal _ _ =>
      dsimp only at hzero
      rw [wrap_succ hpos hlt] at hzero
      omega
  | _ => exact absurd hzero hne

theorem Accounts.of_idle (h : Accounts kind m loc) (hidle : ∀ t, loc t = .idle)
    (hheld : ¬ m.Held) : m.disposes = 1 ∧ m.targetReleases.length = 1 := by
  have hsum : ∀ w : Loc Q → ℤ, w .idle = 0 → ∑ t, w (loc t) = 0 := fun w hw ↦
    Finset.sum_eq_zero fun t _ ↦ by rw [hidle t, hw]
  obtain ⟨hxref, href, -, -, hfinal, hdisposal⟩ := h.balance
  rw [hsum Loc.xrefs rfl] at hxref
  rw [hsum Loc.refs rfl] at href
  rw [hsum Loc.finals rfl] at hfinal
  rw [hsum Loc.disposals rfl] at hdisposal
  simp only [Mem.Held, not_or, not_lt, nonpos_iff_eq_zero, Bool.not_eq_false] at hheld
  obtain ⟨hext, hint, hlist⟩ := hheld
  have hxzero : m.doXrefCnt = 0 := by omega
  rw [if_pos hlist, hxzero, hint] at href
  rw [if_pos (by simpa using href)] at hfinal
  omega

/-- For every run of threads that release what they own and take references while they own
one, none of which counts reaches the value of global objects: the dispose function is called
once, by the thread whose decrement brought `do_ref_cnt` to zero, when no reference is owned
or counted any more, and it releases the target queue once. -/
theorem disposed_once [DecidableEq T] {q : Q} {s : Pool T (Mem Q) (Loc Q)}
    (h : Pool.Runs (step kind) Disciplined (created kind q) s) :
    (∀ t c, s.loc t = .crashed c → c ≠ .resurrection ∧ c ≠ .overReleaseExternal ∧
      c ≠ .overRelease ∧ c ≠ .releaseExternal) ∧
    s.mem.disposes ≤ 1 ∧
    (s.mem.disposes = 1 ∨ (∃ t, (s.loc t).Finishing) ↔ s.mem.doRefCnt = 0) ∧
    (∀ t, (s.loc t).Finishing → s.mem.disposes = 0 ∧ ∀ u, (s.loc u).Finishing → u = t) ∧
    (s.mem.doRefCnt = 0 → s.mem.doXrefCnt = 0 ∧ ¬ s.mem.Held) ∧
    (∀ t a s', Disciplined s t a → s.step (step kind) t a = some s' →
      (s.mem.doRefCnt ≠ 0 → s'.mem.doRefCnt = 0 → (s'.loc t).Finishing) ∧
        (s'.mem.disposes ≠ s.mem.disposes → (s.loc t).Finishing)) ∧
    (s.mem.targetReleases = [] ∨
      s.mem.disposes = 1 ∧ s.mem.targetReleases = [s.mem.targetq]) ∧
    ((∀ t, s.loc t = .idle) → ¬ s.mem.Held →
      s.mem.disposes = 1 ∧ s.mem.targetReleases = [s.mem.targetq]) := by
  have hacc := accounts_of_run h
  have hx := Finset.sum_nonneg fun u (_ : u ∈ Finset.univ) ↦ (s.loc u).shares_nonneg.1
  have hr := Finset.sum_nonneg fun u (_ : u ∈ Finset.univ) ↦ (s.loc u).shares_nonneg.2.1
  have hf := Finset.sum_nonneg fun u (_ : u ∈ Finset.univ) ↦ (s.loc u).shares_nonneg.2.2.1
  have hd := Finset.sum_nonneg fun u (_ : u ∈ Finset.univ) ↦ (s.loc u).shares_nonneg.2.2.2
  have hfinal := hacc.balance.final
  have hdisposal := hacc.balance.disposal
  have hle : s.mem.disposes ≤ 1 := by split_ifs at hfinal <;> omega
  have htarget : s.mem.targetReleases.length = 1 → s.mem.targetReleases = [s.mem.targetq] := by
    intro hlen
    obtain ⟨tq, htq⟩ := List.length_eq_one_iff.mp hlen
    rw [htq, hacc.released tq (by simp [htq])]
  refine ⟨?_, hle, ⟨?_, ?_⟩, ?_, ?_, ?_, ?_, ?_⟩
  · intro t c hc
    rcases hacc.allowed t c hc with rfl | hmem
    · decide
    · have hother : ∀ c ∈ kind.disposeCrashes, c ≠ .resurrection ∧ c ≠ .overReleaseExternal ∧
          c ≠ .overRelease ∧ c ≠ .releaseExternal := by cases kind <;> decide
      exact hother c hmem
  · rintro (hone | ⟨t, ht⟩)
    · by_contra hne
      rw [if_neg hne] at hfinal
      omega
    · exact (hacc.of_finishing ht).1
  · intro hzero
    rcases Nat.eq_zero_or_pos s.mem.disposes with hnone | hpos
    · exact .inr (hacc.exists_finishing hzero hnone)
    · exact .inl (by omega)
  · exact fun t ht ↦ (hacc.of_finishing ht).2
  · exact hacc.balance.of_ref_eq_zero hx hr
  · intro t a s' hC hs
    obtain ⟨m, l, hP, rfl⟩ := Pool.step_eq_some hs
    have ht := trans_of_step hP
    refine ⟨fun hne hzero ↦ ?_, ht.disposes⟩
    dsimp only
    rw [Function.update_self]
    exact ht.finishing (hacc.balance.xref_bounds hx hr).2 hacc.balance.ref_lt hne hzero
  · rcases Nat.eq_zero_or_pos s.mem.targetReleases.length with hnil | hpos
    · exact .inl (List.eq_nil_of_length_eq_zero hnil)
    · exact .inr ⟨by omega, htarget (by omega)⟩
  · intro hidle hheld
    obtain ⟨hone, hlen⟩ := hacc.of_idle hidle hheld
    exact ⟨hone, htarget hlen⟩

end Runs

/-! ## Runs of two clients, and of one that takes too many references -/

/-- Thread 0 creates a semaphore and retains it; thread 1 releases one of the two references
while thread 0 releases the other. -/
def sharedState : Pool (Fin 2) (Mem Unit) (Loc Unit) :=
  (Pool.run (step .semaphore) Disciplined (created .semaphore ())
    ([(0, Act.retain), (0, Act.go), (0, Act.go), (1, Act.release), (0, Act.release), (1, Act.go),
      (0, Act.go), (0, Act.go), (1, Act.go)] ++ List.replicate 9 (1, Act.go))).get (by decide)

theorem disposed_once_shared :
    sharedState.mem.disposes = 1 ∧ sharedState.mem.targetReleases = [()] :=
  (disposed_once (Pool.runs_get _ : Pool.Runs _ _ _ sharedState)).2.2.2.2.2.2.2
    (by decide) (by decide)

/-- A single client of a semaphore whose external count is `count`, and who owns `external`
references to it. -/
def counted (count external : ℕ) : Mem Unit :=
  { (created .semaphore () : Pool Unit (Mem Unit) (Loc Unit)).mem with
    doXrefCnt := count, external }

def single (m : Mem Unit) (l : Loc Unit) : Pool Unit (Mem Unit) (Loc Unit) := ⟨m, fun _ ↦ l⟩

theorem runs_single {s₀ : Pool Unit (Mem Unit) (Loc Unit)} {m m' : Mem Unit} {l l' : Loc Unit}
    {a : Act Unit} (h : Pool.Runs (step .semaphore) Owned s₀ (single m l))
    (hC : Owned (single m l) () a) (hs : step .semaphore () a m l = some (m', l')) :
    Pool.Runs (step .semaphore) Owned s₀ (single m' l') := by
  refine h.step hC ((Pool.step_of_program hs).trans ?_)
  have hloc : Function.update (single m l).loc () l' = fun _ ↦ l' :=
    funext fun _ ↦ Function.update_self () l' (single m l).loc
  rw [hloc]
  rfl

theorem runs_retain {n : ℕ} (hpos : 0 < n) (hlt : (n : ℤ) < globalRefcnt) :
    Pool.Runs (step .semaphore) Owned (single (counted n n) .idle)
      (single (counted (n + 1) (n + 1)) .idle) := by
  have hcall : Pool.Runs (step .semaphore) Owned (single (counted n n) .idle)
      (single (counted n n) .retainTest) := by
    refine runs_single .refl ⟨?_, ?_⟩ (a := .retain) rfl
    · rintro (h | h) <;> cases h
    · rintro (h | h) <;> cases h
  have htest : Pool.Runs (step .semaphore) Owned (single (counted n n) .idle)
      (single (counted n n) .retainInc) := by
    refine runs_single hcall ⟨fun _ ↦ hpos, ?_⟩ (a := .go) (if_neg hlt.ne)
    rintro (h | h) <;> cases h
  refine runs_single htest ⟨fun _ ↦ hpos, ?_⟩ (a := .go) ?_
  · rintro (h | h) <;> cases h
  · have hn : (0 : ℤ) ≤ n := Int.natCast_nonneg n
    have hcount : (counted n n).doXrefCnt = n := rfl
    have hnew : wrap ((n : ℤ) + 1 - 1) = n := by
      rw [← wrap_succ hn hlt]
      exact wrap_wrap_succ hn hlt
    simp only [step, dispatchRetain, hcount, wrap_succ hn hlt, hnew]
    rw [if_neg (by omega)]
    simp [counted]

theorem runs_release (e : ℕ) : Pool.Runs (step .semaphore) Owned
    (single (counted (2 ^ 32 - 1) (e + 1)) .idle) (single (counted (2 ^ 32 - 1) e) .idle) := by
  have hcall : Pool.Runs (step .semaphore) Owned (single (counted (2 ^ 32 - 1) (e + 1)) .idle)
      (single (counted (2 ^ 32 - 1) e) .releaseTest) := by
    refine runs_single .refl ⟨?_, ?_⟩ (a := .release) (by simp [step, call, counted])
    · rintro (h | h) <;> cases h
    · rintro (h | h) <;> cases h
  refine runs_single hcall ⟨?_, ?_⟩ (a := .go)
    (by simp [step, dispatchRelease, counted, globalRefcnt])
  · rintro (h | h) <;> cases h
  · rintro (h | h) <;> cases h

theorem runs_retains (n : ℕ) (hlt : (n : ℤ) < globalRefcnt) :
    Pool.Runs (step .semaphore) Owned (created .semaphore ())
      (single (counted (n + 1) (n + 1)) .idle) := by
  induction n with
  | zero => exact .refl
  | succ n ih =>
      push_cast at hlt
      exact (ih (by omega)).trans (runs_retain n.succ_pos (by push_cast; exact hlt))

theorem runs_releases (e : ℕ) : Pool.Runs (step .semaphore) Owned
    (single (counted (2 ^ 32 - 1) e) .idle) (single (counted (2 ^ 32 - 1) 0) .idle) := by
  induction e with
  | zero => exact .refl
  | succ e ih => exact (runs_release e).trans ih

/-- A client that takes `2 ^ 32 - 1` references makes the object a global one: it releases all
of them, and the object stays. -/
theorem never_disposed_of : ∃ s : Pool Unit (Mem Unit) (Loc Unit),
    Pool.Runs (step .semaphore) Owned (created .semaphore ()) s ∧ (∀ t, s.loc t = .idle) ∧
      ¬ s.mem.Held ∧ s.mem.disposes = 0 := by
  refine ⟨single (counted (2 ^ 32 - 1) 0) .idle, ?_, fun _ ↦ rfl, by decide, rfl⟩
  exact (runs_retains (2 ^ 32 - 2) (by norm_num [globalRefcnt])).trans (runs_releases _)

end LibDispatch.Object
