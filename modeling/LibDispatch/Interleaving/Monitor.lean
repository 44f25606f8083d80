import LibDispatch.Interleaving.Pool

/-!
# Mutexes and conditions

A monitor is a mutex with one condition that is used under it.  A wait leaves the mutex
and blocks in one step; a signal unblocks one of the blocked threads, if there is any.  A
thread may also wake up by itself: the time of a timed wait has passed, or the wakeup is a
spurious one.  In each case it takes the mutex again before it goes on.
-/

namespace Interleaving

/-- Who holds the mutex, and who is blocked at the condition. -/
structure Monitor (T : Type*) where
  owner : Option T
  blocked : List T
  deriving DecidableEq

namespace Monitor

variable {T : Type*}

def free : Monitor T := ⟨none, []⟩

def lock (m : Monitor T) (t : T) : Option (Monitor T) :=
  if m.owner.isNone then some { m with owner := some t } else none

def unlock (m : Monitor T) : Monitor T := { m with owner := none }

def wait (m : Monitor T) (t : T) : Monitor T := ⟨none, t :: m.blocked⟩

variable [DecidableEq T]

/-- Without a blocked thread a signal does nothing; otherwise it unblocks the thread `u`. -/
def signal (m : Monitor T) (u : T) : Option (Monitor T) :=
  if m.blocked.isEmpty then some m
  else if u ∈ m.blocked then some { m with blocked := m.blocked.erase u }
  else none

/-- The end of a wait; `early` is a wakeup without a signal. -/
def resume (m : Monitor T) (t : T) (early : Bool) : Option (Monitor T) :=
  if m.owner.isNone ∧ (early ∨ t ∉ m.blocked) then some ⟨some t, m.blocked.erase t⟩ else none

variable {m m' : Monitor T} {t u : T}

omit [DecidableEq T] in
theorem lock_eq_some (h : m.lock t = some m') :
    m.owner = none ∧ m' = { m with owner := some t } := by
  unfold lock at h
  split at h <;> cases h
  exact ⟨Option.isNone_iff_eq_none.mp ‹_›, rfl⟩

theorem signal_eq_some (h : m.signal u = some m') :
    (m.blocked = [] ∧ m' = m) ∨
      (u ∈ m.blocked ∧ m' = { m with blocked := m.blocked.erase u }) := by
  unfold signal at h
  split at h
  · cases h
    exact .inl ⟨List.isEmpty_iff.mp ‹_›, rfl⟩
  · split at h <;> cases h
    exact .inr ⟨‹_›, rfl⟩

theorem resume_eq_some {early : Bool} (h : m.resume t early = some m') :
    m.owner = none ∧ m' = ⟨some t, m.blocked.erase t⟩ := by
  unfold resume at h
  split at h <;> cases h
  rename_i hcond
  exact ⟨Option.isNone_iff_eq_none.mp hcond.1, rfl⟩

end Monitor

/-! ## Shares -/

section Total

variable {T L : Type*} [Fintype T]

/-- The sum of the shares that the threads have by their places. -/
def total (w : L → ℤ) (loc : T → L) : ℤ := ∑ u, w (loc u)

theorem total_update [DecidableEq T] (w : L → ℤ) (loc : T → L) (t : T) (l : L) :
    total w (Function.update loc t l) = total w loc - w (loc t) + w l :=
  Pool.sum_update (fun _ ↦ w) loc t l

theorem total_nonneg {w : L → ℤ} (hw : ∀ l, 0 ≤ w l) (loc : T → L) : 0 ≤ total w loc :=
  Finset.sum_nonneg fun u _ ↦ hw (loc u)

theorem total_le_card {w : L → ℤ} (hw : ∀ l, w l ≤ 1) (loc : T → L) :
    total w loc ≤ Fintype.card T := by
  calc ∑ u, w (loc u) ≤ ∑ _u : T, (1 : ℤ) := Finset.sum_le_sum fun u _ ↦ hw (loc u)
    _ = Fintype.card T := by simp

theorem total_le_total {w v : L → ℤ} (h : ∀ l, w l ≤ v l) (loc : T → L) :
    total w loc ≤ total v loc :=
  Finset.sum_le_sum fun u _ ↦ h (loc u)

theorem total_add (w v : L → ℤ) (loc : T → L) :
    total (fun l ↦ w l + v l) loc = total w loc + total v loc :=
  Finset.sum_add_distrib

theorem eq_of_total_le_one [DecidableEq T] {w : L → ℤ} {loc : T → L} (hw : ∀ l, 0 ≤ w l)
    (h : total w loc ≤ 1) {t u : T} (ht : w (loc t) = 1) (hu : w (loc u) = 1) : u = t := by
  by_contra hne
  have hpair : ∑ v ∈ {u, t}, w (loc v) ≤ total w loc :=
    Finset.sum_le_sum_of_subset_of_nonneg (Finset.subset_univ _) fun v _ _ ↦ hw (loc v)
  rw [Finset.sum_pair hne, ht, hu] at hpair
  omega

theorem total_eq_card (p : L → Prop) [DecidablePred p] (loc : T → L) :
    total (fun l ↦ if p l then 1 else 0) loc = (Finset.univ.filter fun t ↦ p (loc t)).card := by
  unfold total
  rw [Finset.sum_boole]

theorem total_eq_length_add [DecidableEq T] {p : L → Bool} {loc : T → L} {ts : List T}
    (hnd : ts.Nodup) (hts : ∀ t ∈ ts, p (loc t)) :
    total (fun l ↦ if p l then 1 else 0) loc =
      ts.length + (Finset.univ.filter fun t ↦ p (loc t) ∧ t ∉ ts).card := by
  have hsplit : (Finset.univ.filter fun t ↦ p (loc t)) =
      ts.toFinset ∪ Finset.univ.filter fun t ↦ p (loc t) ∧ t ∉ ts := by
    ext t
    by_cases ht : t ∈ ts <;> simp [ht, hts]
  have hdisj : Disjoint ts.toFinset (Finset.univ.filter fun t ↦ p (loc t) ∧ t ∉ ts) := by
    rw [Finset.disjoint_left]
    intro t ht
    simp_all
  rw [total_eq_card, hsplit, Finset.card_union_of_disjoint hdisj,
    List.toFinset_card_of_nodup hnd]
  push_cast
  rfl

end Total

/-! ## Mutual exclusion -/

section Guarded

variable {T L : Type*}

/-- A thread is inside of the section guarded by a mutex exactly if it holds the mutex. -/
def Guarded (inside : L → Bool) (loc : T → L) (owner : Option T) : Prop :=
  ∀ t, inside (loc t) ↔ owner = some t

/-- What one step may do to a mutex and to the place of its thread. -/
inductive Holds (t : T) : Option T → Bool → Option T → Bool → Prop
  | stay {o : Option T} {b : Bool} : Holds t o b o b
  | enter : Holds t none false (some t) true
  | leave {o : Option T} : Holds t o true none false

variable {inside : L → Bool} {loc : T → L} {o o' : Option T} {t u : T} {l : L}

theorem Guarded.step [DecidableEq T] (h : Guarded inside loc o)
    (hstep : Holds t o (inside (loc t)) o' (inside l)) :
    Guarded inside (Function.update loc t l) o' := by
  generalize hb : inside (loc t) = b at hstep
  generalize hb' : inside l = b' at hstep
  intro u
  rcases eq_or_ne u t with rfl | hu
  · have hu := h u
    rw [hb] at hu
    rw [Function.update_self, hb']
    cases hstep <;> simp_all
  · have hself := h t
    rw [Function.update_of_ne hu]
    have hother := h u
    rw [hb] at hself
    cases hstep
    case stay => exact hother
    case enter =>
      rw [hother]
      simp [hu.symm]
    case leave =>
      rw [hother, hself.mp rfl]
      simp [hu.symm]

theorem Guarded.eq_of_inside (h : Guarded inside loc o) (ht : inside (loc t))
    (hu : inside (loc u)) : u = t := by
  have htu := (h t).mp ht
  rw [(h u).mp hu] at htu
  exact Option.some.inj htu

theorem Guarded.not_inside (h : Guarded inside loc o) (ht : inside (loc t))
    (hu : u ≠ t) : inside (loc u) = false := by
  by_contra hin
  exact hu (h.eq_of_inside ht (by simpa using hin))

theorem Guarded.of_free (h : Guarded inside loc none) (t : T) :
    inside (loc t) = false := by
  by_contra hin
  simpa using (h t).mp (by simpa using hin)

variable [Fintype T] {w v : L → ℤ}

/-- Two ways to count the threads that differ inside of the section only differ by the shares
of the thread that is inside. -/
theorem Guarded.total_sub_eq [DecidableEq T] (h : Guarded inside loc o) (ht : inside (loc t))
    (hwv : ∀ l, inside l = false → w l = v l) :
    total w loc - w (loc t) = total v loc - v (loc t) := by
  unfold total
  rw [← Finset.add_sum_erase _ _ (Finset.mem_univ t),
    ← Finset.add_sum_erase (a := t) _ (fun u ↦ v (loc u)) (Finset.mem_univ t)]
  have hrest : ∑ u ∈ Finset.univ.erase t, w (loc u) = ∑ u ∈ Finset.univ.erase t, v (loc u) :=
    Finset.sum_congr rfl fun u hu ↦ hwv _ (h.not_inside ht (Finset.ne_of_mem_erase hu))
  rw [hrest]
  ring

theorem Guarded.total_eq (h : Guarded inside loc none)
    (hwv : ∀ l, inside l = false → w l = v l) : total w loc = total v loc :=
  Finset.sum_congr rfl fun u _ ↦ hwv _ (h.of_free u)

end Guarded

end Interleaving
