import LibDispatch.Workqueue.Accounting

/-!
# How the pool grows

Only the manager starts workers, and only after it has found their number below one of its two
limits; other threads can only make that number smaller in between.  So the limits hold.

A worker that could not be created stays among the workers that have been asked for.  Once the
manager has seen one creation fail, it never finds that number to be zero again, and never
starts another worker.
-/

namespace LibDispatch.Workqueue.Scoreboard

open Interleaving

variable {T α : Type*} {cfg : Config} {m m' : Mem T α} {l l' : Loc α} {p p' : Manager} {t : T}
  {a : Act T α}

def Config.bound (cfg : Config) : ℕ :=
  max workerMin (max cfg.workerIdleThreshold.toNat cfg.workerMax.toNat)

/-- The workers, with those that have been created and do not run yet. -/
def alive [Fintype T] (m : Mem T α) (loc : T → Loc α) : ℤ := total Loc.counts loc + m.created

/-- What the manager knows when there are `n` workers and `failed` could not be created. -/
def Managed (cfg : Config) (n : ℤ) (failed : ℕ) : Loc α → Prop
  | .manager p =>
      match p with
      | .init i => n ≤ i ∧ failed ≤ i ∧ i ≤ workerMin
      | .startPending (.init i) | .startIdle (.init i) | .startCount (.init i) =>
          n ≤ i ∧ failed ≤ i ∧ i < workerMin
      | .startCreate (.init i) => n ≤ i + 1 ∧ failed ≤ i ∧ i < workerMin
      | .failIdle (.init i) | .failCount (.init i) => n ≤ i + 1 ∧ failed ≤ i + 1 ∧ i < workerMin
      | .startPending (.loop _) | .startIdle (.loop _) | .startCount (.loop _)
      | .runnable _ | .runqueue _ | .idleAgain _ => n < cfg.bound ∧ failed = 0
      | .startCreate (.loop _) | .testThreshold _ | .testMax _ => failed = 0
      | _ => True
  | _ => True

/-- The limits hold, and the manager knows what it needs in order to keep them; before there
is a manager, there are no workers. -/
structure Bounded [Fintype T] (cfg : Config) (m : Mem T α) (loc : T → Loc α) : Prop where
  alive_le : alive m loc ≤ cfg.bound
  failed_le : m.failed ≤ workerMin
  managed : ∀ t, Managed cfg (alive m loc) m.failed (loc t)
  fresh : total Loc.manages loc = 0 → alive m loc ≤ 0 ∧ m.failed = 0

theorem counts_nonneg (l : Loc α) : 0 ≤ l.counts := by
  unfold Loc.counts
  split <;> first | decide | (split <;> decide)

theorem pends_nonneg (l : Loc α) : 0 ≤ l.pends := by
  unfold Loc.pends
  split <;> decide

theorem manages_nonneg (l : Loc α) : 0 ≤ l.manages := by
  unfold Loc.manages
  split <;> decide

theorem pends_le (l : Loc α) : l.pends ≤ l.counts + l.manages := by
  have hnonneg := add_nonneg (counts_nonneg l) (manages_nonneg l)
  cases l
  case start => simp [Loc.pends, Loc.counts, Loc.manages]
  case manager p => cases p <;> simp [Loc.pends, Loc.counts, Loc.manages, Loc.isIdle]
  all_goals exact hnonneg

theorem idles_nonneg (l : Loc α) : 0 ≤ l.idles := by
  unfold Loc.idles
  split <;> first | decide | (split <;> decide)

theorem idles_le (l : Loc α) : l.idles ≤ l.counts + l.manages := by
  have hnonneg := add_nonneg (counts_nonneg l) (manages_nonneg l)
  cases l
  case op k _ => cases k <;> simp [Loc.idles, Loc.counts, Loc.manages, Loc.isIdle]
  case manager p => cases p <;> simp [Loc.idles, Loc.counts, Loc.manages, Loc.isIdle]
  all_goals simp [Loc.idles, Loc.counts, Loc.manages, Loc.isIdle]

theorem managed_of_manages {n : ℤ} {failed : ℕ} (h : l.manages = 0) : Managed cfg n failed l := by
  cases l <;> first | trivial | cases h

theorem managed_of_not_ready {n : ℤ} {failed : ℕ} (hp : p.inStart = false)
    (hready : p.ready = false) : Managed (α := α) cfg n failed (.manager p) := by
  cases p <;> trivial

theorem Managed.mono {n n' : ℤ} {failed : ℕ} (h : Managed cfg n failed l) (hn : n' ≤ n) :
    Managed cfg n' failed l := by
  unfold Managed at h ⊢
  split
  · split <;> simp_all <;> omega
  · trivial

section Step

variable [Fintype T] [DecidableEq T] {loc : T → Loc α}

omit [Fintype T] [DecidableEq T] in
theorem toNat_ofInt_eq {x : ℤ} (h₀ : 0 ≤ x) (h : x < 2 ^ 32) :
    ((BitVec.ofInt 32 x).toNat : ℤ) = x := by
  rw [BitVec.toNat_ofInt]
  push_cast
  rw [Int.toNat_of_nonneg (Int.emod_nonneg _ (by norm_num))]
  omega

omit [DecidableEq T] in
theorem alive_nonneg (m : Mem T α) (loc : T → Loc α) : 0 ≤ alive m loc :=
  add_nonneg (total_nonneg counts_nonneg loc) (Int.natCast_nonneg _)

omit [DecidableEq T] in
theorem toNat_count (hB : cfg.bound + 3 < 2 ^ 32) (hE : Exact m loc)
    (hI : alive m loc ≤ cfg.bound) : (m.count.toNat : ℤ) = alive m loc := by
  rw [hE.count]
  exact toNat_ofInt_eq (alive_nonneg m loc) (by unfold alive at hI; omega)

omit [DecidableEq T] in
/-- Shares that only workers and the manager have do not add up to more than one above the
number of workers. -/
theorem total_le_alive {w : Loc α → ℤ} (hw : ∀ l, w l ≤ l.counts + l.manages) (hE : Exact m loc)
    (hI : alive m loc ≤ cfg.bound) : total w loc + m.created ≤ cfg.bound + 1 := by
  have hle := total_le_total hw loc
  rw [total_add] at hle
  have hmanager := hE.manager
  have hhas : m.wqlistHasManager.toNat ≤ 1 := Bool.toNat_le _
  unfold alive at hI
  omega

omit [DecidableEq T] in
theorem toNat_pending (hB : cfg.bound + 3 < 2 ^ 32) (hE : Exact m loc) (hI : Bounded cfg m loc) :
    (m.pendingThreadCreate.toNat : ℤ) = total Loc.pends loc + m.created + m.failed := by
  have hpends := total_nonneg pends_nonneg loc
  have hle := total_le_alive pends_le hE hI.alive_le
  have hfailed : m.failed ≤ 2 := hI.failed_le
  rw [hE.pending]
  exact toNat_ofInt_eq (by omega) (by omega)

omit [DecidableEq T] in
theorem failed_of_pending (hB : cfg.bound + 3 < 2 ^ 32) (hE : Exact m loc)
    (hI : Bounded cfg m loc) (h : m.pendingThreadCreate = 0) : m.failed = 0 := by
  have hpends := total_nonneg pends_nonneg loc
  have hzero := toNat_pending hB hE hI
  rw [h] at hzero
  simp at hzero
  omega

omit [Fintype T] [DecidableEq T] in
theorem le_bound (cfg : Config) : 2 ≤ cfg.bound ∧ cfg.workerIdleThreshold.toNat ≤ cfg.bound ∧
    cfg.workerMax.toNat ≤ cfg.bound :=
  ⟨le_max_left _ _, (le_max_left _ _).trans (le_max_right _ _),
    (le_max_right _ _).trans (le_max_right _ _)⟩

omit [Fintype T] [DecidableEq T] in
theorem ManagerTrans.managed {n n' : ℤ} (h : ManagerTrans cfg m p m' p') (hn : n ≤ cfg.bound)
    (hfailed : m.failed ≤ workerMin) (hcount : (m.count.toNat : ℤ) = n)
    (hpending : m.pendingThreadCreate = 0 → m.failed = 0)
    (hM : Managed (α := α) cfg n m.failed (.manager p))
    (hn' : n' = n - (Loc.manager p : Loc α).counts + (Loc.manager p' : Loc α).counts +
      (m'.created - m.created)) :
    n' ≤ cfg.bound ∧ m'.failed ≤ workerMin ∧ Managed (α := α) cfg n' m'.failed (.manager p') := by
  obtain ⟨hmin, hthreshold, hmax⟩ := le_bound cfg
  unfold workerMin at *
  cases h
  case startPending k | startIdle k | startCount k | created k | failed k | failIdle k
      | failCount k =>
    cases k <;> simp [Loc.counts, Loc.isIdle, Managed, Caller.next, workerMin] at * <;> omega
  case testPending hzero =>
    simp [Loc.counts, Loc.isIdle] at hn'
    exact ⟨by omega, hfailed, hpending hzero⟩
  case testThreshold hlt | testMax hlt =>
    have := BitVec.lt_def.mp hlt
    simp [Loc.counts, Loc.isIdle, Managed] at *
    omega
  case other hp hp' hready =>
    simp only [counts_of_inStart hp, counts_of_inStart hp'] at hn'
    exact ⟨by omega, hfailed, managed_of_not_ready hp' hready⟩
  all_goals
    simp [Loc.counts, Loc.isIdle, Managed, workerMin] at *
    omega

omit [Fintype T] [DecidableEq T] in
theorem Trans.counts_le (h : Trans cfg t m l m' l') (hfit : l.Fits) (hl : l.manages = 0) :
    l'.counts + m'.created ≤ l.counts + m.created ∧ m'.failed = m.failed := by
  cases h
  case manager | stopMtx | stopFind => cases hl
  case op hq => exact ⟨by rw [(counts_next hfit hq).1], rfl⟩
  case scan hk hidle _ _ hq =>
    rw [hq.created, (counts_of_isIdle hidle).1]
    refine ⟨?_, hq.failed⟩
    rcases hk with ⟨rfl, rfl⟩ | ⟨rfl, rfl⟩ <;> exact le_rfl
  case idle hidle _ hq hidle' _ _ _ =>
    rw [hq.created, (counts_of_isIdle hidle).1, (counts_of_isIdle hidle').1]
    exact ⟨le_rfl, hq.failed⟩
  case caller hcaller _ hq hcaller' _ =>
    rw [hq.created, (counts_of_isCaller hcaller).1, (counts_of_isCaller hcaller').1]
    exact ⟨le_rfl, hq.failed⟩
  all_goals
    simp [Loc.counts, Loc.isIdle]
    try omega

omit [Fintype T] [DecidableEq T] in
theorem Trans.manages_eq (h : Trans cfg t m l m' l') (hfit : l.Fits) :
    l'.manages = l.manages ∨ 0 < m.managers ∧ l.manages = 0 ∧ l' = .manager (.init 0) := by
  cases h
  case beginManager hpos => exact .inr ⟨hpos, rfl, rfl⟩
  case op hq => exact .inl (counts_next hfit hq).2
  case scan hk hidle _ _ _ =>
    rw [(counts_of_isIdle hidle).2]
    rcases hk with ⟨rfl, rfl⟩ | ⟨rfl, rfl⟩ <;> exact .inl rfl
  case idle hidle _ _ hidle' _ _ _ =>
    exact .inl ((counts_of_isIdle hidle').2.trans (counts_of_isIdle hidle).2.symm)
  case caller hcaller _ _ hcaller' _ =>
    exact .inl ((counts_of_isCaller hcaller').2.trans (counts_of_isCaller hcaller).2.symm)
  all_goals exact .inl rfl

theorem Trans.managed (h : Trans cfg t m (loc t) m' l') (hB : cfg.bound + 3 < 2 ^ 32)
    (hfit : (loc t).Fits) (hE : Exact m loc) (hI : Bounded cfg m loc)
    (hl : (loc t).manages ≠ 0) :
    alive m' (Function.update loc t l') ≤ cfg.bound ∧ m'.failed ≤ workerMin ∧
      Managed cfg (alive m' (Function.update loc t l')) m'.failed l' := by
  have halive : alive m' (Function.update loc t l') =
      alive m loc - (loc t).counts + l'.counts + (m'.created - m.created) := by
    unfold alive
    rw [total_update]
    ring
  have hM := hI.managed t
  have hle := hI.alive_le
  generalize ht : loc t = l at h hfit hl halive hM
  cases h
  case manager p p' hp =>
    exact hp.managed hle hI.failed_le (toNat_count hB hE hle) (failed_of_pending hB hE hI) hM halive
  case stopMtx hp hp' hready =>
    simp only [counts_of_inStart hp, counts_of_inStart hp'] at halive
    exact ⟨by omega, hI.failed_le, managed_of_not_ready hp' hready⟩
  case stopFind =>
    simp [Loc.counts, Loc.isIdle] at halive
    exact ⟨by omega, hI.failed_le, trivial⟩
  case op k o q n hq =>
    rw [(counts_next hfit hq).1] at halive
    refine ⟨by simp at halive; omega, hI.failed_le, ?_⟩
    cases k <;> first | exact absurd rfl hl | skip
    cases n <;> trivial
  case scan hidle _ _ _ => exact absurd (counts_of_isIdle hidle).2 hl
  case idle hidle _ _ _ _ _ _ => exact absurd (counts_of_isIdle hidle).2 hl
  case caller hcaller _ _ _ _ => exact absurd (counts_of_isCaller hcaller).2 hl
  all_goals exact absurd rfl hl

theorem Trans.bounded (h : Trans cfg t m (loc t) m' l') (hB : cfg.bound + 3 < 2 ^ 32)
    (hfit : (loc t).Fits) (hE : Exact m loc) (hI : Bounded cfg m loc) :
    Bounded cfg m' (Function.update loc t l') := by
  have hsum := total_update Loc.manages loc t l'
  have hpos := total_nonneg manages_nonneg loc
  have hhas : m.wqlistHasManager.toNat ≤ 1 := Bool.toNat_le _
  have hmanager := hE.manager
  by_cases hl : (loc t).manages = 0
  · obtain ⟨hcounts, hfailed⟩ := h.counts_le hfit hl
    have halive : alive m' (Function.update loc t l') ≤ alive m loc := by
      unfold alive
      rw [total_update]
      omega
    refine ⟨halive.trans hI.alive_le, hfailed ▸ hI.failed_le, fun u ↦ ?_, fun hzero ↦ ?_⟩
    · rw [hfailed]
      rcases eq_or_ne u t with rfl | hu
      · rw [Function.update_self]
        rcases h.manages_eq hfit with heq | ⟨hmanagers, -, rfl⟩
        · exact managed_of_manages (heq.trans hl)
        · obtain ⟨hnone, hnofail⟩ := hI.fresh (by omega)
          exact ⟨by simpa using halive.trans hnone, by simp [hnofail], by simp⟩
      · rw [Function.update_of_ne hu]
        exact (hI.managed u).mono halive
    · have hl' := manages_nonneg l'
      obtain ⟨hnone, hnofail⟩ := hI.fresh (by omega)
      exact ⟨halive.trans hnone, hfailed.trans hnofail⟩
  · obtain ⟨hle, hfailed, hM⟩ := h.managed hB hfit hE hI hl
    have heq : l'.manages = (loc t).manages :=
      (h.manages_eq hfit).resolve_right fun hbegin ↦ hl hbegin.2.1
    have hone : ∀ l : Loc α, l.manages ≠ 0 → l.manages = 1 := by
      intro l hne
      unfold Loc.manages at hne ⊢
      split <;> simp_all
    refine ⟨hle, hfailed, fun u ↦ ?_, fun hzero ↦ ?_⟩
    · rcases eq_or_ne u t with rfl | hu
      · rwa [Function.update_self]
      · rw [Function.update_of_ne hu]
        refine managed_of_manages ?_
        by_contra hu'
        exact hu (eq_of_total_le_one manages_nonneg (by omega) (hone _ hl) (hone _ hu'))
    · have hself : (loc t).manages ≤ total Loc.manages loc :=
        Finset.single_le_sum (f := fun u ↦ (loc u).manages) (fun u _ ↦ manages_nonneg _)
          (Finset.mem_univ t)
      have := hone _ hl
      omega

theorem bounded_of_run {C : Pool T (Mem T α) (Loc α) → T → Act T α → Prop}
    {s : Pool T (Mem T α) (Loc α)} (hB : cfg.bound + 3 < 2 ^ 32)
    (h : Pool.Runs (step cfg) C managerInit s) : Bounded cfg s.mem s.loc := by
  refine h.invariant (I := fun s ↦ Bounded cfg s.mem s.loc) ?_ ?_
  · constructor <;> simp [managerInit, alive, total, Loc.counts, Loc.isIdle, Managed]
  · intro s t a m l hr hI _ hP
    have hfit := fits_of_run hr
    have hE := exact_of_run hr
    exact (trans_of_step hP).bounded hB (hfit t) hE hI

end Step

/-! ## The results -/

section Runs

variable [Fintype T] [DecidableEq T] {s s' : Pool T (Mem T α) (Loc α)}
  {C : Pool T (Mem T α) (Loc α) → T → Act T α → Prop}

/-- At every moment the scoreboard shows the number of workers, of idle workers and of workers
that have been asked for, where a worker that could not be created counts among the last; and
there are never more workers than the limits of the manager allow. -/
theorem scoreboard_exact (hB : cfg.bound + 3 < 2 ^ 32)
    (h : Pool.Runs (step cfg) C managerInit s) :
    (s.mem.count.toNat : ℤ) = total Loc.counts s.loc + s.mem.created ∧
    (s.mem.idle.toNat : ℤ) = total Loc.idles s.loc + s.mem.created ∧
    (s.mem.pendingThreadCreate.toNat : ℤ) =
      total Loc.pends s.loc + s.mem.created + s.mem.failed ∧
    s.mem.count.toNat ≤ cfg.bound := by
  have hE := exact_of_run h
  have hI := bounded_of_run hB h
  have hcount := toNat_count hB hE hI.alive_le
  refine ⟨hcount, ?_, toNat_pending hB hE hI, ?_⟩
  · have hidles := total_nonneg idles_nonneg s.loc
    have hle := total_le_alive idles_le hE hI.alive_le
    rw [hE.idle]
    exact toNat_ofInt_eq (by omega) (by omega)
  · have := hI.alive_le
    omega

omit [DecidableEq T] in
theorem Trans.in_loop {m m' : Mem T α} {loc : T → Loc α} {l' : Loc α} {t : T}
    (h : Trans cfg t m (loc t) m' l') (hB : cfg.bound + 3 < 2 ^ 32) (hfit : (loc t).Fits)
    (hE : Exact m loc) (hI : Bounded cfg m loc) (hfail : m.failed ≠ 0)
    (hloop : ∀ p, loc t = .manager p → p.inStart = false) (hl : (loc t).manages ≠ 0) :
    l'.counts + m'.created = (loc t).counts + m.created ∧ m'.failed = m.failed ∧
      ∀ p, l' = .manager p → p.inStart = false := by
  have hM := hI.managed t
  generalize ht : loc t = l at h hfit hl hM hloop
  cases h
  case manager p p' hp =>
    have hp₀ := hloop p rfl
    cases hp
    case other _ hp' _ =>
      rw [counts_of_inStart hp₀, counts_of_inStart hp']
      refine ⟨rfl, rfl, fun p hp ↦ ?_⟩
      cases hp
      exact hp'
    case testPending hzero => exact absurd (failed_of_pending hB hE hI hzero) hfail
    case testThreshold | threshold | testMax => exact absurd hM hfail
    case runnable | runqueue | idleAgain => exact absurd hM.2 hfail
    all_goals cases hp₀
  case stopMtx hp hp' _ =>
    rw [counts_of_inStart hp, counts_of_inStart hp']
    refine ⟨rfl, rfl, fun p hp ↦ ?_⟩
    cases hp
    exact hp'
  case stopFind => exact ⟨rfl, rfl, nofun⟩
  case op k o q n hq =>
    rw [(counts_next hfit hq).1]
    refine ⟨rfl, rfl, fun p hp ↦ ?_⟩
    cases k <;> first | exact absurd rfl hl | skip
    cases n <;> cases hp
    rfl
  case scan hidle _ _ _ => exact absurd (counts_of_isIdle hidle).2 hl
  case idle hidle _ _ _ _ _ _ => exact absurd (counts_of_isIdle hidle).2 hl
  case caller hcaller _ _ _ _ => exact absurd (counts_of_isCaller hcaller).2 hl
  all_goals exact absurd rfl hl

/-- Once a worker could not be created, the manager never starts another one: from a state in
which the manager is in its loop, the number of workers only gets smaller. -/
theorem no_growth_after_failure (hB : cfg.bound + 3 < 2 ^ 32)
    (h : Pool.Runs (step cfg) C managerInit s) (hfail : s.mem.failed ≠ 0)
    (hloop : ∀ t p, s.loc t = .manager p → p.inStart = false)
    (h' : Pool.Runs (step cfg) C s s') : s'.mem.count.toNat ≤ s.mem.count.toNat := by
  suffices hinv : alive s'.mem s'.loc ≤ alive s.mem s.loc ∧ s'.mem.failed ≠ 0 ∧
      ∀ t p, s'.loc t = .manager p → p.inStart = false by
    have hcount := toNat_count hB (exact_of_run h) (bounded_of_run hB h).alive_le
    have hcount' := toNat_count hB (exact_of_run (h.trans h'))
      (bounded_of_run hB (h.trans h')).alive_le
    omega
  refine h'.invariant (I := fun s' ↦ alive s'.mem s'.loc ≤ alive s.mem s.loc ∧
    s'.mem.failed ≠ 0 ∧ ∀ t p, s'.loc t = .manager p → p.inStart = false) ⟨le_rfl, hfail, hloop⟩ ?_
  rintro s₁ t a m l hr ⟨hle, hfail₁, hloop₁⟩ - hP
  have hfit := fits_of_run (h.trans hr)
  have hE := exact_of_run (h.trans hr)
  have hI := bounded_of_run hB (h.trans hr)
  have htrans := trans_of_step hP
  suffices hstep : l.counts + m.created ≤ (s₁.loc t).counts + s₁.mem.created ∧
      m.failed = s₁.mem.failed ∧ ∀ p, l = .manager p → p.inStart = false by
    obtain ⟨hcounts, hfailed, hstart⟩ := hstep
    refine ⟨?_, hfailed ▸ hfail₁, fun u p hu ↦ ?_⟩
    · simp only [alive, total_update] at hle ⊢
      omega
    · rcases eq_or_ne u t with rfl | hut
      · exact hstart p (by simpa using hu)
      · exact hloop₁ u p (by simpa [hut] using hu)
  by_cases hl : (s₁.loc t).manages = 0
  · obtain ⟨hcounts, hfailed⟩ := htrans.counts_le (hfit t) hl
    refine ⟨hcounts, hfailed, fun p hp ↦ ?_⟩
    rcases htrans.manages_eq (hfit t) with heq | ⟨hmanagers, -, -⟩
    · rw [hl, hp] at heq
      cases heq
    · have hhas : s₁.mem.wqlistHasManager.toNat ≤ 1 := Bool.toNat_le _
      have hmanager := hE.manager
      have hpos := total_nonneg manages_nonneg s₁.loc
      exact absurd (hI.fresh (by omega)).2 hfail₁
  · obtain ⟨hcounts, hfailed, hstart⟩ :=
      htrans.in_loop hB (hfit t) hE hI hfail₁ (hloop₁ t) hl
    exact ⟨hcounts.le, hfailed, hstart⟩

end Runs

/-- Thread 1 is the manager, whose second worker could not be created; its first one does not
run yet. -/
def failedState : Pool (Fin 2) (Mem (Fin 2) ℕ) (Loc ℕ) :=
  (managerInit.run (step smallConfig) (fun _ _ _ ↦ True)
    (List.flatten [[(0, .create 1)], .replicate 4 (0, .go), [(1, .startManager)],
      .replicate 9 (1, .go), [(1, .fail)], .replicate 3 (1, .go)])).get (by decide +kernel)

/-- The first worker has started and waits for an item. -/
def failedLater : Pool (Fin 2) (Mem (Fin 2) ℕ) (Loc ℕ) :=
  (failedState.run (step smallConfig) (fun _ _ _ ↦ True)
    (List.flatten [[(0, .start)], .replicate 7 (0, .go)])).get (by decide +kernel)

theorem scoreboard_exact_failed :
    failedState.mem.failed = 1 ∧ failedState.mem.created = 1 ∧
    (failedState.mem.count.toNat : ℤ) = total Loc.counts failedState.loc + failedState.mem.created ∧
    (failedState.mem.idle.toNat : ℤ) = total Loc.idles failedState.loc + failedState.mem.created ∧
    (failedState.mem.pendingThreadCreate.toNat : ℤ) =
      total Loc.pends failedState.loc + failedState.mem.created + failedState.mem.failed ∧
    failedState.mem.count.toNat ≤ smallConfig.bound :=
  have hstate : failedState.mem.failed = 1 ∧ failedState.mem.created = 1 := by decide +kernel
  ⟨hstate.1, hstate.2, scoreboard_exact (by decide) (Pool.runs_get _)⟩

theorem no_growth_after_failure_later :
    failedLater.loc 0 = .asleep ∧ failedLater.mem.count.toNat ≤ failedState.mem.count.toNat := by
  have hloop : ∀ t p, failedState.loc t = .manager p → p.inStart = false := by
    have hloc : failedState.loc 0 = .outside ∧ failedState.loc 1 = .manager (.top ⟨0, false⟩) := by
      decide +kernel
    intro t p hp
    fin_cases t
    · exact absurd (hloc.1.symm.trans hp) nofun
    · cases hloc.2.symm.trans hp
      rfl
  exact ⟨by decide +kernel, no_growth_after_failure (by decide) (Pool.runs_get _)
    (by decide +kernel)
    hloop (Pool.runs_get _)⟩

end LibDispatch.Workqueue.Scoreboard
