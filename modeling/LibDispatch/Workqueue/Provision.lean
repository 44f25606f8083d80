import LibDispatch.Workqueue.Overcommit

/-!
# A worker for every item

The workers in the timed wait are the idle ones and those for which a token has been left.
Every item comes with a token or with a new worker, and a worker takes an item before it
waits again.  So an item never waits for another item to return, however long that takes.
-/

namespace LibDispatch.Workqueue.Overcommit

open Interleaving

variable {T α : Type*} [DecidableEq T] {m m' : Mem T α} {l l' : Loc α} {t : T} {a : Act T α}

/-! ## The counters -/

/-- The share of a thread in the two counters: a worker that waits, or has woken up and has
not yet made up its mind, is idle or has a token. -/
def Loc.waits : Loc α → ℤ
  | .wait | .asleep | .awake _ | .consume | .leave => 1
  | .addCount => -1
  | _ => 0

/-- The workers in the wait, less the ones that a signaller has counted on already. -/
def Loc.woken : Loc α → ℤ
  | .asleep | .awake _ | .consume => 1
  | .addIdle | .addCount => -1
  | _ => 0

def Loc.isAsleep : Loc α → Bool
  | .asleep => true
  | _ => false

def Loc.sleeps : Loc α → ℤ
  | .asleep => 1
  | _ => 0

/-- The two counters make up the workers in the wait, and at least as many of these as there
are tokens have been unblocked. -/
structure Counted [Fintype T] (m : Mem T α) (loc : T → Loc α) : Prop where
  waits : (m.ocwqIdleThreads.toNat : ℤ) + m.ocwqSignalCount.toNat = total Loc.waits loc
  nodup : m.ocwqMtx.blocked.Nodup
  asleep : ∀ u ∈ m.ocwqMtx.blocked, loc u = .asleep
  woken : (m.ocwqSignalCount.toNat : ℤ) + m.ocwqMtx.blocked.length ≤ total Loc.woken loc

section Counters

variable [Fintype T] {loc : T → Loc α}

theorem waits_le_one (l : Loc α) : l.waits ≤ 1 := by
  cases l <;> simp [Loc.waits]

theorem sleeps_nonneg (l : Loc α) : 0 ≤ l.sleeps := by
  cases l <;> simp [Loc.sleeps]

theorem waits_eq_sleeps (hl : l.inside = false) : l.waits = l.sleeps ∧ l.woken = l.sleeps := by
  cases l <;> first | exact ⟨rfl, rfl⟩ | cases hl

theorem toNat_signalCount_succ (hcard : Fintype.card T < 2 ^ 32) (ht : loc t = .addCount)
    (hC : (m.ocwqIdleThreads.toNat : ℤ) + m.ocwqSignalCount.toNat = total Loc.waits loc) :
    (m.ocwqSignalCount + 1).toNat = m.ocwqSignalCount.toNat + 1 := by
  have hsum := total_update Loc.waits loc t .addUnlock
  have hbound := total_le_card waits_le_one (Function.update loc t .addUnlock)
  rw [ht] at hsum
  simp only [Loc.waits] at hsum
  exact toNat_add_one (by omega)

theorem Trans.waits (h : Trans t m (loc t) m' l') (hcard : Fintype.card T < 2 ^ 32)
    (hI : Consistent m loc)
    (hC : (m.ocwqIdleThreads.toNat : ℤ) + m.ocwqSignalCount.toNat = total Loc.waits loc) :
    (m'.ocwqIdleThreads.toNat : ℤ) + m'.ocwqSignalCount.toNat =
      total Loc.waits (Function.update loc t l') := by
  have hsum := total_update Loc.waits loc t l'
  have hbound := total_le_card waits_le_one (Function.update loc t l')
  have hS := hI.sound t
  have hrest := fun ht ↦ hI.guarded.total_sub_eq (t := t) ht (w := Loc.waits) (v := Loc.sleeps)
    fun l hl ↦ (waits_eq_sleeps hl).1
  have hsleeps := total_nonneg sleeps_nonneg loc
  generalize ht : loc t = l at h hS hsum hrest
  cases h
  case addIdle =>
    have := toNat_sub_one hS
    simp only [Loc.waits] at hsum ⊢
    omega
  case addCount =>
    have := toNat_signalCount_succ hcard ht hC
    simp only [Loc.waits] at hsum ⊢
    omega
  case idle =>
    simp only [Loc.waits] at hsum
    have : (m.ocwqIdleThreads + 1).toNat = m.ocwqIdleThreads.toNat + 1 :=
      toNat_add_one (by omega)
    dsimp only
    omega
  case consume =>
    have := toNat_sub_one hS
    simp only [Loc.waits] at hsum ⊢
    omega
  case leave =>
    have hself := hrest rfl
    simp only [Loc.waits, Loc.sleeps] at hsum hself
    have hzero : m.ocwqSignalCount.toNat = 0 := by simp [show m.ocwqSignalCount = 0 from hS]
    have hne : m.ocwqIdleThreads ≠ 0 := by
      intro hidle
      have : m.ocwqIdleThreads.toNat = 0 := by simp [hidle]
      omega
    have := toNat_sub_one hne
    dsimp only
    omega
  all_goals
    simp only [Loc.waits] at hsum
    rw [hsum, ← hC]
    simp

omit [Fintype T] in
/-- A step other than a wait leaves or shortens the list of the blocked threads, and its own
thread is not blocked afterwards. -/
theorem Trans.sublist (h : Trans t m l m' l') (hC : m.ocwqMtx.blocked.Nodup)
    (hl : l ≠ .asleep → t ∉ m.ocwqMtx.blocked) (hwait : l ≠ .wait) :
    m'.ocwqMtx.blocked.Sublist m.ocwqMtx.blocked ∧ t ∉ m'.ocwqMtx.blocked := by
  cases h
  case wait => exact absurd rfl hwait
  case signal u _ =>
    exact ⟨List.erase_sublist, fun ht ↦ hl nofun (List.mem_of_mem_erase ht)⟩
  case resume => exact ⟨List.erase_sublist, hC.not_mem_erase⟩
  all_goals exact ⟨.refl _, hl nofun⟩

theorem Trans.blocked (h : Trans t m (loc t) m' l') (hC : Counted m loc) :
    m'.ocwqMtx.blocked.Nodup ∧
      ∀ u ∈ m'.ocwqMtx.blocked, Function.update loc t l' u = .asleep := by
  have ht : loc t ≠ .asleep → t ∉ m.ocwqMtx.blocked := fun hne hmem ↦ hne (hC.asleep t hmem)
  by_cases hwait : loc t = .wait
  · rw [hwait] at h ht
    cases h
    refine ⟨List.nodup_cons.mpr ⟨ht nofun, hC.nodup⟩, fun u hu ↦ ?_⟩
    rcases List.mem_cons.mp hu with rfl | hu
    · rw [Function.update_self]
    · have hut : u ≠ t := fun heq ↦ ht nofun (heq ▸ hu)
      rw [Function.update_of_ne hut, hC.asleep u hu]
  · obtain ⟨hsub, hself⟩ := h.sublist hC.nodup ht hwait
    refine ⟨hC.nodup.sublist hsub, fun u hu ↦ ?_⟩
    have hut : u ≠ t := fun heq ↦ hself (heq ▸ hu)
    rw [Function.update_of_ne hut, hC.asleep u (hsub.subset hu)]

omit [DecidableEq T] [Fintype T] in
theorem sleeps_eq : (Loc.sleeps : Loc α → ℤ) = fun l ↦ if l.isAsleep then 1 else 0 := by
  funext l
  cases l <;> rfl

theorem Counted.total_sleeps (hC : Counted m loc) : total Loc.sleeps loc =
    m.ocwqMtx.blocked.length +
      (Finset.univ.filter fun u ↦ (loc u).isAsleep ∧ u ∉ m.ocwqMtx.blocked).card := by
  rw [sleeps_eq, total_eq_length_add hC.nodup fun u hu ↦ by rw [hC.asleep u hu]; rfl]

theorem Trans.woken (h : Trans t m (loc t) m' l') (hI : Consistent m loc) (hC : Counted m loc) :
    (m'.ocwqSignalCount.toNat : ℤ) + m'.ocwqMtx.blocked.length ≤
      total Loc.woken (Function.update loc t l') := by
  have hsum := total_update Loc.woken loc t l'
  have hS := hI.sound t
  have hwaits := fun ht ↦ hI.guarded.total_sub_eq (t := t) ht (w := Loc.waits) (v := Loc.sleeps)
    fun l hl ↦ (waits_eq_sleeps hl).1
  have hwoken := fun ht ↦ hI.guarded.total_sub_eq (t := t) ht (w := Loc.woken) (v := Loc.sleeps)
    fun l hl ↦ (waits_eq_sleeps hl).2
  have hsleeps := hC.total_sleeps
  obtain ⟨hidle, -, -, hle⟩ := hC
  generalize ht : loc t = l at h hS hsum hwaits hwoken
  cases h
  case signalNone hnone =>
    have hpos : m.ocwqIdleThreads.toNat ≠ 0 := fun hzero ↦ hS (BitVec.eq_of_toNat_eq hzero)
    have hself := hwaits rfl
    have hself' := hwoken rfl
    simp only [Loc.waits, Loc.woken, Loc.sleeps, hnone, List.length_nil] at *
    omega
  case signal u hu =>
    have hlen := List.length_erase_of_mem hu
    have hpos := List.length_pos_of_mem hu
    simp only [Loc.woken] at hsum ⊢
    omega
  case addCount =>
    have : (m.ocwqSignalCount + 1).toNat ≤ m.ocwqSignalCount.toNat + 1 := Nat.mod_le _ _
    simp only [Loc.woken] at hsum ⊢
    omega
  case wait =>
    simp only [Loc.woken] at hsum
    simp [Monitor.wait]
    omega
  case resume =>
    have hlen : (m.ocwqMtx.blocked.erase t).length ≤ m.ocwqMtx.blocked.length :=
      List.erase_sublist.length_le
    simp only [Loc.woken] at hsum ⊢
    omega
  case awakeNone hzero =>
    have hself := hwoken rfl
    simp only [Loc.woken, Loc.sleeps] at hsum hself
    have : m.ocwqSignalCount.toNat = 0 := by simp [hzero]
    omega
  case consume =>
    have := toNat_sub_one hS
    simp only [Loc.woken] at hsum ⊢
    omega
  all_goals
    simp only [Loc.woken] at hsum
    rw [hsum]
    simpa [Monitor.unlock] using hle

theorem Trans.counted (h : Trans t m (loc t) m' l') (hcard : Fintype.card T < 2 ^ 32)
    (hI : Consistent m loc) (hC : Counted m loc) : Counted m' (Function.update loc t l') :=
  have hblocked := h.blocked hC
  ⟨h.waits hcard hI hC.waits, hblocked.1, hblocked.2, h.woken hI hC⟩

end Counters

/-! ## A worker for every item -/

def pendingItems (ocwq : ℕ → Option (List α)) : ℤ :=
  ∑ i ∈ Finset.range workqNumPrioqueue, (((ocwq i).getD []).length : ℤ)

/-- The thread is a worker on its way to the queues that executes nothing, or is about to
provide one. -/
def Loc.provides : Loc α → ℤ
  | .addMask _ | .addTest | .addSignal | .addIdle | .addCount | .addCreate => 1
  | .lock | .scan | .first _ | .remove .. => 1
  | _ => 0

theorem pendingItems_update {ocwq : ℕ → Option (List α)} {i : ℕ} (hi : i < workqNumPrioqueue)
    (q : List α) : pendingItems (Function.update ocwq i (some q)) =
      pendingItems ocwq - ((ocwq i).getD []).length + q.length := by
  exact Served.sum_range_update (fun q : Option (List α) ↦ ((q.getD []).length : ℤ)) ocwq hi
    (some q)

theorem provides_nonneg (l : Loc α) : 0 ≤ l.provides := by
  cases l <;> simp [Loc.provides]

section Provision

variable [Fintype T] {loc : T → Loc α}

/-- As long as threads can be created, the workers that execute nothing suffice for the items
in the queues. -/
theorem Trans.provided (h : Trans t m (loc t) m' l') (hcard : Fintype.card T < 2 ^ 32)
    (hI : Consistent m loc) (hC : Counted m loc)
    (hok : loc t = .addCreate → m'.created = m.created + 1)
    (hP : pendingItems m.ocwq ≤ m.ocwqSignalCount.toNat + m.created + total Loc.provides loc) :
    pendingItems m'.ocwq ≤ m'.ocwqSignalCount.toNat + m'.created +
      total Loc.provides (Function.update loc t l') := by
  have hsum := total_update Loc.provides loc t l'
  have hpos := total_nonneg provides_nonneg (Function.update loc t l')
  have hS := hI.sound t
  have hS' := h.sound hI.guarded hI.masked hS
  have hM := hI.masked
  generalize ht : loc t = l at h hS hsum hok
  cases h
  case create i hi hnone =>
    rw [pendingItems_update hi, hnone]
    simp only [Loc.provides, Option.getD_none, List.length_nil] at hsum ⊢
    omega
  case addInsert i witem =>
    rw [pendingItems_update (hM.exists_of i hS), List.length_append, List.length_singleton]
    simp only [Loc.provides, Mem.items] at hsum ⊢
    push_cast
    omega
  case addCount =>
    have := toNat_signalCount_succ hcard ht hC.waits
    simp only [Loc.provides] at hsum ⊢
    omega
  case addCreateFailed =>
    have := hok rfl
    omega
  case scanNone =>
    -- the worker has found the mask empty, so that no item is left
    have hzero : pendingItems m.ocwq = 0 :=
      Finset.sum_eq_zero fun i _ ↦ by exact_mod_cast congrArg List.length (hS' i)
    omega
  case firstNone hnil => exact absurd hnil hS.1
  case remove i witem =>
    have := List.length_pos_iff.mpr hS.1
    rw [pendingItems_update (hM.exists_of i (isSome_of_items hS.1)), List.length_tail]
    simp only [Loc.provides, Mem.items] at hsum this ⊢
    omega
  case consume =>
    have := toNat_sub_one hS
    simp only [Loc.provides] at hsum ⊢
    omega
  all_goals
    simp only [Loc.provides] at hsum ⊢
    omega

theorem counted_of_run {C : Pool T (Mem T α) (Loc α) → T → Act T α → Prop}
    {s : Pool T (Mem T α) (Loc α)} (hcard : Fintype.card T < 2 ^ 32)
    (h : Pool.Runs step C managerInit s) : Counted s.mem s.loc := by
  refine h.invariant (I := fun s ↦ Counted s.mem s.loc) ⟨?_, List.nodup_nil, nofun, ?_⟩
    fun s t a m l hr hI _ hP ↦ (trans_of_step hP).counted hcard (consistent_of_run hr) hI
  · simp [managerInit, total, Loc.waits]
  · simp [managerInit, total, Loc.woken, Monitor.free]

/-- A worker that starts, or that has executed an item. -/
def Loc.isLock : Loc α → Bool
  | .lock => true
  | _ => false

variable {s : Pool T (Mem T α) (Loc α)} {C : Pool T (Mem T α) (Loc α) → T → Act T α → Prop}

/-- Whenever nobody holds the mutex, at least as many workers as there are tokens have been
unblocked. -/
theorem signalCount_le_unblocked (hcard : Fintype.card T < 2 ^ 32)
    (h : Pool.Runs step C managerInit s) (hfree : s.mem.ocwqMtx.owner = none) :
    s.mem.ocwqSignalCount.toNat ≤
      (Finset.univ.filter fun u ↦ (s.loc u).isAsleep ∧ u ∉ s.mem.ocwqMtx.blocked).card := by
  have hC := counted_of_run hcard h
  have hG := (consistent_of_run h).guarded
  rw [hfree] at hG
  have hwoken := hG.total_eq (w := Loc.woken) fun l hl ↦ (waits_eq_sleeps hl).2
  have hunblocked := hC.total_sleeps
  have hle := hC.woken
  omega

/-- The counters are exact whenever nobody holds the mutex: the workers asleep in the wait are
the idle ones and those for which a token has been left, and at least as many as there are
tokens have been unblocked. -/
theorem counters_exact (hcard : Fintype.card T < 2 ^ 32) (h : Pool.Runs step C managerInit s)
    (hfree : s.mem.ocwqMtx.owner = none) :
    s.mem.ocwqIdleThreads.toNat + s.mem.ocwqSignalCount.toNat =
        (Finset.univ.filter fun u ↦ (s.loc u).isAsleep).card ∧
      s.mem.ocwqSignalCount.toNat ≤
        (Finset.univ.filter fun u ↦ (s.loc u).isAsleep ∧ u ∉ s.mem.ocwqMtx.blocked).card := by
  refine ⟨?_, signalCount_le_unblocked hcard h hfree⟩
  have hG := (consistent_of_run h).guarded
  rw [hfree] at hG
  have hwaits := hG.total_eq (w := Loc.waits) fun l hl ↦ (waits_eq_sleeps hl).1
  have hcount := (counted_of_run hcard h).waits
  rw [hwaits, sleeps_eq, total_eq_card] at hcount
  exact_mod_cast hcount

omit [Fintype T] in
theorem created_of_step (h : step t a m l = some (m', l')) (ha : a ≠ .fail) (hl : l = .addCreate) :
    m'.created = m.created + 1 := by
  subst hl
  cases a <;> cases h <;> first | rfl | exact absurd rfl ha

theorem provided_of_run (hcard : Fintype.card T < 2 ^ 32)
    (h : Pool.Runs step (fun _ _ a ↦ a ≠ .fail) managerInit s) :
    pendingItems s.mem.ocwq ≤
      s.mem.ocwqSignalCount.toNat + s.mem.created + total Loc.provides s.loc := by
  refine h.invariant (I := fun s ↦ pendingItems s.mem.ocwq ≤
      s.mem.ocwqSignalCount.toNat + s.mem.created + total Loc.provides s.loc) ?_ ?_
  · simp [managerInit, pendingItems, total, Loc.provides]
  · intro s t a m l hr hI ha hP
    exact (trans_of_step hP).provided hcard (consistent_of_run hr) (counted_of_run hcard hr)
      (created_of_step hP ha) hI

/-- No item waits for another one to return.  As long as no `pthread_create` fails, there is
for every item in the queues a worker of its own that executes nothing: one that has been
created, one that is about to look at the queues, or one that has been signalled. -/
theorem worker_for_every_item (hcard : Fintype.card T < 2 ^ 32)
    (h : Pool.Runs step (fun _ _ a ↦ a ≠ .fail) managerInit s)
    (hfree : s.mem.ocwqMtx.owner = none) :
    pendingItems s.mem.ocwq ≤ s.mem.created +
        (Finset.univ.filter fun u ↦ (s.loc u).isLock).card + s.mem.ocwqSignalCount.toNat ∧
      s.mem.ocwqSignalCount.toNat ≤
        (Finset.univ.filter fun u ↦ (s.loc u).isAsleep ∧ u ∉ s.mem.ocwqMtx.blocked).card := by
  refine ⟨?_, signalCount_le_unblocked hcard h hfree⟩
  have hG := (consistent_of_run h).guarded
  rw [hfree] at hG
  have hlock : total Loc.provides s.loc = (Finset.univ.filter fun u ↦ (s.loc u).isLock).card := by
    rw [← total_eq_card (fun l : Loc α ↦ l.isLock)]
    refine hG.total_eq fun l hl ↦ ?_
    cases l <;> first | rfl | cases hl
  have hle := provided_of_run hcard h
  omega

end Provision

/-- Two items have been added by thread 0, and thread 1 has been created for the first one and
executes it. -/
def busyState : Pool (Fin 2) (Mem (Fin 2) ℕ) (Loc ℕ) :=
  (managerInit.run step (fun _ _ a ↦ a ≠ .fail)
    (List.flatten [[(0, .create 1), (0, .add 1 7)], .replicate 6 (0, .go), [(1, .start)],
      .replicate 6 (1, .go), [(0, .add 1 8)], .replicate 6 (0, .go)])).get (by decide +kernel)

theorem worker_for_second_item : busyState.loc 1 = .run 7 ∧ pendingItems busyState.mem.ocwq = 1 ∧
    pendingItems busyState.mem.ocwq ≤ busyState.mem.created +
        (Finset.univ.filter fun u ↦ (busyState.loc u).isLock).card +
          busyState.mem.ocwqSignalCount.toNat ∧
      busyState.mem.ocwqSignalCount.toNat ≤ (Finset.univ.filter fun u ↦
        (busyState.loc u).isAsleep ∧ u ∉ busyState.mem.ocwqMtx.blocked).card :=
  ⟨by decide +kernel, by decide +kernel,
    worker_for_every_item (by decide) (Pool.runs_get _) (by decide +kernel)⟩

/-- The worker has gone to sleep after the first item, and the second one has been added. -/
def signalledState : Pool (Fin 2) (Mem (Fin 2) ℕ) (Loc ℕ) :=
  (managerInit.run step (fun _ _ _ ↦ True)
    (List.flatten [[(0, .create 1), (0, .add 1 7)], .replicate 6 (0, .go), [(1, .start)],
      .replicate 11 (1, .go), [(0, .add 1 8)], .replicate 4 (0, .go), [(0, .unblock 1)],
      .replicate 3 (0, .go)])).get (by decide +kernel)

theorem counters_exact_signalled :
    signalledState.mem.ocwqIdleThreads = 0 ∧ signalledState.mem.ocwqSignalCount = 1 ∧
    signalledState.mem.ocwqIdleThreads.toNat + signalledState.mem.ocwqSignalCount.toNat =
        (Finset.univ.filter fun u ↦ (signalledState.loc u).isAsleep).card ∧
      signalledState.mem.ocwqSignalCount.toNat ≤ (Finset.univ.filter fun u ↦
        (signalledState.loc u).isAsleep ∧ u ∉ signalledState.mem.ocwqMtx.blocked).card :=
  ⟨by decide +kernel, by decide +kernel,
    counters_exact (by decide) (Pool.runs_get _) (by decide +kernel)⟩

end LibDispatch.Workqueue.Overcommit
