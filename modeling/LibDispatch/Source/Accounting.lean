import LibDispatch.Source.Steps

/-!
# What the counts of a source are made of

`dq_running` is one while a thread has it.  The suspend count is made of the lock, the
suspensions by clients and those of `dispatch_source_set_timer`.  The references are one
for the owners, one for the manager while `ds_dkev` is not null, one for the list on which
the source is, and those in the hands of threads.
-/

namespace LibDispatch.Source

open Interleaving

variable {T Q : Type*}

def Loc.bit : Loc Q → ℤ
  | .held .. => 1
  | _ => 0

/-- The thread has set the lock in the suspend count, or taken the source off a list. -/
def Loc.lock : Loc Q → ℤ
  | .wakeup .retain _ | .wakeup .target _ | .wakeup (.push _) _ | .invokeTarget _
  | .invokeSuspended .. | .invokeLock .. | .held .. | .invokePush _ | .invokeSubLock => 1
  | _ => 0

/-- The suspensions of `dispatch_source_set_timer` in the hands of a thread. -/
def Loc.suspends : Loc Q → ℤ
  | .setTimerPush | .timerDkev | .timerMerge _ | .timerResume => 1
  | _ => 0

def After.refs : After → ℤ
  | .release => 1
  | .return | .releaseXref => 0

/-- The reference of the manager, while `_dispatch_kevent_release` has it. -/
def Held.mgrRef : Held Q → ℤ
  | .releaseRemove | .releaseArmed | .releaseRearm | .releaseRef => 1
  | _ => 0

def Loc.refs : Loc Q → ℤ
  | .wakeup .target k | .wakeup (.push _) k => 1 + k.refs
  | .wakeup _ k => k.refs
  | .held _ p => 1 + p.mgrRef
  | .pushHead | .release | .xrefSuspended | .cancelFlag | .invokeTarget _
  | .invokeSuspended .. | .invokeLock .. | .invokePush _ | .invokeSubLock | .invokeRunning
  | .crash .releaseSuspended => 1
  | _ => 0

def Mem.ownRefs (m : Mem Q) : ℕ := min m.doXrefCnt 1 + m.dsDkev.toNat

theorem Loc.bit_nonneg (l : Loc Q) : 0 ≤ l.bit := by
  cases l <;> simp [Loc.bit]

theorem Loc.bit_le_one (l : Loc Q) : l.bit ≤ 1 := by
  cases l <;> simp [Loc.bit]

theorem Loc.lock_nonneg (l : Loc Q) : 0 ≤ l.lock := by
  unfold Loc.lock
  split <;> simp

theorem Loc.suspends_nonneg (l : Loc Q) : 0 ≤ l.suspends := by
  cases l <;> simp [Loc.suspends]

theorem Loc.refs_nonneg (l : Loc Q) : 0 ≤ l.refs := by
  have hk : ∀ k : After, 0 ≤ k.refs := fun k ↦ by cases k <;> simp [After.refs]
  cases l
  case wakeup w k =>
    have hk := hk k
    cases w <;> simp only [Loc.refs] <;> omega
  case held f p => cases p <;> simp [Loc.refs, Held.mgrRef]
  case crash why => cases why <;> simp [Loc.refs]
  all_goals simp [Loc.refs]

theorem drainOut_cases (f : Frame Q) (dc : Item Q) :
    drainOut f dc = .outHead ∨ drainOut f dc = .outSwap dc := by
  unfold drainOut
  split <;> simp

theorem refs_afterLoc (k : After) : (k.loc : Loc Q).refs = k.refs := by
  cases k <;> rfl

theorem afterLoc_plain (k : After) :
    (k.loc : Loc Q).bit = 0 ∧ (k.loc : Loc Q).lock = 0 ∧ (k.loc : Loc Q).suspends = 0 := by
  cases k <;> exact ⟨rfl, rfl, rfl⟩

theorem resumeLoc_eq (m : Mem Q) (k : After) : resumeLoc m k = .wakeup .suspended k ∨
    resumeLoc m k = .crash .overResume ∨ resumeLoc m k = k.loc := by
  unfold resumeLoc
  split
  · exact .inl rfl
  · split
    · exact .inr (.inl rfl)
    · exact .inr (.inr rfl)

theorem resumeLoc_plain (m : Mem Q) {k : After} (hk : k.refs = 0) :
    (resumeLoc m k).refs = 0 ∧ (resumeLoc m k).bit = 0 ∧ (resumeLoc m k).lock = 0 ∧
      (resumeLoc m k).suspends = 0 := by
  rcases resumeLoc_eq m k with h | h | h <;> rw [h]
  · exact ⟨hk, rfl, rfl, rfl⟩
  · exact ⟨rfl, rfl, rfl, rfl⟩
  · obtain ⟨hbit, hlock, hsus⟩ := afterLoc_plain (Q := Q) k
    exact ⟨(refs_afterLoc k).trans hk, hbit, hlock, hsus⟩

theorem HeldTrans.counts {set : Setting T Q} {m m' : Mem Q} {f f' : Frame Q} {p p' : Held Q}
    (h : HeldTrans set m f p m' f' p') : m'.dqRunning = m.dqRunning ∧
      m'.doSuspendCnt = m.doSuspendCnt ∧ m'.linked = m.linked ∧ m'.suspensions = m.suspensions ∧
      m'.timers = m.timers ∧ m'.doRefCnt = m.doRefCnt ∧ m'.doXrefCnt = m.doXrefCnt ∧
      m'.dsCanceled = m.dsCanceled ∧ m'.disposed = m.disposed := by
  cases h
  case drainItem dc => cases dc <;> simp [Item.run]
  all_goals simp

theorem HeldTrans.mgrRef_eq {set : Setting T Q} {m m' : Mem Q} {f f' : Frame Q} {p p' : Held Q}
    (h : HeldTrans set m f p m' f' p') (hdkev : p = .releaseDkev → m.dsDkev) :
    p'.mgrRef + m'.dsDkev.toNat = p.mgrRef + m.dsDkev.toNat := by
  cases h
  case releaseDkev => simp [hdkev rfl, Held.mgrRef]
  case drainItem dc => cases dc <;> simp only [Item.run] <;> split <;> rfl
  case outSuspended dc _ | outRunning dc _ | outTarget dc _ =>
    rcases drainOut_cases f dc with ho | ho <;> rw [ho] <;> rfl
  all_goals rfl

/-! ## What a step does to the counts -/

section Deltas

variable [DecidableEq Q] {set : Setting T Q} {t : T} {m m' : Mem Q} {l l' : Loc Q}

theorem Trans.refs_eq (h : Trans set t m l m' l')
    (hle : m.ownRefs + m.linked.length + l.refs ≤ m.doRefCnt)
    (hdkev : ∀ f, l = .held f .releaseDkev → m.dsDkev) :
    m'.doRefCnt - m'.ownRefs - m'.linked.length - l'.refs =
      m.doRefCnt - m.ownRefs - m.linked.length - l.refs := by
  cases h
  case held f f' p p' h =>
    obtain ⟨-, -, hlinked, -, -, href, hxref, -⟩ := h.counts
    have hmgr := h.mgrRef_eq fun hp ↦ hdkev f (by rw [hp])
    simp only [Mem.ownRefs, hlinked, href, hxref, Loc.refs]
    omega
  case resume => rw [(resumeLoc_plain m rfl).1]; rfl
  case timerResume => rw [(resumeLoc_plain m rfl).1]; rfl
  case invoke tq hmem _ =>
    have hlen := List.length_erase_of_mem hmem
    have hpos := List.length_pos_of_mem hmem
    simp only [Mem.ownRefs, Loc.refs]
    omega
  case wakeupSuspended k _ | wakeupEmpty k _ | wakeupMissed k _ =>
    rw [refs_afterLoc]
    rfl
  case wakeupPush k =>
    rw [refs_afterLoc]
    simp only [Mem.ownRefs, Loc.refs, List.length_cons]
    push_cast
    ring
  all_goals try rfl
  all_goals
    simp only [Mem.ownRefs, Loc.refs, Held.mgrRef, After.refs, List.length_cons] at hle ⊢
    omega

theorem Trans.running_eq (h : Trans set t m l m' l') (hle : l.bit ≤ m.dqRunning)
    (href : ∀ f, l = .held f .releaseRef → m.doRefCnt ≠ 1) :
    (m'.dqRunning : ℤ) - l'.bit = m.dqRunning - l.bit := by
  cases h
  case held h => rw [h.counts.1]; rfl
  case releaseRefCrash hone _ => exact (href _ rfl hone).elim
  case resume => rw [(resumeLoc_plain m rfl).2.1]; rfl
  case timerResume => rw [(resumeLoc_plain m rfl).2.1]; rfl
  case wakeupSuspended k _ | wakeupEmpty k _ | wakeupMissed k _ | wakeupPush k =>
    rw [(afterLoc_plain k).1]
    rfl
  all_goals try rfl
  all_goals
    simp only [Loc.bit] at hle ⊢
    omega

theorem Trans.suspend_eq (h : Trans set t m l m' l')
    (hle : l.lock + 2 * l.suspends + m.linked.length + 2 * (m.suspensions + m.timers) ≤
      m.doSuspendCnt) (href : ∀ f, l = .held f .releaseRef → m.doRefCnt ≠ 1) :
    (m'.doSuspendCnt : ℤ) - l'.lock - 2 * l'.suspends - m'.linked.length -
        2 * (m'.suspensions + m'.timers) =
      m.doSuspendCnt - l.lock - 2 * l.suspends - m.linked.length -
        2 * (m.suspensions + m.timers) := by
  cases h
  case held h =>
    obtain ⟨-, hcnt, hlinked, hsus, htimers, -⟩ := h.counts
    rw [hcnt, hlinked, hsus, htimers]
    rfl
  case releaseRefCrash hone _ => exact (href _ rfl hone).elim
  case resume hpos =>
    obtain ⟨-, -, hlock, hsus⟩ := resumeLoc_plain m (k := .return) rfl
    rw [hlock, hsus]
    simp only [Loc.lock, Loc.suspends] at hle ⊢
    omega
  case timerResume =>
    obtain ⟨-, -, hlock, hsus⟩ := resumeLoc_plain m (k := .releaseXref) rfl
    rw [hlock, hsus]
    simp only [Loc.lock, Loc.suspends] at hle ⊢
    omega
  case invoke tq hmem _ =>
    have hlen := List.length_erase_of_mem hmem
    have hpos := List.length_pos_of_mem hmem
    simp only [Loc.lock, Loc.suspends]
    omega
  case wakeupSuspended k _ | wakeupEmpty k _ | wakeupMissed k _ =>
    obtain ⟨-, hlock, hsus⟩ := afterLoc_plain (Q := Q) k
    rw [hlock, hsus]
    rfl
  case wakeupPush k =>
    obtain ⟨-, hlock, hsus⟩ := afterLoc_plain (Q := Q) k
    rw [hlock, hsus]
    simp only [Loc.lock, Loc.suspends, List.length_cons]
    push_cast
    ring
  all_goals try rfl
  all_goals
    simp only [Loc.lock, Loc.suspends, List.length_cons] at hle ⊢
    omega

theorem Trans.lock_le (h : Trans set t m l m' l') :
    l'.lock + m'.linked.length ≤ l.lock + m.linked.length ∨
      (m.doSuspendCnt = 0 ∧ l'.lock + m'.linked.length ≤ 1 + m.linked.length) := by
  cases h
  case wakeupLock hfree => exact .inr ⟨hfree, by simp [Loc.lock]⟩
  case held h => exact .inl (by rw [h.counts.2.2.1]; exact le_rfl)
  case resume => exact .inl (by rw [(resumeLoc_plain m rfl).2.2.1]; exact le_rfl)
  case timerResume => exact .inl (by rw [(resumeLoc_plain m rfl).2.2.1]; exact le_rfl)
  case invoke tq hmem _ =>
    have hlen := List.length_erase_of_mem hmem
    have hpos := List.length_pos_of_mem hmem
    refine .inl ?_
    simp only [Loc.lock]
    omega
  case wakeupSuspended k _ | wakeupEmpty k _ | wakeupMissed k _ =>
    exact .inl (by rw [(afterLoc_plain k).2.1]; exact le_rfl)
  case wakeupPush k =>
    refine .inl ?_
    rw [(afterLoc_plain k).2.1]
    simp [Loc.lock]
  all_goals try exact .inl le_rfl
  all_goals
    refine .inl ?_
    simp [Loc.lock]

theorem Trans.bit_le (h : Trans set t m l m' l') : l'.bit ≤ l.bit ∨ m.dqRunning = 0 := by
  cases h
  case invokeLock hfree => exact .inr hfree
  case resume => exact .inl (by rw [(resumeLoc_plain m rfl).2.1]; exact le_rfl)
  case timerResume => exact .inl (by rw [(resumeLoc_plain m rfl).2.1]; exact le_rfl)
  case wakeupSuspended k _ | wakeupEmpty k _ | wakeupMissed k _ | wakeupPush k =>
    exact .inl (by rw [(afterLoc_plain k).1]; exact le_rfl)
  all_goals try exact .inl le_rfl
  all_goals
    refine .inl ?_
    simp [Loc.bit]

/-- Only a thread that has `dq_running` unregisters the source, installs handlers and
changes the target queue; what has been set otherwise stays set. -/
theorem Trans.others (h : Trans set t m l m' l') (hl : l.bit = 0) :
    m'.dsDkev = m.dsDkev ∧ m'.doTargetq = m.doTargetq ∧
      m'.dsCancelHandler = m.dsCancelHandler ∧ m'.cancelCalls = m.cancelCalls ∧
      m'.installs = m.installs ∧ (m.dsCanceled → m'.dsCanceled) ∧
      (m.dsIsInstalled → m'.dsIsInstalled) := by
  cases h
  case held => cases hl
  all_goals simp

omit [DecidableEq Q] in
theorem HeldTrans.dsDkev_of_releaseDkev {set : Setting T Q} {m m' : Mem Q} {f f' : Frame Q}
    {p p' : Held Q} (h : HeldTrans set m f p m' f' p') (hp' : p' = .releaseDkev) : m'.dsDkev := by
  cases h
  case dkev hd _ => exact hd
  case drainItem => split at hp' <;> cases hp'
  case outSuspended dc _ | outRunning dc _ | outTarget dc _ =>
    rcases drainOut_cases f dc with ho | ho <;> cases ho.symm.trans hp'
  all_goals cases hp'

theorem Trans.dsDkev_of_releaseDkev (h : Trans set t m l m' l') {f : Frame Q}
    (hl' : l' = .held f .releaseDkev) : m'.dsDkev := by
  have hbit : l'.bit = 1 := by
    rw [hl']
    rfl
  cases h
  case held h =>
    cases hl'
    exact h.dsDkev_of_releaseDkev rfl
  case resume => cases (resumeLoc_plain m rfl).2.1.symm.trans hbit
  case timerResume => cases (resumeLoc_plain m rfl).2.1.symm.trans hbit
  case wakeupSuspended k _ | wakeupEmpty k _ | wakeupMissed k _ | wakeupPush k =>
    cases (afterLoc_plain k).1.symm.trans hbit
  all_goals cases hl'

end Deltas

/-! ## The accounts -/

section Accounts

variable [Fintype T]

structure Accounts (m : Mem Q) (loc : T → Loc Q) : Prop where
  running : (m.dqRunning : ℤ) = ∑ u, (loc u).bit
  running_le : m.dqRunning ≤ 1
  suspend : (m.doSuspendCnt : ℤ) = ∑ u, ((loc u).lock + 2 * (loc u).suspends) +
    m.linked.length + 2 * (m.suspensions + m.timers)
  lock_le : ∑ u, (loc u).lock + m.linked.length ≤ 1
  refs : m.doRefCnt = m.ownRefs + m.linked.length + ∑ u, (loc u).refs
  releaseDkev : ∀ u f, loc u = .held f .releaseDkev → m.dsDkev

variable {m m' : Mem Q} {loc : T → Loc Q} {t : T}

theorem Accounts.share_le_suspend (h : Accounts m loc) (u : T) :
    (loc u).lock + 2 * (loc u).suspends + m.linked.length + 2 * (m.suspensions + m.timers) ≤
      m.doSuspendCnt := by
  have hle := Finset.single_le_sum (f := fun v ↦ (loc v).lock + 2 * (loc v).suspends)
    (fun v _ ↦ by
      have hlock := (loc v).lock_nonneg
      have hsus := (loc v).suspends_nonneg
      omega) (Finset.mem_univ u)
  have hsus := h.suspend
  omega

theorem Accounts.share_le_refs (h : Accounts m loc) (u : T) :
    m.ownRefs + m.linked.length + (loc u).refs ≤ m.doRefCnt := by
  have hle := Finset.single_le_sum (f := fun v ↦ (loc v).refs)
    (fun v _ ↦ (loc v).refs_nonneg) (Finset.mem_univ u)
  have hrefs := h.refs
  omega

theorem Accounts.bit_le (h : Accounts m loc) (u : T) : (loc u).bit ≤ m.dqRunning := by
  rw [h.running]
  exact Finset.single_le_sum (f := fun v ↦ (loc v).bit)
    (fun v _ ↦ (loc v).bit_nonneg) (Finset.mem_univ u)

theorem Accounts.lock_eq_zero (h : Accounts m loc) (hfree : m.doSuspendCnt = 0) :
    ∑ u, (loc u).lock + m.linked.length = 0 := by
  have hlock := Finset.sum_nonneg fun u (_ : u ∈ Finset.univ) ↦ (loc u).lock_nonneg
  have hsus := Finset.sum_nonneg fun u (_ : u ∈ Finset.univ) ↦ (loc u).suspends_nonneg
  have hsum := h.suspend
  rw [Finset.sum_add_distrib, ← Finset.mul_sum] at hsum
  omega

theorem Accounts.bit_of_ne (h : Accounts m loc) {u : T} (ht : (loc t).bit = 1) (hu : u ≠ t) :
    (loc u).bit = 0 := by
  classical
  have hpair := Finset.add_sum_erase Finset.univ (fun v ↦ (loc v).bit) (Finset.mem_univ t)
  have hle := Finset.single_le_sum (f := fun v ↦ (loc v).bit)
    (fun v _ ↦ (loc v).bit_nonneg) (Finset.mem_erase.mpr ⟨hu, Finset.mem_univ u⟩)
  have hrun := h.running
  have hone := h.running_le
  have hnonneg := (loc u).bit_nonneg
  omega

theorem Loc.eq_held_of_bit {l : Loc Q} (h : l.bit ≠ 0) : ∃ f p, l = .held f p := by
  cases l
  case held f p => exact ⟨f, p, rfl⟩
  all_goals exact (h rfl).elim

theorem Accounts.exists_held (h : Accounts m loc) (hpos : 0 < m.dqRunning) :
    ∃ t f p, loc t = .held f p := by
  have hsum : ∑ u, (loc u).bit ≠ 0 := by
    have hrun := h.running
    omega
  obtain ⟨t, -, ht⟩ := Finset.exists_ne_zero_of_sum_ne_zero hsum
  exact ⟨t, Loc.eq_held_of_bit ht⟩

theorem Accounts.running_of_held (h : Accounts m loc) {f : Frame Q} {p : Held Q}
    (ht : loc t = .held f p) : m.dqRunning = 1 := by
  have hle := h.bit_le t
  have hone := h.running_le
  rw [ht] at hle
  simp only [Loc.bit] at hle
  omega

theorem Accounts.ne_held (h : Accounts m loc) {f g : Frame Q} {p q : Held Q} {u : T}
    (ht : loc t = .held f p) (hu : u ≠ t) : loc u ≠ .held g q := by
  intro heq
  have hbit := h.bit_of_ne (t := t) (by rw [ht]; rfl) hu
  rw [heq] at hbit
  cases hbit

variable [DecidableEq T] [DecidableEq Q] {set : Setting T Q} {l' : Loc Q}

theorem Trans.accounts (h : Trans set t m (loc t) m' l') (hacc : Accounts m loc) :
    Accounts m' (Function.update loc t l') := by
  have href : ∀ f, loc t = .held f .releaseRef → m.doRefCnt ≠ 1 := fun f ht ↦ by
    have hle := hacc.share_le_refs t
    simp only [ht, Loc.refs, Held.mgrRef] at hle
    omega
  have hrun := h.running_eq (hacc.bit_le t) href
  have hsus := h.suspend_eq (hacc.share_le_suspend t) href
  have hrefs := h.refs_eq (hacc.share_le_refs t) (hacc.releaseDkev t)
  have hbit := hacc.bit_le t
  have hshare := hacc.share_le_suspend t
  constructor
  · rw [Pool.sum_update fun _ l ↦ Loc.bit l, ← hacc.running]
    omega
  · rcases h.bit_le with hle | hfree
    · have hone := hacc.running_le
      omega
    · have hone := l'.bit_le_one
      have hnonneg := (loc t).bit_nonneg
      omega
  · rw [Pool.sum_update fun _ l ↦ Loc.lock l + 2 * l.suspends]
    have hsum := hacc.suspend
    omega
  · rw [Pool.sum_update fun _ l ↦ Loc.lock l]
    rcases h.lock_le with hle | ⟨hfree, hle⟩
    · have hone := hacc.lock_le
      omega
    · have hzero := hacc.lock_eq_zero hfree
      have hnonneg := (loc t).lock_nonneg
      omega
  · rw [Pool.sum_update fun _ l ↦ Loc.refs l]
    have hsum := hacc.refs
    omega
  · intro u f hu
    rcases eq_or_ne u t with rfl | hut
    · exact h.dsDkev_of_releaseDkev (by simpa using hu)
    · rw [Function.update_of_ne hut] at hu
      have hother : (loc t).bit = 0 := hacc.bit_of_ne (t := u) (by rw [hu]; rfl) hut.symm
      rw [(h.others hother).1]
      exact hacc.releaseDkev u f hu

omit [DecidableEq T] [DecidableEq Q] in
theorem accounts_created (tq : Q) (mask : BitVec 64) (needsRearm : Bool) :
    Accounts (created (T := T) tq mask needsRearm).mem
      (created (T := T) tq mask needsRearm).loc := by
  constructor <;> simp [created, Loc.bit, Loc.lock, Loc.suspends, Loc.refs, Mem.ownRefs,
    Queue.suspendInterval]

theorem accounts_of_run {C : Pool T (Mem Q) (Loc Q) → T → Act Q → Prop} {tq : Q}
    {mask : BitVec 64} {needsRearm : Bool} {s : Pool T (Mem Q) (Loc Q)}
    (h : Pool.Runs (step set) C (created tq mask needsRearm) s) : Accounts s.mem s.loc :=
  h.invariant (I := fun s ↦ Accounts s.mem s.loc) (accounts_created tq mask needsRearm)
    fun _ _ _ _ _ _ hacc _ hP ↦ (trans_of_step hP).accounts hacc

end Accounts

end LibDispatch.Source
