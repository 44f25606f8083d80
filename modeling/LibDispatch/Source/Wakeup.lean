import LibDispatch.Source.Cancel
import LibDispatch.Queue.Wakeup

/-!
# No wakeup of a source is lost

The probe of a source reads its fields one after the other, so a thread in the middle of it
attends to the source only if the loads that it still has to make find something to do.
-/

namespace LibDispatch.Source

open Interleaving

variable {T Q : Type*}

/-! ## What there is to do -/

/-- The source has to be unregistered, or its cancellation handler to be called. -/
def Mem.cancels (m : Mem Q) : Bool := m.dsDkev || m.dsCancelHandler.isSome

def Mem.rearms (m : Mem Q) : Bool := m.dsNeedsRearm && !m.dsIsArmed

/-- There is data to deliver, or the source has to be armed again. -/
def Mem.delivers (m : Mem Q) : Bool := m.dsPendingData != 0 || m.rearms

/-- The result of `_dispatch_source_probe` from the load `p` on, if all are made now. -/
def Mem.finds (m : Mem Q) : Probe → Bool
  | .isInstalled => !m.dsIsInstalled ||
      if m.dsCanceled ∨ m.doXrefCnt = 0 then m.cancels else m.delivers
  | .flags => if m.dsCanceled ∨ m.doXrefCnt = 0 then m.cancels else m.delivers
  | .xref => if m.doXrefCnt = 0 then m.cancels else m.delivers
  | .dkev => m.cancels
  | .cancelHandler => m.dsCancelHandler.isSome
  | .pendingData => m.delivers
  | .needsRearm => m.rearms
  | .isArmed => !m.dsIsArmed

/-- The source has something to do: `_dispatch_source_probe` is true or there are items. -/
def Mem.Work (m : Mem Q) : Prop := m.finds .isInstalled ∨ m.items ≠ []

/-- The source has something to do and is neither suspended nor locked. -/
def Mem.Stalled (m : Mem Q) : Prop := m.doSuspendCnt = 0 ∧ m.Work

theorem finds_next {m : Mem Q} {p p' : Probe} (h : dispatchSourceProbe m p = .inl p') :
    m.finds p' = m.finds p := by
  cases p <;> simp only [dispatchSourceProbe] at h
  case flags =>
    cases h
    split <;> simp [Mem.finds, *]
  case xref =>
    cases h
    split <;> simp [Mem.finds, *]
  case cancelHandler | isArmed => cases h
  all_goals
    split at h <;> cases h
    simp [Mem.finds, Mem.cancels, Mem.delivers, Mem.rearms, *]

theorem finds_last {m : Mem Q} {p : Probe} {b : Bool} (h : dispatchSourceProbe m p = .inr b) :
    m.finds p = b := by
  cases p <;> simp only [dispatchSourceProbe] at h <;> (try split at h) <;> cases h
  all_goals simp_all [Mem.finds, Mem.cancels, Mem.delivers, Mem.rearms]

/-- The thread will wake the source up if there is something to do. -/
def Loc.Attends (m : Mem Q) : Loc Q → Prop
  | .pushRetain | .pushHead | .xrefSuspended | .mergeRearm | .mergeDisarm | .invokeRunning
  | .wakeup .suspended _ | .wakeup .lock _ => True
  | .wakeup (.probe p) _ => m.finds p ∨ m.items ≠ []
  | .wakeup .tail _ => m.items ≠ []
  | _ => False

theorem Loc.Attends.mono {m m' : Mem Q} (hfinds : ∀ p, m.finds p → m'.finds p)
    (hitems : m.items ≠ [] → m'.items ≠ []) (l : Loc Q) (h : l.Attends m) : l.Attends m' := by
  unfold Loc.Attends at h ⊢
  split
  all_goals try trivial
  all_goals simp_all
  all_goals tauto

theorem finds_xref {m : Mem Q} {n : ℕ} (h : n = 0 ↔ m.doXrefCnt = 0) :
    { m with doXrefCnt := n }.finds = m.finds := by
  funext p
  cases p <;> simp [Mem.finds, h, Mem.cancels, Mem.delivers, Mem.rearms]

theorem finds_disarmed {m : Mem Q} (p : Probe) (h : m.finds p) :
    { m with dsIsArmed := false }.finds p := by
  cases p <;> simp only [Mem.finds, Mem.cancels, Mem.delivers, Mem.rearms] at h ⊢
  case isArmed => rfl
  case dkev | cancelHandler => exact h
  all_goals
    cases hneeds : m.dsNeedsRearm <;> simp only [hneeds, Bool.not_false, Bool.false_and,
      Bool.true_and, Bool.and_true, Bool.or_true] at h ⊢
    all_goals first | exact h | (split <;> simp_all)

theorem stalled_xref {m : Mem Q} {n : ℕ} (h : n = 0 ↔ m.doXrefCnt = 0)
    (hm : { m with doXrefCnt := n }.Stalled) :
    m.Stalled ∧ ∀ l : Loc Q, l.Attends m → l.Attends { m with doXrefCnt := n } := by
  refine ⟨⟨hm.1, ?_⟩, .mono (fun p ↦ (congrFun (finds_xref h) p).ge) id⟩
  have hwork := hm.2
  unfold Mem.Work at hwork ⊢
  rwa [finds_xref h] at hwork

section Steps

variable [DecidableEq Q] {set : Setting T Q} {t : T} {m m' : Mem Q} {l l' : Loc Q}

/-- A step that leaves the source with something to do makes its thread attend to it, or
there was something to do before and the step takes no attention away. -/
theorem Trans.attends (h : Trans set t m l m' l') (hm' : m'.Stalled)
    (hshare : l.lock + 2 * l.suspends + m.linked.length + 2 * (m.suspensions + m.timers) ≤
      m.doSuspendCnt) (hidle : m.doSuspendCnt = 0 → m.dqRunning = 0)
    (hdisarm : l = .nextFireDisarm → m.dsNeedsRearm → m.doSuspendCnt ≠ 0) :
    l'.Attends m' ∨ (m.Stalled ∧ ¬ l.Attends m ∧ ∀ l : Loc Q, l.Attends m → l.Attends m') := by
  obtain ⟨hcnt, hwork⟩ := hm'
  cases h
  case fire | exchange | pushRetain | pushHead | probeTrue | wakeupTail | releaseXrefLast |
      xrefSuspended | cancelFlag | mergePending | mergeRearm | mergeDone | mergeDisarm |
      invokeSubLock | invokeRunning => exact .inl trivial
  case wakeup => exact .inl hwork
  case resume | timerResume =>
    have hlast : m.doSuspendCnt = 2 := by
      simp only [Loc.lock, Loc.suspends] at hshare
      dsimp only at hcnt
      omega
    rw [show resumeLoc m _ = .wakeup .suspended _ from if_pos hlast]
    exact .inl trivial
  case probe p p' k hp =>
    by_cases hl : m.finds p ∨ m.items ≠ []
    · rw [← finds_next hp] at hl
      exact .inl hl
    · exact .inr ⟨⟨hcnt, hwork⟩, hl, fun _ ↦ id⟩
  case probeFalse hp =>
    by_cases hitems : m.items = []
    · refine .inr ⟨⟨hcnt, hwork⟩, ?_, fun _ ↦ id⟩
      simp [Loc.Attends, finds_last hp, hitems]
    · exact .inl hitems
  case wakeupEmpty hitems => exact .inr ⟨⟨hcnt, hwork⟩, fun hne ↦ hne hitems, fun _ ↦ id⟩
  case retain hpos | setTimer hpos =>
    obtain ⟨hm, hkeep⟩ := stalled_xref (m := m) (n := m.doXrefCnt + 1) (by omega) ⟨hcnt, hwork⟩
    exact .inr ⟨hm, id, hkeep⟩
  case releaseXref hpos =>
    obtain ⟨hm, hkeep⟩ := stalled_xref (m := m) (n := m.doXrefCnt - 1) (by omega) ⟨hcnt, hwork⟩
    exact .inr ⟨hm, id, hkeep⟩
  case exchangeBehind hne => exact .inr ⟨⟨hcnt, .inr hne⟩, id, .mono (fun _ ↦ id) (by simp)⟩
  case nextFireDisarm =>
    have hneeds : m.dsNeedsRearm = false := by
      by_contra hneeds
      exact hdisarm rfl (Bool.eq_true_of_not_eq_false hneeds) hcnt
    refine .inr ⟨⟨hcnt, ?_⟩, id, .mono finds_disarmed id⟩
    simpa [Mem.Work, Mem.finds, Mem.delivers, Mem.rearms, Mem.cancels, hneeds] using hwork
  case held h =>
    rw [h.counts.2.1] at hcnt
    simp only [Loc.lock, Loc.suspends] at hshare
    omega
  case invoke hmem _ =>
    have hpos := List.length_pos_of_mem hmem
    simp only [Loc.lock, Loc.suspends] at hshare hcnt
    omega
  case invokeRunningBusy hrun => exact (hrun (hidle hcnt)).elim
  case suspend | wakeupSuspended | wakeupLock | wakeupMissed | wakeupRetain | wakeupTarget |
      wakeupPush | releaseSuspended | setTimer2 | setTimerSuspend | setTimerPush | timerDkev |
      timerNull | timerInstalled | timerReturn | timerInsert | timerFound | timerArm |
      invokeTarget | invokeSuspended | invokeLock | invokeStop | invokeLockMissed | releaseRef |
      releaseRefLast | releaseRefCrash | unlock | unlockTo | invokePush | invokeSubLockBusy =>
    simp only [Loc.lock, Loc.suspends] at hshare hcnt
    omega
  all_goals exact .inr ⟨⟨hcnt, hwork⟩, id, .mono (fun _ ↦ id) id⟩

/-- The queue to whose list the thread is going to put the source. -/
def Loc.pushes : Loc Q → Option Q
  | .wakeup (.push tq) _ | .invokePush tq => some tq
  | .held _ (.unlock tq) => tq
  | _ => none

omit [DecidableEq Q] in
theorem Loc.lock_of_pushes {q : Q} (h : l.pushes = some q) : l.lock = 1 := by
  unfold Loc.pushes at h
  split at h
  · rfl
  · rfl
  · rfl
  · cases h

omit [DecidableEq Q] in
theorem pushes_afterLoc (k : After) : (k.loc : Loc Q).pushes = none := by
  cases k <;> rfl

omit [DecidableEq Q] in
theorem HeldTrans.pushes {f f' : Frame Q} {p p' : Held Q} (h : HeldTrans set m f p m' f' p')
    {q : Q} (hq : (Loc.held f' p').pushes = some q) : q = m'.doTargetq ∨ q = set.mgrQ := by
  cases h
  case reload | releaseTarget | toCallout | toLatch => exact .inl (Option.some.inj hq).symm
  case toInstall | toRelease | toRearm | latchRearm => exact .inr (Option.some.inj hq).symm
  case drainItem => split at hq <;> cases hq
  case outSuspended dc _ | outRunning dc _ | outTarget dc _ =>
    rcases drainOut_cases f dc with ho | ho <;> rw [ho] at hq <;> cases hq
  all_goals cases hq

theorem Trans.pushes (h : Trans set t m l m' l') {q : Q} (hq : l'.pushes = some q) :
    l.pushes = some q ∨ q = m'.doTargetq ∨ q = set.mgrQ := by
  cases h
  case held h => exact .inr (h.pushes hq)
  case unlockTo => exact .inl hq
  case wakeupTarget => exact .inr (.inl (Option.some.inj hq).symm)
  case resume | timerResume =>
    rcases resumeLoc_eq m _ with h | h | h <;> rw [h] at hq <;> cases hq
  case wakeupSuspended k _ | wakeupEmpty k _ | wakeupMissed k _ | wakeupPush k =>
    cases (pushes_afterLoc k).symm.trans hq
  all_goals cases hq

theorem Trans.mem_linked (h : Trans set t m l m' l') {q : Q} (hq : q ∈ m'.linked) :
    q ∈ m.linked ∨ l.pushes = some q := by
  cases h
  case wakeupPush | invokePush =>
    rcases List.mem_cons.mp hq with rfl | hq
    · exact .inr rfl
    · exact .inl hq
  case invoke => exact .inl (List.mem_of_mem_erase hq)
  case held h => exact .inl (h.counts.2.2.1 ▸ hq)
  all_goals exact .inl hq

theorem Trans.doTargetq_eq (h : Trans set t m l m' l') : m'.doTargetq = m.doTargetq ∨
    (l.lock = 1 ∧ m'.linked = m.linked ∧ l'.pushes = none) := by
  cases h
  case held f f' p p' h =>
    cases h
    case drainItem dc =>
      refine .inr ⟨rfl, by cases dc <;> rfl, ?_⟩
      split <;> rfl
    all_goals exact .inl rfl
  all_goals exact .inl rfl

end Steps

/-! ## Over whole runs -/

section Runs

variable [DecidableEq T] [DecidableEq Q] [Fintype T] {set : Setting T Q} {tq : Q}
  {mask : BitVec 64} {needsRearm : Bool} {s : Pool T (Mem Q) (Loc Q)}
  {C : Pool T (Mem Q) (Loc Q) → T → Act Q → Prop}

omit [DecidableEq T] [DecidableEq Q] in
theorem Accounts.running_eq_zero {m : Mem Q} {loc : T → Loc Q} (h : Accounts m loc)
    (hcnt : m.doSuspendCnt = 0) : m.dqRunning = 0 := by
  have hlock := h.lock_eq_zero hcnt
  have hle : ∑ u, (loc u).bit ≤ ∑ u, (loc u).lock := Finset.sum_le_sum fun u _ ↦ by
    cases loc u <;> simp [Loc.bit, Loc.lock_nonneg]
    rfl
  have hrun := h.running
  omega

/-- The source is suspended or locked when `_dispatch_get_next_timer_fire` clears its
`ds_is_armed`, or it is not one that is armed again. -/
def DisarmsInTime (s : Pool T (Mem Q) (Loc Q)) (t : T) (_ : Act Q) : Prop :=
  s.loc t = .nextFireDisarm → s.mem.dsNeedsRearm → s.mem.doSuspendCnt ≠ 0

instance (s : Pool T (Mem Q) (Loc Q)) (t : T) (a : Act Q) : Decidable (DisarmsInTime s t a) :=
  inferInstanceAs (Decidable (_ → _ → _))

/-- While a source that is neither suspended nor locked has something to do, a thread is
there to wake it up. -/
theorem attends_of_run (h : Pool.Runs (step set) DisarmsInTime (created tq mask needsRearm) s)
    (hs : s.mem.Stalled) : ∃ t, (s.loc t).Attends s.mem := by
  refine h.exists_attends (N := Mem.Stalled) (R := fun m l ↦ Loc.Attends m l) ?_ ?_ hs
  · exact fun h₀ ↦ absurd h₀.1 (by simp [created, Queue.suspendInterval])
  · intro s t a m l hr hC hP hm
    have hacc := accounts_of_run hr
    exact (trans_of_step hP).attends hm (hacc.share_le_suspend t) hacc.running_eq_zero hC

omit [DecidableEq T] [DecidableEq Q] in
theorem Accounts.lock_of_ne {m : Mem Q} {loc : T → Loc Q} (h : Accounts m loc) {t : T}
    (ht : (loc t).lock = 1) : m.linked = [] ∧ ∀ u ≠ t, (loc u).lock = 0 := by
  classical
  have hnonneg : ∀ u, 0 ≤ (loc u).lock := fun u ↦ (loc u).lock_nonneg
  have hpair := Finset.add_sum_erase Finset.univ (fun v ↦ (loc v).lock) (Finset.mem_univ t)
  have hrest : 0 ≤ ∑ v ∈ Finset.univ.erase t, (loc v).lock := Finset.sum_nonneg fun v _ ↦ hnonneg v
  have hone := h.lock_le
  refine ⟨List.length_eq_zero_iff.mp (by omega), fun u hu ↦ ?_⟩
  have hle := Finset.single_le_sum (f := fun v ↦ (loc v).lock) (fun v _ ↦ hnonneg v)
    (Finset.mem_erase.mpr ⟨hu, Finset.mem_univ u⟩)
  have hpos := hnonneg u
  omega

theorem linked_of_run (h : Pool.Runs (step set) C (created tq mask needsRearm) s) :
    ∀ q, q ∈ s.mem.linked ∨ (∃ t, (s.loc t).pushes = some q) →
      q = s.mem.doTargetq ∨ q = set.mgrQ := by
  refine h.invariant (I := fun s ↦ ∀ q, q ∈ s.mem.linked ∨ (∃ t, (s.loc t).pushes = some q) →
    q = s.mem.doTargetq ∨ q = set.mgrQ) (by simp [created, Loc.pushes]) ?_
  intro s t a m l hr hI _ hP q hq
  have htrans := trans_of_step hP
  dsimp only at hq ⊢
  rcases htrans.doTargetq_eq with heq | ⟨hone, hsame, hnone⟩
  · rw [heq]
    rcases hq with hq | ⟨u, hu⟩
    · rcases htrans.mem_linked hq with hq | ht
      · exact hI q (.inl hq)
      · exact hI q (.inr ⟨t, ht⟩)
    · rcases eq_or_ne u t with rfl | hut
      · rw [Function.update_self] at hu
        rcases htrans.pushes hu with ht | hfresh
        · exact hI q (.inr ⟨u, ht⟩)
        · rwa [heq] at hfresh
      · rw [Function.update_of_ne hut] at hu
        exact hI q (.inr ⟨u, hu⟩)
  · obtain ⟨hempty, hothers⟩ := (accounts_of_run hr).lock_of_ne hone
    rcases hq with hq | ⟨u, hu⟩
    · rw [hsame, hempty] at hq
      cases hq
    · obtain ⟨hut, hu⟩ := eq_some_of_update hnone hu
      cases (Loc.lock_of_pushes hu).symm.trans (hothers u hut)

def AtRest (s : Pool T (Mem Q) (Loc Q)) : Prop := ∀ t, s.loc t = .idle

theorem linked_of_atRest (h : Pool.Runs (step set) DisarmsInTime (created tq mask needsRearm) s)
    (hrest : AtRest s) (hwork : s.mem.Work) (hcnt : s.mem.doSuspendCnt < 2) :
    s.mem.doSuspendCnt = 1 ∧
      (s.mem.linked = [s.mem.doTargetq] ∨ s.mem.linked = [set.mgrQ]) ∧
      s.mem.doRefCnt = s.mem.ownRefs + 1 := by
  have hacc := accounts_of_run h
  have hidle : ∀ t, s.loc t = .idle := hrest
  have hne : s.mem.doSuspendCnt ≠ 0 := by
    intro hzero
    obtain ⟨t, ht⟩ := attends_of_run h ⟨hzero, hwork⟩
    rw [hidle t] at ht
    exact ht
  have hlen : s.mem.linked.length = 1 := by
    have hsus := hacc.suspend
    simp only [hidle, Loc.lock, Loc.suspends, mul_zero, add_zero, Finset.sum_const_zero] at hsus
    omega
  obtain ⟨q, hq⟩ := List.length_eq_one_iff.mp hlen
  refine ⟨by omega, ?_, ?_⟩
  · rw [hq]
    rcases linked_of_run h q (.inl (by simp [hq])) with rfl | rfl
    · exact .inl rfl
    · exact .inr rfl
  · have hrefs := hacc.refs
    simp only [hidle, Loc.refs, Finset.sum_const_zero, hlen] at hrefs
    omega

omit [Fintype T] in
theorem dsNeedsRearm_of_run (h : Pool.Runs (step set) C (created tq mask false) s) :
    s.mem.dsNeedsRearm = false := by
  refine h.invariant (I := fun s ↦ s.mem.dsNeedsRearm = false) rfl fun s t a m l _ hI _ hP ↦ ?_
  have htrans := trans_of_step hP
  generalize s.loc t = l₀ at htrans
  cases htrans
  case held h =>
    cases h
    case drainItem dc => cases dc <;> exact hI
    case releaseRearm => rfl
    all_goals exact hI
  all_goals exact hI

/-- When `ds_is_armed` is cleared too late and nobody else is at work on the source, it has
something to do and nobody is going to wake it up. -/
theorem stuck_of_disarm (h : Pool.Runs (step set) C (created tq mask needsRearm) s) {t : T}
    (ht : s.loc t = .nextFireDisarm) (hothers : ∀ u ≠ t, s.loc u = .idle)
    (hcnt : s.mem.doSuspendCnt = 0) (hneeds : s.mem.dsNeedsRearm)
    (hcanceled : s.mem.dsCanceled = false) (hxref : s.mem.doXrefCnt ≠ 0) :
    ∃ s', s.step (step set) t .go = some s' ∧ AtRest s' ∧ s'.mem.Work ∧
      s'.mem.doSuspendCnt = 0 ∧ s'.mem.linked = [] := by
  have hstep : step set t .go s.mem (s.loc t) =
      some ({ s.mem with dsIsArmed := false }, .idle) := by
    rw [ht]
    rfl
  refine ⟨_, Pool.step_of_program hstep, fun u ↦ ?_, .inl ?_, hcnt, ?_⟩
  · rcases eq_or_ne u t with rfl | hu
    · exact Function.update_self ..
    · exact (Function.update_of_ne hu ..).trans (hothers u hu)
  · simp [Mem.finds, Mem.delivers, Mem.rearms, hneeds, hcanceled, hxref]
  · have hlock := (accounts_of_run h).lock_eq_zero hcnt
    have hnonneg : 0 ≤ ∑ u, (s.loc u).lock := Finset.sum_nonneg fun u _ ↦ (s.loc u).lock_nonneg
    have hlen : s.mem.linked.length = 0 := by omega
    exact List.length_eq_zero_iff.mp hlen

/-- The thread has set the lock bit in order to put the source on the list of its target. -/
def Loc.linking : Loc Q → Bool
  | .wakeup .retain _ | .wakeup .target _ | .wakeup (.push _) _ => true
  | _ => false

/-- The thread has taken the source off a list and is in `_dispatch_queue_invoke`, up to the
point where it clears the lock bit or puts the source on another list. -/
def Loc.invoking : Loc Q → Bool
  | .invokeTarget _ | .invokeSuspended .. | .invokeLock .. | .held .. | .invokePush _
  | .invokeSubLock => true
  | _ => false

omit [DecidableEq Q] in
theorem Loc.lock_eq (l : Loc Q) : l.lock = 1 ∧ (l.linking ∨ l.invoking) ∨
    l.lock = 0 ∧ l.linking = false ∧ l.invoking = false := by
  cases l
  case wakeup w k => cases w <;> simp [Loc.lock, Loc.linking, Loc.invoking]
  all_goals simp [Loc.lock, Loc.linking, Loc.invoking]

theorem lock_iff_of_run (h : Pool.Runs (step set) C (created tq mask needsRearm) s) :
    (s.mem.doSuspendCnt % 2 = 1 ↔
      s.mem.linked ≠ [] ∨ ∃ t, (s.loc t).linking ∨ (s.loc t).invoking) ∧
      s.mem.linked.length ≤ 1 := by
  have hacc := accounts_of_run h
  have hsus := hacc.suspend
  rw [Finset.sum_add_distrib, ← Finset.mul_sum] at hsus
  have hle := hacc.lock_le
  have hnonneg : 0 ≤ ∑ t, (s.loc t).lock := Finset.sum_nonneg fun t _ ↦ (s.loc t).lock_nonneg
  refine ⟨⟨fun hodd ↦ ?_, ?_⟩, by omega⟩
  · by_contra hnone
    push Not at hnone
    obtain ⟨hempty, hfree⟩ := hnone
    have hzero : ∑ t, (s.loc t).lock = 0 := Finset.sum_eq_zero fun t _ ↦ by
      rcases (s.loc t).lock_eq with ⟨-, hl⟩ | ⟨hl, -⟩
      · simp [hfree t] at hl
      · exact hl
    rw [hempty, hzero] at hsus
    simp only [List.length_nil] at hsus
    omega
  · rintro (hne | ⟨t, ht⟩)
    · have hpos := List.length_pos_iff.mpr hne
      omega
    · have hone : (s.loc t).lock = 1 := by
        rcases (s.loc t).lock_eq with ⟨hl, -⟩ | ⟨-, hl, hi⟩
        · exact hl
        · simp [hl, hi] at ht
      have hshare := Finset.single_le_sum (f := fun t ↦ (s.loc t).lock)
        (fun t _ ↦ (s.loc t).lock_nonneg) (Finset.mem_univ t)
      omega

end Runs

end LibDispatch.Source

/-! ## Queues and sources -/

namespace LibDispatch

open Interleaving

variable {T Q : Type*} [DecidableEq T] [DecidableEq Q] [Fintype T]

/-- At rest, a queue or source that has work and is not suspended is locked and on one list,
for which it has one reference, or it is a queue items of which have not finished, and the
last of them wakes it up.  The lock is set while the object is on a list, being put on one
or being invoked.  For a source this holds as long as the manager clears `ds_is_armed` in
time; if it does so when nobody else is at work on a source that is neither suspended nor
locked, the source has work and stays on no list. -/
theorem wakeup_not_lost (tq : Q) :
    (∀ (width : ℕ) (s : Pool T (Queue.Mem T Q) (Queue.Loc T Q)),
      Pool.Reachable (Queue.step width) (Queue.created tq) s →
        (Queue.AtRest s → s.mem.items ≠ [] → s.mem.doSuspendCnt < 2 →
          (s.mem.doSuspendCnt = 1 ∧ s.mem.linked = [s.mem.doTargetq]) ∨
            (s.mem.dqRunning ≠ 0 ∧ ((∃ t, (s.loc t).executing) ∨ 0 < s.mem.redirected) ∧
              ∀ s', Pool.Runs (Queue.step width) (fun s _ _ ↦ s.mem.dqRunning ≠ 0) s s' →
                s'.mem.dqRunning = 0 → ∃ t k, s'.loc t = .wakeup k)) ∧
        (s.mem.doSuspendCnt % 2 = 1 ↔
          s.mem.linked ≠ [] ∨ ∃ t, (s.loc t).linking ∨ (s.loc t).invoking) ∧
        s.mem.linked.length ≤ 1 ∧
        s.mem.doRefCnt = 1 + s.mem.linked.length + s.mem.redirected + ∑ t, (s.loc t).refs) ∧
    ∀ (set : Source.Setting T Q) (mask : BitVec 64) (needsRearm : Bool)
      (s : Pool T (Source.Mem Q) (Source.Loc Q)),
      Pool.Reachable (Source.step set) (Source.created tq mask needsRearm) s →
        (Pool.Runs (Source.step set) Source.DisarmsInTime (Source.created tq mask needsRearm) s →
          Source.AtRest s → s.mem.Work → s.mem.doSuspendCnt < 2 →
          s.mem.doSuspendCnt = 1 ∧
            (s.mem.linked = [s.mem.doTargetq] ∨ s.mem.linked = [set.mgrQ]) ∧
            s.mem.doRefCnt = s.mem.ownRefs + 1) ∧
        (∀ t, s.loc t = .nextFireDisarm → (∀ u ≠ t, s.loc u = .idle) →
          s.mem.doSuspendCnt = 0 → s.mem.dsNeedsRearm → s.mem.dsCanceled = false →
          s.mem.doXrefCnt ≠ 0 →
          ∃ s', s.step (Source.step set) t .go = some s' ∧ Source.AtRest s' ∧ s'.mem.Work ∧
            s'.mem.doSuspendCnt = 0 ∧ s'.mem.linked = []) ∧
        (s.mem.doSuspendCnt % 2 = 1 ↔
          s.mem.linked ≠ [] ∨ ∃ t, (s.loc t).linking ∨ (s.loc t).invoking) ∧
        s.mem.linked.length ≤ 1 := by
  refine ⟨fun width s h ↦ ⟨fun hrest hitems hcnt ↦ ?_, Queue.lock_iff_of_run h, ?_,
    Queue.refs_of_run h⟩, fun set mask needsRearm s h ↦ ⟨Source.linked_of_atRest, fun t ↦
    Source.stuck_of_disarm h, Source.lock_iff_of_run h⟩⟩
  · rcases Queue.linked_or_running_of_atRest h hrest hitems hcnt with hlinked | ⟨hrun, hwhy⟩
    · exact .inl hlinked
    · exact .inr ⟨hrun, hwhy, fun s' h' hzero ↦ Queue.wakeup_of_last hrest hrun h' hzero⟩
  · have hunique := Queue.lockUnique_of_run h
    have hnonneg : 0 ≤ ∑ t, (s.loc t).lock :=
      Finset.sum_nonneg fun t _ ↦ (s.loc t).lock_nonneg
    unfold Queue.LockUnique at hunique
    omega

def pushedQueue : Pool (Fin 2) (Queue.Mem (Fin 2) (Fin 2)) (Queue.Loc (Fin 2) (Fin 2)) :=
  ((Queue.created 0).run (Queue.step 8) (fun _ _ _ ↦ True)
    ([(0, .async true)] ++ Queue.steps 0 10)).get (by decide)

def resumedSource : Pool (Fin 2) (Source.Mem (Fin 2)) (Source.Loc (Fin 2)) :=
  ((Source.created 0 0 true).run (Source.step ⟨1, 1, false, true⟩) Source.DisarmsInTime
    ([(0, .resume)] ++ Source.steps 0 6)).get (by decide)

theorem wakeup_not_lost_pushed :
    (pushedQueue.mem.linked = [pushedQueue.mem.doTargetq] ∨ pushedQueue.mem.dqRunning ≠ 0) ∧
      resumedSource.mem.doSuspendCnt = 1 ∧
      resumedSource.mem.doRefCnt = resumedSource.mem.ownRefs + 1 := by
  have hqueue : Pool.Reachable (Queue.step 8) (Queue.created 0) pushedQueue := Pool.runs_get _
  have hsource : Pool.Runs (Source.step ⟨1, 1, false, true⟩) Source.DisarmsInTime
      (Source.created 0 0 true) resumedSource := Pool.runs_get _
  have hboth := wakeup_not_lost (T := Fin 2) (0 : Fin 2)
  constructor
  · have hrest : ∀ t, (pushedQueue.loc t).atRest (pushedQueue.mem.sema t) = true := by decide
    rcases (hboth.1 8 _ hqueue).1 hrest (by decide) (by decide) with h | h
    · exact .inl h.2
    · exact .inr h.1
  · have hrest : ∀ t, resumedSource.loc t = .idle := by decide
    obtain ⟨hcnt, -, hrefs⟩ :=
      (hboth.2 _ _ _ _ hsource.reachable).1 hsource hrest (.inl (by decide)) (by decide)
    exact ⟨hcnt, hrefs⟩

/-- Thread 0 pushes an item and a barrier; worker 1 redirects the item and stops at the
barrier. -/
def redirectedTrace : List (Fin 2 × Queue.Act (Fin 1)) :=
  [(0, Queue.Act.async false)] ++ Queue.steps 0 10 ++ [(0, Queue.Act.async true)] ++
    Queue.steps 0 2 ++ [(1, Queue.Act.invoke 0)] ++ Queue.steps 1 26

/-- Thread 0 has resumed a timer, and the manager, thread 1, has installed and armed it.  It is
suspended, the manager finds it suspended, it is resumed, and the manager clears
`ds_is_armed`. -/
def disarmedTrace : List (Fin 2 × Source.Act (Fin 2)) :=
  [(0, Source.Act.resume)] ++ Source.steps 0 6 ++ [(0, Source.Act.invoke 0)] ++
    Source.steps 0 9 ++ [(1, Source.Act.invoke 1)] ++ Source.steps 1 22 ++
    [(0, Source.Act.suspend), (1, Source.Act.nextFire)] ++ Source.steps 1 1 ++
    [(0, Source.Act.resume)] ++ Source.steps 0 8 ++ Source.steps 1 1

/-- The source is at rest, has to be armed and is neither suspended nor locked nor on a list.
The queue is at rest with an item, on no list, and no item of it is executing: the item
that has been redirected waits on the list of another queue.  In the last state the lock is
set and the queue is neither on a list nor being invoked. -/
theorem not_linked_and_not_executing :
    (∃ s : Pool (Fin 2) (Source.Mem (Fin 2)) (Source.Loc (Fin 2)),
      Pool.Reachable (Source.step ⟨1, 1, false, true⟩) (Source.created 0 0 true) s ∧
        (∀ t, s.loc t = .idle) ∧ s.mem.finds .isInstalled ∧ s.mem.doSuspendCnt = 0 ∧
        s.mem.linked = [] ∧ s.mem.dqRunning = 0) ∧
    (∃ s : Pool (Fin 2) (Queue.Mem (Fin 2) (Fin 1)) (Queue.Loc (Fin 2) (Fin 1)),
      Pool.Reachable (Queue.step 8) (Queue.created 0) s ∧ (∀ t, s.loc t = .idle) ∧
        s.mem.items ≠ [] ∧ s.mem.doSuspendCnt = 0 ∧ s.mem.linked = [] ∧
        ∀ t, (s.loc t).executing = false) ∧
    ∃ s : Pool (Fin 2) (Queue.Mem (Fin 2) (Fin 1)) (Queue.Loc (Fin 2) (Fin 1)),
      Pool.Reachable (Queue.step 8) (Queue.created 0) s ∧ s.mem.doSuspendCnt % 2 = 1 ∧
        s.mem.linked = [] ∧ ∀ t, (s.loc t).invoking = false :=
  ⟨⟨((Source.created 0 0 true).run (Source.step ⟨1, 1, false, true⟩) (fun _ _ _ ↦ True)
      disarmedTrace).get (by decide),
      Pool.runs_get _, by decide, by decide, by decide, by decide, by decide⟩,
    ⟨((Queue.created 0).run (Queue.step 8) (fun _ _ _ ↦ True) redirectedTrace).get (by decide),
      Pool.runs_get _, by decide, by decide, by decide, by decide, by decide⟩,
    ((Queue.created 0).run (Queue.step 8) (fun _ _ _ ↦ True)
      ([(0, .async true)] ++ Queue.steps 0 6)).get (by decide),
    Pool.runs_get _, by decide, by decide, by decide⟩

end LibDispatch
