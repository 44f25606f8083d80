import LibDispatch.Source.Accounting

/-!
# The cancellation of a source

A source that has been cancelled is unregistered on the manager queue, and after that its
cancellation handler is called on its target queue.
-/

namespace LibDispatch.Source

open Interleaving

variable {T Q : Type*}

/-! ## What the thread that has `dq_running` knows -/

/-- What a thread that has `dq_running` knows by the place where it stands. -/
def Held.Knows (set : Setting T Q) (m : Mem Q) (f : Frame Q) : Held Q → Prop
  | .merge _ => m.dsDkev
  | .flags | .xref | .dkev => m.dsIsInstalled
  | .releaseDkev => m.dsIsInstalled ∧ f.current = set.mgrQ
  | .cancelHandler => m.dsDkev = false
  | .calloutMask | .calloutPending | .calloutData | .calloutHandler =>
      m.dsDkev = false ∧ (m.dsCancelHandler.isSome → f.current = m.doTargetq)
  | .calloutFlags handler =>
      m.dsDkev = false ∧ f.current = m.doTargetq ∧ m.dsCancelHandler = some handler
  | .calloutRun handler =>
      m.dsDkev = false ∧ f.current = m.doTargetq ∧ m.dsCancelHandler = some handler ∧ m.dsCanceled
  | .latchXref | .latchXchg | .latchData _ | .latchRun => m.cancelCalls = []
  | _ => True

/-- The registration and the calls of the cancellation handlers, while the thread that has
`dq_running` stands at `p`. -/
structure Protocol (m : Mem Q) (p : Option (Held Q)) : Prop where
  installed : m.dsDkev = false → m.dsIsInstalled
  sources : m.dkSources → m.dsDkev ∨ p = some .releaseRemove
  calls_nodup : m.cancelCalls.Nodup
  lt_of_call : ∀ n ∈ m.cancelCalls, n < m.installs
  lt_of_handler : ∀ n, m.dsCancelHandler = some n → n < m.installs
  fresh : ∀ n, m.dsCancelHandler = some n → n ∈ m.cancelCalls →
    p = some (.calloutRun n) ∨ p = some .calloutClear
  canceled : m.cancelCalls ≠ [] → m.dsCanceled

theorem Protocol.of_none {m : Mem Q} {p : Option (Held Q)} (h : Protocol m none) :
    Protocol m p where
  installed := h.installed
  sources hd := .inl ((h.sources hd).resolve_right nofun)
  calls_nodup := h.calls_nodup
  lt_of_call := h.lt_of_call
  lt_of_handler := h.lt_of_handler
  fresh n hn hmem := by rcases h.fresh n hn hmem with h | h <;> cases h
  canceled := h.canceled

section HeldSteps

variable {set : Setting T Q} {m m' : Mem Q} {f f' : Frame Q} {p p' : Held Q}

theorem HeldTrans.current_eq (h : HeldTrans set m f p m' f' p') : f'.current = f.current := by
  cases h <;> rfl

theorem HeldTrans.installed (h : HeldTrans set m f p m' f' p') (hp : Protocol m (some p))
    (hk : p.Knows set m f) (hd : m'.dsDkev = false) : m'.dsIsInstalled := by
  cases h
  case releaseDkev => exact hk.1
  case mergeInstalled => rfl
  case drainItem dc => cases dc <;> exact hp.installed hd
  all_goals exact hp.installed hd

theorem HeldTrans.sources (h : HeldTrans set m f p m' f' p') (hp : Protocol m (some p))
    (hk : p.Knows set m f) (hd : m'.dkSources) : m'.dsDkev ∨ some p' = some .releaseRemove := by
  cases h
  case releaseDkev => exact .inr rfl
  case releaseRemove => cases hd
  case mergeInsert | mergeFound => exact .inl hk
  case drainItem dc => cases dc <;> exact .inl ((hp.sources hd).resolve_right nofun)
  all_goals exact .inl ((hp.sources hd).resolve_right nofun)

theorem Protocol.notMem_calls (hp : Protocol m (some p)) (hrun : ∀ n, p ≠ .calloutRun n)
    (hclear : p ≠ .calloutClear) {n : ℕ} (hn : m.dsCancelHandler = some n) :
    n ∉ m.cancelCalls := by
  intro hmem
  rcases hp.fresh n hn hmem with heq | heq
  · exact hrun n (Option.some.inj heq)
  · exact hclear (Option.some.inj heq)

theorem Protocol.frame {p' : Option (Held Q)} (hp : Protocol m (some p))
    (hi : m'.dsDkev = false → m'.dsIsInstalled)
    (hs : m'.dkSources → m'.dsDkev ∨ p' = some .releaseRemove)
    (hcalls : m'.cancelCalls = m.cancelCalls) (hinstalls : m'.installs = m.installs)
    (hhandler : m'.dsCancelHandler = m.dsCancelHandler) (hcanceled : m'.dsCanceled = m.dsCanceled)
    (hrun : ∀ n, p ≠ .calloutRun n) (hclear : p ≠ .calloutClear) : Protocol m' p' where
  installed := hi
  sources := hs
  calls_nodup := by rw [hcalls]; exact hp.calls_nodup
  lt_of_call := by rw [hcalls, hinstalls]; exact hp.lt_of_call
  lt_of_handler := by rw [hhandler, hinstalls]; exact hp.lt_of_handler
  fresh n hn hmem := by
    rw [hhandler] at hn
    rw [hcalls] at hmem
    exact (hp.notMem_calls hrun hclear hn hmem).elim
  canceled := by rw [hcalls, hcanceled]; exact hp.canceled

theorem HeldTrans.protocol (h : HeldTrans set m f p m' f' p') (hp : Protocol m (some p))
    (hk : p.Knows set m f) : Protocol m' (some p') := by
  have hi := h.installed hp hk
  have hs := h.sources hp hk
  cases h
  case calloutFlags handler hcanceled =>
    obtain ⟨-, -, hhandler⟩ := hk
    refine ⟨hi, hs, ?_, ?_, hp.lt_of_handler, ?_, fun _ ↦ hcanceled⟩
    · exact List.nodup_cons.mpr ⟨hp.notMem_calls nofun nofun hhandler, hp.calls_nodup⟩
    · intro n hn
      rcases List.mem_cons.mp hn with rfl | hn
      · exact hp.lt_of_handler n hhandler
      · exact hp.lt_of_call n hn
    · intro n hn _
      obtain rfl : handler = n := Option.some.inj (hhandler.symm.trans hn)
      exact .inl rfl
  case calloutRun handler =>
    exact ⟨hi, hs, hp.calls_nodup, hp.lt_of_call, hp.lt_of_handler, fun _ _ _ ↦ .inr rfl,
      hp.canceled⟩
  case calloutClear =>
    exact ⟨hi, hs, hp.calls_nodup, hp.lt_of_call, nofun, nofun, hp.canceled⟩
  case drainItem dc =>
    cases dc with
    | setEventHandler | setTargetQueue => exact hp.frame hi hs rfl rfl rfl rfl nofun nofun
    | setCancelHandler func =>
        have hnew : ∀ n, (if func then some m.installs else none) = some n → n = m.installs :=
          fun n hn ↦ by cases func <;> simp_all
        refine ⟨hi, hs, hp.calls_nodup, ?_, ?_, ?_, hp.canceled⟩
        · exact fun n hn ↦ (hp.lt_of_call n hn).trans (Nat.lt_succ_self _)
        · intro n hn
          rw [hnew n hn]
          exact Nat.lt_succ_self _
        · intro n hn hmem
          exact absurd (hp.lt_of_call n hmem) (by rw [hnew n hn]; exact lt_irrefl _)
  all_goals exact hp.frame hi hs rfl rfl rfl rfl nofun nofun

theorem HeldTrans.knows (h : HeldTrans set m f p m' f' p') (hp : Protocol m (some p))
    (hk : p.Knows set m f) : p'.Knows set m' f' := by
  cases h
  case install hi _ =>
    cases hd : m.dsDkev with
    | true => exact hd
    | false => exact absurd (hp.installed hd) (by simp [hi])
  case calloutFlags hcanceled => exact ⟨hk.1, hk.2.1, hk.2.2, hcanceled⟩
  case latchFlags hcanceled =>
    by_contra hcalls
    exact absurd (hp.canceled hcalls) (by simp [hcanceled])
  case outSuspended dc _ | outRunning dc _ | outTarget dc _ =>
    rcases drainOut_cases f dc with ho | ho <;> rw [ho] <;> trivial
  case drainItem => split <;> trivial
  case calloutHandler hh => exact ⟨hk.1, hk.2 (by rw [hh]; rfl), hh⟩
  case dkevNull hd => exact hd
  case dkev _ hmgr => exact ⟨hk, hmgr⟩
  case cancelHandler hmoved => exact ⟨hk, hmoved⟩
  case isInstalled hi => exact hi
  all_goals first | exact hk | trivial

end HeldSteps

/-! ## What the other threads can do -/

/-- The manager queue is drained by the manager's thread, and it alone sets timers. -/
def Loc.OnMgr (set : Setting T Q) (t : T) : Loc Q → Prop
  | .invokeTarget current | .invokeSuspended current _ | .invokeLock current _ =>
      current = set.mgrQ → t = set.mgr
  | .held f _ => f.current = set.mgrQ → t = set.mgr
  | .timerDkev | .timerMerge _ | .timerResume => t = set.mgr
  | _ => True

section Others

variable [DecidableEq Q] {set : Setting T Q} {t : T} {m m' : Mem Q} {l l' : Loc Q} {f : Frame Q}

omit [DecidableEq Q] in
theorem onMgr_afterLoc (set : Setting T Q) (t : T) (k : After) :
    (k.loc : Loc Q).OnMgr set t := by
  cases k <;> trivial

omit [DecidableEq Q] in
theorem onMgr_resumeLoc (set : Setting T Q) (t : T) (m : Mem Q) (k : After) :
    (resumeLoc m k).OnMgr set t := by
  rcases resumeLoc_eq m k with h | h | h <;> rw [h]
  · trivial
  · trivial
  · exact onMgr_afterLoc set t k

theorem Trans.onMgr (h : Trans set t m l m' l') (hl : l.OnMgr set t) : l'.OnMgr set t := by
  cases h
  case setTimer2 hmgr _ => exact hmgr
  case invoke hmgr => exact hmgr
  case held h => exact fun hcur ↦ hl (h.current_eq ▸ hcur)
  case resume | timerResume => exact onMgr_resumeLoc set t m _
  case wakeupSuspended | wakeupEmpty | wakeupMissed | wakeupPush => exact onMgr_afterLoc set t _
  all_goals first | exact hl | trivial

/-- A source is put on a list by the thread that has `dq_running`, or by one that sets its
timer. -/
theorem Trans.dkSources_of (h : Trans set t m l m' l') (hl : l.bit = 0) (hd : m'.dkSources) :
    m.dkSources ∨ ∃ p, l = .timerMerge p := by
  cases h
  case held => cases hl
  case timerInsert | timerFound => exact .inr ⟨_, rfl⟩
  all_goals exact .inl hd

theorem Trans.protocol (h : Trans set t m l m' l') (hl : l.bit = 0) {p : Option (Held Q)}
    (hp : Protocol m p) (htimer : ∀ q, l = .timerMerge q → m.dsDkev) : Protocol m' p := by
  obtain ⟨hdkev, -, hhandler, hcalls, hinstalls, hcanceled, hinstalled⟩ := h.others hl
  constructor
  · exact fun hd ↦ hinstalled (hp.installed (hdkev ▸ hd))
  · intro hd
    rw [hdkev]
    rcases h.dkSources_of hl hd with hd | ⟨q, hq⟩
    · exact hp.sources hd
    · exact .inl (htimer q hq)
  · rw [hcalls]
    exact hp.calls_nodup
  · rw [hcalls, hinstalls]
    exact hp.lt_of_call
  · rw [hhandler, hinstalls]
    exact hp.lt_of_handler
  · rw [hhandler, hcalls]
    exact hp.fresh
  · rw [hcalls]
    exact fun hne ↦ hcanceled (hp.canceled hne)

theorem Trans.knows (h : Trans set t m l m' l') (hl : l.bit = 0) {p : Held Q}
    (hk : p.Knows set m f) : p.Knows set m' f := by
  obtain ⟨hdkev, htarget, hhandler, hcalls, -, hcanceled, hinstalled⟩ := h.others hl
  cases p
  all_goals simp only [Held.Knows, hdkev, htarget, hhandler, hcalls] at hk ⊢
  case flags | xref | dkev => exact hinstalled hk
  case releaseDkev => exact ⟨hinstalled hk.1, hk.2⟩
  case calloutRun => exact ⟨hk.1, hk.2.1, hk.2.2.1, hcanceled hk.2.2.2⟩
  all_goals exact hk

theorem Trans.timerMerge_of (h : Trans set t m l m' l') {q : Merge} (hl' : l' = .timerMerge q) :
    m.dsDkev ∨ ∃ q', l = .timerMerge q' := by
  cases h
  case timerDkev hd => exact .inl hd
  case timerInstalled | timerInsert => exact .inr ⟨_, rfl⟩
  case resume | timerResume =>
    rcases resumeLoc_eq m _ with h | h | h <;> cases h.symm.trans hl'
  case wakeupSuspended k _ | wakeupEmpty k _ | wakeupMissed k _ | wakeupPush k =>
    cases k <;> cases hl'
  all_goals cases hl'

theorem Trans.held_of_free (h : Trans set t m l m' l') (hl : l.bit = 0) {p : Held Q}
    (hl' : l' = .held f p) : p = .drainOrig ∧ m.dqRunning = 0 := by
  cases h
  case invokeLock hfree =>
    cases hl'
    exact ⟨rfl, hfree⟩
  case held | releaseRef | releaseRefLast => cases hl
  case resume | timerResume =>
    rcases resumeLoc_eq m _ with h | h | h <;> cases h.symm.trans hl'
  case wakeupSuspended k _ | wakeupEmpty k _ | wakeupMissed k _ | wakeupPush k =>
    cases k <;> cases hl'
  all_goals cases hl'

end Others

/-! ## The protocol over whole runs -/

/-- The protocol, whoever has `dq_running`. -/
structure Ordered (set : Setting T Q) (m : Mem Q) (loc : T → Loc Q) : Prop where
  held : ∀ t f p, loc t = .held f p → Protocol m (some p) ∧ p.Knows set m f
  free : m.dqRunning = 0 → Protocol m none
  timer : ∀ t p, loc t = .timerMerge p → m.dsDkev

section Runs

variable [DecidableEq T] [DecidableEq Q] [Fintype T] {set : Setting T Q} {t : T} {m m' : Mem Q}
  {loc : T → Loc Q} {l' : Loc Q}

omit [DecidableEq T] [DecidableEq Q] [Fintype T] in
theorem HeldTrans.dsDkev_eq {f f' : Frame Q} {p p' : Held Q} (h : HeldTrans set m f p m' f' p')
    (hp : p ≠ .releaseDkev) : m'.dsDkev = m.dsDkev := by
  cases h
  case releaseDkev => exact (hp rfl).elim
  case drainItem dc => cases dc <;> rfl
  all_goals rfl

theorem Trans.ordered_held {f : Frame Q} {p : Held Q} (h : Trans set t m (.held f p) m' l')
    (ht : loc t = .held f p) (hacc : Accounts m loc) (hmgr : ∀ u, (loc u).OnMgr set u)
    (ho : Ordered set m loc) : Ordered set m' (Function.update loc t l') := by
  obtain ⟨hp, hk⟩ := ho.held t f p ht
  have hrun := hacc.running_of_held ht
  have hsources : p ≠ .releaseRemove → m.dkSources → m.dsDkev := fun hne hd ↦
    (hp.sources hd).resolve_right fun heq ↦ hne (Option.some.inj heq)
  constructor
  · intro u g q hu
    rcases eq_or_ne u t with rfl | hut
    · rw [Function.update_self] at hu
      cases h
      case held h =>
        cases hu
        exact ⟨h.protocol hp hk, h.knows hp hk⟩
      case releaseRef | releaseRefLast =>
        cases hu
        exact ⟨hp.frame hp.installed (fun hd ↦ .inl (hsources nofun hd)) rfl rfl rfl rfl nofun
          nofun, trivial⟩
      all_goals cases hu
    · rw [Function.update_of_ne hut] at hu
      exact (hacc.ne_held ht hut hu).elim
  · intro hzero
    cases h
    case held h => exact absurd hzero (by rw [h.counts.1, hrun]; exact one_ne_zero)
    case releaseRef | releaseRefLast | releaseRefCrash =>
      exact absurd hzero (by rw [hrun]; exact one_ne_zero)
    case unlock | unlockTo =>
      exact hp.frame hp.installed (fun hd ↦ .inl (hsources nofun hd)) rfl rfl rfl rfl nofun nofun
  · intro u q hu
    rcases eq_or_ne u t with rfl | hut
    · rw [Function.update_self] at hu
      cases h <;> cases hu
    · rw [Function.update_of_ne hut] at hu
      have hd := ho.timer u q hu
      cases h
      case held h =>
        rcases eq_or_ne p .releaseDkev with rfl | hne
        · -- both threads would be the manager's
          have hmgrt := hmgr t
          have hmgru := hmgr u
          rw [ht] at hmgrt
          rw [hu] at hmgru
          exact (hut (hmgru.trans (hmgrt hk.2).symm)).elim
        · rw [h.dsDkev_eq hne]
          exact hd
      all_goals exact hd

theorem Trans.ordered_free (h : Trans set t m (loc t) m' l') (hl : (loc t).bit = 0)
    (hacc : Accounts m loc) (ho : Ordered set m loc) :
    Ordered set m' (Function.update loc t l') := by
  have hdkev := (h.others hl).1
  constructor
  · intro u g q hu
    rcases eq_or_ne u t with rfl | hut
    · obtain ⟨rfl, hzero⟩ := h.held_of_free hl (by simpa using hu)
      exact ⟨(h.protocol hl (ho.free hzero) (ho.timer u)).of_none, trivial⟩
    · rw [Function.update_of_ne hut] at hu
      obtain ⟨hp, hk⟩ := ho.held u g q hu
      exact ⟨h.protocol hl hp (ho.timer t), h.knows hl hk⟩
  · intro hzero
    have hrun := h.running_eq (hacc.bit_le t) fun f ht ↦ by
      rw [ht] at hl
      cases hl
    have hnonneg := l'.bit_nonneg
    exact h.protocol hl (ho.free (by omega)) (ho.timer t)
  · intro u q hu
    rw [hdkev]
    rcases eq_or_ne u t with rfl | hut
    · rcases h.timerMerge_of (by simpa using hu) with hd | ⟨q', hq'⟩
      · exact hd
      · exact ho.timer u q' hq'
    · rw [Function.update_of_ne hut] at hu
      exact ho.timer u q hu

omit [DecidableEq T] [DecidableEq Q] [Fintype T] in
theorem HeldTrans.dkSources_of {f f' : Frame Q} {p p' : Held Q}
    (h : HeldTrans set m f p m' f' p') (hd : m'.dkSources) :
    m.dkSources ∨ ∃ q, p = .merge q := by
  cases h
  case mergeInsert | mergeFound => exact .inr ⟨_, rfl⟩
  case releaseRemove => cases hd
  case drainItem dc => cases dc <;> exact .inl hd
  all_goals exact .inl hd

omit [DecidableEq T] [Fintype T] in
theorem unregistered_step (ho : Ordered set m loc) (h : Trans set t m (loc t) m' l')
    (hdkev : m.dsDkev = false) (hsources : m.dkSources = false) :
    m'.dsDkev = false ∧ m'.dkSources = false := by
  rcases eq_or_ne (loc t).bit 0 with hl | hl
  · refine ⟨(h.others hl).1.trans hdkev, Bool.eq_false_iff.mpr fun hd ↦ ?_⟩
    rcases h.dkSources_of hl hd with hd | ⟨q, hq⟩
    · rw [hsources] at hd
      cases hd
    · have hreg := ho.timer t q hq
      rw [hdkev] at hreg
      cases hreg
  · obtain ⟨f, p, ht⟩ := Loc.eq_held_of_bit hl
    have hk := (ho.held t f p ht).2
    rw [ht] at h
    cases h
    case held h =>
      constructor
      · rcases eq_or_ne p .releaseDkev with rfl | hne
        · cases h
          rfl
        · exact (h.dsDkev_eq hne).trans hdkev
      · refine Bool.eq_false_iff.mpr fun hd ↦ ?_
        rcases h.dkSources_of hd with hd | ⟨q, rfl⟩
        · rw [hsources] at hd
          cases hd
        · have hreg : m.dsDkev = true := hk
          rw [hdkev] at hreg
          cases hreg
    all_goals exact ⟨hdkev, hsources⟩

omit [Fintype T] in
theorem onMgr_of_run {C : Pool T (Mem Q) (Loc Q) → T → Act Q → Prop} {tq : Q} {mask : BitVec 64}
    {needsRearm : Bool} {s : Pool T (Mem Q) (Loc Q)}
    (h : Pool.Runs (step set) C (created tq mask needsRearm) s) (t : T) : (s.loc t).OnMgr set t :=
  h.forall_loc (fun _ ↦ trivial) (fun _ _ _ _ _ _ hl _ hP ↦ (trans_of_step hP).onMgr hl) t

omit [DecidableEq T] [DecidableEq Q] [Fintype T] in
theorem ordered_created (tq : Q) (mask : BitVec 64) (needsRearm : Bool) :
    Ordered set (created (T := T) tq mask needsRearm).mem
      (created (T := T) tq mask needsRearm).loc := by
  refine ⟨nofun, fun _ ↦ ?_, nofun⟩
  constructor <;> simp [created]

theorem ordered_of_run {C : Pool T (Mem Q) (Loc Q) → T → Act Q → Prop} {tq : Q}
    {mask : BitVec 64} {needsRearm : Bool} {s : Pool T (Mem Q) (Loc Q)}
    (h : Pool.Runs (step set) C (created tq mask needsRearm) s) : Ordered set s.mem s.loc := by
  refine h.invariant (I := fun s ↦ Ordered set s.mem s.loc) (ordered_created tq mask needsRearm) ?_
  intro s t a m l hr ho _ hP
  have htrans := trans_of_step hP
  rcases eq_or_ne (s.loc t).bit 0 with hl | hl
  · exact htrans.ordered_free hl (accounts_of_run hr) ho
  · obtain ⟨f, p, ht⟩ := Loc.eq_held_of_bit hl
    rw [ht] at htrans
    exact htrans.ordered_held ht (accounts_of_run hr) (onMgr_of_run hr) ho

omit [DecidableEq T] in
theorem Trans.dsDkev_of_disposed (h : Trans set t m (loc t) m' l') (hacc : Accounts m loc)
    (hd : m.disposed → m.dsDkev = false) (hd' : m'.disposed) : m'.dsDkev = false := by
  have hle := hacc.share_le_refs t
  generalize loc t = l at h hle
  cases h
  case held p _ h =>
    have hgone := hd (h.counts.2.2.2.2.2.2.2.2 ▸ hd')
    rcases eq_or_ne p .releaseDkev with rfl | hne
    · cases h
      rfl
    · exact (h.dsDkev_eq hne).trans hgone
  case releaseLast hone _ =>
    -- the last reference is in the hands of this thread, so the manager has none
    cases hb : m.dsDkev with
    | false => rfl
    | true =>
        simp only [Mem.ownRefs, Loc.refs, hb, Bool.toNat_true] at hle
        omega
  case releaseRefLast hone _ =>
    simp only [Loc.refs, Held.mgrRef] at hle
    omega
  all_goals exact hd hd'

/-- The cancellation handler is called on the target queue of a cancelled source that has
been unregistered, once, and while the event handler is not running; after that the event
handler is not called, and a source that has been disposed of has been unregistered. -/
theorem cancelHandler_protocol {tq : Q} {mask : BitVec 64} {needsRearm : Bool}
    {s : Pool T (Mem Q) (Loc Q)}
    (h : Pool.Reachable (step set) (created tq mask needsRearm) s) :
    (∀ t f handler, s.loc t = .held f (.calloutRun handler) →
      s.mem.dsCanceled ∧ f.current = s.mem.doTargetq ∧ s.mem.dsDkev = false ∧
        s.mem.dkSources = false ∧ ∀ u g, s.loc u ≠ .held g .latchRun) ∧
      s.mem.cancelCalls.Nodup ∧
      (s.mem.cancelCalls ≠ [] → ∀ t f, s.loc t ≠ .held f .latchRun) ∧
      (s.mem.disposed → s.mem.dsDkev = false) := by
  have hacc := accounts_of_run h
  have ho := ordered_of_run h
  refine ⟨?_, ?_, ?_, ?_⟩
  · intro t f handler ht
    obtain ⟨hp, hdkev, htarget, -, hcanceled⟩ := ho.held t f _ ht
    refine ⟨hcanceled, htarget, hdkev, ?_, ?_⟩
    · by_contra hd
      have hreg := (hp.sources (by simpa using hd)).resolve_right nofun
      exact absurd hreg (by simp [hdkev])
    · intro u g hu
      rcases eq_or_ne u t with rfl | hut
      · cases hu.symm.trans ht
      · exact hacc.ne_held ht hut hu
  · rcases Nat.eq_zero_or_pos s.mem.dqRunning with hzero | hpos
    · exact (ho.free hzero).calls_nodup
    · obtain ⟨t, f, p, ht⟩ := hacc.exists_held hpos
      exact (ho.held t f p ht).1.calls_nodup
  · intro hcalls t f ht
    exact hcalls (ho.held t f _ ht).2
  · exact h.invariant (I := fun s ↦ s.mem.disposed → s.mem.dsDkev = false) nofun
      fun s t a m l hr hd _ hP ↦ (trans_of_step hP).dsDkev_of_disposed (accounts_of_run hr) hd

end Runs

def steps (t : T) (n : ℕ) : List (T × Act Q) := List.replicate n (t, .go)

/-- Thread 0 installs a cancellation handler, resumes and cancels the source and is the
worker of its target queue; thread 1 is the manager. -/
def cancelTrace : List (Fin 2 × Act (Fin 2)) :=
  [(0, Act.setCancelHandler true)] ++ steps 0 5 ++ [(0, Act.resume)] ++ steps 0 6 ++
    [(0, Act.invoke 0)] ++ steps 0 16 ++ [(1, Act.invoke 1)] ++ steps 1 21 ++ [(0, Act.cancel)] ++
    steps 0 11 ++ [(0, Act.invoke 0)] ++ steps 0 11 ++ [(1, Act.invoke 1)] ++ steps 1 17 ++
    [(0, Act.invoke 0)] ++ steps 0 15

def cancelState : Pool (Fin 2) (Mem (Fin 2)) (Loc (Fin 2)) :=
  ((created 0 0 false).run (step ⟨1, 1, false, true⟩) (fun _ _ _ ↦ True) cancelTrace).get
    (by decide)

theorem cancelHandler_protocol_called :
    cancelState.loc 0 = .held ⟨0, 0, 0, false⟩ (.calloutRun 0) ∧
      cancelState.mem.cancelCalls = [0] ∧ cancelState.mem.dsDkev = false ∧
      cancelState.mem.dkSources = false := by
  have hrun : Pool.Reachable (step ⟨1, 1, false, true⟩) (created 0 0 false) cancelState :=
    Pool.runs_get _
  have hcall : cancelState.loc 0 = .held ⟨0, 0, 0, false⟩ (.calloutRun 0) := by decide
  obtain ⟨-, -, hdkev, hsources, -⟩ := (cancelHandler_protocol hrun).1 0 _ _ hcall
  exact ⟨hcall, by decide, hdkev, hsources⟩

end LibDispatch.Source
