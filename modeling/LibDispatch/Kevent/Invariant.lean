import LibDispatch.Kevent.Steps

/-!
# The registry over whole runs

Moving a timer takes it off its list and inserts it into the one its flags ask for, wherever
it was before.  With that, every step of the manager keeps the registry well formed.
-/

namespace LibDispatch.Kevent

open Interleaving.Sequence (run runs_get)

variable {S : Type*} [DecidableEq S]

/-! ## Moving a timer -/

/-- The timer has been taken off its list and inserted into the one its flags ask for. -/
structure Requeued (r r' : Registry S) (ds : S) (x : Source S) : Prop where
  sources_eq : r'.dispatchSources = r.dispatchSources
  ds_eq : r'.ds = Function.update r.ds ds
    (some { x with dsIsInstalled := true, dsDkev := some (.timer (Registry.clockOf x)) })
  dk_eq : ∀ d, (∀ c, d ≠ .timer c) → r'.dk d = r.dk d
  list_eq : ∀ c, (r'.dk (.timer c)).dkSources =
    if c = Registry.clockOf x then
      OrderedList.insertBefore (r.isLater x.dsTimer.target) ds
        ((r.dk (.timer c)).dkSources.erase ds)
    else (r.dk (.timer c)).dkSources.erase ds

namespace Registry

variable {r : Registry S} {ds : S} {x : Source S} {dk : Dk S}

omit [DecidableEq S] in
theorem Wf.notMem_of_ne (h : Wf r) (hx : r.ds ds = some x) (hdk : x.dsDkev = some dk) {d : Dk S}
    (hne : d ≠ dk) : ds ∉ (r.dk d).dkSources := by
  intro hmem
  obtain ⟨y, hy, -, hyd⟩ := (h.listed ds d).mp hmem
  rw [hx, Option.some_inj] at hy
  rw [← hy, hdk, Option.some_inj] at hyd
  exact hne hyd.symm

theorem Wf.requeued (h : Wf r) (hx : r.ds ds = some x) (hinst : x.dsIsInstalled) {c : Clock}
    (hdk : x.dsDkev = some (.timer c)) : Requeued r (r.requeueTimer ds x (.timer c)) ds x := by
  have hlater : (r.setDk (.timer c) { r.dk (.timer c) with
      dkSources := (r.dk (.timer c)).dkSources.erase ds }).isLater = r.isLater := rfl
  have herase : ∀ c', ((r.setDk (.timer c) { r.dk (.timer c) with
      dkSources := (r.dk (.timer c)).dkSources.erase ds }).dk (.timer c')).dkSources =
      (r.dk (.timer c')).dkSources.erase ds := by
    intro c'
    rcases eq_or_ne c' c with rfl | hne
    · simp
    · have hdne : Dk.timer c' ≠ (Dk.timer c : Dk S) := by simpa using hne
      rw [setDk_dk_of_ne _ hdne, List.erase_of_not_mem (h.notMem_of_ne hx hdk hdne)]
  have hinst' : x = { x with dsIsInstalled := true } := by
    cases x
    cases hinst
    rfl
  constructor
  case sources_eq => rfl
  case ds_eq =>
    rw [hinst']
    rfl
  case dk_eq =>
    intro d hd
    rw [Registry.requeueTimer, Registry.enqueueTimer, setDs_dk, setDk_dk_of_ne _ (hd _),
      setDk_dk_of_ne _ (hd _)]
  case list_eq =>
    intro c'
    rw [Registry.requeueTimer, Registry.enqueueTimer, setDs_dk]
    split
    · subst c'
      rw [setDk_dk_self, hlater, herase]
    · rename_i hne
      rw [setDk_dk_of_ne _ (by simpa using hne), herase]

theorem Wf.merge_timer (h : Wf r) (hx : r.ds ds = some x) (hinst : x.dsIsInstalled = false)
    (htype : x.dsType = .timer) :
    (r.merge ds x (.own ds)).1 =
      (r.setDk (.timer .wall)
        { r.dk (.timer .wall) with
          fflags := (r.dk (.timer .wall)).fflags ||| (r.dk (.own ds)).fflags
          dkSources := (r.dk (.timer .wall)).dkSources ++ [ds] }).setDs ds
        { x with dsIsInstalled := true, dsDkev := some (.timer .wall) } := by
  obtain ⟨-, hsuits, -, hzero⟩ := h.fresh ds x hx hinst
  obtain ⟨hreg, hkey⟩ := h.static (.timer .wall) rfl
  have hfilter : (r.dk (.own ds)).filter = .timer := by rw [hsuits.filter_eq, htype]; rfl
  have hident : (r.dk (.own ds)).ident = 0 := hzero (by rw [htype]; rfl)
  have hfind : r.dispatchKeventFind (r.dk (.own ds)).ident (r.dk (.own ds)).filter =
      some (.timer .wall) := by
    rw [hident, hfilter, find_eq r (0, .timer)]
    exact h.table.find_eq_some.mpr ⟨hreg, hkey⟩
  unfold Registry.merge
  rw [hfind]
  simp [attach, setDk]

theorem Wf.requeued_merge (h : Wf r) (hx : r.ds ds = some x) (hinst : x.dsIsInstalled = false)
    (htype : x.dsType = .timer) {r' : Registry S}
    (hr : Requeued (r.merge ds x (.own ds)).1 r' ds
      { x with dsIsInstalled := true, dsDkev := some (.timer .wall) }) : Requeued r r' ds x := by
  have hnot := h.notMem_of_fresh hx hinst
  rw [h.merge_timer hx hinst htype] at hr
  constructor
  case sources_eq => exact hr.sources_eq
  case ds_eq =>
    exact hr.ds_eq.trans (Function.update_idem _ _ _)
  case dk_eq =>
    intro d hd
    rw [hr.dk_eq d hd, setDs_dk, setDk_dk_of_ne _ (hd _)]
  case list_eq =>
    intro c
    have hlater : (((r.setDk (.timer .wall)
        { r.dk (.timer .wall) with
          fflags := (r.dk (.timer .wall)).fflags ||| (r.dk (.own ds)).fflags
          dkSources := (r.dk (.timer .wall)).dkSources ++ [ds] }).setDs ds
        { x with dsIsInstalled := true, dsDkev := some (.timer .wall) })).isLater = r.isLater :=
      isLater_setDs rfl hx rfl
    have herase : ∀ c', (((r.setDk (.timer .wall)
        { r.dk (.timer .wall) with
          fflags := (r.dk (.timer .wall)).fflags ||| (r.dk (.own ds)).fflags
          dkSources := (r.dk (.timer .wall)).dkSources ++ [ds] }).setDs ds
        { x with dsIsInstalled := true, dsDkev := some (.timer .wall) }).dk
          (.timer c')).dkSources.erase ds =
        (r.dk (.timer c')).dkSources.erase ds := by
      intro c'
      cases c' with
      | wall => simp [List.erase_append_right _ (hnot (.timer .wall)),
          List.erase_of_not_mem (hnot _)]
      | mach => simp
    rw [hr.list_eq, herase, hlater]
    rfl

end Registry

namespace State

variable {st : Manager S} {ds : S} {x : Source S}

theorem listUpdate_released (hdkev : x.dsDkev = none) : st.dispatchTimerListUpdate ds x = st := by
  simp only [dispatchTimerListUpdate, hdkev]

theorem requeued_listUpdate (h : st.reg.Wf) (hx : st.reg.ds ds = some x) (htype : x.dsType = .timer)
    (hdkev : x.dsDkev ≠ none) :
    (st.dispatchTimerListUpdate ds x).reg.Wf ∧
      Requeued st.reg (st.dispatchTimerListUpdate ds x).reg ds x ∧
      (st.dispatchTimerListUpdate ds x).params = st.params := by
  obtain ⟨own, hown⟩ := Option.ne_none_iff_exists'.mp hdkev
  cases hinst : x.dsIsInstalled with
  | true =>
      obtain ⟨c, rfl⟩ := h.dkev_timer hx hinst htype hown
      have heq : st.dispatchTimerListUpdate ds x =
          { st with reg := st.reg.requeueTimer ds x (.timer c) } := by
        simp only [dispatchTimerListUpdate, hown, merge_installed hinst, hx]
      rw [heq]
      exact ⟨h.requeueTimer hx hinst htype hown, h.requeued hx hinst hown, rfl⟩
  | false =>
      obtain rfl : own = .own ds := Option.some_inj.mp (hown.symm.trans (h.fresh ds x hx hinst).1)
      obtain ⟨hreg, hparams⟩ := st.quiet_merge ds (some 0) hinst hown
      have hx' : (st.dispatchKeventMerge ds x (some 0)).reg.ds ds =
          some { x with dsIsInstalled := true, dsDkev := some (.timer .wall) } := by
        rw [hreg]
        simp only [h.merge_timer hx hinst htype, Registry.setDs_ds_self]
      have hwf : (st.dispatchKeventMerge ds x (some 0)).reg.Wf := by
        rw [hreg]
        exact h.merge hx hinst
      have heq : st.dispatchTimerListUpdate ds x =
          { st.dispatchKeventMerge ds x (some 0) with
            reg := (st.dispatchKeventMerge ds x (some 0)).reg.requeueTimer ds
              { x with dsIsInstalled := true, dsDkev := some (.timer .wall) } (.timer .wall) } := by
        simp only [dispatchTimerListUpdate, hown, hx']
      rw [heq]
      refine ⟨hwf.requeueTimer hx' rfl htype rfl, h.requeued_merge hx hinst htype ?_, hparams⟩
      have hr := hwf.requeued hx' rfl rfl
      simp only [hreg] at hr ⊢
      exact hr

theorem runTimers_eq_some {st' : Manager S} {c : Clock} {now : ℕ}
    (h : st.runTimers c now = some st') :
    ∃ ds x, (st.reg.dk (.timer c)).dkSources.head? = some ds ∧ st.reg.ds ds = some x ∧
      (c.index ≠ x.dsIdentHack ∧ st' = st.dispatchTimerListUpdate ds x ∨
        c.index = x.dsIdentHack ∧ x.dsTimer.target ≠ 0 ∧ x.dsTimer.interval ≠ 0 ∧
          x.dsTimer.target ≤ now ∧
          st' = (st.fireTimer ds x now).dispatchTimerListUpdate ds (x.fire now).1) := by
  unfold runTimers at h
  split at h
  · cases h
  · rename_i ds hds
    split at h
    · cases h
    · rename_i x hx
      refine ⟨ds, x, hds, hx, ?_⟩
      split at h
      · cases h
        exact .inl ⟨‹_›, rfl⟩
      · rename_i hidx
        split at h
        · cases h
        · rename_i hconf
          rw [not_or] at hconf
          split at h
          · cases h
          · rename_i hnow
            cases h
            exact .inr ⟨not_not.mp hidx, hconf.1, hconf.2, Nat.le_of_not_lt hnow, rfl⟩

theorem runTimers2_induction {P : Manager S → Prop} {c : Clock} {now : ℕ}
    (hturn : ∀ st st', P st → st.runTimers c now = some st' → P st') {n : ℕ} {st st' : Manager S}
    (h : dispatchRunTimers2 c now n st = some st') (hP : P st) : P st' := by
  induction n generalizing st with
  | zero => cases h
  | succ n ih =>
      rw [dispatchRunTimers2] at h
      split at h
      · cases h
        exact hP
      · exact ih h (hturn _ _ hP ‹_›)

end State

section Fire

variable (x : Source S) (now : ℕ)

omit [DecidableEq S]

@[simp] theorem Source.fire_dsType : (x.fire now).1.dsType = x.dsType := by
  unfold fire; split <;> rfl

@[simp] theorem Source.fire_dsDkev : (x.fire now).1.dsDkev = x.dsDkev := by
  unfold fire; split <;> rfl

@[simp] theorem Source.fire_dsIsInstalled : (x.fire now).1.dsIsInstalled = x.dsIsInstalled := by
  unfold fire; split <;> rfl

@[simp] theorem Source.fire_dsPendingDataMask :
    (x.fire now).1.dsPendingDataMask = x.dsPendingDataMask := by
  unfold fire; split <;> rfl

@[simp] theorem Source.fire_dsIdentHack : (x.fire now).1.dsIdentHack = x.dsIdentHack := by
  unfold fire; split <;> rfl

end Fire

/-! ## Every step keeps the registry well formed -/

def Keeps (r r' : Registry S) : Prop :=
  ∀ ds x, r.ds ds = some x → ∃ x', r'.ds ds = some x' ∧ x'.dsType = x.dsType

theorem keeps_update {r r' : Registry S} {ds : S} {x x' : Source S} (hx : r.ds ds = some x)
    (hds : r'.ds = Function.update r.ds ds (some x')) (htype : x'.dsType = x.dsType) :
    Keeps r r' := by
  intro ds' y hy
  rcases eq_or_ne ds' ds with rfl | hne
  · rw [hx, Option.some_inj] at hy
    exact ⟨x', by simp [hds], by rw [htype, hy]⟩
  · exact ⟨y, by simp [hds, hne, hy], rfl⟩

/-- The registry is well formed, and the calls that wait are for timers and ask for the list of
their clock. -/
structure Inv (st : Manager S) : Prop where
  wf : st.reg.Wf
  params : ∀ p ∈ st.params, (∃ x, st.reg.ds p.ds = some x ∧ x.dsType = .timer) ∧
    p.ident = (if p.values.wallClock then Clock.wall else Clock.mach).index

omit [DecidableEq S] in
theorem Inv.of_keeps {st st' : Manager S} (h : Inv st) (hwf : st'.reg.Wf)
    (hkeeps : Keeps st.reg st'.reg)
    (hparams : st'.params = st.params) : Inv st' := by
  refine ⟨hwf, fun p hp ↦ ?_⟩
  rw [hparams] at hp
  obtain ⟨⟨x, hx, htype⟩, hident⟩ := h.params p hp
  obtain ⟨x', hx', htype'⟩ := hkeeps p.ds x hx
  exact ⟨⟨x', hx', htype'.trans htype⟩, hident⟩

namespace Registry

variable {r : Registry S} {ds : S} {x : Source S} {dk : Dk S}

theorem merge_ds (own : Dk S) : (r.merge ds x own).1.ds = Function.update r.ds ds
    (some { x with dsIsInstalled := true, dsDkev := some (r.merge ds x own).2.1 }) := by
  unfold Registry.merge
  split <;> rfl

theorem release_ds : (r.release ds x dk).ds = Function.update r.ds ds
    (some { x with dsDkev := none }) := by
  simp only [Registry.release]
  split
  · split <;> rfl
  · split <;> rfl

omit [DecidableEq S] in
theorem Wf.mem_timer (h : Wf r) {c : Clock} (hmem : ds ∈ (r.dk (.timer c)).dkSources) :
    ∃ x, r.ds ds = some x ∧ x.dsType = .timer ∧ x.dsIsInstalled ∧ x.dsDkev = some (.timer c) := by
  obtain ⟨x, hx, hinst, hdk⟩ := (h.listed ds _).mp hmem
  refine ⟨x, hx, ?_, hinst, hdk⟩
  have hfilter : x.dsType.filter = .timer :=
    (h.installed ds x _ hx hinst hdk).2.filter_eq.symm.trans (h.filter_static rfl)
  cases hty : x.dsType <;> rw [hty] at hfilter <;> first | rfl | cases hfilter

end Registry

theorem handle_of_handleOk {host : Host} {handle : ℕ} {mask : BitVec 64} {filter : Filter}
    (h : State.handleOk host handle mask filter) (hstatic : filter.isStatic) : handle = 0 := by
  cases filter
  case timer | customAdd | customOr => simp_all [State.handleOk]
  all_goals cases hstatic

theorem wallClock_or (x : Timer) (f : BitVec 64) (hx : x.flags = f ||| 4) : x.wallClock := by
  have hbit : (f ||| 4) &&& 4 = 4 := by grind
  rw [Timer.wallClock, hx, hbit]
  decide

theorem wallClock_and (x : Timer) (f : BitVec 64) (hx : x.flags = f &&& ~~~4) :
    x.wallClock = false := by
  have hbit : ~~~(4 : BitVec 64) &&& 4 = 0 := by decide
  rw [Timer.wallClock, hx, BitVec.and_assoc, hbit]
  simp

omit [DecidableEq S] in
theorem ident_setTimer {host : Host} {ds : S} {flags start interval leeway now : BitVec 64} :
    (dispatchSourceSetTimer host ds flags start interval leeway now).ds = ds ∧
      (dispatchSourceSetTimer host ds flags start interval leeway now).ident =
        (if (dispatchSourceSetTimer host ds flags start interval leeway now).values.wallClock then
          Clock.wall else Clock.mach).index := by
  simp only [dispatchSourceSetTimer]
  split
  · rw [wallClock_or _ flags rfl]
    exact ⟨rfl, rfl⟩
  · rw [wallClock_and _ flags rfl]
    exact ⟨rfl, rfl⟩

variable {host : Host} {st st' : Manager S} {a : Act S} {ds : S} {x : Source S}

theorem Inv.listUpdate (h : Inv st) (hx : st.reg.ds ds = some x) (htype : x.dsType = .timer) :
    Inv (st.dispatchTimerListUpdate ds x) := by
  cases hdkev : x.dsDkev with
  | none =>
      rwa [State.listUpdate_released hdkev]
  | some dk =>
      obtain ⟨hwf, hreq, hparams⟩ := State.requeued_listUpdate h.wf hx htype (by simp [hdkev])
      exact h.of_keeps hwf (keeps_update hx hreq.ds_eq rfl) hparams

theorem Inv.fireTimer (h : Inv st) (hx : st.reg.ds ds = some x) {now : ℕ} :
    Inv (st.fireTimer ds x now) :=
  h.of_keeps
    (h.wf.setDs hx (by simp) (by simp) (by simp) (by simp) (by simp))
    (keeps_update hx rfl (by simp)) rfl

theorem Inv.runTimers (h : Inv st) {c : Clock} {now : ℕ} (hs : st.runTimers c now = some st') :
    Inv st' := by
  obtain ⟨ds, x, hhead, hx, hor⟩ := State.runTimers_eq_some hs
  obtain ⟨y, hy, htype, -, -⟩ := h.wf.mem_timer (List.mem_of_mem_head? hhead)
  rw [hx, Option.some_inj] at hy
  subst hy
  rcases hor with ⟨-, rfl⟩ | ⟨-, -, -, -, rfl⟩
  · exact h.listUpdate hx htype
  · refine (h.fireTimer hx).listUpdate ?_ (by simpa using htype)
    simp [State.fireTimer, State.setDel]

theorem Inv.assign (h : Inv st) {i : ℕ} {p : SetTimerParams S} (hx : st.reg.ds p.ds = some x)
    (htype : x.dsType = .timer) :
    Inv { st with
      params := st.params.eraseIdx i
      reg := st.reg.setDs p.ds
        { x with dsIdentHack := p.ident, dsTimer := p.values, fires := 0 } } := by
  have herase : Inv { st with params := st.params.eraseIdx i } :=
    ⟨h.wf, fun q hq ↦ h.params q (List.mem_of_mem_eraseIdx hq)⟩
  exact herase.of_keeps (h.wf.setDs hx rfl rfl rfl (absurd htype) (.inl rfl))
    (keeps_update hx rfl rfl) rfl

theorem setTimer2_eq {p : SetTimerParams S} (hx : st.reg.ds p.ds = some x) :
    st.dispatchSourceSetTimer2 p = State.dispatchTimerListUpdate
      { st with
        reg := st.reg.setDs p.ds
          { x with dsIdentHack := p.ident, dsTimer := p.values, fires := 0 } }
      p.ds { x with dsIdentHack := p.ident, dsTimer := p.values, fires := 0 } := by
  simp only [State.dispatchSourceSetTimer2, hx]

theorem Trans.inv (ht : Trans host st a st') (h : Inv st) : Inv st' := by
  cases ht
  case create ds ty handle mask hok hnone =>
    refine h.of_keeps (h.wf.create hnone rfl rfl rfl ⟨rfl, fun _ ↦ rfl⟩ rfl ?_) ?_ rfl
    · exact handle_of_handleOk hok
    · intro ds' y hy
      have hne : ds' ≠ ds := by
        rintro rfl
        rw [hnone] at hy
        cases hy
      exact ⟨y, by simpa [hne] using hy, rfl⟩
  case install ds x answer hx hinst =>
    obtain ⟨hreg, hparams⟩ :=
      st.quiet_merge ds answer hinst (h.wf.fresh ds x hx hinst).1
    refine h.of_keeps ?_ ?_ hparams
    · rw [hreg]
      exact h.wf.merge hx hinst
    · rw [hreg]
      exact keeps_update hx (Registry.merge_ds _) rfl
  case uninstall ds x dk answer hx hinst _ hdk =>
    obtain ⟨hreg, hparams⟩ :=
      st.quiet_release ds x dk answer
    refine h.of_keeps ?_ ?_ hparams
    · rw [hreg]
      exact h.wf.release hx hinst hdk
    · rw [hreg]
      exact keeps_update hx Registry.release_ds rfl
  case rearm ds x dk answer hx _ _ _ _ =>
    obtain ⟨hreg, hparams⟩ := st.quiet_dispatchKeventResume dk answer
    refine h.of_keeps ?_ ?_ hparams
    · exact hreg ▸ h.wf
    · intro ds' y hy
      exact ⟨y, (congrArg (fun r ↦ r.ds ds') hreg).trans hy, rfl⟩
  case callout ds x hx hinst hdk =>
    exact h.of_keeps (h.wf.setDs hx rfl rfl rfl (fun _ ↦ rfl) (.inr ⟨hinst, hdk⟩))
      (keeps_update hx rfl rfl) rfl
  case setTimer ds x start interval leeway now hx htype =>
    refine ⟨h.wf, fun p hp ↦ ?_⟩
    rcases List.mem_append.mp hp with hp | hp
    · exact h.params p hp
    · rw [List.mem_singleton] at hp
      subst hp
      exact ⟨⟨x, by rw [ident_setTimer.1]; exact hx, htype⟩, ident_setTimer.2⟩
  case setTimer2 i p hp =>
    obtain ⟨⟨x, hx, htype⟩, -⟩ := h.params p (List.mem_of_getElem? hp)
    rw [setTimer2_eq (by exact hx)]
    exact (h.assign hx htype).listUpdate (Registry.setDs_ds_self _ _ _) htype
  case runTimers c now n hs =>
    exact State.runTimers2_induction (fun _ _ h hs ↦ h.runTimers hs) hs h
  all_goals exact h.of_keeps h.wf (fun ds y hy ↦ ⟨y, hy, rfl⟩) rfl

/-! ## Runs -/

variable {C : Manager S → Act S → Prop}

omit [DecidableEq S] in
theorem mem_initialSources {i : ℕ} {d : Dk S} : d ∈ initialSources i ↔
    d.isStatic ∧ Registry.hashKey (d.initial.ident, d.initial.filter) = i := by
  match i with
  | 0 | 1 | n + 2 =>
      rcases d with ⟨_ | _⟩ | _ | _ | _ <;>
        simp [initialSources, Dk.isStatic, Registry.hashKey, dispatchKeventHash, Dk.initial,
          Clock.index, dslHashSize]

omit [DecidableEq S] in
theorem wf_initial : Registry.Wf (⟨initialSources, Dk.initial, fun _ ↦ none⟩ : Registry S) := by
  have hmem : ∀ d : Dk S, Buckets.Mem initialSources d ↔ d.isStatic := fun d ↦
    ⟨fun ⟨i, hi⟩ ↦ (mem_initialSources.mp hi).1, fun hd ↦ ⟨_, mem_initialSources.mpr ⟨hd, rfl⟩⟩⟩
  have hnot : ∀ ds : S, ¬ Buckets.Mem initialSources (Dk.own ds) := fun ds hds ↦ by
    cases (hmem _).mp hds
  constructor
  case table =>
    constructor
    case hash_eq => exact fun i d hd ↦ (mem_initialSources.mp hd).2
    case nodup =>
      intro i
      match i with
      | 0 | 1 => simp [initialSources]
      | n + 2 => exact List.nodup_nil
    case unique =>
      intro d d' hd hd' heq
      rw [hmem] at hd hd'
      rcases d with ⟨_ | _⟩ | _ | _ | _ <;> rcases d' with ⟨_ | _⟩ | _ | _ | _ <;>
        first | rfl | (cases hd; done) | (cases hd'; done) | cases heq
  case static => exact fun d hd ↦ ⟨(hmem d).mpr hd, rfl⟩
  case listed =>
    intro ds d
    constructor
    · intro hds
      cases d <;> cases hds
    · rintro ⟨x, hx, -⟩
      cases hx
  case list_nodup =>
    intro d
    cases d <;> exact List.nodup_nil
  case installed => exact fun ds x d hx ↦ by cases hx
  case fresh => exact fun ds x hx ↦ by cases hx
  case born => exact fun ds hds ↦ absurd hds (hnot ds)
  case used => exact fun ds hds ↦ absurd hds (hnot ds)

theorem inv_of_run (h : Runs host C st) : Inv st := by
  induction h with
  | refl => exact ⟨wf_initial, fun p hp ↦ by cases hp⟩
  | tail _ hstep ih =>
      obtain ⟨a, -, hs⟩ := hstep
      exact (trans_of_step hs).inv ih

/-- The registry is exact: at most one kevent for an identifier and a filter, in the bucket of
its hash; every source that is installed and not released on the list of exactly one kevent,
which is registered under the identifier and the filter of the source; no registered kevent
without sources, and its flags those that its sources ask for. -/
theorem registry_exact (h : Runs host (fun _ _ ↦ True) st) :
    (∀ i j d d', d ∈ st.reg.dispatchSources i → d' ∈ st.reg.dispatchSources j →
      (st.reg.dk d).ident = (st.reg.dk d').ident → (st.reg.dk d).filter = (st.reg.dk d').filter →
        d = d' ∧ i = j) ∧
    (∀ i, (st.reg.dispatchSources i).Nodup) ∧
    (∀ i d, d ∈ st.reg.dispatchSources i →
      dispatchKeventHash (st.reg.dk d).ident (st.reg.dk d).filter = i) ∧
    (∀ ds x, st.reg.ds ds = some x → x.dsIsInstalled → x.dsDkev ≠ none →
      x.dsType.filter.isStatic = false →
        ∃ d, x.dsDkev = some d ∧ (∃ i, d ∈ st.reg.dispatchSources i) ∧
          (st.reg.dk d).dkSources.count ds = 1 ∧ (∀ d', d' ≠ d → ds ∉ (st.reg.dk d').dkSources) ∧
          (st.reg.dk d).ident = x.dsIdentHack ∧ (st.reg.dk d).filter = x.dsType.filter) ∧
    (∀ i d, d ∈ st.reg.dispatchSources i → (st.reg.dk d).filter.isStatic = false →
      (st.reg.dk d).dkSources ≠ [] ∧
        (st.reg.dk d).fflags = st.reg.fflagsOf (st.reg.dk d).dkSources) := by
  have hwf := (inv_of_run h).wf
  refine ⟨fun i j d d' hd hd' hident hfilter ↦ ?_, hwf.table.nodup, hwf.table.hash_eq,
    fun ds x hx hinst hdkev hstatic ↦ ?_, fun i d hd hstatic ↦ ?_⟩
  · have heq := hwf.table.unique d d' ⟨i, hd⟩ ⟨j, hd'⟩ (Prod.ext hident hfilter)
    refine ⟨heq, ?_⟩
    rw [← hwf.table.hash_eq i d hd, ← hwf.table.hash_eq j d' hd', heq]
  · obtain ⟨d, hd⟩ := Option.ne_none_iff_exists'.mp hdkev
    obtain ⟨hreg, hsuits⟩ := hwf.installed ds x d hx hinst hd
    refine ⟨d, hd, hreg, List.count_eq_one_of_mem (hwf.list_nodup d) ?_,
      fun d' hne ↦ hwf.notMem_of_ne hx hd hne, hsuits.ident_eq ?_, hsuits.filter_eq⟩
    · exact (hwf.listed ds d).mpr ⟨x, hx, hinst, hd⟩
    · intro htype
      rw [htype] at hstatic
      cases hstatic
  · have hown := hwf.isStatic_filter ⟨i, hd⟩
    rw [hstatic] at hown
    cases d with
    | own t => exact (hwf.used t ⟨i, hd⟩).2
    | _ => cases hown

def plainHost : Host := ⟨65, 0xe0000000, 0x3f, 0xff, true, 1, id⟩

/-- Two sources that share a kevent and a third one in the same bucket; the first one has been
cancelled and released. -/
def sharedState : Manager (Fin 3) :=
  (run (step plainHost) (fun _ _ ↦ True) initial
    [.create 0 .vnode 5 3, .create 1 .vnode 5 6, .create 2 .vnode 261 1, .invoke 0 (some 0),
      .invoke 1 (some 0), .invoke 2 (some 0), .cancel 0, .invoke 0 (some 0)]).get (by decide)

theorem registry_exact_shared :
    sharedState.reg.dispatchSources 5 = [.own 0, .own 2] ∧
      (sharedState.reg.dk (.own 0)).fflags = 6 ∧ (sharedState.reg.dk (.own 0)).dkSources = [1] ∧
      (sharedState.reg.dk (.own 0)).fflags =
        sharedState.reg.fflagsOf (sharedState.reg.dk (.own 0)).dkSources :=
  ⟨by decide, by decide, by decide,
    ((registry_exact (runs_get _)).2.2.2.2 5 (.own 0) (by decide) (by decide)).2⟩

end LibDispatch.Kevent
