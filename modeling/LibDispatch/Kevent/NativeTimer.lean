import LibDispatch.Kevent.SetTimer

/-!
# One timer of the manager

A timer seen by itself: the schedule that it has, the changes of the schedule that wait on the
manager queue, and what it has to deliver.  `dispatch_source_set_timer` suspends the source until
the manager has come to the change, but the manager goes on to run the timer by the old schedule,
and what it has to deliver by then stays.
-/

namespace LibDispatch.Kevent

open Time (HostTimeData)

/-- The last field is history: what has been added to `ds_pending_data` since the manager has taken
over the schedule. -/
structure NativeTimer where
  dsIdentHack : ℕ
  dsTimer : Timer
  params : List (SetTimerParams Unit)
  dsPendingData : ℕ
  fires : ℕ

namespace NativeTimer

def fresh : NativeTimer := ⟨0, ⟨0, 0, 0, 0, 0⟩, [], 0, 0⟩

variable (n : NativeTimer)

/-- `dispatch_source_set_timer`, where `data` are the host time data that it finds and `reading`
is that of the monotonic clock. -/
def setTimer (host : Host) (data : HostTimeData) (start interval leeway reading : BitVec 64) :
    NativeTimer :=
  { n with
    params := n.params ++ [dispatchSourceSetTimer (host.atTime data) () n.dsTimer.flags start
      interval leeway reading] }

def setTimer2 : NativeTimer :=
  match n.params with
  | [] => n
  | p :: rest => { n with dsIdentHack := p.ident, dsTimer := p.values, params := rest, fires := 0 }

def due (c : Clock) (reading : ℕ) : Bool :=
  c.index = n.dsIdentHack ∧ n.dsTimer.target ≠ 0 ∧ n.dsTimer.interval ≠ 0 ∧
    n.dsTimer.target ≤ reading

/-- The timer as the source that the manager fires. -/
def source : Source Unit := ⟨.timer, none, true, 0, n.dsIdentHack, n.dsTimer, n.fires⟩

/-- `_dispatch_run_timers2`, as far as this timer is concerned. -/
def runTimers (c : Clock) (reading : ℕ) : NativeTimer :=
  if n.due c reading then
    { n with
      dsTimer := (n.source.fire reading).1.dsTimer
      fires := (n.source.fire reading).1.fires
      dsPendingData := wrap (n.dsPendingData + (n.source.fire reading).2) }
  else n

def latch : NativeTimer := { n with dsPendingData := 0 }

/-- The list and the schedule that the timer has once the manager has come to the changes. -/
def scheduled : ℕ × Timer :=
  (n.params.getLast?.map fun p ↦ (p.ident, p.values)).getD (n.dsIdentHack, n.dsTimer)

def advances : ℕ := if n.params = [] then n.fires else 0

/-- None of the schedules is for one fire only. -/
def Periodic : Prop :=
  n.dsTimer.oneshot = false ∧ ∀ p ∈ n.params, p.values.oneshot = false

/-! ## The schedule -/

theorem scheduled_of_nil (h : n.params = []) : n.scheduled = (n.dsIdentHack, n.dsTimer) := by
  rw [scheduled, h]
  rfl

theorem scheduled_setTimer (host : Host) (data : HostTimeData)
    (start interval leeway reading : BitVec 64) :
    (n.setTimer host data start interval leeway reading).scheduled =
      let p := dispatchSourceSetTimer (host.atTime data) () n.dsTimer.flags start interval
        leeway reading
      (p.ident, p.values) := by
  simp [scheduled, setTimer]

theorem scheduled_setTimer2 : n.setTimer2.scheduled = n.scheduled := by
  unfold setTimer2
  cases hp : n.params with
  | nil => rfl
  | cons p rest =>
      cases rest with
      | nil => simp [scheduled, hp]
      | cons q rest =>
          simp only [scheduled, hp, List.getLast?_cons, Option.map_some, Option.getD_some]

theorem scheduled_of_ne_nil {m : NativeTimer} (h : n.params ≠ []) (hm : m.params = n.params) :
    m.scheduled = n.scheduled := by
  obtain ⟨p, hp⟩ := Option.ne_none_iff_exists'.mp (mt List.getLast?_eq_none_iff.mp h)
  simp [scheduled, hm, hp]

/-! ## Fires -/

variable {n}

theorem or_and_eq_zero {x y mask : BitVec 64} (hx : x &&& mask = 0) (hy : y &&& mask = 0) :
    (x ||| y) &&& mask = 0 := by
  grind

theorem oneshot_setTimer {S : Type*} {host : Host} {ds : S}
    {flags start interval leeway : BitVec 64}
    {reading : BitVec 64} (h : flags &&& 3 = 0) :
    (dispatchSourceSetTimer host ds flags start interval leeway reading).values.oneshot =
      false := by
  have hwall : (flags ||| 4) &&& 3 = 0 := or_and_eq_zero h rfl
  have hmach : (flags &&& ~~~4) &&& 3 = 0 := by
    rw [BitVec.and_assoc, BitVec.and_comm (~~~4), ← BitVec.and_assoc, h]
    rfl
  simp only [dispatchSourceSetTimer]
  split
  · exact decide_eq_false (not_not.mpr hwall)
  · exact decide_eq_false (not_not.mpr hmach)

theorem Periodic.setTimer (h : n.Periodic) (host : Host) (data : HostTimeData)
    (start interval leeway reading : BitVec 64) :
    (n.setTimer host data start interval leeway reading).Periodic := by
  refine ⟨h.1, fun p hp ↦ ?_⟩
  rcases List.mem_append.mp hp with hp | hp
  · exact h.2 p hp
  · rw [List.mem_singleton.mp hp]
    exact oneshot_setTimer (by simpa [Timer.oneshot] using h.1)

theorem Periodic.setTimer2 (h : n.Periodic) : n.setTimer2.Periodic := by
  unfold NativeTimer.setTimer2
  cases hp : n.params with
  | nil => exact h
  | cons p rest =>
      have hall := h.2
      rw [hp] at hall
      exact ⟨hall p List.mem_cons_self, fun q hq ↦ hall q (List.mem_cons_of_mem _ hq)⟩

theorem flags_fire (x : Source Unit) (reading : ℕ) :
    (x.fire reading).1.dsTimer.flags = x.dsTimer.flags := by
  unfold Source.fire
  split <;> rfl

theorem Periodic.runTimers (h : n.Periodic) (c : Clock) (reading : ℕ) :
    (n.runTimers c reading).Periodic := by
  unfold NativeTimer.runTimers
  split
  · refine ⟨?_, h.2⟩
    have hflags := flags_fire n.source reading
    have hsame : (n.source.fire reading).1.dsTimer.oneshot = n.dsTimer.oneshot := by
      rw [Timer.oneshot, hflags]
      rfl
    exact hsame.trans h.1
  · exact h

theorem Periodic.target_runTimers (h : n.Periodic) (c : Clock) {reading : ℕ}
    (hreading : reading < 2 ^ 63) {first : ℕ} (hlt : n.scheduled.2.interval < 2 ^ 63)
    (htarget : n.scheduled.2.target = first + n.advances * n.scheduled.2.interval) :
    (n.runTimers c reading).scheduled.1 = n.scheduled.1 ∧
      (n.runTimers c reading).scheduled.2.interval = n.scheduled.2.interval ∧
      (n.runTimers c reading).scheduled.2.target =
        first + (n.runTimers c reading).advances * n.scheduled.2.interval := by
  cases hdue : n.due c reading with
  | false =>
      have hsame : n.runTimers c reading = n := by simp [NativeTimer.runTimers, hdue]
      rw [hsame]
      exact ⟨rfl, rfl, htarget⟩
  | true =>
      have hparams : (n.runTimers c reading).params = n.params := by
        simp [NativeTimer.runTimers, hdue]
      by_cases hnil : n.params = []
      · rw [scheduled_of_nil _ hnil] at hlt htarget
        rw [scheduled_of_nil _ hnil, scheduled_of_nil _ (hparams.trans hnil), advances, hparams,
          if_pos hnil]
        rw [advances, if_pos hnil] at htarget
        simp only [due, decide_eq_true_eq] at hdue
        obtain ⟨k, -, hfires, htimer, -⟩ := n.source.fire_periodic h.1
          ⟨Nat.pos_of_ne_zero hdue.2.2.1, hlt⟩ hdue.2.2.2 hreading
        simp only [NativeTimer.runTimers, due, hdue, ne_eq, not_false_eq_true, and_self,
          decide_true, if_true, hfires, htimer]
        refine ⟨trivial, rfl, ?_⟩
        simp only [source] at htarget ⊢
        rw [htarget, Nat.add_mul, Nat.add_assoc]
      · rw [scheduled_of_ne_nil n hnil hparams, advances, hparams, if_neg hnil]
        rw [advances, if_neg hnil] at htarget
        exact ⟨rfl, rfl, htarget⟩

/-! ## The timer in the manager -/

section View

open Registry

variable {S : Type*} [DecidableEq S] {st st' : Manager S} {ds : S} {x : Source S} {host : Host}

def forget (p : SetTimerParams S) : SetTimerParams Unit := ⟨(), p.ident, p.values⟩

/-- The timer `ds` of the manager by itself. -/
def view (st : Manager S) (ds : S) (x : Source S) : NativeTimer :=
  ⟨x.dsIdentHack, x.dsTimer, (st.params.filter (·.ds = ds)).map forget,
    (st.del ds).dsPendingData, x.fires⟩

omit [DecidableEq S] in
theorem forget_setTimer (flags start interval leeway reading : BitVec 64) :
    forget (dispatchSourceSetTimer host ds flags start interval leeway reading) =
      dispatchSourceSetTimer host () flags start interval leeway reading := by
  simp only [dispatchSourceSetTimer, forget]
  split <;> rfl

theorem view_setTimer (hx : st.reg.ds ds = some x) (htype : x.dsType = .timer)
    (data : HostTimeData) (start interval leeway reading : BitVec 64) :
    ∃ st', step (host.atTime data) (.setTimer ds start interval leeway reading) st = some st' ∧
      st'.reg.ds ds = some x ∧
      view st' ds x = (view st ds x).setTimer host data start interval leeway reading := by
  set p := dispatchSourceSetTimer (host.atTime data) ds x.dsTimer.flags start interval leeway
    reading with hp
  have hds : p.ds = ds := ident_setTimer.1
  have hforget : forget p = dispatchSourceSetTimer (host.atTime data) () x.dsTimer.flags
      start interval leeway reading := forget_setTimer _ _ _ _ _
  refine ⟨{ st with params := st.params ++ [p] }, ?_, hx, ?_⟩
  · simp only [step, hx, Option.bind_some, htype, if_true, hp]
  · simp [view, setTimer, hds, hforget]

theorem view_latch (hx : st.reg.ds ds = some x) :
    ∃ st', step host (.latch ds) st = some st' ∧ st'.reg.ds ds = some x ∧
      view st' ds x = (view st ds x).latch := by
  refine ⟨st.setDel ds { st.del ds with dsPendingData := 0 }, rfl, hx, ?_⟩
  simp [view, latch, State.setDel]

/-- Putting a timer on a list, for the first time too, does not change what it has to deliver: the
kernel is not asked, so no event is merged. -/
theorem pendingData_listUpdate (hwf : st.reg.Wf) (hx : st.reg.ds ds = some x)
    (htype : x.dsType = .timer) :
    ((st.dispatchTimerListUpdate ds x).del ds).dsPendingData = (st.del ds).dsPendingData := by
  have hmerge : ((st.dispatchKeventMerge ds x (some 0)).del ds).dsPendingData =
      (st.del ds).dsPendingData := by
    cases hinst : x.dsIsInstalled with
    | true => rw [State.merge_installed hinst]
    | false =>
        have hdkev := (hwf.fresh ds x hx hinst).1
        have hwall : (st.reg.merge ds x (.own ds)).2.1 = .timer .wall := by
          have hds := congrArg (fun r : Registry S ↦ r.ds ds) (hwf.merge_timer hx hinst htype)
          simpa [Registry.merge_ds] using hds
        have hfilter : ((st.reg.merge ds x (.own ds)).1.dk (.timer .wall)).filter = .timer := by
          have hkey := ((hwf.merge hx hinst).static (.timer .wall) rfl).2
          exact congrArg Prod.snd hkey
        simp only [State.dispatchKeventMerge, hinst, hdkev]
        split
        · simp [State.registerNew, hwall, State.dispatchKeventResume, State.setFlags, hfilter,
            State.setDel]
        · rfl
  unfold State.dispatchTimerListUpdate
  split
  · rfl
  · simp only
    split
    · split <;> exact hmerge
    · exact hmerge

theorem view_setTimer2 (hI : Inv st) (hx : st.reg.ds ds = some x) {p : SetTimerParams S}
    {before after : List (SetTimerParams S)} (hparams : st.params = before ++ p :: after)
    (hp : p.ds = ds) (hfirst : ∀ q ∈ before, q.ds ≠ ds) :
    ∃ st' x', step host (.setTimer2 before.length) st = some st' ∧ st'.reg.ds ds = some x' ∧
      view st' ds x' = (view st ds x).setTimer2 := by
  subst hp
  obtain ⟨⟨y, hy, htype⟩, -⟩ := hI.params p (by rw [hparams]; simp)
  obtain rfl : x = y := Option.some_inj.mp (hx.symm.trans hy)
  have hget : st.params[before.length]? = some p := by rw [hparams]; simp
  have hassign := hI.assign (i := before.length) (p := p) hx htype
  set y := { x with dsIdentHack := p.ident, dsTimer := p.values, fires := 0 }
  set st₁ : Manager S := { st with
    params := st.params.eraseIdx before.length
    reg := st.reg.setDs p.ds y }
  have hx₁ : st₁.reg.ds p.ds = some y := setDs_ds_self _ _ _
  have hpending := pendingData_listUpdate hassign.wf hx₁ htype
  have hstep : step host (.setTimer2 before.length) st =
      some (st₁.dispatchTimerListUpdate p.ds y) := by
    rw [step, hget, Option.map_some]
    exact congrArg some (setTimer2_eq hx)
  have hnone : before.filter (·.ds = p.ds) = [] :=
    List.filter_eq_nil_iff.mpr fun q hq ↦ by simpa using hfirst q hq
  have hold : st.params.filter (·.ds = p.ds) = p :: after.filter (·.ds = p.ds) := by
    rw [hparams, List.filter_append, hnone, List.filter_cons_of_pos (by simp), List.nil_append]
  have hnew : (st₁.dispatchTimerListUpdate p.ds y).params.filter (·.ds = p.ds) =
      after.filter (·.ds = p.ds) := by
    have herase : st.params.eraseIdx before.length = before ++ after := by
      rw [hparams, List.eraseIdx_append_of_length_le (Nat.le_refl _), Nat.sub_self,
        List.eraseIdx_cons_zero]
    rw [params_listUpdate hassign hx₁ htype]
    change (st.params.eraseIdx before.length).filter _ = _
    rw [herase, List.filter_append, hnone, List.nil_append]
  have hview : ∀ x', x'.dsIdentHack = p.ident → x'.dsTimer = p.values → x'.fires = 0 →
      view (st₁.dispatchTimerListUpdate p.ds y) p.ds x' = (view st p.ds x).setTimer2 := by
    intro x' hident htimer hfires
    simp only [view, setTimer2, hold, hnew, hident, htimer, hfires, hpending, List.map_cons]
    rfl
  cases hdkev : y.dsDkev with
  | none =>
      refine ⟨_, y, hstep, ?_, hview y rfl rfl rfl⟩
      rw [State.listUpdate_released hdkev, hx₁]
  | some dk =>
      have hds := (State.requeued_listUpdate hassign.wf hx₁ htype (by simp [hdkev])).2.1.ds_eq
      exact ⟨_, _, hstep, by rw [hds, Function.update_self], hview _ rfl rfl rfl⟩

omit [DecidableEq S] in
theorem fire_source (x : Source S) {n : NativeTimer} (h : n.dsTimer = x.dsTimer)
    (hfires : n.fires = x.fires) (reading : ℕ) :
    (n.source.fire reading).1.dsTimer = (x.fire reading).1.dsTimer ∧
      (n.source.fire reading).1.fires = (x.fire reading).1.fires ∧
      (n.source.fire reading).2 = (x.fire reading).2 := by
  simp only [Source.fire, source, h, hfires]
  split <;> exact ⟨rfl, rfl, rfl⟩

/-- The timer by itself is due when the manager finds it on the list and due: a timer that is set
and not released is on the list of its clock. -/
theorem due_view_iff (hI : Inv st) (ht : Timely st.reg) (hconf : st.reg.Configured)
    (hx : st.reg.ds ds = some x) (htype : x.dsType = .timer) (hdkev : x.dsDkev ≠ none) (c : Clock)
    (reading : ℕ) : (view st ds x).due c reading = true ↔
      ds ∈ (st.reg.dk (.timer c)).dkSources ∧ st.reg.isDue reading ds = true := by
  have htarget : st.reg.target ds = x.dsTimer.target := by simp [target, hx]
  rw [due, isDue, htarget, decide_eq_true_iff, decide_eq_true_iff]
  constructor
  · rintro ⟨hident, hne, -, hle⟩
    refine ⟨?_, hne, hle⟩
    cases hinst : x.dsIsInstalled with
    | false => exact absurd (ht.fresh ds x trivial hx htype hinst).2 hne
    | true =>
        obtain ⟨dk, hdk⟩ := Option.ne_none_iff_exists'.mp hdkev
        obtain ⟨c', rfl⟩ := hI.wf.dkev_timer hx hinst htype hdk
        have hmem := (hI.wf.listed ds (.timer c')).mpr ⟨x, hx, hinst, hdk⟩
        have hc : c.index = c'.index := hident.trans (ht.clock c' ds x trivial hmem hx).1
        obtain rfl : c = c' := by cases c <;> cases c' <;> first | rfl | cases hc
        exact hmem
  · rintro ⟨hmem, hne, hle⟩
    have hpos := (hconf c ds hmem x hx hne).1
    exact ⟨(ht.clock c ds x trivial hmem hx).1.symm, hne, Nat.pos_iff_ne_zero.mp hpos, hle⟩

theorem view_runTimers (hI : Inv st) (ht : Timely st.reg) (hconf : st.reg.Configured)
    (hx : st.reg.ds ds = some x) (htype : x.dsType = .timer) (hdkev : x.dsDkev ≠ none) (c : Clock)
    {reading : ℕ} (hreading : reading < 2 ^ 63) :
    ∃ turns st' x', step host (.runTimers c reading turns) st = some st' ∧
      st'.reg.ds ds = some x' ∧ view st' ds x' = (view st ds x).runTimers c reading := by
  obtain ⟨st', hrun, hran⟩ := exists_ran (c := c) hI ht hconf hreading
  have hstep : step host (.runTimers c reading _) st = some st' := hrun _ (Nat.lt_succ_self _)
  have hparams : st'.params = st.params := by
    have hP := State.runTimers2_induction (P := fun st₁ ↦ Inv st₁ ∧ st₁.params = st.params)
      (fun _ _ h hs ↦ ⟨h.1.runTimers hs, (params_runTimers h.1 hs).trans h.2⟩) hstep ⟨hI, rfl⟩
    exact hP.2
  have hiff := due_view_iff hI ht hconf hx htype hdkev c reading
  by_cases hdue : (view st ds x).due c reading = true
  · obtain ⟨hmem, hdue'⟩ := hiff.mp hdue
    obtain ⟨hds, hdel⟩ := hran.fired ds x hmem hdue' hx
    obtain ⟨htimer, hfires, hcount⟩ := fire_source x (n := view st ds x) rfl rfl reading
    refine ⟨_, st', _, hstep, hds, ?_⟩
    rw [runTimers, if_pos hdue, htimer, hfires, hcount]
    simp only [view, hparams, hdel, Source.fire_dsIdentHack]
  · obtain ⟨hds, hdel⟩ := hran.unchanged ds fun h ↦ hdue (hiff.mpr h)
    refine ⟨_, st', x, hstep, hds.trans hx, ?_⟩
    rw [runTimers, if_neg hdue]
    simp only [view, hparams, hdel]

end View

end NativeTimer

end LibDispatch.Kevent
