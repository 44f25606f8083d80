import Mathlib.Algebra.Order.Monoid.Unbundled.WithTop
import LibDispatch.Kevent.Invariant

/-!
# The two lists of timers

Each list is ordered by the next fire of its timers; timers that are not set come last.  The
clock that a timer was set for, the list that it is on and `ds_ident_hack` agree, so that
`_dispatch_run_timers2` never finds a timer on the wrong list.
-/

namespace LibDispatch.Kevent

open Interleaving.Sequence (run runs_get)

variable {S : Type*}

def fireKey (target : ℕ) : WithTop ℕ := if target = 0 then ⊤ else target

theorem fireKey_le_top (t : ℕ) : fireKey t ≤ fireKey 0 := le_top

theorem fireKey_lt_iff {t u : ℕ} : fireKey t < fireKey u ↔ t ≠ 0 ∧ (u = 0 ∨ t < u) := by
  have hcast : (t : WithTop ℕ) < u ↔ t < u := WithTop.coe_lt_coe
  unfold fireKey
  split <;> split <;> simp_all

theorem fireKey_le_iff {t u : ℕ} : fireKey t ≤ fireKey u ↔ u = 0 ∨ t ≠ 0 ∧ t ≤ u := by
  have hcast : (t : WithTop ℕ) ≤ u ↔ t ≤ u := WithTop.coe_le_coe
  unfold fireKey
  split <;> split <;> simp_all

namespace Registry

variable {r r' : Registry S} {ds : S} {x x' : Source S} {dk : Dk S} {c : Clock}

def Before (r : Registry S) (a b : S) : Prop := fireKey (r.target a) ≤ fireKey (r.target b)

/-- What holds of the timers with `p`. -/
structure TimelyFor (p : S → Prop) (r : Registry S) : Prop where
  sorted : ∀ c, (r.dk (.timer c)).dkSources.Pairwise fun a b ↦ p a → p b → r.Before a b
  clock : ∀ c ds x, p ds → ds ∈ (r.dk (.timer c)).dkSources → r.ds ds = some x →
    x.dsIdentHack = c.index ∧ (x.dsTimer.target ≠ 0 → clockOf x = c)
  fresh : ∀ ds x, p ds → r.ds ds = some x → x.dsType = .timer → x.dsIsInstalled = false →
    x.dsIdentHack = Clock.wall.index ∧ x.dsTimer.target = 0

abbrev Timely (r : Registry S) : Prop := TimelyFor (fun _ ↦ True) r

variable {p q : S → Prop}

theorem before_congr {a b : S} (ha : r'.ds a = r.ds a) (hb : r'.ds b = r.ds b) :
    r'.Before a b ↔ r.Before a b := by
  simp only [Before, target, ha, hb]

theorem TimelyFor.of_sublist (h : TimelyFor p r) (hqp : ∀ ds, q ds → p ds)
    (hlist : ∀ c, (r'.dk (.timer c)).dkSources.Sublist (r.dk (.timer c)).dkSources)
    (hds : ∀ c, ∀ ds ∈ (r'.dk (.timer c)).dkSources, q ds → r'.ds ds = r.ds ds)
    (hfresh : ∀ ds x, q ds → r'.ds ds = some x → x.dsType = .timer → x.dsIsInstalled = false →
      r.ds ds = some x ∨ x.dsIdentHack = Clock.wall.index ∧ x.dsTimer.target = 0) :
    TimelyFor q r' where
  sorted c := by
    refine ((h.sorted c).sublist (hlist c)).imp_of_mem fun {a b} ha hb hab hqa hqb ↦ ?_
    rw [before_congr (hds c a ha hqa) (hds c b hb hqb)]
    exact hab (hqp a hqa) (hqp b hqb)
  clock c ds x hq hmem hx := by
    rw [hds c ds hmem hq] at hx
    exact h.clock c ds x (hqp ds hq) ((hlist c).subset hmem) hx
  fresh ds x hq hx htype hinst :=
    (hfresh ds x hq hx htype hinst).elim (fun hx ↦ h.fresh ds x (hqp ds hq) hx htype hinst) id

section Update

variable [DecidableEq S]

theorem Timely.setDs (h : Timely r) : TimelyFor (· ≠ ds) (r.setDs ds x) :=
  h.of_sublist (fun _ _ ↦ trivial) (fun _ ↦ .refl _) (fun _ _ _ hne ↦ setDs_ds_of_ne _ hne _)
    fun ds' y hne hy _ _ ↦ .inl (by rwa [setDs_ds_of_ne _ hne] at hy)

omit [DecidableEq S] in
theorem isLater_iff {t : ℕ} : r.isLater t ds ↔ fireKey t < fireKey (r.target ds) := by
  simp [isLater, fireKey_lt_iff]

theorem before_setDs (hds : r'.ds = r.ds) (hx : r.ds ds = some x)
    (htimer : x'.dsTimer = x.dsTimer) :
    (r'.setDs ds x').Before = r.Before := by
  funext a b
  simp only [Before, target_setDs hds hx htimer]

theorem Timely.of_requeued (hwf : Wf r) (h : TimelyFor (· ≠ ds) r) (hx : r.ds ds = some x)
    (hident : x.dsIdentHack = (clockOf x).index) (hr : Requeued r r' ds x) : Timely r' := by
  have htarget : ∀ a, r'.target a = r.target a := by
    intro a
    rcases eq_or_ne a ds with rfl | hne
    · simp [target, hr.ds_eq, hx]
    · simp [target, hr.ds_eq, hne]
  have herase : ∀ c, ∀ a ∈ (r.dk (.timer c)).dkSources.erase ds, a ≠ ds := fun c a ha ↦
    ((hwf.list_nodup _).mem_erase_iff.mp ha).1
  have hsorted : ∀ c, ((r.dk (.timer c)).dkSources.erase ds).Pairwise r.Before := fun c ↦
    ((h.sorted c).sublist List.erase_sublist).imp_of_mem fun {a b} ha hb hab ↦
      hab (herase c a ha) (herase c b hb)
  have hmem : ∀ c a, a ∈ (r'.dk (.timer c)).dkSources → a = ds ∧ c = clockOf x ∨
      a ≠ ds ∧ a ∈ (r.dk (.timer c)).dkSources := by
    intro c a ha
    rw [hr.list_eq] at ha
    have hof : a ∈ (r.dk (.timer c)).dkSources.erase ds →
      a ≠ ds ∧ a ∈ (r.dk (.timer c)).dkSources :=
      fun ha ↦ ⟨herase c a ha, List.mem_of_mem_erase ha⟩
    split at ha
    · rw [(OrderedList.perm_insertBefore _ _ _).mem_iff, List.mem_cons] at ha
      exact ha.imp (⟨·, ‹_›⟩) hof
    · exact .inr (hof ha)
  constructor
  case sorted =>
    intro c
    have hpair : (r'.dk (.timer c)).dkSources.Pairwise r.Before := by
      rw [hr.list_eq]
      split
      · refine OrderedList.pairwise_insertBefore (fun a ↦ fireKey (r.target a)) (fun b _ ↦ ?_)
          (hsorted c)
        have hds : r.target ds = x.dsTimer.target := by simp [target, hx]
        rw [isLater_iff, hds]
      · exact hsorted c
    exact hpair.imp fun {a b} hab _ _ ↦ by simpa only [Before, htarget] using hab
  case clock =>
    intro c a y _ ha hy
    rcases hmem c a ha with ⟨rfl, rfl⟩ | ⟨hne, ha⟩
    · rw [hr.ds_eq, Function.update_self, Option.some_inj] at hy
      subst hy
      exact ⟨hident, fun _ ↦ rfl⟩
    · rw [hr.ds_eq, Function.update_of_ne hne] at hy
      exact h.clock c a y hne ha hy
  case fresh =>
    intro a y _ hy htype hinst
    have hne : a ≠ ds := by
      rintro rfl
      rw [hr.ds_eq, Function.update_self, Option.some_inj] at hy
      subst hy
      cases hinst
    rw [hr.ds_eq, Function.update_of_ne hne] at hy
    exact h.fresh a y hne hy htype hinst

theorem Timely.merge_timer (hwf : Wf r) (h : Timely r) (hx : r.ds ds = some x)
    (hinst : x.dsIsInstalled = false) (htype : x.dsType = .timer) :
    Timely (r.merge ds x (.own ds)).1 := by
  obtain ⟨hident, hzero⟩ := h.fresh ds x trivial hx htype hinst
  rw [hwf.merge_timer hx hinst htype]
  constructor
  case sorted =>
    intro c
    rw [before_setDs (setDk_ds _ _ _) hx (by rfl), setDs_dk]
    cases c with
    | wall =>
        rw [setDk_dk_self, List.pairwise_append]
        refine ⟨h.sorted .wall, List.pairwise_singleton _ _, fun a _ b hb _ _ ↦ ?_⟩
        rw [List.mem_singleton] at hb
        have hb0 : r.target b = 0 := by simp [target, hb, hx, hzero]
        rw [Before, hb0]
        exact fireKey_le_top _
    | mach => exact h.sorted .mach
  case clock =>
    intro c a y _ ha hy
    rcases eq_or_ne a ds with rfl | hne
    · rw [setDs_ds_self, Option.some_inj] at hy
      subst hy
      cases c with
      | wall => exact ⟨hident, fun hne ↦ absurd hzero hne⟩
      | mach =>
          rw [setDs_dk, setDk_dk_of_ne _ (by simp)] at ha
          exact absurd ha (hwf.notMem_of_fresh hx hinst _)
    · rw [setDs_ds_of_ne _ hne] at hy
      refine h.clock c a y trivial ?_ hy
      cases c with
      | wall => simpa [hne] using ha
      | mach => simpa using ha
  case fresh =>
    intro a y _ hy hty hyi
    have hne : a ≠ ds := by
      rintro rfl
      rw [setDs_ds_self, Option.some_inj] at hy
      subst hy
      cases hyi
    rw [setDs_ds_of_ne _ hne] at hy
    exact h.fresh a y trivial hy hty hyi

theorem merge_list_of_ne (hwf : Wf r) (hx : r.ds ds = some x) (hinst : x.dsIsInstalled = false)
    (htype : x.dsType ≠ .timer) (c : Clock) :
    ((r.merge ds x (.own ds)).1.dk (.timer c)).dkSources = (r.dk (.timer c)).dkSources := by
  unfold Registry.merge
  split
  · rename_i d hd
    have hfind := (find_eq r (r.key (.own ds))).symm.trans hd
    obtain ⟨-, hkey⟩ := hwf.table.find_eq_some.mp hfind
    have hne : Dk.timer c ≠ d := by
      rintro rfl
      have hfilter : (r.dk (.timer c)).filter = (r.dk (.own ds)).filter := (Prod.ext_iff.mp hkey).2
      rw [hwf.filter_static rfl, (hwf.fresh ds x hx hinst).2.1.filter_eq] at hfilter
      cases hty : x.dsType <;> rw [hty] at hfilter <;> first | exact htype hty | cases hfilter
    rw [attach, setDs_dk, setDk_dk_of_ne _ hne, setDk_dk_of_ne _ hne]
  · rw [attach, setDs_dk, setDk_dk_of_ne _ (by simp)]
    rfl

theorem Timely.merge (hwf : Wf r) (h : Timely r) (hx : r.ds ds = some x)
    (hinst : x.dsIsInstalled = false) : Timely (r.merge ds x (.own ds)).1 := by
  by_cases htype : x.dsType = .timer
  · exact h.merge_timer hwf hx hinst htype
  · have hlist := merge_list_of_ne hwf hx hinst htype
    refine h.of_sublist (fun _ _ ↦ trivial) (fun c ↦ by rw [hlist]) (fun c a ha _ ↦ ?_)
      fun a y _ hy hty hyi ↦ .inl ?_
    · rw [hlist] at ha
      have hne : a ≠ ds := by
        rintro rfl
        exact hwf.notMem_of_fresh hx hinst _ ha
      rw [merge_ds, Function.update_of_ne hne]
    · rw [merge_ds] at hy
      have hne : a ≠ ds := by
        rintro rfl
        rw [Function.update_self, Option.some_inj] at hy
        subst hy
        cases hyi
      rwa [Function.update_of_ne hne] at hy

theorem Timely.release (hwf : Wf r) (h : Timely r) (hx : r.ds ds = some x) (hinst : x.dsIsInstalled)
    (hdk : x.dsDkev = some dk) : Timely (r.release ds x dk) := by
  have hds : ∀ c, ∀ a ∈ ((r.release ds x dk).dk (.timer c)).dkSources, a ≠ ds := by
    rintro c a ha rfl
    obtain ⟨y, hy, -, hyd⟩ := ((hwf.release hx hinst hdk).listed a _).mp ha
    rw [release_ds, Function.update_self, Option.some_inj] at hy
    subst hy
    cases hyd
  refine h.of_sublist (fun _ _ ↦ trivial) (fun c ↦ ?_) (fun c a ha _ ↦ ?_)
    fun a y _ hy _ hyi ↦ .inl ?_
  · have hdetach : ((r.detach ds x dk).dk (.timer c)).dkSources.Sublist
        (r.dk (.timer c)).dkSources := by
      rw [detach, setDs_dk]
      rcases eq_or_ne (Dk.timer c) dk with rfl | hne
      · rw [setDk_dk_self]
        exact List.erase_sublist
      · rw [setDk_dk_of_ne _ hne]
    simp only [Registry.release]
    split
    · split <;> exact hdetach
    · split
      · rcases eq_or_ne (Dk.timer c) dk with rfl | hne
        · rw [setDk_dk_self]
          exact hdetach
        · rw [setDk_dk_of_ne _ hne]
          exact hdetach
      · exact hdetach
  · rw [release_ds, Function.update_of_ne (hds c a ha)]
  · rw [release_ds] at hy
    have hne : a ≠ ds := by
      rintro rfl
      rw [Function.update_self, Option.some_inj] at hy
      subst hy
      rw [hinst] at hyi
      cases hyi
    rwa [Function.update_of_ne hne] at hy

theorem Timely.create (hwf : Wf r) (h : Timely r) (hnone : r.ds ds = none) {k : Dkevent S}
    (hx : x.dsType = .timer → x.dsIdentHack = Clock.wall.index ∧ x.dsTimer.target = 0) :
    Timely ((r.setDk (.own ds) k).setDs ds x) := by
  refine h.of_sublist (fun _ _ ↦ trivial) (fun c ↦ ?_) (fun c a ha _ ↦ ?_) fun a y _ hy htype _ ↦ ?_
  · rw [setDs_dk, setDk_dk_of_ne _ (by simp)]
  · rw [setDs_dk, setDk_dk_of_ne _ (by simp)] at ha
    have hne : a ≠ ds := by
      rintro rfl
      obtain ⟨y, hy, -⟩ := (hwf.listed a _).mp ha
      rw [hnone] at hy
      cases hy
    rw [setDs_ds_of_ne _ hne, setDk_ds]
  · rcases eq_or_ne a ds with rfl | hne
    · rw [setDs_ds_self, Option.some_inj] at hy
      subst hy
      exact .inr (hx htype)
    · rw [setDs_ds_of_ne _ hne] at hy
      exact .inl hy

end Update

theorem Timely.of_released (hwf : Wf r) (h : TimelyFor (· ≠ ds) r) (hx : r.ds ds = some x)
    (hdkev : x.dsDkev = none) : Timely r := by
  have hne : ∀ c, ∀ a ∈ (r.dk (.timer c)).dkSources, a ≠ ds := by
    rintro c a ha rfl
    obtain ⟨y, hy, -, hyd⟩ := (hwf.listed a _).mp ha
    rw [hx, Option.some_inj] at hy
    rw [← hy, hdkev] at hyd
    cases hyd
  constructor
  case sorted =>
    intro c
    exact (h.sorted c).imp_of_mem fun {a b} ha hb hab _ _ ↦ hab (hne c a ha) (hne c b hb)
  case clock => exact fun c a y _ ha hy ↦ h.clock c a y (hne c a ha) ha hy
  case fresh =>
    intro a y _ hy htype hyi
    refine h.fresh a y ?_ hy htype hyi
    rintro rfl
    rw [hx, Option.some_inj] at hy
    rw [← hy] at hyi
    rw [(hwf.fresh a x hx hyi).1] at hdkev
    cases hdkev

theorem exists_split {l : List S} (h : l.Pairwise r.Before) :
    ∃ l₁ l₂, l = l₁ ++ l₂ ∧ (∀ ds ∈ l₁, r.target ds ≠ 0) ∧
      l₁.Pairwise (fun a b ↦ r.target a ≤ r.target b) ∧ ∀ ds ∈ l₂, r.target ds = 0 := by
  induction l with
  | nil => exact ⟨[], [], rfl, by simp, .nil, by simp⟩
  | cons a l ih =>
      rw [List.pairwise_cons] at h
      obtain ⟨l₁, l₂, rfl, hset, hsorted, hunset⟩ := ih h.2
      by_cases ha : r.target a = 0
      · refine ⟨[], a :: (l₁ ++ l₂), rfl, by simp, .nil, fun b hb ↦ ?_⟩
        rcases List.mem_cons.mp hb with rfl | hb
        · exact ha
        · exact (fireKey_le_iff.mp (h.1 b hb)).resolve_right fun hne ↦ hne.1 ha
      · refine ⟨a :: l₁, l₂, rfl, ?_, List.pairwise_cons.mpr ⟨fun b hb ↦ ?_, hsorted⟩, hunset⟩
        · rintro b hb
          rcases List.mem_cons.mp hb with rfl | hb
          · exact ha
          · exact hset b hb
        · exact ((fireKey_le_iff.mp (h.1 b (List.mem_append_left l₂ hb))).resolve_left
            (hset b hb)).2

end Registry

/-! ## Runs -/

section Runs

open Registry

variable [DecidableEq S] {host : Host} {st st' : Manager S} {a : Act S} {ds : S} {x : Source S}

theorem Inv.timely_listUpdate (hI : Inv st) (h : TimelyFor (· ≠ ds) st.reg)
    (hx : st.reg.ds ds = some x) (htype : x.dsType = .timer)
    (hident : x.dsIdentHack = (clockOf x).index) :
    Timely (st.dispatchTimerListUpdate ds x).reg := by
  cases hdkev : x.dsDkev with
  | none =>
      rw [State.listUpdate_released hdkev]
      exact .of_released hI.wf h hx hdkev
  | some dk =>
      obtain ⟨-, hreq, -⟩ := State.requeued_listUpdate hI.wf hx htype (by simp [hdkev])
      exact .of_requeued hI.wf h hx hident hreq

theorem Inv.timely_runTimers (hI : Inv st) (h : Timely st.reg) {c : Clock} {now : ℕ}
    (hs : st.runTimers c now = some st') : Timely st'.reg := by
  obtain ⟨ds, x, hhead, hx, hor⟩ := State.runTimers_eq_some hs
  have hmem := List.mem_of_mem_head? hhead
  obtain ⟨y, hy, htype, -, -⟩ := hI.wf.mem_timer hmem
  rw [hx, Option.some_inj] at hy
  subst hy
  obtain ⟨hident, hclock⟩ := h.clock c ds x trivial hmem hx
  rcases hor with ⟨hne, -⟩ | ⟨-, htarget, -, -, rfl⟩
  · exact absurd hident.symm hne
  · refine (hI.fireTimer hx).timely_listUpdate h.setDs (setDs_ds_self _ _ _)
      (by simpa using htype) ?_
    have hclock' : clockOf (x.fire now).1 = clockOf x := by
      unfold Source.fire
      split <;> rfl
    rw [hclock', hclock htarget, Source.fire_dsIdentHack, hident]

theorem Trans.timely (ht : Trans host st a st') (hI : Inv st) (h : Timely st.reg) :
    Timely st'.reg := by
  cases ht
  case create ds ty handle mask hok hnone =>
    refine h.create hI.wf hnone fun htype ↦ ⟨handle_of_handleOk hok ?_, rfl⟩
    rw [show ty = .timer from htype]
    rfl
  case install ds x answer hx hinst =>
    rw [(st.quiet_merge ds answer hinst
      (hI.wf.fresh ds x hx hinst).1).1]
    exact h.merge hI.wf hx hinst
  case uninstall ds x dk answer hx hinst _ hdk =>
    rw [(st.quiet_release ds x dk answer).1]
    exact h.release hI.wf hx hinst hdk
  case rearm ds x dk answer hx _ _ _ _ =>
    have hreg := (st.quiet_dispatchKeventResume dk answer).1
    exact hreg ▸ h
  case callout ds x hx hinst hdk =>
    exact .of_released (hI.wf.setDs hx rfl rfl rfl (fun _ ↦ rfl) (.inr ⟨hinst, hdk⟩)) h.setDs
      (setDs_ds_self _ _ _) hdk
  case setTimer2 i p hp =>
    obtain ⟨⟨x, hx, htype⟩, hident⟩ := hI.params p (List.mem_of_getElem? hp)
    rw [setTimer2_eq (by exact hx)]
    exact (hI.assign hx htype).timely_listUpdate h.setDs (setDs_ds_self _ _ _) htype hident
  case runTimers c now n hs =>
    have hP := State.runTimers2_induction (P := fun st ↦ Inv st ∧ Timely st.reg)
      (fun _ _ h hs ↦ ⟨h.1.runTimers hs, h.1.timely_runTimers h.2 hs⟩) hs ⟨hI, h⟩
    exact hP.2
  all_goals exact h

theorem timely_of_run {C : Manager S → Act S → Prop} (h : Runs host C st) : Timely st.reg := by
  induction h with
  | refl =>
      refine ⟨fun c ↦ .nil, fun c ds x _ hmem ↦ ?_, fun ds x _ hx ↦ by cases hx⟩
      cases hmem
  | tail hrun hstep ih =>
      obtain ⟨a, -, hs⟩ := hstep
      exact (trans_of_step hs).timely (inv_of_run hrun) ih

/-- The lists of timers represent what they should: timers that are set come first, in the
order of their targets; every timer that is installed and not released is on exactly one list,
the one that `ds_dkev` points to; a timer that is set is on the list of its clock; and
`ds_ident_hack` is the index of the list, so that no timer is ever on the wrong one. -/
theorem timer_lists (h : Runs host (fun _ _ ↦ True) st) :
    (∀ c, ∃ l₁ l₂, (st.reg.dk (.timer c)).dkSources = l₁ ++ l₂ ∧
      (∀ ds ∈ l₁, st.reg.target ds ≠ 0) ∧
      l₁.Pairwise (fun a b ↦ st.reg.target a ≤ st.reg.target b) ∧
      ∀ ds ∈ l₂, st.reg.target ds = 0) ∧
    (∀ ds x, st.reg.ds ds = some x → x.dsType = .timer → x.dsIsInstalled → x.dsDkev ≠ none →
      ∃ c, x.dsDkev = some (.timer c) ∧ (st.reg.dk (.timer c)).dkSources.count ds = 1 ∧
        (∀ c', c' ≠ c → ds ∉ (st.reg.dk (.timer c')).dkSources) ∧
        (x.dsTimer.target ≠ 0 →
          c = (if x.dsTimer.wallClock then .wall else .mach) ∧ x.dsIdentHack = c.index)) ∧
    (∀ c ds x, ds ∈ (st.reg.dk (.timer c)).dkSources → st.reg.ds ds = some x →
      c.index = x.dsIdentHack) := by
  have hwf := (inv_of_run h).wf
  have ht := timely_of_run h
  refine ⟨fun c ↦ exists_split ((ht.sorted c).imp fun {a b} hab ↦ hab trivial trivial),
    fun ds x hx htype hinst hdkev ↦ ?_,
    fun c ds x hmem hx ↦ (ht.clock c ds x trivial hmem hx).1.symm⟩
  obtain ⟨dk, hdk⟩ := Option.ne_none_iff_exists'.mp hdkev
  obtain ⟨c, rfl⟩ := hwf.dkev_timer hx hinst htype hdk
  have hmem : ds ∈ (st.reg.dk (.timer c)).dkSources := (hwf.listed ds _).mpr ⟨x, hx, hinst, hdk⟩
  obtain ⟨hident, hclock⟩ := ht.clock c ds x trivial hmem hx
  exact ⟨c, hdk, List.count_eq_one_of_mem (hwf.list_nodup _) hmem,
    fun c' hne ↦ hwf.notMem_of_ne hx hdk (by simpa using hne),
    fun htarget ↦ ⟨(hclock htarget).symm, hident⟩⟩

end Runs

/-- Three timers: one set for the wall clock, one that has moved to the monotonic clock and has
fired there, one that was never set. -/
def timerState : Manager (Fin 3) :=
  (run (step plainHost) (fun _ _ ↦ True) initial
    [.create 0 .timer 0 0, .create 1 .timer 0 1, .create 2 .timer 0 0, .invoke 1 (some 0),
      .invoke 2 (some 0), .setTimer 0 (-7) 5 0 0, .setTimer 1 4 5 0 0, .setTimer2 1, .setTimer2 0,
      .runTimers .mach 9 2]).get (by decide)

theorem timer_lists_moved :
    (timerState.reg.dk (.timer .wall)).dkSources = [0, 2] ∧
      (timerState.reg.dk (.timer .mach)).dkSources = [1] ∧ timerState.reg.target 0 = 7 ∧
      ∃ l₁ l₂, (timerState.reg.dk (.timer .wall)).dkSources = l₁ ++ l₂ ∧
        (∀ ds ∈ l₁, timerState.reg.target ds ≠ 0) ∧
        l₁.Pairwise (fun a b ↦ timerState.reg.target a ≤ timerState.reg.target b) ∧
        ∀ ds ∈ l₂, timerState.reg.target ds = 0 :=
  ⟨by decide, by decide, by decide, (timer_lists (runs_get _)).1 .wall⟩

end LibDispatch.Kevent
