import LibDispatch.Kevent.Timers

/-!
# Running the timers

A call of `_dispatch_run_timers2` fires every timer of the list that is due, each once, and
leaves the others alone.  A periodic timer is moved to the first multiple of its interval after
the reading of the clock, and the intervals that it has skipped are counted.
-/

namespace LibDispatch.Kevent

open Interleaving.Sequence (run runs_get)

variable {S : Type*}

/-! ## One timer -/

/-- The interval of a timer that is set is in the range that `dispatch_source_set_timer`
leaves. -/
def Timer.InRange (x : Timer) : Prop := 1 ≤ x.interval ∧ x.interval < 2 ^ 63

instance (x : Timer) : Decidable x.InRange := inferInstanceAs (Decidable (_ ∧ _))

section Fire

variable {x : Source S} {now : ℕ}

theorem wrap_of_lt {n : ℕ} (h : n < 2 ^ 64) : wrap n = n := Nat.mod_eq_of_lt h

theorem Source.fire_periodic (hperiodic : x.dsTimer.oneshot = false) (hrange : x.dsTimer.InRange)
    (hdue : x.dsTimer.target ≤ now) (hnow : now < 2 ^ 63) :
    ∃ n, (x.fire now).2 = n ∧ (x.fire now).1.fires = x.fires + n ∧
      (x.fire now).1.dsTimer =
        { x.dsTimer with target := x.dsTimer.target + n * x.dsTimer.interval } ∧
      now < x.dsTimer.target + n * x.dsTimer.interval ∧
      x.dsTimer.target + n * x.dsTimer.interval ≤ now + x.dsTimer.interval := by
  obtain ⟨hpos, hlt⟩ := hrange
  have hle := Nat.div_mul_le_self (now - x.dsTimer.target) x.dsTimer.interval
  have hgt := Nat.lt_div_mul_add (a := now - x.dsTimer.target) hpos
  have hmissed := Nat.div_le_self (now - x.dsTimer.target) x.dsTimer.interval
  have hmul : ((now - x.dsTimer.target) / x.dsTimer.interval + 1) * x.dsTimer.interval =
      (now - x.dsTimer.target) / x.dsTimer.interval * x.dsTimer.interval + x.dsTimer.interval :=
    Nat.succ_mul _ _
  have hn : wrap ((now - x.dsTimer.target) / x.dsTimer.interval + 1) =
      (now - x.dsTimer.target) / x.dsTimer.interval + 1 := wrap_of_lt (by omega)
  refine ⟨(now - x.dsTimer.target) / x.dsTimer.interval + 1, ?_, ?_, ?_, by omega, by omega⟩
  · simp [fire, hperiodic, hn]
  · simp [fire, hperiodic, hn]
  · have hprod : wrap (((now - x.dsTimer.target) / x.dsTimer.interval + 1) * x.dsTimer.interval) =
        ((now - x.dsTimer.target) / x.dsTimer.interval + 1) * x.dsTimer.interval :=
      wrap_of_lt (by omega)
    simp only [fire, hperiodic, hn, hprod, Bool.false_eq_true, if_false]
    rw [wrap_of_lt (by omega)]

theorem Source.fire_oneshot (honce : x.dsTimer.oneshot) :
    x.fire now = ({ x with dsTimer.target := 0, fires := x.fires + 1 }, 1) := by
  simp [fire, honce]

theorem Source.fire_not_due (hrange : x.dsTimer.InRange) (hdue : x.dsTimer.target ≤ now)
    (hnow : now < 2 ^ 63) :
    (x.fire now).1.dsTimer.target = 0 ∨ now < (x.fire now).1.dsTimer.target := by
  cases hone : x.dsTimer.oneshot with
  | true => exact .inl (by rw [fire_oneshot hone])
  | false =>
      obtain ⟨n, -, -, htimer, hlt, -⟩ := fire_periodic hone hrange hdue hnow
      exact .inr (by rw [htimer]; exact hlt)

@[simp] theorem Source.fire_interval (x : Source S) (now : ℕ) :
    (x.fire now).1.dsTimer.interval = x.dsTimer.interval := by
  unfold fire
  split <;> rfl

end Fire

/-! ## One turn of the loop -/

def Registry.isDue (r : Registry S) (now : ℕ) (ds : S) : Bool :=
  r.target ds ≠ 0 ∧ r.target ds ≤ now

/-- All timers on the lists that are set have an interval in range. -/
def Registry.Configured (r : Registry S) : Prop :=
  ∀ c, ∀ ds ∈ (r.dk (.timer c)).dkSources, ∀ x, r.ds ds = some x → x.dsTimer.target ≠ 0 →
    x.dsTimer.InRange

instance (r : Registry S) : Decidable r.Configured :=
  decidable_of_iff
    (∀ c ∈ [Clock.wall, Clock.mach], ∀ ds ∈ (r.dk (.timer c)).dkSources,
      (r.ds ds).all fun x ↦ x.dsTimer.target ≠ 0 → x.dsTimer.InRange) <| by
    constructor
    · intro h c ds hds x hx
      have hall := h c (by cases c <;> simp) ds hds
      simpa [hx, or_iff_not_imp_left] using hall
    · intro h c _ ds hds
      cases hx : r.ds ds with
      | none => rfl
      | some x => simpa [or_iff_not_imp_left] using h c ds hds x hx

section Turn

open Registry

variable [DecidableEq S] {st st' : Manager S} {c : Clock} {now : ℕ} {ds : S} {x : Source S}

/-- The timer `ds` has fired, and nothing else has happened. -/
structure Fired (c : Clock) (now : ℕ) (ds : S) (x : Source S) (st st' : Manager S) : Prop where
  ds_eq : st'.reg.ds = Function.update st.reg.ds ds (some (x.fire now).1)
  del_eq : st'.del = Function.update st.del ds
    { st.del ds with dsPendingData := wrap ((st.del ds).dsPendingData + (x.fire now).2) }
  list_perm : ∀ c', (st'.reg.dk (.timer c')).dkSources.Perm (st.reg.dk (.timer c')).dkSources

theorem fired_of_turn (now : ℕ) (hI : Inv st) (ht : Timely st.reg) (hx : st.reg.ds ds = some x)
    (hmem : ds ∈ (st.reg.dk (.timer c)).dkSources) (htarget : x.dsTimer.target ≠ 0) :
    Fired c now ds x st ((st.fireTimer ds x now).dispatchTimerListUpdate ds (x.fire now).1) := by
  obtain ⟨y, hy, htype, hinst, hdk⟩ := hI.wf.mem_timer hmem
  rw [hx, Option.some_inj] at hy
  subst hy
  have hx₁ : (st.fireTimer ds x now).reg.ds ds = some (x.fire now).1 := setDs_ds_self _ _ _
  have hinst₁ : (x.fire now).1.dsIsInstalled := by simpa using hinst
  have hdk₁ : (x.fire now).1.dsDkev = some (.timer c) := by simpa using hdk
  have hclock : clockOf (x.fire now).1 = c := by
    rw [← (ht.clock c ds x trivial hmem hx).2 htarget]
    unfold Source.fire
    split <;> rfl
  have heq : (st.fireTimer ds x now).dispatchTimerListUpdate ds (x.fire now).1 =
      { st.fireTimer ds x now with
        reg := (st.fireTimer ds x now).reg.requeueTimer ds (x.fire now).1 (.timer c) } := by
    simp only [State.dispatchTimerListUpdate, hdk₁, State.merge_installed hinst₁, hx₁]
  have hr := (hI.fireTimer hx).wf.requeued hx₁ hinst₁ hdk₁
  have hself : ({ (x.fire now).1 with
      dsIsInstalled := true, dsDkev := some (.timer (clockOf (x.fire now).1)) } : Source S) =
      (x.fire now).1 := by
    rw [hclock, ← hinst₁, ← hdk₁]
  rw [heq]
  constructor
  case ds_eq => rw [hr.ds_eq, hself]; exact Function.update_idem _ _ _
  case del_eq => rfl
  case list_perm =>
    intro c'
    rw [hr.list_eq]
    split
    · rename_i hc
      obtain rfl : c' = c := hc.trans hclock
      exact (OrderedList.perm_insertBefore _ _ _).trans (List.perm_cons_erase hmem).symm
    · rename_i hc
      rw [hclock] at hc
      rw [List.erase_of_not_mem]
      · exact .refl _
      · exact hI.wf.notMem_of_ne hx hdk (by simpa using hc)

theorem runTimers_eq (now : ℕ) (ht : Timely st.reg) (hconf : st.reg.Configured)
    {l : List S} (hl : (st.reg.dk (.timer c)).dkSources = ds :: l) (hx : st.reg.ds ds = some x) :
    st.runTimers c now = if st.reg.isDue now ds then
      some ((st.fireTimer ds x now).dispatchTimerListUpdate ds (x.fire now).1) else none := by
  have hmem : ds ∈ (st.reg.dk (.timer c)).dkSources := by simp [hl]
  have hident := (ht.clock c ds x trivial hmem hx).1
  have htarget : st.reg.target ds = x.dsTimer.target := by simp [target, hx]
  simp only [State.runTimers, hl, List.head?_cons, hx, hident, ne_eq, not_true_eq_false, if_false]
  by_cases hzero : x.dsTimer.target = 0
  · simp [isDue, htarget, hzero]
  · have hint : x.dsTimer.interval ≠ 0 := by
      have := (hconf c ds hmem x hx hzero).1
      omega
    by_cases hnow : now < x.dsTimer.target
    · have hle : ¬ x.dsTimer.target ≤ now := by omega
      simp [isDue, htarget, hzero, hint, hnow]
    · have hle : x.dsTimer.target ≤ now := by omega
      simp [isDue, htarget, hzero, hint, hnow, hle]

/-! ## The loop -/

omit [DecidableEq S] in
theorem not_isDue_of_before {r : Registry S} {a b : S} (hab : r.Before a b)
    (ha : r.isDue now a = false) : r.isDue now b = false := by
  simp only [isDue, decide_eq_false_iff_not, not_and, Nat.not_le] at ha ⊢
  intro hb
  obtain ⟨ha', hle⟩ := (fireKey_le_iff.mp hab).resolve_left hb
  exact (ha ha').trans_le hle

structure Ran (c : Clock) (now : ℕ) (st st' : Manager S) : Prop where
  fired : ∀ ds x, ds ∈ (st.reg.dk (.timer c)).dkSources → st.reg.isDue now ds →
    st.reg.ds ds = some x → st'.reg.ds ds = some (x.fire now).1 ∧
      st'.del ds =
        { st.del ds with dsPendingData := wrap ((st.del ds).dsPendingData + (x.fire now).2) }
  unchanged : ∀ ds, ¬ (ds ∈ (st.reg.dk (.timer c)).dkSources ∧ st.reg.isDue now ds) →
    st'.reg.ds ds = st.reg.ds ds ∧ st'.del ds = st.del ds
  none_due : ∀ ds ∈ (st'.reg.dk (.timer c)).dkSources, st'.reg.isDue now ds = false

omit [DecidableEq S] in
theorem Ran.refl (h : ∀ ds ∈ (st.reg.dk (.timer c)).dkSources, st.reg.isDue now ds = false) :
    Ran c now st st where
  fired ds x hmem hdue := by
    rw [h ds hmem] at hdue
    cases hdue
  unchanged _ _ := ⟨rfl, rfl⟩
  none_due := h

theorem Fired.isDue_of_ne {st₁ : Manager S} (hf : Fired c now ds x st st₁) {a : S} (hne : a ≠ ds) :
    st₁.reg.isDue now a = st.reg.isDue now a := by
  have htarget : st₁.reg.target a = st.reg.target a := by
    simp only [target, hf.ds_eq, Function.update_of_ne hne]
  simp only [isDue, htarget]

theorem Ran.of_fired {st₁ : Manager S} (hf : Fired c now ds x st st₁) (hx : st.reg.ds ds = some x)
    (hmem : ds ∈ (st.reg.dk (.timer c)).dkSources) (hdue : st.reg.isDue now ds)
    (hdue₁ : st₁.reg.isDue now ds = false) (hr : Ran c now st₁ st') : Ran c now st st' where
  fired a y ha hda hy := by
    rcases eq_or_ne a ds with rfl | hne
    · obtain ⟨hds, hdel⟩ := hr.unchanged a fun h ↦ by rw [hdue₁] at h; cases h.2
      rw [hx, Option.some_inj] at hy
      rw [hds, hdel, hf.ds_eq, hf.del_eq, Function.update_self, Function.update_self, hy]
      exact ⟨rfl, rfl⟩
    · have hdel : st₁.del a = st.del a := by rw [hf.del_eq, Function.update_of_ne hne]
      rw [← hdel]
      refine hr.fired a y ((hf.list_perm c).mem_iff.mpr ha) ?_ ?_
      · rwa [hf.isDue_of_ne hne]
      · rwa [hf.ds_eq, Function.update_of_ne hne]
  unchanged a ha := by
    have hne : a ≠ ds := by
      rintro rfl
      exact ha ⟨hmem, hdue⟩
    rw [← hf.isDue_of_ne hne, ← (hf.list_perm c).mem_iff] at ha
    obtain ⟨hds, hdel⟩ := hr.unchanged a ha
    rw [hds, hdel, hf.ds_eq, hf.del_eq, Function.update_of_ne hne, Function.update_of_ne hne]
    exact ⟨rfl, rfl⟩
  none_due := hr.none_due

theorem runTimers_eq_none (hI : Inv st) (ht : Timely st.reg) (hconf : st.reg.Configured)
    (hnone : ∀ a ∈ (st.reg.dk (.timer c)).dkSources, st.reg.isDue now a = false) :
    st.runTimers c now = none := by
  cases hl : (st.reg.dk (.timer c)).dkSources with
  | nil => simp [State.runTimers, hl]
  | cons ds l =>
      have hmem : ds ∈ (st.reg.dk (.timer c)).dkSources := by simp [hl]
      obtain ⟨x, hx, -⟩ := hI.wf.mem_timer hmem
      rw [runTimers_eq now ht hconf hl hx, hnone ds hmem]
      rfl

theorem Fired.configured {st₁ : Manager S} (hf : Fired c now ds x st st₁)
    (hx : st.reg.ds ds = some x)
    (htarget : x.dsTimer.target ≠ 0) (hconf : st.reg.Configured) : st₁.reg.Configured := by
  intro c' a ha y hy hne
  rw [(hf.list_perm c').mem_iff] at ha
  rcases eq_or_ne a ds with rfl | hads
  · rw [hf.ds_eq, Function.update_self, Option.some_inj] at hy
    subst hy
    simpa [Timer.InRange] using hconf c' a ha x hx htarget
  · rw [hf.ds_eq, Function.update_of_ne hads] at hy
    exact hconf c' a ha y hy hne

theorem Fired.countP_isDue {st₁ : Manager S} (hf : Fired c now ds x st st₁) {l : List S}
    (hl : (st.reg.dk (.timer c)).dkSources = ds :: l) (hnot : ds ∉ l) (hdue : st.reg.isDue now ds)
    (hdue₁ : st₁.reg.isDue now ds = false) :
    (st.reg.dk (.timer c)).dkSources.countP (st.reg.isDue now) =
      (st₁.reg.dk (.timer c)).dkSources.countP (st₁.reg.isDue now) + 1 := by
  have hcongr : l.countP (st₁.reg.isDue now) = l.countP (st.reg.isDue now) := by
    refine List.countP_congr fun a ha ↦ ?_
    rw [hf.isDue_of_ne (ne_of_mem_of_not_mem ha hnot)]
  rw [(hf.list_perm c).countP_eq, hl, List.countP_cons_of_pos hdue,
    List.countP_cons_of_neg (by simp [hdue₁]), hcongr]

theorem exists_ran (hI : Inv st) (ht : Timely st.reg) (hconf : st.reg.Configured)
    (hnow : now < 2 ^ 63) :
    ∃ st', (∀ n, (st.reg.dk (.timer c)).dkSources.countP (st.reg.isDue now) < n →
      State.dispatchRunTimers2 c now n st = some st') ∧ Ran c now st st' := by
  generalize hm : (st.reg.dk (.timer c)).dkSources.countP (st.reg.isDue now) = m
  induction m generalizing st with
  | zero =>
      have hnone : ∀ a ∈ (st.reg.dk (.timer c)).dkSources, st.reg.isDue now a = false :=
        fun a ha ↦ by
        simpa using List.countP_eq_zero.mp hm a ha
      refine ⟨st, fun n hn ↦ ?_, .refl hnone⟩
      obtain ⟨k, rfl⟩ := Nat.exists_eq_add_of_lt hn
      simp [State.dispatchRunTimers2, runTimers_eq_none hI ht hconf hnone]
  | succ m ih =>
      cases hl : (st.reg.dk (.timer c)).dkSources with
      | nil => simp [hl] at hm
      | cons ds l =>
          have hmem : ds ∈ (st.reg.dk (.timer c)).dkSources := by simp [hl]
          have hnot : ds ∉ l := (List.nodup_cons.mp (hl ▸ hI.wf.list_nodup _)).1
          have hdue : st.reg.isDue now ds := by
            -- the list is ordered, so if its first timer is not due, none is
            by_contra hdue
            rw [Bool.not_eq_true] at hdue
            have hsorted := List.pairwise_cons.mp (hl ▸ ht.sorted c)
            have hzero : (ds :: l).countP (st.reg.isDue now) = 0 := by
              refine List.countP_eq_zero.mpr fun a ha ↦ ?_
              rcases List.mem_cons.mp ha with rfl | ha
              · simp [hdue]
              · simp [not_isDue_of_before (hsorted.1 a ha trivial trivial) hdue]
            rw [hl, hzero] at hm
            cases hm
          obtain ⟨x, hx, -⟩ := hI.wf.mem_timer hmem
          have htarget : x.dsTimer.target ≠ 0 ∧ x.dsTimer.target ≤ now := by
            simpa [isDue, target, hx] using hdue
          have hturn := runTimers_eq now ht hconf hl hx
          rw [if_pos hdue] at hturn
          have hf := fired_of_turn now hI ht hx hmem htarget.1
          have hdue₁ :
              ((st.fireTimer ds x now).dispatchTimerListUpdate ds (x.fire now).1).reg.isDue now
              ds = false := by
            have := Source.fire_not_due (hconf c ds hmem x hx htarget.1) htarget.2 hnow
            simp only [isDue, target, hf.ds_eq, Function.update_self, Option.map_some,
              Option.getD_some]
            simp
            omega
          have hcount := hf.countP_isDue hl hnot hdue hdue₁
          obtain ⟨st', hrun, hran⟩ := ih (hI.runTimers hturn) (hI.timely_runTimers ht hturn)
            (hf.configured hx htarget.1 hconf) (by omega)
          refine ⟨st', fun n hn ↦ ?_, hran.of_fired hf hx hmem hdue hdue₁⟩
          obtain ⟨k, rfl⟩ := Nat.exists_eq_add_of_lt hn
          have hk := hrun (m + 1 + k) (by omega)
          simpa [State.dispatchRunTimers2, hturn] using hk

end Turn

/-! ## The schedule -/

section Schedule

open Registry

variable [DecidableEq S] {host : Host} {st st' : Manager S} {a : Act S} {ds : S} {x x' : Source S}

/-- The target of a periodic timer is its start and an interval for each fire. -/
def Source.OnSchedule (x : Source S) : Prop :=
  x.dsTimer.oneshot = false → x.dsTimer.target = x.dsTimer.start + x.fires * x.dsTimer.interval

structure Scheduled (st : Manager S) : Prop where
  source : ∀ ds x, st.reg.ds ds = some x → x.OnSchedule
  params : ∀ p ∈ st.params, p.values.target = p.values.start

theorem Scheduled.update (h : Scheduled st)
    (hds : st'.reg.ds = Function.update st.reg.ds ds (some x')) (hx' : x'.OnSchedule)
    (hparams : ∀ p ∈ st'.params, p ∈ st.params) : Scheduled st' := by
  refine ⟨fun a y hy ↦ ?_, fun p hp ↦ h.params p (hparams p hp)⟩
  rw [hds] at hy
  rcases eq_or_ne a ds with rfl | hne
  · rw [Function.update_self, Option.some_inj] at hy
    rwa [← hy]
  · rw [Function.update_of_ne hne] at hy
    exact h.source a y hy

omit [DecidableEq S] in
theorem Source.OnSchedule.fire {now : ℕ} (h : x.OnSchedule) (hrange : x.dsTimer.InRange)
    (hdue : x.dsTimer.target ≤ now) (hnow : now < 2 ^ 63) : (x.fire now).1.OnSchedule := by
  cases hone : x.dsTimer.oneshot with
  | true =>
      intro hnot
      rw [fire_oneshot hone] at hnot
      have : x.dsTimer.oneshot = false := hnot
      rw [hone] at this
      cases this
  | false =>
      intro _
      obtain ⟨n, -, hfires, htimer, -, -⟩ := fire_periodic hone hrange hdue hnow
      rw [htimer, hfires]
      simp only
      rw [h hone, Nat.add_mul, Nat.add_assoc]

theorem Scheduled.listUpdate (h : Scheduled st) (hI : Inv st) (hx : st.reg.ds ds = some x)
    (htype : x.dsType = .timer) : Scheduled (st.dispatchTimerListUpdate ds x) := by
  cases hdkev : x.dsDkev with
  | none =>
      rwa [State.listUpdate_released hdkev]
  | some dk =>
      obtain ⟨-, hreq, hparams⟩ := State.requeued_listUpdate hI.wf hx htype (by simp [hdkev])
      exact h.update hreq.ds_eq (h.source ds x hx) fun p hp ↦ hparams ▸ hp

/-- The clock never reads more than 63 bits, and timers that are set have an interval in
range. -/
def Clocked (st : Manager S) (a : Act S) : Prop :=
  st.reg.Configured ∧ ∀ c now n, a = .runTimers c now n → now < 2 ^ 63

instance (st : Manager S) (a : Act S) : Decidable (Clocked st a) :=
  match a with
  | .runTimers _ now _ =>
      decidable_of_iff (st.reg.Configured ∧ now < 2 ^ 63)
        (and_congr_right fun _ ↦ ⟨by rintro h _ _ _ ⟨⟩; exact h, fun h ↦ h _ _ _ rfl⟩)
  | .create .. | .invoke .. | .latch .. | .callout .. | .cancel .. | .unreference .. | .event ..
  | .selectRead .. | .selectWrite .. | .setTimer .. | .setTimer2 .. =>
      decidable_of_iff st.reg.Configured ⟨fun h ↦ ⟨h, nofun⟩, fun h ↦ h.1⟩

theorem Scheduled.runTimers (h : Scheduled st) (hI : Inv st) (ht : Timely st.reg)
    (hconf : st.reg.Configured) {c : Clock} {now : ℕ} (hnow : now < 2 ^ 63)
    (hs : st.runTimers c now = some st') : Scheduled st' ∧ st'.reg.Configured := by
  obtain ⟨ds, x, hhead, hx, hor⟩ := State.runTimers_eq_some hs
  have hmem := List.mem_of_mem_head? hhead
  obtain ⟨y, hy, htype, -⟩ := hI.wf.mem_timer hmem
  rw [hx, Option.some_inj] at hy
  subst hy
  rcases hor with ⟨hne, -⟩ | ⟨-, htarget, -, hdue, rfl⟩
  · exact absurd (ht.clock c ds x trivial hmem hx).1.symm hne
  · have hf := fired_of_turn now hI ht hx hmem htarget
    refine ⟨?_, hf.configured hx htarget hconf⟩
    have hfire : Scheduled (st.fireTimer ds x now) :=
      h.update rfl ((h.source ds x hx).fire (hconf c ds hmem x hx htarget) hdue hnow) fun _ hp ↦ hp
    exact hfire.listUpdate (hI.fireTimer hx) (setDs_ds_self _ _ _) (by simpa using htype)

omit [DecidableEq S] in
theorem target_setTimer {flags start interval leeway now : BitVec 64} :
    (dispatchSourceSetTimer host ds flags start interval leeway now).values.target =
      (dispatchSourceSetTimer host ds flags start interval leeway now).values.start := by
  simp only [dispatchSourceSetTimer]
  split <;> rfl

/-- Where the values of a timer come from: it had them before, the source is new, or a call of
`dispatch_source_set_timer` has asked for them. -/
def TimerFrom (st : Manager S) (ds : S) (x' : Source S) : Prop :=
  (∃ x, st.reg.ds ds = some x ∧ x'.dsTimer = x.dsTimer ∧ x'.fires = x.fires) ∨
    (x'.dsTimer.start = 0 ∧ x'.dsTimer.target = 0 ∧ x'.fires = 0) ∨
    ∃ p ∈ st.params, x'.dsTimer = p.values ∧ x'.fires = 0

theorem timerFrom_update (hds : st'.reg.ds = Function.update st.reg.ds ds (some x'))
    (hx' : TimerFrom st ds x') (b : S) (y : Source S) (hy : st'.reg.ds b = some y) :
    TimerFrom st b y := by
  rw [hds] at hy
  rcases eq_or_ne b ds with rfl | hne
  · rw [Function.update_self, Option.some_inj] at hy
    rwa [← hy]
  · rw [Function.update_of_ne hne] at hy
    exact .inl ⟨y, hy, rfl, rfl⟩

theorem timer_listUpdate (hI : Inv st) (hx : st.reg.ds ds = some x) (htype : x.dsType = .timer)
    (b : S) (y : Source S) (hy : (st.dispatchTimerListUpdate ds x).reg.ds b = some y) :
    ∃ z, st.reg.ds b = some z ∧ y.dsTimer = z.dsTimer ∧ y.fires = z.fires := by
  cases hdkev : x.dsDkev with
  | none =>
      rw [State.listUpdate_released hdkev] at hy
      exact ⟨y, hy, rfl, rfl⟩
  | some dk =>
      have hds := (State.requeued_listUpdate hI.wf hx htype (by simp [hdkev])).2.1.ds_eq
      rw [hds] at hy
      rcases eq_or_ne b ds with rfl | hne
      · rw [Function.update_self, Option.some_inj] at hy
        exact ⟨x, hx, by rw [← hy], by rw [← hy]⟩
      · rw [Function.update_of_ne hne] at hy
        exact ⟨y, hy, rfl, rfl⟩

theorem params_listUpdate (hI : Inv st) (hx : st.reg.ds ds = some x) (htype : x.dsType = .timer) :
    (st.dispatchTimerListUpdate ds x).params = st.params := by
  cases hdkev : x.dsDkev with
  | none => rw [State.listUpdate_released hdkev]
  | some dk => exact (State.requeued_listUpdate hI.wf hx htype (by simp [hdkev])).2.2

theorem params_runTimers (hI : Inv st) {c : Clock} {now : ℕ} (hs : st.runTimers c now = some st') :
    st'.params = st.params := by
  obtain ⟨ds, x, hhead, hx, hor⟩ := State.runTimers_eq_some hs
  obtain ⟨y, hy, htype, -⟩ := hI.wf.mem_timer (List.mem_of_mem_head? hhead)
  rw [hx, Option.some_inj] at hy
  subst hy
  rcases hor with ⟨-, rfl⟩ | ⟨-, -, -, -, rfl⟩
  · exact params_listUpdate hI hx htype
  · exact params_listUpdate (hI.fireTimer hx) (setDs_ds_self _ _ _) (by simpa using htype)

theorem Trans.timerFrom (htr : Trans host st a st') (hI : Inv st)
    (hne : ∀ c now n, a ≠ .runTimers c now n) (b : S) (y : Source S)
    (hy : st'.reg.ds b = some y) : TimerFrom st b y := by
  cases htr
  case create ds ty handle mask hok hnone =>
    exact timerFrom_update rfl (.inr (.inl ⟨rfl, rfl, rfl⟩)) b y hy
  case install ds x answer hx hinst =>
    have hreg := (st.quiet_merge ds answer hinst (hI.wf.fresh ds x hx hinst).1).1
    have hds := (congrArg Registry.ds hreg).trans (merge_ds _)
    exact timerFrom_update hds (.inl ⟨x, hx, rfl, rfl⟩) b y hy
  case uninstall ds x dk answer hx hinst _ hdk =>
    have hds := (congrArg Registry.ds (st.quiet_release ds x dk answer).1).trans release_ds
    exact timerFrom_update hds (.inl ⟨x, hx, rfl, rfl⟩) b y hy
  case rearm ds x dk answer hx _ _ _ _ =>
    have hreg := (st.quiet_dispatchKeventResume dk answer).1
    exact .inl ⟨y, (congrArg (fun r ↦ r.ds b) hreg).symm.trans hy, rfl, rfl⟩
  case callout ds x hx _ _ =>
    refine timerFrom_update rfl ?_ b y hy
    exact .inl ⟨x, hx, rfl, rfl⟩
  case setTimer2 i p hp =>
    have hpmem := List.mem_of_getElem? hp
    obtain ⟨⟨x, hx, htype⟩, -⟩ := hI.params p hpmem
    rw [setTimer2_eq (by exact hx)] at hy
    obtain ⟨z, hz, htimer, hfires⟩ :=
      timer_listUpdate (hI.assign hx htype) (setDs_ds_self _ _ _) htype b y hy
    rcases eq_or_ne b p.ds with rfl | hb
    · simp only [setDs_ds_self, Option.some_inj] at hz
      subst hz
      exact .inr (.inr ⟨p, hpmem, htimer, hfires⟩)
    · simp only [Registry.setDs, Function.update_of_ne hb] at hz
      exact .inl ⟨z, hz, htimer, hfires⟩
  case runTimers c now n hs => exact absurd rfl (hne c now n)
  all_goals exact .inl ⟨y, hy, rfl, rfl⟩

theorem Trans.paramsFrom (htr : Trans host st a st') (hI : Inv st) (p : SetTimerParams S)
    (hp : p ∈ st'.params) : p ∈ st.params ∨ ∃ ds flags start interval leeway now,
      a = .setTimer ds start interval leeway now ∧
        p = dispatchSourceSetTimer host ds flags start interval leeway now := by
  cases htr
  case install ds x answer hx hinst =>
    exact .inl ((st.quiet_merge ds answer hinst (hI.wf.fresh ds x hx hinst).1).2 ▸ hp)
  case uninstall ds x dk answer hx hinst _ hdk =>
    exact .inl ((st.quiet_release ds x dk answer).2 ▸ hp)
  case rearm ds x dk answer hx _ _ _ _ =>
    exact .inl ((st.quiet_dispatchKeventResume dk answer).2 ▸ hp)
  case setTimer ds x start interval leeway now hx htype =>
    rcases List.mem_append.mp hp with hp | hp
    · exact .inl hp
    · exact .inr ⟨ds, _, start, interval, leeway, now, rfl, List.mem_singleton.mp hp⟩
  case setTimer2 i q hq =>
    obtain ⟨⟨x, hx, htype⟩, -⟩ := hI.params q (List.mem_of_getElem? hq)
    rw [setTimer2_eq (by exact hx),
      params_listUpdate (hI.assign hx htype) (setDs_ds_self _ _ _) htype] at hp
    exact .inl (List.mem_of_mem_eraseIdx hp)
  case runTimers c now n hs =>
    have hP := State.runTimers2_induction (P := fun st₁ ↦ Inv st₁ ∧ st₁.params = st.params)
      (fun _ _ h hs ↦ ⟨h.1.runTimers hs, (params_runTimers h.1 hs).trans h.2⟩) hs ⟨hI, rfl⟩
    exact .inl (hP.2 ▸ hp)
  all_goals exact .inl hp

theorem Trans.scheduled (htr : Trans host st a st') (h : Scheduled st) (hI : Inv st)
    (ht : Timely st.reg) (hC : Clocked st a) : Scheduled st' := by
  by_cases hrun : ∃ c now n, a = .runTimers c now n
  · obtain ⟨c, now, n, rfl⟩ := hrun
    cases htr with
    | runTimers hs =>
        have hP := State.runTimers2_induction
          (P := fun st ↦ Inv st ∧ Timely st.reg ∧ Scheduled st ∧ st.reg.Configured)
          (fun _ _ ⟨hI, ht, h, hconf⟩ hs ↦ ⟨hI.runTimers hs, hI.timely_runTimers ht hs,
            h.runTimers hI ht hconf (hC.2 c now n rfl) hs⟩) hs ⟨hI, ht, h, hC.1⟩
        exact hP.2.2.1
  · have hne : ∀ c now n, a ≠ .runTimers c now n := fun c now n ha ↦ hrun ⟨c, now, n, ha⟩
    refine ⟨fun b y hy hone ↦ ?_, fun p hp ↦ ?_⟩
    · rcases htr.timerFrom hI hne b y hy with ⟨x, hx, htimer, hfires⟩ | ⟨hstart, htarget, hfires⟩ |
        ⟨p, hp, htimer, hfires⟩
      · rw [htimer] at hone ⊢
        rw [hfires]
        exact h.source b x hx hone
      · rw [hstart, htarget, hfires, Nat.zero_mul]
      · rw [htimer, hfires, Nat.zero_mul, h.params p hp]
        rfl
    · rcases htr.paramsFrom hI p hp with hp | ⟨ds, flags, start, interval, leeway, now, -, rfl⟩
      · exact h.params p hp
      · exact target_setTimer

theorem scheduled_of_run (h : Runs host Clocked st) : Scheduled st := by
  induction h with
  | refl => exact ⟨nofun, nofun⟩
  | tail hrun hstep ih =>
      obtain ⟨a, hC, hs⟩ := hstep
      exact (trans_of_step hs).scheduled ih (inv_of_run hrun) (timely_of_run hrun) hC

omit [DecidableEq S] in
/-- The target of a periodic timer that has fired is the first one on its schedule that has not
come. -/
theorem Source.OnSchedule.least {now : ℕ} (h : x.OnSchedule) (hperiodic : x.dsTimer.oneshot = false)
    (hrange : x.dsTimer.InRange) (hdue : x.dsTimer.target ≤ now) (hnow : now < 2 ^ 63) {k : ℕ}
    (hk : now < x.dsTimer.start + k * x.dsTimer.interval) :
    (x.fire now).1.dsTimer.target ≤ x.dsTimer.start + k * x.dsTimer.interval := by
  obtain ⟨n, -, hfires, htimer, -, hle⟩ := fire_periodic hperiodic hrange hdue hnow
  have hsched : x.dsTimer.target + n * x.dsTimer.interval =
      x.dsTimer.start + (x.fires + n) * x.dsTimer.interval := by
    rw [h hperiodic, Nat.add_mul, Nat.add_assoc]
  rw [htimer]
  simp only
  rw [hsched] at hle ⊢
  by_contra hlt
  have hlt' : k * x.dsTimer.interval < (x.fires + n) * x.dsTimer.interval := by omega
  have hkn : k + 1 ≤ x.fires + n := Nat.lt_of_mul_lt_mul_right hlt'
  have hmul : (k + 1) * x.dsTimer.interval ≤ (x.fires + n) * x.dsTimer.interval :=
    Nat.mul_le_mul_right _ hkn
  rw [Nat.add_mul, Nat.one_mul] at hmul
  omega

/-- Periodic timers do not drift and count every interval.  In every run the target of a periodic
timer is its start and an interval for every fire since it was set.  From every state reached,
`_dispatch_run_timers2` ends; no timer of the list is due then; a periodic timer that was due is
set for the first time on its schedule that has not come, any other that was due has fired once
and is not set any more, and everything else is as it was. -/
theorem timers_exact (h : Runs host Clocked st) :
    (∀ ds x, st.reg.ds ds = some x → x.dsTimer.oneshot = false →
      x.dsTimer.target = x.dsTimer.start + x.fires * x.dsTimer.interval) ∧
    ∀ c now, st.reg.Configured → now < 2 ^ 63 → ∃ st',
      (∀ n, (st.reg.dk (.timer c)).dkSources.length < n →
        State.dispatchRunTimers2 c now n st = some st') ∧
      (∀ ds ∈ (st'.reg.dk (.timer c)).dkSources,
        st'.reg.target ds = 0 ∨ now < st'.reg.target ds) ∧
      (∀ ds x, ds ∈ (st.reg.dk (.timer c)).dkSources → st.reg.ds ds = some x →
        x.dsTimer.target ≠ 0 → x.dsTimer.target ≤ now →
        ∃ x' n, st'.reg.ds ds = some x' ∧ x'.fires = x.fires + n ∧
          st'.del ds =
            { st.del ds with dsPendingData := wrap ((st.del ds).dsPendingData + n) } ∧
          (x.dsTimer.oneshot = true → n = 1 ∧ x'.dsTimer = { x.dsTimer with target := 0 }) ∧
          (x.dsTimer.oneshot = false →
            x'.dsTimer = { x.dsTimer with
              target := x.dsTimer.start + x'.fires * x.dsTimer.interval } ∧
            now < x'.dsTimer.target ∧
            ∀ k, now < x.dsTimer.start + k * x.dsTimer.interval →
              x'.dsTimer.target ≤ x.dsTimer.start + k * x.dsTimer.interval)) ∧
      (∀ ds, ds ∉ (st.reg.dk (.timer c)).dkSources ∨ st.reg.target ds = 0 ∨ now < st.reg.target ds →
        st'.reg.ds ds = st.reg.ds ds ∧ st'.del ds = st.del ds) := by
  have hsched := scheduled_of_run h
  refine ⟨fun ds x hx ↦ hsched.source ds x hx, fun c now hconf hnow ↦ ?_⟩
  obtain ⟨st', hrun, hran⟩ := exists_ran (c := c) (inv_of_run h) (timely_of_run h) hconf hnow
  refine ⟨st', fun n hn ↦ hrun n (List.countP_le_length.trans_lt hn), fun ds hds ↦ ?_,
    fun ds x hmem hx htarget hdue ↦ ?_, fun ds hds ↦ hran.unchanged ds ?_⟩
  · have hnone := hran.none_due ds hds
    simp only [isDue, decide_eq_false_iff_not] at hnone
    omega
  · have hrange := hconf c ds hmem x hx htarget
    have hsch := hsched.source ds x hx
    obtain ⟨hds, hdel⟩ := hran.fired ds x hmem (by simp [isDue, target, hx, htarget, hdue]) hx
    refine ⟨(x.fire now).1, (x.fire now).2, hds, ?_, hdel, fun hone ↦ ?_, fun hone ↦ ?_⟩
    · unfold Source.fire
      split <;> rfl
    · rw [Source.fire_oneshot hone]
      exact ⟨rfl, rfl⟩
    · obtain ⟨n, -, hfires, htimer, hlt, -⟩ := Source.fire_periodic hone hrange hdue hnow
      refine ⟨?_, by rw [htimer]; exact hlt, fun k hk ↦ hsch.least hone hrange hdue hnow hk⟩
      rw [htimer, hfires, hsch hone, Nat.add_mul, Nat.add_assoc]
  · rintro ⟨hmem, hdue⟩
    simp only [isDue, decide_eq_true_eq] at hdue
    rcases hds with hds | hds | hds
    · exact hds hmem
    · exact hdue.1 hds
    · omega

end Schedule

/-- A timer that was set for 4 and then every 5, and has been run once at 4 and at 12. -/
def periodicState : Manager (Fin 1) :=
  (run (step plainHost) Clocked initial
    [.create 0 .timer 0 0, .setTimer 0 4 5 0 0, .setTimer2 0, .runTimers .mach 4 2, .latch 0,
      .runTimers .mach 12 2]).get (by decide)

theorem timers_exact_periodic :
    periodicState.reg.target 0 = 14 ∧ ∃ st',
      (∀ n, 1 < n → State.dispatchRunTimers2 .mach 29 n periodicState = some st') ∧
        ∀ ds ∈ (st'.reg.dk (.timer .mach)).dkSources,
          st'.reg.target ds = 0 ∨ 29 < st'.reg.target ds :=
  ⟨by decide,
    have ⟨st', hrun, hnone, _⟩ := (timers_exact (runs_get _ : Runs _ _ periodicState)).2 .mach 29
      (by decide) (by decide)
    ⟨st', hrun, hnone⟩⟩

end LibDispatch.Kevent
