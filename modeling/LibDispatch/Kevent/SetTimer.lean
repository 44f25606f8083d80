import LibDispatch.Interleaving.Sequence
import LibDispatch.Kevent.RunTimers
import LibDispatch.Time.Saturation

/-!
# Setting timers before the clock is known

`dispatch_source_set_timer` turns an interval of zero into the shortest one there is, for which
it looks at `_dispatch_host_time_data`.  It does not make sure that another function has
initialised them.  As long as they are zero, the interval stays zero, which the manager takes
for a timer that is not set.
-/

namespace LibDispatch.Kevent

open Interleaving Time

/-! ## The library -/

/-- The manager and `_dispatch_host_time_data`. -/
structure Library (S : Type*) where
  st : Manager S
  data : HostTimeData

/-- A step of the manager or of `dispatch_source_set_timer`, and the two stores of
`_dispatch_get_host_time_init`, which some thread may call at any time. -/
inductive LibraryAct (S : Type*)
  | manager (a : Act S)
  | initFrac
  | initRatio

/-- The host as `dispatch_source_set_timer` finds it, where the monotonic clock counts
nanoseconds.  The conversion initialises the data first. -/
def Host.atTime (host : Host) (data : HostTimeData) : Host :=
  { host with
    ratio1To1 := data.ratio1To1
    fracCeil := ⌈data.frac⌉.toNat
    nano2mach := fun n ↦ (dispatchTimeNano2mach hostTimeInit (BitVec.ofNat 64 n)).toNat }

/-- A timer on the monotonic clock makes `dispatch_source_set_timer` convert. -/
def Act.converts {S : Type*} : Act S → Bool
  | .setTimer _ start _ _ now => !(adjustStart start now).msb
  | _ => false

namespace Library

variable {S : Type*} [DecidableEq S]

def step (host : Host) (a : LibraryAct S) (lib : Library S) : Option (Library S) :=
  match a with
  | .manager a => (Kevent.step (host.atTime lib.data) a lib.st).map fun st ↦
      ⟨st, if a.converts then hostTimeInit else lib.data⟩
  | .initFrac => if lib.data = ⟨0, false⟩ then some { lib with data := ⟨1, false⟩ } else none
  | .initRatio => if lib.data = ⟨1, false⟩ then some { lib with data := ⟨1, true⟩ } else none

def initial : Library S := ⟨Kevent.initial, ⟨0, false⟩⟩

end Library

/-! ## Parameters that the manager accepts -/

/-- The point in time for which the timer is to be set. -/
def startInstant (start now : BitVec 64) : Instant :=
  if start = 0 then .on .mach now.toNat
  else if start = forever then .on .mach (2 ^ 63 - 1)
  else instant start

/-- What `_dispatch_source_set_timer2` has to find. -/
structure Accepted {S : Type*} (start interval now : BitVec 64) (p : SetTimerParams S) : Prop where
  target_ne : p.values.target ≠ 0
  instant_eq : .on (if p.values.wallClock then .wall else .mach) p.values.target =
    startInstant start now
  ident_eq : p.ident = Clock.index (if p.values.wallClock then .wall else .mach)
  leeway_le : p.values.leeway ≤ 2 ^ 63 - 1
  interval_pos : 1 ≤ p.values.interval
  interval_le : p.values.interval ≤ 2 ^ 63 - 1
  interval_eq : 1 ≤ interval.toNat → interval.toNat ≤ 2 ^ 63 - 1 →
    p.values.interval = interval.toNat

/-- An interval of zero can be replaced, and the reading of the monotonic clock is no time of the
wall clock. -/
def Settable (data : HostTimeData) (start interval now : BitVec 64) : Prop :=
  (interval = 0 → data.frac ≠ 0) ∧ (start = 0 → now.msb = false)

instance (data : HostTimeData) (start interval now : BitVec 64) :
    Decidable (Settable data start interval now) := inferInstanceAs (Decidable (_ ∧ _))

section Params

variable {S : Type*} {host : Host} {data : HostTimeData} {ds : S}
  {flags start interval leeway now : BitVec 64}

/-- The states of `_dispatch_host_time_data`, of which the last one is the initialised one. -/
def Known (data : HostTimeData) : Prop :=
  data = ⟨0, false⟩ ∨ data = ⟨1, false⟩ ∨ data = hostTimeInit

theorem nano2mach_atTime (host : Host) (data : HostTimeData) {n : ℕ} (hn : n < 2 ^ 64) :
    (host.atTime data).nano2mach n = n := Nat.mod_eq_of_lt hn

theorem adjustInterval_zero (hdata : Known data) :
    (adjustInterval (host.atTime data) 0).toNat = if data.frac = 0 then 0 else 1 := by
  rcases hdata with rfl | rfl | rfl <;> simp [adjustInterval, Host.atTime, hostTimeInit]

theorem adjustInterval_of_ne (h : interval ≠ 0) :
    1 ≤ (adjustInterval (host.atTime data) interval).toNat ∧
      (adjustInterval (host.atTime data) interval).toNat ≤ 2 ^ 63 - 1 ∧
      (interval.toNat ≤ 2 ^ 63 - 1 →
        (adjustInterval (host.atTime data) interval).toNat = interval.toNat) := by
  have hpos : interval.toNat ≠ 0 := fun h0 ↦ h (BitVec.eq_of_toNat_eq h0)
  rw [adjustInterval, if_neg h, BitVec.msb_eq_decide]
  by_cases hmsb : 2 ^ 63 ≤ interval.toNat
  · rw [if_pos (decide_eq_true hmsb)]
    exact ⟨by decide, by decide, fun hle ↦ by omega⟩
  · rw [if_neg (by simpa using hmsb)]
    exact ⟨by omega, by omega, fun _ ↦ rfl⟩

theorem adjustInterval_pos_iff (hdata : Known data) :
    1 ≤ (adjustInterval (host.atTime data) interval).toNat ↔ (interval = 0 → data.frac ≠ 0) := by
  by_cases hzero : interval = 0
  · rw [hzero, adjustInterval_zero hdata]
    split <;> simp_all
  · simp only [(adjustInterval_of_ne hzero).1, hzero, false_imp_iff]

theorem adjustInterval_le (hdata : Known data) :
    (adjustInterval (host.atTime data) interval).toNat ≤ 2 ^ 63 - 1 := by
  by_cases hzero : interval = 0
  · rw [hzero, adjustInterval_zero hdata]
    split <;> decide
  · exact (adjustInterval_of_ne hzero).2.1

theorem toNat_adjustInterval (hpos : 1 ≤ interval.toNat) (hle : interval.toNat ≤ 2 ^ 63 - 1) :
    (adjustInterval (host.atTime data) interval).toNat = interval.toNat := by
  have hne : interval ≠ 0 := by
    rintro rfl
    exact absurd hpos (by decide)
  exact (adjustInterval_of_ne hne).2.2 hle

theorem adjustLeeway_le (leeway : BitVec 64) :
    (if leeway.msb then BitVec.intMax 64 else leeway).toNat ≤ 2 ^ 63 - 1 := by
  split
  · decide
  · rename_i hmsb
    rw [Bool.not_eq_true, BitVec.msb_eq_false_iff_two_mul_lt] at hmsb
    omega

theorem startInstant_wall (h : (adjustStart start now).msb) (hstart : start = 0 → now.msb = false) :
    startInstant start now = .on .wall (-adjustStart start now).toNat := by
  have hzero : start ≠ 0 := by
    intro h0
    rw [adjustStart, if_pos h0, hstart h0] at h
    cases h
  have hforever : start ≠ forever := by
    rintro rfl
    have hadjust : adjustStart forever now = BitVec.intMax 64 := rfl
    rw [hadjust] at h
    exact absurd h (by decide)
  have hadjust : adjustStart start now = start := by
    rw [adjustStart, if_neg hzero]
    exact if_neg hforever
  rw [hadjust] at h ⊢
  rw [BitVec.msb_eq_toInt, decide_eq_true_eq] at h
  have hlt : start.toInt < -1 := by
    rw [Ne, eq_forever_iff] at hforever
    omega
  have hneg : ((-start).toNat : ℤ) = -start.toInt := by
    have hrange := start.isLt
    rw [BitVec.toInt_eq_toNat_cond] at h ⊢
    rw [BitVec.toNat_neg]
    split at h <;> omega
  rw [startInstant, if_neg hzero, if_neg hforever, instant_wall hlt, hneg]

theorem startInstant_mach (h : (adjustStart start now).msb = false) (hnow : now ≠ 0) :
    startInstant start now = .on .mach (adjustStart start now).toNat ∧
      (adjustStart start now).toNat ≠ 0 := by
  unfold startInstant adjustStart at *
  by_cases hzero : start = 0
  · rw [if_pos hzero, if_pos hzero]
    exact ⟨rfl, fun h0 ↦ hnow (BitVec.eq_of_toNat_eq h0)⟩
  rw [if_neg hzero] at h
  rw [if_neg hzero, if_neg hzero]
  by_cases hforever : start = forever
  · rw [if_pos hforever]
    have hadjust : (if start = BitVec.allOnes 64 then BitVec.intMax 64 else start) =
      BitVec.intMax 64 := if_pos hforever
    rw [hadjust]
    exact ⟨rfl, by decide⟩
  · have hne : ¬ start = BitVec.allOnes 64 := hforever
    rw [if_neg hne] at h ⊢
    rw [if_neg hforever]
    have hint : start.toInt = start.toNat := BitVec.toInt_eq_toNat_of_msb h
    have hpos : start.toNat ≠ 0 := fun h0 ↦ hzero (BitVec.eq_of_toNat_eq h0)
    rw [instant_mach (by omega), hint]
    exact ⟨rfl, hpos⟩

theorem accepted_wall_iff (hdata : Known data) (h : (adjustStart start now).msb) (flags leeway) :
    Accepted start interval now
        (dispatchSourceSetTimer (host.atTime data) ds flags start interval leeway now) ↔
      Settable data start interval now := by
  have hleeway := adjustLeeway_le leeway
  simp only [dispatchSourceSetTimer, h, if_true]
  have hwall := wallClock_or ⟨(-adjustStart start now).toNat, (-adjustStart start now).toNat,
    (adjustInterval (host.atTime data) interval).toNat,
    (if leeway.msb then BitVec.intMax 64 else leeway).toNat, flags ||| 4⟩ flags rfl
  constructor
  · intro hacc
    refine ⟨(adjustInterval_pos_iff hdata).mp hacc.interval_pos, fun hstart ↦ ?_⟩
    have heq := hacc.instant_eq
    rw [if_pos hwall, startInstant, if_pos hstart] at heq
    cases heq
  · rintro ⟨hinterval, hstart⟩
    refine ⟨?_, ?_, by rw [if_pos hwall], hleeway, (adjustInterval_pos_iff hdata).mpr hinterval,
      adjustInterval_le hdata, toNat_adjustInterval⟩
    · intro hzero
      have hneg : -adjustStart start now = 0 := BitVec.eq_of_toNat_eq hzero
      rw [neg_eq_zero.mp hneg] at h
      cases h
    · rw [if_pos hwall]
      exact (startInstant_wall h hstart).symm

theorem accepted_mach_iff (hdata : Known data) (h : (adjustStart start now).msb = false)
    (hnow : now ≠ 0) (flags leeway) :
    Accepted start interval now
        (dispatchSourceSetTimer (host.atTime data) ds flags start interval leeway now) ↔
      Settable data start interval now := by
  have hleeway := adjustLeeway_le leeway
  have hinterval : (adjustInterval (host.atTime data) interval).toNat ≤ 2 ^ 63 - 1 :=
    adjustInterval_le hdata
  obtain ⟨hinstant, hzero⟩ := startInstant_mach h hnow
  simp only [dispatchSourceSetTimer, h, Bool.false_eq_true, if_false]
  rw [nano2mach_atTime host data (by omega), nano2mach_atTime host data (by omega)]
  have hmach := wallClock_and ⟨(adjustStart start now).toNat, (adjustStart start now).toNat,
    (adjustInterval (host.atTime data) interval).toNat,
    (if leeway.msb then BitVec.intMax 64 else leeway).toNat, flags &&& ~~~4⟩ flags rfl
  constructor
  · intro hacc
    refine ⟨(adjustInterval_pos_iff hdata).mp hacc.interval_pos, fun hstart ↦ ?_⟩
    rwa [adjustStart, if_pos hstart] at h
  · rintro ⟨hpos, -⟩
    refine ⟨hzero, ?_, by rw [hmach]; rfl, hleeway, (adjustInterval_pos_iff hdata).mpr hpos,
      hinterval, toNat_adjustInterval⟩
    rw [hmach]
    exact hinstant.symm

theorem accepted_iff (hdata : Known data) (hnow : now ≠ 0) (flags leeway) :
    Accepted start interval now
        (dispatchSourceSetTimer (host.atTime data) ds flags start interval leeway now) ↔
      Settable data start interval now := by
  cases h : (adjustStart start now).msb with
  | true => exact accepted_wall_iff hdata h flags leeway
  | false => exact accepted_mach_iff hdata h hnow flags leeway

theorem inRange_setTimer (hdata : Known data) (h : Settable data start interval now)
    (flags leeway) :
    (dispatchSourceSetTimer (host.atTime data)
      ds flags start interval leeway now).values.InRange := by
  have hpos : 1 ≤ (adjustInterval (host.atTime data) interval).toNat :=
    (adjustInterval_pos_iff hdata).mpr h.1
  have hle : (adjustInterval (host.atTime data) interval).toNat ≤ 2 ^ 63 - 1 :=
    adjustInterval_le hdata
  have hrange : Timer.InRange ⟨0, 0, (adjustInterval (host.atTime data) interval).toNat, 0, 0⟩ :=
    ⟨hpos, by simp only; omega⟩
  simp only [dispatchSourceSetTimer]
  split
  · exact hrange
  · rw [nano2mach_atTime host data (by omega)]
    exact hrange

end Params

/-! ## Runs of the library -/

section Runs

open Registry

variable {S : Type*} [DecidableEq S] {host : Host} {st st' : Manager S} {a : Act S}
  {lib lib' : Library S}

/-- Timers are set only when an interval of zero can be replaced. -/
def Sound (lib : Library S) : LibraryAct S → Prop
  | .manager (.setTimer _ start interval _ now) => Settable lib.data start interval now
  | _ => True

instance (lib : Library S) (a : LibraryAct S) : Decidable (Sound lib a) :=
  match a with
  | .manager (.setTimer _ start interval _ now) =>
      inferInstanceAs (Decidable (Settable lib.data start interval now))
  | .manager (.create ..) | .manager (.invoke ..) | .manager (.latch ..) | .manager (.callout ..)
  | .manager (.cancel ..) | .manager (.unreference ..) | .manager (.event ..)
  | .manager (.selectRead ..) | .manager (.selectWrite ..) | .manager (.setTimer2 ..)
  | .manager (.runTimers ..) | .initFrac | .initRatio => isTrue trivial

/-- Timers that are set, or about to be set, have an interval in range. -/
structure Ranged (st : Manager S) : Prop where
  source : ∀ ds x, st.reg.ds ds = some x → x.dsTimer.target ≠ 0 → x.dsTimer.InRange
  params : ∀ p ∈ st.params, p.values.InRange

theorem Ranged.runTimers (h : Ranged st) (hI : Inv st) (ht : Timely st.reg) {c : Clock} {now : ℕ}
    (hs : st.runTimers c now = some st') : Ranged st' := by
  have hparams := params_runTimers hI hs
  obtain ⟨ds, x, hhead, hx, hor⟩ := State.runTimers_eq_some hs
  have hmem := List.mem_of_mem_head? hhead
  rcases hor with ⟨hne, -⟩ | ⟨-, htarget, -, hdue, rfl⟩
  · exact absurd (ht.clock c ds x trivial hmem hx).1.symm hne
  · have hf := fired_of_turn now hI ht hx hmem htarget
    refine ⟨fun b y hy hne ↦ ?_, fun p hp ↦ h.params p (hparams ▸ hp)⟩
    rw [hf.ds_eq] at hy
    rcases eq_or_ne b ds with rfl | hb
    · rw [Function.update_self, Option.some_inj] at hy
      subst hy
      simpa [Timer.InRange] using h.source b x hx htarget
    · rw [Function.update_of_ne hb] at hy
      exact h.source b y hy hne

theorem Trans.ranged (htr : Trans host st a st') (h : Ranged st) (hI : Inv st) (ht : Timely st.reg)
    (hset : ∀ ds flags start interval leeway now, a = .setTimer ds start interval leeway now →
      (dispatchSourceSetTimer host ds flags start interval leeway now).values.InRange) :
    Ranged st' := by
  by_cases hrun : ∃ c now n, a = .runTimers c now n
  · obtain ⟨c, now, n, rfl⟩ := hrun
    cases htr with
    | runTimers hs =>
        have hP := State.runTimers2_induction
          (P := fun st ↦ Inv st ∧ Timely st.reg ∧ Ranged st)
          (fun _ _ ⟨hI, ht, h⟩ hs ↦ ⟨hI.runTimers hs, hI.timely_runTimers ht hs,
            h.runTimers hI ht hs⟩) hs ⟨hI, ht, h⟩
        exact hP.2.2
  · have hne : ∀ c now n, a ≠ .runTimers c now n := fun c now n ha ↦ hrun ⟨c, now, n, ha⟩
    refine ⟨fun b y hy htarget ↦ ?_, fun p hp ↦ ?_⟩
    · rcases htr.timerFrom hI hne b y hy with
        ⟨x, hx, htimer, -⟩ | ⟨-, hzero, -⟩ | ⟨p, hp, htimer, -⟩
      · rw [htimer] at htarget ⊢
        exact h.source b x hx htarget
      · exact absurd hzero htarget
      · rw [htimer]
        exact h.params p hp
    · rcases htr.paramsFrom hI p hp with hp | ⟨ds, flags, start, interval, leeway, now, ha, rfl⟩
      · exact h.params p hp
      · exact hset ds flags start interval leeway now ha

theorem Library.step_cases {a : LibraryAct S} (hs : lib.step host a = some lib') :
    (∃ b, a = .manager b ∧ Trans (host.atTime lib.data) lib.st b lib'.st ∧
      (lib'.data = hostTimeInit ∨ lib'.data = lib.data)) ∨
    lib'.st = lib.st ∧ (lib'.data = ⟨1, false⟩ ∨ lib'.data = hostTimeInit) := by
  cases a with
  | manager b =>
      obtain ⟨st, hst, rfl⟩ := Option.map_eq_some_iff.mp hs
      refine .inl ⟨b, rfl, trans_of_step hst, ?_⟩
      dsimp only
      split
      · exact .inl rfl
      · exact .inr rfl
  | initFrac =>
      simp only [Library.step] at hs
      split at hs <;> cases hs
      exact .inr ⟨rfl, .inl rfl⟩
  | initRatio =>
      simp only [Library.step] at hs
      split at hs <;> cases hs
      exact .inr ⟨rfl, .inr rfl⟩

structure LibraryInv (lib : Library S) : Prop where
  known : Known lib.data
  inv : Inv lib.st
  timely : Timely lib.st.reg

theorem LibraryInv.step {a : LibraryAct S} (h : LibraryInv lib)
    (hs : lib.step host a = some lib') : LibraryInv lib' := by
  rcases Library.step_cases hs with ⟨b, rfl, htr, hdata⟩ | ⟨hst, hdata⟩
  · refine ⟨?_, htr.inv h.inv, htr.timely h.inv h.timely⟩
    rcases hdata with hdata | hdata
    · exact .inr (.inr hdata)
    · exact hdata ▸ h.known
  · exact ⟨.inr hdata, hst ▸ h.inv, hst ▸ h.timely⟩

theorem libraryInv_initial : LibraryInv (Library.initial : Library S) where
  known := .inl rfl
  inv := inv_of_run (.refl : Runs plainHost (fun _ _ ↦ True) Kevent.initial)
  timely := timely_of_run (.refl : Runs plainHost (fun _ _ ↦ True) Kevent.initial)

theorem libraryInv_of_run {C : Library S → LibraryAct S → Prop}
    (h : Sequence.Runs (Library.step host) C Library.initial lib) : LibraryInv lib :=
  h.invariant libraryInv_initial fun _ _ _ hinv _ hs ↦ hinv.step hs

theorem ranged_of_run (h : Sequence.Runs (Library.step host) Sound Library.initial lib) :
    Ranged lib.st := by
  have hboth : LibraryInv lib ∧ Ranged lib.st := by
    refine h.invariant (I := fun lib ↦ LibraryInv lib ∧ Ranged lib.st)
      ⟨libraryInv_initial, nofun, nofun⟩ ?_
    rintro lib lib' a ⟨hinv, hranged⟩ hsound hs
    refine ⟨hinv.step hs, ?_⟩
    rcases Library.step_cases hs with ⟨b, rfl, htr, -⟩ | ⟨hst, -⟩
    · refine htr.ranged hranged hinv.inv hinv.timely ?_
      rintro ds flags start interval leeway now rfl
      exact inRange_setTimer hinv.known hsound flags leeway
    · exact hst ▸ hranged
  exact hboth.2

omit [DecidableEq S] in
theorem Source.fire_pos {x : Source S} {now : ℕ} (hrange : x.dsTimer.InRange)
    (hdue : x.dsTimer.target ≤ now) (hnow : now < 2 ^ 63) :
    1 ≤ (x.fire now).2 ∧ (x.fire now).1.fires = x.fires + (x.fire now).2 := by
  cases hone : x.dsTimer.oneshot with
  | true =>
      rw [fire_oneshot hone]
      exact ⟨le_rfl, rfl⟩
  | false =>
      obtain ⟨n, hn, hfires, -, hlt, -⟩ := fire_periodic hone hrange hdue hnow
      rw [hn]
      refine ⟨?_, hfires⟩
      by_contra hzero
      obtain rfl : n = 0 := by omega
      omega

/-- What `dispatch_source_set_timer` hands to the manager is a schedule that it accepts, unless
an interval of zero is asked for before the data of the clock have been initialised, or the
reading of the monotonic clock that stands for now has more than 63 bits.  In a run without such
calls every timer that is due when the timers of its clock are run fires. -/
theorem set_timers_fire (host : Host) :
    (∀ lib : Library S,
      Sequence.Runs (Library.step host) (fun _ _ ↦ True) Library.initial lib →
      ∀ (ds : S) (flags start interval leeway now : BitVec 64), now ≠ 0 →
      (Accepted start interval now
          (dispatchSourceSetTimer (host.atTime lib.data) ds flags start interval leeway now) ↔
        Settable lib.data start interval now)) ∧
    ∀ lib : Library S, Sequence.Runs (Library.step host) Sound Library.initial lib →
      ∀ c now, now < 2 ^ 63 → ∃ st',
        (∀ n, (lib.st.reg.dk (.timer c)).dkSources.length < n →
          State.dispatchRunTimers2 c now n lib.st = some st') ∧
        ∀ ds x, lib.st.reg.ds ds = some x → x.dsType = .timer → x.dsIsInstalled →
          x.dsDkev ≠ none → clockOf x = c → x.dsTimer.target ≠ 0 → x.dsTimer.target ≤ now →
          ∃ x' k, st'.reg.ds ds = some x' ∧ 1 ≤ k ∧ x'.fires = x.fires + k ∧
            st'.del ds = { lib.st.del ds with
              dsPendingData := wrap ((lib.st.del ds).dsPendingData + k) } := by
  refine ⟨fun lib hrun ds flags start interval leeway now hnow ↦
    accepted_iff (libraryInv_of_run hrun).known hnow flags leeway, fun lib hrun c now hnow ↦ ?_⟩
  obtain ⟨-, hinv, htimely⟩ := libraryInv_of_run hrun
  have hranged := ranged_of_run hrun
  have hconf : lib.st.reg.Configured := fun c ds _ x hx hne ↦ hranged.source ds x hx hne
  obtain ⟨st', hpass, hran⟩ := exists_ran (c := c) hinv htimely hconf hnow
  refine ⟨st', fun n hn ↦ hpass n (List.countP_le_length.trans_lt hn), ?_⟩
  intro ds x hx htype hinst hdkev hclock htarget hdue
  have hrange := hranged.source ds x hx htarget
  obtain ⟨dk, hdk⟩ := Option.ne_none_iff_exists'.mp hdkev
  obtain ⟨c', rfl⟩ := hinv.wf.dkev_timer hx hinst htype hdk
  have hmem : ds ∈ (lib.st.reg.dk (.timer c')).dkSources :=
    (hinv.wf.listed ds _).mpr ⟨x, hx, hinst, hdk⟩
  obtain rfl : c' = c := ((htimely.clock c' ds x trivial hmem hx).2 htarget).symm.trans hclock
  have hdue' : lib.st.reg.isDue now ds := by simp [isDue, target, hx, htarget, hdue]
  obtain ⟨hds, hdel⟩ := hran.fired ds x hmem hdue' hx
  obtain ⟨hpos, hfires⟩ := Source.fire_pos hrange hdue hnow
  exact ⟨_, _, hds, hpos, hfires, hdel⟩

end Runs

/-- Two timers of the wall clock.  The first one has been set with an interval of zero, before or
after the data of the clock have been initialised; both are installed. -/
def setBoth (early : Bool) : List (LibraryAct (Fin 2)) :=
  [.manager (.create 0 .timer 0 0), .manager (.create 1 .timer 0 0)] ++
    (if early then [] else [.initFrac]) ++
    [.manager (.setTimer 0 (-7) 0 0 1), .manager (.setTimer 1 (-8) 5 0 1), .manager (.setTimer2 0),
      .manager (.setTimer2 0)]

def lateLibrary : Library (Fin 2) :=
  (Sequence.run (Library.step plainHost) Sound Library.initial (setBoth false)).get (by decide)

theorem set_timers_fire_late :
    lateLibrary.st.reg.target 0 = 7 ∧ ∃ st',
      (∀ n, 2 < n → State.dispatchRunTimers2 .wall 10 n lateLibrary.st = some st') ∧
      ∀ ds : Fin 2, ∃ x' k, st'.reg.ds ds = some x' ∧ 1 ≤ k ∧
        (st'.del ds).dsPendingData = wrap ((lateLibrary.st.del ds).dsPendingData + k) := by
  refine ⟨by decide, ?_⟩
  obtain ⟨st', hpass, hfire⟩ := (set_timers_fire plainHost).2 lateLibrary
    (Sequence.runs_get _) .wall 10 (by decide)
  refine ⟨st', hpass, fun ds ↦ ?_⟩
  have hdue : ∀ ds : Fin 2, ∃ x, lateLibrary.st.reg.ds ds = some x ∧ x.dsType = .timer ∧
      x.dsIsInstalled ∧ x.dsDkev ≠ none ∧ Registry.clockOf x = .wall ∧ x.dsTimer.target ≠ 0 ∧
      x.dsTimer.target ≤ 10 := fun ds ↦ by
    have hany : ∀ ds : Fin 2, (lateLibrary.st.reg.ds ds).any fun x ↦ x.dsType = .timer ∧
        x.dsIsInstalled ∧ x.dsDkev ≠ none ∧ Registry.clockOf x = .wall ∧ x.dsTimer.target ≠ 0 ∧
        x.dsTimer.target ≤ 10 := by decide
    simpa [Option.any_eq_true] using hany ds
  obtain ⟨x, hx, htype, hinst, hdkev, hclock, htarget, hle⟩ := hdue ds
  obtain ⟨x', k, hx', hk, -, hdel⟩ := hfire ds x hx htype hinst hdkev hclock htarget hle
  exact ⟨x', k, hx', hk, by rw [hdel]⟩

/-- Before the data have been initialised the first timer is set with an interval of zero.  Both
timers are due, and running the timers fires neither. -/
theorem set_timers_stuck :
    ∃ lib, Sequence.run (Library.step plainHost) (fun _ _ ↦ True) Library.initial (setBoth true) =
        some lib ∧
      ¬ Accepted (-7) 0 1
        (dispatchSourceSetTimer (plainHost.atTime ⟨0, false⟩) (0 : Fin 2) 0 (-7) 0 0 1) ∧
      lib.st.reg.target 0 = 7 ∧ lib.st.reg.target 1 = 8 ∧
      (lib.st.reg.dk (.timer .wall)).dkSources = [0, 1] ∧
      ∃ st', State.dispatchRunTimers2 .wall 10 3 lib.st = some st' ∧
        ∀ ds, (st'.del ds).dsPendingData = 0 :=
  ⟨_, (Option.some_get (by decide)).symm, fun h ↦ absurd h.interval_pos (by decide), by decide,
    by decide, by decide, _, (Option.some_get (by decide)).symm, by decide⟩

end LibDispatch.Kevent
