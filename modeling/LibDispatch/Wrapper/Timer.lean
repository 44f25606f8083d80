import LibDispatch.Kevent.NativeTimer
import LibDispatch.Wrapper.Delay

/-!
# Timers of the C++ library

A `timer_type` remembers an interval, a latency and a delay.  Each of its setters builds the whole
schedule of the native timer from them again, and the delay counts from the time of that call, not
from the time at which it was given.  The native timer gets the new schedule from the manager,
which has a queue for such changes; until it has come to them it runs the timer by the old
schedule.
-/

namespace LibDispatch.Wrapper.Timer

open Kevent (Clock Host Known NativeTimer dispatchSourceSetTimer adjustInterval adjustStart)
open Time (Clocks HostTimeData hostTimeInit now forever)

/-! ## The timer around the native timer -/

/-- The constructor, or a setter that was called when the monotonic clock read `reading`, and the
host time data that `dispatch_source_set_timer` found. -/
inductive Call
  | construct (first reading : BitVec 64) (data : HostTimeData)
  | setter (reading : BitVec 64) (data : HostTimeData)

/-- The timer, and `_dispatch_host_time_data`, which there is once for all.  The last field is
history: the last call that has built a schedule. -/
structure TimerType where
  interval : BitVec 64
  latency : BitVec 64
  delay : BitVec 64
  native : NativeTimer
  data : HostTimeData
  lastCall : Call

namespace TimerType

variable (host : Host) (t : TimerType)

/-- `dispatch_source_set_timer` for the native timer.  On the monotonic clock it converts the
interval, which initialises the host time data, but only after it has looked at them. -/
def setNative (start reading : BitVec 64) : TimerType :=
  { t with
    native := t.native.setTimer host t.data start t.interval t.latency reading
    data := if (adjustStart start reading).msb then t.data else hostTimeInit }

def construct (interval first reading : BitVec 64) (data : HostTimeData) : TimerType :=
  setNative host ⟨interval, 0, 0, .fresh, data, .construct first reading data⟩ first reading

/-- `as_delayed_time` converts the delay, so that the host time data are initialised when
`dispatch_source_set_timer` is called. -/
def updateTimeout (reading : BitVec 64) : TimerType :=
  if t.delay = 0 then
    { t with lastCall := .setter reading t.data }.setNative host now reading
  else
    { t with data := hostTimeInit, lastCall := .setter reading hostTimeInit }.setNative host
      (asDelayedTime ⟨0, reading, ⟨0, 0⟩⟩ t.delay now) reading

def setInterval (i reading : BitVec 64) : TimerType :=
  { t with interval := i, delay := i }.updateTimeout host reading

def setLatency (l reading : BitVec 64) : TimerType :=
  { t with latency := l }.updateTimeout host reading

def setDelay (d reading : BitVec 64) : TimerType :=
  { t with delay := d }.updateTimeout host reading

/-- The calls, what the manager and the target queue do, and the two stores of
`_dispatch_get_host_time_init` in a thread that does something else.  `start()` resumes the source
after it has set the delay, and `stop()` suspends it, which is nothing to the schedule. -/
inductive Event
  | start (d reading : BitVec 64)
  | stop
  | interval (i reading : BitVec 64)
  | latency (l reading : BitVec 64)
  | setTimer2
  | runTimers (c : Clock) (reading : ℕ)
  | latch
  | initFrac
  | initRatio

def step : Event → TimerType
  | .start d reading => t.setDelay host d reading
  | .stop => t
  | .interval i reading => t.setInterval host i reading
  | .latency l reading => t.setLatency host l reading
  | .setTimer2 => { t with native := t.native.setTimer2 }
  | .runTimers c reading => { t with native := t.native.runTimers c reading }
  | .latch => { t with native := t.native.latch }
  | .initFrac => if t.data = ⟨0, false⟩ then { t with data := ⟨1, false⟩ } else t
  | .initRatio => if t.data = ⟨1, false⟩ then { t with data := hostTimeInit } else t

def run (events : List Event) : TimerType := events.foldl (step host) t

/-- Values below half of the range, and readings of clocks. -/
def Event.small : Event → Prop
  | .start v reading | .interval v reading | .latency v reading =>
      v.toNat < 2 ^ 63 ∧ 0 < reading.toInt
  | .runTimers _ reading => reading < 2 ^ 63
  | _ => True

def Reachable (t : TimerType) : Prop :=
  ∃ interval first reading data events, Known data ∧ (∀ e ∈ events, Event.small e) ∧
    t = (construct host interval first reading data).run host events

end TimerType

/-! ## The schedule that a setter builds -/

section Params

variable {host : Host} {data : HostTimeData} {flags interval leeway reading delay : BitVec 64}

theorem toNat_adjustStart (hpos : 0 < reading.toInt) (hdelay : delay.toNat < 2 ^ 63) :
    (Kevent.adjustStart
      (if delay = 0 then now else asDelayedTime ⟨0, reading, ⟨0, 0⟩⟩ delay now) reading).toNat =
      min (reading.toNat + delay.toNat) (2 ^ 63 - 1) := by
  obtain ⟨hlo, hhi⟩ := toNat_of_pos hpos
  by_cases hzero : delay = 0
  · have hsum : reading.toNat + delay.toNat = reading.toNat := by rw [hzero]; rfl
    have hadjust : Kevent.adjustStart now reading = reading := if_pos rfl
    rw [if_pos hzero, hadjust, hsum]
    omega
  · have hword : asDelayedTime ⟨0, reading, ⟨0, 0⟩⟩ delay now =
        if reading.toNat + delay.toNat < 2 ^ 63 then reading + delay else forever :=
      asDelayedTime_now hpos hdelay
    rw [if_neg hzero, hword]
    by_cases hsum : reading.toNat + delay.toNat < 2 ^ 63
    · have hnat : (reading + delay).toNat = reading.toNat + delay.toNat := by
        rw [BitVec.toNat_add]
        omega
      have hne : reading + delay ≠ 0 := by
        intro h
        rw [h] at hnat
        have : (0 : BitVec 64).toNat = 0 := rfl
        omega
      have hones : reading + delay ≠ BitVec.allOnes 64 := by
        intro h
        rw [h, BitVec.toNat_allOnes] at hnat
        omega
      rw [if_pos hsum, Kevent.adjustStart, if_neg hne, if_neg hones, hnat]
      omega
    · have hadjust : Kevent.adjustStart forever reading = BitVec.intMax 64 := rfl
      have hmax : (BitVec.intMax 64).toNat = 2 ^ 63 - 1 := by decide
      rw [if_neg hsum, hadjust, hmax]
      omega

def intervalOf (host : Host) (data : HostTimeData) (interval : BitVec 64) : ℕ :=
  (adjustInterval (host.atTime data) interval).toNat

theorem interval_setTimer (start : BitVec 64) :
    (dispatchSourceSetTimer (host.atTime data) () flags start interval leeway
      reading).values.interval = intervalOf host data interval := by
  have hlt := (adjustInterval (host.atTime data) interval).isLt
  simp only [dispatchSourceSetTimer]
  split
  · rfl
  · exact Kevent.nano2mach_atTime host data hlt

theorem intervalOf_init_iff (hdata : Known data) :
    intervalOf host hostTimeInit interval = intervalOf host data interval ↔
      (interval = 0 → data.frac ≠ 0) := by
  by_cases hzero : interval = 0
  · rw [hzero, intervalOf, intervalOf, Kevent.adjustInterval_zero hdata,
      Kevent.adjustInterval_zero (.inr (.inr rfl))]
    by_cases hfrac : data.frac = 0 <;> simp [hfrac, hostTimeInit]
  · refine iff_of_true ?_ fun h ↦ absurd h hzero
    simp only [intervalOf, adjustInterval, if_neg hzero]

theorem setTimer_start {start : BitVec 64} (hmsb : (adjustStart start reading).msb = false) :
    let p := dispatchSourceSetTimer (host.atTime data) () flags start interval leeway reading
    p.ident = Clock.mach.index ∧ p.values.target = (adjustStart start reading).toNat := by
  simp only [dispatchSourceSetTimer, hmsb, Bool.false_eq_true, if_false, and_self]

theorem msb_adjustStart (hpos : 0 < reading.toInt) (hdelay : delay.toNat < 2 ^ 63) :
    (adjustStart
      (if delay = 0 then now else asDelayedTime ⟨0, reading, ⟨0, 0⟩⟩ delay now) reading).msb =
      false := by
  rw [BitVec.msb_eq_false_iff_two_mul_lt, toNat_adjustStart hpos hdelay]
  omega

end Params

/-! ## Histories -/

namespace TimerType

variable {host : Host} {t : TimerType}

/-- The list and the first fire of the schedule that the last call has built. -/
def firstFire (t : TimerType) : ℕ × ℕ :=
  match t.lastCall with
  | .construct first reading _ =>
      let start := adjustStart first reading
      if start.msb then (Clock.wall.index, (-start).toNat) else (Clock.mach.index, start.toNat)
  | .setter reading _ => (Clock.mach.index, min (reading.toNat + t.delay.toNat) (2 ^ 63 - 1))

/-- The host time data that the last call has found. -/
def foundData (t : TimerType) : HostTimeData :=
  match t.lastCall with
  | .construct _ _ data | .setter _ data => data

/-- The schedule is the one of the last call, moved on by the fires since then. -/
structure Recorded (host : Host) (t : TimerType) : Prop where
  clock : t.native.scheduled.1 = t.firstFire.1
  target : t.native.scheduled.2.target =
    t.firstFire.2 + t.native.advances * t.native.scheduled.2.interval
  interval : t.native.scheduled.2.interval = intervalOf host t.foundData t.interval
  known : Known t.data
  found : Known t.foundData
  data : t.firstFire.1 = Clock.mach.index → t.data = hostTimeInit
  delay : t.delay.toNat < 2 ^ 63
  periodic : t.native.Periodic

section Setters

variable (host)

theorem advances_setTimer (n : NativeTimer) (data : HostTimeData)
    (start interval leeway reading : BitVec 64) :
    (n.setTimer host data start interval leeway reading).advances = 0 :=
  if_neg (by simp [NativeTimer.setTimer])

/-- The setters pass on the start that `update_timeout` computes, and initialised host time data
if there is a delay. -/
theorem updateTimeout_eq (t : TimerType) (reading : BitVec 64) :
    t.updateTimeout host reading =
      let data := if t.delay = 0 then t.data else hostTimeInit
      { t with data := data, lastCall := .setter reading data }.setNative host
        (if t.delay = 0 then now else asDelayedTime ⟨0, reading, ⟨0, 0⟩⟩ t.delay now) reading := by
  unfold updateTimeout
  split <;> rfl

theorem scheduled_updateTimeout (t : TimerType) {reading : BitVec 64} (hpos : 0 < reading.toInt)
    (hdelay : t.delay.toNat < 2 ^ 63) :
    (t.updateTimeout host reading).native.scheduled.1 = Clock.mach.index ∧
      (t.updateTimeout host reading).native.scheduled.2.target =
        min (reading.toNat + t.delay.toNat) (2 ^ 63 - 1) := by
  rw [updateTimeout_eq, ← toNat_adjustStart hpos hdelay]
  simp only [setNative, NativeTimer.scheduled_setTimer]
  exact setTimer_start (msb_adjustStart hpos hdelay)

theorem interval_updateTimeout (t : TimerType) (reading : BitVec 64) :
    (t.updateTimeout host reading).native.scheduled.2.interval =
      intervalOf host (if t.delay = 0 then t.data else hostTimeInit) t.interval := by
  rw [updateTimeout_eq]
  simp only [setNative, NativeTimer.scheduled_setTimer]
  exact interval_setTimer _

end Setters

theorem recorded_updateTimeout {reading : BitVec 64} (hpos : 0 < reading.toInt)
    (hdelay : t.delay.toNat < 2 ^ 63) (hknown : Known t.data) (hperiodic : t.native.Periodic) :
    (t.updateTimeout host reading).Recorded host := by
  obtain ⟨hclock, htarget⟩ := scheduled_updateTimeout host t hpos hdelay
  have hinterval := interval_updateTimeout host t reading
  have hmsb := msb_adjustStart hpos hdelay
  have hdata : Known (if t.delay = 0 then t.data else hostTimeInit) := by
    split
    · exact hknown
    · exact .inr (.inr rfl)
  rw [updateTimeout_eq] at hclock htarget hinterval ⊢
  simp only [setNative, hmsb, Bool.false_eq_true, if_false] at hclock htarget hinterval ⊢
  refine ⟨hclock, ?_, hinterval, .inr (.inr rfl), hdata, fun _ ↦ rfl, hdelay,
    hperiodic.setTimer ..⟩
  rw [htarget, advances_setTimer, Nat.zero_mul, Nat.add_zero]
  rfl

theorem recorded_construct (interval first reading : BitVec 64) {data : HostTimeData}
    (hdata : Known data) : (construct host interval first reading data).Recorded host := by
  have hperiodic : NativeTimer.fresh.Periodic := ⟨rfl, fun _ hp ↦ absurd hp List.not_mem_nil⟩
  have hadvances := advances_setTimer host .fresh data first interval 0 reading
  refine ⟨?_, ?_, ?_, ?_, hdata, ?_, Nat.two_pow_pos 63, hperiodic.setTimer ..⟩
  · simp only [construct, setNative, NativeTimer.scheduled_setTimer, firstFire,
      dispatchSourceSetTimer]
    split <;> rfl
  · simp only [construct, setNative, hadvances, Nat.zero_mul, Nat.add_zero]
    simp only [NativeTimer.scheduled_setTimer, firstFire, dispatchSourceSetTimer]
    split <;> rfl
  · simp only [construct, setNative, NativeTimer.scheduled_setTimer]
    exact interval_setTimer _
  · simp only [construct, setNative]
    split
    · exact hdata
    · exact .inr (.inr rfl)
  · simp only [construct, setNative, firstFire]
    split
    · intro hfirst
      cases hfirst
    · intro _
      rfl

theorem Recorded.interval_lt (h : t.Recorded host) : t.native.scheduled.2.interval < 2 ^ 63 := by
  have hle : intervalOf host t.foundData t.interval ≤ 2 ^ 63 - 1 := Kevent.adjustInterval_le h.found
  rw [h.interval]
  omega

theorem Recorded.of_native (h : t.Recorded host) {n : NativeTimer}
    (hclock : n.scheduled.1 = t.native.scheduled.1)
    (htarget : n.scheduled.2.target = t.firstFire.2 + n.advances * n.scheduled.2.interval)
    (hinterval : n.scheduled.2.interval = t.native.scheduled.2.interval) (hp : n.Periodic) :
    { t with native := n }.Recorded host :=
  ⟨hclock.trans h.clock, htarget, hinterval.trans h.interval, h.known, h.found, h.data, h.delay, hp⟩

theorem Recorded.step (h : t.Recorded host) {e : Event} (he : e.small) :
    (t.step host e).Recorded host := by
  cases e with
  | start d reading => exact recorded_updateTimeout he.2 he.1 h.known h.periodic
  | stop => exact h
  | interval i reading => exact recorded_updateTimeout he.2 he.1 h.known h.periodic
  | latency l reading => exact recorded_updateTimeout he.2 h.delay h.known h.periodic
  | setTimer2 =>
      have hsame := NativeTimer.scheduled_setTimer2 t.native
      have hadvances : t.native.setTimer2.advances = t.native.advances := by
        unfold NativeTimer.setTimer2 NativeTimer.advances
        cases hp : t.native.params with
        | nil => simp [hp]
        | cons p rest => simp
      exact h.of_native (congrArg (·.1) hsame) (by rw [hsame, hadvances]; exact h.target)
        (by rw [hsame]) h.periodic.setTimer2
  | runTimers c reading =>
      obtain ⟨hclock, hinterval, htarget⟩ :=
        h.periodic.target_runTimers c he h.interval_lt h.target
      exact h.of_native hclock (by rw [hinterval]; exact htarget) hinterval
        (h.periodic.runTimers c reading)
  | latch => exact h.of_native rfl h.target rfl h.periodic
  | initFrac =>
      simp only [TimerType.step]
      split
      · rename_i hdata
        refine ⟨h.clock, h.target, h.interval, .inr (.inl rfl), h.found, fun hmach ↦ ?_, h.delay,
          h.periodic⟩
        cases hdata.symm.trans (h.data hmach)
      · exact h
  | initRatio =>
      simp only [TimerType.step]
      split
      · exact ⟨h.clock, h.target, h.interval, .inr (.inr rfl), h.found, fun _ ↦ rfl, h.delay,
          h.periodic⟩
      · exact h

theorem Reachable.recorded (h : Reachable host t) : t.Recorded host := by
  obtain ⟨interval, first, reading, data, events, hdata, hsmall, rfl⟩ := h
  induction events using List.reverseRecOn with
  | nil => exact recorded_construct interval first reading hdata
  | append_singleton events e ih =>
      rw [run, List.foldl_append, List.foldl_cons, List.foldl_nil]
      have hinit := ih fun e' he' ↦ hsmall e' (List.mem_append_left _ he')
      exact hinit.step (hsmall e (by simp))

/-! ## No fire before its time -/

/-- While a change waits on the manager queue, the manager does not find the timer due. -/
def settles (t : TimerType) : Event → Bool
  | .runTimers c reading => t.native.params.isEmpty || !t.native.due c reading
  | _ => true

/-- The manager and the target queue at work after a call. -/
def isCall : Event → Bool
  | .start .. | .stop | .interval .. | .latency .. => true
  | _ => false

def Undisturbed (host : Host) : TimerType → List Event → Prop
  | _, [] => True
  | t, e :: rest => (isCall e = false ∧ t.settles e) ∧ Undisturbed host (t.step host e) rest

theorem no_early_fire {bound : ℕ} (hclock : t.native.scheduled.1 = Clock.mach.index)
    (hbound : bound ≤ t.native.scheduled.2.target) (hpending : t.native.dsPendingData = 0)
    (events : List Event) (h : Undisturbed host t events)
    (hfired : (t.run host events).native.dsPendingData ≠ 0) :
    ∃ reading, .runTimers .mach reading ∈ events ∧ bound ≤ reading := by
  induction events generalizing t with
  | nil => exact absurd hpending hfired
  | cons e rest ih =>
      obtain ⟨⟨hcall, hsettles⟩, hrest⟩ := h
      have hnext (hc : (t.step host e).native.scheduled.1 = Clock.mach.index)
          (hb : bound ≤ (t.step host e).native.scheduled.2.target)
          (hp : (t.step host e).native.dsPendingData = 0) :
          ∃ reading, .runTimers .mach reading ∈ e :: rest ∧ bound ≤ reading := by
        obtain ⟨reading, hmem, hle⟩ := ih hc hb hp hrest hfired
        exact ⟨reading, List.mem_cons_of_mem _ hmem, hle⟩
      cases e with
      | setTimer2 =>
          have hsame : (t.step host .setTimer2).native.scheduled = t.native.scheduled :=
            NativeTimer.scheduled_setTimer2 _
          refine hnext (hsame ▸ hclock) (hsame ▸ hbound) ?_
          simp only [step, NativeTimer.setTimer2]
          cases t.native.params <;> exact hpending
      | runTimers c reading =>
          by_cases hdue : t.native.due c reading = true
          · have hnil : t.native.params = [] := by simpa [settles, hdue] using hsettles
            rw [NativeTimer.scheduled_of_nil _ hnil] at hclock hbound
            simp only [NativeTimer.due, decide_eq_true_eq] at hdue
            have hmach : c = .mach := by
              cases c with
              | mach => rfl
              | wall => exact absurd (hdue.1.trans hclock) (by decide)
            subst hmach
            exact ⟨reading, List.mem_cons_self, hbound.trans hdue.2.2.2⟩
          · have hsame : t.step host (.runTimers c reading) = t := by
              simp only [step, NativeTimer.runTimers, hdue]
              rfl
            exact hnext (hsame.symm ▸ hclock) (hsame.symm ▸ hbound) (hsame.symm ▸ hpending)
      | latch => exact hnext hclock hbound rfl
      | initFrac | initRatio =>
          simp only [step] at hnext
          split at hnext <;> exact hnext hclock hbound hpending
      | start d reading => cases hcall
      | stop => cases hcall
      | interval i reading => cases hcall
      | latency l reading => cases hcall

/-! ## Setters -/

/-- What `latency` needs: the last schedule is one of the monotonic clock, an interval of zero was
replaced when it was built, and the delay from now on ends with the next fire, which is the first
one of that schedule or so many intervals later as the timer has been moved on since. -/
def KeepsFire (host : Host) (t : TimerType) (reading : BitVec 64) : Prop :=
  t.firstFire.1 = Clock.mach.index ∧ (t.interval = 0 → t.foundData.frac ≠ 0) ∧
    min (reading.toNat + t.delay.toNat) (2 ^ 63 - 1) =
      t.firstFire.2 + t.native.advances * intervalOf host t.foundData t.interval

/-- After a setter: the time that has passed since it was called is that of the intervals by which
the timer has been moved on. -/
theorem keepsFire_iff_elapsed {reading called : BitVec 64} {data : HostTimeData}
    (hcall : t.lastCall = .setter called data)
    (hsum : reading.toNat + t.delay.toNat < 2 ^ 63 - 1) :
    t.KeepsFire host reading ↔ (t.interval = 0 → data.frac ≠ 0) ∧
      reading.toNat = called.toNat + t.native.advances * intervalOf host data t.interval := by
  have hfound : t.foundData = data := by rw [foundData, hcall]
  have hfirst : t.firstFire =
      (Clock.mach.index, min (called.toNat + t.delay.toNat) (2 ^ 63 - 1)) := by
    rw [firstFire, hcall]
  rw [KeepsFire, hfound, hfirst]
  generalize t.native.advances * intervalOf host data t.interval = moved
  have heq : min (reading.toNat + t.delay.toNat) (2 ^ 63 - 1) =
      min (called.toNat + t.delay.toNat) (2 ^ 63 - 1) + moved ↔
      reading.toNat = called.toNat + moved := by omega
  simp only [heq, true_and]

/-- The next fire and the interval are the same. -/
def SameSchedule (t t' : TimerType) : Prop :=
  (t'.native.scheduled.1, t'.native.scheduled.2.target, t'.native.scheduled.2.interval) =
    (t.native.scheduled.1, t.native.scheduled.2.target, t.native.scheduled.2.interval)

/-- The timer has nothing to deliver before the bound, however the manager goes on. -/
def QuietUntil (host : Host) (t : TimerType) (bound : ℕ) : Prop :=
  ∀ events, Undisturbed host t events → (t.run host events).native.dsPendingData ≠ 0 →
    ∃ reading, .runTimers .mach reading ∈ events ∧ bound ≤ reading

theorem sameSchedule_setLatency_iff (h : t.Recorded host) {reading : BitVec 64}
    (hpos : 0 < reading.toInt) (l : BitVec 64) :
    t.SameSchedule (t.setLatency host l reading) ↔ t.KeepsFire host reading := by
  obtain ⟨hclock, htarget⟩ :=
    scheduled_updateTimeout host { t with latency := l } hpos h.delay
  have hinterval := interval_updateTimeout host { t with latency := l } reading
  rw [SameSchedule, setLatency, hclock, htarget, hinterval, h.clock, h.target, h.interval]
  simp only [Prod.mk.injEq, KeepsFire]
  by_cases hmach : t.firstFire.1 = Clock.mach.index
  · have hdata : (if t.delay = 0 then t.data else hostTimeInit) = hostTimeInit := by
      rw [h.data hmach, ite_self]
    rw [hdata, intervalOf_init_iff h.found]
    tauto
  · simp only [hmach, false_and, eq_comm (a := Clock.mach.index)]

theorem quietUntil_updateTimeout {reading : BitVec 64} (hpos : 0 < reading.toInt)
    (hsum : reading.toNat + t.delay.toNat < 2 ^ 63) (hpending : t.native.dsPendingData = 0) :
    (t.updateTimeout host reading).QuietUntil host (reading.toNat + t.delay.toNat) := by
  obtain ⟨hclock, htarget⟩ := scheduled_updateTimeout host t hpos (by omega)
  have hnone : (t.updateTimeout host reading).native.dsPendingData = 0 := by
    rw [updateTimeout_eq]
    exact hpending
  intro events hevents hfired
  refine no_early_fire hclock ?_ hnone events hevents hfired
  rw [htarget]
  omega

end TimerType

open TimerType

/-- A timer with an interval of a second that has been started at 1000 and has fired then. -/
def startedTimer : TimerType :=
  (construct Kevent.plainHost 1000000000 forever 900 ⟨0, false⟩).run Kevent.plainHost
    [.start 0 1000, .setTimer2, .setTimer2, .runTimers .mach 1000, .latch]

theorem reachable_startedTimer : Reachable Kevent.plainHost startedTimer :=
  ⟨_, _, _, _, [.start 0 1000, .setTimer2, .setTimer2, .runTimers .mach 1000, .latch],
    .inl rfl, by simp [Event.small], rfl⟩

/-- For which delays `as_delayed_time` is the addition that it is meant to be.  Such a delay is
waited for by a timer, if the sum is a reading of the monotonic clock. -/
theorem delayed_iff (clocks : Clocks) (base delay : BitVec 64)
    (h : base = now → 0 < clocks.absolute.toInt) :
    (Time.instant (asDelayedTime clocks delay base) =
        later (Time.instant (Time.origin clocks base)) delay.toNat ↔
      delay.toNat < 2 ^ 63 ∨ base = forever) ∧
    (delay.toNat < 2 ^ 63 →
      (∀ delay' : BitVec 64, delay'.toNat ≤ delay.toNat →
        (Time.instant (asDelayedTime clocks delay' base)).Le
          (Time.instant (asDelayedTime clocks delay base))) ∧
      (Time.instant (Time.origin clocks base)).Le
        (Time.instant (asDelayedTime clocks delay base)) ∧
      ∀ (host : Host) (t : TimerType) (reading : BitVec 64), 0 < reading.toInt →
        reading.toNat + delay.toNat < 2 ^ 63 → t.native.dsPendingData = 0 →
        (t.setDelay host delay reading).QuietUntil host (reading.toNat + delay.toNat)) := by
  have hplus : ∀ d : BitVec 64, d.toNat < 2 ^ 63 → Time.instant (asDelayedTime clocks d base) =
      (Time.instant (Time.origin clocks base)).plus d.toNat := by
    intro d hd
    rw [instant_asDelayedTime h hd, later_eq_plus (inRange_origin h)]
  refine ⟨asDelayedTime_eq_later_iff h, fun hdelay ↦ ⟨fun delay' hle ↦ ?_, ?_, ?_⟩⟩
  · rw [hplus delay hdelay, hplus delay' (by omega)]
    exact Time.Instant.plus_mono _ (by omega)
  · rw [hplus delay hdelay]
    have hmono := Time.Instant.plus_mono (Time.instant (Time.origin clocks base))
      (show (0 : ℤ) ≤ delay.toNat by omega)
    rwa [plus_zero (inRange_origin h)] at hmono
  · intro host t reading hpos hsum hpending
    exact quietUntil_updateTimeout (t := { t with delay := delay }) hpos hsum hpending

theorem delayed_iff_now :
    Time.instant (asDelayedTime ⟨0, 5, ⟨0, 0⟩⟩ 3 now) = .on .mach 8 ∧
      (startedTimer.setDelay Kevent.plainHost 3 2000).QuietUntil Kevent.plainHost 2003 := by
  obtain ⟨hiff, hsmall⟩ := delayed_iff ⟨0, 5, ⟨0, 0⟩⟩ now 3 (by decide)
  refine ⟨(hiff.mpr (.inl (by decide))).trans (by decide), ?_⟩
  exact (hsmall (by decide)).2.2 Kevent.plainHost startedTimer 2000 (by decide) (by decide)
    (by decide)

/-- A delay of half the range denotes the beginning of the clock, and a timer that is started with
it fires at once. -/
theorem delayed_goes_back :
    Time.instant (asDelayedTime ⟨0, 2000, ⟨0, 0⟩⟩ 9223372036854775808 now) = .on .mach 1 ∧
      (startedTimer.run Kevent.plainHost
        [.start 9223372036854775808 2000, .setTimer2,
          .runTimers .mach 2000]).native.dsPendingData ≠ 0 := by
  decide

end LibDispatch.Wrapper.Timer
