import LibDispatch.Time.Timeout
import LibDispatch.TimerLoop.Sleep

/-!
# How long the manager sleeps

One call of `_dispatch_get_next_timer_fire` as a whole, while no timer is suspended or resumed.
It looks through the list of the wall clock and then through the list of the monotonic clock,
and returns early if it gets to a timer that is due.  Because the lists are ordered, the timer
at which it stops on a list is the earliest one that is not suspended.
-/

namespace LibDispatch.TimerLoop

open Interleaving
open Kevent (Clock fireKey)
open Kevent.Registry (clockOf)
open Time (Timespec)

variable {T S Q : Type*} [DecidableEq S]

namespace Mem

/-- The loop over one list: what becomes of the timers, and the timer at which it stops. -/
def scanTimers : Mem S Q → List S → Mem S Q × Option S
  | m, [] => (m, none)
  | m, ds :: rest =>
      if m.target ds = 0 then (m, some ds)
      else if (m.src ds).suspended then scanTimers (m.disarm ds) rest
      else (m, some ds)

/-- The turn of the loop over the lists for `c`, where `now` are the clocks at that time: the
smallest delay so far, or none if the function returns because a timer is due. -/
def nextTimerTurn (set : Setting T Q) (now : Clock → ℕ) (c : Clock) (m : Mem S Q) (delta : ℕ) :
    Mem S Q × Option ℕ :=
  match m.scanTimers (m.list c) with
  | (m, none) => (m, some delta)
  | (m, some ds) =>
      if m.target ds = 0 then (m, some delta)
      else
        let now := now (clockOf (m.ds ds))
        if m.target ds ≤ now then (m, none)
        else (m, some (min delta (remaining set (m.ds ds) now)))

def dispatchGetNextTimerFire (set : Setting T Q) (now : Clock → Clock → ℕ) (m : Mem S Q) :
    Mem S Q × Option Timespec :=
  match m.nextTimerTurn set (now .wall) .wall uint64Max with
  | (m, none) => (m, some ⟨0, 0⟩)
  | (m, some delta) =>
      match m.nextTimerTurn set (now .mach) .mach delta with
      | (m, none) => (m, some ⟨0, 0⟩)
      | (m, some delta) =>
          (m, if delta > foreverNsec then none else some (.ofNsec (BitVec.ofNat 64 delta)))

/-! ## The search on one list -/

section Search

variable (m : Mem S Q)

/-- Both lists are in the order in which their timers fire. -/
def Ordered : Prop :=
  ∀ c, (m.list c).Pairwise fun a b ↦ fireKey (m.target a) ≤ fireKey (m.target b)

def stops (ds : S) : Bool := m.target ds = 0 || !(m.src ds).suspended

def ready (ds : S) : Bool := m.target ds ≠ 0 && !(m.src ds).suspended

/-- The first timer of the list of `c` that is set and not suspended. -/
def earliest (c : Clock) : Option S := (m.list c).find? m.ready

def skipped (l : List S) : List S := l.takeWhile fun ds ↦ !m.stops ds

def disarmAll (l : List S) : Mem S Q :=
  { m with src := fun ds ↦ if ds ∈ l then { m.src ds with dsIsArmed := false } else m.src ds }

theorem disarmAll_nil : m.disarmAll [] = m := by
  simp [disarmAll]

theorem disarmAll_disarm (ds : S) (l : List S) :
    (m.disarm ds).disarmAll l = m.disarmAll (ds :: l) := by
  simp only [disarmAll, disarm, setSrc, mk.injEq, true_and]
  funext dsi
  by_cases h : dsi = ds
  · subst h
    simp
  · simp [h]

theorem suspended_disarmAll (l : List S) (ds : S) :
    ((m.disarmAll l).src ds).suspended = (m.src ds).suspended := by
  simp only [disarmAll]
  split <;> rfl

theorem Ordered.disarmAll {m : Mem S Q} (h : m.Ordered) (l : List S) : (m.disarmAll l).Ordered := h

theorem stops_disarmAll (l : List S) : (m.disarmAll l).stops = m.stops := by
  funext ds
  rw [stops, suspended_disarmAll]
  rfl

theorem ready_disarmAll (l : List S) : (m.disarmAll l).ready = m.ready := by
  funext ds
  rw [ready, suspended_disarmAll]
  rfl

theorem earliest_disarmAll (l : List S) : (m.disarmAll l).earliest = m.earliest := by
  funext c
  rw [earliest, ready_disarmAll]
  rfl

theorem skipped_disarmAll (l : List S) : (m.disarmAll l).skipped = m.skipped := by
  funext l'
  rw [skipped, stops_disarmAll]
  rfl

theorem disarmAll_disarmAll (l l' : List S) :
    (m.disarmAll l).disarmAll l' = m.disarmAll (l ++ l') := by
  simp only [disarmAll, mk.injEq, true_and]
  funext ds
  by_cases h : ds ∈ l <;> by_cases h' : ds ∈ l' <;> simp [h, h']

theorem stops_disarm (ds : S) : (m.disarm ds).stops = m.stops := by
  rw [← disarmAll_nil (m.disarm ds), disarmAll_disarm, stops_disarmAll]

theorem scanTimers_eq (l : List S) :
    m.scanTimers l = (m.disarmAll (m.skipped l), l.find? m.stops) := by
  induction l generalizing m with
  | nil => simp [scanTimers, skipped, disarmAll_nil]
  | cons ds rest ih =>
      rw [scanTimers]
      split
      · simp [skipped, stops, disarmAll_nil, *]
      · split
        · have hgo : m.stops ds = false := by simp [stops, *]
          have hskipped : m.skipped (ds :: rest) = ds :: m.skipped rest := by simp [skipped, hgo]
          have hsame : (m.disarm ds).skipped rest = m.skipped rest := by
            rw [skipped, stops_disarm, skipped]
          rw [ih, hsame, disarmAll_disarm, stops_disarm, hskipped, List.find?_cons, hgo]
        · simp [skipped, stops, disarmAll_nil, *]

variable {m}

section Sorted

omit [DecidableEq S]

variable {l : List S} {ds : S}
  (hsorted : l.Pairwise fun a b ↦ fireKey (m.target a) ≤ fireKey (m.target b))

theorem unset_of_mem {rest : List S}
    (hsorted : (ds :: rest).Pairwise fun a b ↦ fireKey (m.target a) ≤ fireKey (m.target b))
    (hset : m.target ds = 0) {dsi : S} (hmem : dsi ∈ ds :: rest) : m.target dsi = 0 := by
  rcases List.mem_cons.mp hmem with rfl | hmem
  · exact hset
  · have hkey := (List.pairwise_cons.mp hsorted).1 dsi hmem
    rw [Kevent.fireKey_le_iff] at hkey
    tauto

include hsorted in
theorem find_ready : l.find? m.ready = (l.find? m.stops).filter fun ds ↦ m.target ds ≠ 0 := by
  induction l with
  | nil => rfl
  | cons ds rest ih =>
      by_cases hset : m.target ds = 0
      · have hnone : (ds :: rest).find? m.ready = none := by
          rw [List.find?_eq_none]
          intro dsi hmem
          simp [ready, unset_of_mem hsorted hset hmem]
        have hstops : m.stops ds = true := by simp [stops, hset]
        rw [hnone, List.find?_cons, hstops, Option.filter_some]
        simp [hset]
      · by_cases hsus : (m.src ds).suspended = true
        · have hstops : m.stops ds = false := by simp [stops, hset, hsus]
          have hready : m.ready ds = false := by simp [ready, hsus]
          rw [List.find?_cons, hready, List.find?_cons, hstops]
          exact ih (List.pairwise_cons.mp hsorted).2
        · have hstops : m.stops ds = true := by simp [stops, hsus]
          have hready : m.ready ds = true := by simp [ready, hset, hsus]
          rw [List.find?_cons, hready, List.find?_cons, hstops, Option.filter_some]
          simp [hset]

include hsorted in
theorem mem_skipped : ds ∈ m.skipped l ↔
    (m.target ds ≠ 0 ∧ (m.src ds).suspended) ∧ ds ∈ l.takeWhile fun dsi ↦ !m.ready dsi := by
  induction l with
  | nil => simp [skipped]
  | cons dsi rest ih =>
      by_cases hset : m.target dsi = 0
      · have hnil : m.skipped (dsi :: rest) = [] := by simp [skipped, stops, hset]
        rw [hnil]
        refine ⟨fun hmem ↦ absurd hmem List.not_mem_nil, ?_⟩
        rintro ⟨⟨hne, -⟩, hmem⟩
        exact absurd (unset_of_mem hsorted hset ((List.takeWhile_sublist _).subset hmem)) hne
      · by_cases hsus : (m.src dsi).suspended = true
        · have hskipped : m.skipped (dsi :: rest) = dsi :: m.skipped rest := by
            simp [skipped, stops, hset, hsus]
          have hready : m.ready dsi = false := by simp [ready, hsus]
          rw [hskipped, List.mem_cons, ih (List.pairwise_cons.mp hsorted).2, List.takeWhile_cons,
            hready]
          simp only [Bool.not_false, if_true, List.mem_cons]
          constructor
          · rintro (rfl | ⟨h, hmem⟩)
            · exact ⟨⟨hset, hsus⟩, .inl rfl⟩
            · exact ⟨h, .inr hmem⟩
          · rintro ⟨h, rfl | hmem⟩
            · exact .inl rfl
            · exact .inr ⟨h, hmem⟩
        · simp [skipped, stops, ready, hset, hsus]

end Sorted

omit [DecidableEq S] in
theorem earliest_le {c : Clock} {ds : S} (ho : m.Ordered) (h : m.earliest c = some ds) :
    ds ∈ m.list c ∧ m.ready ds ∧ ∀ dsi ∈ m.list c, m.ready dsi → m.target ds ≤ m.target dsi := by
  obtain ⟨hready, front, back, hlist, hfront⟩ := List.find?_eq_some_iff_append.mp h
  have hsorted := ho c
  rw [hlist] at hsorted ⊢
  refine ⟨by simp, hready, fun dsi hmem hdsi ↦ ?_⟩
  rcases List.mem_append.mp hmem with hmem | hmem
  · have hnot := hfront dsi hmem
    simp [hdsi] at hnot
  · rcases List.mem_cons.mp hmem with rfl | hmem
    · exact le_rfl
    · have hkey := (List.pairwise_cons.mp (List.pairwise_append.mp hsorted).2.1).1 dsi hmem
      have hne : m.target dsi ≠ 0 := by
        intro hzero
        simp [ready, hzero] at hdsi
      rw [Kevent.fireKey_le_iff] at hkey
      exact (hkey.resolve_left hne).2

theorem nextTimerTurn_eq (set : Setting T Q) (now : Clock → ℕ) (c : Clock) (delta : ℕ)
    (ho : m.Ordered) :
    m.nextTimerTurn set now c delta = (m.disarmAll (m.skipped (m.list c)),
      (m.earliest c).elim (some delta) fun ds ↦
        if m.target ds ≤ now (clockOf (m.ds ds)) then none
        else some (min delta (remaining set (m.ds ds) (now (clockOf (m.ds ds)))))) := by
  rw [nextTimerTurn, scanTimers_eq, earliest, find_ready (ho c)]
  cases hstop : (m.list c).find? m.stops with
  | none => rfl
  | some ds =>
      have htarget : (m.disarmAll (m.skipped (m.list c))).target ds = m.target ds := rfl
      have hds : (m.disarmAll (m.skipped (m.list c))).ds ds = m.ds ds := rfl
      simp only [htarget, hds, Option.filter_some]
      by_cases hset : m.target ds = 0
      · simp [hset]
      · simp only [hset, if_false, ne_eq, not_false_eq_true, decide_true, if_true, Option.elim_some]
        split <;> rfl

end Search

/-! ## The result of the call -/

section Result

variable (m : Mem S Q) (now : Clock → Clock → ℕ)

/-- How long it takes until the earliest timer of the list of `c` is due. -/
def delay (c : Clock) : Option ℕ :=
  (m.earliest c).map fun ds ↦ m.target ds - now c (clockOf (m.ds ds))

/-- The earliest timer of the list of `c` is due. -/
def Due (c : Clock) : Prop :=
  ∃ ds, m.earliest c = some ds ∧ m.target ds ≤ now c (clockOf (m.ds ds))

/-- A suspended timer that is set and comes before the earliest one, on a list that is looked
at. -/
def Passes (ds : S) : Prop :=
  ∃ c, (c = .mach → ¬ m.Due now .wall) ∧ (m.target ds ≠ 0 ∧ (m.src ds).suspended) ∧
    ds ∈ (m.list c).takeWhile fun dsi ↦ !m.ready dsi

/-- What `_dispatch_get_next_timer_fire` has to return and what it may do to the timers. -/
structure SleepsExactly (r : Mem S Q × Option Timespec) : Prop where
  due : (∃ c, m.Due now c) → r.2 = some ⟨0, 0⟩
  least : (¬ ∃ c, m.Due now c) → ∀ d ≤ foreverNsec, IsLeast {d | ∃ c, m.delay now c = some d} d →
    ∃ ts, r.2 = some ts ∧ ts.value = d
  null_iff : r.2 = none ↔ ∀ c d, m.delay now c = some d → foreverNsec < d
  nsec : ∀ ts, r.2 = some ts → 0 ≤ ts.tvNsec.toInt ∧ ts.tvNsec.toInt < 1000000000
  ds_eq : r.1.ds = m.ds
  list_eq : r.1.list = m.list
  disarmed : ∀ ds, m.Passes now ds → r.1.src ds = { m.src ds with dsIsArmed := false }
  untouched : ∀ ds, ¬ m.Passes now ds → r.1.src ds = m.src ds

def nextDelay : ℕ :=
  let delta := (m.delay now .wall).elim uint64Max (min uint64Max)
  (m.delay now .mach).elim delta (min delta)

section Delay

omit [DecidableEq S]

theorem nextDelay_eq :
    m.nextDelay now = uint64Max ∨ ∃ c, m.delay now c = some (m.nextDelay now) := by
  have helim : ∀ (delta : ℕ) (c : Clock), (m.delay now c).elim delta (min delta) = delta ∨
      m.delay now c = some ((m.delay now c).elim delta (min delta)) := by
    intro delta c
    cases m.delay now c with
    | none => exact .inl rfl
    | some d => exact (min_choice delta d).imp id fun hmin ↦ by rw [Option.elim_some, hmin]
  rcases helim ((m.delay now .wall).elim uint64Max (min uint64Max)) .mach with hmach | hmach
  · rcases helim uint64Max .wall with hwall | hwall
    · exact .inl (hmach.trans hwall)
    · exact .inr ⟨.wall, hwall.trans (congrArg some hmach.symm)⟩
  · exact .inr ⟨.mach, hmach⟩

variable {m now}

theorem nextDelay_le {c : Clock} {d : ℕ} (h : m.delay now c = some d) : m.nextDelay now ≤ d := by
  cases c with
  | wall =>
      rw [nextDelay, h]
      cases m.delay now .mach <;> simp
  | mach =>
      rw [nextDelay, h]
      exact min_le_right _ _

theorem forever_lt_nextDelay_iff :
    foreverNsec < m.nextDelay now ↔ ∀ c d, m.delay now c = some d → foreverNsec < d := by
  constructor
  · intro h c d hd
    exact h.trans_le (nextDelay_le hd)
  · intro h
    rcases m.nextDelay_eq now with hmax | ⟨c, hc⟩
    · rw [hmax]
      decide
    · exact h c _ hc

theorem nextDelay_of_isLeast {d : ℕ} (hle : d ≤ foreverNsec)
    (h : IsLeast {d | ∃ c, m.delay now c = some d} d) : m.nextDelay now = d := by
  obtain ⟨⟨c, hc⟩, hleast⟩ := h
  have hnext := nextDelay_le hc
  rcases m.nextDelay_eq now with hmax | hmem
  · have hlt : foreverNsec < uint64Max := by decide
    omega
  · exact le_antisymm hnext (hleast hmem)

end Delay

section Call

variable (set : Setting T Q) {m now}

omit [DecidableEq S] in
theorem remaining_oneToOne {set : Setting T Q} (hratio : set.mach2nano = id)
    (x : Kevent.Source S) (n : ℕ) :
    remaining set x n = x.dsTimer.target - n := by
  rw [remaining, hratio]
  exact ite_self _

theorem nextTimerTurn_of_due (ho : m.Ordered) {c : Clock} (h : m.Due now c) (delta : ℕ) :
    m.nextTimerTurn set (now c) c delta = (m.disarmAll (m.skipped (m.list c)), none) := by
  obtain ⟨ds, hds, hle⟩ := h
  rw [nextTimerTurn_eq set _ c delta ho, hds, Option.elim_some, if_pos hle]

theorem nextTimerTurn_of_not_due {set : Setting T Q} (hratio : set.mach2nano = id)
    (ho : m.Ordered) {c : Clock} (h : ¬ m.Due now c) (delta : ℕ) :
    m.nextTimerTurn set (now c) c delta =
      (m.disarmAll (m.skipped (m.list c)), some ((m.delay now c).elim delta (min delta))) := by
  rw [nextTimerTurn_eq set _ c delta ho, delay]
  cases hds : m.earliest c with
  | none => rfl
  | some ds =>
      have hlt : ¬ m.target ds ≤ now c (clockOf (m.ds ds)) := fun hle ↦ h ⟨ds, hds, hle⟩
      rw [Option.elim_some, if_neg hlt, remaining_oneToOne hratio]
      rfl

theorem due_disarmAll {c : Clock} (l : List S) : (m.disarmAll l).Due now c ↔ m.Due now c := by
  rw [Due, earliest_disarmAll]
  rfl

theorem delay_disarmAll (l : List S) : (m.disarmAll l).delay now = m.delay now := by
  funext c
  rw [delay, earliest_disarmAll]
  rfl

omit [DecidableEq S] in
theorem passes_iff (ho : m.Ordered) {ds : S} :
    m.Passes now ds ↔ ds ∈ m.skipped (m.list .wall) ∨
      ¬ m.Due now .wall ∧ ds ∈ m.skipped (m.list .mach) := by
  rw [mem_skipped (ho .wall), mem_skipped (ho .mach)]
  constructor
  · rintro ⟨c, hc, h⟩
    cases c with
    | wall => exact .inl h
    | mach => exact .inr ⟨hc rfl, h⟩
  · rintro (h | ⟨hwall, h⟩)
    · refine ⟨.wall, fun hc ↦ ?_, h⟩
      cases hc
    · exact ⟨.mach, fun _ ↦ hwall, h⟩

theorem nextTimerFire_due_wall (ho : m.Ordered) (h : m.Due now .wall) :
    m.dispatchGetNextTimerFire set now =
      (m.disarmAll (m.skipped (m.list .wall)), some ⟨0, 0⟩) := by
  rw [dispatchGetNextTimerFire, nextTimerTurn_of_due set ho h]

variable {set} (hratio : set.mach2nano = id)

include hratio

theorem nextTimerFire_due_mach (ho : m.Ordered) (hwall : ¬ m.Due now .wall)
    (h : m.Due now .mach) :
    m.dispatchGetNextTimerFire set now =
      (m.disarmAll (m.skipped (m.list .wall) ++ m.skipped (m.list .mach)), some ⟨0, 0⟩) := by
  have hmach : (m.disarmAll (m.skipped (m.list .wall))).Due now .mach := (due_disarmAll _).mpr h
  rw [dispatchGetNextTimerFire, nextTimerTurn_of_not_due hratio ho hwall]
  simp only [nextTimerTurn_of_due set (ho.disarmAll _) hmach, skipped_disarmAll,
    disarmAll_disarmAll]
  rfl

theorem nextTimerFire_not_due (ho : m.Ordered) (h : ¬ ∃ c, m.Due now c) :
    m.dispatchGetNextTimerFire set now =
      (m.disarmAll (m.skipped (m.list .wall) ++ m.skipped (m.list .mach)),
        if m.nextDelay now > foreverNsec then none
        else some (.ofNsec (BitVec.ofNat 64 (m.nextDelay now)))) := by
  have hwall : ¬ m.Due now .wall := fun hdue ↦ h ⟨_, hdue⟩
  have hmach : ¬ (m.disarmAll (m.skipped (m.list .wall))).Due now .mach :=
    fun hdue ↦ h ⟨_, (due_disarmAll _).mp hdue⟩
  rw [dispatchGetNextTimerFire, nextTimerTurn_of_not_due hratio ho hwall]
  simp only [nextTimerTurn_of_not_due hratio (ho.disarmAll _) hmach, skipped_disarmAll,
    disarmAll_disarmAll, delay_disarmAll]
  rfl

omit hratio

theorem sleepsExactly_of_due {l : List S} (hdue : ∃ c, m.Due now c)
    (hl : ∀ ds, m.Passes now ds ↔ ds ∈ l) : m.SleepsExactly now (m.disarmAll l, some ⟨0, 0⟩) where
  due _ := rfl
  least h := absurd hdue h
  null_iff := by
    obtain ⟨c, ds, hds, hle⟩ := hdue
    have hdelay : m.delay now c = some 0 := by
      rw [delay, hds, Option.map_some, Nat.sub_eq_zero_of_le hle]
    refine ⟨fun h ↦ ?_, fun h ↦ absurd (h c 0 hdelay) (Nat.not_lt_zero _)⟩
    cases h
  nsec ts h := by
    cases h
    decide
  ds_eq := rfl
  list_eq := rfl
  disarmed ds h := if_pos ((hl ds).mp h)
  untouched ds h := if_neg fun hmem ↦ h ((hl ds).mpr hmem)

theorem sleepsExactly_of_not_due {l : List S} (hdue : ¬ ∃ c, m.Due now c)
    (hl : ∀ ds, m.Passes now ds ↔ ds ∈ l) :
    m.SleepsExactly now (m.disarmAll l,
      if m.nextDelay now > foreverNsec then none
      else some (.ofNsec (BitVec.ofNat 64 (m.nextDelay now)))) where
  due h := absurd h hdue
  least _ d hle hleast := by
    have hnext := nextDelay_of_isLeast hle hleast
    have hfits : d < 2 ^ 64 := hle.trans_lt (by decide)
    refine ⟨.ofNsec (BitVec.ofNat 64 d), ?_, ?_⟩
    · rw [hnext, if_neg (not_lt.mpr hle)]
    · rw [Time.value_ofNsec, BitVec.toNat_ofNat, Nat.mod_eq_of_lt hfits]
  null_iff := by
    rw [← forever_lt_nextDelay_iff]
    split
    · exact ⟨fun _ ↦ ‹_›, fun _ ↦ rfl⟩
    · refine ⟨fun h ↦ ?_, fun h ↦ absurd h ‹_›⟩
      cases h
  nsec ts h := by
    split at h
    · cases h
    · cases h
      rw [Time.toInt_tvNsec_ofNsec]
      omega
  ds_eq := rfl
  list_eq := rfl
  disarmed ds h := if_pos ((hl ds).mp h)
  untouched ds h := if_neg fun hmem ↦ h ((hl ds).mpr hmem)

end Call

end Result

end Mem

/-! ## The call as steps of the manager -/

section Alone

variable [DecidableEq T] [DecidableEq Q] (set : Setting T Q) (t : T)

theorem alone_scanTimers (m : Mem S Q) (c : Clock) (l : List S) (p : Plan) :
    Relation.ReflTransGen (Pool.Alone (step set) t) (m, ⟨.scan c l p, none⟩)
      ((m.scanTimers l).1, ⟨match (m.scanTimers l).2 with
        | none => nextList m p c
        | some ds => if m.target ds = 0 then nextList m p c else .chosen c ds p, none⟩) := by
  induction l generalizing m with
  | nil => exact .single ⟨.go, rfl⟩
  | cons ds rest ih =>
      rw [Mem.scanTimers]
      by_cases hset : m.target ds = 0
      · rw [if_pos hset]
        refine .single ⟨.go, ?_⟩
        simp [step, dispatchGetNextTimerFire, hset]
      · rw [if_neg hset]
        by_cases hsus : (m.src ds).suspended = true
        · rw [if_pos hsus]
          have htest : Pool.Alone (step set) t (m, ⟨.scan c (ds :: rest) p, none⟩)
              (m, ⟨.disarm c ds rest p, none⟩) :=
            ⟨.go, by simp [step, dispatchGetNextTimerFire, hset, hsus]⟩
          have hdisarm : Pool.Alone (step set) t (m, ⟨.disarm c ds rest p, none⟩)
              (m.disarm ds, ⟨.scan c rest p, none⟩) := ⟨.go, rfl⟩
          exact .head htest (.head hdisarm (ih (m.disarm ds)))
        · rw [if_neg hsus]
          refine .single ⟨.go, ?_⟩
          simp [step, dispatchGetNextTimerFire, hset, hsus]

omit [DecidableEq T] [DecidableEq Q] in
theorem list_nextTimerTurn (now : Clock → ℕ) (c : Clock) (m : Mem S Q) (delta : ℕ) :
    (m.nextTimerTurn set now c delta).1.list = m.list := by
  rw [Mem.nextTimerTurn, Mem.scanTimers_eq]
  cases (m.list c).find? m.stops with
  | none => rfl
  | some ds =>
      dsimp only
      split
      · rfl
      · split <;> rfl

theorem alone_nextTimerTurn (now : Clock → ℕ) (m : Mem S Q) (c : Clock) (p : Plan) :
    ((m.nextTimerTurn set now c p.delta).2 = none ∧
      Relation.ReflTransGen (Pool.Alone (step set) t) (m, ⟨.scan c (m.list c) p, none⟩)
        ((m.nextTimerTurn set now c p.delta).1, ⟨.drain, none⟩)) ∨
    ∃ p' : Plan, (m.nextTimerTurn set now c p.delta).2 = some p'.delta ∧
      Relation.ReflTransGen (Pool.Alone (step set) t) (m, ⟨.scan c (m.list c) p, none⟩)
        ((m.nextTimerTurn set now c p.delta).1, ⟨nextList m p' c, none⟩) := by
  have hscan := alone_scanTimers set t m c (m.list c) p
  rw [Mem.nextTimerTurn]
  rw [Mem.scanTimers_eq] at hscan ⊢
  cases hstop : (m.list c).find? m.stops with
  | none =>
      rw [hstop] at hscan
      exact .inr ⟨p, rfl, hscan⟩
  | some ds =>
      rw [hstop] at hscan
      set m' := m.disarmAll (m.skipped (m.list c))
      have htarget : m'.target ds = m.target ds := rfl
      simp only [htarget] at hscan ⊢
      by_cases hset : m.target ds = 0
      · rw [if_pos hset] at hscan ⊢
        exact .inr ⟨p, rfl, hscan⟩
      · rw [if_neg hset] at hscan ⊢
        by_cases hle : m.target ds ≤ now (clockOf (m'.ds ds))
        · rw [if_pos hle]
          refine .inl ⟨rfl, hscan.tail ⟨.clock (now (clockOf (m'.ds ds))), ?_⟩⟩
          simp [step, dispatchGetNextTimerFire, htarget, hle]
        · rw [if_neg hle]
          refine .inr ⟨p.read (now (clockOf (m'.ds ds)))
            (remaining set (m'.ds ds) (now (clockOf (m'.ds ds)))) c, ?_, ?_⟩
          · rw [delta_read]
          · refine hscan.tail ⟨.clock (now (clockOf (m'.ds ds))), ?_⟩
            simp only [step, dispatchGetNextTimerFire, htarget, hle, if_false]
            rfl

/-- Left alone, the manager gets from the first list to where it waits or only polls, and has
done to the timers what the call does. -/
theorem alone_dispatchGetNextTimerFire (now : Clock → Clock → ℕ) (m : Mem S Q) :
    ∃ place, Relation.ReflTransGen (Pool.Alone (step set) t)
        (m, ⟨.scan .wall (m.list .wall) {}, none⟩)
        ((m.dispatchGetNextTimerFire set now).1, ⟨place, none⟩) ∧
      (place = .drain ∧ (m.dispatchGetNextTimerFire set now).2 = some ⟨0, 0⟩ ∨
        ∃ p, place = .wait p ∧ (m.dispatchGetNextTimerFire set now).2 =
          (p.timeout false).map fun n ↦ Timespec.ofNsec (BitVec.ofNat 64 n)) := by
  rw [Mem.dispatchGetNextTimerFire]
  have hwall := alone_nextTimerTurn set t (now .wall) m .wall {}
  have hlist := list_nextTimerTurn set (now .wall) .wall m uint64Max
  cases hturn : m.nextTimerTurn set (now .wall) .wall uint64Max with
  | mk m₁ r₁ =>
      rw [hturn] at hwall hlist
      rcases hwall with ⟨rfl, hrun⟩ | ⟨p, rfl, hrun⟩
      · exact ⟨.drain, hrun, .inl ⟨rfl, rfl⟩⟩
      · have hmach := alone_nextTimerTurn set t (now .mach) m₁ .mach p
        rw [show m₁.list .mach = m.list .mach from congrFun hlist _] at hmach
        cases hturn₂ : m₁.nextTimerTurn set (now .mach) .mach p.delta with
        | mk m₂ r₂ =>
            rw [hturn₂] at hmach
            rcases hmach with ⟨rfl, hrun₂⟩ | ⟨p₂, rfl, hrun₂⟩
            · refine ⟨.drain, ?_, .inl ⟨rfl, ?_⟩⟩
              · simpa only [hturn₂] using hrun.trans hrun₂
              · simp only [hturn₂]
            · refine ⟨.wait p₂, ?_, .inr ⟨p₂, rfl, ?_⟩⟩
              · simpa only [hturn₂, nextList] using hrun.trans hrun₂
              · simp only [hturn₂, Plan.timeout]
                split <;> rfl

end Alone

/-- The manager sleeps exactly until the first timer that is not suspended has to fire. -/
theorem dispatchGetNextTimerFire_exact (set : Setting T Q) (hratio : set.mach2nano = id)
    (m : Mem S Q) (ho : m.Ordered) (now : Clock → Clock → ℕ) :
    (∀ c ds, m.earliest c = some ds →
      ds ∈ m.list c ∧ m.ready ds ∧ ∀ dsi ∈ m.list c, m.ready dsi → m.target ds ≤ m.target dsi) ∧
    (∀ c, m.earliest c = none → ∀ ds ∈ m.list c, ¬ m.ready ds) ∧
    m.SleepsExactly now (m.dispatchGetNextTimerFire set now) := by
  refine ⟨fun c ds h ↦ Mem.earliest_le ho h, fun c h ↦ List.find?_eq_none.mp h, ?_⟩
  by_cases hwall : m.Due now .wall
  · rw [Mem.nextTimerFire_due_wall set ho hwall]
    refine Mem.sleepsExactly_of_due ⟨_, hwall⟩ fun ds ↦ ?_
    rw [Mem.passes_iff ho]
    tauto
  · have hpasses : ∀ ds, m.Passes now ds ↔
        ds ∈ m.skipped (m.list .wall) ++ m.skipped (m.list .mach) := by
      intro ds
      rw [Mem.passes_iff ho, List.mem_append]
      tauto
    by_cases hmach : m.Due now .mach
    · rw [Mem.nextTimerFire_due_mach hratio ho hwall hmach]
      exact Mem.sleepsExactly_of_due ⟨_, hmach⟩ hpasses
    · have hnone : ¬ ∃ c, m.Due now c := by
        rintro ⟨c, hc⟩
        cases c
        · exact hwall hc
        · exact hmach hc
      rw [Mem.nextTimerFire_not_due hratio ho hnone]
      exact Mem.sleepsExactly_of_not_due hnone hpasses

/-- A timer of the wall clock, and two of the monotonic clock, of which the first one is
suspended. -/
def threeTimers : Mem (Fin 3) (Fin 2) where
  ds i := { dsType := .timer, dsDkev := none, dsIsInstalled := true, dsPendingDataMask := 0
            dsIdentHack := if i = 0 then 0 else 1, fires := 0
            dsTimer := if i = 0 then ⟨10000000000, 10000000000, 1, 0, 4⟩
              else if i = 1 then ⟨50, 50, 1, 0, 0⟩ else ⟨2500000040, 2500000040, 1, 0, 0⟩ }
  list c := if c = .wall then [0] else [1, 2]
  src i := { suspendedOnce with doSuspendCnt := if i = 1 then 2 else 0 }

theorem dispatchGetNextTimerFire_exact_threeTimers :
    (∃ ts, (threeTimers.dispatchGetNextTimerFire twoThreads fun _ _ ↦ 40).2 = some ts ∧
      ts.value = 2500000000) ∧
    (((threeTimers.dispatchGetNextTimerFire twoThreads
      fun _ _ ↦ 40).1.src 1).dsIsArmed = false) := by
  have ho : threeTimers.Ordered := by
    intro c
    cases c <;> simp [threeTimers, Mem.target, Kevent.fireKey_le_iff]
  have hexact := (dispatchGetNextTimerFire_exact twoThreads rfl threeTimers ho fun _ _ ↦ 40).2.2
  have hdelay : ∀ c, threeTimers.delay (fun _ _ ↦ 40) c =
      some (if c = .wall then 9999999960 else 2500000000) := by
    intro c
    cases c <;> decide
  have hdue : ¬ ∃ c, threeTimers.Due (fun _ _ ↦ 40) c := by
    rintro ⟨c, ds, hds, hle⟩
    have hc := hdelay c
    rw [Mem.delay, hds, Option.map_some, Nat.sub_eq_zero_of_le hle] at hc
    cases c <;> cases hc
  refine ⟨hexact.least hdue _ (by decide) ⟨⟨.mach, hdelay .mach⟩, ?_⟩, ?_⟩
  · rintro d ⟨c, hc⟩
    rw [hdelay] at hc
    cases c <;> cases hc <;> decide
  · rw [hexact.disarmed 1 ⟨.mach, fun _ h ↦ hdue ⟨_, h⟩, by decide, by decide⟩]

end LibDispatch.TimerLoop
