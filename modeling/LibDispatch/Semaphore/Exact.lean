import LibDispatch.Semaphore.Model

/-!
# The counting semaphore is exact

Three accounts describe a semaphore in use.  Its value is the initial value
and the signals, less the waits that have returned zero and those still in
the slow path.  Each thread in the slow path is one unit below zero of the
value, one sent ksignal, or one signal on its way to send one.  And for every
sent ksignal there is a unit in the kernel, a post about to be made, or a
thread that is about to look at the ksignals.  All three hold as long as no
atomic increment or decrement wraps.
-/

namespace LibDispatch.Semaphore

open Interleaving

variable {T : Type*}

/-- The atomic increments and decrements that do not wrap. -/
def NoWrap (s : Pool T Mem Loc) (t : T) (a : Act) : Prop :=
  match s.loc t, a with
  | .idle, .wait _ => s.mem.dsemaValue ≠ longMin
  | .idle, .signal => s.mem.dsemaValue ≠ longMax
  | .sendKsignal, .go => s.mem.dsemaSentKsignals ≠ longMax
  | _, _ => True

instance (s : Pool T Mem Loc) (t : T) (a : Act) : Decidable (NoWrap s t a) := by
  unfold NoWrap
  split <;> infer_instance

def InRange (m : Mem) : Prop :=
  (longMin ≤ m.dsemaValue ∧ m.dsemaValue ≤ longMax) ∧
    0 ≤ m.dsemaSentKsignals ∧ m.dsemaSentKsignals ≤ longMax

/-- What the code knows about the values a thread has loaded: inside the loops
of the slow wait, `orig` is a nonzero ksignal count or a negative value, and the
call has so far taken one from `dsema_value` and nothing else. -/
def Loc.Sound : Loc → Prop
  | .takeKsignal _ added orig => added = -1 ∧ orig ≠ 0
  | .undoSwap _ added orig => added = -1 ∧ orig < 0
  | .again _ added | .timedWait _ added | .undo _ added | .kernelWait _ added => added = -1
  | .idle | .sendKsignal | .post => True

inductive Trans (m : Mem) : Loc → Mem → Loc → Prop
  | waitFast : 0 < m.dsemaValue →
      Trans m .idle ({ m with dsemaValue := m.dsemaValue - 1 }.returned ⟨false, -1, 0⟩) .idle
  | waitSlow (timeout : Timeout) : m.dsemaValue ≤ 0 → longMin < m.dsemaValue →
      Trans m .idle { m with dsemaValue := m.dsemaValue - 1 } (.again timeout (-1))
  | signalFast : 0 ≤ m.dsemaValue → m.dsemaValue < longMax →
      Trans m .idle
        { m with dsemaValue := m.dsemaValue + 1, signals := m.signals + 1 } .idle
  | signalSlow : m.dsemaValue < 0 →
      Trans m .idle
        { m with dsemaValue := m.dsemaValue + 1, signals := m.signals + 1 } .sendKsignal
  | seeKsignal {timeout : Timeout} {added : ℤ} : m.dsemaSentKsignals ≠ 0 →
      Trans m (.again timeout added) m (.takeKsignal timeout added m.dsemaSentKsignals)
  | undoNow {added : ℤ} : m.dsemaSentKsignals = 0 →
      Trans m (.again .now added) m (.undo .now added)
  | sleepFinite {added : ℤ} : m.dsemaSentKsignals = 0 →
      Trans m (.again .finite added) m (.timedWait .finite added)
  | sleepForever {added : ℤ} : m.dsemaSentKsignals = 0 →
      Trans m (.again .forever added) m (.kernelWait .forever added)
  | tookKsignal {timeout : Timeout} {added orig : ℤ} : m.dsemaSentKsignals = orig →
      Trans m (.takeKsignal timeout added orig)
        ({ m with dsemaSentKsignals := orig - 1 }.returned ⟨false, added, -1⟩) .idle
  | missedKsignal {timeout : Timeout} {added orig : ℤ} :
      Trans m (.takeKsignal timeout added orig) m (.again timeout added)
  | wokeTimed {timeout : Timeout} {added : ℤ} : 0 < m.ksem →
      Trans m (.timedWait timeout added) { m with ksem := m.ksem - 1 } (.again timeout added)
  | woke {timeout : Timeout} {added : ℤ} : 0 < m.ksem →
      Trans m (.kernelWait timeout added) { m with ksem := m.ksem - 1 } (.again timeout added)
  | expired {timeout : Timeout} {added : ℤ} :
      Trans m (.timedWait timeout added) m (.undo timeout added)
  | undoing {timeout : Timeout} {added : ℤ} : m.dsemaValue < 0 →
      Trans m (.undo timeout added) m (.undoSwap timeout added m.dsemaValue)
  | signalled {timeout : Timeout} {added : ℤ} : 0 ≤ m.dsemaValue →
      Trans m (.undo timeout added) m (.kernelWait timeout added)
  | undone {timeout : Timeout} {added orig : ℤ} : m.dsemaValue = orig →
      Trans m (.undoSwap timeout added orig)
        ({ m with dsemaValue := orig + 1 }.returned ⟨true, added + 1, 0⟩) .idle
  | undoMissed {timeout : Timeout} {added orig : ℤ} :
      Trans m (.undoSwap timeout added orig) m (.undo timeout added)
  | sent : m.dsemaSentKsignals < longMax →
      Trans m .sendKsignal { m with dsemaSentKsignals := m.dsemaSentKsignals + 1 } .post
  | posted : Trans m .post { m with ksem := m.ksem + 1 } .idle

theorem trans_of_wait {m m' : Mem} {l' : Loc} {timeout : Timeout} (hr : InRange m)
    (hw : m.dsemaValue ≠ longMin) (h : dispatchSemaphoreWait timeout m = (m', l')) :
    Trans m .idle m' l' := by
  have hval : wrap (m.dsemaValue - 1) = m.dsemaValue - 1 :=
    wrap_of_mem (by have := hr.1.1; omega) (by have := hr.1.2; omega)
  simp only [dispatchSemaphoreWait, hval] at h
  split at h <;> rename_i hge <;> obtain ⟨rfl, rfl⟩ := Prod.mk.inj h
  · rw [show m.dsemaValue - 1 - m.dsemaValue = -1 by ring]
    exact .waitFast (by omega)
  · rw [show m.dsemaValue - 1 - m.dsemaValue = -1 by ring]
    exact .waitSlow timeout (by omega) (lt_of_le_of_ne hr.1.1 hw.symm)

theorem trans_of_signal {m m' : Mem} {l' : Loc} (hr : InRange m)
    (hw : m.dsemaValue ≠ longMax) (h : dispatchSemaphoreSignal m = (m', l')) :
    Trans m .idle m' l' := by
  have hval : wrap (m.dsemaValue + 1) = m.dsemaValue + 1 :=
    wrap_of_mem (by have := hr.1.1; omega) (by have := hr.1.2; omega)
  simp only [dispatchSemaphoreSignal, hval] at h
  split at h <;> rename_i hpos <;> obtain ⟨rfl, rfl⟩ := Prod.mk.inj h
  · exact .signalFast (by omega) (lt_of_le_of_ne hr.1.2 hw)
  · exact .signalSlow (by omega)

theorem trans_of_waitSlow {m m' : Mem} {l l' : Loc}
    (h : dispatchSemaphoreWaitSlow m l = some (m', l')) : Trans m l m' l' := by
  unfold dispatchSemaphoreWaitSlow at h
  split at h
  · split at h
    · cases h
      exact .seeKsignal ‹_›
    · rename_i hk
      have hk' : m.dsemaSentKsignals = 0 := not_not.mp hk
      split at h <;> cases h
      · exact .undoNow hk'
      · exact .sleepFinite hk'
      · exact .sleepForever hk'
  · split at h <;> cases h
    · exact .tookKsignal ‹_›
    · exact .missedKsignal
  · split at h <;> cases h
    exact .wokeTimed ‹_›
  · split at h <;> cases h
    exact .woke ‹_›
  · split at h <;> rename_i hneg <;> cases h
    · exact .undoing hneg
    · exact .signalled (not_lt.mp hneg)
  · split at h <;> cases h
    · exact .undone ‹_›
    · exact .undoMissed
  · cases h

theorem trans_of_step {s : Pool T Mem Loc} {t : T} {a : Act} {m' : Mem} {l' : Loc}
    (hr : InRange s.mem) (hw : NoWrap s t a)
    (h : step t a s.mem (s.loc t) = some (m', l')) : Trans s.mem (s.loc t) m' l' := by
  unfold step at h
  unfold NoWrap at hw
  generalize s.loc t = l at h hw
  split at h
  · exact trans_of_wait hr hw (Option.some.inj h)
  · exact trans_of_signal hr hw (Option.some.inj h)
  · cases h
    exact .expired
  · simp only [dispatchSemaphoreSignalSlow, Option.some.injEq, Prod.mk.injEq] at h
    obtain ⟨rfl, rfl⟩ := h
    have hval : wrap (s.mem.dsemaSentKsignals + 1) = s.mem.dsemaSentKsignals + 1 :=
      wrap_of_mem (by have := hr.2.1; unfold longMin; omega) (by have := hr.2.2; omega)
    rw [hval]
    exact .sent (lt_of_le_of_ne hr.2.2 hw)
  · cases h
    exact .posted
  · exact trans_of_waitSlow h
  · cases h

/-! ## The accounts -/

/-- One for each thread in the slow path of a wait. -/
def Loc.waiting : Loc → ℤ
  | .idle | .sendKsignal | .post => 0
  | _ => 1

/-- One for each signal that is about to send a ksignal. -/
def Loc.committed : Loc → ℤ
  | .sendKsignal => 1
  | _ => 0

/-- One for each thread that will post to the kernel or look at the ksignals. -/
def Loc.attending : Loc → ℤ
  | .post | .again .. | .takeKsignal .. => 1
  | _ => 0

theorem Loc.attending_nonneg (l : Loc) : 0 ≤ l.attending := by
  cases l <;> simp [attending]

def Mem.returnedZero (m : Mem) : ℕ := m.returns.countP fun r ↦ !r.timedOut

@[simp] theorem Mem.returnedZero_returned (m : Mem) (r : WaitReturn) :
    (m.returned r).returnedZero = m.returnedZero + if r.timedOut then 0 else 1 := by
  cases hr : r.timedOut <;> simp [returnedZero, returned, hr]

theorem Trans.sound {m m' : Mem} {l l' : Loc} (h : Trans m l m' l') (hl : l.Sound) :
    l'.Sound := by
  cases h <;> simp_all [Loc.Sound]

theorem Trans.inRange {m m' : Mem} {l l' : Loc} (h : Trans m l m' l') (hl : l.Sound)
    (hr : InRange m) : InRange m' := by
  have hbounds : longMin < 0 ∧ 0 < longMax := by norm_num [longMin, longMax]
  cases h <;> simp_all [InRange, Mem.returned, Loc.Sound] <;> omega

theorem Trans.value_eq {m m' : Mem} {l l' : Loc} (h : Trans m l m' l') :
    m'.dsemaValue + m'.returnedZero - m'.signals + l'.waiting =
      m.dsemaValue + m.returnedZero - m.signals + l.waiting := by
  cases h <;> simp_all [Mem.returned, Mem.returnedZero, Loc.waiting] <;> omega

theorem Trans.slow_eq {m m' : Mem} {l l' : Loc} (h : Trans m l m' l') (hl : l.Sound) :
    max 0 (-m'.dsemaValue) + m'.dsemaSentKsignals - (l'.waiting - l'.committed) =
      max 0 (-m.dsemaValue) + m.dsemaSentKsignals - (l.waiting - l.committed) := by
  cases h <;> simp_all [Mem.returned, Loc.waiting, Loc.committed, Loc.Sound] <;> omega

/-- The account of the kernel: unless no ksignal is left, a step keeps what
covers the sent ksignals. -/
theorem Trans.kernel_le {m m' : Mem} {l l' : Loc} (h : Trans m l m' l') :
    m'.dsemaSentKsignals = 0 ∨
      m.ksem + l.attending - m.dsemaSentKsignals ≤
        m'.ksem + l'.attending - m'.dsemaSentKsignals := by
  cases h <;> simp_all [Mem.returned, Loc.attending]
  all_goals omega

/-! ## Exactness -/

def Loc.Blocked : Loc → Prop
  | .timedWait .. | .kernelWait .. => True
  | _ => False

instance : DecidablePred Loc.Blocked := fun l ↦ by
  cases l <;> unfold Loc.Blocked <;> infer_instance

/-- No thread is between two steps other than blocked in the kernel wait. -/
def Quiescent (s : Pool T Mem Loc) : Prop :=
  ∀ t, s.loc t = .idle ∨ (s.loc t).Blocked

section Quiescent

variable [Fintype T] {s : Pool T Mem Loc}

/-- What a semaphore created with value `v` owes its users. -/
structure Exact (v : ℤ) (s : Pool T Mem Loc) : Prop where
  returned_le : (s.mem.returnedZero : ℤ) ≤ v + s.mem.signals
  timedOut_traceless :
    ∀ r ∈ s.mem.returns, r.timedOut → r.valueEffect = 0 ∧ r.ksignalsEffect = 0
  blocked_eq : Quiescent s → s.mem.ksem = 0 →
    ((Finset.univ.filter fun t ↦ (s.loc t).Blocked).card : ℤ) = max 0 (-s.mem.dsemaValue)

theorem Quiescent.attending_eq (h : Quiescent s) : ∑ t, (s.loc t).attending = 0 := by
  refine Finset.sum_eq_zero fun t _ ↦ ?_
  rcases h t with ht | ht
  · simp [ht, Loc.attending]
  · cases hl : s.loc t <;> simp_all [Loc.Blocked, Loc.attending]

theorem Quiescent.waiting_eq (h : Quiescent s) :
    ∑ t, ((s.loc t).waiting - (s.loc t).committed) =
      (Finset.univ.filter fun t ↦ (s.loc t).Blocked).card := by
  rw [Finset.card_filter, Nat.cast_sum]
  refine Finset.sum_congr rfl fun t _ ↦ ?_
  rcases h t with ht | ht
  · simp [ht, Loc.waiting, Loc.committed, Loc.Blocked]
  · cases hl : s.loc t <;> simp_all [Loc.Blocked, Loc.waiting, Loc.committed]

end Quiescent

section Runs

variable [DecidableEq T] {v : ℤ} {m₀ : Mem} {s : Pool T Mem Loc}

theorem inRange_of_create (hv : v ≤ longMax) (hm : dispatchSemaphoreCreate v = some m₀) :
    InRange m₀ ∧ m₀ = ⟨v, 0, 0, 0, []⟩ ∧ 0 ≤ v := by
  unfold dispatchSemaphoreCreate at hm
  split at hm
  · cases hm
  · rename_i hneg
    cases hm
    have hbounds : longMin < 0 ∧ 0 < longMax := by norm_num [longMin, longMax]
    refine ⟨⟨⟨?_, hv⟩, le_rfl, ?_⟩, rfl, not_lt.mp hneg⟩ <;> simp only <;> omega

theorem inRange_and_sound (h : Pool.Runs step NoWrap (created m₀) s) (hm : InRange m₀) :
    InRange s.mem ∧ ∀ t, (s.loc t).Sound := by
  refine h.invariant (I := fun s ↦ InRange s.mem ∧ ∀ t, (s.loc t).Sound)
    ⟨hm, fun _ ↦ trivial⟩ ?_
  rintro s t a m l - ⟨hr, hl⟩ hC hP
  have htrans := trans_of_step hr hC hP
  refine ⟨htrans.inRange (hl t) hr, fun u ↦ ?_⟩
  rcases eq_or_ne u t with rfl | hu
  · simpa using htrans.sound (hl u)
  · simpa [hu] using hl u

theorem trans_of_run (h : Pool.Runs step NoWrap (created m₀) s) (hm : InRange m₀) {t : T}
    {a : Act} {m' : Mem} {l' : Loc} (hC : NoWrap s t a)
    (hP : step t a s.mem (s.loc t) = some (m', l')) :
    Trans s.mem (s.loc t) m' l' ∧ (s.loc t).Sound :=
  have hinv := inRange_and_sound h hm
  ⟨trans_of_step hinv.1 hC hP, hinv.2 t⟩

theorem timedOut_effect (h : Pool.Runs step NoWrap (created m₀) s) (hm : InRange m₀)
    (hnil : m₀.returns = []) :
    ∀ r ∈ s.mem.returns, r.timedOut → r.valueEffect = 0 ∧ r.ksignalsEffect = 0 := by
  refine h.invariant (I := fun s ↦ ∀ r ∈ s.mem.returns,
    r.timedOut → r.valueEffect = 0 ∧ r.ksignalsEffect = 0) (by simp [created, hnil]) ?_
  intro s t a m l hr hI hC hP
  obtain ⟨htrans, hsound⟩ := trans_of_run hr hm hC hP
  generalize s.loc t = l₀ at htrans hsound
  cases htrans <;> simp_all [Mem.returned, Loc.Sound]

variable [Fintype T]

theorem value_account (h : Pool.Runs step NoWrap (created ⟨v, 0, 0, 0, []⟩) s)
    (hm : InRange ⟨v, 0, 0, 0, []⟩) :
    s.mem.dsemaValue + s.mem.returnedZero - s.mem.signals - v =
      ∑ t, -(s.loc t).waiting := by
  refine h.balance (fun m ↦ m.dsemaValue + m.returnedZero - m.signals - v)
    (fun _ l ↦ -l.waiting) (by simp [created, Mem.returnedZero, Loc.waiting]) ?_
  intro s t a m l hr _ hC hP
  have hval := (trans_of_run hr hm hC hP).1.value_eq
  linarith

theorem slow_account (h : Pool.Runs step NoWrap (created ⟨v, 0, 0, 0, []⟩) s)
    (hm : InRange ⟨v, 0, 0, 0, []⟩) (hv : 0 ≤ v) :
    max 0 (-s.mem.dsemaValue) + s.mem.dsemaSentKsignals =
      ∑ t, ((s.loc t).waiting - (s.loc t).committed) := by
  refine h.balance (fun m ↦ max 0 (-m.dsemaValue) + m.dsemaSentKsignals)
    (fun _ l ↦ l.waiting - l.committed) ?_ ?_
  · simp [created, Loc.waiting, Loc.committed, hv]
  · intro s t a m l hr _ hC hP
    have htrans := trans_of_run hr hm hC hP
    exact htrans.1.slow_eq htrans.2

/-- Each sent ksignal is covered by the kernel count, by a post about to be
made, or by a thread about to look at the ksignals. -/
theorem kernel_account (h : Pool.Runs step NoWrap (created ⟨v, 0, 0, 0, []⟩) s)
    (hm : InRange ⟨v, 0, 0, 0, []⟩) :
    s.mem.dsemaSentKsignals ≤ (s.mem.ksem : ℤ) + ∑ t, (s.loc t).attending := by
  refine h.invariant
    (I := fun s ↦ s.mem.dsemaSentKsignals ≤ (s.mem.ksem : ℤ) + ∑ t, (s.loc t).attending)
    (by simp [created, Loc.attending]) ?_
  intro s t a m l hr hI hC hP
  have hnonneg : 0 ≤ ∑ u, (Function.update s.loc t l u).attending :=
    Finset.sum_nonneg fun u _ ↦ Loc.attending_nonneg _
  rcases (trans_of_run hr hm hC hP).1.kernel_le with hzero | hle
  · simp only [hzero]
    positivity
  · have hsum := Pool.sum_update (fun _ l ↦ Loc.attending l) s.loc t l
    simp only [hsum]
    linarith

/-- As long as no atomic increment or decrement wraps, the semaphore is exact in
every state that its users can bring it to. -/
theorem exact_of_noWrap {v : ℤ} {m₀ : Mem} {s : Pool T Mem Loc} (hv : v ≤ longMax)
    (hm : dispatchSemaphoreCreate v = some m₀)
    (h : Pool.Runs step NoWrap (created m₀) s) : Exact v s := by
  obtain ⟨hr, rfl, hpos⟩ := inRange_of_create hv hm
  have hvalue := value_account h hr
  have hslow := slow_account h hr hpos
  have hkernel := kernel_account h hr
  have hks : 0 ≤ s.mem.dsemaSentKsignals := (inRange_and_sound h hr).1.2.1
  refine ⟨?_, timedOut_effect h hr rfl, fun hq hk ↦ ?_⟩
  · have hcommitted : 0 ≤ ∑ t, (s.loc t).committed :=
      Finset.sum_nonneg fun t _ ↦ by cases s.loc t <;> simp [Loc.committed]
    simp only [Finset.sum_neg_distrib, Finset.sum_sub_distrib] at hvalue hslow
    have hmax : -s.mem.dsemaValue ≤ max 0 (-s.mem.dsemaValue) := le_max_right _ _
    linarith
  · rw [hq.attending_eq, hk] at hkernel
    rw [hq.waiting_eq] at hslow
    push_cast at hkernel
    linarith

/-- One thread on a semaphore created with value one: its first wait returns at
once, its second one gives up. -/
theorem exact_of_noWrap_wait_twice :
    ∃ s : Pool Unit Mem Loc, s.mem.returns = [⟨true, 0, 0⟩, ⟨false, -1, 0⟩] ∧ Exact 1 s :=
  ⟨((created ⟨1, 0, 0, 0, []⟩).run step NoWrap [((), .wait .forever), ((), .wait .now),
      ((), .go), ((), .go), ((), .go)]).get (by decide), by decide,
    exact_of_noWrap (by decide) rfl (Pool.runs_get _)⟩

end Runs

/-! ## Wrapping -/

theorem reachable_fast_waits (n : ℕ) (m : Mem) (hn : n ≤ m.dsemaValue)
    (hmax : m.dsemaValue ≤ longMax) :
    ∃ m', Pool.Reachable step (created (T := Unit) m) (created m') ∧
      m'.dsemaValue = m.dsemaValue - n ∧ m'.dsemaSentKsignals = m.dsemaSentKsignals ∧
      m'.signals = m.signals ∧ m'.returnedZero = m.returnedZero + n := by
  induction n with
  | zero => exact ⟨m, .refl, by simp⟩
  | succ n ih =>
      obtain ⟨m', hreach, hval, hks, hsig, hret⟩ := ih (by push_cast at hn; omega)
      have hwrap : wrap (m'.dsemaValue - 1) = m'.dsemaValue - 1 :=
        wrap_of_mem (by unfold longMin; push_cast at hn; omega) (by omega)
      have hge : m'.dsemaValue - 1 ≥ 0 := by push_cast at hn; omega
      have hadd : m'.dsemaValue - 1 - m'.dsemaValue = -1 := by ring
      have hnext : (created (T := Unit) m').step step () (.wait .forever) = some (created
          ({ m' with dsemaValue := m'.dsemaValue - 1 }.returned ⟨false, -1, 0⟩)) := by
        simp only [Pool.step, created, step, dispatchSemaphoreWait, hwrap, hadd, if_pos hge]
        simp
      refine ⟨_, hreach.step trivial hnext, ?_, hks, hsig, ?_⟩
      · simp only [Mem.returned]
        push_cast
        omega
      · rw [Mem.returnedZero_returned]
        change m'.returnedZero + 1 = _
        omega

theorem reachable_slow_wait (m : Mem) (hval : m.dsemaValue = 0)
    (hks : m.dsemaSentKsignals = 1) :
    ∃ m', Pool.Reachable step (created (T := Unit) m) (created m') ∧
      m'.signals = m.signals ∧ m'.returnedZero = m.returnedZero + 1 := by
  obtain ⟨value, ksignals, ksem, signals, returns⟩ := m
  obtain rfl : value = 0 := hval
  obtain rfl : ksignals = 1 := hks
  refine ⟨⟨-1, 0, ksem, signals, ⟨false, -1, -1⟩ :: returns⟩, ?_, rfl, by
    simp [Mem.returnedZero]⟩
  refine Pool.runs_of_run [((), .wait .forever), ((), .go), ((), .go)] ?_
  have hwrap : wrap (0 - 1) = -1 := by decide
  simp only [Pool.run, Pool.step, created, step, dispatchSemaphoreWait, hwrap]
  exact congrArg some (Pool.ext rfl (funext fun _ ↦ rfl))

/-- One signal and one wait on a semaphore created with the largest value: the
value wraps and comes back, and the ksignal of the signal stays. -/
theorem reachable_wrapped :
    Pool.Reachable step (created (T := Unit) ⟨longMax, 0, 0, 0, []⟩)
      (created ⟨longMax, 1, 1, 1, [⟨false, longMax - longMin, 0⟩]⟩) := by
  have hend : ((created (T := Unit) ⟨longMax, 0, 0, 0, []⟩).run step (fun _ _ _ ↦ True)
      [((), .signal), ((), .go), ((), .go), ((), .wait .forever)]).get (by decide) =
        created ⟨longMax, 1, 1, 1, [⟨false, longMax - longMin, 0⟩]⟩ :=
    Pool.ext (by decide) (funext fun () ↦ by decide)
  exact hend ▸ Pool.runs_get _

/-- A semaphore created with the largest value: the first signal wraps the value
and leaves a ksignal behind, so that one wait too many returns zero. -/
theorem exact_fails_at_longMax :
    ∃ s : Pool Unit Mem Loc, dispatchSemaphoreCreate longMax = some ⟨longMax, 0, 0, 0, []⟩ ∧
      Pool.Reachable step (created ⟨longMax, 0, 0, 0, []⟩) s ∧
      s.mem.signals = 1 ∧ longMax + 1 < s.mem.returnedZero ∧ ¬ Exact longMax s := by
  obtain ⟨m₂, hreach₂, hval, hks, hsig, hret⟩ := reachable_fast_waits longMax.toNat
    ⟨longMax, 1, 1, 1, [⟨false, longMax - longMin, 0⟩]⟩ (by decide) (by decide)
  have hmax : (longMax.toNat : ℤ) = longMax := by decide
  obtain ⟨m₃, hreach₃, hsig₃, hret₃⟩ :=
    reachable_slow_wait m₂ (by rw [hval, hmax]; simp) hks
  have hmany : longMax + 1 < m₃.returnedZero := by
    rw [hret₃, hret]
    push_cast
    rw [hmax]
    simp [Mem.returnedZero]
  refine ⟨created m₃, by decide, (reachable_wrapped.trans hreach₂).trans hreach₃,
    by simp [created, hsig₃, hsig], hmany, fun hexact ↦ ?_⟩
  have hle := hexact.returned_le
  simp only [created, hsig₃, hsig] at hle
  push_cast at hle
  omega

end LibDispatch.Semaphore
