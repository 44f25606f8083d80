import LibDispatch.Group.Model

/-!
# What one step on a group can do

The transitions of a thread that uses a group, listed once.  Of the nested
semaphore calls the list keeps what the group depends on: the value, the kernel
count, and whether the call has returned.
-/

namespace LibDispatch.Group

open Interleaving

def Forever : Semaphore.Loc → Prop
  | .again timeout _ | .takeKsignal timeout _ _ | .kernelWait timeout _ => timeout = .forever
  | _ => False

def Sending : Semaphore.Loc → Prop
  | .sendKsignal | .post => True
  | _ => False

theorem forever_wait {d d' : Semaphore.Mem} {l : Semaphore.Loc}
    (h : Semaphore.dispatchSemaphoreWait .forever d = (d', l)) :
    d'.dsemaValue = wrap (d.dsemaValue - 1) ∧ d'.ksem = d.ksem ∧
      (l = .idle ∧ 0 ≤ wrap (d.dsemaValue - 1) ∨ Forever l ∧ wrap (d.dsemaValue - 1) < 0) := by
  unfold Semaphore.dispatchSemaphoreWait at h
  simp only at h
  split at h <;> obtain ⟨rfl, rfl⟩ := Prod.mk.inj h
  · exact ⟨rfl, rfl, .inl ⟨rfl, by assumption⟩⟩
  · exact ⟨rfl, rfl, .inr ⟨rfl, by omega⟩⟩

theorem forever_waitSlow {d d' : Semaphore.Mem} {l l' : Semaphore.Loc} (hl : Forever l)
    (h : Semaphore.dispatchSemaphoreWaitSlow d l = some (d', l')) :
    d'.dsemaValue = d.dsemaValue ∧ (l' = .idle ∨ Forever l') := by
  unfold Semaphore.dispatchSemaphoreWaitSlow at h
  split at h
  · split at h
    · cases h
      exact ⟨rfl, .inr hl⟩
    · split at h <;> cases h
      · cases hl
      · cases hl
      · exact ⟨rfl, .inr rfl⟩
  · split at h <;> cases h
    · exact ⟨rfl, .inl rfl⟩
    · exact ⟨rfl, .inr hl⟩
  · exact hl.elim
  · split at h <;> cases h
    exact ⟨rfl, .inr hl⟩
  · exact hl.elim
  · exact hl.elim
  · cases h

theorem sending_signal {d d' : Semaphore.Mem} {l : Semaphore.Loc}
    (h : Semaphore.dispatchSemaphoreSignal d = (d', l)) :
    d'.dsemaValue = wrap (d.dsemaValue + 1) ∧ d'.ksem = d.ksem ∧
      (l = .idle ∧ 0 < wrap (d.dsemaValue + 1) ∨ Sending l ∧ wrap (d.dsemaValue + 1) ≤ 0) := by
  unfold Semaphore.dispatchSemaphoreSignal at h
  simp only at h
  split at h <;> obtain ⟨rfl, rfl⟩ := Prod.mk.inj h
  · exact ⟨rfl, rfl, .inl ⟨rfl, by assumption⟩⟩
  · exact ⟨rfl, rfl, .inr ⟨trivial, by omega⟩⟩

theorem sending_signalSlow {d d' : Semaphore.Mem} {l l' : Semaphore.Loc}
    (h : Semaphore.dispatchSemaphoreSignalSlow d l = some (d', l')) :
    d'.dsemaValue = d.dsemaValue ∧ (l' = .idle ∨ Sending l') := by
  unfold Semaphore.dispatchSemaphoreSignalSlow at h
  split at h <;> cases h
  · exact ⟨rfl, .inr trivial⟩
  · exact ⟨rfl, .inl rfl⟩

theorem Forever.ne_idle {l : Semaphore.Loc} (h : Forever l) : l ≠ .idle := by
  rintro rfl
  exact h

theorem Sending.ne_idle {l : Semaphore.Loc} (h : Sending l) : l ≠ .idle := by
  rintro rfl
  exact h

variable {α ν T : Type*}

theorem enterReturn_of_ne {l : Semaphore.Loc} (m : Mem α ν) (h : l ≠ .idle) :
    enterReturn m l = (m, .entering l) := by
  cases l <;> first | rfl | exact (h rfl).elim

theorem leaveReturn_of_ne {l : Semaphore.Loc} (m : Mem α ν) (h : l ≠ .idle) :
    leaveReturn m l = (m, .leaving l) := by
  cases l <;> first | rfl | exact (h rfl).elim

/-- The nested semaphore calls are at places of their own. -/
def Loc.Sound : Loc α → Prop
  | .entering l => Forever l
  | .leaving l => Sending l
  | _ => True

variable [DecidableEq α]

def Mem.tokens (m : Mem α ν) : ℕ := (m.dsemaGroupWaiters % 2 ^ 32).toNat

inductive Trans (m : Mem α ν) : Loc α → Mem α ν → Loc α → Prop
  | enter {d : Semaphore.Mem} : d.dsemaValue = wrap (m.dsema.dsemaValue - 1) →
      d.ksem = m.dsema.ksem → 0 ≤ wrap (m.dsema.dsemaValue - 1) →
      Trans m .idle { m with dsema := d, members := m.members + 1 }.enterReturned .idle
  | enterSlow {d : Semaphore.Mem} {l : Semaphore.Loc} :
      d.dsemaValue = wrap (m.dsema.dsemaValue - 1) → d.ksem = m.dsema.ksem →
      wrap (m.dsema.dsemaValue - 1) < 0 → Forever l →
      Trans m .idle { m with dsema := d, members := m.members + 1 } (.entering l)
  | entering {d : Semaphore.Mem} {l l' : Semaphore.Loc} :
      d.dsemaValue = m.dsema.dsemaValue → Forever l → Forever l' →
      Trans m (.entering l) { m with dsema := d } (.entering l')
  | entered {d : Semaphore.Mem} {l : Semaphore.Loc} : d.dsemaValue = m.dsema.dsemaValue →
      Trans m (.entering l) { m with dsema := d }.enterReturned .idle
  | leave {d : Semaphore.Mem} {e : ℕ} : e ∈ m.openEnters →
      d.dsemaValue = wrap (m.dsema.dsemaValue + 1) → d.ksem = m.dsema.ksem →
      0 < wrap (m.dsema.dsemaValue + 1) →
      Trans m .idle { m.leaveSignalled e with dsema := d } .leaveCheck
  | leaveSlow {d : Semaphore.Mem} {e : ℕ} {l : Semaphore.Loc} : e ∈ m.openEnters →
      d.dsemaValue = wrap (m.dsema.dsemaValue + 1) → d.ksem = m.dsema.ksem →
      wrap (m.dsema.dsemaValue + 1) ≤ 0 → Sending l →
      Trans m .idle { m.leaveSignalled e with dsema := d } (.leaving l)
  | leaving {d : Semaphore.Mem} {l l' : Semaphore.Loc} :
      d.dsemaValue = m.dsema.dsemaValue → Sending l' →
      Trans m (.leaving l) { m with dsema := d } (.leaving l')
  | left {d : Semaphore.Mem} {l : Semaphore.Loc} : d.dsemaValue = m.dsema.dsemaValue →
      Trans m (.leaving l) { m with dsema := d } .leaveCheck
  | leaveWake : m.dsema.dsemaValue = dsemaOrig → Trans m .leaveCheck m (.wake .leave)
  | leaveDone : m.dsema.dsemaValue ≠ dsemaOrig → Trans m .leaveCheck m .idle
  | notify {note : ν} {addr : α} : addr ∉ m.live →
      Trans m .idle { m with
        live := insert addr m.live
        dsnNext := Function.update m.dsnNext addr none
        dsn := Function.update m.dsn addr ⟨note, m.openEnters, m.now⟩ } (.notifyExchange addr)
  | exchangeBehind {prev dsn : α} : m.notifyTail = some prev →
      Trans m (.notifyExchange dsn) { m with
        notifyTail := some dsn
        dsn := Function.update m.dsn dsn { m.dsn dsn with registeredAt := m.now }
        registered := m.registered ++ [{ m.dsn dsn with registeredAt := m.now }] }
        (.notifyLink prev dsn)
  | exchangeFirst {dsn : α} : m.notifyTail = none →
      Trans m (.notifyExchange dsn) { m with
        notifyTail := some dsn
        dsn := Function.update m.dsn dsn { m.dsn dsn with registeredAt := m.now }
        registered := m.registered ++ [{ m.dsn dsn with registeredAt := m.now }]
        opened := m.opened + 1 } (.notifyRetain dsn m.opened)
  | link {prev dsn : α} : Trans m (.notifyLink prev dsn)
      { m with dsnNext := Function.update m.dsnNext prev (some dsn) } .idle
  | retain {dsn : α} {filling : ℕ} : Trans m (.notifyRetain dsn filling)
      { m with retained := filling :: m.retained } (.notifyHead dsn)
  | storeHead {dsn : α} :
      Trans m (.notifyHead dsn) { m with notifyHead := some dsn } .notifyCheck
  | notifyWake : m.dsema.dsemaValue = dsemaOrig → Trans m .notifyCheck m (.wake .notify)
  | notifyDone : m.dsema.dsemaValue ≠ dsemaOrig → Trans m .notifyCheck m .idle
  | waitEmpty : m.dsema.dsemaValue = dsemaOrig →
      Trans m .idle { m with returns := ⟨false, m.emptySince m.now⟩ :: m.returns } .idle
  | waitNow : m.dsema.dsemaValue ≠ dsemaOrig →
      Trans m .idle { m with returns := ⟨true, m.emptySince m.now⟩ :: m.returns } .idle
  | wait {timeout : Timeout} : m.dsema.dsemaValue ≠ dsemaOrig →
      Trans m .idle m (.waitCheck ⟨timeout, m.now⟩)
  | checkEmpty {call : WaitCall} : m.dsema.dsemaValue = dsemaOrig →
      Trans m (.waitCheck call) m (.wake (.wait call))
  | checkBusy {call : WaitCall} : m.dsema.dsemaValue ≠ dsemaOrig →
      Trans m (.waitCheck call) m (.waitRegister call)
  | register {call : WaitCall} : Trans m (.waitRegister call)
      { m with dsemaGroupWaiters := wrap (m.dsemaGroupWaiters + 1) } (.waitRecheck call)
  | recheckEmpty {call : WaitCall} : m.dsema.dsemaValue = dsemaOrig →
      Trans m (.waitRecheck call) m (.wake (.wait call))
  | sleepTimed {call : WaitCall} : m.dsema.dsemaValue ≠ dsemaOrig →
      Trans m (.waitRecheck call) m (.timedWait call)
  | undoNow {call : WaitCall} : m.dsema.dsemaValue ≠ dsemaOrig →
      Trans m (.waitRecheck call) m (.undo call)
  | sleep {call : WaitCall} : m.dsema.dsemaValue ≠ dsemaOrig →
      Trans m (.waitRecheck call) m (.kernelWait call)
  | wokeTimed {call : WaitCall} : 0 < m.dsema.ksem →
      Trans m (.timedWait call) { m with dsema.ksem := m.dsema.ksem - 1 } (.waitCheck call)
  | woke {call : WaitCall} : 0 < m.dsema.ksem →
      Trans m (.kernelWait call) { m with dsema.ksem := m.dsema.ksem - 1 } (.waitCheck call)
  | expired {call : WaitCall} : Trans m (.timedWait call) m (.undo call)
  | undoing {call : WaitCall} : m.dsemaGroupWaiters ≠ 0 →
      Trans m (.undo call) m (.undoSwap call m.dsemaGroupWaiters)
  | signalled {call : WaitCall} : m.dsemaGroupWaiters = 0 →
      Trans m (.undo call) m (.kernelWait call)
  | undone {call : WaitCall} {orig : ℤ} : m.dsemaGroupWaiters = orig →
      Trans m (.undoSwap call orig) { m with
        dsemaGroupWaiters := orig - 1
        returns := ⟨true, m.emptySince call.began⟩ :: m.returns } .idle
  | undoMissed {call : WaitCall} {orig : ℤ} : Trans m (.undoSwap call orig) m (.undo call)
  | takeHead {c : Caller} :
      Trans m (.wake c) { m with notifyHead := none } (.wakeWaiters c m.notifyHead)
  | takeWaiters {c : Caller} {head : Option α} : m.tokens ≠ 0 →
      Trans m (.wakeWaiters c head) { m with dsemaGroupWaiters := 0 }
        (.wakePost c head m.tokens)
  | noWaitersSubmit {c : Caller} {head : α} : m.tokens = 0 →
      Trans m (.wakeWaiters c (some head)) { m with dsemaGroupWaiters := 0 }
        (.wakeSubmit c head)
  | noWaitersReturn {c : Caller} : m.tokens = 0 →
      Trans m (.wakeWaiters c none)
        { m with dsemaGroupWaiters := 0, returns := c.returns m } .idle
  | post {c : Caller} {head : Option α} {rval : ℕ} : rval - 1 ≠ 0 →
      Trans m (.wakePost c head rval) { m with dsema.ksem := m.dsema.ksem + 1 }
        (.wakePost c head (rval - 1))
  | postSubmit {c : Caller} {head : α} {rval : ℕ} : rval - 1 = 0 →
      Trans m (.wakePost c (some head) rval) { m with dsema.ksem := m.dsema.ksem + 1 }
        (.wakeSubmit c head)
  | postReturn {c : Caller} {rval : ℕ} : rval - 1 = 0 →
      Trans m (.wakePost c none rval)
        { m with dsema.ksem := m.dsema.ksem + 1, returns := c.returns m } .idle
  | submit {c : Caller} {head : α} : Trans m (.wakeSubmit c head)
      { m with submitted := m.submitted ++ [m.dsn head] } (.wakeNext c head)
  | nextSome {c : Caller} {head tmp : α} : m.dsnNext head = some tmp →
      Trans m (.wakeNext c head) m (.wakeFree c head tmp)
  | nextNone {c : Caller} {head : α} : m.dsnNext head = none →
      Trans m (.wakeNext c head) m (.wakeReset c head)
  | reset {c : Caller} {head : α} : m.notifyTail = some head →
      Trans m (.wakeReset c head) { m with notifyTail := none, drained := m.drained + 1 }
        (.wakeFreeLast c head m.drained)
  | resetMissed {c : Caller} {head : α} : m.notifyTail ≠ some head →
      Trans m (.wakeReset c head) m (.wakeNext c head)
  | free {c : Caller} {head tmp : α} : Trans m (.wakeFree c head tmp)
      { m with live := m.live.erase head } (.wakeSubmit c tmp)
  | freeLast {c : Caller} {head : α} {filling : ℕ} : Trans m (.wakeFreeLast c head filling)
      { m with live := m.live.erase head } (.wakeRelease c filling)
  | release {c : Caller} {filling : ℕ} : Trans m (.wakeRelease c filling)
      { m with released := filling :: m.released, returns := c.returns m } .idle

theorem trans_of_enter {m m' : Mem α ν} {l' : Loc α}
    (h : dispatchGroupEnter m = (m', l')) : Trans m .idle m' l' := by
  unfold dispatchGroupEnter at h
  generalize hd : Semaphore.dispatchSemaphoreWait .forever m.dsema = r at h
  obtain ⟨d, l⟩ := r
  obtain ⟨hval, hk, ⟨rfl, hge⟩ | ⟨hl, hlt⟩⟩ := forever_wait hd
  · cases h
    exact .enter hval hk hge
  · rw [enterReturn_of_ne _ hl.ne_idle] at h
    cases h
    exact .enterSlow hval hk hlt hl

theorem trans_of_leave {m m' : Mem α ν} {l' : Loc α} {e : ℕ} (he : e ∈ m.openEnters)
    (h : dispatchGroupLeave e m = (m', l')) : Trans m .idle m' l' := by
  unfold dispatchGroupLeave at h
  generalize hd : Semaphore.dispatchSemaphoreSignal m.dsema = r at h
  obtain ⟨d, l⟩ := r
  obtain ⟨hval, hk, ⟨rfl, hpos⟩ | ⟨hl, hle⟩⟩ := sending_signal hd
  · cases h
    exact .leave he hval hk hpos
  · rw [leaveReturn_of_ne _ hl.ne_idle] at h
    cases h
    exact .leaveSlow he hval hk hle hl

theorem trans_of_entering {m m' : Mem α ν} {l : Semaphore.Loc} {l' : Loc α} (hl : Forever l)
    (h : (Semaphore.dispatchSemaphoreWaitSlow m.dsema l).map
      (fun r ↦ enterReturn { m with dsema := r.1 } r.2) = some (m', l')) :
    Trans m (.entering l) m' l' := by
  obtain ⟨⟨d, l₁⟩, hd, hr⟩ := Option.map_eq_some_iff.mp h
  obtain ⟨hval, rfl | hl₁⟩ := forever_waitSlow hl hd
  · cases hr
    exact .entered hval
  · rw [enterReturn_of_ne _ hl₁.ne_idle] at hr
    cases hr
    exact .entering hval hl hl₁

theorem trans_of_leaving {m m' : Mem α ν} {l : Semaphore.Loc} {l' : Loc α}
    (h : (Semaphore.dispatchSemaphoreSignalSlow m.dsema l).map
      (fun r ↦ leaveReturn { m with dsema := r.1 } r.2) = some (m', l')) :
    Trans m (.leaving l) m' l' := by
  obtain ⟨⟨d, l₁⟩, hd, hr⟩ := Option.map_eq_some_iff.mp h
  obtain ⟨hval, rfl | hl₁⟩ := sending_signalSlow hd
  · cases hr
    exact .left hval
  · rw [leaveReturn_of_ne _ hl₁.ne_idle] at hr
    cases hr
    exact .leaving hval hl₁

theorem trans_of_notifyPush {m m' : Mem α ν} {l l' : Loc α}
    (h : dispatchGroupNotifyPush m l = some (m', l')) : Trans m l m' l' := by
  unfold dispatchGroupNotifyPush at h
  split at h
  · simp only at h
    split at h <;> cases h
    · exact .exchangeBehind ‹_›
    · exact .exchangeFirst ‹_›
  · cases h
    exact .link
  · cases h
    exact .retain
  · cases h
    exact .storeHead
  · split at h <;> cases h
    · exact .notifyWake ‹_›
    · exact .notifyDone ‹_›
  · cases h

theorem trans_of_waitSlow {m m' : Mem α ν} {l l' : Loc α}
    (h : dispatchGroupWaitSlow m l = some (m', l')) : Trans m l m' l' := by
  unfold dispatchGroupWaitSlow at h
  split at h
  · split at h <;> cases h
    · exact .checkEmpty ‹_›
    · exact .checkBusy ‹_›
  · cases h
    exact .register
  · split at h
    · cases h
      exact .recheckEmpty ‹_›
    · split at h <;> cases h
      · exact .sleepTimed ‹_›
      · exact .undoNow ‹_›
      · exact .sleep ‹_›
  · split at h <;> cases h
    exact .wokeTimed ‹_›
  · split at h <;> cases h
    exact .woke ‹_›
  · split at h <;> rename_i hw <;> cases h
    · exact .undoing hw
    · exact .signalled (not_not.mp hw)
  · split at h <;> cases h
    · exact .undone ‹_›
    · exact .undoMissed
  · cases h

theorem trans_of_wake {m m' : Mem α ν} {l l' : Loc α}
    (h : dispatchGroupWake m l = some (m', l')) : Trans m l m' l' := by
  unfold dispatchGroupWake at h
  split at h
  · cases h
    exact .takeHead
  · rename_i head
    simp only at h
    split at h
    · cases h
      exact .takeWaiters ‹_›
    · rename_i hzero
      cases head <;> cases h
      · exact .noWaitersReturn (not_not.mp hzero)
      · exact .noWaitersSubmit (not_not.mp hzero)
  · rename_i head rval
    simp only at h
    split at h
    · cases h
      exact .post ‹_›
    · rename_i hzero
      cases head <;> cases h
      · exact .postReturn (not_not.mp hzero)
      · exact .postSubmit (not_not.mp hzero)
  · cases h
    exact .submit
  · split at h <;> cases h
    · exact .nextSome ‹_›
    · exact .nextNone ‹_›
  · split at h <;> cases h
    · exact .reset ‹_›
    · exact .resetMissed ‹_›
  · cases h
    exact .free
  · cases h
    exact .freeLast
  · cases h
    exact .release
  · cases h

theorem trans_of_step {m m' : Mem α ν} {l l' : Loc α} {t : T} {a : Act α ν} (hl : l.Sound)
    (h : step t a m l = some (m', l')) : Trans m l m' l' := by
  unfold step at h
  split at h
  · exact trans_of_enter (Option.some.inj h)
  · split at h
    · exact trans_of_leave ‹_› (Option.some.inj h)
    · cases h
  · unfold dispatchGroupNotify at h
    split at h <;> cases h
    exact .notify ‹_›
  · replace h := Option.some.inj h
    unfold dispatchGroupWait at h
    split at h
    · cases h
      exact .waitEmpty ‹_›
    · split at h <;> cases h
      · exact .waitNow ‹_›
      · exact .wait ‹_›
  · cases h
    exact .expired
  · exact trans_of_entering hl h
  · exact trans_of_leaving h
  · split at h <;> cases h
    · exact .leaveWake ‹_›
    · exact .leaveDone ‹_›
  · rcases Option.or_eq_some_iff.mp h with h | ⟨-, h⟩
    · exact trans_of_notifyPush h
    · rcases Option.or_eq_some_iff.mp h with h | ⟨-, h⟩
      · exact trans_of_waitSlow h
      · exact trans_of_wake h
  · cases h

theorem Trans.sound {m m' : Mem α ν} {l l' : Loc α} (h : Trans m l m' l') : l'.Sound := by
  cases h <;> trivial

variable [DecidableEq T] {C : Pool T (Mem α ν) (Loc α) → T → Act α ν → Prop}
  {dsnNext : α → Option α} {dsn : α → Notification ν} {s : Pool T (Mem α ν) (Loc α)}

theorem sound_of_run (h : Pool.Runs step C (created dsnNext dsn) s) (t : T) :
    (s.loc t).Sound := by
  refine h.forall_loc (Q := fun _ l ↦ l.Sound) (fun _ ↦ trivial) ?_ t
  intro s t a m l _ hl _ hP
  exact (trans_of_step hl hP).sound

theorem trans_of_run (h : Pool.Runs step C (created dsnNext dsn) s) {t : T} {a : Act α ν}
    {m : Mem α ν} {l : Loc α} (hP : step t a s.mem (s.loc t) = some (m, l)) :
    Trans s.mem (s.loc t) m l :=
  trans_of_step (sound_of_run h t) hP

end LibDispatch.Group
