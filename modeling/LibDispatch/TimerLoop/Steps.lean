import LibDispatch.TimerLoop.Model

/-!
# What one step of the manager loop can do

A step leaves all sources alone, is a step of one source, or is the store by which
`_dispatch_get_next_timer_fire` disarms a suspended timer.  The sources stay installed
timers, and the only places a thread can be at are those of suspending, resuming, waking up
and invoking one.
-/

namespace LibDispatch.TimerLoop

open Interleaving
open Kevent (Clock)

variable {T S Q : Type*}

/-! ## One timer -/

structure Steady (m : Source.Mem Q) : Prop where
  items : m.items = []
  xrefs : m.doXrefCnt ≠ 0
  installed : m.dsIsInstalled = true
  canceled : m.dsCanceled = false
  needsRearm : m.dsNeedsRearm = true
  timers : m.timers = 0

def calmHeld : Source.Held Q → Bool
  | .drainOrig | .drainTail | .compare | .reload | .isInstalled | .flags | .xref | .pendingData
  | .latchFlags | .latchXref | .latchXchg | .latchData _ | .latchRun | .latchRearm | .needsRearm
  | .arm | .unlock _ => true
  | _ => false

/-- The places of a thread that suspends, resumes, wakes up or invokes an installed timer. -/
def isCalm : Source.Loc Q → Bool
  | .idle | .release | .invokeTarget _ | .invokeSuspended .. | .invokeLock .. | .invokePush _
  | .invokeSubLock | .invokeRunning | .crash _ => true
  | .wakeup _ k => k ≠ .releaseXref
  | .held _ p => calmHeld p
  | _ => false

/-- The queue from whose list the thread has taken the source. -/
def takenFrom : Source.Loc Q → Option Q
  | .invokeTarget q | .invokeSuspended q _ | .invokeLock q _ => some q
  | .held f _ => some f.current
  | _ => none

/-- The thread is about to set `ds_is_armed`. -/
def arms : Source.Loc Q → Bool
  | .held _ .arm => true
  | _ => false

section Source

variable {set : Source.Setting T Q} {t : T} {m m' : Source.Mem Q} {l l' : Source.Loc Q}

theorem isCalm_loc {k : Source.After} (hk : k ≠ .releaseXref) :
    isCalm (k.loc : Source.Loc Q) = true ∧ takenFrom (k.loc : Source.Loc Q) = none ∧
      arms (k.loc : Source.Loc Q) = false := by
  cases k
  · exact ⟨rfl, rfl, rfl⟩
  · exact ⟨rfl, rfl, rfl⟩
  · exact (hk rfl).elim

theorem isCalm_resumeLoc (m : Source.Mem Q) :
    isCalm (Source.resumeLoc m .return) = true ∧ takenFrom (Source.resumeLoc m .return) = none ∧
      arms (Source.resumeLoc m .return) = false := by
  rcases Source.resumeLoc_eq m .return with h | h | h <;> rw [h] <;> exact ⟨rfl, rfl, rfl⟩

/-- What stays as it is while thread `t` uses an installed timer.  Only the manager takes it off
the list of the manager queue, and only then it is armed. -/
structure Keeps (set : Source.Setting T Q) (t : T) (resumes : Prop) (m m' : Source.Mem Q)
    (l l' : Source.Loc Q) : Prop where
  steady : Steady m'
  calm : isCalm l' = true
  suspensions : resumes ∨ m.suspensions ≤ m'.suspensions
  targetq : m'.doTargetq = m.doTargetq
  armed : m'.dsIsArmed = m.dsIsArmed ∨ arms l
  taken : ∀ q, takenFrom l' = some q → takenFrom l = some q ∨ (q = set.mgrQ → t = set.mgr)
  arms : arms l' → takenFrom l' = some set.mgrQ

variable {resumes : Prop}

theorem keeps_outside (hsteady : Steady m') (hcalm : isCalm l' = true)
    (hsuspensions : resumes ∨ m.suspensions ≤ m'.suspensions)
    (htargetq : m'.doTargetq = m.doTargetq) (harmed : m'.dsIsArmed = m.dsIsArmed)
    (htaken : takenFrom l' = none) (harms : arms l' = false) : Keeps set t resumes m m' l l' where
  steady := hsteady
  calm := hcalm
  suspensions := hsuspensions
  targetq := htargetq
  armed := .inl harmed
  taken q hq := by simp [htaken] at hq
  arms h := by simp [harms] at h

theorem keeps_taken (hsteady : Steady m') (hcalm : isCalm l' = true)
    (hsuspensions : m'.suspensions = m.suspensions) (htargetq : m'.doTargetq = m.doTargetq)
    (harmed : m'.dsIsArmed = m.dsIsArmed)
    (htaken : ∀ q, takenFrom l' = some q → q = set.mgrQ → t = set.mgr)
    (harms : arms l' = false) : Keeps set t resumes m m' l l' where
  steady := hsteady
  calm := hcalm
  suspensions := .inr hsuspensions.ge
  targetq := htargetq
  armed := .inl harmed
  taken q hq := .inr (htaken q hq)
  arms h := by simp [harms] at h

theorem keeps_inside (hsteady : Steady m') (hcalm : isCalm l' = true)
    (hsuspensions : m'.suspensions = m.suspensions) (htargetq : m'.doTargetq = m.doTargetq)
    (harmed : m'.dsIsArmed = m.dsIsArmed ∨ arms l) (htaken : takenFrom l' = takenFrom l)
    (harms : arms l' = false) : Keeps set t resumes m m' l l' where
  steady := hsteady
  calm := hcalm
  suspensions := .inr hsuspensions.ge
  targetq := htargetq
  armed := harmed
  taken q hq := .inl (htaken ▸ hq)
  arms h := by simp [harms] at h

theorem heldTrans_keeps {f f' : Source.Frame Q} {p p' : Source.Held Q}
    (h : Source.HeldTrans set m f p m' f' p') (hm : Steady m) (hp : calmHeld p = true) :
    Keeps set t resumes m m' (.held f p) (.held f' p') := by
  obtain ⟨hitems, hxrefs, hinst, hcanc, hrearm, htimers⟩ := hm
  cases h <;> try cases hp
  case needsRearm hcur =>
    exact ⟨⟨hitems, hxrefs, hinst, hcanc, hrearm, htimers⟩, rfl, .inr le_rfl, rfl, .inl rfl,
      fun _ ↦ .inl, fun _ ↦ congrArg some hcur⟩
  case drainOrig | compare | moved | reload | isInstalled | flags | xref | pendingData |
      toLatch | pendingNone | latchFlags | latchXref | latchXchg | latchData | latchDrop |
      latchRun | latchRearm | toRearm | rearmDone | drainDone =>
    exact keeps_inside ⟨hitems, hxrefs, hinst, hcanc, hrearm, htimers⟩ rfl rfl rfl (.inl rfl)
      rfl rfl
  case arm =>
    exact keeps_inside ⟨hitems, hxrefs, hinst, hcanc, hrearm, htimers⟩ rfl rfl rfl (.inr rfl)
      rfl rfl
  all_goals simp_all

variable [DecidableEq Q]

theorem trans_keeps (h : Source.Trans set t m l m' l') (hm : Steady m) (hl : isCalm l = true)
    (hidle : l ≠ .idle) : Keeps set t resumes m m' l l' := by
  obtain ⟨hitems, hxrefs, hinst, hcanc, hrearm, htimers⟩ := hm
  have hsteady : Steady m := ⟨hitems, hxrefs, hinst, hcanc, hrearm, htimers⟩
  cases h
  case held h => exact heldTrans_keeps h hsteady hl
  case wakeupSuspended k _ | wakeupEmpty k _ | wakeupMissed k _ =>
    obtain ⟨hcalm, htaken, harms⟩ := isCalm_loc (Q := Q) (of_decide_eq_true hl)
    exact keeps_outside hsteady hcalm (.inr le_rfl) rfl rfl htaken harms
  case wakeupPush k =>
    obtain ⟨hcalm, htaken, harms⟩ := isCalm_loc (Q := Q) (of_decide_eq_true hl)
    exact keeps_outside ⟨hitems, hxrefs, hinst, hcanc, hrearm, htimers⟩ hcalm (.inr le_rfl) rfl
      rfl htaken harms
  case wakeup | probe | probeTrue | probeFalse | wakeupTail | wakeupLock | wakeupRetain |
      wakeupTarget =>
    exact keeps_outside ⟨hitems, hxrefs, hinst, hcanc, hrearm, htimers⟩ hl (.inr le_rfl) rfl rfl
      rfl rfl
  case releaseLast hzero => exact (hxrefs hzero).elim
  case release | releaseCrash | unlock | unlockTo | invokePush | invokeSubLock |
      invokeSubLockBusy | invokeRunning | invokeRunningBusy | invokeStop | invokeLockMissed =>
    exact keeps_outside ⟨hitems, hxrefs, hinst, hcanc, hrearm, htimers⟩ rfl (.inr le_rfl) rfl rfl
      rfl rfl
  case invokeTarget | invokeSuspended | invokeLock =>
    exact keeps_inside ⟨hitems, hxrefs, hinst, hcanc, hrearm, htimers⟩ rfl rfl rfl (.inl rfl)
      rfl rfl
  all_goals first
    | exact (hidle rfl).elim
    | cases hl

end Source

/-! ## The machine -/

/-- What the thread does to the source `ds`. -/
def Loc.on [DecidableEq S] (l : Loc S Q) (ds : S) : Source.Loc Q :=
  match l.work with
  | some (dsi, w) => if dsi = ds then w else .idle
  | none => .idle

/-- The thread is at `w` with the source `ds`. -/
def enter [DecidableEq Q] (place : Place S) (ds : S) (w : Source.Loc Q) : Loc S Q :=
  ⟨place, if w = .idle then none else some (ds, w)⟩

section On

variable [DecidableEq S] {place : Place S} {ds dsi : S} {w : Source.Loc Q}

@[simp] theorem on_none : (⟨place, none⟩ : Loc S Q).on ds = .idle := rfl

@[simp] theorem on_some : (⟨place, some (ds, w)⟩ : Loc S Q).on ds = w := if_pos rfl

theorem on_some_of_ne (h : dsi ≠ ds) : (⟨place, some (ds, w)⟩ : Loc S Q).on dsi = .idle :=
  if_neg h.symm

variable [DecidableEq Q]

@[simp] theorem on_enter : (enter place ds w).on ds = w := by
  unfold enter
  split
  · exact (‹w = .idle›).symm
  · exact on_some

theorem on_enter_of_ne (h : dsi ≠ ds) : (enter place ds w).on dsi = .idle := by
  unfold enter
  split
  · rfl
  · exact on_some_of_ne h

end On

section Steps

variable [DecidableEq S] [DecidableEq Q]

inductive Trans (set : Setting T Q) (t : T) (a : Act S Q) (m : Mem S Q) :
    Loc S Q → Mem S Q → Loc S Q → Prop
  | source {place : Place S} {ds : S} {w w' : Source.Loc Q} {x : Source.Mem Q} :
      w ≠ .idle → Source.Trans set.toSetting t (m.src ds) w x w' →
      Trans set t a m ⟨place, some (ds, w)⟩ (m.setSrc ds x) (enter place ds w')
  | suspend {ds : S} : Trans set t a m ⟨.outside, none⟩
      (m.setSrc ds { m.src ds with
        doSuspendCnt := (m.src ds).doSuspendCnt + 2, suspensions := (m.src ds).suspensions + 1 })
      ⟨.outside, none⟩
  | resume {ds : S} : a = .resume ds → 0 < (m.src ds).suspensions →
      Trans set t a m ⟨.outside, none⟩
      (m.setSrc ds { m.src ds with
        doSuspendCnt := (m.src ds).doSuspendCnt - 2, suspensions := (m.src ds).suspensions - 1 })
      (enter .outside ds (Source.resumeLoc (m.src ds) .return))
  | invoke {ds : S} {tq : Q} : tq ∈ (m.src ds).linked → tq ≠ set.mgrQ →
      Trans set t a m ⟨.outside, none⟩
        (m.setSrc ds { m.src ds with linked := (m.src ds).linked.erase tq })
        ⟨.outside, some (ds, .invokeTarget tq)⟩
  | invokeMgr {ds : S} : set.mgrQ ∈ (m.src ds).linked → t = set.mgr →
      Trans set t a m ⟨.drain, none⟩
        (m.setSrc ds { m.src ds with linked := (m.src ds).linked.erase set.mgrQ })
        ⟨.drain, some (ds, .invokeTarget set.mgrQ)⟩
  | loop : Trans set t a m ⟨.drain, none⟩ m ⟨.clock .wall, none⟩
  | clock {c : Clock} {now : ℕ} : Trans set t a m ⟨.clock c, none⟩ m ⟨.timers c now, none⟩
  | timersDone {c : Clock} {now : ℕ} :
      Trans set t a m ⟨.timers c now, none⟩ m ⟨afterTimers m c, none⟩
  | fire {c : Clock} {now : ℕ} {ds : S} {n : BitVec 64} : ds ∈ m.list c → m.target ds ≠ 0 →
      t = set.mgr → (m.src ds).dkSources →
      Trans set t a m ⟨.timers c now, none⟩
        ((m.fired c ds now).setSrc ds { m.src ds with
          dsPendingData := (m.src ds).dsPendingData + n, merges := (m.src ds).merges ++ [n] })
        ⟨.timers c now, some (ds, .wakeup .suspended .return)⟩
  | scanEnd {c : Clock} {p : Plan} :
      Trans set t a m ⟨.scan c [] p, none⟩ m ⟨nextList m p c, none⟩
  | scanUnset {c : Clock} {ds : S} {rest : List S} {p : Plan} : m.target ds = 0 →
      Trans set t a m ⟨.scan c (ds :: rest) p, none⟩ m ⟨nextList m p c, none⟩
  | scanSuspended {c : Clock} {ds : S} {rest : List S} {p : Plan} :
      2 ≤ (m.src ds).doSuspendCnt →
      Trans set t a m ⟨.scan c (ds :: rest) p, none⟩ m ⟨.disarm c ds rest p, none⟩
  | scanChosen {c : Clock} {ds : S} {rest : List S} {p : Plan} : m.target ds ≠ 0 →
      Trans set t a m ⟨.scan c (ds :: rest) p, none⟩ m ⟨.chosen c ds p, none⟩
  | disarm {c : Clock} {ds : S} {rest : List S} {p : Plan} :
      Trans set t a m ⟨.disarm c ds rest p, none⟩ (m.disarm ds) ⟨.scan c rest p, none⟩
  | poll {c : Clock} {ds : S} {p : Plan} : Trans set t a m ⟨.chosen c ds p, none⟩ m ⟨.drain, none⟩
  | chosen {c : Clock} {ds : S} {p : Plan} {now : ℕ} : now < m.target ds →
      Trans set t a m ⟨.chosen c ds p, none⟩ m
        ⟨nextList m (p.read now (remaining set (m.ds ds) now) c) c, none⟩
  | block {p : Plan} {select : Bool} :
      Trans set t a m ⟨.wait p, none⟩ m ⟨.blocked p (p.timeout select), none⟩
  | wake {p : Plan} {timeout : Option ℕ} :
      Trans set t a m ⟨.blocked p timeout, none⟩ m ⟨.drain, none⟩

variable [DecidableEq T] {set : Setting T Q} {t : T} {a : Act S Q} {m m' : Mem S Q}
  {l l' : Loc S Q}

theorem stepSource_eq_some {b : Source.Act Q} {place : Place S} {ds : S} {w : Source.Loc Q}
    (h : stepSource set t b m place ds w = some (m', l')) :
    ∃ x w', Source.step set.toSetting t b (m.src ds) w = some (x, w') ∧
      m' = m.setSrc ds x ∧ l' = enter place ds w' := by
  obtain ⟨⟨x, w'⟩, hs, heq⟩ := Option.map_eq_some_iff.mp h
  cases heq
  exact ⟨x, w', hs, rfl, rfl⟩

theorem trans_of_runTimers {c : Clock} {now : ℕ}
    (h : dispatchRunTimers2 set t c now m = some (m', l')) :
    Trans set t a m ⟨.timers c now, none⟩ m' l' := by
  unfold dispatchRunTimers2 at h
  split at h
  · cases h
    exact .timersDone
  · rename_i ds rest hlist
    dsimp only at h
    split at h
    · cases h
      exact .timersDone
    rename_i hset
    split at h
    · cases h
      exact .timersDone
    · obtain ⟨x, w', hs, rfl, rfl⟩ := stepSource_eq_some h
      simp only [Source.step, reduceIte, Option.ite_none_right_eq_some] at hs
      obtain ⟨⟨ht, hdk⟩, heq⟩ := hs
      cases heq
      exact .fire (by simp [hlist]) (not_or.mp hset).1 ht hdk

omit [DecidableEq T] in
theorem trans_of_nextTimerFire {place : Place S}
    (h : dispatchGetNextTimerFire set m a place = some (m', l')) :
    Trans set t a m ⟨place, none⟩ m' l' := by
  unfold dispatchGetNextTimerFire at h
  split at h
  · split at h
    · cases h
      exact .scanEnd
    · split at h
      · cases h
        exact .scanUnset ‹_›
      split at h <;> cases h
      · exact .scanSuspended (Queue.suspended_iff.mp ‹_›)
      · exact .scanChosen ‹_›
    · cases h
  · split at h <;> cases h
    exact .disarm
  · split at h
    · split at h <;> cases h
      · exact .poll
      · exact .chosen (not_le.mp ‹_›)
    · cases h
  · cases h

theorem trans_of_step (h : step set t a m l = some (m', l')) : Trans set t a m l m' l' := by
  obtain ⟨place, work⟩ := l
  cases work with
  | some dw =>
      obtain ⟨ds, w⟩ := dw
      simp only [step, Option.ite_none_right_eq_some] at h
      obtain ⟨x, w', hs, rfl, rfl⟩ := stepSource_eq_some h.2
      refine .source ?_ (Source.trans_of_step hs)
      rintro rfl
      cases hs
  | none =>
      unfold step at h
      dsimp only at h
      split at h
      · obtain ⟨x, w', hs, rfl, rfl⟩ := stepSource_eq_some h
        cases hs
        exact .suspend
      · obtain ⟨x, w', hs, rfl, rfl⟩ := stepSource_eq_some h
        simp only [Source.step, reduceIte, Option.ite_none_right_eq_some] at hs
        obtain ⟨hpos, heq⟩ := hs
        cases heq
        exact .resume rfl hpos
      · split at h
        · cases h
        obtain ⟨x, w', hs, rfl, rfl⟩ := stepSource_eq_some h
        simp only [Source.step, reduceIte, Option.ite_none_right_eq_some] at hs
        obtain ⟨⟨hmem, -⟩, heq⟩ := hs
        cases heq
        exact .invoke hmem ‹_›
      · split at h
        · obtain ⟨x, w', hs, rfl, rfl⟩ := stepSource_eq_some h
          simp only [Source.step, reduceIte, Option.ite_none_right_eq_some] at hs
          obtain ⟨⟨hmem, hmgr⟩, heq⟩ := hs
          cases heq
          subst ‹_ = set.mgrQ›
          exact .invokeMgr hmem (hmgr rfl)
        · cases h
      · cases h
        exact .loop
      · cases h
        exact .clock
      · exact trans_of_runTimers h
      · cases h
        exact .block
      · cases h
        exact .wake
      · exact trans_of_nextTimerFire h

omit [DecidableEq T] in
/-- A step is a step of one source, leaves all sources alone, or disarms a timer. -/
inductive Effect (set : Setting T Q) (t : T) (a : Act S Q) (m m' : Mem S Q) (l l' : Loc S Q) :
    Prop
  | use (ds : S) (x : Source.Mem Q) :
      Source.Trans set.toSetting t (m.src ds) (l.on ds) x (l'.on ds) →
      (Steady (m.src ds) → isCalm (l.on ds) →
        Keeps set.toSetting t (a = .resume ds) (m.src ds) x (l.on ds) (l'.on ds)) →
      m'.src = Function.update m.src ds x →
      (∀ dsi ≠ ds, l.on dsi = .idle ∧ l'.on dsi = .idle) → Effect set t a m m' l l'
  | quiet : m'.src = m.src → (∀ ds, l.on ds = .idle ∧ l'.on ds = .idle) →
      Effect set t a m m' l l'
  | disarm (c : Clock) (ds : S) (rest : List S) (p : Plan) :
      l = ⟨.disarm c ds rest p, none⟩ →
      m'.src = Function.update m.src ds { m.src ds with dsIsArmed := false } →
      (∀ dsi, l'.on dsi = .idle) → Effect set t a m m' l l'

omit [DecidableEq T] in
theorem Trans.effect (h : Trans set t a m l m' l') : Effect set t a m m' l l' := by
  cases h with
  | source hidle htr =>
      refine .use _ _ (by simpa using htr) (fun hm hl ↦ ?_) rfl fun dsi hne ↦
        ⟨on_some_of_ne hne, on_enter_of_ne hne⟩
      simp only [on_some, on_enter] at hl ⊢
      exact trans_keeps htr hm hl hidle
  | @suspend ds =>
      refine .use ds _ .suspend (fun hm _ ↦ ?_) rfl fun _ _ ↦ ⟨rfl, rfl⟩
      exact keeps_outside ⟨hm.1, hm.2, hm.3, hm.4, hm.5, hm.6⟩ rfl (.inr (Nat.le_succ _)) rfl rfl
        rfl rfl
  | @resume ds hact hpos =>
      refine .use ds _ (by simpa using Source.Trans.resume hpos) (fun hm _ ↦ ?_) rfl fun dsi hne ↦
        ⟨rfl, on_enter_of_ne hne⟩
      obtain ⟨hcalm, htaken, harms⟩ := isCalm_resumeLoc (m.src ds)
      rw [on_enter]
      exact keeps_outside ⟨hm.1, hm.2, hm.3, hm.4, hm.5, hm.6⟩ hcalm (.inl hact) rfl rfl htaken
        harms
  | @invoke ds tq hmem hne =>
      refine .use ds _ (by simpa using Source.Trans.invoke hmem fun h ↦ (hne h).elim)
        (fun hm _ ↦ ?_) rfl fun dsi hdsi ↦ ⟨rfl, on_some_of_ne hdsi⟩
      rw [on_some]
      refine keeps_taken ⟨hm.1, hm.2, hm.3, hm.4, hm.5, hm.6⟩ rfl rfl rfl rfl (fun q hq ↦ ?_) rfl
      cases hq
      exact fun h ↦ (hne h).elim
  | @invokeMgr ds hmem ht =>
      refine .use ds _ (by simpa using Source.Trans.invoke hmem fun _ ↦ ht)
        (fun hm _ ↦ ?_) rfl fun dsi hdsi ↦ ⟨rfl, on_some_of_ne hdsi⟩
      rw [on_some]
      exact keeps_taken ⟨hm.1, hm.2, hm.3, hm.4, hm.5, hm.6⟩ rfl rfl rfl rfl (fun _ _ _ ↦ ht) rfl
  | @fire c now ds n _ _ ht hdk =>
      refine .use ds _ (by simpa using Source.Trans.fire ht hdk) (fun hm _ ↦ ?_) rfl fun dsi hdsi ↦
        ⟨rfl, on_some_of_ne hdsi⟩
      rw [on_some]
      exact keeps_outside ⟨hm.1, hm.2, hm.3, hm.4, hm.5, hm.6⟩ rfl (.inr le_rfl) rfl rfl rfl rfl
  | disarm => exact .disarm _ _ _ _ rfl rfl fun _ ↦ rfl
  | _ => exact .quiet rfl fun _ ↦ ⟨rfl, rfl⟩

end Steps

end LibDispatch.TimerLoop
