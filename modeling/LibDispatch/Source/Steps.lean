import LibDispatch.Source.Model

/-!
# What one step on a source can do

The transitions of a thread that uses a source, listed once, with the conditions under
which they are taken: first those of a thread that has `dq_running`, then all.
-/

namespace LibDispatch.Source

open Interleaving
open Queue (suspended_iff)

variable {T Q : Type*}

/-- The steps of a thread that has `dq_running`, but for the one that gives it back and the
one that releases the reference of the manager. -/
inductive HeldTrans (set : Setting T Q) (m : Mem Q) (f : Frame Q) :
    Held Q → Mem Q → Frame Q → Held Q → Prop
  | drainOrig : HeldTrans set m f .drainOrig m
      { f with origTq := m.doTargetq, next := false } .drainTail
  | drainTail : m.items ≠ [] → HeldTrans set m f .drainTail m f .drainTake
  | drainDone : m.items = [] → HeldTrans set m f .drainTail m f .compare
  | drainSpin : m.items = [] → HeldTrans set m f .drainTake m f .drainTake
  | drainLast {dc : Item Q} : m.items = [dc] → HeldTrans set m f .drainTake
      { m with items := [] } { f with next := false } (.drainSuspended dc)
  | drainTake {dc next : Item Q} {rest : List (Item Q)} : m.items = dc :: next :: rest →
      HeldTrans set m f .drainTake m { f with next := true } (.drainSuspended dc)
  | drainSuspended {dc : Item Q} : m.doSuspendCnt < 2 →
      HeldTrans set m f (.drainSuspended dc) m f (.drainRunning dc)
  | drainRunning {dc : Item Q} : m.dqRunning ≤ 1 →
      HeldTrans set m f (.drainRunning dc) m f (.drainTarget dc)
  | drainTarget {dc : Item Q} : f.origTq = m.doTargetq →
      HeldTrans set m f (.drainTarget dc) m f (.drainPop dc)
  | outSuspended {dc : Item Q} : 2 ≤ m.doSuspendCnt →
      HeldTrans set m f (.drainSuspended dc) m f (drainOut f dc)
  | outRunning {dc : Item Q} : 1 < m.dqRunning →
      HeldTrans set m f (.drainRunning dc) m f (drainOut f dc)
  | outTarget {dc : Item Q} : f.origTq ≠ m.doTargetq →
      HeldTrans set m f (.drainTarget dc) m f (drainOut f dc)
  | drainPop {dc : Item Q} : HeldTrans set m f (.drainPop dc)
      { m with items := if f.next then m.items.tail else m.items } f (.drainItem dc)
  | drainItem {dc : Item Q} : HeldTrans set m f (.drainItem dc) (dc.run m) f
      (if f.next then .drainTake else .drainTail)
  | outSwap {dc : Item Q} : m.items = [] →
      HeldTrans set m f (.outSwap dc) { m with items := [dc] } f .outHead
  | outSwapMissed {dc : Item Q} : m.items ≠ [] →
      HeldTrans set m f (.outSwap dc) m f (.outFront dc)
  | outFront {dc : Item Q} :
      HeldTrans set m f (.outFront dc) { m with items := dc :: m.items } f .compare
  | outHead : HeldTrans set m f .outHead m f .compare
  | compare : f.tq = m.doTargetq → HeldTrans set m f .compare m f .isInstalled
  | moved : f.tq ≠ m.doTargetq → HeldTrans set m f .compare m f .reload
  | reload : HeldTrans set m f .reload m f (.unlock (some m.doTargetq))
  | isInstalled : m.dsIsInstalled → HeldTrans set m f .isInstalled m f .flags
  | install : m.dsIsInstalled = false → f.current = set.mgrQ →
      HeldTrans set m f .isInstalled m f (.merge .isInstalled)
  | toInstall : m.dsIsInstalled = false → f.current ≠ set.mgrQ →
      HeldTrans set m f .isInstalled m f (.unlock (some set.mgrQ))
  | mergeInstalled : m.dsIsInstalled = false → HeldTrans set m f (.merge .isInstalled)
      { m with dsIsInstalled := true } f (.merge .insert)
  | mergeReturn : m.dsIsInstalled → HeldTrans set m f (.merge .isInstalled) m f (.unlock none)
  | mergeInsert :
      HeldTrans set m f (.merge .insert) { m with dkSources := true } f (.merge .arm)
  | mergeFound : HeldTrans set m f (.merge .insert) { m with dkSources := true } f (.unlock none)
  | mergeArm : HeldTrans set m f (.merge .arm) { m with dsIsArmed := true } f (.unlock none)
  | flags : m.dsCanceled = false → HeldTrans set m f .flags m f .xref
  | flagsCanceled : m.dsCanceled → HeldTrans set m f .flags m f .dkev
  | xref : m.doXrefCnt ≠ 0 → HeldTrans set m f .xref m f .pendingData
  | xrefReleased : m.doXrefCnt = 0 → HeldTrans set m f .xref m f .dkev
  | dkev : m.dsDkev → f.current = set.mgrQ → HeldTrans set m f .dkev m f .releaseDkev
  | toRelease : m.dsDkev → f.current ≠ set.mgrQ →
      HeldTrans set m f .dkev m f (.unlock (some set.mgrQ))
  | dkevNull : m.dsDkev = false → HeldTrans set m f .dkev m f .cancelHandler
  | releaseDkev : HeldTrans set m f .releaseDkev { m with dsDkev := false } f .releaseRemove
  | releaseRemove :
      HeldTrans set m f .releaseRemove { m with dkSources := false } f .releaseArmed
  | releaseArmed : HeldTrans set m f .releaseArmed { m with dsIsArmed := false } f .releaseRearm
  | releaseRearm :
      HeldTrans set m f .releaseRearm { m with dsNeedsRearm := false } f .releaseRef
  | releaseTarget : HeldTrans set m f .releaseTarget m f (.unlock (some m.doTargetq))
  | cancelHandler : (m.dsCancelHandler.isSome → f.current = m.doTargetq) →
      HeldTrans set m f .cancelHandler m f .calloutMask
  | toCallout : m.dsCancelHandler.isSome → f.current ≠ m.doTargetq →
      HeldTrans set m f .cancelHandler m f (.unlock (some m.doTargetq))
  | calloutMask :
      HeldTrans set m f .calloutMask { m with dsPendingDataMask := 0 } f .calloutPending
  | calloutPending :
      HeldTrans set m f .calloutPending { m with dsPendingData := 0 } f .calloutData
  | calloutData : HeldTrans set m f .calloutData
      { m with
        dsData := 0
        dsHandlerFunc := m.dsHandlerFunc && !m.dsHandlerIsBlock
        dsHandlerIsBlock := false } f .calloutHandler
  | calloutNone : m.dsCancelHandler = none →
      HeldTrans set m f .calloutHandler m f (.unlock none)
  | calloutHandler {handler : ℕ} : m.dsCancelHandler = some handler →
      HeldTrans set m f .calloutHandler m f (.calloutFlags handler)
  | calloutFlags {handler : ℕ} : m.dsCanceled → HeldTrans set m f (.calloutFlags handler)
      { m with cancelCalls := handler :: m.cancelCalls } f (.calloutRun handler)
  | calloutSkip {handler : ℕ} : m.dsCanceled = false →
      HeldTrans set m f (.calloutFlags handler) m f .calloutClear
  | calloutRun {handler : ℕ} : HeldTrans set m f (.calloutRun handler) m f .calloutClear
  | calloutClear :
      HeldTrans set m f .calloutClear { m with dsCancelHandler := none } f (.unlock none)
  | pendingData : m.dsPendingData ≠ 0 → f.current = m.doTargetq →
      HeldTrans set m f .pendingData m f .latchFlags
  | toLatch : m.dsPendingData ≠ 0 → f.current ≠ m.doTargetq →
      HeldTrans set m f .pendingData m f (.unlock (some m.doTargetq))
  | pendingNone : m.dsPendingData = 0 → HeldTrans set m f .pendingData m f .needsRearm
  | latchFlags : m.dsCanceled = false → HeldTrans set m f .latchFlags m f .latchXref
  | latchCanceled : m.dsCanceled → HeldTrans set m f .latchFlags m f .latchRearm
  | latchXref : m.doXrefCnt ≠ 0 → HeldTrans set m f .latchXref m f .latchXchg
  | latchReleased : m.doXrefCnt = 0 → HeldTrans set m f .latchXref m f .latchRearm
  | latchXchg : HeldTrans set m f .latchXchg
      { m with dsPendingData := 0, latchedAt := m.merges.length } f (.latchData m.dsPendingData)
  | latchData {prev : BitVec 64} : prev ≠ 0 → m.dsHandlerFunc →
      HeldTrans set m f (.latchData prev)
        { m with
          dsData := latchedData set prev
          deliveries := m.deliveries ++ [(m.latchedAt, latchedData set prev)] } f .latchRun
  | latchDrop {prev : BitVec 64} : (m.dsHandlerFunc → prev = 0) → HeldTrans set m f
      (.latchData prev) { m with dsData := latchedData set prev } f .latchRearm
  | latchRun : HeldTrans set m f .latchRun m f .latchRearm
  | latchRearm : m.dsNeedsRearm → HeldTrans set m f .latchRearm m f (.unlock (some set.mgrQ))
  | latchDone : m.dsNeedsRearm = false → HeldTrans set m f .latchRearm m f (.unlock none)
  | needsRearm : m.dsNeedsRearm → m.dsIsArmed = false → f.current = set.mgrQ →
      HeldTrans set m f .needsRearm m f .arm
  | toRearm : m.dsNeedsRearm → m.dsIsArmed = false → f.current ≠ set.mgrQ →
      HeldTrans set m f .needsRearm m f (.unlock (some set.mgrQ))
  | rearmDone : (m.dsNeedsRearm → m.dsIsArmed) →
      HeldTrans set m f .needsRearm m f (.unlock none)
  | arm : HeldTrans set m f .arm { m with dsIsArmed := true } f (.unlock none)

variable [DecidableEq Q]

inductive Trans (set : Setting T Q) (t : T) (m : Mem Q) : Loc Q → Mem Q → Loc Q → Prop
  | push {item : Item Q} : Trans set t m .idle m (.pushExchange item)
  | cancel : Trans set t m .idle m .cancelRetain
  | mergeData {val : BitVec 64} :
      Trans set t m .idle m (.mergeDkev ⟨false, false, val, val.setWidth 32⟩)
  | kevent {ke : Kevent} : t = set.mgr → m.dkSources → Trans set t m .idle m (.mergeFlags ke)
  | fire {n : BitVec 64} : t = set.mgr → m.dkSources → Trans set t m .idle
      { m with dsPendingData := m.dsPendingData + n, merges := m.merges ++ [n] }
      (.wakeup .suspended .return)
  | setTimer : 0 < m.doXrefCnt →
      Trans set t m .idle { m with doXrefCnt := m.doXrefCnt + 1 } .setTimerSuspend
  | setTimer2 : t = set.mgr → 0 < m.timers →
      Trans set t m .idle { m with timers := m.timers - 1 } .timerDkev
  | nextFire : t = set.mgr → m.dkSources → Trans set t m .idle m .nextFireSuspended
  | retain : 0 < m.doXrefCnt → Trans set t m .idle { m with doXrefCnt := m.doXrefCnt + 1 } .idle
  | releaseCall : 0 < m.doXrefCnt → Trans set t m .idle m .releaseXref
  | suspend : Trans set t m .idle
      { m with doSuspendCnt := m.doSuspendCnt + 2, suspensions := m.suspensions + 1 } .idle
  | resume : 0 < m.suspensions → Trans set t m .idle
      { m with doSuspendCnt := m.doSuspendCnt - 2, suspensions := m.suspensions - 1 }
      (resumeLoc m .return)
  | invoke {tq : Q} : tq ∈ m.linked → (tq = set.mgrQ → t = set.mgr) →
      Trans set t m .idle { m with linked := m.linked.erase tq } (.invokeTarget tq)
  | exchange {item : Item Q} : m.items = [] →
      Trans set t m (.pushExchange item) { m with items := m.items ++ [item] } .pushRetain
  | exchangeBehind {item : Item Q} : m.items ≠ [] →
      Trans set t m (.pushExchange item) { m with items := m.items ++ [item] } .pushLink
  | pushLink : Trans set t m .pushLink m .idle
  | pushRetain : Trans set t m .pushRetain { m with doRefCnt := m.doRefCnt + 1 } .pushHead
  | pushHead : Trans set t m .pushHead m (.wakeup .suspended .release)
  | wakeupSuspended {k : After} : 2 ≤ m.doSuspendCnt →
      Trans set t m (.wakeup .suspended k) m k.loc
  | wakeup {k : After} : m.doSuspendCnt < 2 →
      Trans set t m (.wakeup .suspended k) m (.wakeup (.probe .isInstalled) k)
  | probe {p p' : Probe} {k : After} : dispatchSourceProbe m p = .inl p' →
      Trans set t m (.wakeup (.probe p) k) m (.wakeup (.probe p') k)
  | probeTrue {p : Probe} {k : After} : dispatchSourceProbe m p = .inr true →
      Trans set t m (.wakeup (.probe p) k) m (.wakeup .lock k)
  | probeFalse {p : Probe} {k : After} : dispatchSourceProbe m p = .inr false →
      Trans set t m (.wakeup (.probe p) k) m (.wakeup .tail k)
  | wakeupEmpty {k : After} : m.items = [] → Trans set t m (.wakeup .tail k) m k.loc
  | wakeupTail {k : After} : m.items ≠ [] →
      Trans set t m (.wakeup .tail k) m (.wakeup .lock k)
  | wakeupLock {k : After} : m.doSuspendCnt = 0 →
      Trans set t m (.wakeup .lock k) { m with doSuspendCnt := 1 } (.wakeup .retain k)
  | wakeupMissed {k : After} : m.doSuspendCnt ≠ 0 → Trans set t m (.wakeup .lock k) m k.loc
  | wakeupRetain {k : After} : Trans set t m (.wakeup .retain k)
      { m with doRefCnt := m.doRefCnt + 1 } (.wakeup .target k)
  | wakeupTarget {k : After} :
      Trans set t m (.wakeup .target k) m (.wakeup (.push m.doTargetq) k)
  | wakeupPush {tq : Q} {k : After} :
      Trans set t m (.wakeup (.push tq) k) { m with linked := tq :: m.linked } k.loc
  | release : m.doRefCnt ≠ 1 →
      Trans set t m .release { m with doRefCnt := m.doRefCnt - 1 } .idle
  | releaseLast : m.doRefCnt = 1 → m.doXrefCnt = 0 →
      Trans set t m .release { m with doRefCnt := 0, disposed := true } .idle
  | releaseCrash : m.doRefCnt = 1 → m.doXrefCnt ≠ 0 →
      Trans set t m .release { m with doRefCnt := 0 } (.crash .releaseReferenced)
  | overRelease : m.doXrefCnt = 0 → Trans set t m .releaseXref m (.crash .overRelease)
  | releaseXref : 1 < m.doXrefCnt →
      Trans set t m .releaseXref { m with doXrefCnt := m.doXrefCnt - 1 } .idle
  | releaseXrefLast : m.doXrefCnt = 1 →
      Trans set t m .releaseXref { m with doXrefCnt := m.doXrefCnt - 1 } .xrefSuspended
  | releaseSuspended : 2 ≤ m.doSuspendCnt →
      Trans set t m .xrefSuspended m (.crash .releaseSuspended)
  | xrefSuspended : m.doSuspendCnt < 2 →
      Trans set t m .xrefSuspended m (.wakeup .suspended .release)
  | cancelRetain : Trans set t m .cancelRetain { m with doRefCnt := m.doRefCnt + 1 } .cancelFlag
  | cancelFlag :
      Trans set t m .cancelFlag { m with dsCanceled := true } (.wakeup .suspended .release)
  | mergeDkev {ke : Kevent} : m.dsDkev → Trans set t m (.mergeDkev ke) m (.mergeFlags ke)
  | nullDkev {ke : Kevent} : m.dsDkev = false →
      Trans set t m (.mergeDkev ke) m (.crash .nullDkev)
  | mergeFlags {ke : Kevent} : m.dsCanceled = false →
      Trans set t m (.mergeFlags ke) m (.mergeXref ke)
  | mergeCanceled {ke : Kevent} : m.dsCanceled → Trans set t m (.mergeFlags ke) m .idle
  | mergeXref {ke : Kevent} : m.doXrefCnt ≠ 0 →
      Trans set t m (.mergeXref ke) m (.mergePending ke)
  | mergeReleased {ke : Kevent} : m.doXrefCnt = 0 → Trans set t m (.mergeXref ke) m .idle
  | mergeError {ke : Kevent} : ke.actual = none → Trans set t m (.mergePending ke) m .idle
  | mergePending {ke ke' : Kevent} : ke.actual = some ke' → Trans set t m (.mergePending ke)
      { m with dsPendingData := mergedData set m ke', merges := m.merges ++ [ke'.data] } .mergeRearm
  | mergeRearm : m.dsNeedsRearm → Trans set t m .mergeRearm m .mergeDisarm
  | mergeDone : m.dsNeedsRearm = false →
      Trans set t m .mergeRearm m (.wakeup .suspended .return)
  | mergeDisarm :
      Trans set t m .mergeDisarm { m with dsIsArmed := false } (.wakeup .suspended .return)
  | setTimerSuspend : Trans set t m .setTimerSuspend
      { m with doSuspendCnt := m.doSuspendCnt + 2 } .setTimerPush
  | setTimerPush : Trans set t m .setTimerPush { m with timers := m.timers + 1 } .idle
  | timerDkev : m.dsDkev → Trans set t m .timerDkev m (.timerMerge .isInstalled)
  | timerNull : m.dsDkev = false → Trans set t m .timerDkev m .timerResume
  | timerInstalled : m.dsIsInstalled = false → Trans set t m (.timerMerge .isInstalled)
      { m with dsIsInstalled := true } (.timerMerge .insert)
  | timerReturn : m.dsIsInstalled → Trans set t m (.timerMerge .isInstalled) m .timerResume
  | timerInsert :
      Trans set t m (.timerMerge .insert) { m with dkSources := true } (.timerMerge .arm)
  | timerFound : Trans set t m (.timerMerge .insert) { m with dkSources := true } .timerResume
  | timerArm : Trans set t m (.timerMerge .arm) { m with dsIsArmed := true } .timerResume
  | timerResume : Trans set t m .timerResume
      { m with doSuspendCnt := m.doSuspendCnt - 2 } (resumeLoc m .releaseXref)
  | nextFireSuspended : 2 ≤ m.doSuspendCnt → Trans set t m .nextFireSuspended m .nextFireDisarm
  | nextFireFound : m.doSuspendCnt < 2 → Trans set t m .nextFireSuspended m .idle
  | nextFireDisarm : Trans set t m .nextFireDisarm { m with dsIsArmed := false } .idle
  | invokeTarget {current : Q} :
      Trans set t m (.invokeTarget current) m (.invokeSuspended current m.doTargetq)
  | invokeSuspended {current tq : Q} : m.doSuspendCnt < 2 →
      Trans set t m (.invokeSuspended current tq) m (.invokeLock current tq)
  | invokeLock {current tq : Q} : m.dqRunning = 0 → Trans set t m (.invokeLock current tq)
      { m with dqRunning := 1 } (.held ⟨current, tq, tq, false⟩ .drainOrig)
  | invokeStop {current tq : Q} : 2 ≤ m.doSuspendCnt →
      Trans set t m (.invokeSuspended current tq) m .invokeSubLock
  | invokeLockMissed {current tq : Q} : m.dqRunning ≠ 0 →
      Trans set t m (.invokeLock current tq) m .invokeSubLock
  | held {f f' : Frame Q} {p p' : Held Q} {m' : Mem Q} : HeldTrans set m f p m' f' p' →
      Trans set t m (.held f p) m' (.held f' p')
  | releaseRef {f : Frame Q} : m.doRefCnt ≠ 1 → Trans set t m (.held f .releaseRef)
      { m with doRefCnt := m.doRefCnt - 1 } (.held f .releaseTarget)
  | releaseRefLast {f : Frame Q} : m.doRefCnt = 1 → m.doXrefCnt = 0 →
      Trans set t m (.held f .releaseRef) { m with doRefCnt := 0, disposed := true }
        (.held f .releaseTarget)
  | releaseRefCrash {f : Frame Q} : m.doRefCnt = 1 → m.doXrefCnt ≠ 0 →
      Trans set t m (.held f .releaseRef) { m with doRefCnt := 0 } (.crash .releaseReferenced)
  | unlock {f : Frame Q} : Trans set t m (.held f (.unlock none))
      { m with dqRunning := m.dqRunning - 1 } .invokeSubLock
  | unlockTo {f : Frame Q} {tq : Q} : Trans set t m (.held f (.unlock (some tq)))
      { m with dqRunning := m.dqRunning - 1 } (.invokePush tq)
  | invokePush {tq : Q} :
      Trans set t m (.invokePush tq) { m with linked := tq :: m.linked } .idle
  | invokeSubLock : m.doSuspendCnt - 1 = 0 → Trans set t m .invokeSubLock
      { m with doSuspendCnt := m.doSuspendCnt - 1 } .invokeRunning
  | invokeSubLockBusy : m.doSuspendCnt - 1 ≠ 0 → Trans set t m .invokeSubLock
      { m with doSuspendCnt := m.doSuspendCnt - 1 } .release
  | invokeRunning : m.dqRunning = 0 →
      Trans set t m .invokeRunning m (.wakeup .suspended .release)
  | invokeRunningBusy : m.dqRunning ≠ 0 → Trans set t m .invokeRunning m .release

variable {set : Setting T Q} {t : T} {m m' : Mem Q} {l l' : Loc Q} {f f' : Frame Q}
  {p p' : Held Q} {found : Bool}

theorem heldTrans_of_drain (h : dispatchQueueDrain m f p = some (m', f', p')) :
    HeldTrans set m f p m' f' p' := by
  unfold dispatchQueueDrain at h
  split at h
  · cases h
    exact .drainOrig
  · cases h
    split
    · exact .drainDone ‹_›
    · exact .drainTail ‹_›
  · split at h <;> cases h
    · exact .drainSpin ‹_›
    · exact .drainLast ‹_›
    · exact .drainTake ‹_›
  · cases h
    split <;> rename_i hsus <;> rw [suspended_iff] at hsus
    · exact .outSuspended hsus
    · exact .drainSuspended (by omega)
  · cases h
    split
    · exact .outRunning ‹_›
    · exact .drainRunning (by omega)
  · cases h
    split
    · exact .outTarget ‹_›
    · exact .drainTarget (of_not_not ‹_›)
  · cases h
    exact .drainPop
  · cases h
    exact .drainItem
  · split at h <;> cases h
    · exact .outSwap ‹_›
    · exact .outSwapMissed ‹_›
  · cases h
    exact .outFront
  · cases h
    exact .outHead
  · cases h
    split
    · exact .compare ‹_›
    · exact .moved ‹_›
  · cases h
    exact .reload
  · cases h

omit [DecidableEq Q] in
theorem heldTrans_of_release (h : dispatchKeventRelease m p = some (m', p')) :
    HeldTrans set m f p m' f p' := by
  unfold dispatchKeventRelease at h
  split at h <;> cases h
  · exact .releaseDkev
  · exact .releaseRemove
  · exact .releaseArmed
  · exact .releaseRearm
  · exact .releaseTarget

omit [DecidableEq Q] in
theorem heldTrans_of_callout (h : dispatchSourceCancelCallout m p = some (m', p')) :
    HeldTrans set m f p m' f p' := by
  unfold dispatchSourceCancelCallout at h
  split at h
  · cases h
    exact .calloutMask
  · cases h
    exact .calloutPending
  · cases h
    exact .calloutData
  · cases h
    cases hh : m.dsCancelHandler with
    | none => exact .calloutNone hh
    | some handler => exact .calloutHandler hh
  · split at h <;> cases h
    · exact .calloutFlags ‹_›
    · exact .calloutSkip (Bool.eq_false_of_not_eq_true ‹_›)
  · cases h
    exact .calloutRun
  · cases h
    exact .calloutClear
  · cases h

omit [DecidableEq Q] in
theorem heldTrans_of_latch (h : dispatchSourceLatchAndCall set m p = some (m', p')) :
    HeldTrans set m f p m' f p' := by
  unfold dispatchSourceLatchAndCall at h
  split at h
  · cases h
    split
    · exact .latchCanceled ‹_›
    · exact .latchFlags (Bool.eq_false_of_not_eq_true ‹_›)
  · cases h
    split
    · exact .latchReleased ‹_›
    · exact .latchXref ‹_›
  · cases h
    exact .latchXchg
  · split at h <;> cases h <;> rename_i hcall
    · exact .latchData hcall.1 hcall.2
    · exact .latchDrop fun hfunc ↦ of_not_not fun hprev ↦ hcall ⟨hprev, hfunc⟩
  · cases h
    exact .latchRun
  · cases h
    split
    · exact .latchRearm ‹_›
    · exact .latchDone (Bool.eq_false_of_not_eq_true ‹_›)
  · cases h

omit [DecidableEq Q] in
theorem heldTrans_of_merge {q : Merge} :
    HeldTrans set m f (.merge q) (dispatchKeventMerge m found q).1 f
      ((dispatchKeventMerge m found q).2.elim (.unlock none) .merge) := by
  cases q with
  | isInstalled =>
      cases hi : m.dsIsInstalled
      · simp only [dispatchKeventMerge, hi]
        exact .mergeInstalled hi
      · simp only [dispatchKeventMerge, hi]
        exact .mergeReturn hi
  | insert =>
      cases found
      · exact .mergeInsert
      · exact .mergeFound
  | arm => exact .mergeArm

theorem heldTrans_of_invoke (h : dispatchSourceInvoke set m f found p = some (m', p')) :
    HeldTrans set m f p m' f p' := by
  unfold dispatchSourceInvoke at h
  split at h
  · cases h
    split
    · exact .isInstalled ‹_›
    · have hne : m.dsIsInstalled = false := Bool.eq_false_of_not_eq_true ‹_›
      split
      · exact .install hne ‹_›
      · exact .toInstall hne ‹_›
  · cases h
    exact heldTrans_of_merge
  · cases h
    split
    · exact .flagsCanceled ‹_›
    · exact .flags (Bool.eq_false_of_not_eq_true ‹_›)
  · cases h
    split
    · exact .xrefReleased ‹_›
    · exact .xref ‹_›
  · cases h
    split
    · split
      · exact .dkev ‹_› ‹_›
      · exact .toRelease ‹_› ‹_›
    · exact .dkevNull (Bool.eq_false_of_not_eq_true ‹_›)
  · cases h
    split <;> rename_i hmoved
    · exact .toCallout hmoved.1 hmoved.2
    · refine .cancelHandler fun hs ↦ ?_
      by_contra hne
      exact hmoved ⟨hs, hne⟩
  · cases h
    split
    · exact .pendingNone ‹_›
    · split
      · exact .pendingData ‹_› ‹_›
      · exact .toLatch ‹_› ‹_›
  · cases h
    split <;> rename_i hrearm
    · have harmed : m.dsIsArmed = false := by simpa using hrearm.2
      split
      · exact .needsRearm hrearm.1 harmed ‹_›
      · exact .toRearm hrearm.1 harmed ‹_›
    · exact .rearmDone fun hr ↦ by simpa [hr] using hrearm
  · cases h
    exact .arm
  · simp only [Option.orElse_eq_orElse, Option.orElse_eq_or, Option.or_eq_some_iff] at h
    rcases h with h | ⟨-, h | ⟨-, h⟩⟩
    · exact heldTrans_of_release h
    · exact heldTrans_of_callout h
    · exact heldTrans_of_latch h

theorem trans_of_push (h : dispatchQueuePush m l = some (m', l')) : Trans set t m l m' l' := by
  unfold dispatchQueuePush at h
  split at h <;> cases h
  · split
    · exact .exchange ‹_›
    · exact .exchangeBehind ‹_›
  · exact .pushLink
  · exact .pushRetain
  · exact .pushHead

theorem trans_of_wakeup {w : Wake Q} {k : After} (h : dispatchWakeup m k w = (m', l')) :
    Trans set t m (.wakeup w k) m' l' := by
  unfold dispatchWakeup at h
  split at h
  · cases h
    split <;> rename_i hsus <;> rw [suspended_iff] at hsus
    · exact .wakeupSuspended hsus
    · exact .wakeup (by omega)
  · split at h <;> cases h
    · exact .probe ‹_›
    · exact .probeTrue ‹_›
    · exact .probeFalse ‹_›
  · cases h
    split
    · exact .wakeupEmpty ‹_›
    · exact .wakeupTail ‹_›
  · split at h <;> cases h
    · exact .wakeupLock ‹_›
    · exact .wakeupMissed ‹_›
  · cases h
    exact .wakeupRetain
  · cases h
    exact .wakeupTarget
  · cases h
    exact .wakeupPush

theorem trans_of_release (h : dispatchRelease m .idle = (m', l')) :
    Trans set t m .release m' l' := by
  unfold dispatchRelease at h
  split at h
  · split at h <;> cases h
    · exact .releaseLast ‹_› ‹_›
    · exact .releaseCrash ‹_› ‹_›
  · cases h
    exact .release ‹_›

theorem trans_of_xrefRelease (h : dispatchSourceXrefRelease m l = some (m', l')) :
    Trans set t m l m' l' := by
  unfold dispatchSourceXrefRelease at h
  split at h
  · split at h <;> cases h
    · exact .overRelease ‹_›
    · split
      · exact .releaseXrefLast ‹_›
      · exact .releaseXref (by omega)
  · cases h
    split <;> rename_i hsus <;> rw [suspended_iff] at hsus
    · exact .releaseSuspended hsus
    · exact .xrefSuspended (by omega)
  · cases h

theorem trans_of_cancel (h : dispatchSourceCancel m l = some (m', l')) :
    Trans set t m l m' l' := by
  unfold dispatchSourceCancel at h
  split at h <;> cases h
  · exact .cancelRetain
  · exact .cancelFlag

theorem trans_of_mergeKevent (h : dispatchSourceMergeKevent set m l = some (m', l')) :
    Trans set t m l m' l' := by
  unfold dispatchSourceMergeKevent at h
  split at h
  · cases h
    split
    · exact .mergeDkev ‹_›
    · exact .nullDkev (Bool.eq_false_of_not_eq_true ‹_›)
  · cases h
    split
    · exact .mergeCanceled ‹_›
    · exact .mergeFlags (Bool.eq_false_of_not_eq_true ‹_›)
  · cases h
    split
    · exact .mergeReleased ‹_›
    · exact .mergeXref ‹_›
  · split at h <;> cases h
    · exact .mergeError ‹_›
    · exact .mergePending ‹_›
  · cases h
    split
    · exact .mergeRearm ‹_›
    · exact .mergeDone (Bool.eq_false_of_not_eq_true ‹_›)
  · cases h
    exact .mergeDisarm
  · cases h

theorem trans_of_setTimer (h : dispatchSourceSetTimer m found l = some (m', l')) :
    Trans set t m l m' l' := by
  unfold dispatchSourceSetTimer at h
  split at h
  · cases h
    exact .setTimerSuspend
  · cases h
    exact .setTimerPush
  · cases h
    split
    · exact .timerDkev ‹_›
    · exact .timerNull (Bool.eq_false_of_not_eq_true ‹_›)
  · rename_i q
    cases q with
    | isInstalled =>
        cases hi : m.dsIsInstalled <;> simp only [dispatchKeventMerge, hi] at h <;> cases h
        · exact .timerInstalled hi
        · exact .timerReturn hi
    | insert =>
        cases found <;> cases h
        · exact .timerInsert
        · exact .timerFound
    | arm =>
        cases h
        exact .timerArm
  · cases h
    exact .timerResume
  · cases h

theorem trans_of_nextTimerFire (h : dispatchGetNextTimerFire m l = some (m', l')) :
    Trans set t m l m' l' := by
  unfold dispatchGetNextTimerFire at h
  split at h <;> cases h
  · split <;> rename_i hsus <;> rw [suspended_iff] at hsus
    · exact .nextFireSuspended hsus
    · exact .nextFireFound (by omega)
  · exact .nextFireDisarm

theorem trans_of_queueInvoke (h : dispatchQueueInvoke set m found l = some (m', l')) :
    Trans set t m l m' l' := by
  unfold dispatchQueueInvoke at h
  split at h
  · cases h
    exact .invokeTarget
  · cases h
    split <;> rename_i hsus <;> rw [suspended_iff] at hsus
    · exact .invokeStop hsus
    · exact .invokeSuspended (by omega)
  · split at h <;> cases h
    · exact .invokeLock ‹_›
    · exact .invokeLockMissed ‹_›
  · rename_i tq
    cases tq <;> cases h
    · exact .unlock
    · exact .unlockTo
  · unfold dispatchRelease at h
    split at h
    · split at h <;> cases h
      · exact .releaseRefLast ‹_› ‹_›
      · exact .releaseRefCrash ‹_› ‹_›
    · cases h
      exact .releaseRef ‹_›
  · simp only [Option.orElse_eq_orElse, Option.orElse_eq_or, Option.or_eq_some_iff,
      Option.map_eq_some_iff, Prod.exists] at h
    rcases h with ⟨m₁, f₁, p₁, hd, heq⟩ | ⟨-, m₁, p₁, hd, heq⟩ <;> cases heq
    · exact .held (heldTrans_of_drain hd)
    · exact .held (heldTrans_of_invoke hd)
  · cases h
    exact .invokePush
  · cases h
    split
    · exact .invokeSubLock ‹_›
    · exact .invokeSubLockBusy ‹_›
  · cases h
    split
    · exact .invokeRunning ‹_›
    · exact .invokeRunningBusy ‹_›
  · cases h

theorem trans_of_go (h : go set m found l = some (m', l')) : Trans set t m l m' l' := by
  unfold go at h
  split at h
  · exact trans_of_wakeup (Option.some.inj h)
  · exact trans_of_release (Option.some.inj h)
  · simp only [Option.orElse_eq_orElse, Option.orElse_eq_or, Option.or_eq_some_iff] at h
    rcases h with h | ⟨-, h | ⟨-, h | ⟨-, h | ⟨-, h | ⟨-, h | ⟨-, h⟩⟩⟩⟩⟩⟩
    · exact trans_of_push h
    · exact trans_of_xrefRelease h
    · exact trans_of_cancel h
    · exact trans_of_mergeKevent h
    · exact trans_of_setTimer h
    · exact trans_of_nextTimerFire h
    · exact trans_of_queueInvoke h

variable [DecidableEq T] {a : Act Q}

theorem trans_of_step (h : step set t a m l = some (m', l')) : Trans set t m l m' l' := by
  unfold step at h
  split at h
  · exact trans_of_go h
  · exact trans_of_go h
  · split at h
    · subst l
      split at h
      · cases h
        exact .push
      · cases h
        exact .push
      · cases h
        exact .push
      · cases h
        exact .cancel
      · cases h
        exact .mergeData
      · split at h <;> cases h
        exact .kevent (‹_ ∧ _›).1 (‹_ ∧ _›).2
      · split at h <;> cases h
        exact .fire (‹_ ∧ _›).1 (‹_ ∧ _›).2
      · split at h <;> cases h
        exact .setTimer ‹_›
      · split at h <;> cases h
        exact .setTimer2 (‹_ ∧ _›).1 (‹_ ∧ _›).2
      · split at h <;> cases h
        exact .nextFire (‹_ ∧ _›).1 (‹_ ∧ _›).2
      · split at h <;> cases h
        exact .retain ‹_›
      · split at h <;> cases h
        exact .releaseCall ‹_›
      · cases h
        exact .suspend
      · split at h <;> cases h
        exact .resume ‹_›
      · split at h <;> cases h
        exact .invoke (‹_ ∧ _›).1 (‹_ ∧ _›).2
      · cases h
    · cases h

end LibDispatch.Source
