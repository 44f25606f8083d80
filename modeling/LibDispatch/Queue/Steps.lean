import LibDispatch.Queue.Model

/-!
# What one step on a queue can do

The transitions of a thread that uses a queue, listed once, with the conditions under
which they are taken.
-/

namespace LibDispatch.Queue

open Interleaving

variable {T Q : Type*} [DecidableEq T] [DecidableEq Q]

inductive Trans (width : ℕ) (t : T) (m : Mem T Q) : Loc T Q → Mem T Q → Loc T Q → Prop
  | async {barrier : Bool} : Trans width t m .idle m (.pushExchange (.async barrier) .return)
  | setTargetQueue {tq : Q} :
      Trans width t m .idle m (.pushExchange (.setTargetQueue tq) .return)
  | barrierSync : Trans width t m .idle m .barrierTail
  | sync : width ≠ 1 → Trans width t m .idle m .syncTail
  | suspendOuter : Trans width t m .idle
      { m with doSuspendCnt := m.doSuspendCnt + 2, outer := m.outer + 1 } .idle
  | suspendInner {l : Loc T Q} : l.executing → Trans width t m l
      { m with doSuspendCnt := m.doSuspendCnt + 2, inner := m.inner + 1 } l
  | resumeInner : 0 < m.inner → Trans width t m .idle
      { m with doSuspendCnt := m.doSuspendCnt - 2, inner := m.inner - 1 } (resumeLoc m)
  | resumeOuter : 0 < m.outer → Trans width t m .idle
      { m with doSuspendCnt := m.doSuspendCnt - 2, outer := m.outer - 1 } (resumeLoc m)
  | invoke {tq : Q} : tq ∈ m.linked →
      Trans width t m .idle { m with linked := m.linked.erase tq } .invokeTarget
  | redirect2 : 0 < m.redirected →
      Trans width t m .idle { m with redirected := m.redirected - 1 } .redirectRun
  | release {k : After} :
      Trans width t m (.release k) { m with doRefCnt := m.doRefCnt - 1 } (k.loc t)
  | exchange {item : Item T Q} {k : After} : m.items = [] →
      Trans width t m (.pushExchange item k) { m with items := m.items ++ [item] } (.pushRetain k)
  | exchangeBehind {item : Item T Q} {k : After} : m.items ≠ [] →
      Trans width t m (.pushExchange item k) { m with items := m.items ++ [item] } (.pushLink k)
  | pushLink {k : After} : Trans width t m (.pushLink k) m (k.loc t)
  | pushRetain {k : After} :
      Trans width t m (.pushRetain k) { m with doRefCnt := m.doRefCnt + 1 } (.pushHead k)
  | pushHead {k : After} : Trans width t m (.pushHead k) m (.wakeup (.release k))
  | wakeupSuspended {k : After} : 2 ≤ m.doSuspendCnt → Trans width t m (.wakeup k) m (k.loc t)
  | wakeup {k : After} : m.doSuspendCnt < 2 → Trans width t m (.wakeup k) m (.wakeupProbe k)
  | wakeupEmpty {k : After} : m.items = [] → Trans width t m (.wakeupProbe k) m (k.loc t)
  | wakeupProbe {k : After} : m.items ≠ [] →
      Trans width t m (.wakeupProbe k) m (.wakeupLock k)
  | wakeupLock {k : After} : m.doSuspendCnt = 0 →
      Trans width t m (.wakeupLock k) { m with doSuspendCnt := 1 } (.wakeupRetain k)
  | wakeupMissed {k : After} : m.doSuspendCnt ≠ 0 →
      Trans width t m (.wakeupLock k) m (k.loc t)
  | wakeupRetain {k : After} :
      Trans width t m (.wakeupRetain k) { m with doRefCnt := m.doRefCnt + 1 } (.wakeupTarget k)
  | wakeupTarget {k : After} :
      Trans width t m (.wakeupTarget k) m (.wakeupPush m.doTargetq k)
  | wakeupPush {tq : Q} {k : After} :
      Trans width t m (.wakeupPush tq k) { m with linked := tq :: m.linked } (k.loc t)
  | barrierTail : m.items = [] → Trans width t m .barrierTail m .barrierSuspended
  | barrierSuspended : m.doSuspendCnt < 2 → Trans width t m .barrierSuspended m .barrierLock
  | barrierLock : m.dqRunning = 0 →
      Trans width t m .barrierLock { m with dqRunning := 1 } .barrierRun
  | barrierTailSlow : m.items ≠ [] →
      Trans width t m .barrierTail m (.pushExchange (.barrierSyncSlow t) .waitBarrier)
  | barrierSuspendedSlow : 2 ≤ m.doSuspendCnt →
      Trans width t m .barrierSuspended m (.pushExchange (.barrierSyncSlow t) .waitBarrier)
  | barrierLockSlow : m.dqRunning ≠ 0 →
      Trans width t m .barrierLock m (.pushExchange (.barrierSyncSlow t) .waitBarrier)
  | barrierRun : Trans width t m .barrierRun m .barrierUnlock
  | barrierUnlock : m.dqRunning - 1 = 0 → Trans width t m .barrierUnlock
      { m with dqRunning := m.dqRunning - 1 } (.wakeup .return)
  | barrierUnlockBusy : m.dqRunning - 1 ≠ 0 → Trans width t m .barrierUnlock
      { m with dqRunning := m.dqRunning - 1 } .idle
  | barrierWait : 0 < m.sema t → Trans width t m .barrierWait
      { m with sema := Function.update m.sema t (m.sema t - 1) } .barrierSlowRun
  | barrierSlowRun : Trans width t m .barrierSlowRun m .barrierResume
  | barrierResume : Trans width t m .barrierResume
      { m with doSuspendCnt := m.doSuspendCnt - 2 } (resumeLoc m)
  | syncTail : m.items = [] → Trans width t m .syncTail m .syncSuspended
  | syncSuspended : m.doSuspendCnt < 2 → Trans width t m .syncSuspended m .syncAdd
  | syncAdd : m.dqRunning % 2 ≠ 1 →
      Trans width t m .syncAdd { m with dqRunning := m.dqRunning + 2 } .syncRun
  | syncAddBusy : m.dqRunning % 2 = 1 →
      Trans width t m .syncAdd { m with dqRunning := m.dqRunning + 2 } .syncBackOff
  | syncTailSlow : m.items ≠ [] →
      Trans width t m .syncTail m (.pushExchange (.syncSlow t) .waitReader)
  | syncSuspendedSlow : 2 ≤ m.doSuspendCnt →
      Trans width t m .syncSuspended m (.pushExchange (.syncSlow t) .waitReader)
  | syncBackOff : m.dqRunning - 2 = 0 → Trans width t m .syncBackOff
      { m with dqRunning := m.dqRunning - 2 } (.wakeup .syncSlow)
  | syncBackOffBusy : m.dqRunning - 2 ≠ 0 → Trans width t m .syncBackOff
      { m with dqRunning := m.dqRunning - 2 } (.pushExchange (.syncSlow t) .waitReader)
  | syncWait : 0 < m.sema t → Trans width t m .syncWait
      { m with sema := Function.update m.sema t (m.sema t - 1) } .syncRun
  | syncRun : Trans width t m .syncRun m .syncLeave
  | syncLeave : m.dqRunning - 2 = 0 → Trans width t m .syncLeave
      { m with dqRunning := m.dqRunning - 2 } (.wakeup .return)
  | syncLeaveBusy : m.dqRunning - 2 ≠ 0 → Trans width t m .syncLeave
      { m with dqRunning := m.dqRunning - 2 } .idle
  | redirectRun : Trans width t m .redirectRun m .redirectLeave
  | redirectLeave : m.dqRunning - 2 = 0 → Trans width t m .redirectLeave
      { m with dqRunning := m.dqRunning - 2 } (.wakeup (.release .return))
  | redirectLeaveBusy : m.dqRunning - 2 ≠ 0 → Trans width t m .redirectLeave
      { m with dqRunning := m.dqRunning - 2 } (.release .return)
  | invokeTarget : Trans width t m .invokeTarget m (.invokeSuspended m.doTargetq)
  | invokeSuspended {tq : Q} : m.doSuspendCnt < 2 →
      Trans width t m (.invokeSuspended tq) m (.invokeLock tq)
  | invokeLock {tq : Q} : m.dqRunning = 0 →
      Trans width t m (.invokeLock tq) { m with dqRunning := 1 } (.drainOrig tq)
  | invokeSuspendedSkip {tq : Q} : 2 ≤ m.doSuspendCnt →
      Trans width t m (.invokeSuspended tq) m .invokeSubLock
  | invokeLockSkip {tq : Q} : m.dqRunning ≠ 0 →
      Trans width t m (.invokeLock tq) m .invokeSubLock
  | invokeCompare {tq : Q} : tq = m.doTargetq →
      Trans width t m (.invokeCompare tq) m (.invokeUnlock none)
  | invokeMoved {tq : Q} : tq ≠ m.doTargetq → Trans width t m (.invokeCompare tq) m .invokeReload
  | invokeReload : Trans width t m .invokeReload m (.invokeUnlock (some m.doTargetq))
  | invokeUnlock : Trans width t m (.invokeUnlock none)
      { m with dqRunning := m.dqRunning - 1 } .invokeSubLock
  | invokeUnlockMoved {tq : Q} : Trans width t m (.invokeUnlock (some tq))
      { m with dqRunning := m.dqRunning - 1 } (.invokePush tq)
  | invokePush {tq : Q} :
      Trans width t m (.invokePush tq) { m with linked := tq :: m.linked } .idle
  | invokeSubLock : m.doSuspendCnt - 1 = 0 → Trans width t m .invokeSubLock
      { m with doSuspendCnt := m.doSuspendCnt - 1 } .invokeRunning
  | invokeSubLockBusy : m.doSuspendCnt - 1 ≠ 0 → Trans width t m .invokeSubLock
      { m with doSuspendCnt := m.doSuspendCnt - 1 } (.release .return)
  | invokeRunning : m.dqRunning = 0 →
      Trans width t m .invokeRunning m (.wakeup (.release .return))
  | invokeRunningBusy : m.dqRunning ≠ 0 →
      Trans width t m .invokeRunning m (.release .return)
  | drainOrig {tq : Q} :
      Trans width t m (.drainOrig tq) m (.drainTail ⟨tq, m.doTargetq, false⟩)
  | drainTail {d : Drain Q} : m.items ≠ [] → Trans width t m (.drainTail d) m (.drainTake d)
  | drainDone {d : Drain Q} : m.items = [] →
      Trans width t m (.drainTail d) m (.invokeCompare d.tq)
  | drainSpin {d : Drain Q} : m.items = [] → Trans width t m (.drainTake d) m (.drainTake d)
  | drainLast {d : Drain Q} {dc : Item T Q} : m.items = [dc] →
      Trans width t m (.drainTake d) { m with items := [] }
        (.drainSuspended { d with next := false } dc)
  | drainTake {d : Drain Q} {dc next : Item T Q} {rest : List (Item T Q)} :
      m.items = dc :: next :: rest →
      Trans width t m (.drainTake d) m (.drainSuspended { d with next := true } dc)
  | drainSuspended {d : Drain Q} {dc : Item T Q} : m.doSuspendCnt < 2 →
      Trans width t m (.drainSuspended d dc) m (.drainRunning d dc)
  | drainRunning {d : Drain Q} {dc : Item T Q} : m.dqRunning ≤ width →
      Trans width t m (.drainRunning d dc) m (.drainTarget d dc)
  | drainTarget {d : Drain Q} {dc : Item T Q} : d.origTq = m.doTargetq →
      width ≠ 1 → dc.isBarrier → Trans width t m (.drainTarget d dc) m (.drainBarrier d dc)
  | drainTargetPop {d : Drain Q} {dc : Item T Q} : d.origTq = m.doTargetq →
      width = 1 ∨ dc.isBarrier = false → Trans width t m (.drainTarget d dc) m (.drainPop d dc)
  | drainBarrier {d : Drain Q} {dc : Item T Q} : m.dqRunning ≤ 1 →
      Trans width t m (.drainBarrier d dc) m (.drainPop d dc)
  | drainOut {d : Drain Q} {dc : Item T Q} {l : Loc T Q} :
      (l = .drainSuspended d dc ∧ 2 ≤ m.doSuspendCnt) ∨
        (l = .drainRunning d dc ∧ width < m.dqRunning) ∨
        (l = .drainTarget d dc ∧ d.origTq ≠ m.doTargetq) ∨
        (l = .drainBarrier d dc ∧ 1 < m.dqRunning) →
      Trans width t m l m (drainOut d dc)
  | drainPop {d : Drain Q} {dc : Item T Q} : Trans width t m (.drainPop d dc)
      { m with items := if d.next then m.items.tail else m.items } (drainCall width d dc)
  | drainRun {d : Drain Q} : Trans width t m (.drainRun d) m (drainLoop d)
  | drainSetTarget {d : Drain Q} {tq : Q} :
      Trans width t m (.drainSetTarget d tq) { m with doTargetq := tq } (drainLoop d)
  | slowSuspend {d : Drain Q} {caller : T} : Trans width t m (.slowSuspend d caller)
      { m with doSuspendCnt := m.doSuspendCnt + 2 } (.slowSignal d caller)
  | slow2Add {d : Drain Q} {caller : T} : Trans width t m (.slow2Add d caller)
      { m with dqRunning := m.dqRunning + 2 } (.slow2Signal d caller)
  | slowSignal {d : Drain Q} {caller : T} : Trans width t m (.slowSignal d caller)
      { m with sema := Function.update m.sema caller (m.sema caller + 1) } (drainLoop d)
  | slow2Signal {d : Drain Q} {caller : T} : Trans width t m (.slow2Signal d caller)
      { m with sema := Function.update m.sema caller (m.sema caller + 1) } (drainLoop d)
  | redirectAdd {d : Drain Q} : Trans width t m (.redirectAdd d)
      { m with dqRunning := m.dqRunning + 2 } (.redirectRetain d)
  | redirectRetain {d : Drain Q} : Trans width t m (.redirectRetain d)
      { m with doRefCnt := m.doRefCnt + 1 } (.redirectAlloc d)
  | redirectAlloc {d : Drain Q} : Trans width t m (.redirectAlloc d) m (.redirectPush d)
  | cached {d : Drain Q} : Trans width t m (.redirectAlloc d) m .crash
  | redirectPush {d : Drain Q} : Trans width t m (.redirectPush d)
      { m with redirected := m.redirected + 1 } (drainLoop d)
  | outSwap {tq : Q} {dc : Item T Q} : m.items = [] →
      Trans width t m (.outSwap tq dc) { m with items := [dc] } (.outHead tq)
  | outSwapMissed {tq : Q} {dc : Item T Q} : m.items ≠ [] →
      Trans width t m (.outSwap tq dc) m (.outFront tq dc)
  | outFront {tq : Q} {dc : Item T Q} : Trans width t m (.outFront tq dc)
      { m with items := dc :: m.items } (.invokeCompare tq)
  | outHead {tq : Q} : Trans width t m (.outHead tq) m (.invokeCompare tq)

variable {width : ℕ} {t : T} {m m' : Mem T Q} {l l' : Loc T Q}

theorem trans_of_push (h : dispatchQueuePush m t l = some (m', l')) :
    Trans width t m l m' l' := by
  unfold dispatchQueuePush at h
  split at h <;> cases h
  · split
    · exact .exchange ‹_›
    · exact .exchangeBehind ‹_›
  · exact .pushLink
  · exact .pushRetain
  · exact .pushHead

theorem trans_of_wakeup (h : dispatchWakeup m t l = some (m', l')) :
    Trans width t m l m' l' := by
  unfold dispatchWakeup at h
  split at h
  · cases h
    split <;> rename_i hsus <;> rw [suspended_iff] at hsus
    · exact .wakeupSuspended hsus
    · exact .wakeup (by omega)
  · cases h
    split
    · exact .wakeupEmpty ‹_›
    · exact .wakeupProbe ‹_›
  · split at h <;> cases h
    · exact .wakeupLock ‹_›
    · exact .wakeupMissed ‹_›
  · cases h
    exact .wakeupRetain
  · cases h
    exact .wakeupTarget
  · cases h
    exact .wakeupPush
  · cases h

theorem trans_of_barrierSync (h : dispatchBarrierSync m t l = some (m', l')) :
    Trans width t m l m' l' := by
  unfold dispatchBarrierSync at h
  split at h
  · cases h
    split
    · exact .barrierTail ‹_›
    · exact .barrierTailSlow ‹_›
  · cases h
    split <;> rename_i hsus <;> rw [suspended_iff] at hsus
    · exact .barrierSuspendedSlow hsus
    · exact .barrierSuspended (by omega)
  · split at h <;> cases h
    · exact .barrierLock ‹_›
    · exact .barrierLockSlow ‹_›
  · cases h
    exact .barrierRun
  · cases h
    split
    · exact .barrierUnlock ‹_›
    · exact .barrierUnlockBusy ‹_›
  · split at h <;> cases h
    exact .barrierWait ‹_›
  · cases h
    exact .barrierSlowRun
  · cases h
    exact .barrierResume
  · cases h

theorem trans_of_sync (h : dispatchSync m t l = some (m', l')) : Trans width t m l m' l' := by
  unfold dispatchSync at h
  split at h
  · cases h
    split
    · exact .syncTail ‹_›
    · exact .syncTailSlow ‹_›
  · cases h
    split <;> rename_i hsus <;> rw [suspended_iff] at hsus
    · exact .syncSuspendedSlow hsus
    · exact .syncSuspended (by omega)
  · cases h
    split
    · exact .syncAddBusy ‹_›
    · exact .syncAdd ‹_›
  · cases h
    split
    · exact .syncBackOff ‹_›
    · exact .syncBackOffBusy ‹_›
  · split at h <;> cases h
    exact .syncWait ‹_›
  · cases h
    exact .syncRun
  · cases h
    split
    · exact .syncLeave ‹_›
    · exact .syncLeaveBusy ‹_›
  · cases h

theorem trans_of_redirect2 (h : dispatchAsyncRedirect2 m l = some (m', l')) :
    Trans width t m l m' l' := by
  unfold dispatchAsyncRedirect2 at h
  split at h <;> cases h
  · exact .redirectRun
  · split
    · exact .redirectLeave ‹_›
    · exact .redirectLeaveBusy ‹_›

theorem trans_of_drain (h : dispatchQueueDrain width m l = some (m', l')) :
    Trans width t m l m' l' := by
  unfold dispatchQueueDrain at h
  split at h
  · cases h
    exact .drainOrig
  · cases h
    split
    · exact .drainDone ‹_›
    · exact .drainTail ‹_›
  · split at h <;> cases h
    · exact .drainSpin ‹_›
    · exact .drainLast ‹_›
    · exact .drainTake ‹_›
  · cases h
    split <;> rename_i hsus <;> rw [suspended_iff] at hsus
    · exact .drainOut (.inl ⟨rfl, hsus⟩)
    · exact .drainSuspended (by omega)
  · cases h
    split
    · exact .drainOut (.inr (.inl ⟨rfl, ‹_›⟩))
    · exact .drainRunning (by omega)
  · cases h
    split
    · exact .drainOut (.inr (.inr (.inl ⟨rfl, ‹_›⟩)))
    · rename_i htq
      split
      · rename_i hbar
        exact .drainTarget (not_not.mp htq) hbar.1 hbar.2
      · rename_i hbar
        refine .drainTargetPop (not_not.mp htq) ?_
        by_contra hnot
        simp_all
  · cases h
    split
    · exact .drainOut (.inr (.inr (.inr ⟨rfl, ‹_›⟩)))
    · exact .drainBarrier (by omega)
  · cases h
    exact .drainPop
  · cases h
    exact .drainRun
  · cases h
    exact .drainSetTarget
  · cases h
    exact .slowSuspend
  · cases h
    exact .slow2Add
  · cases h
    exact .slowSignal
  · cases h
    exact .slow2Signal
  · cases h
    exact .redirectAdd
  · cases h
    exact .redirectRetain
  · cases h
    exact .redirectAlloc
  · cases h
    exact .redirectPush
  · split at h <;> cases h
    · exact .outSwap ‹_›
    · exact .outSwapMissed ‹_›
  · cases h
    exact .outFront
  · cases h
    exact .outHead
  · cases h

theorem trans_of_invoke (h : dispatchQueueInvoke m l = some (m', l')) :
    Trans width t m l m' l' := by
  unfold dispatchQueueInvoke at h
  split at h
  · cases h
    exact .invokeTarget
  · cases h
    split <;> rename_i hsus <;> rw [suspended_iff] at hsus
    · exact .invokeSuspendedSkip hsus
    · exact .invokeSuspended (by omega)
  · split at h <;> cases h
    · exact .invokeLock ‹_›
    · exact .invokeLockSkip ‹_›
  · cases h
    split
    · exact .invokeCompare ‹_›
    · exact .invokeMoved ‹_›
  · cases h
    exact .invokeReload
  · rename_i tq
    cases h
    cases tq with
    | none => exact .invokeUnlock
    | some tq => exact .invokeUnlockMoved
  · cases h
    exact .invokePush
  · cases h
    split
    · exact .invokeSubLock ‹_›
    · exact .invokeSubLockBusy ‹_›
  · cases h
    split
    · exact .invokeRunning ‹_›
    · exact .invokeRunningBusy ‹_›
  · cases h

theorem trans_of_go (h : go width t m l = some (m', l')) : Trans width t m l m' l' := by
  unfold go at h
  split at h
  · cases h
    exact .release
  · simp only [Option.orElse_eq_orElse, Option.orElse_eq_or, Option.or_eq_some_iff] at h
    rcases h with h | ⟨-, h | ⟨-, h | ⟨-, h | ⟨-, h | ⟨-, h | ⟨-, h⟩⟩⟩⟩⟩⟩
    · exact trans_of_push h
    · exact trans_of_wakeup h
    · exact trans_of_barrierSync h
    · exact trans_of_sync h
    · exact trans_of_redirect2 h
    · exact trans_of_drain h
    · exact trans_of_invoke h

theorem trans_of_step {a : Act Q} (h : step width t a m l = some (m', l')) :
    Trans width t m l m' l' := by
  unfold step at h
  split at h
  · exact trans_of_go h
  · split at h <;> cases h
    exact .cached
  · split at h
    · rename_i hl
      cases h
      rw [hl]
      exact .suspendOuter
    · split at h <;> cases h
      exact .suspendInner ‹_›
  · split at h
    · rename_i hl
      rw [hl]
      split at h
      · cases h
        exact .async
      · cases h
        exact .setTargetQueue
      · cases h
        exact .barrierSync
      · cases h
        split
        · exact .barrierSync
        · exact .sync ‹_›
      · split at h <;> cases h
        exact .resumeInner ‹_›
      · split at h <;> cases h
        exact .resumeOuter ‹_›
      · split at h <;> cases h
        exact .invoke ‹_›
      · split at h <;> cases h
        exact .redirect2 ‹_›
      · cases h
    · cases h

end LibDispatch.Queue
