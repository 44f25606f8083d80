import LibDispatch.Semaphore.Model

/-!
# Running a function many times

`dispatch_apply_f` of `apply.c`.  The caller pushes one continuation for each thread that
should take part, and takes part itself if the queue is a root queue.  They all claim
indices from a shared counter and count themselves out of another one; the last one signals
the semaphore that the caller waits for.  On a narrow queue, or for a single thread, the caller
runs all indices in a loop.
-/

namespace LibDispatch.Apply

open Interleaving

/-- What a call of `dispatch_apply_f` finds: the number of iterations, the number of active
processors, the width of the queue and whether it has a target queue; and how many values
`uintptr_t` has. -/
structure Config where
  iterations : ℕ
  active : ℕ
  width : ℕ
  targeted : Bool
  range : ℕ

def dispatchApplyMaxCpus : ℕ := 256

def Config.thrCnt (cfg : Config) : ℕ :=
  let cnt := if cfg.active > dispatchApplyMaxCpus then dispatchApplyMaxCpus else cfg.active
  if cfg.iterations < cnt then cfg.iterations else cnt

/-- The call goes through `_dispatch_apply_serial`. -/
def Config.isSerial (cfg : Config) : Bool := cfg.width ≤ 2 ∨ cfg.thrCnt ≤ 1

/-- The `dispatch_apply_s` on the caller's stack, as far as it changes, and the continuations
`da_dc` that are on the queue, by their indices.  The last two fields are history: the indices
that the function has been called with, and those that it has returned from. -/
structure Mem where
  daIndex : ℕ
  daThrCnt : ℕ
  daSema : Semaphore.Mem
  pushed : List ℕ
  calls : List ℕ
  returns : List ℕ
  deriving DecidableEq

/-- Where a thread stands in `_dispatch_apply2`: it loads the constant fields, claims an
index, is about to call the function or runs it, leaves, loads `da_sema` and signals. -/
inductive Apply2
  | load
  | claim
  | call (idx : ℕ)
  | running (idx : ℕ)
  | leave
  | sema
  | signal
  | signalling (l : Semaphore.Loc)
  deriving DecidableEq

/-- Where a thread stands.  The caller runs `_dispatch_apply2` on a borrowed queue, the other
threads when they take a continuation off the queue. -/
inductive Loc
  | idle
  | serial (idx : ℕ)
  | serialRunning (idx : ℕ)
  | push
  | apply2 (borrowed : Bool) (l : Apply2)
  | wait
  | waiting (l : Semaphore.Loc)
  | returned
  deriving DecidableEq

inductive Act
  | pop (i : ℕ)
  | go
  deriving DecidableEq

def Apply2.ofSignal : Semaphore.Loc → Option Apply2
  | .idle => none
  | l => some (.signalling l)

/-- `_dispatch_apply2`; no state is left when it has returned. -/
def dispatchApply2 (cfg : Config) (m : Mem) : Apply2 → Option (Mem × Option Apply2)
  | .load => some (m, some .claim)
  | .claim =>
      let value := (m.daIndex + 1) % cfg.range
      let idx := (value + cfg.range - 1) % cfg.range
      some ({ m with daIndex := value },
        some (if idx < cfg.iterations then .call idx else .leave))
  | .call idx => some ({ m with calls := idx :: m.calls }, some (.running idx))
  | .running idx => some ({ m with returns := idx :: m.returns }, some .claim)
  | .leave =>
      let cnt := (m.daThrCnt + cfg.range - 1) % cfg.range
      some ({ m with daThrCnt := cnt }, if cnt = 0 then some .sema else none)
  | .sema => some (m, some .signal)
  | .signal =>
      let r := Semaphore.dispatchSemaphoreSignal m.daSema
      some ({ m with daSema := r.1 }, Apply2.ofSignal r.2)
  | .signalling l =>
      (Semaphore.dispatchSemaphoreSignalSlow m.daSema l).map fun r ↦
        ({ m with daSema := r.1 }, Apply2.ofSignal r.2)

/-- The caller waits for the semaphore, the other threads go back to their queue. -/
def finished (borrowed : Bool) : Loc := if borrowed then .wait else .idle

def afterApply2 (borrowed : Bool) : Option Apply2 → Loc
  | none => finished borrowed
  | some l => .apply2 borrowed l

def afterWait : Semaphore.Loc → Loc
  | .idle => .returned
  | l => .waiting l

variable {T : Type*}

def step (cfg : Config) : Program T Act Mem Loc := fun _ a m l ↦
  match l, a with
  | .idle, .pop i =>
      if i ∈ m.pushed then some ({ m with pushed := m.pushed.erase i }, .apply2 false .load)
      else none
  | .serial idx, .go => some ({ m with calls := idx :: m.calls }, .serialRunning idx)
  | .serialRunning idx, .go =>
      let idx' := (idx + 1) % cfg.range
      some ({ m with returns := idx :: m.returns },
        if idx' < cfg.iterations then .serial idx' else .returned)
  | .push, .go =>
      if cfg.targeted then some ({ m with pushed := List.range cfg.thrCnt }, .wait)
      -- the first continuation is not pushed
      else some ({ m with pushed := List.range' 1 (cfg.thrCnt - 1) }, .apply2 true .load)
  | .apply2 borrowed l, .go =>
      (dispatchApply2 cfg m l).map fun r ↦ (r.1, afterApply2 borrowed r.2)
  | .wait, .go =>
      let r := Semaphore.dispatchSemaphoreWait .forever m.daSema
      some ({ m with daSema := r.1 }, afterWait r.2)
  | .waiting l, .go =>
      (Semaphore.dispatchSemaphoreWaitSlow m.daSema l).map fun r ↦
        ({ m with daSema := r.1 }, afterWait r.2)
  | _, _ => none

/-- `dispatch_apply_f` up to the point where other threads can take part. -/
def dispatchApplyF (cfg : Config) (sema : Semaphore.Mem) : Mem × Loc :=
  (⟨0, cfg.thrCnt, sema, [], [], []⟩,
    if cfg.iterations = 0 then .returned
    else if cfg.isSerial then .serial 0
    else .push)

/-- The thread `caller` calls `dispatch_apply_f`.  Its semaphore comes from a cache, so a
thread that has signalled it before may have posted the kernel semaphore too late, or may
still have to. -/
structure Called (cfg : Config) (caller : T) (s : Pool T Mem Loc) : Prop where
  call : ∃ posts, (s.mem, s.loc caller) = dispatchApplyF cfg ⟨0, 0, posts, 0, []⟩
  others : ∀ t, t ≠ caller → s.loc t = .idle ∨ s.loc t = .apply2 false (.signalling .post)

/-- The thread may still access the `dispatch_apply_s`. -/
def Apply2.usesDa : Apply2 → Bool
  | .signal | .signalling _ => false
  | _ => true

def Loc.usesDa : Loc → Bool
  | .apply2 _ l => l.usesDa
  | _ => false

/-! ## What a step can do -/

inductive Trans (cfg : Config) (m : Mem) : Act → Loc → Mem → Loc → Prop
  | pop {i : ℕ} : i ∈ m.pushed →
      Trans cfg m (.pop i) .idle { m with pushed := m.pushed.erase i } (.apply2 false .load)
  | serialCall {idx : ℕ} :
      Trans cfg m .go (.serial idx) { m with calls := idx :: m.calls } (.serialRunning idx)
  | serialNext {idx idx' : ℕ} : idx' = (idx + 1) % cfg.range → idx' < cfg.iterations →
      Trans cfg m .go (.serialRunning idx) { m with returns := idx :: m.returns } (.serial idx')
  | serialLast {idx idx' : ℕ} : idx' = (idx + 1) % cfg.range → cfg.iterations ≤ idx' →
      Trans cfg m .go (.serialRunning idx) { m with returns := idx :: m.returns } .returned
  | pushAll : cfg.targeted →
      Trans cfg m .go .push { m with pushed := List.range cfg.thrCnt } .wait
  | pushRest : cfg.targeted = false →
      Trans cfg m .go .push { m with pushed := List.range' 1 (cfg.thrCnt - 1) } (.apply2 true .load)
  | load {b : Bool} : Trans cfg m .go (.apply2 b .load) m (.apply2 b .claim)
  | claim {b : Bool} {value idx : ℕ} : value = (m.daIndex + 1) % cfg.range →
      idx = (value + cfg.range - 1) % cfg.range → idx < cfg.iterations →
      Trans cfg m .go (.apply2 b .claim) { m with daIndex := value } (.apply2 b (.call idx))
  | exhausted {b : Bool} {value idx : ℕ} : value = (m.daIndex + 1) % cfg.range →
      idx = (value + cfg.range - 1) % cfg.range → cfg.iterations ≤ idx →
      Trans cfg m .go (.apply2 b .claim) { m with daIndex := value } (.apply2 b .leave)
  | call {b : Bool} {idx : ℕ} :
      Trans cfg m .go (.apply2 b (.call idx)) { m with calls := idx :: m.calls }
        (.apply2 b (.running idx))
  | return {b : Bool} {idx : ℕ} :
      Trans cfg m .go (.apply2 b (.running idx)) { m with returns := idx :: m.returns }
        (.apply2 b .claim)
  | leave {b : Bool} {cnt : ℕ} : cnt = (m.daThrCnt + cfg.range - 1) % cfg.range → cnt ≠ 0 →
      Trans cfg m .go (.apply2 b .leave) { m with daThrCnt := cnt } (finished b)
  | leaveLast {b : Bool} {cnt : ℕ} : cnt = (m.daThrCnt + cfg.range - 1) % cfg.range → cnt = 0 →
      Trans cfg m .go (.apply2 b .leave) { m with daThrCnt := cnt } (.apply2 b .sema)
  | sema {b : Bool} : Trans cfg m .go (.apply2 b .sema) m (.apply2 b .signal)
  | signal {b : Bool} {value : ℤ} : value = wrap (m.daSema.dsemaValue + 1) → 0 < value →
      Trans cfg m .go (.apply2 b .signal)
        { m with daSema.dsemaValue := value, daSema.signals := m.daSema.signals + 1 } (finished b)
  | signalSlow {b : Bool} {value : ℤ} : value = wrap (m.daSema.dsemaValue + 1) → value ≤ 0 →
      Trans cfg m .go (.apply2 b .signal)
        { m with daSema.dsemaValue := value, daSema.signals := m.daSema.signals + 1 }
        (.apply2 b (.signalling .sendKsignal))
  | sendKsignal {b : Bool} :
      Trans cfg m .go (.apply2 b (.signalling .sendKsignal))
        { m with daSema.dsemaSentKsignals := wrap (m.daSema.dsemaSentKsignals + 1) }
        (.apply2 b (.signalling .post))
  | post {b : Bool} :
      Trans cfg m .go (.apply2 b (.signalling .post)) { m with daSema.ksem := m.daSema.ksem + 1 }
        (finished b)
  | wait {value : ℤ} {r : List Semaphore.WaitReturn} : value = wrap (m.daSema.dsemaValue - 1) →
      0 ≤ value →
      Trans cfg m .go .wait { m with daSema.dsemaValue := value, daSema.returns := r } .returned
  | waitSlow {value added : ℤ} : value = wrap (m.daSema.dsemaValue - 1) → value < 0 →
      Trans cfg m .go .wait { m with daSema.dsemaValue := value } (.waiting (.again .forever added))
  | waiting {l l' : Semaphore.Loc} {sema' : Semaphore.Mem} :
      Semaphore.dispatchSemaphoreWaitSlow m.daSema l = some (sema', l') →
      Trans cfg m .go (.waiting l) { m with daSema := sema' } (afterWait l')

variable {cfg : Config} {m m' : Mem} {a : Act} {l l' : Loc}

theorem trans_of_apply2 {b : Bool} {p : Apply2} {p' : Option Apply2}
    (h : dispatchApply2 cfg m p = some (m', p')) :
    Trans cfg m .go (.apply2 b p) m' (afterApply2 b p') := by
  cases p with
  | load =>
      cases h
      exact .load
  | claim =>
      cases h
      split
      · exact .claim rfl rfl ‹_›
      · exact .exhausted rfl rfl (Nat.le_of_not_lt ‹_›)
  | call idx =>
      cases h
      exact .call
  | running idx =>
      cases h
      exact .return
  | leave =>
      cases h
      split
      · exact .leaveLast rfl ‹_›
      · exact .leave rfl ‹_›
  | sema =>
      cases h
      exact .sema
  | signal =>
      cases h
      simp only [Semaphore.dispatchSemaphoreSignal]
      split
      · exact .signal rfl ‹_›
      · exact .signalSlow rfl (not_lt.mp ‹_›)
  | signalling q =>
      obtain ⟨r, hr, heq⟩ := Option.map_eq_some_iff.mp h
      cases heq
      cases q with
      | sendKsignal =>
          cases hr
          exact .sendKsignal
      | post =>
          cases hr
          exact .post
      | _ => cases hr

theorem trans_of_step {t : T} (h : step cfg t a m l = some (m', l')) : Trans cfg m a l m' l' := by
  cases l with
  | idle =>
      cases a with
      | pop i =>
          simp only [step] at h
          split at h <;> cases h
          exact .pop ‹_›
      | go => cases h
  | serial idx =>
      cases a <;> cases h
      exact .serialCall
  | serialRunning idx =>
      cases a with
      | pop i => cases h
      | go =>
          simp only [step, Option.some.injEq, Prod.mk.injEq] at h
          obtain ⟨rfl, rfl⟩ := h
          split
          · exact .serialNext rfl ‹_›
          · exact .serialLast rfl (Nat.le_of_not_lt ‹_›)
  | push =>
      cases a with
      | pop i => cases h
      | go =>
          simp only [step] at h
          split at h <;> cases h
          · exact .pushAll ‹_›
          · exact .pushRest (by simpa using ‹¬ cfg.targeted = true›)
  | apply2 b p =>
      cases a with
      | pop i => cases h
      | go =>
          obtain ⟨r, hr, heq⟩ := Option.map_eq_some_iff.mp h
          cases heq
          exact trans_of_apply2 hr
  | wait =>
      cases a with
      | pop i => cases h
      | go =>
          cases h
          simp only [Semaphore.dispatchSemaphoreWait, Semaphore.Mem.returned]
          split
          · exact .wait rfl ‹_›
          · exact .waitSlow rfl (not_le.mp ‹_›)
  | waiting q =>
      cases a with
      | pop i => cases h
      | go =>
          obtain ⟨r, hr, heq⟩ := Option.map_eq_some_iff.mp h
          cases heq
          exact .waiting hr
  | returned => cases a <;> cases h

end LibDispatch.Apply
