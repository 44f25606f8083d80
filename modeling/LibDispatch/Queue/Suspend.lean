import LibDispatch.Queue.Exclusion

/-!
# Suspending a queue from inside

An item of a serial queue suspends the queue while it runs.  The thread that drains looks
at the suspend count before every item, so it starts no other item.  The fast path of
`dispatch_barrier_sync_f` looks at it before it takes `dq_running`, and may have done so
before the suspension: then the item of the caller starts although the queue is suspended.
Without such a step the suspension takes effect at once.
-/

namespace LibDispatch.Queue

open Interleaving

variable {T Q : Type*}

/-- No fast path takes `dq_running` while the queue is suspended. -/
def SuspendClear (s : Pool T (Mem T Q) (Loc T Q)) (t : T) (_ : Act Q) : Prop :=
  TakesFastPath s.mem (s.loc t) → s.mem.doSuspendCnt < 2

/-- The thread that drains has seen the queue not suspended, and will run an item or hand
the queue over. -/
def Loc.starting : Loc T Q → Bool
  | .drainRunning .. | .drainTarget .. | .drainBarrier .. | .drainPop .. | .slowSuspend .. => true
  | _ => false

def Loc.resumes : Loc T Q → ℤ
  | .barrierSlowRun | .barrierResume => 1
  | _ => 0

theorem Loc.starting_of_disturbs {l : Loc T Q} (h : l.disturbs = false) : l.starting = false := by
  cases l <;> first | rfl | cases h

theorem Loc.starting_of_bit {l : Loc T Q} (h : l.bit = 0) : l.starting = false := by
  cases l <;> first | rfl | cases h

theorem Loc.starting_of_executing {l : Loc T Q} (h : l.executing) : l.starting = false := by
  cases l <;> first | rfl | cases h

theorem Loc.resumes_nonneg (l : Loc T Q) : 0 ≤ l.resumes := by
  cases l <;> simp [Loc.resumes]

section Quiet

variable [Fintype T]

/-- Twice the number of barriers to which the queue has been handed over and that have not
started. -/
def pendingBarriers (m : Mem T Q) (loc : T → Loc T Q) : ℤ :=
  handovers m loc - 2 * ∑ u, (loc u).resumes

def Quiet (m : Mem T Q) (loc : T → Loc T Q) : Prop :=
  pendingBarriers m loc ≤ 0 ∧ ∀ u, (loc u).starting = false

variable [DecidableEq T] {m : Mem T Q} {loc : T → Loc T Q} {t : T}

theorem Accounts.pendingBarriers_pos (h : Accounts m loc)
    (ht : 0 < (loc t).signalled true (m.sema t)) : 0 < pendingBarriers m loc := by
  have hnonneg : ∀ u ∈ Finset.univ, 0 ≤ (loc u).handover (m.sema u) - (loc u).resumes := by
    intro u _
    have hsig := (loc u).signalled_nonneg true (m.sema u)
    have hle : (loc u).resumes ≤ (loc u).handed := by
      cases loc u <;> simp [Loc.resumes, Loc.handed]
    unfold Loc.handover
    omega
  have hpart := Finset.single_le_sum hnonneg (Finset.mem_univ t)
  have hle : (loc t).resumes ≤ (loc t).handed := by
    cases loc t <;> simp [Loc.resumes, Loc.handed]
  rw [Finset.sum_sub_distrib] at hpart
  have heq := h.handovers_eq
  unfold Loc.handover at hpart
  unfold pendingBarriers
  unfold Loc.handover at heq
  omega

theorem Excluded.quiet {width : ℕ} (hex : Excluded width m loc) (hacc : Accounts m loc)
    (hserial : (loc t).serial) (ht : (loc t).executing) : Quiet m loc := by
  have hresumes : ∀ u ∈ Finset.univ, 0 ≤ (loc u).resumes := fun u _ ↦ (loc u).resumes_nonneg
  have hsum := Finset.single_le_sum hresumes (Finset.mem_univ t)
  have hself := (loc t).resumes_nonneg
  unfold Quiet pendingBarriers
  rcases Loc.executing_cases width ht with hg | hslow | ⟨hone, -⟩
  · have hzero : handovers m loc ≤ 0 := by
      by_contra hpos
      have hdis := (hex.calm (by omega)).2.2 t
      rw [Loc.disturbs_of_guarded hg] at hdis
      cases hdis
    refine ⟨by omega, fun u ↦ ?_⟩
    rcases eq_or_ne u t with rfl | hut
    · exact Loc.starting_of_executing ht
    · exact Loc.starting_of_bit (hacc.bit_of_ne (Loc.bit_of_guarded hg) hut)
  · have hhand : 0 < (loc t).handover (m.sema t) := by rw [hslow]; exact Int.one_pos
    obtain ⟨hle, -, hdis⟩ := hex.calm (hacc.handovers_pos hhand)
    have hone : (loc t).resumes = 1 := by rw [hslow]; rfl
    exact ⟨by omega, fun u ↦ Loc.starting_of_disturbs (hdis u)⟩
  · cases hl : loc t <;> simp_all [Loc.executing, Loc.readers, Loc.serial]

theorem Accounts.suspended_of_inner (h : Accounts m loc) (hin : 0 < m.inner) :
    2 ≤ m.doSuspendCnt := by
  have hnonneg : 0 ≤ ∑ u, (loc u).suspendShare (m.sema u) :=
    Finset.sum_nonneg fun u _ ↦ by
      obtain ⟨-, -, hpos, hle⟩ := (loc u).shares_le (m.sema u)
      exact hpos.trans hle
  have hsus := h.suspend
  omega

end Quiet

/-! ## One step -/

section Steps

variable [DecidableEq T] [DecidableEq Q] {width : ℕ} {t : T} {m m' : Mem T Q} {l l' : Loc T Q}

theorem Trans.starting (h : Trans width t m l m' l') (hl : l.starting = false)
    (hcnt : 2 ≤ m.doSuspendCnt) : l'.starting = false ∧ l.grants ≤ l'.resumes - l.resumes := by
  cases h
  case suspendInner l hexec =>
    refine ⟨hl, ?_⟩
    cases l <;> simp_all [Loc.grants, Loc.executing]
  case release k | pushLink k | wakeupSuspended k _ | wakeupEmpty k _ | wakeupMissed k _ |
      wakeupPush k => cases k <;> exact ⟨rfl, le_rfl⟩
  case resumeInner | resumeOuter | barrierResume =>
    rcases resumeLoc_cases m with h | h | h <;> rw [h] <;> exact ⟨rfl, le_rfl⟩
  case drainSuspended hlt => omega
  case drainOut d dc hl' =>
    rcases drainOut_eq d dc with ⟨ho, -⟩ | ⟨ho, -⟩ <;> rw [ho] <;>
      rcases hl' with ⟨rfl, -⟩ | ⟨rfl, -⟩ | ⟨rfl, -⟩ | ⟨rfl, -⟩ <;> exact ⟨rfl, le_rfl⟩
  case drainRun d | drainSetTarget d _ | redirectPush d | slowSignal d _ | slow2Signal d _ =>
    rcases drainLoop_cases (T := T) d with h | h <;> rw [h] <;> exact ⟨rfl, le_rfl⟩
  case barrierWait => exact ⟨rfl, by simp [Loc.grants, Loc.resumes]⟩
  all_goals first | exact ⟨rfl, le_rfl⟩ | cases hl

theorem Trans.executing (h : Trans width t m l m' l') (hl : l.executing = false)
    (hl' : l'.executing) : TakesFastPath m l ∨ l.starting ∨ l.serial = false ∨
      0 < m.redirected ∨ 0 < l.signalled true (m.sema t) := by
  cases h
  case suspendInner hexec => rw [hl] at hexec; cases hexec
  case redirect2 hpos => exact .inr (.inr (.inr (.inl hpos)))
  case barrierLock hfree => exact .inl (.inl ⟨rfl, hfree⟩)
  case syncAdd | syncWait => exact .inr (.inr (.inl rfl))
  case barrierWait hpos =>
    refine .inr (.inr (.inr (.inr ?_)))
    simp only [Loc.signalled, Loc.call, if_true]
    omega
  case drainPop => exact .inr (.inl rfl)
  case release k | pushLink k | wakeupSuspended k _ | wakeupEmpty k _ | wakeupMissed k _ |
      wakeupPush k => cases k <;> cases hl'
  case resumeInner | resumeOuter | barrierResume =>
    rcases resumeLoc_cases m with h | h | h <;> rw [h] at hl' <;> cases hl'
  case drainOut d dc _ =>
    rcases drainOut_eq d dc with ⟨ho, -⟩ | ⟨ho, -⟩ <;> rw [ho] at hl' <;> cases hl'
  case slowSignal d _ | slow2Signal d _ | redirectPush d =>
    rcases drainLoop_cases (T := T) d with h | h <;> rw [h] at hl' <;> cases hl'
  all_goals first | cases hl' | cases hl

theorem Trans.inner_le (h : Trans width t m l m' l') :
    m'.inner ≤ m.inner ∨ (l.executing ∧ l' = l ∧ l.grants = 0) := by
  cases h
  case suspendInner l hexec =>
    refine .inr ⟨hexec, rfl, ?_⟩
    cases l <;> first | rfl | cases hexec
  all_goals exact .inl (by simp)

end Steps

/-! ## Whole runs -/

section Runs

variable [DecidableEq T] [DecidableEq Q] [Fintype T] {tq : Q} {s s' : Pool T (Mem T Q) (Loc T Q)}

theorem excluded_of_suspendClear (h : Pool.Runs (step 1) SuspendClear (created tq) s) :
    Excluded 1 s.mem s.loc := by
  refine excluded_of_run h fun s t a hr hC hfast ↦ ?_
  rintro ⟨u, hu⟩
  have hcnt := (accounts_of_run hr).1.suspended_of_handover hu
  have hlt := hC hfast
  omega

theorem quiet_of_suspendClear (h : Pool.Runs (step 1) SuspendClear (created tq) s) :
    0 < s.mem.inner → Quiet s.mem s.loc := by
  refine h.invariant (I := fun s ↦ 0 < s.mem.inner → Quiet s.mem s.loc) (by simp [created]) ?_
  intro s t a m l hr hI hC hP hin
  have htrans := trans_of_step hP
  have hacc := (accounts_of_run hr).1
  have hhand := htrans.handovers_eq hacc
  have hsum := Pool.sum_update (fun _ l ↦ l.resumes) s.loc t l
  rcases htrans.inner_le with hle | ⟨hexec, rfl, hgrants⟩
  · have hpre : 0 < s.mem.inner := by simp only at hin; omega
    obtain ⟨hpend, hstart⟩ := hI hpre
    obtain ⟨hstart', hdelta⟩ := htrans.starting (hstart t) (hacc.suspended_of_inner hpre)
    refine ⟨?_, fun u ↦ ?_⟩
    · unfold pendingBarriers at hpend ⊢
      rw [hhand, hsum]
      omega
    · rcases eq_or_ne u t with rfl | hu <;> simp [*]
  · obtain ⟨hpend, hstart⟩ :=
      (excluded_of_suspendClear hr).quiet hacc ((serial_of_run hr).2 t) hexec
    rw [Function.update_eq_self] at hhand ⊢
    refine ⟨?_, hstart⟩
    unfold pendingBarriers at hpend ⊢
    dsimp only
    omega

/-- While a suspension by an item of the queue has not been resumed, no item starts, as
long as no fast path takes `dq_running` while the queue is suspended. -/
theorem not_starts_of_suspendClear (h : Pool.Runs (step 1) SuspendClear (created tq) s)
    (hin : 0 < s.mem.inner) {t : T} {a : Act Q} (hC : SuspendClear s t a)
    (hstep : s.step (step 1) t a = some s') (u : T) (hu : (s'.loc u).executing) :
    (s.loc u).executing := by
  obtain ⟨m, l, hP, rfl⟩ := Pool.step_eq_some hstep
  have hacc := (accounts_of_run h).1
  obtain ⟨hpend, hstart⟩ := quiet_of_suspendClear h hin
  obtain ⟨⟨hred, -⟩, hserial⟩ := serial_of_run h
  rcases eq_or_ne u t with rfl | hut
  · by_contra hidle
    rw [Bool.not_eq_true] at hidle
    replace hu : l.executing := by simpa using hu
    rcases (trans_of_step hP).executing hidle hu with hfast | hs | hs | hpos | hpos
    · have hlt := hC hfast
      have hcnt := hacc.suspended_of_inner hin
      omega
    · rw [hstart u] at hs
      cases hs
    · rw [hserial u] at hs
      cases hs
    · omega
    · have hlt := hacc.pendingBarriers_pos hpos
      omega
  · simpa [hut] using hu

instance (s : Pool T (Mem T Q) (Loc T Q)) (t : T) (a : Act Q) : Decidable (SuspendClear s t a) :=
  inferInstanceAs (Decidable (_ → _ < _))

end Runs

/-- Thread 0 submits an item, which worker 1 runs; the item suspends the queue. -/
def suspendTrace : List (Fin 2 × Act (Fin 1)) :=
  [(0, Act.async true)] ++ steps 0 10 ++ [(1, Act.invoke 0)] ++ steps 1 10 ++ [(1, Act.suspend)] ++
    [(0, Act.barrierSync)]

theorem not_starts_of_suspendClear_inside :
    ∃ s s' : Pool (Fin 2) (Mem (Fin 2) (Fin 1)) (Loc (Fin 2) (Fin 1)),
      Pool.Runs (step 1) SuspendClear (created 0) s ∧ s.mem.inner = 1 ∧
        (s.loc 1).executing ∧ s.step (step 1) 0 .go = some s' ∧
        ∀ u, (s'.loc u).executing → (s.loc u).executing := by
  refine ⟨((created 0).run (step 1) SuspendClear suspendTrace).get (by decide),
    ((((created 0).run (step 1) SuspendClear suspendTrace).get (by decide)).step
      (step 1) 0 .go).get (by decide),
    Pool.runs_get _, by decide, by decide, (Option.some_get _).symm, ?_⟩
  exact not_starts_of_suspendClear (Pool.runs_get _) (by decide) (a := .go) (by decide)
    (Option.some_get _).symm

/-- Thread 0 has seen the queue idle and not suspended.  Worker 2 runs an item, which
suspends the queue and returns, and gives up the lock. -/
def lateStartTrace : List (Fin 3 × Act (Fin 1)) :=
  [(0, Act.barrierSync)] ++ steps 0 2 ++ [(2, Act.async true)] ++ steps 2 10 ++
    [(2, Act.invoke 0)] ++ steps 2 10 ++ [(2, Act.suspend)] ++ steps 2 6

/-- The item of thread 0 starts after the item that has suspended the queue has returned. -/
theorem starts_lateStart :
    ∃ s s' : Pool (Fin 3) (Mem (Fin 3) (Fin 1)) (Loc (Fin 3) (Fin 1)),
      Pool.Reachable (step 1) (created 0) s ∧ s.mem.inner = 1 ∧
        (∀ u, (s.loc u).executing = false) ∧ s.step (step 1) 0 .go = some s' ∧
        s'.mem.inner = 1 ∧ (s'.loc 0).executing :=
  ⟨((created 0).run (step 1) (fun _ _ _ ↦ True) lateStartTrace).get (by decide),
    ((((created 0).run (step 1) (fun _ _ _ ↦ True) lateStartTrace).get (by decide)).step
      (step 1) 0 .go).get (by decide),
    Pool.runs_get _, by decide, by decide, (Option.some_get _).symm, by decide, by decide⟩

end LibDispatch.Queue
