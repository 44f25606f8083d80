import LibDispatch.Apply.Parallel

/-!
# Each index exactly once

The indices that have been claimed are numbered tasks: each of them is in the hands of one
thread, which has called the function with it or is about to, or has been done.
-/

namespace LibDispatch.Apply

open Interleaving

def Loc.claimed : Loc → Option ℕ
  | .serial idx | .apply2 _ (.call idx) => some idx
  | _ => none

/-- The index that the thread has claimed and not returned from. -/
def Loc.holding : Loc → Option ℕ
  | .serial idx | .serialRunning idx | .apply2 _ (.call idx) | .apply2 _ (.running idx) => some idx
  | _ => none

theorem Loc.working_of_counted {thr : ℕ} {l : Loc} (h : l.counted thr = 0) : l.working thr = 0 := by
  revert h
  rcases l with _ | _ | _ | _ | ⟨b, _ | _ | _ | _ | _ | _ | _ | _⟩ | _ | _ | _ <;>
    simp [counted, Apply2.counted, working, Apply2.working]

theorem Loc.usesDa_of_counted {thr : ℕ} {l : Loc} (h : l.counted thr = 0) (htoken : l.token = 0) :
    l.usesDa = false := by
  revert h htoken
  rcases l with _ | _ | _ | _ | ⟨b, _ | _ | _ | _ | _ | _ | _ | _⟩ | _ | _ | _ <;>
    simp [counted, Apply2.counted, token, Apply2.token, usesDa, Apply2.usesDa]

theorem Loc.holding_of_counted {thr : ℕ} {l : Loc} (h : l.counted thr = 0)
    (hserial : l.isSerial = false) : l.holding = none := by
  revert h hserial
  rcases l with _ | _ | _ | _ | ⟨b, _ | _ | _ | _ | _ | _ | _ | _⟩ | _ | _ | _ <;>
    simp [counted, Apply2.counted, isSerial, holding]

variable {T : Type*}

structure Indexed (k : ℕ) (m : Mem) (loc : T → Loc) : Prop where
  calls : Ledger (fun t ↦ (loc t).claimed) m.calls k
  returns : Ledger (fun t ↦ (loc t).holding) m.returns k

section Indexed

variable [DecidableEq T] {cfg : Config} {m m' : Mem} {loc : T → Loc} {t : T} {l' : Loc} {k : ℕ}

theorem Indexed.stay (h : Indexed k m loc) (hcalls : m'.calls = m.calls)
    (hreturns : m'.returns = m.returns) (hclaimed : l'.claimed = (loc t).claimed)
    (hholding : l'.holding = (loc t).holding) : Indexed k m' (Function.update loc t l') where
  calls := by
    rw [hcalls, comp_update_of_eq Loc.claimed hclaimed]
    exact h.calls
  returns := by
    rw [hreturns, comp_update_of_eq Loc.holding hholding]
    exact h.returns

theorem Indexed.issue (h : Indexed k m loc) (hcalls : m'.calls = m.calls)
    (hreturns : m'.returns = m.returns) (hclaimed : (loc t).claimed = none)
    (hholding : (loc t).holding = none) (hclaimed' : l'.claimed = some k)
    (hholding' : l'.holding = some k) : Indexed (k + 1) m' (Function.update loc t l') where
  calls := by
    rw [hcalls]
    have hm := moves_update Loc.claimed loc t l'
    rw [hclaimed, hclaimed'] at hm
    exact h.calls.issue hm
  returns := by
    rw [hreturns]
    have hm := moves_update Loc.holding loc t l'
    rw [hholding, hholding'] at hm
    exact h.returns.issue hm

theorem Indexed.call (h : Indexed k m loc) {idx : ℕ} (hcalls : m'.calls = idx :: m.calls)
    (hreturns : m'.returns = m.returns) (hclaimed : (loc t).claimed = some idx)
    (hclaimed' : l'.claimed = none) (hholding : l'.holding = (loc t).holding) :
    Indexed k m' (Function.update loc t l') where
  calls := by
    rw [hcalls]
    have hm := moves_update Loc.claimed loc t l'
    rw [hclaimed, hclaimed'] at hm
    exact h.calls.settle hm
  returns := by
    rw [hreturns, comp_update_of_eq Loc.holding hholding]
    exact h.returns

theorem Indexed.return (h : Indexed k m loc) {idx : ℕ} (hcalls : m'.calls = m.calls)
    (hreturns : m'.returns = idx :: m.returns) (hclaimed : l'.claimed = (loc t).claimed)
    (hholding : (loc t).holding = some idx) (hholding' : l'.holding = none) :
    Indexed k m' (Function.update loc t l') where
  calls := by
    rw [hcalls, comp_update_of_eq Loc.claimed hclaimed]
    exact h.calls
  returns := by
    rw [hreturns]
    have hm := moves_update Loc.holding loc t l'
    rw [hholding, hholding'] at hm
    exact h.returns.settle hm

omit [DecidableEq T] in
theorem Indexed.finished (h : Indexed k m loc) (hnone : ∀ t, (loc t).holding = none) :
    m.calls.Nodup ∧ (∀ i, i ∈ m.calls ↔ i < k) ∧
      m.returns.Nodup ∧ (∀ i, i ∈ m.returns ↔ i < k) := by
  have hnone' : ∀ t, (loc t).claimed = none := by
    intro t
    have ht := hnone t
    revert ht
    rcases loc t with _ | _ | _ | _ | ⟨b, _ | _ | _ | _ | _ | _ | _ | _⟩ | _ | _ | _ <;>
      simp [Loc.claimed, Loc.holding]
  refine ⟨h.calls.done_nodup, fun i ↦ ⟨h.calls.lt_of_done i, fun hi ↦ ?_⟩, h.returns.done_nodup,
    fun i ↦ ⟨h.returns.lt_of_done i, fun hi ↦ ?_⟩⟩
  · by_contra hnot
    obtain ⟨t, ht⟩ := h.calls.exists_of_lt i hi hnot
    rw [hnone'] at ht
    cases ht
  · by_contra hnot
    obtain ⟨t, ht⟩ := h.returns.exists_of_lt i hi hnot
    rw [hnone] at ht
    cases ht

end Indexed

/-! ## Several threads -/

section Parallel

variable [DecidableEq T] [Fintype T] {cfg : Config} {m m' : Mem} {loc : T → Loc} {t caller : T}
  {a : Act} {l' : Loc}

structure Parallel (cfg : Config) (caller : T) (m : Mem) (loc : T → Loc) : Prop where
  counts : Counts cfg m loc
  roles : Roles caller loc
  handshake : Handshake caller m loc
  isSerial_eq : ∀ t, (loc t).isSerial = false
  indexed : Indexed (min m.daIndex cfg.iterations) m loc

theorem Trans.indexed (ht : Trans cfg m a (loc t) m' l') (hfits : cfg.Fits)
    (h : Parallel cfg caller m loc) :
    Indexed (min m'.daIndex cfg.iterations) m' (Function.update loc t l') := by
  have hserial := h.isSerial_eq t
  have hclaim := h.counts.claim_eq hfits (t := t)
  have hind := h.indexed
  generalize hl : loc t = l at ht
  rw [hl] at hserial hclaim
  cases ht
  case serialCall | serialNext | serialLast => cases hserial
  case claim b value idx hvalue hidx hlt =>
    obtain ⟨rfl, rfl⟩ := hclaim rfl hvalue hidx
    rw [Nat.min_eq_left hlt.le] at hind
    rw [Nat.min_eq_left (Nat.succ_le_of_lt hlt)]
    exact hind.issue rfl rfl (by rw [hl]; rfl) (by rw [hl]; rfl) rfl rfl
  case exhausted b value idx hvalue hidx hle =>
    obtain ⟨rfl, rfl⟩ := hclaim rfl hvalue hidx
    rw [Nat.min_eq_right hle] at hind
    rw [Nat.min_eq_right (hle.trans (Nat.le_succ _))]
    exact hind.stay rfl rfl (by rw [hl]; rfl) (by rw [hl]; rfl)
  case call b idx => exact hind.call rfl rfl (by rw [hl]; rfl) rfl (by rw [hl]; rfl)
  case «return» b idx => exact hind.return rfl rfl (by rw [hl]; rfl) (by rw [hl]; rfl) rfl
  case leave b _ _ _ | signal b _ _ _ | post b =>
    exact hind.stay rfl rfl (by rw [hl]; cases b <;> rfl) (by rw [hl]; cases b <;> rfl)
  case waiting p p' _ _ =>
    exact hind.stay rfl rfl (by rw [hl]; cases p' <;> rfl) (by rw [hl]; cases p' <;> rfl)
  all_goals exact hind.stay rfl rfl (by rw [hl]; rfl) (by rw [hl]; rfl)

theorem Trans.parallel (ht : Trans cfg m a (loc t) m' l') (hfits : cfg.Fits)
    (hpar : 2 ≤ cfg.thrCnt) (h : Parallel cfg caller m loc) :
    Parallel cfg caller m' (Function.update loc t l') where
  counts := ht.counts hfits hpar h.counts
  roles := ht.roles h.roles
  handshake := ht.handshake h.roles h.counts (h.isSerial_eq t) h.handshake
  isSerial_eq u := by
    rcases eq_or_ne u t with rfl | hut
    · rw [Function.update_self]
      exact ht.isSerial_eq (h.isSerial_eq u)
    · rw [Function.update_of_ne hut]
      exact h.isSerial_eq u
  indexed := ht.indexed hfits h

/-- When `da_thr_cnt` is 0 and the semaphore has been signalled, nobody uses the
`dispatch_apply_s` any more. -/
theorem Parallel.done (h : Parallel cfg caller m loc) (hpar : 2 ≤ cfg.thrCnt)
    (hsignals : m.daSema.signals = 1) :
    m.pushed = [] ∧ (∀ t, (loc t).usesDa = false) ∧ (∀ t, (loc t).holding = none) ∧
      cfg.iterations ≤ m.daIndex := by
  have hsig := h.counts.signals_eq
  have hthr := h.counts.thrCnt_eq
  have htoken : 0 ≤ ∑ u, (loc u).token := Finset.sum_nonneg fun u _ ↦ (loc u).token_nonneg
  have hcounted : 0 ≤ ∑ u, (loc u).counted cfg.thrCnt :=
    Finset.sum_nonneg fun u _ ↦ (loc u).counted_nonneg _
  have hzero : m.daThrCnt = 0 := by
    by_contra hne
    rw [if_neg hne] at hsig
    omega
  rw [if_pos hzero] at hsig
  have htokens : ∀ t, (loc t).token = 0 := fun t ↦
    (Finset.sum_eq_zero_iff_of_nonneg fun u _ ↦ (loc u).token_nonneg).mp (by omega) t
      (Finset.mem_univ t)
  have hcounts : ∀ t, (loc t).counted cfg.thrCnt = 0 := fun t ↦
    (Finset.sum_eq_zero_iff_of_nonneg fun u _ ↦ (loc u).counted_nonneg _).mp (by omega) t
      (Finset.mem_univ t)
  have hworking : ∑ u, (loc u).working cfg.thrCnt = 0 :=
    Finset.sum_eq_zero fun t _ ↦ Loc.working_of_counted (hcounts t)
  have hpushed : m.pushed = [] := by
    rw [← List.length_eq_zero_iff]
    omega
  refine ⟨hpushed, fun t ↦ Loc.usesDa_of_counted (hcounts t) (htokens t),
    fun t ↦ Loc.holding_of_counted (hcounts t) (h.isSerial_eq t), h.counts.exhausted ?_⟩
  rw [hpushed, hworking, List.length_nil]
  omega

omit [DecidableEq T] [Fintype T] in
theorem step_apply2 {b : Bool} {p : Apply2} (hsound : (Loc.apply2 b p).Sound) (t : T) :
    step cfg t .go m (.apply2 b p) ≠ none := by
  cases p with
  | signalling q => rcases hsound with rfl | rfl <;> simp [step, dispatchApply2,
      Semaphore.dispatchSemaphoreSignalSlow]
  | _ => simp [step, dispatchApply2]

theorem Parallel.progress (h : Parallel cfg caller m loc) {u : T} (hu : u ≠ caller)
    (hstuck : ∀ t a, step cfg t a m (loc t) = none) : loc caller = .returned := by
  have hnot : ∀ t b p, loc t ≠ .apply2 b p := by
    intro t b p hl
    have hs := h.roles.sound t
    rw [hl] at hs
    exact step_apply2 hs t (hl ▸ hstuck t .go)
  have hpush : ∀ t, loc t ≠ .push := by
    intro t hl
    have hs := hstuck t .go
    rw [hl, step] at hs
    split at hs <;> cases hs
  have hidle : loc u = .idle := by
    have hcaller := h.roles.isCaller_eq u
    rw [decide_eq_false hu] at hcaller
    cases hl : loc u with
    | idle => rfl
    | apply2 b p => exact absurd hl (hnot u b p)
    | _ =>
        rw [hl] at hcaller
        cases hcaller
  have hpushed : m.pushed = [] := by
    rw [List.eq_nil_iff_forall_not_mem]
    intro i hi
    have hs := hstuck u (.pop i)
    rw [hidle] at hs
    simp [step, hi] at hs
  have hcounted : ∑ t, (loc t).counted cfg.thrCnt = 0 := Finset.sum_eq_zero fun t _ ↦ by
    cases hl : loc t with
    | push => exact absurd hl (hpush t)
    | apply2 b p => exact absurd hl (hnot t b p)
    | _ => rfl
  have htoken : ∑ t, (loc t).token = 0 := Finset.sum_eq_zero fun t _ ↦ by
    cases hl : loc t with
    | apply2 b p => exact absurd hl (hnot t b p)
    | _ => rfl
  have hsending : ∑ t, (loc t).sending = 0 := Finset.sum_eq_zero fun t _ ↦ by
    cases hl : loc t with
    | apply2 b p => exact absurd hl (hnot t b p)
    | _ => rfl
  have hthr := h.counts.thrCnt_eq
  have hsig := h.counts.signals_eq
  rw [hpushed, hcounted, List.length_nil] at hthr
  rw [if_pos (by omega), htoken] at hsig
  have hserial := h.isSerial_eq caller
  have hcaller := h.roles.isCaller_eq caller
  have hs := hstuck caller .go
  cases hl : loc caller with
  | returned => rfl
  | idle =>
      rw [hl, decide_eq_true rfl] at hcaller
      cases hcaller
  | serial idx | serialRunning idx =>
      rw [hl] at hserial
      cases hserial
  | push => exact absurd hl (hpush caller)
  | apply2 b p => exact absurd hl (hnot caller b p)
  | wait =>
      rw [hl] at hs
      cases hs
  | waiting p =>
      have hsent := h.handshake.sent_eq
      rw [hl, hsending, Loc.asleep_waiting, one_mul] at hsent
      rw [hl] at hs
      have hs' : Semaphore.dispatchSemaphoreWaitSlow m.daSema p = none :=
        Option.map_eq_none_iff.mp hs
      cases h.handshake.waits p hl with
      | again added =>
          simp only [Semaphore.dispatchSemaphoreWaitSlow] at hs'
          split at hs' <;> cases hs'
      | takeKsignal added hone =>
          simp only [Semaphore.dispatchSemaphoreWaitSlow] at hs'
          split at hs' <;> cases hs'
      | kernelWait added =>
          rcases h.handshake.woken added hl (by omega) with hksem | ⟨t, b, ht⟩
          · simp [Semaphore.dispatchSemaphoreWaitSlow, hksem] at hs'
          · exact absurd ht (hnot t b _)

end Parallel

/-! ## The caller alone -/

section Serial

variable [DecidableEq T] {cfg : Config} {m m' : Mem} {loc : T → Loc} {t caller : T}
  {a : Act} {l' : Loc}

/-- The caller runs the indices one after the other, or has nothing to do. -/
structure Serial (cfg : Config) (caller : T) (m : Mem) (loc : T → Loc) : Prop where
  others : ∀ t, t ≠ caller → loc t = .idle ∨ loc t = .apply2 false (.signalling .post)
  pushed_eq : m.pushed = []
  signals_eq : m.daSema.signals = 0
  indexed : loc caller = .returned ∧ Indexed cfg.iterations m loc ∨
    ∃ idx, idx < cfg.iterations ∧ Indexed (idx + 1) m loc ∧
      (loc caller = .serial idx ∨ loc caller = .serialRunning idx)

theorem Serial.other (h : Serial cfg caller m loc) (hne : t ≠ caller)
    (ht : Trans cfg m a (loc t) m' l') : Serial cfg caller m' (Function.update loc t l') := by
  obtain ⟨others, hpushed, hsignals, hindexed⟩ := h
  rcases others t hne with hl | hl
  · rw [hl] at ht
    cases ht with
    | pop hi =>
        rw [hpushed] at hi
        cases hi
  · rw [hl] at ht
    cases ht with
    | post =>
        have hstay : ∀ {k}, Indexed k m loc → Indexed k
            { m with daSema.ksem := m.daSema.ksem + 1 } (Function.update loc t (finished false)) :=
          fun hk ↦ hk.stay rfl rfl (by rw [hl]; rfl) (by rw [hl]; rfl)
        refine ⟨fun u hu ↦ ?_, hpushed, hsignals, ?_⟩
        · rcases eq_or_ne u t with rfl | hut
          · rw [Function.update_self]
            exact .inl rfl
          · rw [Function.update_of_ne hut]
            exact others u hu
        · rw [update_caller hne]
          rcases hindexed with ⟨hr, hk⟩ | ⟨idx, hidx, hk, hc⟩
          · exact .inl ⟨hr, hstay hk⟩
          · exact .inr ⟨idx, hidx, hstay hk, hc⟩

theorem Trans.serial (ht : Trans cfg m a (loc t) m' l') (hfits : cfg.Fits)
    (h : Serial cfg caller m loc) : Serial cfg caller m' (Function.update loc t l') := by
  by_cases hne : t = caller
  · subst hne
    obtain ⟨others, hpushed, hsignals, hindexed⟩ := h
    have hothers : ∀ u, u ≠ t → Function.update loc t l' u = .idle ∨
        Function.update loc t l' u = .apply2 false (.signalling .post) := by
      intro u hu
      rw [Function.update_of_ne hu]
      exact others u hu
    rcases hindexed with ⟨hl, -⟩ | ⟨idx, hidx, hk, hl | hl⟩
    · rw [hl] at ht
      cases ht
    · rw [hl] at ht
      cases ht with
      | serialCall =>
          refine ⟨hothers, hpushed, hsignals,
            .inr ⟨idx, hidx, ?_, .inr (Function.update_self _ _ _)⟩⟩
          exact hk.call rfl rfl (by rw [hl]; rfl) rfl (by rw [hl]; rfl)
    · rw [hl] at ht
      have hmod : (idx + 1) % cfg.range = idx + 1 := by
        unfold Config.Fits at hfits
        exact Nat.mod_eq_of_lt (by omega)
      cases ht with
      | serialNext hnext hlt =>
          rw [hmod] at hnext
          subst hnext
          refine ⟨hothers, hpushed, hsignals,
            .inr ⟨idx + 1, hlt, ?_, .inl (Function.update_self _ _ _)⟩⟩
          have hback : Indexed (idx + 1) { m with returns := idx :: m.returns }
              (Function.update loc t .wait) :=
            hk.return rfl rfl (by rw [hl]; rfl) (by rw [hl]; rfl) rfl
          have hissue : Indexed (idx + 2) { m with returns := idx :: m.returns }
              (Function.update (Function.update loc t .wait) t (.serial (idx + 1))) :=
            hback.issue rfl rfl (by rw [Function.update_self]; rfl)
              (by rw [Function.update_self]; rfl) rfl rfl
          rwa [Function.update_idem] at hissue
      | serialLast hnext hle =>
          rw [hmod] at hnext
          subst hnext
          have heq : idx + 1 = cfg.iterations := by omega
          refine ⟨hothers, hpushed, hsignals, .inl ⟨Function.update_self _ _ _, ?_⟩⟩
          rw [← heq]
          exact hk.return rfl rfl (by rw [hl]; rfl) (by rw [hl]; rfl) rfl
  · exact h.other hne ht

omit [DecidableEq T] in
theorem Serial.progress (h : Serial cfg caller m loc)
    (hstuck : ∀ t a, step cfg t a m (loc t) = none) : loc caller = .returned := by
  have hs := hstuck caller .go
  rcases h.indexed with ⟨hl, -⟩ | ⟨idx, -, -, hl | hl⟩
  · exact hl
  all_goals
    rw [hl] at hs
    cases hs

end Serial

/-! ## Every call comes to an end -/

def Apply2.weight : Apply2 → ℤ
  | .call _ => 12
  | .load | .running _ => 11
  | .claim => 10
  | .leave => 9
  | .sema => 8
  | .signal => 7
  | .signalling .sendKsignal => 6
  | .signalling .post => 5
  | .signalling _ => 0

def Loc.weight (cfg : Config) : Loc → ℤ
  | .serial idx => 2 * (cfg.iterations - idx : ℕ)
  | .serialRunning idx => 2 * (cfg.iterations - (idx + 1) : ℕ) + 1
  | .push => 12 * cfg.thrCnt + 16
  | .apply2 borrowed p => p.weight + if borrowed then 4 else 0
  | .wait => 4
  | .waiting (.again _ _) => 3
  | .waiting (.kernelWait _ _) => 2
  | .waiting (.takeKsignal _ _ _) => 1
  | _ => 0

/-- What is left to do in the memory: indices to claim, continuations to take off the queue and
posts of the kernel semaphore. -/
def Mem.weight (cfg : Config) (m : Mem) : ℤ :=
  4 * (cfg.iterations + cfg.thrCnt - m.daIndex : ℕ) + 12 * m.pushed.length + 4 * m.daSema.ksem

theorem Loc.weight_finished (cfg : Config) (b : Bool) :
    (finished b).weight cfg = if b then 4 else 0 := by
  cases b <;> rfl

section Rank

variable [DecidableEq T] [Fintype T] {cfg : Config} {m m' : Mem} {loc : T → Loc} {t caller : T}
  {a : Act} {l' : Loc}

omit [DecidableEq T] [Fintype T] in
theorem weight_waiting {p p' : Semaphore.Loc} {sema' : Semaphore.Mem} (hp : Waits m.daSema p)
    (hslow : Semaphore.dispatchSemaphoreWaitSlow m.daSema p = some (sema', p')) :
    Mem.weight cfg { m with daSema := sema' } + (afterWait p').weight cfg <
      m.weight cfg + (Loc.waiting p).weight cfg := by
  cases hp with
  | again added =>
      simp only [Semaphore.dispatchSemaphoreWaitSlow] at hslow
      split at hslow <;> cases hslow <;> simp [Mem.weight, Loc.weight, afterWait]
  | takeKsignal added hone =>
      simp only [Semaphore.dispatchSemaphoreWaitSlow, if_pos hone] at hslow
      cases hslow
      simp [Mem.weight, Loc.weight, afterWait, Semaphore.Mem.returned]
  | kernelWait added =>
      simp only [Semaphore.dispatchSemaphoreWaitSlow] at hslow
      split at hslow <;> cases hslow
      simp only [Mem.weight, Loc.weight, afterWait]
      omega

theorem Trans.weight_parallel (ht : Trans cfg m a (loc t) m' l') (hfits : cfg.Fits)
    (hpar : 2 ≤ cfg.thrCnt) (h : Parallel cfg caller m loc) :
    m'.weight cfg + l'.weight cfg < m.weight cfg + (loc t).weight cfg := by
  have hserial := h.isSerial_eq t
  have hclaim := h.counts.claim_eq hfits (t := t)
  have hindex := h.counts.index_lt (t := t)
  have hpushed := h.counts.pushed_eq (t := t)
  have hwaits := h.handshake.waits
  have hcaller := h.roles.eq_caller (t := t)
  generalize hl : loc t = l at ht
  rw [hl] at hserial hclaim hindex hpushed hcaller
  cases ht
  case serialCall | serialNext | serialLast => cases hserial
  case pop i hi =>
    have hlen := List.length_erase_of_mem hi
    have hpos := List.length_pos_of_mem hi
    simp only [Mem.weight, Loc.weight, Apply2.weight, hlen, Bool.false_eq_true, if_false]
    omega
  case pushAll =>
    simp only [Mem.weight, Loc.weight, hpushed rfl, List.length_range, List.length_nil]
    omega
  case pushRest =>
    simp only [Mem.weight, Loc.weight, Apply2.weight, hpushed rfl, List.length_range',
      List.length_nil, if_true]
    omega
  case claim b value idx hvalue hidx hlt =>
    obtain ⟨rfl, rfl⟩ := hclaim rfl hvalue hidx
    have hroom := hindex rfl
    simp only [Mem.weight, Loc.weight, Apply2.weight]
    omega
  case exhausted b value idx hvalue hidx hle =>
    obtain ⟨rfl, rfl⟩ := hclaim rfl hvalue hidx
    have hroom := hindex rfl
    simp only [Mem.weight, Loc.weight, Apply2.weight]
    omega
  case waiting p p' sema' hslow =>
    obtain rfl := hcaller rfl
    exact weight_waiting (hwaits p hl) hslow
  all_goals
    simp only [Mem.weight, Loc.weight_finished]
    simp only [Loc.weight, Apply2.weight]
    omega

omit [DecidableEq T] [Fintype T] in
theorem Trans.weight_serial (ht : Trans cfg m a (loc t) m' l') (hfits : cfg.Fits)
    (h : Serial cfg caller m loc) :
    m'.weight cfg + l'.weight cfg < m.weight cfg + (loc t).weight cfg := by
  have hmod : ∀ idx, idx < cfg.iterations → (idx + 1) % cfg.range = idx + 1 := by
    intro idx hidx
    unfold Config.Fits at hfits
    exact Nat.mod_eq_of_lt (by omega)
  by_cases hne : t = caller
  · subst hne
    rcases h.indexed with ⟨hl, -⟩ | ⟨idx, hidx, -, hl | hl⟩
    all_goals
      rw [hl] at ht ⊢
      cases ht
    case inr.inl.serialCall =>
      simp only [Mem.weight, Loc.weight]
      omega
    case inr.inr.serialNext hlt hnext =>
      rw [hmod idx hidx] at hnext
      subst hnext
      simp only [Mem.weight, Loc.weight]
      omega
    case inr.inr.serialLast =>
      simp only [Mem.weight, Loc.weight]
      omega
  · rcases h.others t hne with hl | hl
    all_goals
      rw [hl] at ht ⊢
      cases ht
    case inl.pop hi =>
      rw [h.pushed_eq] at hi
      cases hi
    case inr.post =>
      simp only [Mem.weight, Loc.weight_finished]
      simp only [Loc.weight, Apply2.weight]
      omega

omit [DecidableEq T] [Fintype T] in
theorem Loc.weight_nonneg (cfg : Config) (l : Loc) : 0 ≤ l.weight cfg := by
  cases l with
  | apply2 b p =>
      have hp : 0 ≤ p.weight := by
        unfold Apply2.weight
        split <;> decide
      cases b <;> simp only [Loc.weight, Bool.false_eq_true, if_false, if_true] <;> omega
  | waiting p => cases p <;> simp [Loc.weight]
  | _ =>
      simp only [Loc.weight]
      omega

def rank (cfg : Config) (s : Pool T Mem Loc) : ℤ := s.mem.weight cfg + ∑ t, (s.loc t).weight cfg

theorem rank_lt (h : m'.weight cfg + l'.weight cfg < m.weight cfg + (loc t).weight cfg) :
    rank cfg ⟨m', Function.update loc t l'⟩ < rank cfg ⟨m, loc⟩ := by
  have hsum := Pool.sum_update (fun _ l ↦ l.weight cfg) loc t l'
  simp only [rank, hsum]
  omega

end Rank

/-! ## Runs -/

section Runs

variable [DecidableEq T] [Fintype T] {cfg : Config} {caller : T} {s₀ s : Pool T Mem Loc}

omit [DecidableEq T] [Fintype T] in
theorem ledger_of_none {f : T → Option ℕ} (h : ∀ t, f t = none) : Ledger f [] 0 := by
  rw [funext h]
  exact ledger_empty

omit [DecidableEq T] [Fintype T] in
theorem Called.mem_eq (h : Called cfg caller s₀) :
    ∃ posts, s₀.mem = ⟨0, cfg.thrCnt, ⟨0, 0, posts, 0, []⟩, [], [], []⟩ := by
  obtain ⟨posts, hcall⟩ := h.call
  exact ⟨posts, (Prod.ext_iff.mp hcall).1⟩

omit [DecidableEq T] [Fintype T] in
theorem Called.loc_eq (h : Called cfg caller s₀) : s₀.loc caller =
    if cfg.iterations = 0 then .returned else if cfg.isSerial then .serial 0 else .push := by
  obtain ⟨posts, hcall⟩ := h.call
  exact (Prod.ext_iff.mp hcall).2

omit [DecidableEq T] [Fintype T] in
theorem Called.indexed {loc : T → Loc} (h : Called cfg caller s₀)
    (hclaimed : ∀ t, (loc t).claimed = none) (hholding : ∀ t, (loc t).holding = none) :
    Indexed 0 s₀.mem loc := by
  obtain ⟨posts, hmem⟩ := h.mem_eq
  rw [hmem]
  exact ⟨ledger_of_none hclaimed, ledger_of_none hholding⟩

omit [Fintype T] in
theorem Called.serial (h : Called cfg caller s₀) (hser : cfg.iterations = 0 ∨ cfg.isSerial) :
    Serial cfg caller s₀.mem s₀.loc := by
  have hloc := h.loc_eq
  obtain ⟨posts, hmem⟩ := h.mem_eq
  refine ⟨h.others, by rw [hmem], by rw [hmem], ?_⟩
  have hnone : ∀ l : Loc, l.claimed = none → l.holding = none →
      Indexed 0 s₀.mem (Function.update s₀.loc caller l) := by
    intro l hl hl'
    refine h.indexed (fun t ↦ ?_) (fun t ↦ ?_)
    all_goals
      rcases eq_or_ne t caller with rfl | ht
      · rwa [Function.update_self]
      · rw [Function.update_of_ne ht]
        rcases h.others t ht with hl | hl <;> rw [hl] <;> rfl
  by_cases hn : cfg.iterations = 0
  · rw [if_pos hn] at hloc
    refine .inl ⟨hloc, ?_⟩
    have hind := hnone .returned rfl rfl
    rwa [← hloc, Function.update_eq_self, ← hn] at hind
  · rw [if_neg hn, if_pos (hser.resolve_left hn)] at hloc
    refine .inr ⟨0, Nat.pos_of_ne_zero hn, ?_, .inl hloc⟩
    have hind : Indexed 1 s₀.mem
        (Function.update (Function.update s₀.loc caller .wait) caller (.serial 0)) :=
      (hnone .wait rfl rfl).issue rfl rfl (by rw [Function.update_self]; rfl)
        (by rw [Function.update_self]; rfl) rfl rfl
    rwa [Function.update_idem, ← hloc, Function.update_eq_self] at hind

theorem Called.parallel (h : Called cfg caller s₀) (hn : cfg.iterations ≠ 0)
    (hser : cfg.isSerial = false) : Parallel cfg caller s₀.mem s₀.loc := by
  have hloc := h.loc_eq
  rw [if_neg hn, if_neg (by simp [hser])] at hloc
  obtain ⟨posts, hmem⟩ := h.mem_eq
  have htwo : 2 ≤ cfg.thrCnt := by
    simp only [Config.isSerial, decide_eq_false_iff_not, not_or, not_le] at hser
    omega
  have hcases : ∀ t, t = caller ∧ s₀.loc t = .push ∨
      t ≠ caller ∧ (s₀.loc t = .idle ∨ s₀.loc t = .apply2 false (.signalling .post)) := by
    intro t
    rcases eq_or_ne t caller with rfl | ht
    · exact .inl ⟨rfl, hloc⟩
    · exact .inr ⟨ht, h.others t ht⟩
  have hsum : ∀ f : Loc → ℤ, f .idle = 0 → f (.apply2 false (.signalling .post)) = 0 →
      ∑ t, f (s₀.loc t) = f .push := by
    intro f hidle hpost
    rw [Finset.sum_eq_single caller]
    · rw [hloc]
    · intro t _ ht
      rcases h.others t ht with hl | hl <;> rw [hl] <;> assumption
    · exact fun hc ↦ absurd (Finset.mem_univ _) hc
  have hworking : ∑ t, (s₀.loc t).working cfg.thrCnt = cfg.thrCnt := hsum _ rfl rfl
  have hcounted : ∑ t, (s₀.loc t).counted cfg.thrCnt = cfg.thrCnt := hsum _ rfl rfl
  have htoken : ∑ t, (s₀.loc t).token = 0 := hsum _ rfl rfl
  have hsending : ∑ t, (s₀.loc t).sending = 0 := hsum _ rfl rfl
  constructor
  case counts =>
    constructor
    all_goals rw [hmem]
    case working_le => simp [hworking]
    case index_le => simp [hworking]
    case exhausted => simp [hworking]
    case thrCnt_eq => simp [hcounted]
    case signals_eq =>
      rw [htoken, if_neg (by simp only; omega)]
      rfl
  case roles =>
    constructor
    all_goals
      intro t
      rcases hcases t with ⟨rfl, hl⟩ | ⟨ht, hl | hl⟩
      all_goals rw [hl]
    case sound.inr.inr => exact .inr rfl
    case isCaller_eq.inl => exact (decide_eq_true rfl).symm
    case isCaller_eq.inr.inl | isCaller_eq.inr.inr => exact (decide_eq_false ht).symm
    all_goals trivial
  case handshake =>
    constructor
    case value_eq =>
      rw [hloc, hmem]
      rfl
    case sent_eq =>
      rw [hloc, hmem, hsending]
      rfl
    case sent_nonneg =>
      rw [hmem]
    all_goals
      rw [hloc]
      nofun
  case isSerial_eq =>
    intro t
    rcases hcases t with ⟨-, hl⟩ | ⟨-, hl | hl⟩ <;> rw [hl] <;> rfl
  case indexed =>
    have hzero : min s₀.mem.daIndex cfg.iterations = 0 := by
      rw [hmem]
      exact Nat.zero_min _
    rw [hzero]
    refine h.indexed (fun t ↦ ?_) (fun t ↦ ?_)
    all_goals rcases hcases t with ⟨-, hl⟩ | ⟨-, hl | hl⟩ <;> rw [hl] <;> rfl

theorem Config.two_le_thrCnt (h : cfg.isSerial = false) : 2 ≤ cfg.thrCnt := by
  simp only [isSerial, decide_eq_false_iff_not, not_or, not_le] at h
  omega

omit [Fintype T] in
theorem serial_of_run (h₀ : Called cfg caller s₀) (hfits : cfg.Fits)
    (hser : cfg.iterations = 0 ∨ cfg.isSerial) (h : Pool.Reachable (step cfg) s₀ s) :
    Serial cfg caller s.mem s.loc :=
  h.invariant (I := fun s ↦ Serial cfg caller s.mem s.loc) (h₀.serial hser)
    fun _ _ _ _ _ _ hI _ hP ↦ (trans_of_step hP).serial hfits hI

theorem parallel_of_run (h₀ : Called cfg caller s₀) (hfits : cfg.Fits) (hn : cfg.iterations ≠ 0)
    (hser : cfg.isSerial = false) (h : Pool.Reachable (step cfg) s₀ s) :
    Parallel cfg caller s.mem s.loc :=
  h.invariant (I := fun s ↦ Parallel cfg caller s.mem s.loc) (h₀.parallel hn hser)
    fun _ _ _ _ _ _ hI _ hP ↦ (trans_of_step hP).parallel hfits (Config.two_le_thrCnt hser) hI

omit [DecidableEq T] in
theorem rank_nonneg (s : Pool T Mem Loc) : 0 ≤ rank cfg s := by
  have hmem : 0 ≤ s.mem.weight cfg := by
    unfold Mem.weight
    positivity
  have hsum : 0 ≤ ∑ t, (s.loc t).weight cfg :=
    Finset.sum_nonneg fun t _ ↦ (s.loc t).weight_nonneg cfg
  exact add_nonneg hmem hsum

theorem rank_lt_of_run (h₀ : Called cfg caller s₀) (hfits : cfg.Fits)
    (h : Pool.Reachable (step cfg) s₀ s) {s' : Pool T Mem Loc} {t : T} {a : Act}
    (hs : s.step (step cfg) t a = some s') : rank cfg s' < rank cfg s := by
  obtain ⟨m, l, hP, rfl⟩ := Pool.step_eq_some hs
  refine rank_lt ?_
  by_cases hser : cfg.iterations = 0 ∨ cfg.isSerial
  · exact (trans_of_step hP).weight_serial hfits (serial_of_run h₀ hfits hser h)
  · rw [not_or, Bool.not_eq_true] at hser
    exact (trans_of_step hP).weight_parallel hfits (Config.two_le_thrCnt hser.2)
      (parallel_of_run h₀ hfits hser.1 hser.2 h)

/-- `dispatch_apply_f` calls the function exactly once with each index and with no other value.
When it returns, all calls have returned, no continuation is left on a queue, and no thread will
access the `dispatch_apply_s` again; the semaphore, where one is used, has been signalled once.
If there is another thread, the caller cannot be stuck before it has returned, and no run goes
on for ever. -/
theorem apply_exact (h₀ : Called cfg caller s₀) (hfits : cfg.Fits)
    (h : Pool.Reachable (step cfg) s₀ s) :
    (s.mem.calls.Nodup ∧ (∀ i ∈ s.mem.calls, i < cfg.iterations) ∧ s.mem.daSema.signals ≤ 1) ∧
    (cfg.iterations = 0 → s.mem.calls = [] ∧ s.loc caller = .returned) ∧
    (s.loc caller = .returned →
      (∀ i, i ∈ s.mem.calls ↔ i < cfg.iterations) ∧
      s.mem.returns.Nodup ∧ (∀ i, i ∈ s.mem.returns ↔ i < cfg.iterations) ∧
      s.mem.pushed = [] ∧ (∀ t, (s.loc t).usesDa = false) ∧
      s.mem.daSema.signals = if cfg.iterations = 0 ∨ cfg.isSerial then 0 else 1) ∧
    ((∃ u, u ≠ caller) → (∀ t a, s.step (step cfg) t a = none) → s.loc caller = .returned) ∧
    ∀ f : ℕ → Pool T Mem Loc, f 0 = s →
      ¬ ∀ i, ∃ t a, (f i).step (step cfg) t a = some (f (i + 1)) := by
  have hend : ∀ f : ℕ → Pool T Mem Loc, f 0 = s →
      ¬ ∀ i, ∃ t a, (f i).step (step cfg) t a = some (f (i + 1)) := by
    intro f hf hsteps
    refine Pool.not_infinite (fun s ↦ (rank cfg s).toNat) (fun s s' t a hr _ hs ↦ ?_) (hf ▸ h)
      fun i ↦ ?_
    · have hlt := rank_lt_of_run h₀ hfits hr hs
      have hnonneg : 0 ≤ rank cfg s' := rank_nonneg s'
      omega
    · obtain ⟨t, a, hs⟩ := hsteps i
      exact ⟨t, a, trivial, hs⟩
  have hstuck : (∀ t a, s.step (step cfg) t a = none) →
      ∀ t a, step cfg t a s.mem (s.loc t) = none := fun hs t a ↦ Option.map_eq_none_iff.mp (hs t a)
  by_cases hser : cfg.iterations = 0 ∨ cfg.isSerial
  · rw [if_pos hser]
    have hinv := serial_of_run h₀ hfits hser h
    have hbound : ∃ k ≤ cfg.iterations, Indexed k s.mem s.loc := by
      rcases hinv.indexed with ⟨-, hind⟩ | ⟨idx, hidx, hind, -⟩
      · exact ⟨_, le_rfl, hind⟩
      · exact ⟨_, hidx, hind⟩
    obtain ⟨k, hk, hind⟩ := hbound
    refine ⟨⟨hind.calls.done_nodup, fun i hi ↦ (hind.calls.lt_of_done i hi).trans_le hk, ?_⟩,
      fun hn ↦ ⟨?_, ?_⟩, fun hret ↦ ?_, fun _ hs ↦ hinv.progress (hstuck hs), hend⟩
    · rw [hinv.signals_eq]
      exact Nat.zero_le _
    · rw [List.eq_nil_iff_forall_not_mem]
      intro i hi
      have hlt := hind.calls.lt_of_done i hi
      omega
    · rcases hinv.indexed with ⟨hret, -⟩ | ⟨idx, hidx, -⟩
      · exact hret
      · omega
    · have hall : Indexed cfg.iterations s.mem s.loc := by
        rcases hinv.indexed with ⟨-, hind⟩ | ⟨idx, -, -, hl | hl⟩
        · exact hind
        all_goals
          rw [hret] at hl
          cases hl
      have hcases : ∀ t, (s.loc t).holding = none ∧ (s.loc t).usesDa = false := by
        intro t
        rcases eq_or_ne t caller with rfl | ht
        · rw [hret]
          exact ⟨rfl, rfl⟩
        · rcases hinv.others t ht with hl | hl <;> rw [hl] <;> exact ⟨rfl, rfl⟩
      obtain ⟨-, hcalls, hnodup, hreturns⟩ := hall.finished fun t ↦ (hcases t).1
      exact ⟨hcalls, hnodup, hreturns, hinv.pushed_eq, fun t ↦ (hcases t).2, hinv.signals_eq⟩
  · rw [if_neg hser]
    rw [not_or, Bool.not_eq_true] at hser
    have hinv := parallel_of_run h₀ hfits hser.1 hser.2 h
    refine ⟨⟨hinv.indexed.calls.done_nodup, fun i hi ↦ ?_, hinv.counts.signals_le⟩,
      fun hn ↦ absurd hn hser.1, fun hret ↦ ?_,
      fun ⟨u, hu⟩ hs ↦ hinv.progress hu (hstuck hs), hend⟩
    · exact lt_of_lt_of_le (hinv.indexed.calls.lt_of_done i hi) (min_le_right _ _)
    · have hsignals := hinv.handshake.returned hret
      obtain ⟨hpushed, huses, hholding, hle⟩ := hinv.done (Config.two_le_thrCnt hser.2) hsignals
      have hind := hinv.indexed
      rw [min_eq_right hle] at hind
      obtain ⟨-, hcalls, hnodup, hreturns⟩ := hind.finished hholding
      exact ⟨hcalls, hnodup, hreturns, hpushed, huses, hsignals⟩

end Runs

/-- Three iterations on a root queue with two active processors. -/
def sharedConfig : Config := ⟨3, 2, 8, false, 2 ^ 64⟩

def sharedStart : Pool (Fin 2) Mem Loc :=
  ⟨(dispatchApplyF sharedConfig ⟨0, 0, 0, 0, []⟩).1, fun t ↦ if t = 0 then .push else .idle⟩

theorem called_sharedStart : Called sharedConfig 0 sharedStart :=
  ⟨⟨0, by decide⟩, by decide⟩

/-- The other thread runs the index 1, the caller the other two; it waits before the other
thread leaves. -/
def sharedState : Pool (Fin 2) Mem Loc :=
  (sharedStart.run (step sharedConfig) (fun _ _ _ ↦ True)
    ([(0, Act.go), (0, Act.go), (0, Act.go), (1, Act.pop 1), (1, Act.go), (1, Act.go), (1, Act.go),
      (0, Act.go), (0, Act.go)] ++
      List.replicate 7 (0, Act.go) ++ List.replicate 7 (1, Act.go) ++
        List.replicate 3 (0, Act.go))).get
    (by decide)

theorem apply_exact_shared :
    sharedState.loc 0 = .returned ∧ ∀ i, i ∈ sharedState.mem.calls ↔ i < 3 :=
  ⟨by decide,
    ((apply_exact called_sharedStart (show 3 + 256 < 2 ^ 64 by decide) (Pool.runs_get _)).2.2.1
      (by decide)).1⟩

end LibDispatch.Apply
