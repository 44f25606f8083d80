import LibDispatch.Apply.Model

/-!
# The shared part of `dispatch_apply_f`

What holds while several threads take part: `da_thr_cnt` counts the continuations that have
not left yet, the counter of indices stays below the number of iterations plus one for each
thread that has found it exhausted, and the semaphore is signalled by the thread that counts
down to 0.
-/

namespace LibDispatch.Apply

open Interleaving

def Apply2.working : Apply2 → ℤ
  | .load | .claim | .call _ | .running _ => 1
  | _ => 0

def Apply2.counted : Apply2 → ℤ
  | .load | .claim | .call _ | .running _ | .leave => 1
  | _ => 0

def Apply2.token : Apply2 → ℤ
  | .sema | .signal => 1
  | _ => 0

namespace Loc

def working (thr : ℕ) : Loc → ℤ
  | .push => thr
  | .apply2 _ l => l.working
  | _ => 0

def counted (thr : ℕ) : Loc → ℤ
  | .push => thr
  | .apply2 _ l => l.counted
  | _ => 0

def token : Loc → ℤ
  | .apply2 _ l => l.token
  | _ => 0

theorem working_nonneg (thr : ℕ) (l : Loc) : 0 ≤ l.working thr := by
  rcases l with _ | _ | _ | _ | ⟨b, _ | _ | _ | _ | _ | _ | _ | _⟩ | _ | _ | _ <;>
    simp [working, Apply2.working]

theorem counted_nonneg (thr : ℕ) (l : Loc) : 0 ≤ l.counted thr := by
  rcases l with _ | _ | _ | _ | ⟨b, _ | _ | _ | _ | _ | _ | _ | _⟩ | _ | _ | _ <;>
    simp [counted, Apply2.counted]

theorem token_nonneg (l : Loc) : 0 ≤ l.token := by
  rcases l with _ | _ | _ | _ | ⟨b, _ | _ | _ | _ | _ | _ | _ | _⟩ | _ | _ | _ <;>
    simp [token, Apply2.token]

@[simp] theorem working_apply2 (thr : ℕ) (b : Bool) (l : Apply2) :
    (Loc.apply2 b l).working thr = l.working := rfl

@[simp] theorem counted_apply2 (thr : ℕ) (b : Bool) (l : Apply2) :
    (Loc.apply2 b l).counted thr = l.counted := rfl

@[simp] theorem token_apply2 (b : Bool) (l : Apply2) : (Loc.apply2 b l).token = l.token := rfl

@[simp] theorem working_finished (thr : ℕ) (b : Bool) : (finished b).working thr = 0 := by
  cases b <;> rfl

@[simp] theorem counted_finished (thr : ℕ) (b : Bool) : (finished b).counted thr = 0 := by
  cases b <;> rfl

@[simp] theorem token_finished (b : Bool) : (finished b).token = 0 := by
  cases b <;> rfl

@[simp] theorem working_afterWait (thr : ℕ) (l : Semaphore.Loc) :
    (afterWait l).working thr = 0 := by
  cases l <;> rfl

@[simp] theorem counted_afterWait (thr : ℕ) (l : Semaphore.Loc) :
    (afterWait l).counted thr = 0 := by
  cases l <;> rfl

@[simp] theorem token_afterWait (l : Semaphore.Loc) : (afterWait l).token = 0 := by
  cases l <;> rfl

end Loc

/-- The number of iterations leaves room for the threads in the range of `uintptr_t`. -/
def Config.Fits (cfg : Config) : Prop := cfg.iterations + dispatchApplyMaxCpus < cfg.range

theorem Config.thrCnt_le (cfg : Config) : cfg.thrCnt ≤ dispatchApplyMaxCpus := by
  unfold thrCnt
  simp only
  split <;> split <;> omega

variable {T : Type*} [DecidableEq T] [Fintype T]

structure Counts (cfg : Config) (m : Mem) (loc : T → Loc) : Prop where
  working_le : (m.pushed.length : ℤ) + ∑ t, (loc t).working cfg.thrCnt ≤ cfg.thrCnt
  index_le : (m.daIndex : ℤ) + (m.pushed.length + ∑ t, (loc t).working cfg.thrCnt) ≤
    cfg.iterations + cfg.thrCnt
  exhausted : (m.pushed.length : ℤ) + ∑ t, (loc t).working cfg.thrCnt < cfg.thrCnt →
    cfg.iterations ≤ m.daIndex
  thrCnt_le : m.daThrCnt ≤ cfg.thrCnt
  thrCnt_eq : (m.daThrCnt : ℤ) = m.pushed.length + ∑ t, (loc t).counted cfg.thrCnt
  signals_eq : (m.daSema.signals : ℤ) + ∑ t, (loc t).token = if m.daThrCnt = 0 then 1 else 0

variable {cfg : Config} {m m' : Mem} {loc : T → Loc} {t : T} {a : Act} {l' : Loc}

omit [DecidableEq T] in
theorem working_le_sum (thr : ℕ) (loc : T → Loc) (t : T) :
    (loc t).working thr ≤ ∑ u, (loc u).working thr :=
  Finset.single_le_sum (f := fun u ↦ (loc u).working thr)
    (fun u _ ↦ (loc u).working_nonneg thr) (Finset.mem_univ t)

omit [DecidableEq T] in
theorem counted_le_sum (thr : ℕ) (loc : T → Loc) (t : T) :
    (loc t).counted thr ≤ ∑ u, (loc u).counted thr :=
  Finset.single_le_sum (f := fun u ↦ (loc u).counted thr)
    (fun u _ ↦ (loc u).counted_nonneg thr) (Finset.mem_univ t)

omit [DecidableEq T] in
theorem Counts.index_lt (h : Counts cfg m loc) (hworking : (loc t).working cfg.thrCnt = 1) :
    m.daIndex < cfg.iterations + cfg.thrCnt := by
  have hle := working_le_sum cfg.thrCnt loc t
  have hindex := h.index_le
  omega

omit [DecidableEq T] in
theorem Counts.claim_eq (h : Counts cfg m loc) (hfits : cfg.Fits)
    (hworking : (loc t).working cfg.thrCnt = 1) {value idx : ℕ}
    (hvalue : value = (m.daIndex + 1) % cfg.range)
    (hidx : idx = (value + cfg.range - 1) % cfg.range) :
    value = m.daIndex + 1 ∧ idx = m.daIndex := by
  have hle := working_le_sum cfg.thrCnt loc t
  have hindex := h.index_le
  have hthr := cfg.thrCnt_le
  unfold Config.Fits at hfits
  have hvalue' : value = m.daIndex + 1 := by
    rw [hvalue]
    exact Nat.mod_eq_of_lt (by omega)
  refine ⟨hvalue', ?_⟩
  rw [hidx, hvalue', show m.daIndex + 1 + cfg.range - 1 = m.daIndex + cfg.range by omega,
    Nat.add_mod_right]
  exact Nat.mod_eq_of_lt (by omega)

omit [DecidableEq T] in
theorem Counts.leave_eq (h : Counts cfg m loc) (hfits : cfg.Fits)
    (hcounted : (loc t).counted cfg.thrCnt = 1) {cnt : ℕ}
    (hcnt : cnt = (m.daThrCnt + cfg.range - 1) % cfg.range) : cnt + 1 = m.daThrCnt := by
  have hle := counted_le_sum cfg.thrCnt loc t
  have heq := h.thrCnt_eq
  have hthr := h.thrCnt_le
  have hmax := cfg.thrCnt_le
  unfold Config.Fits at hfits
  obtain ⟨d, hd⟩ : ∃ d, m.daThrCnt = d + 1 := Nat.exists_eq_add_one.mpr (by omega)
  rw [hcnt, hd, show d + 1 + cfg.range - 1 = d + cfg.range by omega, Nat.add_mod_right]
  rw [Nat.mod_eq_of_lt (by omega)]

theorem signals_waitSlow {sema sema' : Semaphore.Mem} {p p' : Semaphore.Loc}
    (h : Semaphore.dispatchSemaphoreWaitSlow sema p = some (sema', p')) :
    sema'.signals = sema.signals := by
  cases p <;> simp only [Semaphore.dispatchSemaphoreWaitSlow] at h
  all_goals repeat' split at h
  all_goals cases h
  all_goals rfl

omit [DecidableEq T] in
theorem Counts.pushed_eq (h : Counts cfg m loc) (hloc : loc t = .push) : m.pushed = [] := by
  have hle := working_le_sum cfg.thrCnt loc t
  have hwork := h.working_le
  rw [hloc, Loc.working] at hle
  rw [← List.length_eq_zero_iff]
  omega

/-- What a step does to the counters: a thread moves on, possibly with the next index; or it
finds the counter exhausted; or it counts itself out. -/
inductive Effect (cfg : Config) (m m' : Mem) (l l' : Loc) : Prop
  | move : (m'.pushed.length : ℤ) + l'.working cfg.thrCnt = m.pushed.length + l.working cfg.thrCnt →
      (m'.pushed.length : ℤ) + l'.counted cfg.thrCnt = m.pushed.length + l.counted cfg.thrCnt →
      (m'.daSema.signals : ℤ) + l'.token = m.daSema.signals + l.token →
      m'.daThrCnt = m.daThrCnt →
      m'.daIndex = m.daIndex ∨ m'.daIndex = m.daIndex + 1 ∧ m.daIndex < cfg.iterations →
      Effect cfg m m' l l'
  | exhaust : m'.pushed = m.pushed → l.working cfg.thrCnt = 1 → l'.working cfg.thrCnt = 0 →
      l'.counted cfg.thrCnt = l.counted cfg.thrCnt → m'.daSema = m.daSema → l'.token = l.token →
      m'.daThrCnt = m.daThrCnt → m'.daIndex = m.daIndex + 1 → cfg.iterations ≤ m.daIndex →
      Effect cfg m m' l l'
  | leave : m'.pushed = m.pushed → l'.working cfg.thrCnt = l.working cfg.thrCnt →
      l.counted cfg.thrCnt = 1 → l'.counted cfg.thrCnt = 0 → m'.daSema = m.daSema →
      l'.token = l.token + (if m'.daThrCnt = 0 then 1 else 0) →
      m'.daThrCnt + 1 = m.daThrCnt → m'.daIndex = m.daIndex → Effect cfg m m' l l'

omit [DecidableEq T] in
theorem Trans.effect (ht : Trans cfg m a (loc t) m' l') (hfits : cfg.Fits) (hpar : 2 ≤ cfg.thrCnt)
    (h : Counts cfg m loc) : Effect cfg m m' (loc t) l' := by
  have hclaim := h.claim_eq hfits (t := t)
  have hleave := h.leave_eq hfits (t := t)
  have hpush := h.pushed_eq (t := t)
  generalize loc t = l at *
  cases ht
  case pop i hi =>
    have hlen := List.length_erase_of_mem hi
    have hpos := List.length_pos_of_mem hi
    refine .move ?_ ?_ rfl rfl (.inl rfl)
    · simp only [hlen, Loc.working, Apply2.working]
      omega
    · simp only [hlen, Loc.counted, Apply2.counted]
      omega
  case pushAll =>
    refine .move ?_ ?_ rfl rfl (.inl rfl)
    · simp [Loc.working, hpush rfl]
    · simp [Loc.counted, hpush rfl]
  case pushRest =>
    refine .move ?_ ?_ rfl rfl (.inl rfl)
    · simp only [hpush rfl, List.length_range', Loc.working, Apply2.working, List.length_nil]
      omega
    · simp only [hpush rfl, List.length_range', Loc.counted, Apply2.counted, List.length_nil]
      omega
  case claim b value idx hvalue hidx hlt =>
    obtain ⟨rfl, rfl⟩ := hclaim rfl hvalue hidx
    exact .move rfl rfl rfl rfl (.inr ⟨rfl, hlt⟩)
  case exhausted b value idx hvalue hidx hle =>
    obtain ⟨rfl, rfl⟩ := hclaim rfl hvalue hidx
    exact .exhaust rfl rfl rfl rfl rfl rfl rfl rfl hle
  case leave b cnt hcnt hne =>
    refine .leave rfl ?_ rfl ?_ rfl ?_ (hleave rfl hcnt) rfl
    · simp [Apply2.working]
    · simp
    · simp [hne, Apply2.token]
  case leaveLast b cnt hcnt hzero =>
    refine .leave rfl rfl rfl rfl rfl ?_ (hleave rfl hcnt) rfl
    simp [hzero, Apply2.token]
  case signal =>
    refine .move ?_ ?_ ?_ rfl (.inl rfl)
    · simp [Apply2.working]
    · simp [Apply2.counted]
    · simp [Apply2.token]
  case post =>
    refine .move ?_ ?_ ?_ rfl (.inl rfl)
    · simp [Apply2.working]
    · simp [Apply2.counted]
    · simp [Apply2.token]
  case signalSlow => exact .move rfl rfl (by simp [Apply2.token]) rfl (.inl rfl)
  case waiting p p' sema' hslow =>
    refine .move ?_ ?_ ?_ rfl (.inl rfl)
    · rw [Loc.working_afterWait]
      rfl
    · rw [Loc.counted_afterWait]
      rfl
    · rw [Loc.token_afterWait, signals_waitSlow hslow]
      rfl
  all_goals exact .move rfl rfl rfl rfl (.inl rfl)

theorem Trans.counts (ht : Trans cfg m a (loc t) m' l') (hfits : cfg.Fits) (hpar : 2 ≤ cfg.thrCnt)
    (h : Counts cfg m loc) : Counts cfg m' (Function.update loc t l') := by
  have heff := ht.effect hfits hpar h
  have hw := Pool.sum_update (fun _ l ↦ l.working cfg.thrCnt) loc t l'
  have hc := Pool.sum_update (fun _ l ↦ l.counted cfg.thrCnt) loc t l'
  have hk := Pool.sum_update (fun _ l ↦ l.token) loc t l'
  have hcle := counted_le_sum cfg.thrCnt loc t
  obtain ⟨hwork, hindex, hexh, hle, hthr, hsig⟩ := h
  cases heff with
  | move hworking hcounted htoken hcnt hidx =>
      refine ⟨?_, ?_, ?_, ?_, ?_, ?_⟩
      · omega
      · omega
      · omega
      · omega
      · omega
      · rw [hk, hcnt]
        omega
  | exhaust hpushed hworking hworking' hcounted hsema htoken hcnt hidx hn =>
      refine ⟨?_, ?_, ?_, ?_, ?_, ?_⟩
      · rw [hpushed]; omega
      · rw [hpushed]; omega
      · omega
      · omega
      · rw [hpushed]; omega
      · rw [hk, hcnt, hsema]
        omega
  | leave hpushed hworking hcounted hcounted' hsema htoken hcnt hidx =>
      refine ⟨?_, ?_, ?_, ?_, ?_, ?_⟩
      · rw [hpushed]; omega
      · rw [hpushed]; omega
      · rw [hpushed]; omega
      · omega
      · rw [hpushed]; omega
      · rw [if_neg (by omega)] at hsig
        rw [hk, hsema]
        omega

/-! ## Who does what -/

/-- The caller is the only thread that can be here. -/
def Loc.isCaller : Loc → Bool
  | .idle => false
  | .apply2 borrowed _ => borrowed
  | _ => true

def Loc.isSerial : Loc → Bool
  | .serial _ | .serialRunning _ => true
  | _ => false

/-- Only these two states of the semaphore's slow path belong to a signal. -/
def Loc.Sound : Loc → Prop
  | .apply2 _ (.signalling p) => p = .sendKsignal ∨ p = .post
  | _ => True

theorem Loc.isCaller_finished (b : Bool) : (finished b).isCaller = b := by
  cases b <;> rfl

theorem Loc.isCaller_afterWait (p : Semaphore.Loc) : (afterWait p).isCaller := by
  cases p <;> rfl

theorem Trans.isCaller_eq {l : Loc} (ht : Trans cfg m a l m' l') : l'.isCaller = l.isCaller := by
  cases ht
  case waiting => exact Loc.isCaller_afterWait _
  case leave | signal | post => exact Loc.isCaller_finished _
  all_goals rfl

theorem Trans.sound {l : Loc} (ht : Trans cfg m a l m' l') : l'.Sound := by
  cases ht
  case waiting p p' _ _ => cases p' <;> trivial
  case leave b _ _ _ | signal b _ _ _ | post b => cases b <;> trivial
  case signalSlow => exact .inl rfl
  case sendKsignal => exact .inr rfl
  all_goals trivial

theorem Trans.isSerial_eq {l : Loc} (ht : Trans cfg m a l m' l') (h : l.isSerial = false) :
    l'.isSerial = false := by
  cases ht
  case waiting p p' _ _ => cases p' <;> rfl
  case leave b _ _ _ | signal b _ _ _ | post b => cases b <;> rfl
  case serialCall | serialNext => cases h
  all_goals rfl

structure Roles (caller : T) (loc : T → Loc) : Prop where
  isCaller_eq : ∀ t, (loc t).isCaller = decide (t = caller)
  sound : ∀ t, (loc t).Sound

omit [Fintype T] in
theorem Trans.roles {caller : T} (ht : Trans cfg m a (loc t) m' l') (h : Roles caller loc) :
    Roles caller (Function.update loc t l') := by
  constructor
  case isCaller_eq =>
    intro u
    rcases eq_or_ne u t with rfl | hut
    · rw [Function.update_self, ht.isCaller_eq, h.isCaller_eq]
    · rw [Function.update_of_ne hut, h.isCaller_eq]
  case sound =>
    intro u
    rcases eq_or_ne u t with rfl | hut
    · rw [Function.update_self]
      exact ht.sound
    · rw [Function.update_of_ne hut]
      exact h.sound u

/-! ## The semaphore -/

def Loc.waited : Loc → ℤ
  | .waiting _ | .returned => 1
  | _ => 0

def Loc.asleep : Loc → ℤ
  | .waiting _ => 1
  | _ => 0

def Loc.sending : Loc → ℤ
  | .apply2 _ (.signalling .sendKsignal) => 1
  | _ => 0

@[simp] theorem Loc.waited_wait : Loc.wait.waited = 0 := rfl
@[simp] theorem Loc.waited_waiting (p : Semaphore.Loc) : (Loc.waiting p).waited = 1 := rfl
@[simp] theorem Loc.waited_returned : Loc.returned.waited = 1 := rfl
@[simp] theorem Loc.asleep_wait : Loc.wait.asleep = 0 := rfl
@[simp] theorem Loc.asleep_waiting (p : Semaphore.Loc) : (Loc.waiting p).asleep = 1 := rfl
@[simp] theorem Loc.asleep_returned : Loc.returned.asleep = 0 := rfl
@[simp] theorem Loc.sending_wait : Loc.wait.sending = 0 := rfl
@[simp] theorem Loc.sending_waiting (p : Semaphore.Loc) : (Loc.waiting p).sending = 0 := rfl
@[simp] theorem Loc.sending_returned : Loc.returned.sending = 0 := rfl

/-- Where the caller can be in the slow path of the wait. -/
inductive Waits (sema : Semaphore.Mem) : Semaphore.Loc → Prop
  | again (added : ℤ) : Waits sema (.again .forever added)
  | takeKsignal (added : ℤ) : sema.dsemaSentKsignals = 1 →
      Waits sema (.takeKsignal .forever added 1)
  | kernelWait (added : ℤ) : Waits sema (.kernelWait .forever added)

theorem Waits.congr {sema sema' : Semaphore.Mem} {p : Semaphore.Loc} (h : Waits sema p)
    (hsent : sema'.dsemaSentKsignals = sema.dsemaSentKsignals) : Waits sema' p := by
  cases h with
  | again added => exact .again added
  | takeKsignal added hone => exact .takeKsignal added (hsent.trans hone)
  | kernelWait added => exact .kernelWait added

/-- The caller's wait and the one signal find each other. -/
structure Handshake (caller : T) (m : Mem) (loc : T → Loc) : Prop where
  value_eq : m.daSema.dsemaValue = m.daSema.signals - (loc caller).waited
  sent_eq : m.daSema.dsemaSentKsignals + ∑ t, (loc t).sending =
    (loc caller).asleep * m.daSema.signals
  sent_nonneg : 0 ≤ m.daSema.dsemaSentKsignals
  waits : ∀ p, loc caller = .waiting p → Waits m.daSema p
  woken : ∀ added, loc caller = .waiting (.kernelWait .forever added) →
    m.daSema.dsemaSentKsignals = 1 → 0 < m.daSema.ksem ∨
      ∃ t b, loc t = .apply2 b (.signalling .post)
  returned : loc caller = .returned → m.daSema.signals = 1

theorem Loc.sending_nonneg (l : Loc) : 0 ≤ l.sending := by
  unfold sending
  split <;> decide

variable {caller : T}

omit [Fintype T] in
theorem Roles.eq_caller (h : Roles caller loc) (hcaller : (loc t).isCaller) : t = caller := by
  rw [h.isCaller_eq] at hcaller
  exact of_decide_eq_true hcaller

omit [Fintype T] in
theorem update_caller (h : t ≠ caller) : Function.update loc t l' caller = loc caller :=
  Function.update_of_ne h.symm _ _

theorem sum_sending (loc : T → Loc) (t : T) (l' : Loc) :
    ∑ u, (Function.update loc t l' u).sending =
      ∑ u, (loc u).sending - (loc t).sending + l'.sending :=
  Pool.sum_update (fun _ l ↦ l.sending) loc t l'

omit [DecidableEq T] in
theorem sending_le_sum (loc : T → Loc) (t : T) : (loc t).sending ≤ ∑ u, (loc u).sending :=
  Finset.single_le_sum (f := fun u ↦ (loc u).sending) (fun u _ ↦ (loc u).sending_nonneg)
    (Finset.mem_univ t)

theorem Loc.asleep_of_waited {l : Loc} (h : l.waited = 0) : l.asleep = 0 := by
  cases l <;> first | rfl | cases h

theorem handshake_caller
    (hvalue : m'.daSema.dsemaValue = m'.daSema.signals - l'.waited)
    (hsending : l'.sending = (loc caller).sending)
    (hsent : m'.daSema.dsemaSentKsignals + ∑ t, (loc t).sending = l'.asleep * m'.daSema.signals)
    (hnonneg : 0 ≤ m'.daSema.dsemaSentKsignals)
    (hwaits : ∀ p, l' = .waiting p → Waits m'.daSema p)
    (hwoken : ∀ added, l' = .waiting (.kernelWait .forever added) →
      m'.daSema.dsemaSentKsignals ≠ 1)
    (hreturned : l' = .returned → m'.daSema.signals = 1) :
    Handshake caller m' (Function.update loc caller l') where
  value_eq := by rwa [Function.update_self]
  sent_eq := by
    rw [Function.update_self, sum_sending, hsending, ← hsent]
    ring
  sent_nonneg := hnonneg
  waits p hp := hwaits p (by rwa [Function.update_self] at hp)
  woken added hp hone := absurd hone (hwoken added (by rwa [Function.update_self] at hp))
  returned hp := hreturned (by rwa [Function.update_self] at hp)

theorem Handshake.keep (h : Handshake caller m loc)
    (hvalue : m'.daSema.dsemaValue = m.daSema.dsemaValue)
    (hsent : m'.daSema.dsemaSentKsignals = m.daSema.dsemaSentKsignals)
    (hsignals : m'.daSema.signals = m.daSema.signals) (hwaited : (loc t).waited = 0)
    (hwaited' : l'.waited = 0) (hsending : l'.sending = (loc t).sending)
    (hpost : 0 < m'.daSema.ksem ∨
      m'.daSema.ksem = m.daSema.ksem ∧ ∀ b, loc t ≠ .apply2 b (.signalling .post)) :
    Handshake caller m' (Function.update loc t l') := by
  have hsum : ∑ u, (Function.update loc t l' u).sending = ∑ u, (loc u).sending := by
    rw [sum_sending, hsending]
    ring
  have hnot : l' ≠ .returned ∧ ∀ p, l' ≠ .waiting p := by
    constructor
    · rintro rfl
      cases hwaited'
    · rintro p rfl
      cases hwaited'
  by_cases ht : t = caller
  · subst ht
    refine handshake_caller ?_ hsending ?_ (hsent ▸ h.sent_nonneg) (fun p hp ↦ absurd hp (hnot.2 p))
      (fun _ hp ↦ absurd hp (hnot.2 _)) (fun hp ↦ absurd hp hnot.1)
    · rw [hvalue, hsignals, hwaited', h.value_eq, hwaited]
    · rw [hsent, hsignals, h.sent_eq, Loc.asleep_of_waited hwaited, Loc.asleep_of_waited hwaited']
  · constructor
    case value_eq => rw [update_caller ht, hvalue, hsignals, h.value_eq]
    case sent_eq => rw [update_caller ht, hsent, hsignals, hsum, h.sent_eq]
    case sent_nonneg => exact hsent ▸ h.sent_nonneg
    case waits =>
      intro p hp
      rw [update_caller ht] at hp
      exact (h.waits p hp).congr hsent
    case woken =>
      intro added hp hone
      rw [update_caller ht] at hp
      rcases hpost with hpos | ⟨hksem, hne⟩
      · exact .inl hpos
      · rw [hksem]
        refine (h.woken added hp (hsent ▸ hone)).imp_right fun ⟨u, b, hu⟩ ↦ ⟨u, b, ?_⟩
        rw [Function.update_of_ne, hu]
        rintro rfl
        exact hne b hu
    case returned =>
      rw [update_caller ht, hsignals]
      exact h.returned

theorem Loc.waited_cases (l : Loc) : l.waited = 0 ∨ l = .returned ∨ ∃ p, l = .waiting p := by
  cases l with
  | waiting p => exact .inr (.inr ⟨p, rfl⟩)
  | returned => exact .inr (.inl rfl)
  | _ => exact .inl rfl

theorem Handshake.signal (h : Handshake caller m loc) {b : Bool}
    (hloc : loc t = .apply2 b .signal) (hsignals : m.daSema.signals = 0) {value : ℤ}
    (hvalue : value = wrap (m.daSema.dsemaValue + 1)) (hpos : 0 < value) :
    Handshake caller
      { m with daSema.dsemaValue := value, daSema.signals := m.daSema.signals + 1 }
      (Function.update loc t (finished b)) := by
  have hval := h.value_eq
  have hwaited : (loc caller).waited = 0 := by
    rcases (loc caller).waited_cases with h0 | hc | ⟨p, hc⟩
    · exact h0
    all_goals
      rw [hc, hsignals, Loc.waited] at hval
      rw [hvalue, hval] at hpos
      exact absurd hpos (by decide)
  have hsent := h.sent_eq
  rw [Loc.asleep_of_waited hwaited, zero_mul] at hsent
  rw [hwaited, hsignals] at hval
  have hvalue' : value = 1 := by
    rw [hvalue, hval]
    decide
  have hfin : (Function.update loc t (finished b) caller).waited = 0 := by
    by_cases ht : t = caller
    · subst ht
      rw [Function.update_self]
      cases b <;> rfl
    · rwa [update_caller ht]
  have hne : ∀ p, Function.update loc t (finished b) caller ≠ .waiting p := by
    intro p hp
    rw [hp] at hfin
    cases hfin
  constructor
  case value_eq =>
    rw [hfin, hsignals, hvalue']
    rfl
  case sent_eq =>
    rw [Loc.asleep_of_waited hfin, zero_mul, sum_sending, hloc]
    have hf : (finished b).sending = 0 := by cases b <;> rfl
    have hs : (Loc.apply2 b .signal).sending = 0 := rfl
    simpa [hf, hs] using hsent
  case sent_nonneg => exact h.sent_nonneg
  case waits => exact fun p hp ↦ absurd hp (hne p)
  case woken => exact fun _ hp ↦ absurd hp (hne _)
  case returned =>
    intro _
    simp [hsignals]

theorem Handshake.signalSlow (h : Handshake caller m loc) {b : Bool}
    (hloc : loc t = .apply2 b .signal) (hsignals : m.daSema.signals = 0) {value : ℤ}
    (hvalue : value = wrap (m.daSema.dsemaValue + 1)) (hle : value ≤ 0) :
    Handshake caller
      { m with daSema.dsemaValue := value, daSema.signals := m.daSema.signals + 1 }
      (Function.update loc t (.apply2 b (.signalling .sendKsignal))) := by
  have hval := h.value_eq
  obtain ⟨p, hp⟩ : ∃ p, loc caller = .waiting p := by
    rcases (loc caller).waited_cases with h0 | hc | hc
    · rw [h0, hsignals] at hval
      rw [hvalue, hval] at hle
      exact absurd hle (by decide)
    · have hone := h.returned hc
      omega
    · exact hc
  have ht : t ≠ caller := by
    rintro rfl
    rw [hloc] at hp
    cases hp
  have hsent := h.sent_eq
  have hnonneg := h.sent_nonneg
  have hsum : 0 ≤ ∑ u, (loc u).sending := Finset.sum_nonneg fun u _ ↦ (loc u).sending_nonneg
  rw [hp, hsignals, Loc.waited] at hval
  rw [hsignals, Nat.cast_zero, mul_zero] at hsent
  constructor
  case value_eq =>
    rw [update_caller ht, hp, Loc.waited, hsignals, hvalue, hval]
    rfl
  case sent_eq =>
    rw [update_caller ht, hp, sum_sending, hloc, hsignals]
    have hs : (Loc.apply2 b .signal).sending = 0 := rfl
    have hs' : (Loc.apply2 b (.signalling .sendKsignal)).sending = 1 := rfl
    have ha : (Loc.waiting p).asleep = 1 := rfl
    rw [hs, hs', ha]
    simp only
    omega
  case sent_nonneg => exact h.sent_nonneg
  case waits =>
    intro q hq
    rw [update_caller ht] at hq
    exact (h.waits q hq).congr rfl
  case woken =>
    intro _ _ (hone : m.daSema.dsemaSentKsignals = 1)
    omega
  case returned =>
    intro hr
    rw [update_caller ht, hp] at hr
    cases hr

theorem Handshake.sendKsignal (h : Handshake caller m loc) {b : Bool}
    (hloc : loc t = .apply2 b (.signalling .sendKsignal)) (hsignals : m.daSema.signals ≤ 1) :
    Handshake caller
      { m with daSema.dsemaSentKsignals := wrap (m.daSema.dsemaSentKsignals + 1) }
      (Function.update loc t (.apply2 b (.signalling .post))) := by
  have hsent := h.sent_eq
  have hnonneg := h.sent_nonneg
  have hle := sending_le_sum loc t
  rw [hloc, Loc.sending] at hle
  obtain ⟨p, hp⟩ : ∃ p, loc caller = .waiting p := by
    cases hc : loc caller with
    | waiting p => exact ⟨p, rfl⟩
    | _ =>
        rw [hc, Loc.asleep] at hsent
        · omega
        all_goals nofun
  have ht : t ≠ caller := by
    rintro rfl
    rw [hloc] at hp
    cases hp
  rw [hp, Loc.asleep, one_mul] at hsent
  have hzero : m.daSema.dsemaSentKsignals = 0 := by omega
  have hone : wrap (m.daSema.dsemaSentKsignals + 1) = 1 := by
    rw [hzero]
    decide
  constructor
  case value_eq =>
    rw [update_caller ht]
    exact h.value_eq
  case sent_eq =>
    rw [update_caller ht, hp, sum_sending, hloc]
    have hs : (Loc.apply2 b (.signalling .sendKsignal)).sending = 1 := rfl
    have hs' : (Loc.apply2 b (.signalling .post)).sending = 0 := rfl
    have ha : (Loc.waiting p).asleep = 1 := rfl
    rw [hs, hs', ha]
    simp only [hone]
    omega
  case sent_nonneg =>
    simp only [hone]
    decide
  case waits =>
    intro q hq
    rw [update_caller ht] at hq
    cases h.waits q hq with
    | again added => exact .again added
    | takeKsignal added htaken => omega
    | kernelWait added => exact .kernelWait added
  case woken => exact fun _ _ _ ↦ .inr ⟨t, b, Function.update_self _ _ _⟩
  case returned =>
    intro hr
    rw [update_caller ht, hp] at hr
    cases hr

theorem Handshake.post (h : Handshake caller m loc) {b : Bool}
    (hloc : loc t = .apply2 b (.signalling .post)) :
    Handshake caller { m with daSema.ksem := m.daSema.ksem + 1 }
      (Function.update loc t (finished b)) := by
  refine h.keep rfl rfl rfl ?_ ?_ ?_ (.inl (Nat.succ_pos _))
  · rw [hloc]
    rfl
  · cases b <;> rfl
  · rw [hloc]
    cases b <;> rfl

theorem Handshake.wait (h : Handshake caller m loc) (hloc : loc caller = .wait)
    (hsignals : m.daSema.signals ≤ 1) {value : ℤ}
    (hvalue : value = wrap (m.daSema.dsemaValue - 1)) {r : List Semaphore.WaitReturn}
    (hcases : l' = .returned ∧ 0 ≤ value ∨
      ∃ added, l' = .waiting (.again .forever added) ∧ value < 0) :
    Handshake caller { m with daSema.dsemaValue := value, daSema.returns := r }
      (Function.update loc caller l') := by
  have hval := h.value_eq
  have hsent := h.sent_eq
  rw [hloc, Loc.waited_wait, sub_zero] at hval
  rw [hloc, Loc.asleep_wait, zero_mul] at hsent
  have hcnt : m.daSema.signals = 0 ∨ m.daSema.signals = 1 := by omega
  rw [hval] at hvalue
  rcases hcases with ⟨rfl, hpos⟩ | ⟨added, rfl, hneg⟩
  · obtain hone : m.daSema.signals = 1 := hcnt.resolve_left fun hzero ↦ by
      rw [hvalue, hzero] at hpos
      exact absurd hpos (by decide)
    refine handshake_caller ?_ (by rw [hloc]; rfl) ?_ h.sent_nonneg nofun nofun fun _ ↦ hone
    · rw [Loc.waited_returned, hvalue, hone]
      rfl
    · rw [Loc.asleep_returned, zero_mul]
      exact hsent
  · obtain hzero : m.daSema.signals = 0 := hcnt.resolve_right fun hone ↦ by
      rw [hvalue, hone] at hneg
      exact absurd hneg (by decide)
    refine handshake_caller ?_ (by rw [hloc]; rfl) ?_ h.sent_nonneg ?_ nofun nofun
    · rw [Loc.waited_waiting, hvalue, hzero]
      rfl
    · rw [hzero, Nat.cast_zero, mul_zero]
      exact hsent
    · rintro p ⟨⟩
      exact .again added

theorem Handshake.waiting (h : Handshake caller m loc) {p p' : Semaphore.Loc}
    (hloc : loc caller = .waiting p) (hsignals : m.daSema.signals ≤ 1) {sema' : Semaphore.Mem}
    (hslow : Semaphore.dispatchSemaphoreWaitSlow m.daSema p = some (sema', p')) :
    Handshake caller { m with daSema := sema' } (Function.update loc caller (afterWait p')) := by
  have hval := h.value_eq
  have hsent := h.sent_eq
  have hnonneg := h.sent_nonneg
  have hsum : 0 ≤ ∑ u, (loc u).sending := Finset.sum_nonneg fun u _ ↦ (loc u).sending_nonneg
  rw [hloc, Loc.waited_waiting] at hval
  rw [hloc, Loc.asleep_waiting, one_mul] at hsent
  cases h.waits p hloc with
  | again added =>
      simp only [Semaphore.dispatchSemaphoreWaitSlow] at hslow
      split at hslow
      · cases hslow
        have hone : m.daSema.dsemaSentKsignals = 1 := by omega
        refine handshake_caller hval (by rw [hloc]; rfl) ?_ hnonneg ?_ ?_ ?_
        · simpa [afterWait] using hsent
        · rintro q ⟨⟩
          rw [hone]
          exact .takeKsignal added hone
        · rintro added' ⟨⟩
        · rintro ⟨⟩
      · cases hslow
        refine handshake_caller hval (by rw [hloc]; rfl) ?_ hnonneg ?_ ?_ ?_
        · simpa [afterWait] using hsent
        · rintro q ⟨⟩
          exact .kernelWait added
        · rintro added' - hone
          simp_all
        · rintro ⟨⟩
  | takeKsignal added hone =>
      simp only [Semaphore.dispatchSemaphoreWaitSlow, if_pos hone] at hslow
      cases hslow
      refine handshake_caller hval (by rw [hloc]; rfl) ?_ le_rfl ?_ ?_ fun _ ↦ ?_
      · simp only [afterWait, Loc.asleep_returned, Semaphore.Mem.returned]
        omega
      · rintro q ⟨⟩
      · rintro added' ⟨⟩
      · simp only [Semaphore.Mem.returned]
        omega
  | kernelWait added =>
      simp only [Semaphore.dispatchSemaphoreWaitSlow] at hslow
      split at hslow <;> cases hslow
      refine handshake_caller hval (by rw [hloc]; rfl) ?_ hnonneg ?_ ?_ ?_
      · simpa [afterWait] using hsent
      · rintro q ⟨⟩
        exact .again added
      · rintro added' ⟨⟩
      · rintro ⟨⟩

omit [DecidableEq T] in
theorem Counts.signals_le (h : Counts cfg m loc) : m.daSema.signals ≤ 1 := by
  have hsig := h.signals_eq
  have hsum : 0 ≤ ∑ u, (loc u).token := Finset.sum_nonneg fun u _ ↦ (loc u).token_nonneg
  split at hsig <;> omega

omit [DecidableEq T] in
theorem Counts.signals_eq_zero (h : Counts cfg m loc) (htoken : (loc t).token = 1) :
    m.daSema.signals = 0 := by
  have hsig := h.signals_eq
  have hle : (loc t).token ≤ ∑ u, (loc u).token :=
    Finset.single_le_sum (f := fun u ↦ (loc u).token) (fun u _ ↦ (loc u).token_nonneg)
      (Finset.mem_univ t)
  split at hsig <;> omega

theorem Trans.handshake (ht : Trans cfg m a (loc t) m' l') (hroles : Roles caller loc)
    (hcounts : Counts cfg m loc) (hserial : (loc t).isSerial = false) (h : Handshake caller m loc) :
    Handshake caller m' (Function.update loc t l') := by
  have hcaller := hroles.eq_caller (t := t)
  have hle := hcounts.signals_le
  have hzero := hcounts.signals_eq_zero (t := t)
  have hkeep : ∀ {m'' : Mem} {l'' : Loc}, m''.daSema = m.daSema → (loc t).waited = 0 →
      l''.waited = 0 → l''.sending = (loc t).sending →
      (∀ b, loc t ≠ .apply2 b (.signalling .post)) →
      Handshake caller m'' (Function.update loc t l'') := fun hsema hw hw' hs hpost ↦
    h.keep (by rw [hsema]) (by rw [hsema]) (by rw [hsema]) hw hw' hs (.inr ⟨by rw [hsema], hpost⟩)
  generalize hl : loc t = l at ht
  rw [hl] at hcaller hzero hkeep hserial
  cases ht
  case leave b cnt _ _ =>
    refine hkeep rfl rfl ?_ ?_ nofun
    · cases b <;> rfl
    · cases b <;> rfl
  case signal b value hvalue hpos => exact h.signal hl (hzero rfl) hvalue hpos
  case signalSlow b value hvalue hneg => exact h.signalSlow hl (hzero rfl) hvalue hneg
  case sendKsignal b => exact h.sendKsignal hl hle
  case post b => exact h.post hl
  case wait value r hvalue hpos =>
    obtain rfl := hcaller rfl
    exact h.wait hl hle hvalue (.inl ⟨rfl, hpos⟩)
  case waitSlow value added hvalue hneg =>
    obtain rfl := hcaller rfl
    exact h.wait hl hle hvalue (.inr ⟨added, rfl, hneg⟩)
  case waiting p p' sema' hslow =>
    obtain rfl := hcaller rfl
    exact h.waiting hl hle hslow
  case serialLast => cases hserial
  all_goals exact hkeep rfl rfl rfl rfl nofun

end LibDispatch.Apply
