import LibDispatch.Queue.Model

/-!
# Resuming and suspending a source of the C++ library

`source::resume` and `source::suspend` count in `suspend_ct`, and the thread that takes the
count from 0 to 1 or back tells the source type.  It does so after the atomic operation, so
that callbacks of several changes can be on their way at once.  A native source answers to
them by resuming and suspending the dispatch source that it wraps; the library locks that
source while it is queued, and others may suspend it as well.
-/

namespace LibDispatch.Wrapper.Alternation

open Interleaving
open Queue (suspendLock suspendInterval)

/-! ## The model -/

inductive Callback
  | onResume
  | onSuspend
  deriving DecidableEq

/-- The counter of the source, and the suspend count of the native one.  The other fields are
history: the callbacks in the order of their calls, the running count of the calls, and what
the library and others have added to the suspend count. -/
structure Mem where
  suspendCt : ℕ
  doSuspendCnt : ℕ
  calls : List Callback
  running : ℕ
  others : ℕ
  locked : Bool
  deriving DecidableEq

/-- Where a thread stands: in front of the call of a callback, or in it, in front of the
operation on the native source. -/
inductive Loc
  | idle
  | callOnResume
  | callOnSuspend
  | dispatchResume
  | dispatchSuspend
  | overResume
  deriving DecidableEq

inductive Act
  | resume
  | suspend
  | go
  | nativeSuspend
  | nativeResume
  | lock
  | unlock
  deriving DecidableEq

def uintptr : ℕ := 2 ^ 64

def resume (m : Mem) : Mem × Loc :=
  let value := (m.suspendCt + 1) % uintptr
  ({ m with suspendCt := value, running := m.running + 1 },
    if value = 1 then .callOnResume else .idle)

def suspend (m : Mem) : Mem × Loc :=
  let value := (m.suspendCt + (uintptr - 1)) % uintptr
  ({ m with suspendCt := value, running := m.running - 1 },
    if value = 0 then .callOnSuspend else .idle)

/-- `dispatch_resume` on the native source; the wakeup after it is left out. -/
def dispatchResume (m : Mem) : Mem × Loc :=
  ({ m with doSuspendCnt := m.doSuspendCnt - suspendInterval },
    if m.doSuspendCnt = suspendLock ∨ m.doSuspendCnt = 0 then .overResume else .idle)

def dispatchSuspend (m : Mem) : Mem := { m with doSuspendCnt := m.doSuspendCnt + suspendInterval }

/-- One step of a thread.  The source is not suspended more often than it has been resumed,
and others resume the native source only if they have suspended it. -/
def step {T : Type*} : Program T Act Mem Loc := fun _ a m l ↦
  match l, a with
  | .idle, .resume => some (resume m)
  | .idle, .suspend => if 0 < m.running then some (suspend m) else none
  | .callOnResume, .go => some ({ m with calls := m.calls ++ [.onResume] }, .dispatchResume)
  | .callOnSuspend, .go => some ({ m with calls := m.calls ++ [.onSuspend] }, .dispatchSuspend)
  | .dispatchResume, .go => some (dispatchResume m)
  | .dispatchSuspend, .go => some (dispatchSuspend m, .idle)
  | .idle, .nativeSuspend => some ({ dispatchSuspend m with others := m.others + 1 }, .idle)
  | .idle, .nativeResume =>
      if 0 < m.others then
        some ({ m with doSuspendCnt := m.doSuspendCnt - suspendInterval, others := m.others - 1 },
          .idle)
      else none
  | .idle, .lock =>
      if m.doSuspendCnt = 0 then
        some ({ m with doSuspendCnt := suspendLock, locked := true }, .idle)
      else none
  | .idle, .unlock =>
      if m.locked then
        some ({ m with doSuspendCnt := m.doSuspendCnt - suspendLock, locked := false }, .idle)
      else none
  | _, _ => none

/-- The source and the native one are suspended. -/
def initial (T : Type*) : Pool T Mem Loc where
  mem :=
    { suspendCt := 0, doSuspendCnt := suspendInterval, calls := [], running := 0, others := 0,
      locked := false }
  loc _ := .idle

/-! ## Alternation -/

/-- The count changes between 0 and 1 only while no callback is on its way, and it stays in
the range of the counter. -/
def Orderly {T : Type*} (s : Pool T Mem Loc) (_ : T) : Act → Prop
  | .resume => s.mem.running + 1 < uintptr ∧ (s.mem.running = 0 → ∀ u, s.loc u = .idle)
  | .suspend => s.mem.running = 1 → ∀ u, s.loc u = .idle
  | _ => True

/-- The calls alternate and begin with `on_resume()`. -/
def Alternating (calls : List Callback) : Prop :=
  calls.IsChain (· ≠ ·) ∧ calls.head? ≠ some .onSuspend

/-- The last call, and how many suspensions of the native source are due to the callbacks. -/
structure Settled (m : Mem) (resumed : Prop) (k : ℕ) : Prop where
  last : m.calls.getLast? = some .onResume ↔ resumed
  share : m.doSuspendCnt = suspendInterval * (k + m.others) + m.locked.toNat

/-- What is so while the thread that changed the count last stands here. -/
def Fits (m : Mem) : Loc → Prop
  | .idle => Settled m (0 < m.running) (if m.running = 0 then 1 else 0)
  | .callOnResume => 0 < m.running ∧ Settled m False 1
  | .dispatchResume => 0 < m.running ∧ Settled m True 1
  | .callOnSuspend => m.running = 0 ∧ Settled m True 0
  | .dispatchSuspend => m.running = 0 ∧ Settled m False 0
  | .overResume => False

variable {T : Type*} [DecidableEq T] {s : Pool T Mem Loc} {m : Mem} {l : Loc}

theorem Alternating.resume {calls : List Callback} (h : Alternating calls)
    (hlast : calls.getLast? ≠ some .onResume) : Alternating (calls ++ [.onResume]) := by
  refine ⟨List.isChain_append.mpr ⟨h.1, List.isChain_singleton _, fun c hc d hd ↦ ?_⟩, ?_⟩
  · cases hd
    rintro rfl
    exact hlast hc
  · cases calls with
    | nil => simp
    | cons c calls => exact h.2

theorem Alternating.suspend {calls : List Callback} (h : Alternating calls)
    (hlast : calls.getLast? = some .onResume) : Alternating (calls ++ [.onSuspend]) := by
  refine ⟨List.isChain_append.mpr ⟨h.1, List.isChain_singleton _, fun c hc d hd ↦ ?_⟩, ?_⟩
  · cases hd
    rintro rfl
    rw [hlast] at hc
    cases hc
  · cases calls with
    | nil => cases hlast
    | cons c calls => exact h.2

theorem Fits.of_share {m' : Mem} (h : Fits m l) (hcalls : m'.calls = m.calls)
    (hrunning : m'.running = m.running)
    (hshare : ∀ k, m.doSuspendCnt = suspendInterval * (k + m.others) + m.locked.toNat →
      m'.doSuspendCnt = suspendInterval * (k + m'.others) + m'.locked.toNat) : Fits m' l := by
  have hs : ∀ {p k}, Settled m p k → Settled m' p k := fun hs ↦
    ⟨by rw [hcalls]; exact hs.last, hshare _ hs.share⟩
  cases l with
  | idle =>
      unfold Fits at h ⊢
      rw [hrunning]
      exact hs h
  | overResume => exact h
  | _ => exact ⟨by rw [hrunning]; exact h.1, hs h.2⟩

/-- At most one thread is on its way to or in a callback, and what it leaves behind fits. -/
structure Inv (s : Pool T Mem Loc) : Prop where
  alternating : Alternating s.mem.calls
  count : s.mem.suspendCt = s.mem.running
  range : s.mem.running < uintptr
  rest : (∀ t, s.loc t = .idle) → Fits s.mem .idle
  busy : ∀ t, s.loc t ≠ .idle → Fits s.mem (s.loc t) ∧ ∀ u, u ≠ t → s.loc u = .idle

theorem Inv.turn {t : T} (hidle : ∀ u, u ≠ t → s.loc u = .idle) (halt : Alternating m.calls)
    (hcount : m.suspendCt = m.running) (hrange : m.running < uintptr) (hfits : Fits m l) :
    Inv ⟨m, Function.update s.loc t l⟩ := by
  refine ⟨halt, hcount, hrange, fun hall ↦ ?_, fun u hu ↦ ?_⟩
  · obtain rfl : l = .idle := by simpa using hall t
    exact hfits
  · obtain rfl : u = t := by
      by_contra hne
      exact hu (by simpa [hne] using hidle u hne)
    refine ⟨by simpa using hfits, fun v hv ↦ by simpa [hv] using hidle v hv⟩

theorem Inv.aside (hi : Inv s) {t : T} (ht : s.loc t = .idle) (halt : Alternating m.calls)
    (hcount : m.suspendCt = m.running) (hrange : m.running < uintptr)
    (hfits : ∀ l, Fits s.mem l → Fits m l) : Inv ⟨m, Function.update s.loc t .idle⟩ := by
  have hloc : Function.update s.loc t .idle = s.loc := by
    rw [← ht]
    exact Function.update_eq_self t s.loc
  rw [hloc]
  exact ⟨halt, hcount, hrange, fun hall ↦ hfits _ (hi.rest hall),
    fun u hu ↦ ⟨hfits _ (hi.busy u hu).1, (hi.busy u hu).2⟩⟩

theorem Inv.resume (hi : Inv s) {t : T} (ht : s.loc t = .idle) (hc : Orderly s t .resume) :
    Inv ⟨(resume s.mem).1, Function.update s.loc t (resume s.mem).2⟩ := by
  obtain ⟨hrange, hcross⟩ := hc
  have hvalue : (s.mem.suspendCt + 1) % uintptr = s.mem.running + 1 := by
    rw [hi.count]
    exact Nat.mod_eq_of_lt hrange
  unfold Alternation.resume
  simp only [hvalue]
  by_cases hzero : s.mem.running = 0
  · have hidle := hcross hzero
    have hrest := hi.rest hidle
    simp only [Fits, hzero, lt_irrefl, if_true] at hrest
    rw [if_pos (by omega)]
    exact Inv.turn (fun u _ ↦ hidle u) hi.alternating rfl hrange
      ⟨Nat.succ_pos _, hrest.last, hrest.share⟩
  · rw [if_neg (by omega)]
    refine hi.aside ht hi.alternating rfl hrange fun l hl ↦ ?_
    cases l with
    | idle =>
        simp only [Fits, hzero, if_false, Nat.pos_of_ne_zero hzero, Nat.succ_pos, Nat.succ_ne_zero]
          at hl ⊢
        exact ⟨hl.last, hl.share⟩
    | callOnResume | dispatchResume => exact ⟨Nat.succ_pos _, hl.2.last, hl.2.share⟩
    | callOnSuspend | dispatchSuspend => exact absurd hl.1 hzero
    | overResume => exact hl

theorem Inv.suspend (hi : Inv s) {t : T} (ht : s.loc t = .idle) (hpos : 0 < s.mem.running)
    (hc : Orderly s t .suspend) :
    Inv ⟨(suspend s.mem).1, Function.update s.loc t (suspend s.mem).2⟩ := by
  have hrange := hi.range
  have hless : s.mem.running - 1 < uintptr := (Nat.sub_le _ _).trans_lt hrange
  have hvalue : (s.mem.suspendCt + (uintptr - 1)) % uintptr = s.mem.running - 1 := by
    rw [hi.count]
    unfold uintptr at hrange ⊢
    omega
  unfold Alternation.suspend
  simp only [hvalue]
  by_cases hone : s.mem.running = 1
  · have hidle := hc hone
    have hrest := hi.rest hidle
    simp only [Fits, hone, Nat.zero_lt_one, one_ne_zero, if_false] at hrest
    rw [if_pos (by omega)]
    exact Inv.turn (fun u _ ↦ hidle u) hi.alternating rfl hless
      ⟨Nat.sub_eq_zero_of_le hone.le, hrest.last, hrest.share⟩
  · have hpos' : 0 < s.mem.running - 1 := by omega
    rw [if_neg hpos'.ne']
    refine hi.aside ht hi.alternating rfl hless fun l hl ↦ ?_
    cases l with
    | idle =>
        simp only [Fits, hpos.ne', if_false, hpos, hpos', hpos'.ne'] at hl ⊢
        exact ⟨hl.last, hl.share⟩
    | callOnResume | dispatchResume => exact ⟨hpos', hl.2.last, hl.2.share⟩
    | callOnSuspend | dispatchSuspend => exact absurd hl.1 hpos.ne'
    | overResume => exact hl

theorem Inv.callback (hi : Inv s) {t : T} (ht : s.loc t ≠ .idle)
    (hs : step t .go s.mem (s.loc t) = some (m, l)) : Inv ⟨m, Function.update s.loc t l⟩ := by
  obtain ⟨hfits, hidle⟩ := hi.busy t ht
  cases hloc : s.loc t with
  | idle => exact absurd hloc ht
  | overResume =>
      rw [hloc] at hfits
      exact hfits.elim
  | callOnResume =>
      rw [hloc] at hfits hs
      cases hs
      obtain ⟨hpos, hlast, hshare⟩ := hfits
      exact Inv.turn hidle (hi.alternating.resume (by simpa using hlast)) hi.count hi.range
        ⟨hpos, by simp, hshare⟩
  | callOnSuspend =>
      rw [hloc] at hfits hs
      cases hs
      obtain ⟨hzero, hlast, hshare⟩ := hfits
      exact Inv.turn hidle (hi.alternating.suspend (hlast.mpr trivial)) hi.count hi.range
        ⟨hzero, by simp, hshare⟩
  | dispatchResume =>
      rw [hloc] at hfits hs
      obtain ⟨hpos, hlast, hshare⟩ := hfits
      have hge : suspendInterval ≤ s.mem.doSuspendCnt := by
        rw [hshare]
        unfold suspendInterval
        omega
      have hsuspended : ¬ (s.mem.doSuspendCnt = suspendLock ∨ s.mem.doSuspendCnt = 0) := by
        unfold suspendInterval suspendLock at *
        omega
      simp only [step, dispatchResume, if_neg hsuspended] at hs
      cases hs
      refine Inv.turn hidle hi.alternating hi.count hi.range ?_
      simp only [Fits, hpos, hpos.ne', if_false]
      refine ⟨by simpa using hlast, ?_⟩
      simp only
      rw [hshare]
      unfold suspendInterval
      omega
  | dispatchSuspend =>
      rw [hloc] at hfits hs
      cases hs
      obtain ⟨hzero, hlast, hshare⟩ := hfits
      refine Inv.turn hidle hi.alternating hi.count hi.range ?_
      simp only [Fits, dispatchSuspend, hzero, lt_irrefl, if_true]
      refine ⟨hlast, ?_⟩
      simp only
      rw [hshare]
      unfold suspendInterval
      omega

theorem Inv.step (hi : Inv s) {t : T} {a : Act} (hc : Orderly s t a)
    (hs : step t a s.mem (s.loc t) = some (m, l)) : Inv ⟨m, Function.update s.loc t l⟩ := by
  by_cases ht : s.loc t = .idle
  · rw [ht] at hs
    have hother : ∀ m', m'.calls = s.mem.calls → m'.running = s.mem.running →
        m'.suspendCt = s.mem.suspendCt →
        (∀ k, s.mem.doSuspendCnt = suspendInterval * (k + s.mem.others) + s.mem.locked.toNat →
          m'.doSuspendCnt = suspendInterval * (k + m'.others) + m'.locked.toNat) →
        Inv ⟨m', Function.update s.loc t .idle⟩ := by
      intro m' hcalls hrunning hct hshare
      refine hi.aside ht (by rw [hcalls]; exact hi.alternating) ?_
        (by rw [hrunning]; exact hi.range)
        fun l hl ↦ hl.of_share hcalls hrunning hshare
      rw [hct, hrunning]
      exact hi.count
    cases a with
    | resume =>
        cases hs
        exact hi.resume ht hc
    | suspend =>
        simp only [Alternation.step, Option.ite_none_right_eq_some, Option.some.injEq] at hs
        obtain ⟨hpos, hs⟩ := hs
        rw [Prod.ext_iff] at hs
        obtain ⟨rfl, rfl⟩ := hs
        exact hi.suspend ht hpos hc
    | go => cases hs
    | nativeSuspend =>
        cases hs
        refine hother _ rfl rfl rfl fun k hk ↦ ?_
        simp only [dispatchSuspend]
        rw [hk]
        ring
    | nativeResume =>
        simp only [Alternation.step, Option.ite_none_right_eq_some, Option.some.injEq,
          Prod.mk.injEq] at hs
        obtain ⟨hpos, rfl, rfl⟩ := hs
        refine hother _ rfl rfl rfl fun k hk ↦ ?_
        simp only
        rw [hk]
        unfold suspendInterval
        omega
    | lock =>
        simp only [Alternation.step, Option.ite_none_right_eq_some, Option.some.injEq,
          Prod.mk.injEq] at hs
        obtain ⟨hzero, rfl, rfl⟩ := hs
        refine hother _ rfl rfl rfl fun k hk ↦ ?_
        simp only [Bool.toNat_true]
        unfold suspendInterval suspendLock at *
        omega
    | unlock =>
        simp only [Alternation.step, Option.ite_none_right_eq_some, Option.some.injEq,
          Prod.mk.injEq] at hs
        obtain ⟨hlocked, rfl, rfl⟩ := hs
        refine hother _ rfl rfl rfl fun k hk ↦ ?_
        simp only [Bool.toNat_false]
        rw [hk, hlocked]
        rfl
  · have hgo : a = .go := by
      cases hl : s.loc t <;> rw [hl] at hs <;> cases a <;>
        first | exact absurd hl ht | rfl | cases hs
    subst hgo
    exact hi.callback ht hs

theorem inv_of_run (h : Pool.Runs step Orderly (initial T) s) : Inv s := by
  refine h.invariant (I := Inv) ⟨⟨.nil, by simp [initial]⟩, rfl, Nat.two_pow_pos 64, fun _ ↦ ?_,
    fun t ht ↦ ?_⟩
    fun s t a m l _ hi hc hs ↦ hi.step hc hs
  · exact ⟨by simp [initial], rfl⟩
  · exact absurd rfl ht

/-- If the count changes between 0 and 1 only while no callback is on its way, then the calls
of the callbacks alternate, beginning with `on_resume()`, and the native source is suspended
whenever it is resumed. -/
theorem callbacks_alternate (h : Pool.Runs step Orderly (initial T) s) :
    s.mem.calls.IsChain (· ≠ ·) ∧ s.mem.calls.head? ≠ some .onSuspend ∧
      ∀ t, s.loc t ≠ .overResume ∧
        (s.loc t = .dispatchResume → suspendInterval ≤ s.mem.doSuspendCnt) := by
  have hi := inv_of_run h
  refine ⟨hi.alternating.1, hi.alternating.2, fun t ↦ ⟨fun hover ↦ ?_, fun hresume ↦ ?_⟩⟩
  · have hfits := (hi.busy t (by rw [hover]; nofun)).1
    rw [hover] at hfits
    exact hfits
  · have hfits := (hi.busy t (by rw [hresume]; nofun)).1
    rw [hresume] at hfits
    rw [hfits.2.share]
    unfold suspendInterval
    omega

instance {T : Type*} [Fintype T] (s : Pool T Mem Loc) (t : T) : ∀ a, Decidable (Orderly s t a)
  | .resume => inferInstanceAs (Decidable
      (s.mem.running + 1 < uintptr ∧ (s.mem.running = 0 → ∀ u, s.loc u = .idle)))
  | .suspend => inferInstanceAs (Decidable (s.mem.running = 1 → ∀ u, s.loc u = .idle))
  | .go | .nativeSuspend | .nativeResume | .lock | .unlock => inferInstanceAs (Decidable True)

/-- Two threads resume and suspend a source one after the other. -/
def orderlyState : Pool (Fin 2) Mem Loc :=
  ((initial (Fin 2)).run step Orderly
    [(0, .resume), (1, .resume), (0, .go), (0, .go), (1, .suspend), (1, .suspend), (1, .go),
      (1, .go), (0, .resume), (0, .go)]).get (by decide)

theorem callbacks_alternate_orderly :
    orderlyState.mem.calls = [.onResume, .onSuspend, .onResume] ∧
      orderlyState.mem.calls.IsChain (· ≠ ·) ∧ orderlyState.mem.calls.head? ≠ some .onSuspend ∧
      ∀ t, orderlyState.loc t ≠ .overResume ∧
        (orderlyState.loc t = .dispatchResume → suspendInterval ≤ orderlyState.mem.doSuspendCnt) :=
  ⟨by decide, callbacks_alternate (Pool.runs_get _)⟩

/-- Between the resumes of two threads a third one suspends, and its callback comes too
late. -/
def overtakenState : Pool (Fin 3) Mem Loc :=
  ((initial (Fin 3)).run step (fun _ _ _ ↦ True)
    [(0, .resume), (1, .suspend), (2, .resume), (0, .go), (0, .go), (2, .go), (2, .go)]).get
      (by decide)

/-- `on_resume()` is called twice in a row, and the native source is over-resumed. -/
theorem callbacks_overtake :
    Pool.Runs step (fun _ _ _ ↦ True) (initial (Fin 3)) overtakenState ∧
      overtakenState.mem.calls = [.onResume, .onResume] ∧ overtakenState.loc 2 = .overResume :=
  ⟨Pool.runs_get _, by decide, by decide⟩

end LibDispatch.Wrapper.Alternation
