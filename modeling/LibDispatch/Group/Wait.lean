import LibDispatch.Group.Members

/-!
# Waiting for a group

Every waiter that sleeps, or is about to, is counted once: in
`dsema_group_waiters`, in the posts that a wake has yet to make, or in the
kernel.  While a group without members has registered waiters, some thread is
on its way to exchange their number and post for them.  Both accounts need that
the number fits into the variable of type `uint32_t` it passes through, and that
no enter has to sleep on the same kernel semaphore.
-/

namespace LibDispatch.Group

open Interleaving

variable {α ν T : Type*}

/-- The steps that keep the count of the waiters: an enter finds a positive value,
an increment of `dsema_group_waiters` does not wrap, and a wake finds a number of
waiters that fits into 32 bits. -/
def waitersFit (s : Pool T (Mem α ν) (Loc α)) (t : T) (a : Act α ν) : Bool :=
  match s.loc t, a with
  | .idle, .enter => 0 < s.mem.dsema.dsemaValue
  | .waitRegister _, .go => s.mem.dsemaGroupWaiters ≠ longMax
  | .wakeWaiters _ _, .go => s.mem.dsemaGroupWaiters < 2 ^ 32
  | _, _ => true

def Loc.Blocked : Loc α → Prop
  | .timedWait _ | .kernelWait _ => True
  | _ => False

/-- Not inside leave, notify or wake, and not between two steps of a wait. -/
def Loc.Resting : Loc α → Prop
  | .idle | .entering _ | .timedWait _ | .kernelWait _ => True
  | _ => False

structure WaitSound (s : Pool T (Mem α ν) (Loc α)) : Prop where
  returned_zero : ∀ r ∈ s.mem.returns, r.timedOut = false → r.sawEmpty
  no_sleeper : s.mem.dsema.dsemaValue = dsemaOrig → (∀ t, (s.loc t).Resting) →
    s.mem.dsema.ksem = 0 → ∀ t, ¬ (s.loc t).Blocked

/-! ## The accounts -/

def Fits (m : Mem α ν) : Loc α → Prop
  | .waitRegister _ => m.dsemaGroupWaiters ≠ longMax
  | .wakeWaiters _ _ => m.dsemaGroupWaiters < 2 ^ 32
  | _ => True

/-- One for each waiter that sleeps or is about to. -/
def Loc.sleeping : Loc α → ℤ
  | .waitRecheck _ | .timedWait _ | .undo _ | .undoSwap _ _ | .kernelWait _ => 1
  | _ => 0

def Loc.posts : Loc α → ℤ
  | .wakePost _ _ rval => rval
  | _ => 0

/-- On the way to exchange the number of the waiters if the group is empty. -/
def Loc.Attending : Loc α → Prop
  | .leaving _ | .leaveCheck | .waitRecheck _ | .wake _ | .wakeWaiters _ _ => True
  | _ => False

theorem Loc.sleeping_nonneg (l : Loc α) : 0 ≤ l.sleeping := by
  unfold Loc.sleeping
  split <;> decide

theorem Loc.Blocked.sleeping_eq {l : Loc α} (h : l.Blocked) : l.sleeping = 1 := by
  unfold Loc.Blocked at h
  split at h
  · rfl
  · rfl
  · exact h.elim

theorem Loc.Resting.posts_eq {l : Loc α} (h : l.Resting) : l.posts = 0 := by
  unfold Loc.posts
  split
  · exact h.elim
  · rfl

theorem Loc.Resting.not_attending {l : Loc α} (h : l.Resting) : ¬ l.Attending := by
  unfold Loc.Resting at h
  split at h
  all_goals first | exact id | exact h.elim

/-- A number of waiters to be decremented is not zero. -/
def Loc.OrigPos : Loc α → Prop
  | .undoSwap _ orig => 0 < orig
  | _ => True

variable [DecidableEq α]

theorem Trans.waiters_range {m m' : Mem α ν} {l l' : Loc α} (h : Trans m l m' l')
    (hfit : Fits m l) (hl : l.OrigPos)
    (hr : 0 ≤ m.dsemaGroupWaiters ∧ m.dsemaGroupWaiters ≤ longMax) :
    (0 ≤ m'.dsemaGroupWaiters ∧ m'.dsemaGroupWaiters ≤ longMax) ∧ l'.OrigPos := by
  have hmax : (0 : ℤ) ≤ longMax := by decide
  cases h <;> try exact ⟨hr, trivial⟩
  case register =>
    have hne : m.dsemaGroupWaiters ≠ longMax := hfit
    have hwrap : wrap (m.dsemaGroupWaiters + 1) = m.dsemaGroupWaiters + 1 :=
      wrap_of_mem (by unfold longMin; omega) (by omega)
    simp only [hwrap]
    exact ⟨⟨by omega, by omega⟩, trivial⟩
  case undoing hne => exact ⟨hr, lt_of_le_of_ne hr.1 hne.symm⟩
  case undone orig heq =>
    have hpos : 0 < orig := hl
    refine ⟨⟨?_, ?_⟩, trivial⟩ <;> simp only <;> omega
  all_goals exact ⟨⟨le_rfl, hmax⟩, trivial⟩

theorem Trans.sleeping_le {m m' : Mem α ν} {l l' : Loc α} (h : Trans m l m' l')
    (hfit : Fits m l) (hr : 0 ≤ m.dsemaGroupWaiters ∧ m.dsemaGroupWaiters ≤ longMax)
    (hfast : ∀ l₁, l ≠ .entering l₁ ∧ l ≠ .leaving l₁) :
    m.dsema.ksem + m.dsemaGroupWaiters - (l.sleeping - l.posts) ≤
      m'.dsema.ksem + m'.dsemaGroupWaiters - (l'.sleeping - l'.posts) := by
  have htokens : m.dsemaGroupWaiters < 2 ^ 32 → (m.tokens : ℤ) = m.dsemaGroupWaiters := by
    intro hlt
    rw [Mem.tokens, Int.emod_eq_of_lt hr.1 hlt, Int.toNat_of_nonneg hr.1]
  cases h
  case entering l _ _ _ _ | entered l _ => exact ((hfast l).1 rfl).elim
  case leaving l _ _ _ | left l _ => exact ((hfast l).2 rfl).elim
  case register =>
    have hne : m.dsemaGroupWaiters ≠ longMax := hfit
    have hwrap : wrap (m.dsemaGroupWaiters + 1) = m.dsemaGroupWaiters + 1 :=
      wrap_of_mem (by unfold longMin; omega) (by omega)
    simp only [hwrap, Loc.sleeping, Loc.posts]
    omega
  case takeWaiters | noWaitersSubmit | noWaitersReturn =>
    have htok := htokens hfit
    simp only [Loc.sleeping, Loc.posts]
    omega
  all_goals simp_all only [Loc.sleeping, Loc.posts, Mem.enterReturned, Mem.leaveSignalled]
  all_goals omega

theorem Trans.attending {m m' : Mem α ν} {l l' : Loc α} (h : Trans m l m' l')
    (hval : 0 ≤ m.dsema.dsemaValue ∧ m.dsema.dsemaValue ≤ longMax)
    (horig : m'.dsema.dsemaValue = dsemaOrig) (hpos : 0 < m'.dsemaGroupWaiters) :
    l'.Attending ∨
      ((m.dsema.dsemaValue = dsemaOrig ∧ 0 < m.dsemaGroupWaiters) ∧ ¬ l.Attending) := by
  have henter : wrap (m.dsema.dsemaValue - 1) ≠ dsemaOrig := by
    rw [wrap_of_mem (by unfold longMin; omega) (by omega)]
    unfold dsemaOrig
    omega
  cases h <;> simp_all [Loc.Attending, Mem.enterReturned]
  case undone => omega

theorem Trans.members_le {m m' : Mem α ν} {l l' : Loc α} (h : Trans m l m' l')
    (hle : (m.members : ℤ) ≤ dsemaOrig) (hval : m.dsema.dsemaValue = dsemaOrig - m.members)
    (hcard : m.openEnters.card ≤ m.members)
    (henter : m.members < m'.members → 0 < m.dsema.dsemaValue)
    (hfast : ∀ l₁, l ≠ .entering l₁ ∧ l ≠ .leaving l₁) :
    (m'.members : ℤ) ≤ dsemaOrig ∧ ∀ l₁, l' ≠ .entering l₁ ∧ l' ≠ .leaving l₁ := by
  have hdec : wrap (m.dsema.dsemaValue - 1) = m.dsema.dsemaValue - 1 := by
    apply wrap_of_mem <;> simp only [dsemaOrig, longMin, longMax] at * <;> omega
  cases h
  case enter hge =>
    simp only [Mem.enterReturned, hdec] at hge ⊢
    exact ⟨by omega, by simp⟩
  case enterSlow l₁ _ _ hlt _ =>
    have hpos := henter (Nat.lt_succ_self _)
    omega
  case entering l₁ _ _ _ _ => exact ((hfast l₁).1 rfl).elim
  case leaving l₁ _ _ _ => exact ((hfast l₁).2 rfl).elim
  case leave e he _ _ _ =>
    simp only [Mem.leaveSignalled]
    exact ⟨by omega, by simp⟩
  case leaveSlow e _ he _ _ hneg _ =>
    have hpos : 0 < m.members := lt_of_lt_of_le (Finset.card_pos.mpr ⟨e, he⟩) hcard
    have hinc : wrap (m.dsema.dsemaValue + 1) = m.dsema.dsemaValue + 1 := by
      apply wrap_of_mem <;> simp only [dsemaOrig, longMin, longMax] at * <;> omega
    omega
  all_goals exact ⟨hle, by simp⟩

/-! ## Calls that return zero -/

def Loc.call : Loc α → Option WaitCall
  | .waitCheck call | .waitRegister call | .waitRecheck call | .timedWait call | .undo call
  | .undoSwap call _ | .kernelWait call => some call
  | _ => none

def Loc.caller : Loc α → Option Caller
  | .wake c | .wakeWaiters c _ | .wakePost c _ _ | .wakeSubmit c _ | .wakeNext c _
  | .wakeReset c _ | .wakeFree c _ _ | .wakeFreeLast c _ _ | .wakeRelease c _ => some c
  | _ => none

/-- What is known of the call of `dispatch_group_wait` that a thread is in: if it
has made a wake, then the group was empty. -/
def CallSound (m : Mem α ν) (l : Loc α) : Prop :=
  (∀ call, l.call = some call → Past call.began m) ∧
    ∀ call, l.caller = some (.wait call) → m.emptySince call.began

omit [DecidableEq α] in
theorem CallSound.returns {m : Mem α ν} {c : Caller}
    (hwake : ∀ call, c = .wait call → m.emptySince call.began)
    (hret : ∀ r ∈ m.returns, r.timedOut = false → r.sawEmpty) :
    ∀ r ∈ c.returns m, r.timedOut = false → r.sawEmpty := by
  cases c with
  | leave => exact hret
  | notify => exact hret
  | wait call => simpa [Caller.returns] using ⟨hwake call rfl, hret⟩

theorem Trans.callSound {m m' : Mem α ν} {l l' : Loc α} (h : Trans m l m' l')
    (hempty : m.dsema.dsemaValue = dsemaOrig → m.members = 0) (hl : CallSound m l) :
    CallSound m' l' := by
  have hpast : ∀ k, Past k m → Past k m' := fun k hk ↦ h.past hk
  have hsince : ∀ k, m.emptySince k → m'.emptySince k := fun k hk ↦ h.emptySince_mono hk
  have hnow : Past m.now m := past_now m
  obtain ⟨hcall, hwake⟩ := hl
  cases h
  case wait =>
    refine ⟨fun call heq ↦ ?_, fun call heq ↦ (nomatch heq)⟩
    cases heq
    exact hnow
  case checkEmpty hval | recheckEmpty hval =>
    refine ⟨fun call heq ↦ (nomatch heq), fun call heq ↦ ?_⟩
    cases heq
    exact (hcall _ rfl).emptySince (hempty hval)
  all_goals
    refine ⟨fun call heq ↦ ?_, fun call heq ↦ ?_⟩
    · first
        | exact hpast _ (hcall call heq)
        | cases heq
    · first
        | exact hsince _ (hwake call heq)
        | cases heq

theorem Trans.returned_zero {m m' : Mem α ν} {l l' : Loc α} (h : Trans m l m' l')
    (hempty : m.dsema.dsemaValue = dsemaOrig → m.members = 0) (hl : CallSound m l)
    (hret : ∀ r ∈ m.returns, r.timedOut = false → r.sawEmpty) :
    ∀ r ∈ m'.returns, r.timedOut = false → r.sawEmpty := by
  cases h <;> try exact hret
  case waitEmpty hval =>
    simpa using ⟨(past_now m).emptySince (hempty hval), hret⟩
  case waitNow | undone => simpa using hret
  all_goals exact CallSound.returns (fun call heq ↦ hl.2 call (heq ▸ rfl)) hret

/-! ## Whole runs -/

theorem fits_of_waitersFit {s : Pool T (Mem α ν) (Loc α)} {t : T} {a : Act α ν}
    {m : Mem α ν} {l : Loc α} (hC : waitersFit s t a)
    (hP : step t a s.mem (s.loc t) = some (m, l)) : Fits s.mem (s.loc t) := by
  unfold waitersFit at hC
  generalize s.loc t = l₀ at hC hP
  cases l₀ <;> try trivial
  all_goals cases a <;> first | simpa [Fits] using hC | simp [step] at hP

section Runs

variable [DecidableEq T] {dsnNext : α → Option α} {dsn : α → Notification ν}
  {s : Pool T (Mem α ν) (Loc α)}

theorem waiters_range (h : Pool.Runs step (waitersFit · · ·) (created dsnNext dsn) s) :
    (0 ≤ s.mem.dsemaGroupWaiters ∧ s.mem.dsemaGroupWaiters ≤ longMax) ∧
      ∀ t, (s.loc t).OrigPos := by
  refine h.invariant (I := fun s ↦ (0 ≤ s.mem.dsemaGroupWaiters ∧
    s.mem.dsemaGroupWaiters ≤ longMax) ∧ ∀ t, (s.loc t).OrigPos)
    ⟨by simp [created, dispatchGroupCreate, longMax], fun _ ↦ trivial⟩ ?_
  rintro s t a m l hr ⟨hrange, hpos⟩ hC hP
  have hstep := (trans_of_run hr hP).waiters_range (fits_of_waitersFit hC hP) (hpos t) hrange
  refine ⟨hstep.1, fun u ↦ ?_⟩
  rcases eq_or_ne u t with rfl | hu
  · simpa using hstep.2
  · simpa [hu] using hpos u

variable [Fintype T]

/-- The members never outnumber the original value, so that no nested semaphore call
takes its slow path. -/
theorem members_le_orig (h : Pool.Runs step (waitersFit · · ·) (created dsnNext dsn) s) :
    (s.mem.members : ℤ) ≤ dsemaOrig ∧ ∀ t l, s.loc t ≠ .entering l ∧ s.loc t ≠ .leaving l := by
  refine h.invariant (I := fun s ↦ (s.mem.members : ℤ) ≤ dsemaOrig ∧
    ∀ t l, s.loc t ≠ .entering l ∧ s.loc t ≠ .leaving l) ⟨by simp [created,
      dispatchGroupCreate, dsemaOrig, longMax], by simp [created]⟩ ?_
  rintro s t a m l hr ⟨hle, hfast⟩ hC hP
  have hval : s.mem.dsema.dsemaValue = dsemaOrig - s.mem.members := by
    rw [value_eq_wrap hr, wrap_of_mem] <;> simp only [dsemaOrig, longMin, longMax] at * <;> omega
  obtain ⟨hle', hfast'⟩ := (trans_of_run hr hP).members_le hle hval (card_openEnters_le hr)
    (fun hlt ↦ by
      obtain ⟨hidle, rfl⟩ := eq_enter_of_members_lt (sound_of_run hr t) hP hlt
      simpa [waitersFit, hidle] using hC) (hfast t)
  refine ⟨hle', fun u l₁ ↦ ?_⟩
  rcases eq_or_ne u t with rfl | hu
  · simpa using hfast' l₁
  · simpa [hu] using hfast u l₁

theorem value_eq_sub (h : Pool.Runs step (waitersFit · · ·) (created dsnNext dsn) s) :
    s.mem.dsema.dsemaValue = dsemaOrig - s.mem.members := by
  have hle := (members_le_orig h).1
  rw [value_eq_wrap h, wrap_of_mem] <;> simp only [dsemaOrig, longMin, longMax] at * <;> omega

theorem sleeping_account (h : Pool.Runs step (waitersFit · · ·) (created dsnNext dsn) s) :
    ∑ t, ((s.loc t).sleeping - (s.loc t).posts) ≤
      s.mem.dsema.ksem + s.mem.dsemaGroupWaiters := by
  refine h.invariant (I := fun s ↦ ∑ t, ((s.loc t).sleeping - (s.loc t).posts) ≤
    (s.mem.dsema.ksem : ℤ) + s.mem.dsemaGroupWaiters)
    (by simp [created, dispatchGroupCreate, Loc.sleeping, Loc.posts]) ?_
  intro s t a m l hr hI hC hP
  have hle := (trans_of_run hr hP).sleeping_le (fits_of_waitersFit hC hP)
    (waiters_range hr).1 ((members_le_orig hr).2 t)
  have hsum := Pool.sum_update (fun _ (l : Loc α) ↦ l.sleeping - l.posts) s.loc t l
  simp only [hsum]
  linarith

theorem exists_attending (h : Pool.Runs step (waitersFit · · ·) (created dsnNext dsn) s) :
    s.mem.dsema.dsemaValue = dsemaOrig ∧ 0 < s.mem.dsemaGroupWaiters →
      ∃ t, (s.loc t).Attending := by
  refine h.exists_loc (N := fun m ↦ m.dsema.dsemaValue = dsemaOrig ∧ 0 < m.dsemaGroupWaiters)
    (by simp [created, dispatchGroupCreate]) ?_
  rintro s t a m l hr - hP ⟨horig, hpos⟩
  have hle := (members_le_orig hr).1
  have hval := value_eq_sub hr
  exact (trans_of_run hr hP).attending ⟨by omega, by simp only [dsemaOrig] at *; omega⟩
    horig hpos

theorem callSound_of_run (h : Pool.Runs step (waitersFit · · ·) (created dsnNext dsn) s) :
    (∀ t, CallSound s.mem (s.loc t)) ∧
      ∀ r ∈ s.mem.returns, r.timedOut = false → r.sawEmpty := by
  refine h.invariant (I := fun s ↦ (∀ t, CallSound s.mem (s.loc t)) ∧
    ∀ r ∈ s.mem.returns, r.timedOut = false → r.sawEmpty)
    ⟨fun t ↦ ⟨nofun, nofun⟩, by simp [created, dispatchGroupCreate]⟩ ?_
  rintro s t a m l hr ⟨hcall, hret⟩ - hP
  have htrans := trans_of_run hr hP
  have hempty : s.mem.dsema.dsemaValue = dsemaOrig → s.mem.members = 0 := by
    have hval := value_eq_sub hr
    omega
  refine ⟨fun u ↦ ?_, htrans.returned_zero hempty (hcall t) hret⟩
  rcases eq_or_ne u t with rfl | hu
  · simpa using htrans.callSound hempty (hcall u)
  · simp only [Function.update_of_ne hu]
    exact ⟨fun call heq ↦ htrans.past ((hcall u).1 call heq),
      fun call heq ↦ htrans.emptySince_mono ((hcall u).2 call heq)⟩

/-- As long as the count of the waiters is kept, a wait returns zero only if the
group was empty during the call, and nobody sleeps on an empty group. -/
theorem waitSound_of_waitersFit {dsnNext : α → Option α} {dsn : α → Notification ν}
    {s : Pool T (Mem α ν) (Loc α)} (h : Pool.Runs step (waitersFit · · ·) (created dsnNext dsn) s) :
    WaitSound s := by
  refine ⟨(callSound_of_run h).2, fun horig hrest hk t hblocked ↦ ?_⟩
  have hnone : ¬ 0 < s.mem.dsemaGroupWaiters := fun hpos ↦ by
    obtain ⟨u, hu⟩ := exists_attending h ⟨horig, hpos⟩
    exact (hrest u).not_attending hu
  have hacc := sleeping_account h
  have hposts : ∀ u, (s.loc u).posts = 0 := fun u ↦ (hrest u).posts_eq
  have hone : (s.loc t).sleeping = 1 := hblocked.sleeping_eq
  simp only [hposts, sub_zero] at hacc
  have hle := Finset.single_le_sum (fun u _ ↦ (s.loc u).sleeping_nonneg) (Finset.mem_univ t)
  have hrange := (waiters_range h).1
  rw [hone] at hle
  simp only [hk] at hacc
  push_cast at hacc
  linarith

/-- One thread enters and leaves while another waits for it. -/
theorem waitSound_of_waitersFit_pair :
    ∃ s : Pool Bool (Mem ℕ Unit) (Loc ℕ), s.mem.returns = [⟨false, true⟩] ∧ WaitSound s :=
  ⟨((created (fun _ ↦ none) fun _ ↦ ⟨(), ∅, ⟨true, 0⟩⟩).run step (waitersFit · · ·)
      [(true, .enter), (false, .wait .forever), (false, .go), (false, .go), (false, .go),
        (true, .leave 0), (true, .go), (true, .go), (true, .go), (true, .go), (false, .go),
        (false, .go), (false, .go), (false, .go)]).get (by decide), by decide,
    waitSound_of_waitersFit (Pool.runs_get _)⟩

end Runs

/-! ## Too many waiters -/

section Crowd

variable {W : Type*} [DecidableEq W]

/-- A group with one member and `waiters` registered waiters. -/
def crowdedGroup (waiters : ℤ) : Mem ℕ Unit :=
  { dispatchGroupCreate (fun _ ↦ none) (fun _ ↦ ⟨(), ∅, ⟨true, 0⟩⟩) with
    dsema := ⟨longMax - 1, 0, 0, 0, [⟨false, -1, 0⟩]⟩
    dsemaGroupWaiters := waiters
    members := 1
    entered := 1
    openEnters := {0} }

/-- The threads `W` wait, those in `S` already in the kernel, for the one member. -/
def crowd (S : Finset W) : Pool (Option W) (Mem ℕ Unit) (Loc ℕ) :=
  ⟨crowdedGroup S.card, fun t ↦
    match t with
    | none => .idle
    | some w => if w ∈ S then .kernelWait ⟨.forever, ⟨false, 0⟩⟩ else .idle⟩

theorem crowd_insert {S : Finset W} {w : W} (hw : w ∉ S) (hS : (S.card : ℤ) < longMax) :
    Pool.Reachable step (crowd S) (crowd (insert w S)) := by
  let call : WaitCall := ⟨.forever, ⟨false, 0⟩⟩
  have hwrap : wrap (S.card + 1) = S.card + 1 :=
    wrap_of_mem (by unfold longMin; omega) (by omega)
  have hne : longMax - 1 ≠ dsemaOrig := by decide
  have hwait : Pool.Alone step (some w) (crowdedGroup S.card, .idle)
      (crowdedGroup S.card, .waitCheck call) := ⟨.wait .forever, congrArg some (if_neg hne)⟩
  have hcheck : Pool.Alone step (some w) (crowdedGroup S.card, .waitCheck call)
      (crowdedGroup S.card, .waitRegister call) := ⟨.go, by
        simp [step, dispatchGroupNotifyPush, dispatchGroupWaitSlow, crowdedGroup, hne]⟩
  have hregister : Pool.Alone step (some w) (crowdedGroup S.card, .waitRegister call)
      (crowdedGroup (S.card + 1), .waitRecheck call) := ⟨.go, by
        simp [step, dispatchGroupNotifyPush, dispatchGroupWaitSlow, crowdedGroup, hwrap]⟩
  have hrecheck : Pool.Alone step (some w) (crowdedGroup (S.card + 1), .waitRecheck call)
      (crowdedGroup (S.card + 1), .kernelWait call) := ⟨.go, by
        simp [step, dispatchGroupNotifyPush, dispatchGroupWaitSlow, crowdedGroup, hne, call]⟩
  have hidle : (crowd S).loc (some w) = .idle := if_neg hw
  have halone := Relation.ReflTransGen.single hwait |>.tail hcheck |>.tail hregister
    |>.tail hrecheck
  have hrun := (Pool.Runs.of_alone hidle halone).reachable
  have hend : crowd (insert w S) = ⟨crowdedGroup (S.card + 1),
      Function.update (crowd S).loc (some w) (.kernelWait call)⟩ := by
    refine Pool.ext ?_ (funext fun t ↦ ?_)
    · simp [crowd, hw]
    · rcases t with - | u
      · simp [crowd]
      · rcases eq_or_ne u w with rfl | hu <;> simp [crowd, call, *]
  rw [hend]
  exact hrun

theorem reachable_crowd (S : Finset W) (hS : (S.card : ℤ) ≤ longMax) :
    Pool.Reachable step (crowd ∅) (crowd S) := by
  induction S using Finset.induction_on with
  | empty => exact .refl
  | insert w S hw ih =>
      rw [Finset.card_insert_of_notMem hw, Nat.cast_succ] at hS
      exact (ih (by omega)).trans (crowd_insert hw (by omega))

def leftGroup (waiters : ℤ) : Mem ℕ Unit :=
  { crowdedGroup waiters with
    dsema := ⟨dsemaOrig, 0, 0, 1, [⟨false, -1, 0⟩]⟩
    members := 0
    openEnters := ∅
    emptied := 1 }

theorem crowd_leave (S : Finset W) (hS : (S.card : ℤ) % 2 ^ 32 = 0) :
    ∃ s : Pool (Option W) (Mem ℕ Unit) (Loc ℕ), Pool.Reachable step (crowd S) s ∧
      s.mem.dsema.dsemaValue = dsemaOrig ∧ s.mem.dsema.ksem = 0 ∧ s.loc = (crowd S).loc := by
  have hwrap : wrap longMax = dsemaOrig := by decide
  have hpos : 0 < dsemaOrig := by decide
  have hleave : Pool.Alone step (none : Option W) (crowdedGroup S.card, .idle)
      (leftGroup S.card, .leaveCheck) := ⟨.leave 0, by
        simp [step, dispatchGroupLeave, leaveReturn, Semaphore.dispatchSemaphoreSignal,
          Mem.leaveSignalled, crowdedGroup, leftGroup, dispatchGroupCreate, hwrap, hpos]⟩
  have hcheck : Pool.Alone step (none : Option W) (leftGroup S.card, .leaveCheck)
      (leftGroup S.card, .wake .leave) := ⟨.go, by simp [step, leftGroup]⟩
  have hwake : Pool.Alone step (none : Option W) (leftGroup S.card, .wake .leave)
      (leftGroup S.card, .wakeWaiters .leave none) := ⟨.go, rfl⟩
  -- the number of waiters, cut to 32 bits, is zero
  have hwaiters : Pool.Alone step (none : Option W) (leftGroup S.card, .wakeWaiters .leave none)
      (leftGroup 0, .idle) := by
    have hrval : ((S.card : ℤ) % 2 ^ 32).toNat = 0 := by rw [hS]; rfl
    refine ⟨.go, ?_⟩
    change (if ((S.card : ℤ) % 2 ^ 32).toNat ≠ 0 then _ else _) = _
    rw [if_neg (not_not.mpr hrval)]
    rfl
  have halone := Relation.ReflTransGen.single hleave |>.tail hcheck |>.tail hwake
    |>.tail hwaiters
  have hrun := (Pool.Runs.of_alone (s := crowd S) rfl halone).reachable
  exact ⟨_, hrun, rfl, rfl, Function.update_eq_self none (crowd S).loc⟩

theorem reachable_crowd_empty :
    Pool.Reachable step (created (T := Option W) (fun _ ↦ none) fun _ ↦ ⟨(), ∅, ⟨true, 0⟩⟩)
      (crowd ∅) := by
  have hwrap : wrap (dsemaOrig - 1) = longMax - 1 := by decide
  have hge : 1 ≤ longMax := by decide
  have hadded : longMax - 1 - dsemaOrig = -1 := by decide
  refine Pool.runs_of_run [(none, .enter)] ?_
  simp [Pool.run, Pool.step, crowd, created, step, dispatchGroupEnter, enterReturn,
    Semaphore.dispatchSemaphoreWait, Semaphore.Mem.returned, Mem.enterReturned,
    crowdedGroup, dispatchGroupCreate, hwrap, hge, hadded]
  funext t
  cases t <;> simp

/-- With `2 ^ 32` waiters the last leave wakes none of them. -/
theorem waitSound_fails_crowd :
    ∃ s : Pool (Option (Fin (2 ^ 32))) (Mem ℕ Unit) (Loc ℕ),
      Pool.Reachable step (created (fun _ ↦ none) fun _ ↦ ⟨(), ∅, ⟨true, 0⟩⟩) s ∧
        ¬ WaitSound s := by
  have hcard : (Finset.univ : Finset (Fin (2 ^ 32))).card = 2 ^ 32 := Finset.card_fin _
  obtain ⟨s, hreach, hval, hk, hloc⟩ := crowd_leave (Finset.univ : Finset (Fin (2 ^ 32)))
    (by rw [hcard]; rfl)
  refine ⟨s, (reachable_crowd_empty.trans (reachable_crowd _ ?_)).trans hreach,
    fun hsound ↦ ?_⟩
  · rw [hcard]
    decide
  · refine hsound.no_sleeper hval (fun t ↦ ?_) hk (some 0) ?_
    · cases t <;> simp [hloc, crowd, Loc.Resting]
    · simp [hloc, crowd, Loc.Blocked]

end Crowd

end LibDispatch.Group
