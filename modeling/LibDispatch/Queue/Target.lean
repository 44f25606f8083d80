import LibDispatch.Queue.Order
import LibDispatch.Queue.Wakeup

/-!
# Changing the target queue

A change of the target queue is an item of the queue.  The thread that drains executes it
and takes no further item; it puts the queue on the list of the new target and keeps the lock
and the reference of the old list.  So every item is taken by an invocation from the target
that the changes pushed before it have set.
-/

namespace LibDispatch.Queue

open Interleaving

variable {T Q : Type*}

def Item.target : Item T Q → Option Q
  | .setTargetQueue tq => some tq
  | _ => none

def targetAfter (q : Q) (items : List (Item T Q)) : Q :=
  items.foldl (fun q item ↦ item.target.getD q) q

/-- The record of a queue: the items pushed so far and how many of them have been popped; the
target from whose list the queue was taken last; the new target, from a change until the queue
is on a list again; and the references to other queues that it owns. -/
structure Record (T Q : Type*) where
  pushed : List (Item T Q)
  taken : ℕ
  invokedFrom : Q
  moved : Option Q
  refs : Q → ℤ

variable [DecidableEq Q]

def Record.next (_ : T) (a : Act Q) (m : Mem T Q) (l : Loc T Q) (r : Record T Q) :
    Record T Q :=
  match l, a with
  -- `dispatch_set_target_queue` retains the new target before it pushes the item
  | .idle, .setTargetQueue tq => { r with refs := Function.update r.refs tq (r.refs tq + 1) }
  | .idle, .invoke tq => { r with invokedFrom := tq }
  | .pushExchange item _, _ => { r with pushed := r.pushed ++ [item] }
  | .drainPop .., _ => { r with taken := r.taken + 1 }
  -- `_dispatch_set_target_queue2` releases the old target
  | .drainSetTarget _ tq, .go =>
      { r with
        moved := if tq = m.doTargetq then r.moved else some tq
        refs := Function.update r.refs m.doTargetq (r.refs m.doTargetq - 1) }
  | .wakeupPush .., _ | .invokePush .., _ => { r with moved := none }
  | _, _ => r

/-- A queue that has been created owns a reference to its target. -/
def Record.created (tq : Q) : Record T Q where
  pushed := []
  taken := 0
  invokedFrom := tq
  moved := none
  refs := Function.update (fun _ ↦ 0) tq 1

def targetStep [DecidableEq T] (width : ℕ) :
    Program T (Act Q) (Mem T Q × Record T Q) (Loc T Q) :=
  (step width).observe Record.next

/-! ## Places -/

/-- The new target, if the thread is about to store it. -/
def Loc.sets : Loc T Q → Option Q
  | .drainSetTarget _ tq => some tq
  | _ => none

/-- The new target of a change that the thread has in hand. -/
def Loc.changes : Loc T Q → Option Q
  | .pushExchange item _ => item.target
  | .drainSetTarget _ tq => some tq
  | l => l.held.bind Item.target

/-- In an invocation, all copies of the target queue that the thread has made are `q`. -/
def Loc.Kept (q : Q) : Loc T Q → Prop
  | .invokeTarget | .invokeSubLock | .crash | .invokeUnlock none => True
  | .invokeSuspended tq | .invokeLock tq | .drainOrig tq | .outSwap tq _ | .outFront tq _
  | .outHead tq | .invokeCompare tq => tq = q
  | .drainTail d | .drainTake d | .drainSuspended d _ | .drainRunning d _ | .drainTarget d _
  | .drainBarrier d _ | .drainPop d _ | .drainRun d | .drainSetTarget d _ | .slowSuspend d _
  | .slowSignal d _ | .slow2Add d _ | .slow2Signal d _ | .redirectAdd d | .redirectRetain d
  | .redirectAlloc d | .redirectPush d => d.tq = q ∧ d.origTq = q
  | _ => False

/-- In an invocation, the thread is bound to put the queue on the list of `q`: it will not take
another item, and finds that the target has changed. -/
def Loc.Relinks (q : Q) : Loc T Q → Prop
  | .drainTail d | .drainTake d | .drainSuspended d _ | .drainRunning d _ | .drainTarget d _ =>
      d.tq ≠ q ∧ d.origTq ≠ q
  | .outSwap tq _ | .outFront tq _ | .outHead tq | .invokeCompare tq => tq ≠ q
  | .invokeReload => True
  | .invokeUnlock (some tq) | .invokePush tq => tq = q
  | _ => False

section Steps

variable [DecidableEq T] {width : ℕ} {t : T} {m m' : Mem T Q} {l l' : Loc T Q}

theorem Trans.invoking (h : Trans width t m l m' l') (hl' : l'.invoking) :
    l.invoking ∨ l = .idle ∧ l' = .invokeTarget := by
  cases h
  case invoke => exact .inr ⟨rfl, rfl⟩
  case suspendInner => exact .inl hl'
  case release k | pushLink k | wakeupSuspended k _ | wakeupEmpty k _ | wakeupMissed k _ |
      wakeupPush k => cases k <;> cases hl'
  case resumeInner | resumeOuter | barrierResume =>
    rcases resumeLoc_cases m with h | h | h <;> rw [h] at hl' <;> cases hl'
  case drainOut hl =>
    rcases hl with ⟨rfl, -⟩ | ⟨rfl, -⟩ | ⟨rfl, -⟩ | ⟨rfl, -⟩ <;> exact .inl rfl
  all_goals first | exact .inl rfl | cases hl'

theorem Trans.kept (h : Trans width t m l m' l') (hl : l.Kept m.doTargetq) (hl' : l'.invoking) :
    l'.Kept m'.doTargetq ∨
      ∃ d tq, l = .drainSetTarget d tq ∧ tq ≠ m.doTargetq ∧ l'.Relinks m'.doTargetq := by
  cases h
  case drainSetTarget d tq =>
    obtain ⟨htq, horig⟩ := hl
    rcases eq_or_ne tq m.doTargetq with rfl | hne
    · left
      rcases drainLoop_cases (T := T) d with h | h <;> rw [h] <;> exact ⟨htq, horig⟩
    · refine .inr ⟨d, tq, rfl, hne, ?_⟩
      rcases drainLoop_cases (T := T) d with h | h <;> rw [h] <;>
        exact ⟨fun heq ↦ hne (heq.symm.trans htq), fun heq ↦ hne (heq.symm.trans horig)⟩
  case invokeMoved hne => exact (hne hl).elim
  case drainRun d | slowSignal d _ | slow2Signal d _ | redirectPush d =>
    left
    rcases drainLoop_cases (T := T) d with h | h <;> rw [h] <;> exact hl
  case drainPop d dc =>
    left
    cases dc <;> simp only [drainCall]
    case async => split <;> exact hl
    all_goals exact hl
  case drainOut d dc hout =>
    left
    rcases drainOut_eq d dc with ⟨ho, -⟩ | ⟨ho, -⟩ <;> rw [ho] <;>
      rcases hout with ⟨rfl, -⟩ | ⟨rfl, -⟩ | ⟨rfl, -⟩ | ⟨rfl, -⟩ <;> exact hl.1
  case invokeTarget => exact .inl rfl
  case drainOrig => exact .inl ⟨hl, rfl⟩
  case drainDone => exact .inl hl.1
  case release | pushLink | wakeupSuspended | wakeupEmpty | wakeupMissed | wakeupPush |
      barrierResume | barrierRun => exact hl.elim
  all_goals first | exact .inl hl | exact .inl trivial | exact hl.elim | cases hl'

theorem Trans.relinks (h : Trans width t m l m' l') (hl : l.Relinks m.doTargetq)
    (hl' : l'.invoking) : l'.Relinks m'.doTargetq ∧ m'.doTargetq = m.doTargetq := by
  cases h
  case suspendInner hexec => exact ⟨hl, rfl⟩
  case drainTarget heq _ _ | drainTargetPop heq _ => exact (hl.2 heq).elim
  case drainOut d dc hout =>
    refine ⟨?_, rfl⟩
    rcases hout with ⟨rfl, -⟩ | ⟨rfl, -⟩ | ⟨rfl, -⟩ | ⟨rfl, -⟩
    case inr.inr.inr => exact hl.elim
    all_goals rcases drainOut_eq d dc with ⟨ho, -⟩ | ⟨ho, -⟩ <;> rw [ho] <;> exact hl.1
  case drainDone => exact ⟨hl.1, rfl⟩
  case invokeCompare heq => exact (hl heq).elim
  all_goals
    first
    | exact ⟨hl, rfl⟩
    | exact ⟨trivial, rfl⟩
    | exact ⟨rfl, rfl⟩
    | exact hl.elim
    | cases hl'

/-- The thread that is bound to put the queue on a list stays in the invocation until it does
so. -/
theorem Trans.relinked {q : Q} (h : Trans width t m l m' l') (hl : l.Relinks q)
    (hl' : l'.invoking = false) :
    l = .invokePush q ∧ m' = { m with linked := q :: m.linked } ∧ l' = .idle := by
  cases h
  case suspendInner hexec => cases l <;> first | exact hl.elim | cases hexec
  case invokePush =>
    obtain rfl : _ = q := hl
    exact ⟨rfl, rfl, rfl⟩
  case drainOut d dc hout =>
    rcases drainOut_eq d dc with ⟨ho, -⟩ | ⟨ho, -⟩ <;> rw [ho] at hl' <;> cases hl'
  all_goals first | exact hl.elim | cases hl'

/-- One for a change to `q`. -/
def changeTo (q : Q) (target : Option Q) : ℤ := if target = some q then 1 else 0

omit [DecidableEq T] in
@[simp] theorem changeTo_none (q : Q) : changeTo q none = 0 := rfl

/-- The changes to `q` on the list. -/
def pendingTo (q : Q) (items : List (Item T Q)) : ℤ :=
  (items.map fun item ↦ changeTo q item.target).sum

omit [DecidableEq T] in
theorem pendingTo_cons (q : Q) (item : Item T Q) (items : List (Item T Q)) :
    pendingTo q (item :: items) = changeTo q item.target + pendingTo q items := by
  simp [pendingTo]

omit [DecidableEq T] in
theorem pendingTo_append (q : Q) (items : List (Item T Q)) (item : Item T Q) :
    pendingTo q (items ++ [item]) = pendingTo q items + changeTo q item.target := by
  simp [pendingTo]

omit [DecidableEq T] [DecidableEq Q] in
theorem changes_drainCall (width : ℕ) (d : Drain Q) (dc : Item T Q) :
    (drainCall width d dc).changes = dc.target ∧ (drainCall width d dc).sets = dc.target := by
  cases dc <;> simp only [drainCall]
  case async => split <;> exact ⟨rfl, rfl⟩
  all_goals exact ⟨rfl, rfl⟩

omit [DecidableEq T] [DecidableEq Q] in
theorem changes_drainLoop (d : Drain Q) :
    (drainLoop d : Loc T Q).changes = none ∧ (drainLoop d : Loc T Q).sets = none := by
  rcases drainLoop_cases (T := T) d with h | h <;> rw [h] <;> exact ⟨rfl, rfl⟩

omit [DecidableEq T] [DecidableEq Q] in
theorem changes_drainOut (d : Drain Q) (dc : Item T Q) :
    (drainOut d dc).changes = (if d.next then none else some dc).bind Item.target ∧
      (drainOut d dc).sets = none := by
  rcases drainOut_eq d dc with ⟨ho, hn⟩ | ⟨ho, hn⟩ <;> rw [ho, hn] <;> exact ⟨rfl, rfl⟩

/-- A step that neither changes the target nor moves a change to or from the list. -/
structure Steady (m : Mem T Q) (l : Loc T Q) (m' : Mem T Q) (l' : Loc T Q) : Prop where
  doTargetq : m'.doTargetq = m.doTargetq
  sets : l'.sets = l.sets
  changes : ∀ q, pendingTo q m'.items + changeTo q l'.changes =
    pendingTo q m.items + changeTo q l.changes

omit [DecidableEq T] in
theorem steady_of_items (htarget : m'.doTargetq = m.doTargetq) (hitems : m'.items = m.items)
    (hsets : l'.sets = l.sets) (hchanges : l'.changes = l.changes) : Steady m l m' l' :=
  ⟨htarget, hsets, fun q ↦ by rw [hitems, hchanges]⟩

def Loc.silent : Loc T Q → Bool
  | .pushExchange .. | .drainPop .. | .drainSetTarget .. | .wakeupPush .. | .invokePush _ => false
  | _ => true

theorem Trans.steady (h : Trans width t m l m' l') (hl : l.silent)
    (hl' : l = .idle → ∀ tq, l' ≠ .pushExchange (.setTargetQueue tq) .return) :
    Steady m l m' l' := by
  cases h
  case setTargetQueue tq => exact (hl' rfl tq rfl).elim
  case exchange | exchangeBehind | drainPop | drainSetTarget => cases hl
  case release k | pushLink k | wakeupSuspended k _ | wakeupEmpty k _ | wakeupMissed k _ |
      wakeupPush k => cases k <;> exact steady_of_items rfl rfl rfl rfl
  case resumeInner | resumeOuter | barrierResume =>
    rcases resumeLoc_cases m with h | h | h <;> rw [h] <;> exact steady_of_items rfl rfl rfl rfl
  case drainRun d | slowSignal d _ | slow2Signal d _ | redirectPush d =>
    obtain ⟨hchanges, hsets⟩ := changes_drainLoop (T := T) d
    exact steady_of_items rfl rfl hsets hchanges
  case drainLast hitems =>
    refine ⟨rfl, rfl, fun q ↦ ?_⟩
    rw [hitems, pendingTo_cons]
    exact (add_comm _ _).trans (add_zero _).symm
  case drainOut d dc hout =>
    obtain ⟨hchanges, hsets⟩ := changes_drainOut d dc
    rcases hout with ⟨rfl, -⟩ | ⟨rfl, -⟩ | ⟨rfl, -⟩ | ⟨rfl, -⟩ <;>
      exact steady_of_items rfl rfl hsets hchanges
  case outSwap hitems =>
    refine ⟨rfl, rfl, fun q ↦ ?_⟩
    rw [hitems, pendingTo_cons]
    exact (add_zero _).trans (add_comm _ _)
  case outFront =>
    refine ⟨rfl, rfl, fun q ↦ ?_⟩
    rw [pendingTo_cons]
    exact (add_zero _).trans (add_comm _ _)
  all_goals exact steady_of_items rfl rfl rfl rfl

/-- The thread that drains knows that another item is on the list, or two. -/
def Loc.Behind (items : List (Item T Q)) : Loc T Q → Prop
  | .drainTake _ => items ≠ []
  | .drainSuspended d _ | .drainRunning d _ | .drainTarget d _ | .drainBarrier d _
  | .drainPop d _ => d.next → 2 ≤ items.length
  | .drainRun d | .drainSetTarget d _ | .slowSuspend d _ | .slowSignal d _ | .slow2Add d _
  | .slow2Signal d _ | .redirectAdd d | .redirectRetain d | .redirectAlloc d
  | .redirectPush d => d.next → items ≠ []
  | _ => True

omit [DecidableEq T] [DecidableEq Q] in
theorem behind_drainLoop {d : Drain Q} {items : List (Item T Q)} (h : d.next → items ≠ []) :
    (drainLoop d : Loc T Q).Behind items := by
  unfold drainLoop
  split
  · exact h ‹_›
  · trivial

omit [DecidableEq T] [DecidableEq Q] in
theorem behind_drainCall {d : Drain Q} {items : List (Item T Q)} (width : ℕ) (dc : Item T Q)
    (h : d.next → items ≠ []) : (drainCall width d dc).Behind items := by
  cases dc <;> simp only [drainCall]
  case async => split <;> exact h
  all_goals exact h

omit [DecidableEq T] [DecidableEq Q] in
theorem Loc.Behind.append {items : List (Item T Q)} (h : l.Behind items) (item : Item T Q) :
    l.Behind (items ++ [item]) := by
  have hlen : items.length ≤ (items ++ [item]).length := by simp
  have hne : items ++ [item] ≠ [] := by simp
  cases l
  case drainSuspended | drainRunning | drainTarget | drainBarrier | drainPop =>
    exact fun hn ↦ (h hn).trans hlen
  case drainTake => exact hne
  all_goals first | trivial | exact fun _ ↦ hne

theorem Trans.behind (h : Trans width t m l m' l') (hl : l.Behind m.items) :
    l'.Behind m'.items := by
  cases h
  case release k | pushLink k | wakeupSuspended k _ | wakeupEmpty k _ | wakeupMissed k _ |
      wakeupPush k => cases k <;> trivial
  case resumeInner | resumeOuter | barrierResume =>
    rcases resumeLoc_cases m with h | h | h <;> rw [h] <;> trivial
  case drainRun d | drainSetTarget d _ | slowSignal d _ | slow2Signal d _ | redirectPush d =>
    exact behind_drainLoop hl
  case drainTake hitems => exact fun _ ↦ by simp [hitems]
  case drainTail hitems => exact hitems
  case drainSpin hitems => exact (hl hitems).elim
  case drainLast => exact nofun
  case drainPop d dc =>
    have hrest : d.next → (if d.next then m.items.tail else m.items) ≠ [] := fun hn ↦ by
      have hlen := hl hn
      rw [if_pos hn, ← List.length_pos_iff, List.length_tail]
      omega
    exact behind_drainCall width dc hrest
  case drainOut d dc _ =>
    rcases drainOut_eq d dc with ⟨ho, -⟩ | ⟨ho, -⟩ <;> rw [ho] <;> trivial
  all_goals first | exact hl | trivial

theorem Trans.items_eq (h : Trans width t m l m' l') (hl : l.bit = 0) :
    m'.items = m.items ∨ ∃ item, m'.items = m.items ++ [item] := by
  cases h
  case exchange item _ _ | exchangeBehind item _ _ => exact .inr ⟨item, rfl⟩
  all_goals first | exact .inl rfl | cases hl

end Steps

/-! ## The record -/

section Recording

variable [DecidableEq T]

inductive Traced (width : ℕ) (t : T) (m : Mem T Q) (r : Record T Q) :
    Loc T Q → Mem T Q → Loc T Q → Record T Q → Prop
  | retain {tq : Q} : Traced width t m r .idle m (.pushExchange (.setTargetQueue tq) .return)
      { r with refs := Function.update r.refs tq (r.refs tq + 1) }
  | invoke {tq : Q} : tq ∈ m.linked → Traced width t m r .idle
      { m with linked := m.linked.erase tq } .invokeTarget { r with invokedFrom := tq }
  | exchange {item : Item T Q} {k : After} {l' : Loc T Q} : l' = .pushRetain k ∨ l' = .pushLink k →
      Traced width t m r (.pushExchange item k) { m with items := m.items ++ [item] } l'
        { r with pushed := r.pushed ++ [item] }
  | pop {d : Drain Q} {dc : Item T Q} : Traced width t m r (.drainPop d dc)
      { m with items := if d.next then m.items.tail else m.items } (drainCall width d dc)
      { r with taken := r.taken + 1 }
  | change {d : Drain Q} {tq : Q} : Traced width t m r (.drainSetTarget d tq)
      { m with doTargetq := tq } (drainLoop d)
      { r with
        moved := if tq = m.doTargetq then r.moved else some tq
        refs := Function.update r.refs m.doTargetq (r.refs m.doTargetq - 1) }
  | link {q : Q} {k : After} : Traced width t m r (.wakeupPush q k)
      { m with linked := q :: m.linked } (k.loc t) { r with moved := none }
  | relink {q : Q} : Traced width t m r (.invokePush q)
      { m with linked := q :: m.linked } .idle { r with moved := none }
  | silent {l l' : Loc T Q} {m' : Mem T Q} : Steady m l m' l' → l.pops = none →
      (∀ q, l ≠ .invokePush q) → (l'.invoking → l.invoking) → Traced width t m r l m' l' r

variable {width : ℕ} {t : T} {m m' : Mem T Q} {l l' : Loc T Q} {a : Act Q} {r : Record T Q}

theorem traced_of_idle (h : step width t a m .idle = some (m', l')) :
    Traced width t m r .idle m' l' (Record.next t a m .idle r) := by
  have htrans := trans_of_step h
  have hsilent : Record.next t a m .idle r = r → l' ≠ .invokeTarget →
      (∀ tq, l' ≠ .pushExchange (.setTargetQueue tq) .return) →
      Traced width t m r .idle m' l' (Record.next t a m .idle r) := fun hnext hne hl' ↦ by
    rw [hnext]
    refine .silent (htrans.steady rfl fun _ ↦ hl') rfl nofun fun hinv ↦ ?_
    rcases htrans.invoking hinv with hidle | ⟨-, heq⟩
    · exact hidle
    · exact (hne heq).elim
  cases a with
  | setTargetQueue tq =>
      cases h
      exact .retain
  | invoke tq =>
      simp only [step, if_true] at h
      split at h <;> cases h
      exact .invoke ‹_›
  | resume inner =>
      have hl' : ∃ m₀ : Mem T Q, l' = resumeLoc m₀ := by
        cases inner <;> simp only [step, if_true] at h <;> split at h <;> cases h <;>
          exact ⟨_, rfl⟩
      obtain ⟨m₀, rfl⟩ := hl'
      refine hsilent rfl ?_ ?_ <;> rcases resumeLoc_cases m₀ with heq | heq | heq <;> rw [heq] <;>
        exact nofun
  | sync =>
      simp only [step, if_true] at h
      cases h
      refine hsilent rfl ?_ ?_ <;> split <;> exact nofun
  | redirect2 =>
      simp only [step, if_true] at h
      split at h <;> cases h
      exact hsilent rfl nofun nofun
  | async | barrierSync | suspend =>
      cases h
      exact hsilent rfl nofun nofun
  | go | cached => cases h

theorem traced_of_step (h : step width t a m l = some (m', l')) :
    Traced width t m r l m' l' (Record.next t a m l r) := by
  have htrans := trans_of_step h
  by_cases hidle : l = .idle
  · subst hidle
    exact traced_of_idle h
  by_cases hsilent : l.silent
  · have hnext : Record.next t a m l r = r := by
      cases l <;> first | rfl | exact (hidle rfl).elim | cases hsilent
    rw [hnext]
    refine .silent (htrans.steady hsilent fun heq ↦ (hidle heq).elim) ?_ ?_ fun hinv ↦ ?_
    · cases l <;> first | rfl | cases hsilent
    · rintro q rfl
      cases hsilent
    · exact (htrans.invoking hinv).resolve_right fun heq ↦ hidle heq.1
  · cases l
    case pushExchange item k =>
      cases a <;> cases h
      by_cases hitems : m.items = []
      · rw [if_pos hitems]
        exact .exchange (.inl rfl)
      · rw [if_neg hitems]
        exact .exchange (.inr rfl)
    case drainPop =>
      cases a <;> cases h
      exact .pop
    case drainSetTarget =>
      cases a <;> cases h
      · exact .silent (steady_of_items rfl rfl rfl rfl) rfl nofun id
      · exact .change
    case wakeupPush =>
      cases a <;> cases h
      exact .link
    case invokePush =>
      cases a <;> cases h
      exact .relink
    all_goals exact (hsilent rfl).elim

theorem targetStep_eq_some {m m' : Mem T Q × Record T Q}
    (h : targetStep width t a m l = some (m', l')) :
    step width t a m.1 l = some (m'.1, l') ∧ m'.2 = Record.next t a m.1 l m.2 ∧
      Traced width t m.1 m.2 l m'.1 l' m'.2 := by
  unfold targetStep at h
  obtain ⟨hstep, hnext⟩ := Program.observe_eq_some h
  refine ⟨hstep, hnext, ?_⟩
  rw [hnext]
  exact traced_of_step hstep

/-! ## The places of the items -/

omit [DecidableEq T] in
theorem Record.next_eq (t : T) (a : Act Q) (m : Mem T Q) (l : Loc T Q) (r : Record T Q) :
    (Record.next t a m l r).pushed = l.pushedBy r.pushed ∧
      (Record.next t a m l r).taken = l.takenBy r.taken := by
  cases l
  case idle | drainSetTarget => cases a <;> exact ⟨rfl, rfl⟩
  all_goals exact ⟨rfl, rfl⟩

variable {loc : T → Loc T Q} [Fintype T]

/-- The target queue is the one set by the changes among the items popped so far; one of
them may be about to store it. -/
structure Applied (tq : Q) (m : Mem T Q) (r : Record T Q) (loc : T → Loc T Q) : Prop where
  free : (∀ u, (loc u).sets = none) → m.doTargetq = targetAfter tq (r.pushed.take r.taken)
  setting : ∀ u q, (loc u).sets = some q → q = targetAfter tq (r.pushed.take r.taken)

omit [DecidableEq T] [DecidableEq Q] [Fintype T] in
theorem Loc.bit_of_sets {q : Q} (h : l.sets = some q) : l.bit = 1 := by
  cases l <;> first | rfl | cases h

omit [DecidableEq Q] in
theorem Accounts.sets_eq_none (hacc : Accounts m loc) (ht : (loc t).bit = 1) {u : T}
    (hu : u ≠ t) : (loc u).sets = none := by
  rcases hsets : (loc u).sets with - | q
  · rfl
  · exact (hu (hacc.bit_unique u t (Loc.bit_of_sets hsets) ht)).elim

omit [DecidableEq T] [DecidableEq Q] [Fintype T] in
theorem targetAfter_append (q : Q) (items : List (Item T Q)) (item : Item T Q) :
    targetAfter q (items ++ [item]) = item.target.getD (targetAfter q items) := by
  simp [targetAfter]

omit [DecidableEq Q] in
theorem Applied.of_drain {tq : Q} {r' : Record T Q} (hacc : Accounts m loc) (ht : (loc t).bit = 1)
    (htarget : l'.sets.getD m'.doTargetq = targetAfter tq (r'.pushed.take r'.taken)) :
    Applied tq m' r' (Function.update loc t l') := by
  refine ⟨fun hfree ↦ ?_, fun u q hu ↦ ?_⟩
  · have hnone : l'.sets = none := by simpa using hfree t
    simpa [hnone] using htarget
  · rcases eq_or_ne u t with rfl | hut
    · rw [Function.update_self] at hu
      simpa [hu] using htarget
    · rw [Function.update_of_ne hut, hacc.sets_eq_none ht hut] at hu
      cases hu

omit [DecidableEq Q] [Fintype T] in
theorem Applied.stay {tq : Q} {r' : Record T Q} (h : Applied tq m r loc)
    (htarget : m'.doTargetq = m.doTargetq) (hsets : l'.sets = (loc t).sets)
    (htake : r'.pushed.take r'.taken = r.pushed.take r.taken) :
    Applied tq m' r' (Function.update loc t l') := by
  have hupd : (fun u ↦ (Function.update loc t l' u).sets) = fun u ↦ (loc u).sets :=
    comp_update_of_eq Loc.sets hsets
  refine ⟨fun hfree ↦ ?_, fun u q hu ↦ ?_⟩
  · rw [htake, htarget]
    exact h.free fun u ↦ (congrFun hupd u).symm.trans (hfree u)
  · rw [htake]
    exact h.setting u q ((congrFun hupd u).symm.trans hu)

omit [DecidableEq Q] in
theorem Applied.doTargetq_eq {tq : Q} (h : Applied tq m r loc) (hacc : Accounts m loc)
    (ht : (loc t).bit = 1) (hsets : (loc t).sets = none) :
    m.doTargetq = targetAfter tq (r.pushed.take r.taken) := by
  refine h.free fun u ↦ ?_
  rcases eq_or_ne u t with rfl | hut
  · exact hsets
  · exact hacc.sets_eq_none ht hut

theorem Traced.applied {tq : Q} {r' : Record T Q} (h : Traced width t m r (loc t) m' l' r')
    (hacc : Accounts m loc) (hlist : Listed m.items r.pushed r.taken loc)
    (happ : Applied tq m r loc) :
    Applied tq m' r' (Function.update loc t l') := by
  generalize ht : loc t = l at h
  cases h with
  | retain => exact happ.stay rfl (by rw [ht]; rfl) rfl
  | invoke => exact happ.stay rfl (by rw [ht]; rfl) rfl
  | exchange hl' =>
      refine happ.stay rfl ?_ (List.take_append_of_le_length hlist.taken_le)
      rcases hl' with rfl | rfl <;> rw [ht] <;> rfl
  | @pop d dc =>
      have hbit : (loc t).bit = 1 := by rw [ht]; rfl
      have htake : r.pushed.take (r.taken + 1) = r.pushed.take r.taken ++ [dc] := by
        have hget : r.pushed[r.taken]? = some dc := hlist.getElem_of_pop hacc ht
        rw [List.take_add_one, hget]
        rfl
      refine .of_drain hacc hbit ?_
      rw [htake, targetAfter_append, (changes_drainCall width d dc).2,
        ← happ.doTargetq_eq hacc hbit (by rw [ht]; rfl)]
  | @change d q =>
      have hbit : (loc t).bit = 1 := by rw [ht]; rfl
      refine .of_drain hacc hbit ?_
      rw [(changes_drainLoop d).2]
      exact happ.setting t q (by rw [ht]; rfl)
  | link =>
      refine happ.stay rfl ?_ rfl
      rw [ht]
      rename_i k
      cases k <;> rfl
  | relink => exact happ.stay rfl (by rw [ht]; rfl) rfl
  | silent hsteady => exact happ.stay hsteady.doTargetq (by rw [ht, hsteady.sets]) rfl

/-! ## The invocations -/

/-- An invocation has taken the queue from the list of its target and has not changed it, or
has changed it and is bound to put the queue on the list of the new one. -/
structure Moving (m : Mem T Q) (r : Record T Q) (loc : T → Loc T Q) : Prop where
  invoked : ∀ u, (loc u).invoking →
    r.moved = none ∧ r.invokedFrom = m.doTargetq ∧ (loc u).Kept m.doTargetq ∨
      r.moved = some m.doTargetq ∧ (loc u).Relinks m.doTargetq
  moved : r.moved ≠ none → ∃ u, (loc u).invoking

omit [DecidableEq T] [DecidableEq Q] [Fintype T] in
theorem Loc.lock_of_invoking (h : l.invoking) : l.lock = 1 :=
  (Loc.lock_iff l).mpr (.inr h)

omit [DecidableEq Q] in
theorem LockUnique.not_invoking (h : LockUnique m loc) (ht : (loc t).lock = 1) {u : T}
    (hu : u ≠ t) : (loc u).invoking = false := by
  by_contra hinv
  have hone := Loc.lock_of_invoking (by simpa using hinv : (loc u).invoking = true)
  rw [h.eq_zero ht hu] at hone
  cases hone

omit [DecidableEq T] [DecidableEq Q] in
theorem LockUnique.not_invoking_of_mem (h : LockUnique m loc) {q : Q} (hq : q ∈ m.linked) (u : T) :
    (loc u).invoking = false := by
  by_contra hinv
  have hone := Loc.lock_of_invoking (by simpa using hinv : (loc u).invoking = true)
  rw [h.linked_eq_nil hone] at hq
  cases hq

omit [DecidableEq Q] in
theorem Moving.of_lock {r' : Record T Q} (hlock : LockUnique m loc) (ht : (loc t).lock = 1)
    (hl' : l'.invoking → r'.moved = none ∧ r'.invokedFrom = m'.doTargetq ∧ l'.Kept m'.doTargetq ∨
      r'.moved = some m'.doTargetq ∧ l'.Relinks m'.doTargetq)
    (hmoved : r'.moved ≠ none → l'.invoking) : Moving m' r' (Function.update loc t l') := by
  refine ⟨fun u hu ↦ ?_, fun hne ↦ ⟨t, by simpa using hmoved hne⟩⟩
  rcases eq_or_ne u t with rfl | hut
  · rw [Function.update_self] at hu ⊢
    exact hl' hu
  · rw [Function.update_of_ne hut, hlock.not_invoking ht hut] at hu
    cases hu

omit [DecidableEq Q] [Fintype T] in
theorem Moving.stay {r' : Record T Q} (h : Moving m r loc) (hinv : (loc t).invoking = false)
    (hinv' : l'.invoking = false) (htarget : m'.doTargetq = m.doTargetq)
    (hmoved : r'.moved = r.moved) (hfrom : r'.invokedFrom = r.invokedFrom) :
    Moving m' r' (Function.update loc t l') := by
  have hupd : (fun u ↦ (Function.update loc t l' u).invoking) = fun u ↦ (loc u).invoking :=
    comp_update_of_eq Loc.invoking (hinv'.trans hinv.symm)
  refine ⟨fun u hu ↦ ?_, fun hne ↦ ?_⟩
  · rw [hmoved, hfrom, htarget]
    rcases eq_or_ne u t with rfl | hut
    · rw [Function.update_self, hinv'] at hu
      cases hu
    · rw [Function.update_of_ne hut] at hu ⊢
      exact h.invoked u hu
  · rw [hmoved] at hne
    obtain ⟨u, hu⟩ := h.moved hne
    exact ⟨u, (congrFun hupd u).trans hu⟩

omit [DecidableEq T] [DecidableEq Q] [Fintype T] in
theorem Moving.kept (h : Moving m r loc) (hinv : (loc t).invoking)
    (hnot : ¬(loc t).Relinks m.doTargetq) :
    r.moved = none ∧ r.invokedFrom = m.doTargetq ∧ (loc t).Kept m.doTargetq :=
  (h.invoked t hinv).resolve_right fun hrelinks ↦ hnot hrelinks.2

theorem Moving.silent (h : Moving m r loc) (htrans : Trans width t m (loc t) m' l')
    (hlock : LockUnique m loc) (hinv : (loc t).invoking) (hsteady : Steady m (loc t) m' l')
    (hnotPush : ∀ q, loc t ≠ .invokePush q) : Moving m' r (Function.update loc t l') := by
  refine .of_lock hlock (Loc.lock_of_invoking hinv) (fun hl' ↦ ?_) fun hne ↦ ?_
  · rcases h.invoked t hinv with ⟨hmoved, hfrom, hkept⟩ | ⟨hmoved, hrelinks⟩
    · rcases htrans.kept hkept hl' with hkept' | ⟨d, tq, ht, -, hrelinks⟩
      · exact .inl ⟨hmoved, hfrom.trans hsteady.doTargetq.symm, hkept'⟩
      · have hsets := hsteady.sets
        rw [ht] at hsets
        cases l' <;> first | exact hrelinks.elim | cases hsets
    · obtain ⟨hrelinks', htarget⟩ := htrans.relinks hrelinks hl'
      exact .inr ⟨by rw [hmoved, htarget], hrelinks'⟩
  · rcases h.invoked t hinv with ⟨hmoved, -⟩ | ⟨-, hrelinks⟩
    · exact (hne hmoved).elim
    · by_contra hl'
      exact hnotPush _ (htrans.relinked hrelinks (by simpa using hl')).1

theorem Traced.moving {r' : Record T Q} (h : Traced width t m r (loc t) m' l' r')
    (htrans : Trans width t m (loc t) m' l') (hlock : LockUnique m loc)
    (hlinked : ∀ q ∈ m.linked, q = m.doTargetq) (hmov : Moving m r loc) :
    Moving m' r' (Function.update loc t l') := by
  generalize ht : loc t = l at h htrans
  cases h with
  | retain => exact hmov.stay (by rw [ht]; rfl) rfl rfl rfl rfl
  | exchange hl' =>
      refine hmov.stay (by rw [ht]; rfl) ?_ rfl rfl rfl
      rcases hl' with rfl | rfl <;> rfl
  | invoke hmem =>
      have hnone := hlock.not_invoking_of_mem hmem
      have hmoved : r.moved = none := by
        by_contra hne
        obtain ⟨u, hu⟩ := hmov.moved hne
        rw [hnone u] at hu
        cases hu
      refine ⟨fun u hu ↦ ?_, fun hne ↦ (hne hmoved).elim⟩
      rcases eq_or_ne u t with rfl | hut
      · rw [Function.update_self]
        exact .inl ⟨hmoved, hlinked _ hmem, trivial⟩
      · rw [Function.update_of_ne hut, hnone u] at hu
        cases hu
  | pop =>
      have hinv : (loc t).invoking := by rw [ht]; rfl
      obtain ⟨hmoved, hfrom, hkept⟩ := hmov.kept hinv (by rw [ht]; exact id)
      rw [ht] at hkept
      refine .of_lock hlock (Loc.lock_of_invoking hinv) (fun hl' ↦ ?_) fun hne ↦ (hne hmoved).elim
      rcases htrans.kept hkept hl' with hkept' | ⟨_, _, heq, -⟩
      · exact .inl ⟨hmoved, hfrom, hkept'⟩
      · cases heq
  | @change d tq =>
      have hinv : (loc t).invoking := by rw [ht]; rfl
      obtain ⟨hmoved, hfrom, hkept⟩ := hmov.kept hinv (by rw [ht]; exact id)
      rw [ht] at hkept
      have hl' : (drainLoop d : Loc T Q).invoking := by
        rcases drainLoop_cases (T := T) d with h | h <;> rw [h] <;> rfl
      refine .of_lock hlock (Loc.lock_of_invoking hinv) (fun _ ↦ ?_) fun _ ↦ hl'
      rcases eq_or_ne tq m.doTargetq with rfl | hne
      · rcases htrans.kept hkept hl' with hkept' | ⟨_, _, heq, hne, -⟩
        · exact .inl ⟨(if_pos rfl).trans hmoved, hfrom, hkept'⟩
        · cases heq
          exact (hne rfl).elim
      · rcases htrans.kept hkept hl' with hkept' | ⟨_, _, -, -, hrelinks⟩
        · rcases drainLoop_cases (T := T) d with h | h <;> rw [h] at hkept' <;>
            exact (hne (hkept'.1.symm.trans hkept.1)).elim
        · exact .inr ⟨if_neg hne, hrelinks⟩
  | @link q k =>
      have hl' : (k.loc t : Loc T Q).invoking = false := by cases k <;> rfl
      refine .of_lock hlock (by rw [ht]; rfl) (fun hinv ↦ ?_) fun hne ↦ (hne rfl).elim
      rw [hl'] at hinv
      cases hinv
  | relink => exact .of_lock hlock (by rw [ht]; rfl) nofun fun hne ↦ (hne rfl).elim
  | silent hsteady _ hnotPush hkeeps =>
      by_cases hinv : (loc t).invoking
      · subst ht
        exact hmov.silent htrans hlock hinv hsteady hnotPush
      · have hl' : l'.invoking = false := by
          by_contra hl'
          exact hinv (by rw [ht]; exact hkeeps (by simpa using hl'))
        exact hmov.stay (by simpa using hinv) hl' hsteady.doTargetq rfl rfl

/-! ## The references -/

omit [DecidableEq T] [Fintype T] in
/-- The references that the queue owns are those of its target and of the changes that have
not been carried out. -/
theorem Traced.refs_eq {r' : Record T Q} (q : Q) (h : Traced width t m r (loc t) m' l' r')
    (hfirst : ∀ dc, (loc t).first = some dc → m.items.head? = some dc) :
    r'.refs q - changeTo q (some m'.doTargetq) - pendingTo q m'.items - changeTo q l'.changes =
      r.refs q - changeTo q (some m.doTargetq) - pendingTo q m.items -
        changeTo q (loc t).changes := by
  generalize loc t = l at h hfirst
  have hupdate : ∀ (p : Q) (n : ℤ), Function.update r.refs p (r.refs p + n) q =
      r.refs q + n * changeTo q (some p) := by
    intro p n
    unfold changeTo
    rcases eq_or_ne q p with rfl | hne
    · simp
    · simp [hne, hne.symm]
  cases h with
  | @retain tq =>
      have hl' : (Loc.pushExchange (.setTargetQueue tq) .return : Loc T Q).changes = some tq := rfl
      have hl : (Loc.idle : Loc T Q).changes = none := rfl
      dsimp only
      rw [hupdate, hl', hl, changeTo_none]
      ring
  | invoke => rfl
  | @exchange item k l' hl' =>
      have hnone : l'.changes = none := by rcases hl' with rfl | rfl <;> rfl
      have hl : (Loc.pushExchange item k : Loc T Q).changes = item.target := rfl
      rw [pendingTo_append, hnone, hl, changeTo_none]
      ring
  | @pop d dc =>
      rw [(changes_drainCall width d dc).1]
      have hl : (Loc.drainPop d dc).changes = (if d.next then none else some dc).bind Item.target :=
        rfl
      rw [hl]
      cases hn : d.next with
      | true =>
          obtain ⟨rest, hrest⟩ := List.head?_eq_some_iff.mp (hfirst dc (by simp [Loc.first, hn]))
          rw [hrest, pendingTo_cons]
          simp only [if_true, List.tail_cons, Option.bind_none, changeTo_none]
          ring
      | false => simp
  | @change d tq =>
      have hl : (Loc.drainSetTarget d tq : Loc T Q).changes = some tq := rfl
      dsimp only
      rw [sub_eq_add_neg (r.refs m.doTargetq), hupdate, (changes_drainLoop d).1, hl, changeTo_none]
      ring
  | @link p k =>
      have hl' : (k.loc t : Loc T Q).changes = none := by cases k <;> rfl
      rw [hl']
      rfl
  | relink => rfl
  | silent hsteady =>
      have heq := hsteady.changes q
      rw [hsteady.doTargetq]
      omega

/-! ## The way to the list of the new target -/

/-- The steps that a thread needs at most to put the queue on the list. -/
def Loc.distance : Loc T Q → ℕ
  | .drainTail _ => 11
  | .drainTake _ => 10
  | .drainSuspended .. => 9
  | .drainRunning .. => 8
  | .drainTarget .. => 7
  | .outSwap .. => 6
  | .outFront .. | .outHead _ => 5
  | .invokeCompare _ => 4
  | .invokeReload => 3
  | .invokeUnlock _ => 2
  | .invokePush _ => 1
  | _ => 0

omit [DecidableEq T] [DecidableEq Q] [Fintype T] in
theorem distance_drainOut (d : Drain Q) (dc : Item T Q) : (drainOut d dc).distance ≤ 6 := by
  rcases drainOut_eq d dc with ⟨ho, -⟩ | ⟨ho, -⟩ <;> rw [ho] <;> simp [Loc.distance]

omit [Fintype T] in
theorem Loc.Relinks.exists_step (width : ℕ) (t : T) (h : l.Relinks m.doTargetq)
    (hbehind : l.Behind m.items) :
    ∃ m' l', step width t .go m l = some (m', l') ∧ l'.distance < l.distance := by
  cases l
  case drainTail d =>
    refine ⟨_, _, rfl, ?_⟩
    split <;> simp [Loc.distance]
  case drainTake d =>
    obtain ⟨items⟩ := m
    rcases items with - | ⟨dc, - | ⟨next, rest⟩⟩
    · exact (hbehind rfl).elim
    · exact ⟨_, _, rfl, by simp [Loc.distance]⟩
    · exact ⟨_, _, rfl, by simp [Loc.distance]⟩
  case drainSuspended d dc | drainRunning d dc =>
    refine ⟨_, _, rfl, ?_⟩
    split
    · exact (distance_drainOut d dc).trans_lt (by simp [Loc.distance])
    · simp [Loc.distance]
  case drainTarget d dc =>
    refine ⟨_, _, rfl, ?_⟩
    rw [if_pos h.2]
    exact (distance_drainOut d dc).trans_lt (by simp [Loc.distance])
  case outSwap tq dc =>
    obtain ⟨items⟩ := m
    rcases items with - | ⟨next, rest⟩
    · exact ⟨_, _, rfl, by simp [Loc.distance]⟩
    · exact ⟨_, _, rfl, by simp [Loc.distance]⟩
  case invokeCompare tq =>
    refine ⟨_, _, rfl, ?_⟩
    rw [if_neg h]
    simp [Loc.distance]
  case invokeUnlock tq =>
    cases tq with
    | none => exact h.elim
    | some tq => exact ⟨_, _, rfl, by simp [Loc.distance]⟩
  case outFront | outHead | invokeReload | invokePush =>
    exact ⟨_, _, rfl, by simp [Loc.distance]⟩
  all_goals exact h.elim

end Recording

/-! ## Whole runs -/

section Runs

variable [DecidableEq T] [Fintype T] {width : ℕ} {tq : Q}
  {s : Pool T (Mem T Q × Record T Q) (Loc T Q)}

abbrev TargetRun (width : ℕ) (tq : Q) (s : Pool T (Mem T Q × Record T Q) (Loc T Q)) : Prop :=
  Pool.Reachable (targetStep width) ((created tq).recorded (.created tq)) s

omit [Fintype T] in
theorem TargetRun.queue (h : TargetRun width tq s) :
    Pool.Reachable (step width) (created tq) s.forget :=
  Pool.Runs.unobserved (C := fun _ _ _ ↦ True) h

omit [Fintype T] in
theorem exists_targetRun {s : Pool T (Mem T Q) (Loc T Q)}
    (h : Pool.Reachable (step width) (created tq) s) :
    ∃ r, TargetRun width tq (s.recorded r) :=
  h.exists_observed

theorem TargetRun.accounts (h : TargetRun width tq s) : Accounts s.mem.1 s.loc :=
  (accounts_of_run (s := s.forget) h.queue).1

theorem TargetRun.lockUnique (h : TargetRun width tq s) : LockUnique s.mem.1 s.loc :=
  lockUnique_of_run (s := s.forget) h.queue

theorem TargetRun.linked (h : TargetRun width tq s) :
    ∀ q ∈ s.mem.1.linked, q = s.mem.1.doTargetq :=
  (linked_of_run (s := s.forget) h.queue).1

structure TargetInv (tq : Q) (m : Mem T Q) (r : Record T Q) (loc : T → Loc T Q) : Prop where
  listed : Listed m.items r.pushed r.taken loc
  applied : Applied tq m r loc
  moving : Moving m r loc
  behind : ∀ u, (loc u).Behind m.items

omit [DecidableEq T] [DecidableEq Q] [Fintype T] in
theorem Loc.behind_of_bit {l : Loc T Q} (h : l.bit = 0) (items : List (Item T Q)) :
    l.Behind items := by
  cases l <;> first | trivial | cases h

theorem Trans.behind_update {t : T} {m m' : Mem T Q} {loc : T → Loc T Q} {l' : Loc T Q}
    (h : Trans width t m (loc t) m' l') (hacc : Accounts m loc)
    (hbehind : ∀ u, (loc u).Behind m.items) (u : T) :
    (Function.update loc t l' u).Behind m'.items := by
  rcases eq_or_ne u t with rfl | hut
  · rw [Function.update_self]
    exact h.behind (hbehind u)
  · rw [Function.update_of_ne hut]
    rcases (loc t).bit_eq with hbit | hbit
    · rcases h.items_eq hbit with hitems | ⟨item, hitems⟩ <;> rw [hitems]
      · exact hbehind u
      · exact (hbehind u).append item
    · exact Loc.behind_of_bit (hacc.bit_of_ne hbit hut) _

theorem targetInv_of_run (h : TargetRun width tq s) :
    TargetInv tq s.mem.1 s.mem.2 s.loc := by
  refine h.invariant (I := fun s ↦ TargetInv tq s.mem.1 s.mem.2 s.loc) ?_ ?_
  · exact ⟨⟨le_rfl, fun _ ↦ rfl, nofun⟩, ⟨fun _ ↦ rfl, nofun⟩, ⟨nofun, fun h ↦ (h rfl).elim⟩,
      fun _ ↦ trivial⟩
  · intro s t a m l hr hI _ hP
    obtain ⟨hstep, hnext, htraced⟩ := targetStep_eq_some hP
    have hacc := TargetRun.accounts hr
    have htrans := trans_of_step hstep
    obtain ⟨hpushed, htaken⟩ := Record.next_eq t a s.mem.1 (s.loc t) s.mem.2
    refine ⟨?_, htraced.applied hacc hI.listed hI.applied,
      htraced.moving htrans (TargetRun.lockUnique hr) (TargetRun.linked hr) hI.moving,
      htrans.behind_update hacc hI.behind⟩
    dsimp only
    rw [hnext, hpushed, htaken]
    exact htrans.listed hacc hI.listed

theorem refs_eq_of_run (h : TargetRun width tq s) (q : Q) :
    s.mem.2.refs q = changeTo q (some s.mem.1.doTargetq) + pendingTo q s.mem.1.items +
      ∑ t, changeTo q (s.loc t).changes := by
  have hbal := h.balance (fun m ↦ m.2.refs q - changeTo q (some m.1.doTargetq) -
    pendingTo q m.1.items) (fun _ l ↦ changeTo q l.changes) ?_ ?_
  · linarith
  · have hnone : ∀ t, (((created tq).recorded (.created tq) :
        Pool T (Mem T Q × Record T Q) (Loc T Q)).loc t).changes = none := fun _ ↦ rfl
    simp only [hnone, changeTo_none, Finset.sum_const_zero]
    rcases eq_or_ne q tq with rfl | hne
    · simp [Pool.recorded, created, Record.created, changeTo, pendingTo]
    · simp [Pool.recorded, created, Record.created, changeTo, pendingTo, hne, hne.symm]
  · intro s t a m l hr _ _ hP
    obtain ⟨-, -, htraced⟩ := targetStep_eq_some hP
    exact htraced.refs_eq q ((TargetRun.accounts hr).first t)

theorem exists_mover (h : TargetRun width tq s) {q : Q} (hq : s.mem.2.moved = some q) :
    s.mem.1.doTargetq = q ∧ ∃ t, (s.loc t).invoking ∧ (s.loc t).Relinks q := by
  have hmov := (targetInv_of_run h).moving
  obtain ⟨t, ht⟩ := hmov.moved (by simp [hq])
  rcases hmov.invoked t ht with ⟨hnone, -⟩ | ⟨hsome, hrelinks⟩
  · rw [hq] at hnone
    cases hnone
  · obtain rfl : q = s.mem.1.doTargetq := Option.some.inj (hq.symm.trans hsome)
    exact ⟨rfl, t, ht, hrelinks⟩

/-- The next list that the queue is put on is that of the new target, and the lock and the
reference go along with it. -/
theorem moved_step (h : TargetRun width tq s) {q : Q} (hq : s.mem.2.moved = some q) {t : T}
    {a : Act Q} {s' : Pool T (Mem T Q × Record T Q) (Loc T Q)}
    (hs : s.step (targetStep width) t a = some s') :
    s'.mem.2.moved = some q ∨ s'.mem.2.moved = none ∧ s'.mem.1.linked = [q] ∧
      s'.mem.1.doSuspendCnt = s.mem.1.doSuspendCnt ∧ s'.mem.1.doRefCnt = s.mem.1.doRefCnt := by
  obtain ⟨m, l, hP, rfl⟩ := Pool.step_eq_some hs
  obtain ⟨-, -, htraced⟩ := targetStep_eq_some hP
  obtain ⟨-, u, hinv, hrelinks⟩ := exists_mover h hq
  have hlock := h.lockUnique
  have hlocku := Loc.lock_of_invoking hinv
  have hempty : s.mem.1.linked = [] := hlock.linked_eq_nil hlocku
  have hself : (s.loc t).lock = 1 → (s.loc t).Relinks q := fun ht ↦ by
    have hut : u = t := by
      by_contra hut
      have hzero := hlock.eq_zero ht hut
      rw [hlocku] at hzero
      cases hzero
    exact hut ▸ hrelinks
  dsimp only
  obtain ⟨m, r⟩ := m
  generalize s.loc t = lt at htraced hself
  cases htraced with
  | retain => exact .inl hq
  | invoke hmem =>
      rw [hempty] at hmem
      cases hmem
  | exchange => exact .inl hq
  | pop => exact (hself rfl).elim
  | change => exact (hself rfl).elim
  | link => exact (hself rfl).elim
  | relink =>
      obtain rfl : _ = q := hself rfl
      exact .inr ⟨rfl, by simp [hempty], rfl, rfl⟩
  | silent => exact .inl hq

/-- The thread that has made the change is never held up: its own steps bring the queue to the
list of the new target. -/
theorem exists_relinked (h : TargetRun width tq s) {q : Q} (hq : s.mem.2.moved = some q) {t : T}
    (ht : (s.loc t).invoking) :
    ∃ s', Pool.Runs (targetStep width) (fun _ u _ ↦ u = t) s s' ∧ s'.mem.2.moved = none ∧
      s'.mem.1.linked = [q] := by
  induction hn : (s.loc t).distance using Nat.strong_induction_on generalizing s with
  | _ n ih =>
      have hI := targetInv_of_run h
      have hrelinks : (s.loc t).Relinks s.mem.1.doTargetq := by
        rcases hI.moving.invoked t ht with ⟨hnone, -⟩ | ⟨-, hrelinks⟩
        · rw [hq] at hnone
          cases hnone
        · exact hrelinks
      obtain ⟨m', l', hstep, hlt⟩ := hrelinks.exists_step width t (hI.behind t)
      have hobs : targetStep width t .go s.mem (s.loc t) =
          some ((m', Record.next t .go s.mem.1 (s.loc t) s.mem.2), l') :=
        Program.observe_of_program hstep
      have hs := Pool.step_of_program hobs
      have hone : Pool.Runs (targetStep width) (fun _ u _ ↦ u = t) s _ := .step .refl rfl hs
      rcases moved_step h hq hs with hmoved | ⟨hnone, hlinked, -⟩
      · have hrun := h.step trivial hs
        have hinv : l'.invoking := by
          by_contra hl'
          obtain ⟨hpush, -⟩ := (trans_of_step hstep).relinked hrelinks (by simpa using hl')
          rw [hpush] at hmoved
          cases hmoved
        obtain ⟨s', hruns, hdone⟩ := ih l'.distance (by omega) hrun hmoved (by simpa using hinv)
          (by simp)
        exact ⟨s', hone.trans hruns, hdone⟩
      · exact ⟨_, hone, hnone, hlinked⟩

structure TargetSound (width : ℕ) (tq : Q) (s : Pool T (Mem T Q × Record T Q) (Loc T Q)) :
    Prop where
  popped : ∀ t d dc, s.loc t = .drainPop d dc →
    s.mem.2.pushed[s.mem.2.taken]? = some dc ∧
      s.mem.2.invokedFrom = targetAfter tq (s.mem.2.pushed.take s.mem.2.taken) ∧
      s.mem.1.doTargetq = targetAfter tq (s.mem.2.pushed.take s.mem.2.taken)
  redirected : ∀ t d, s.loc t = .redirectPush d →
    s.mem.2.invokedFrom = targetAfter tq (s.mem.2.pushed.take s.mem.2.taken) ∧
      s.mem.1.doTargetq = targetAfter tq (s.mem.2.pushed.take s.mem.2.taken)
  kept : ∀ q, s.mem.2.moved = some q → s.mem.1.doTargetq = q ∧ s.mem.1.linked = [] ∧
    s.mem.1.doSuspendCnt % 2 = 1 ∧ ∃ t, (s.loc t).Relinks q ∧ (s.loc t).refs = 1
  relinked : ∀ q, s.mem.2.moved = some q → ∀ t a s', s.step (targetStep width) t a = some s' →
    s'.mem.2.moved = some q ∨ s'.mem.2.moved = none ∧ s'.mem.1.linked = [q] ∧
      s'.mem.1.doSuspendCnt = s.mem.1.doSuspendCnt ∧ s'.mem.1.doRefCnt = s.mem.1.doRefCnt
  relinks : ∀ q, s.mem.2.moved = some q → ∃ t s',
    Pool.Runs (targetStep width) (fun _ u _ ↦ u = t) s s' ∧ s'.mem.2.moved = none ∧
      s'.mem.1.linked = [q]
  refs : AtRest s.forget → ∀ q, s.mem.2.refs q =
    changeTo q (some s.mem.1.doTargetq) + pendingTo q s.mem.1.items

omit [DecidableEq T] [DecidableEq Q] [Fintype T] in
theorem Loc.Relinks.refs_eq {l : Loc T Q} {q : Q} (h : l.Relinks q) : l.refs = 1 := by
  cases l <;> first | rfl | exact h.elim

omit [DecidableEq T] [DecidableEq Q] [Fintype T] in
theorem Loc.changes_of_atRest {l : Loc T Q} {n : ℕ} (h : l.atRest n) : l.changes = none := by
  cases l <;> first | rfl | cases h

omit [DecidableEq Q] in
theorem TargetInv.invokedFrom_eq (hI : TargetInv tq s.mem.1 s.mem.2 s.loc)
    (hacc : Accounts s.mem.1 s.loc) {t : T} (hinv : (s.loc t).invoking)
    (hbit : (s.loc t).bit = 1) (hsets : (s.loc t).sets = none)
    (hrelinks : ¬ (s.loc t).Relinks s.mem.1.doTargetq) :
    s.mem.2.invokedFrom = targetAfter tq (s.mem.2.pushed.take s.mem.2.taken) ∧
      s.mem.1.doTargetq = targetAfter tq (s.mem.2.pushed.take s.mem.2.taken) := by
  have htarget := hI.applied.doTargetq_eq hacc hbit hsets
  rcases hI.moving.invoked t hinv with ⟨-, hfrom, -⟩ | ⟨-, hmust⟩
  · exact ⟨hfrom.trans htarget, htarget⟩
  · exact (hrelinks hmust).elim

theorem target_changes (h : TargetRun width tq s) : TargetSound width tq s := by
  have hI := targetInv_of_run h
  have hacc := h.accounts
  refine ⟨fun t d dc ht ↦ ⟨?_, ?_⟩, fun t d ht ↦ ?_, fun q hq ↦ ?_, fun q hq t a s' hs ↦ ?_,
    fun q hq ↦ ?_, fun hrest q ↦ ?_⟩
  · exact hI.listed.getElem_of_pop hacc ht
  · exact hI.invokedFrom_eq hacc (t := t) (by rw [ht]; rfl) (by rw [ht]; rfl) (by rw [ht]; rfl)
      (by rw [ht]; exact id)
  · exact hI.invokedFrom_eq hacc (t := t) (by rw [ht]; rfl) (by rw [ht]; rfl) (by rw [ht]; rfl)
      (by rw [ht]; exact id)
  · obtain ⟨htarget, t, hinv, hrelinks⟩ := exists_mover h hq
    exact ⟨htarget, h.lockUnique.linked_eq_nil (Loc.lock_of_invoking hinv),
      (lock_iff_of_run h.queue).mpr (.inr ⟨t, .inr hinv⟩), t, hrelinks, hrelinks.refs_eq⟩
  · exact moved_step h hq hs
  · obtain ⟨-, t, hinv, -⟩ := exists_mover h hq
    exact ⟨t, exists_relinked h hq hinv⟩
  · rw [refs_eq_of_run h q, Finset.sum_eq_zero, add_zero]
    intro t _
    have hnone : (s.loc t).changes = none := Loc.changes_of_atRest (hrest t)
    rw [hnone, changeTo_none]

end Runs

/-- Thread 0 pushes a change of the target from 0 to 1 and an item behind it.  Worker 1 carries
out the change, puts the queue on the list of 1, and invokes it from there. -/
def retargetedState : Pool (Fin 2) (Mem (Fin 2) (Fin 2) × Record (Fin 2) (Fin 2))
    (Loc (Fin 2) (Fin 2)) :=
  (((created 0).recorded (.created 0)).run (targetStep 1) (fun _ _ _ ↦ True)
    ((0, Act.setTargetQueue 1) :: List.replicate 10 (0, Act.go) ++ (0, Act.async false) ::
      List.replicate 2 (0, Act.go) ++ (1, Act.invoke 0) :: List.replicate 21 (1, Act.go) ++
      (1, Act.invoke 1) :: List.replicate 9 (1, Act.go))).get (by decide)

theorem target_changes_once :
    retargetedState.loc 1 = .drainPop ⟨1, 1, false⟩ (.async false) ∧
      retargetedState.mem.2.pushed[retargetedState.mem.2.taken]? = some (.async false) ∧
      retargetedState.mem.2.invokedFrom = 1 ∧ retargetedState.mem.1.doTargetq = 1 :=
  have hrun : TargetRun 1 0 retargetedState := Pool.runs_get _
  ⟨by decide, (target_changes hrun).popped 1 ⟨1, 1, false⟩ (.async false) (by decide)⟩

end LibDispatch.Queue
