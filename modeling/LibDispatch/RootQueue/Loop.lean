import LibDispatch.RootQueue.ExactlyOnce

/-!
# Pushing to a root queue and the loop of its workers

There are two kinds of root queues: with a kernel work queue, and with a pool of threads of
their own.  They differ in how a queue with items is woken up and in what a worker does before
and after its loop.  What they have in common is here.
-/

namespace LibDispatch.RootQueue

open Interleaving TailList

/-- Where a thread goes on after `_dispatch_queue_wakeup_global`: outside of the library, at
the end of `_dispatch_queue_concurrent_drain_one` with an item, or, as a worker that has lost
the race for the queue, after its loop. -/
inductive After (α : Type*)
  | outside
  | drainReturn (head : Word α) (number : ℕ)
  | leave
  deriving DecidableEq

/-- Where a thread stands.  The place `run` is `_dispatch_continuation_pop` in the loop of
`_dispatch_worker_thread2`; the places in `own` belong to one of the two kinds. -/
inductive Place (α X : Type*)
  | outside
  | push (p : Push α)
  | wakeup (k : After α)
  | loop
  | drain (l : Loc α)
  | run
  | own (x : X)
  deriving DecidableEq

variable {α X T : Type*} (leave : Place α X)

/-- The place `leave` is where a worker goes after its loop. -/
def After.place : After α → Place α X
  | .outside => .outside
  | .drainReturn head number => .drain (.drainReturn head number)
  | .leave => leave

/-- `_dispatch_queue_push_list_slow` wakes the queue up after it has stored the head. -/
def afterPush : Push α → Option (Push α) → Place α X
  | _, some p' => .push p'
  | .storeHead _, none => .wakeup .outside
  | _, none => .outside

/-- Where the worker goes on inside or after `_dispatch_queue_concurrent_drain_one`.  If it has
lost the race for the queue, it asks for another worker and leaves; if it has found no item, it
leaves. -/
def afterDrain : Loc α → Loc α → Place α X
  | .idle, .idle => .wakeup .leave
  | .drainReset, _ => leave
  | .drainStore .., .drainReturn head number => .wakeup (.drainReturn head number)
  | .drainReturn .., _ => .run
  | _, l' => .drain l'

variable [DecidableEq α]

def workerLoop (q : Mem α) : Place α X → Option (Mem α × Place α X)
  | .loop =>
      (dispatchQueueConcurrentDrainOne q .idle).map fun r ↦ (r.1, afterDrain leave .idle r.2)
  | .drain .idle => none
  | .drain l => (dispatchQueueConcurrentDrainOne q l).map fun r ↦ (r.1, afterDrain leave l r.2)
  | .run => some (q, .loop)
  | _ => none

inductive LoopTrans (q : Mem α) : Place α X → Mem α → Place α X → Prop
  | prepare {head : α} {rest : List α} {i : Items α} {p : Push α} :
      q.dq.prepare head rest = some (i, p) → LoopTrans q .outside { q with dq := i } (.push p)
  | push {p : Push α} {i : Items α} {p' : Option (Push α)} : q.dq.pushList p = (i, p') →
      LoopTrans q (.push p) { q with dq := i } (afterPush p p')
  | drain {q' : Mem α} {l l' : Loc α} {l₀ : Place α X} :
      l₀ = .loop ∧ l = .idle ∨ l₀ = .drain l ∧ l ≠ .idle →
      dispatchQueueConcurrentDrainOne q l = some (q', l') →
      LoopTrans q l₀ q' (afterDrain leave l l')
  | run : LoopTrans q .run q .loop

variable {leave} {q q' : Mem α} {l l' : Place α X}

theorem loopTrans_of_worker (h : workerLoop leave q l = some (q', l')) :
    LoopTrans leave q l q' l' := by
  unfold workerLoop at h
  split at h
  · obtain ⟨r, hr, heq⟩ := Option.map_eq_some_iff.mp h
    cases heq
    exact .drain (.inl ⟨rfl, rfl⟩) hr
  · cases h
  · rename_i l₁ hne
    obtain ⟨r, hr, heq⟩ := Option.map_eq_some_iff.mp h
    cases heq
    exact .drain (.inr ⟨rfl, fun hidle ↦ hne (by rw [hidle])⟩) hr
  · cases h
    exact .run
  · cases h

/-- The thread is at one of the places of its own kind that `g` selects. -/
def Place.isOwn (g : X → Bool) : Place α X → Bool
  | .own x => g x
  | _ => false

theorem LoopTrans.isOwn_eq_false (h : LoopTrans leave q l q' l') {g : X → Bool}
    (hleave : leave.isOwn g = false) : l.isOwn g = false ∧ l'.isOwn g = false := by
  cases h
  case push p i p' hp => exact ⟨rfl, by cases p' <;> cases p <;> rfl⟩
  case drain l l' hl hq =>
    refine ⟨by rcases hl with ⟨rfl, -⟩ | ⟨rfl, -⟩ <;> rfl, ?_⟩
    cases l <;> cases l' <;> first | rfl | exact hleave
  all_goals exact ⟨rfl, rfl⟩

/-! ## The list -/

/-- Where the thread stands as a user of the list. -/
def After.base : After α → Loc α
  | .drainReturn head number => .drainReturn head number
  | _ => .idle

def Place.base (f : X → Loc α) : Place α X → Loc α
  | .push p => .push p
  | .wakeup k => k.base
  | .drain l => l
  | .own x => f x
  | _ => .idle

variable {f : X → Loc α}

omit [DecidableEq α] in
theorem base_place (hleave : leave.base f = .idle) (k : After α) :
    (k.place leave).base f = k.base := by
  cases k <;> first | rfl | exact hleave

theorem base_afterDrain (hleave : leave.base f = .idle) {l l' : Loc α}
    (h : dispatchQueueConcurrentDrainOne q l = some (q', l')) :
    (afterDrain leave l l').base f = l' := by
  cases l
  case drainReset =>
    simp only [dispatchQueueConcurrentDrainOne] at h
    split at h <;> cases h <;> exact hleave
  case drainStore | drainReturn =>
    cases h
    rfl
  all_goals cases l' <;> rfl

/-- A step of pushing or of the loop is one of the root queue, or concerns the thread alone. -/
theorem LoopTrans.base (h : LoopTrans leave q l q' l') (hleave : leave.base f = .idle) (t : T) :
    (q' = q ∧ l'.base f = l.base f) ∨ ∃ a, step t a q (l.base f) = some (q', l'.base f) := by
  cases h
  case prepare head rest i p hp =>
    exact .inr ⟨.push head rest, by simp [step, Place.base, hp]⟩
  case push p i p' hp =>
    have hbase : (afterPush p p' : Place α X).base f = p'.elim .idle .push := by
      cases p' <;> cases p <;> rfl
    rw [hbase]
    exact .inr ⟨.go, step_of_push hp t⟩
  case drain l l' hl hq =>
    rw [base_afterDrain hleave hq]
    rcases hl with ⟨rfl, rfl⟩ | ⟨rfl, -⟩ <;> exact .inr (exists_step_of_drain hq t)
  case run => exact .inl ⟨rfl, rfl⟩

/-! ## Who looks after the queue -/

/-- The thread is bound to look at the queue again, or to have it looked at. -/
def Place.attends (g : X → Bool) : Place α X → Bool
  | .outside | .drain .drainReset => false
  | .push p => p.hold.isSome
  | .own x => g x
  | _ => true

variable {g : X → Bool}

omit [DecidableEq α] in
theorem attends_of_hold (hown : ∀ x, (f x).hold ≠ none → g x) (h : (l.base f).hold ≠ none) :
    l.attends g := by
  cases l
  case push p =>
    rw [Place.attends, Option.isSome_iff_ne_none]
    exact h
  case drain l => cases l <;> first | rfl | exact absurd rfl h
  case outside => exact absurd rfl h
  case own x => exact hown x h
  all_goals rfl

/-- After a step that leaves items on the queue, the thread attends to it, or another one has
the first item in hand, or nothing has changed: there were items before, and the thread did
not attend to them. -/
theorem LoopTrans.attended {loc : T → Place α X} {t : T} {gone chain : List α}
    (h : LoopTrans leave q (loc t) q' l')
    (hnum : Numbered q (fun u ↦ (loc u).base f) gone chain) (htail : q'.dq.dqItemsTail ≠ none) :
    l'.attends g ∨ (∃ u, u ≠ t ∧ ((loc u).base f).hold ≠ none) ∨
      q.dq.dqItemsTail ≠ none ∧ (loc t).attends g = false ∧
        (loc t = .drain .drainReset → l' = leave) := by
  have hsound := hnum.sound t
  generalize ht : loc t = l at h
  cases h
  case prepare hp =>
    rw [(Items.ends_prepare hp).1] at htail
    exact .inr (.inr ⟨htail, rfl, nofun⟩)
  case push hp =>
    rcases Items.tail_pushList hp htail with ⟨head, rfl⟩ | ⟨head, rfl, rfl⟩ | ⟨htail', hhold⟩
    · exact .inl rfl
    · exact .inl rfl
    · refine .inr (.inr ⟨htail', ?_, nofun⟩)
      rw [Place.attends, hhold]
      rfl
  case drain l l' hl hq =>
    have hbase : (loc t).base f = l := by
      rcases hl with ⟨rfl, rfl⟩ | ⟨rfl, -⟩ <;> rw [ht] <;> rfl
    rw [hbase] at hsound
    cases trans_of_drain hsound hq
    case foundNull hhead =>
      have hchain : chain ≠ [] := by
        rintro rfl
        exact htail hnum.shape.tail_eq
      rcases hnum.shape.front.exists_front hchain with hne | ⟨u, hu⟩
      · simp [hhead, Word.toOption] at hne
      · refine .inr (.inl ⟨u, ?_, hu⟩)
        rintro rfl
        rw [hbase] at hu
        exact hu rfl
    case reset | resetMissed =>
      rcases hl with ⟨rfl, hl⟩ | ⟨rfl, -⟩
      · cases hl
      · exact .inr (.inr ⟨htail, rfl, fun _ ↦ rfl⟩)
    case push => cases hq
    all_goals exact .inl rfl
  case run => exact .inl rfl

end LibDispatch.RootQueue
