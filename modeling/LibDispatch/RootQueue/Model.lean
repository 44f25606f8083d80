import LibDispatch.Queue.Items

/-!
# Root queues

Any number of threads push to a root queue, and any number of workers call
`_dispatch_queue_concurrent_drain_one` on it.  A worker exchanges the head for
the mediator; the item it finds is its own, and it restores the head before it
returns.  One step for each atomic operation and each single load or store.
-/

namespace LibDispatch.RootQueue

open Interleaving TailList

/-- The root queue.  The last two fields are history: how many items workers have
obtained from the head, and which items calls have returned, each with its number
in the order in which they were obtained. -/
structure Mem (α : Type*) where
  dq : Items α
  taken : ℕ
  returned : List (ℕ × Word α)

/-- Where a thread stands.  Inside `_dispatch_queue_concurrent_drain_one` it has the
pointer `head` in a local variable; the number it obtained it under is history. -/
inductive Loc (α : Type*)
  | idle
  | push (p : Push α)
  | drainReset
  | drainNext (head : Word α) (number : ℕ)
  | drainClear (head : Word α) (number : ℕ)
  | drainResetTail (head : Word α) (number : ℕ)
  | drainWait (head : Word α) (number : ℕ)
  | drainStore (head : Word α) (next : α) (number : ℕ)
  | drainReturn (head : Word α) (number : ℕ)
  | fault
  deriving DecidableEq

inductive Act (α : Type*)
  | push (head : α) (rest : List α)
  | drain
  | go

variable {α T : Type*} [DecidableEq α]

def dispatchQueueConcurrentDrainOne (m : Mem α) : Loc α → Option (Mem α × Loc α)
  | .idle =>
      let m' := { m with dq.dqItemsHead := .mediator }
      match m.dq.dqItemsHead with
      | .null => some (m', .drainReset)
      | .mediator => some (m', .idle)
      | .item x => some ({ m' with taken := m.taken + 1 }, .drainNext (.item x) m.taken)
  | .drainReset =>
      if m.dq.dqItemsHead = .mediator then some ({ m with dq.dqItemsHead := .null }, .idle)
      else some (m, .idle)
  | .drainNext head number =>
      match head with
      | .item x =>
          match m.dq.doNext x with
          | some next => some (m, .drainStore head next number)
          | none => some (m, .drainClear head number)
      | _ => some (m, .fault)
  | .drainClear head number =>
      some ({ m with dq.dqItemsHead := .null }, .drainResetTail head number)
  | .drainResetTail head number =>
      if Word.ofOption m.dq.dqItemsTail = head then
        some ({ m with dq.dqItemsTail := none }, .drainReturn head number)
      else some (m, .drainWait head number)
  | .drainWait head number =>
      match head with
      | .item x =>
          match m.dq.doNext x with
          | some next => some (m, .drainStore head next number)
          | none => some (m, .drainWait head number)
      | _ => some (m, .fault)
  | .drainStore head next number =>
      some ({ m with dq.dqItemsHead := .item next }, .drainReturn head number)
  | .drainReturn head number =>
      some ({ m with
        dq.live := m.dq.live \ head.toOption.toFinset
        returned := (number, head) :: m.returned }, .idle)
  | _ => none

def step : Program T (Act α) (Mem α) (Loc α) := fun _ a m l ↦
  match l, a with
  | .idle, .push head rest =>
      (m.dq.prepare head rest).map fun r ↦ ({ m with dq := r.1 }, .push r.2)
  | .push p, .go =>
      let r := m.dq.pushList p
      some ({ m with dq := r.1 }, r.2.elim .idle .push)
  | .idle, .drain => dispatchQueueConcurrentDrainOne m .idle
  | .idle, .go => none
  | l, .go => dispatchQueueConcurrentDrainOne m l
  | _, _ => none

theorem exists_step_of_drain {m m' : Mem α} {l l' : Loc α}
    (h : dispatchQueueConcurrentDrainOne m l = some (m', l')) (t : T) :
    ∃ a, step t a m l = some (m', l') := by
  cases l
  case idle => exact ⟨.drain, h⟩
  case push | fault => cases h
  all_goals exact ⟨.go, h⟩

theorem step_of_push {m : Mem α} {p : Push α} {i : Items α} {p' : Option (Push α)}
    (h : m.dq.pushList p = (i, p')) (t : T) :
    step t .go m (.push p) = some ({ m with dq := i }, p'.elim .idle .push) := by
  simp [step, h]

def created (doNext : α → Option α) : Pool T (Mem α) (Loc α) :=
  ⟨⟨.empty doNext, 0, []⟩, fun _ ↦ .idle⟩

end LibDispatch.RootQueue
