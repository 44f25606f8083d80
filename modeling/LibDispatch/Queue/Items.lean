import LibDispatch.Interleaving.TailList

/-!
# The item list of a queue

The items of a queue hang on `dq_items_head` and `dq_items_tail`, linked by
`do_next`.  Any thread may push a list of items that it has linked itself:
it terminates its list, exchanges the tail, and then stores the link from the
item it found, or the head if it found none.
-/

namespace LibDispatch

open Interleaving TailList

/-- A pointer to an item as `dq_items_head` may hold it; `mediator` is `~0ul`. -/
inductive Word (α : Type*)
  | null
  | mediator
  | item (x : α)
  deriving DecidableEq, Repr

def Word.toOption {α : Type*} : Word α → Option α
  | .item x => some x
  | _ => none

def Word.ofOption {α : Type*} : Option α → Word α
  | some x => .item x
  | none => .null

/-- The list of a queue.  The field `live` holds the items in use; the field behind
it is history: the items pushed so far, in the order of their exchanges. -/
structure Items (α : Type*) where
  dqItemsHead : Word α
  dqItemsTail : Option α
  doNext : α → Option α
  live : Finset α
  pushed : List α

/-- Where a call of `_dispatch_queue_push_list` stands, with the items it pushes. -/
inductive Push (α : Type*)
  | terminate (head : α) (rest : List α)
  | exchange (head : α) (rest : List α)
  | link (prev head : α)
  | storeHead (head : α)
  deriving DecidableEq, Repr

variable {α : Type*}

def tailOf (head : α) (rest : List α) : α := (head :: rest).getLast (List.cons_ne_nil _ _)

/-- An empty queue, with any contents of the memory for the items. -/
def Items.empty (doNext : α → Option α) : Items α where
  dqItemsHead := .null
  dqItemsTail := none
  doNext := doNext
  live := ∅
  pushed := []

variable [DecidableEq α]

/-- The caller of `_dispatch_queue_push_list` links items that are not in use. -/
def Items.prepare (i : Items α) (head : α) (rest : List α) : Option (Items α × Push α) :=
  if (head :: rest).Nodup ∧ ∀ x ∈ head :: rest, x ∉ i.live then
    some ({ i with
      doNext := linkUp i.doNext (head :: rest)
      live := i.live ∪ (head :: rest).toFinset }, .terminate head rest)
  else none

/-- `_dispatch_queue_push_list` and the store in `_dispatch_queue_push_list_slow`. -/
def Items.pushList (i : Items α) : Push α → Items α × Option (Push α)
  | .terminate head rest =>
      ({ i with doNext := Function.update i.doNext (tailOf head rest) none },
        some (.exchange head rest))
  | .exchange head rest =>
      ({ i with
        dqItemsTail := some (tailOf head rest)
        pushed := i.pushed ++ head :: rest },
        match i.dqItemsTail with
        | some prev => some (.link prev head)
        | none => some (.storeHead head))
  | .link prev head => ({ i with doNext := Function.update i.doNext prev (some head) }, none)
  | .storeHead head => ({ i with dqItemsHead := .item head }, none)

/-! ## Pushing keeps the list -/

/-- What a call of `_dispatch_queue_push_list` has to do with the items. -/
def Push.role : Push α → Role α
  | .terminate head rest => { own := head :: rest, building := true }
  | .exchange head rest => { own := head :: rest, building := true, sealed := true }
  | .link prev head => { link := some (prev, head) }
  | .storeHead _ => {}

/-- The first item of the list, if the call is about to store it in the head. -/
def Push.hold : Push α → Option α
  | .storeHead head => some head
  | _ => none

/-- The last item is in the hands of a call that is about to store the head, or has just
stored it, or the list was not empty before. -/
theorem Items.tail_pushList {i i' : Items α} {p : Push α} {p' : Option (Push α)}
    (h : i.pushList p = (i', p')) (htail : i'.dqItemsTail ≠ none) :
    (∃ head, p' = some (.storeHead head)) ∨ (∃ head, p = .storeHead head ∧ p' = none) ∨
      i.dqItemsTail ≠ none ∧ p.hold = none := by
  cases p with
  | terminate =>
      cases h
      exact .inr (.inr ⟨htail, rfl⟩)
  | exchange head =>
      simp only [Items.pushList] at h
      split at h <;> cases h
      · rename_i hprev
        exact .inr (.inr ⟨by simp [hprev], rfl⟩)
      · exact .inl ⟨head, rfl⟩
  | link =>
      cases h
      exact .inr (.inr ⟨htail, rfl⟩)
  | storeHead head =>
      cases h
      exact .inr (.inl ⟨head, rfl, rfl⟩)

theorem Items.head_pushList {i i' : Items α} {p : Push α} {p' : Option (Push α)}
    (h : i.pushList p = (i', p')) (hhead : i'.dqItemsHead = .mediator) :
    i.dqItemsHead = .mediator := by
  cases p with
  | exchange =>
      simp only [Items.pushList] at h
      split at h
      all_goals
        cases h
        exact hhead
  | storeHead =>
      cases h
      cases hhead
  | _ =>
      cases h
      exact hhead

theorem Items.ends_prepare {i i' : Items α} {head : α} {rest : List α} {p : Push α}
    (h : i.prepare head rest = some (i', p)) :
    i'.dqItemsTail = i.dqItemsTail ∧ i'.dqItemsHead = i.dqItemsHead := by
  unfold Items.prepare at h
  split at h <;> cases h
  exact ⟨rfl, rfl⟩

section Shape

variable {T : Type*} {roles roles' : T → Role α} {hold hold' : T → Option α} {chain : List α}
  {t : T} {i i' : Items α}

/-- The list of a queue, as the threads see it. -/
abbrev Items.Shape (i : Items α) (roles : T → Role α) (hold : T → Option α)
    (chain : List α) : Prop :=
  TailList.Shape i.dqItemsHead.toOption i.dqItemsTail i.doNext i.live roles hold chain

omit [DecidableEq α] in
theorem isLast_tailOf (head : α) (rest : List α) :
    IsLast (head :: rest) (tailOf head rest) :=
  List.getLast?_eq_some_getLast (List.cons_ne_nil _ _)

theorem Items.hold_prepare {head : α} {rest : List α} {p : Push α}
    (hp : i.prepare head rest = some (i', p)) : p.hold = none := by
  unfold prepare at hp
  split at hp <;> cases hp
  rfl

theorem Items.pushed_prepare {head : α} {rest : List α} {p : Push α}
    (hp : i.prepare head rest = some (i', p)) : i'.pushed = i.pushed := by
  unfold prepare at hp
  split at hp <;> cases hp
  rfl

theorem Items.shape_prepare {head : α} {rest : List α} {p : Push α}
    (hp : i.prepare head rest = some (i', p)) (h : i.Shape roles hold chain)
    (hm : Moves roles roles' t {} p.role) : i'.Shape roles' hold chain := by
  unfold prepare at hp
  split at hp
  · rename_i hguard
    obtain ⟨hnodup, hfresh⟩ := hguard
    cases hp
    refine ⟨h.linked.build hm hnodup hfresh ?_ ?_ (by simp) ?_, h.tail_eq, h.front⟩
    · intro x hx
      exact linkUp_of_notMem _ hx
    · intro a b hab
      exact linkUp_of_adjacent _ hnodup hab
    · intro x
      rw [Finset.mem_union, List.mem_toFinset]
  · cases hp

theorem Items.shape_pushList {p : Push α} {p' : Option (Push α)}
    (hp : i.pushList p = (i', p')) (h : i.Shape roles hold chain)
    (hm : Moves roles roles' t p.role (p'.elim {} Push.role))
    (hh : Moves hold hold' t p.hold (p'.elim none Push.hold)) :
    ∃ ys, i'.Shape roles' hold' (chain ++ ys) ∧ i'.pushed = i.pushed ++ ys := by
  cases p with
  | terminate head rest =>
      cases hp
      refine ⟨[], ?_, by simp⟩
      rw [List.append_nil, hh.eq_of_eq]
      refine ⟨h.linked.seal hm (isLast_tailOf head rest) ?_ (by simp), h.tail_eq, h.front⟩
      intro x hx
      exact Function.update_of_ne hx _ _
  | exchange head rest =>
      simp only [pushList] at hp
      split at hp
      all_goals
        rename_i htail
        cases hp
        refine ⟨head :: rest, ?_, rfl⟩
      · rw [hh.eq_of_eq]
        have hshape := h.exchange htail hm
        rwa [isLast_tailOf head rest] at hshape
      · obtain rfl := h.eq_nil htail
        have hshape := h.exchange_nil htail hm hh
        rwa [isLast_tailOf head rest] at hshape
  | link prev head =>
      cases hp
      refine ⟨[], ?_, by simp⟩
      rw [List.append_nil, hh.eq_of_eq]
      refine ⟨h.linked.link hm ?_ (by simp), h.tail_eq, h.front⟩
      intro x hx
      exact Function.update_of_ne hx _ _
  | storeHead head =>
      cases hp
      refine ⟨[], ?_, by simp⟩
      rw [List.append_nil, hm.eq_of_eq]
      exact ⟨h.linked, h.tail_eq, h.front.store hh⟩

/-- The links and the head that are stored stay as they are. -/
structure Items.Keeps (i i' : Items α) (chain : List α) : Prop where
  doNext : ∀ a ∈ chain, ∀ b, i.doNext a = some b → i'.doNext a = some b
  head : ∀ x, i.dqItemsHead = .item x → i'.dqItemsHead = .item x
  plain : i.dqItemsHead ≠ .mediator → i'.dqItemsHead ≠ .mediator

theorem Items.keeps_prepare {head : α} {rest : List α} {p : Push α}
    (hp : i.prepare head rest = some (i', p)) (h : i.Shape roles hold chain) :
    i.Keeps i' chain := by
  unfold prepare at hp
  split at hp <;> cases hp
  rename_i hguard
  refine ⟨fun a ha b hab ↦ ?_, fun x hx ↦ hx, fun hne ↦ hne⟩
  have hfresh : a ∉ head :: rest := fun hmem ↦ hguard.2 a hmem (h.linked.chain_live a ha)
  exact (linkUp_of_notMem _ hfresh).trans hab

theorem Items.keeps_pushList {p : Push α} {p' : Option (Push α)}
    (hp : i.pushList p = (i', p')) (h : i.Shape roles hold chain)
    (hrole : roles t = p.role) (hhold : hold t = p.hold) : i.Keeps i' chain := by
  cases p with
  | terminate head rest =>
      cases hp
      refine ⟨fun a ha b hab ↦ ?_, fun x hx ↦ hx, fun hne ↦ hne⟩
      have hne : a ≠ tailOf head rest := by
        rintro rfl
        exact h.linked.own_fresh t _ (by rw [hrole]; exact (isLast_tailOf head rest).mem) ha
      exact (Function.update_of_ne hne _ _).trans hab
  | exchange head rest =>
      cases hp
      exact ⟨fun a _ b hab ↦ hab, fun x hx ↦ hx, fun hne ↦ hne⟩
  | link prev head =>
      cases hp
      refine ⟨fun a _ b hab ↦ ?_, fun x hx ↦ hx, fun hne ↦ hne⟩
      have hne : a ≠ prev := by
        rintro rfl
        simp [(h.linked.pending t a head (by rw [hrole]; rfl)).1] at hab
      exact (Function.update_of_ne hne _ _).trans hab
  | storeHead head =>
      cases hp
      refine ⟨fun a _ b hab ↦ hab, fun x hx ↦ ?_, fun _ ↦ by simp⟩
      have hnone := h.front.head_hold t (by simp [hx, Word.toOption])
      simp [hhold, Push.hold] at hnone

end Shape

end LibDispatch
