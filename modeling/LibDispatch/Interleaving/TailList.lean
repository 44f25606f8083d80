import LibDispatch.Interleaving.Pool

/-!
# Lists published by exchanging the tail

A singly linked list that any number of threads extend without a lock.  A
pusher terminates its own nodes, exchanges the tail pointer for its last node
and only then stores the link from the node it found; until that store the
list has a gap that this pusher alone will close.  The nodes from the current
front to the tail form the *chain*.  The invariant `Linked` says that the chain
is linked up to such gaps and keeps apart the nodes that single threads own.
-/

namespace Interleaving

/-! ## Neighbours in a list -/

section Adjacent

variable {α : Type*}

def Adjacent (l : List α) (a b : α) : Prop := [a, b] <:+: l

@[simp] theorem not_adjacent_nil (a b : α) : ¬ Adjacent [] a b := by
  simp [Adjacent]

@[simp] theorem not_adjacent_singleton (x a b : α) : ¬ Adjacent [x] a b := by
  intro h
  have hlen := h.length_le
  simp at hlen

@[simp] theorem adjacent_cons_cons (x y : α) (l : List α) (a b : α) :
    Adjacent (x :: y :: l) a b ↔ (a = x ∧ b = y) ∨ Adjacent (y :: l) a b := by
  simp [Adjacent, List.infix_cons_iff]

theorem Adjacent.mem_left {l : List α} {a b : α} (h : Adjacent l a b) : a ∈ l :=
  h.subset (by simp)

theorem Adjacent.cons {l : List α} {a b : α} (h : Adjacent l a b) (x : α) :
    Adjacent (x :: l) a b :=
  h.trans (List.infix_cons (List.infix_refl l))

def IsLast (l : List α) (z : α) : Prop := l.getLast? = some z

@[simp] theorem not_isLast_nil (z : α) : ¬ IsLast [] z := by
  simp [IsLast]

@[simp] theorem isLast_singleton (x z : α) : IsLast [x] z ↔ z = x := by
  simp [IsLast, eq_comm]

@[simp] theorem isLast_cons_cons (x y : α) (l : List α) (z : α) :
    IsLast (x :: y :: l) z ↔ IsLast (y :: l) z := by
  simp [IsLast]

@[simp] theorem isLast_append_cons (l : List α) (x : α) (xs : List α) (z : α) :
    IsLast (l ++ x :: xs) z ↔ IsLast (x :: xs) z := by
  simp [IsLast]

theorem IsLast.mem {l : List α} {z : α} (h : IsLast l z) : z ∈ l :=
  List.mem_of_getLast? h

theorem IsLast.unique {l : List α} {y z : α} (hy : IsLast l y) (hz : IsLast l z) : y = z :=
  Option.some.inj (hy.symm.trans hz)

theorem adjacent_append {l : List α} {z : α} (hz : IsLast l z) (x : α) (xs : List α)
    (a b : α) :
    Adjacent (l ++ x :: xs) a b ↔
      Adjacent l a b ∨ (a = z ∧ b = x) ∨ Adjacent (x :: xs) a b := by
  induction l with
  | nil => simp at hz
  | cons y l ih =>
      cases l with
      | nil =>
          obtain rfl : z = y := by simpa using hz
          simp
      | cons w l =>
          have hih := ih (by simpa using hz)
          simp only [List.cons_append] at hih ⊢
          rw [adjacent_cons_cons, hih, adjacent_cons_cons, or_assoc]

theorem not_adjacent_last {l : List α} {z b : α} (hl : l.Nodup) (hz : IsLast l z) :
    ¬ Adjacent l z b := by
  induction l with
  | nil => simp
  | cons y l ih =>
      cases l with
      | nil => simp
      | cons w l =>
          have hz' : IsLast (w :: l) z := by simpa using hz
          rw [adjacent_cons_cons]
          rintro (⟨rfl, -⟩ | h)
          · exact (List.nodup_cons.mp hl).1 hz'.mem
          · exact ih (List.nodup_cons.mp hl).2 hz' h

theorem Adjacent.unique {l : List α} {a b c : α} (hl : l.Nodup) (hb : Adjacent l a b)
    (hc : Adjacent l a c) : b = c := by
  induction l with
  | nil => simp at hb
  | cons y l ih =>
      cases l with
      | nil => simp at hb
      | cons w l =>
          obtain ⟨hy, hl'⟩ := List.nodup_cons.mp hl
          rw [adjacent_cons_cons] at hb hc
          rcases hb with ⟨rfl, rfl⟩ | hb <;> rcases hc with ⟨h₁, rfl⟩ | hc
          · rfl
          · exact (hy hc.mem_left).elim
          · exact (hy (h₁ ▸ hb.mem_left)).elim
          · exact ih hl' hb hc

end Adjacent

section LinkUp

variable {α : Type*} [DecidableEq α]

/-- Link the listed nodes to each other, each to the next one. -/
def linkUp (next : α → Option α) : List α → α → Option α
  | x :: y :: l => Function.update (linkUp next (y :: l)) x (some y)
  | _ => next

theorem linkUp_of_notMem (next : α → Option α) {l : List α} {a : α} (ha : a ∉ l) :
    linkUp next l a = next a := by
  induction l with
  | nil => rfl
  | cons x l ih =>
      cases l with
      | nil => rfl
      | cons y l =>
          have hal : a ∉ y :: l := fun h ↦ ha (List.mem_cons_of_mem x h)
          rw [linkUp, Function.update_of_ne (List.ne_of_not_mem_cons ha), ih hal]

theorem linkUp_of_adjacent (next : α → Option α) {l : List α} {a b : α} (hl : l.Nodup)
    (hab : Adjacent l a b) : linkUp next l a = some b := by
  induction l with
  | nil => simp at hab
  | cons x l ih =>
      cases l with
      | nil => simp at hab
      | cons y l =>
          obtain ⟨hx, hl'⟩ := List.nodup_cons.mp hl
          rcases (adjacent_cons_cons _ _ _ _ _).mp hab with ⟨rfl, rfl⟩ | hab'
          · simp [linkUp]
          · have hax : a ≠ x := by
              rintro rfl
              exact hx hab'.mem_left
            rw [linkUp, Function.update_of_ne hax, ih hl' hab']

end LinkUp

/-! ## The invariant -/

/-- What a thread has to do with the list: the nodes it owns, whether it is
still building them into a list of their own, whether it has terminated that
list, and the link `next a := b` that it has yet to store. -/
structure Role (α : Type*) where
  own : List α := []
  building : Bool := false
  sealed : Bool := false
  link : Option (α × α) := none

namespace TailList

variable {T α : Type*}

/-- The chain is linked except where a pusher has yet to store the link, and every
node in use is in the chain or owned by one thread. -/
structure Linked (next : α → Option α) (live : Finset α) (roles : T → Role α)
    (chain : List α) : Prop where
  nodup : chain.Nodup
  linked : ∀ a b, Adjacent chain a b → next a ≠ none → next a = some b
  gap : ∀ a b, Adjacent chain a b → next a = none → ∃ t, (roles t).link = some (a, b)
  last : ∀ a, IsLast chain a → next a = none
  pending : ∀ t a b, (roles t).link = some (a, b) → next a = none ∧ Adjacent chain a b
  unique : ∀ t u a b c, (roles t).link = some (a, b) → (roles u).link = some (a, c) → t = u
  own_nodup : ∀ t, (roles t).own.Nodup
  own_unique : ∀ t u x, x ∈ (roles t).own → x ∈ (roles u).own → t = u
  own_fresh : ∀ t x, x ∈ (roles t).own → x ∉ chain
  own_live : ∀ t x, x ∈ (roles t).own → x ∈ live
  chain_live : ∀ x ∈ chain, x ∈ live
  building : ∀ t, (roles t).building → ∀ a b, Adjacent (roles t).own a b → next a = some b
  sealed : ∀ t, (roles t).sealed → ∀ a, IsLast (roles t).own a → next a = none

theorem linked_empty (next : α → Option α) : Linked next ∅ (fun _ : T ↦ {}) [] := by
  constructor <;> simp

section Steps

variable {next next' : α → Option α} {live live' : Finset α} {roles roles' : T → Role α}
  {chain xs : List α} {t : T}

theorem Linked.build {terminated : Bool} (h : Linked next live roles chain)
    (hm : Moves roles roles' t {} { own := xs, building := true, sealed := terminated })
    (hxs : xs.Nodup) (hfresh : ∀ x ∈ xs, x ∉ live) (hframe : ∀ x ∉ xs, next' x = next x)
    (hnext : ∀ a b, Adjacent xs a b → next' a = some b)
    (hlast : terminated → ∀ a, IsLast xs a → next' a = none)
    (hlive : ∀ x, x ∈ live' ↔ x ∈ live ∨ x ∈ xs) : Linked next' live' roles' chain := by
  obtain ⟨ht, hrole⟩ := hm
  obtain ⟨nodup, linked, gap, last, pending, unique, own_nodup, own_unique, own_fresh,
    own_live, chain_live, building, sealed⟩ := h
  have hchain : ∀ x ∈ chain, next' x = next x := fun x hx ↦
    hframe x fun hmem ↦ hfresh x hmem (chain_live x hx)
  constructor
  all_goals grind [Adjacent.mem_left, IsLast.mem]

theorem Linked.seal {z : α} (h : Linked next live roles chain)
    (hm : Moves roles roles' t { own := xs, building := true }
      { own := xs, building := true, sealed := true })
    (hz : IsLast xs z) (hframe : ∀ x ≠ z, next' x = next x) (hnext : next' z = none) :
    Linked next' live roles' chain := by
  obtain ⟨ht, hrole⟩ := hm
  obtain ⟨nodup, linked, gap, last, pending, unique, own_nodup, own_unique, own_fresh,
    own_live, chain_live, building, sealed⟩ := h
  have hzxs : z ∈ xs := hz.mem
  have hchain : ∀ x ∈ chain, next' x = next x := fun x hx ↦ hframe x (by grind)
  constructor
  all_goals grind [Adjacent.mem_left, IsLast.mem, not_adjacent_last, IsLast.unique]

theorem Linked.exchange_nil (h : Linked next live roles [])
    (hm : Moves roles roles' t { own := xs, building := true, sealed := true } {}) :
    Linked next live roles' xs := by
  obtain ⟨ht, hrole⟩ := hm
  obtain ⟨nodup, linked, gap, last, pending, unique, own_nodup, own_unique, own_fresh,
    own_live, chain_live, building, sealed⟩ := h
  constructor
  all_goals grind [not_adjacent_nil]

/-- The exchange of a tail that holds `z` publishes the nodes behind `z`; the link
from `z` is left to be stored. -/
theorem Linked.exchange {z x : α} (h : Linked next live roles chain) (hz : IsLast chain z)
    (hm : Moves roles roles' t { own := x :: xs, building := true, sealed := true }
      { link := some (z, x) }) :
    Linked next live roles' (chain ++ x :: xs) := by
  have hadj := adjacent_append hz x xs
  have hlink : ∀ u a b, (roles u).link = some (a, b) → a ≠ z := by
    rintro u a b hab rfl
    exact not_adjacent_last h.nodup hz (h.pending u a b hab).2
  obtain ⟨ht, hrole⟩ := hm
  obtain ⟨nodup, linked, gap, last, pending, unique, own_nodup, own_unique, own_fresh,
    own_live, chain_live, building, sealed⟩ := h
  constructor
  all_goals grind [Adjacent.mem_left, IsLast.mem, isLast_append_cons]

theorem Linked.link {a b : α} (h : Linked next live roles chain)
    (hm : Moves roles roles' t { link := some (a, b) } {})
    (hframe : ∀ x ≠ a, next' x = next x) (hnext : next' a = some b) :
    Linked next' live roles' chain := by
  obtain ⟨ht, hrole⟩ := hm
  have hab : Adjacent chain a b := (h.pending t a b (by rw [ht])).2
  have hlast : ¬ IsLast chain a := fun ha ↦ not_adjacent_last h.nodup ha hab
  have hnext_unique : ∀ c, Adjacent chain a c → b = c := fun c hc ↦ hab.unique h.nodup hc
  have hstore : ∀ x, (x = a ∧ next' x = some b) ∨ (x ≠ a ∧ next' x = next x) := by
    intro x
    rcases eq_or_ne x a with rfl | hx
    · exact .inl ⟨rfl, hnext⟩
    · exact .inr ⟨hx, hframe x hx⟩
  have hown : ∀ u, a ∉ (roles u).own := fun u ha ↦ h.own_fresh u a ha hab.mem_left
  obtain ⟨nodup, linked, gap, last, pending, unique, own_nodup, own_unique, own_fresh,
    own_live, chain_live, building, sealed⟩ := h
  constructor
  all_goals grind [Adjacent.mem_left, IsLast.mem]

theorem Linked.advance {x y : α} (h : Linked next live roles (x :: y :: xs))
    (hnext : next x = some y) (hm : Moves roles roles' t {} { own := [x] }) :
    Linked next live roles' (y :: xs) := by
  obtain ⟨ht, hrole⟩ := hm
  have hx : ∀ u a b, (roles u).link = some (a, b) → a ≠ x := by
    rintro u a b hab rfl
    simp [(h.pending u a b hab).1] at hnext
  have hadj := adjacent_cons_cons x y xs
  obtain ⟨nodup, linked, gap, last, pending, unique, own_nodup, own_unique, own_fresh,
    own_live, chain_live, building, sealed⟩ := h
  constructor
  all_goals grind [isLast_cons_cons, not_adjacent_singleton]

theorem Linked.pop {x y : α} (h : Linked next live roles (x :: y :: xs))
    (hnext : next x = some y) (hlive : ∀ z, z ∈ live' ↔ z ∈ live ∧ z ≠ x) :
    Linked next live' roles (y :: xs) := by
  have hx : ∀ u a b, (roles u).link = some (a, b) → a ≠ x := by
    rintro u a b hab rfl
    simp [(h.pending u a b hab).1] at hnext
  have hadj := adjacent_cons_cons x y xs
  obtain ⟨nodup, linked, gap, last, pending, unique, own_nodup, own_unique, own_fresh,
    own_live, chain_live, building, sealed⟩ := h
  constructor
  all_goals grind [isLast_cons_cons]

theorem Linked.close {x : α} {terminated : Bool} (h : Linked next live roles [x])
    (hm : Moves roles roles' t {} { own := [x], sealed := terminated }) :
    Linked next live roles' [] := by
  obtain ⟨ht, hrole⟩ := hm
  obtain ⟨nodup, linked, gap, last, pending, unique, own_nodup, own_unique, own_fresh,
    own_live, chain_live, building, sealed⟩ := h
  constructor
  all_goals grind [not_isLast_nil, not_adjacent_nil, not_adjacent_singleton, isLast_singleton]

theorem Linked.release {terminated : Bool} (h : Linked next live roles chain)
    (hm : Moves roles roles' t { own := xs, sealed := terminated } {})
    (hlive : ∀ x, x ∈ live' ↔ x ∈ live ∧ x ∉ xs) : Linked next live' roles' chain := by
  obtain ⟨ht, hrole⟩ := hm
  obtain ⟨nodup, linked, gap, last, pending, unique, own_nodup, own_unique, own_fresh,
    own_live, chain_live, building, sealed⟩ := h
  constructor
  all_goals grind

theorem Linked.reopen {x : α} (h : Linked next live roles [])
    (hm : Moves roles roles' t { own := [x], sealed := true } {}) :
    Linked next live roles' [x] := by
  obtain ⟨ht, hrole⟩ := hm
  obtain ⟨nodup, linked, gap, last, pending, unique, own_nodup, own_unique, own_fresh,
    own_live, chain_live, building, sealed⟩ := h
  have hnext : next x = none := sealed t (by rw [ht]) x (by rw [ht]; simp)
  constructor
  all_goals grind [isLast_singleton, not_adjacent_nil, not_adjacent_singleton]

theorem Linked.putBack {x y : α} (h : Linked next live roles (y :: xs))
    (hm : Moves roles roles' t { own := [x], sealed := true } { link := some (x, y) }) :
    Linked next live roles' (x :: y :: xs) := by
  obtain ⟨ht, hrole⟩ := hm
  have hx : x ∉ y :: xs := h.own_fresh t x (by rw [ht]; simp)
  have hnext : next x = none := h.sealed t (by rw [ht]) x (by rw [ht]; simp)
  have hlink : ∀ u a b, (roles u).link = some (a, b) → a ≠ x := by
    rintro u a b hab rfl
    exact hx (h.pending u a b hab).2.mem_left
  have hadj := adjacent_cons_cons x y xs
  have hself := hrole t
  obtain ⟨nodup, linked, gap, last, pending, unique, own_nodup, own_unique, own_fresh,
    own_live, chain_live, building, sealed⟩ := h
  constructor
  all_goals grind [Adjacent.mem_left, IsLast.mem, isLast_cons_cons]

end Steps

/-! ## Reading the list -/

section Read

variable {next : α → Option α} {live : Finset α} {roles : T → Role α} {xs : List α}

theorem Linked.next_eq {x y : α} (h : Linked next live roles (x :: xs))
    (hnext : next x = some y) : ∃ ys, xs = y :: ys := by
  cases xs with
  | nil => simp [h.last x (by simp)] at hnext
  | cons z zs =>
      have hz := h.linked x z (by simp) (by simp [hnext])
      exact ⟨zs, by simp_all⟩

theorem Linked.next_none {x : α} (h : Linked next live roles (x :: xs))
    (hnext : next x = none) : xs = [] ∨ ∃ t y, (roles t).link = some (x, y) := by
  cases xs with
  | nil => exact .inl rfl
  | cons z zs =>
      obtain ⟨t, ht⟩ := h.gap x z (by simp) hnext
      exact .inr ⟨t, z, ht⟩

/-- What a reader can come to by following links from the nodes in `start`. -/
inductive Follows (next : α → Option α) (start : α → Prop) : α → Prop
  | start {x : α} : start x → Follows next start x
  | link {x y : α} : Follows next start x → next x = some y → Follows next start y

theorem Follows.mono {start start' : α → Prop} {x : α} (h : Follows next start x)
    (hstart : ∀ y, start y → start' y) : Follows next start' x := by
  induction h with
  | start hx => exact .start (hstart _ hx)
  | link _ hnext ih => exact ih.link hnext

theorem follows_of_adjacent {start : α → Prop} {x : α} (hx : Follows next start x)
    (h : ∀ a b, Adjacent (x :: xs) a b → next a = some b ∨ start b) :
    ∀ y ∈ x :: xs, Follows next start y := by
  induction xs generalizing x with
  | nil => simpa using hx
  | cons z zs ih =>
      have hz : Follows next start z := by
        rcases h x z (by simp) with hnext | hstart
        · exact hx.link hnext
        · exact .start hstart
      intro y hy
      rcases List.mem_cons.mp hy with rfl | hy
      · exact hx
      · exact ih hz (fun a b hab ↦ h a b (hab.cons x)) y hy

/-- Every node of the chain can be reached from its front and from the nodes that
pushers have yet to link. -/
theorem Linked.follows {x : α} (h : Linked next live roles (x :: xs)) :
    ∀ y ∈ x :: xs,
      Follows next (fun z ↦ z = x ∨ ∃ t a, (roles t).link = some (a, z)) y := by
  refine follows_of_adjacent (.start (.inl rfl)) fun a b hab ↦ ?_
  by_cases hnext : next a = none
  · obtain ⟨t, ht⟩ := h.gap a b hab hnext
    exact .inr (.inr ⟨t, a, ht⟩)
  · exact .inl (h.linked a b hab hnext)

end Read

/-! ## The front of the list -/

/-- The first node of the chain is known in one place: it is stored in the head, or
one thread holds it. -/
structure Fronted (head : Option α) (hold : T → Option α) (chain : List α) : Prop where
  head_eq : ∀ x, head = some x → chain.head? = some x
  hold_eq : ∀ t x, hold t = some x → chain.head? = some x
  head_hold : ∀ t, head ≠ none → hold t = none
  unique : ∀ t u, hold t ≠ none → hold u ≠ none → t = u
  exists_front : chain ≠ [] → head ≠ none ∨ ∃ t, hold t ≠ none

theorem fronted_empty : Fronted none (fun _ : T ↦ none) ([] : List α) := by
  constructor <;> simp

section Front

variable {head : Option α} {hold hold' : T → Option α} {chain : List α} {t : T} {x y : α}

theorem Fronted.eq_none (h : Fronted head hold []) : head = none ∧ ∀ t, hold t = none := by
  constructor
  · cases hhead : head with
    | none => rfl
    | some z => simpa using h.head_eq z hhead
  · intro t
    cases ht : hold t with
    | none => rfl
    | some z => simpa using h.hold_eq t z ht

theorem Fronted.open (h : Fronted head hold []) (hm : Moves hold hold' t none (some x)) :
    Fronted head hold' [x] := by
  obtain ⟨ht, hmove⟩ := hm
  obtain ⟨hhead, hnone⟩ := h.eq_none
  have hself := hmove t
  constructor
  all_goals grind

theorem Fronted.extend (h : Fronted head hold (x :: chain)) (xs : List α) :
    Fronted head hold (x :: (chain ++ xs)) := by
  obtain ⟨head_eq, hold_eq, head_hold, unique, exists_front⟩ := h
  constructor
  all_goals grind

theorem Fronted.store (h : Fronted head hold chain) (hm : Moves hold hold' t (some x) none) :
    Fronted (some x) hold' chain := by
  obtain ⟨ht, hmove⟩ := hm
  have hself := hmove t
  obtain ⟨head_eq, hold_eq, head_hold, unique, exists_front⟩ := h
  constructor
  all_goals grind

theorem Fronted.take (h : Fronted head hold chain) (hm : Moves hold hold' t none head) :
    Fronted none hold' chain := by
  obtain ⟨ht, hmove⟩ := hm
  have hself := hmove t
  obtain ⟨head_eq, hold_eq, head_hold, unique, exists_front⟩ := h
  constructor
  all_goals grind

theorem Fronted.advance (h : Fronted head hold (x :: y :: chain))
    (hm : Moves hold hold' t (some x) (some y)) : Fronted head hold' (y :: chain) := by
  obtain ⟨ht, hmove⟩ := hm
  have hself := hmove t
  obtain ⟨head_eq, hold_eq, head_hold, unique, exists_front⟩ := h
  constructor
  all_goals grind

theorem Fronted.close (h : Fronted head hold [x]) (hm : Moves hold hold' t (some x) none) :
    Fronted head hold' [] := by
  obtain ⟨ht, hmove⟩ := hm
  have hself := hmove t
  obtain ⟨head_eq, hold_eq, head_hold, unique, exists_front⟩ := h
  constructor
  all_goals grind

theorem Fronted.putBack (h : Fronted (some y) hold chain) (x : α) :
    Fronted (some x) hold (x :: chain) := by
  obtain ⟨head_eq, hold_eq, head_hold, unique, exists_front⟩ := h
  constructor
  all_goals grind

end Front

/-! ## The list as a whole -/

/-- The list with its two end pointers: the tail points to the last node of the chain,
and its first node is stored in the head or held by one thread. -/
structure Shape (head tail : Option α) (next : α → Option α) (live : Finset α)
    (roles : T → Role α) (hold : T → Option α) (chain : List α) : Prop where
  linked : Linked next live roles chain
  tail_eq : tail = chain.getLast?
  front : Fronted head hold chain

theorem shape_empty (next : α → Option α) :
    Shape none none next ∅ (fun _ : T ↦ {}) (fun _ ↦ none) [] :=
  ⟨linked_empty next, rfl, fronted_empty⟩

section Whole

variable {head tail : Option α} {next next' : α → Option α} {live live' : Finset α}
  {roles roles' : T → Role α} {hold hold' : T → Option α} {chain xs : List α} {t : T} {x y : α}

theorem Shape.isLast (h : Shape head tail next live roles hold chain) (htail : tail = some x) :
    IsLast chain x :=
  h.tail_eq.symm.trans htail

theorem Shape.eq_nil (h : Shape head tail next live roles hold chain) (htail : tail = none) :
    chain = [] :=
  List.getLast?_eq_none_iff.mp (h.tail_eq.symm.trans htail)

theorem Shape.eq_cons (h : Shape head tail next live roles hold chain)
    (ht : hold t = some x) : ∃ xs, chain = x :: xs :=
  List.head?_eq_some_iff.mp (h.front.hold_eq t x ht)

theorem Shape.exchange (h : Shape head tail next live roles hold chain) (htail : tail = some y)
    (hm : Moves roles roles' t { own := x :: xs, building := true, sealed := true }
      { link := some (y, x) }) :
    Shape head (x :: xs).getLast? next live roles' hold (chain ++ x :: xs) := by
  have hlast := h.isLast htail
  have hne : chain ≠ [] := by
    rintro rfl
    simp at hlast
  obtain ⟨z, zs, rfl⟩ := List.exists_cons_of_ne_nil hne
  refine ⟨h.linked.exchange hlast hm, ?_, h.front.extend (x :: xs)⟩
  exact (List.getLast?_append_of_ne_nil _ (by simp)).symm

theorem Shape.exchange_nil (h : Shape head tail next live roles hold chain)
    (htail : tail = none)
    (hm : Moves roles roles' t { own := x :: xs, building := true, sealed := true } {})
    (hh : Moves hold hold' t none (some x)) :
    Shape head (x :: xs).getLast? next live roles' hold' (x :: xs) := by
  obtain rfl := h.eq_nil htail
  exact ⟨h.linked.exchange_nil hm, rfl, (h.front.open hh).extend xs⟩

theorem Shape.advance (h : Shape head tail next live roles hold chain) (ht : hold t = some x)
    (hnext : next x = some y) (hm : Moves roles roles' t {} { own := [x] })
    (hh : Moves hold hold' t (some x) (some y)) :
    ∃ ys, chain = x :: y :: ys ∧ Shape head tail next live roles' hold' (y :: ys) := by
  obtain ⟨xs, rfl⟩ := h.eq_cons ht
  obtain ⟨ys, rfl⟩ := h.linked.next_eq hnext
  exact ⟨ys, rfl, h.linked.advance hnext hm, by simpa using h.tail_eq, h.front.advance hh⟩

theorem Shape.pop (h : Shape head tail next live roles hold chain) (ht : hold t = some x)
    (hnext : next x = some y) (hlive : ∀ z, z ∈ live' ↔ z ∈ live ∧ z ≠ x)
    (hh : Moves hold hold' t (some x) (some y)) :
    ∃ ys, chain = x :: y :: ys ∧ Shape head tail next live' roles hold' (y :: ys) := by
  obtain ⟨xs, rfl⟩ := h.eq_cons ht
  obtain ⟨ys, rfl⟩ := h.linked.next_eq hnext
  exact ⟨ys, rfl, h.linked.pop hnext hlive, by simpa using h.tail_eq, h.front.advance hh⟩

theorem Shape.eq_singleton (h : Shape head tail next live roles hold chain)
    (ht : hold t = some x) (htail : tail = some x) : chain = [x] := by
  obtain ⟨xs, rfl⟩ := h.eq_cons ht
  have hlast := h.isLast htail
  cases xs with
  | nil => rfl
  | cons y ys =>
      rw [isLast_cons_cons] at hlast
      exact ((List.nodup_cons.mp h.linked.nodup).1 hlast.mem).elim

theorem Shape.close {terminated : Bool} (h : Shape head tail next live roles hold chain)
    (ht : hold t = some x) (htail : tail = some x)
    (hm : Moves roles roles' t {} { own := [x], sealed := terminated })
    (hh : Moves hold hold' t (some x) none) :
    Shape head none next live roles' hold' [] := by
  obtain rfl := h.eq_singleton ht htail
  exact ⟨h.linked.close hm, rfl, h.front.close hh⟩

end Whole

end TailList

end Interleaving
