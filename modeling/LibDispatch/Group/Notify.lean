import LibDispatch.Group.Members

/-!
# Notifications of a group

The notification list is a list published by exchanging its tail.  Its first
node is stored in `dsema_notify_head`, or one thread holds it: the caller of
`dispatch_group_notify_f` that found the list empty, or the wake that walks it.
So there is one walker at a time, it submits the nodes in their order, and the
reference that the first caller took is released by the walker that drains the
list.
-/

namespace LibDispatch.Group

open Interleaving TailList

variable {α ν T : Type*}

/-- What a thread has to do with the nodes of the list. -/
def Loc.role : Loc α → Role α
  | .notifyExchange dsn => { own := [dsn], building := true, sealed := true }
  | .notifyLink prev dsn => { link := some (prev, dsn) }
  | .wakeFree _ head _ | .wakeFreeLast _ head _ => { own := [head] }
  | _ => {}

/-- The first node of the list, if the thread holds it. -/
def Loc.hold : Loc α → Option α
  | .notifyRetain dsn _ | .notifyHead dsn => some dsn
  | .wakeWaiters _ head | .wakePost _ head _ => head
  | .wakeSubmit _ head | .wakeNext _ head | .wakeReset _ head => some head
  | .wakeFree _ _ tmp => some tmp
  | _ => none

def Loc.passed : Loc α → Bool
  | .wakeNext .. | .wakeReset .. => true
  | _ => false

theorem Loc.hold_of_passed {l : Loc α} (h : l.passed) : l.hold ≠ none := by
  cases l <;> simp_all [passed, hold]

structure Listed (m : Mem α ν) (loc : T → Loc α) (chain : List α) : Prop where
  linked : Linked m.dsnNext m.live (fun t ↦ (loc t).role) chain
  tail_eq : m.notifyTail = chain.getLast?
  front : Fronted m.notifyHead (fun t ↦ (loc t).hold) chain
  unpassed : (∀ t, (loc t).passed = false) → m.registered = m.submitted ++ chain.map m.dsn
  passed : ∀ t, (loc t).passed → m.registered = m.submitted ++ chain.tail.map m.dsn

def Loc.retaining : Loc α → Option ℕ
  | .notifyRetain _ filling => some filling
  | _ => none

def Loc.releasing : Loc α → Option ℕ
  | .wakeFreeLast _ _ filling | .wakeRelease _ filling => some filling
  | _ => none

theorem Loc.hold_of_retaining {l : Loc α} {e : ℕ} (h : l.retaining = some e) :
    l.hold ≠ none := by
  cases l <;> simp_all [retaining, hold]

/-- The references on the group: one for each filling of the list, to be released
once that filling has been drained. -/
structure Referenced (m : Mem α ν) (loc : T → Loc α) (chain : List α) : Prop where
  opened_eq : m.opened = m.drained + if chain = [] then 0 else 1
  retained : Ledger (fun t ↦ (loc t).retaining) m.retained m.opened
  released : Ledger (fun t ↦ (loc t).releasing) m.released m.drained
  retaining_eq : ∀ t e, (loc t).retaining = some e → e = m.drained

section Steps

variable {m m' : Mem α ν} {loc : T → Loc α} {l' : Loc α} {t : T} {chain : List α}

theorem Listed.not_passed (h : Listed m loc chain) (hhold : (loc t).hold ≠ none) {u : T}
    (hu : u ≠ t) : (loc u).passed = false := by
  by_contra hpassed
  exact hu (h.front.unique u t (Loc.hold_of_passed (by simpa using hpassed)) hhold)

theorem Listed.history (h : Listed m loc chain) (hhold : (loc t).hold ≠ none)
    (ht : (loc t).passed = false) : m.registered = m.submitted ++ chain.map m.dsn := by
  refine h.unpassed fun u ↦ ?_
  rcases eq_or_ne u t with rfl | hu
  · exact ht
  · exact h.not_passed hhold hu

variable [DecidableEq T]

theorem passed_update (hpassed : l'.passed = (loc t).passed) (u : T) :
    (Function.update loc t l' u).passed = (loc u).passed :=
  congrFun (comp_update_of_eq Loc.passed hpassed) u

theorem Listed.stutter (h : Listed m loc chain) (hnext : m'.dsnNext = m.dsnNext)
    (hlive : m'.live = m.live) (hhead : m'.notifyHead = m.notifyHead)
    (htail : m'.notifyTail = m.notifyTail) (hdsn : m'.dsn = m.dsn)
    (hreg : m'.registered = m.registered) (hsub : m'.submitted = m.submitted)
    (hrole : l'.role = (loc t).role) (hhold : l'.hold = (loc t).hold)
    (hpassed : l'.passed = (loc t).passed) :
    Listed m' (Function.update loc t l') chain := by
  obtain ⟨linked, tail_eq, front, unpassed, passed⟩ := h
  refine ⟨?_, ?_, ?_, ?_, ?_⟩
  · simpa only [hnext, hlive, comp_update_of_eq Loc.role hrole] using linked
  · simpa only [htail] using tail_eq
  · simpa only [hhead, comp_update_of_eq Loc.hold hhold] using front
  · simpa only [hreg, hsub, hdsn, passed_update hpassed] using unpassed
  · simpa only [hreg, hsub, hdsn, passed_update hpassed] using passed

theorem Listed.storeHead (h : Listed m loc chain) {x : α} (ht : loc t = .notifyHead x) :
    Listed { m with notifyHead := some x } (Function.update loc t .notifyCheck) chain := by
  have hmoveHold := moves_update Loc.hold loc t .notifyCheck
  have hpassed : (Loc.notifyCheck : Loc α).passed = (loc t).passed := by rw [ht]; rfl
  rw [ht] at hmoveHold
  obtain ⟨linked, tail_eq, front, unpassed, passed⟩ := h
  refine ⟨?_, tail_eq, front.store hmoveHold, ?_, ?_⟩
  · rw [comp_update_of_eq Loc.role (by rw [ht]; rfl)]
    exact linked
  · simpa only [passed_update hpassed] using unpassed
  · simpa only [passed_update hpassed] using passed

theorem Listed.takeHead (h : Listed m loc chain) {c : Caller} (ht : loc t = .wake c) :
    Listed { m with notifyHead := none }
      (Function.update loc t (.wakeWaiters c m.notifyHead)) chain := by
  have hmoveHold := moves_update Loc.hold loc t (.wakeWaiters c m.notifyHead)
  have hpassed : (Loc.wakeWaiters c m.notifyHead).passed = (loc t).passed := by rw [ht]; rfl
  rw [ht] at hmoveHold
  obtain ⟨linked, tail_eq, front, unpassed, passed⟩ := h
  refine ⟨?_, tail_eq, front.take hmoveHold, ?_, ?_⟩
  · rw [comp_update_of_eq Loc.role (by rw [ht]; rfl)]
    exact linked
  · simpa only [passed_update hpassed] using unpassed
  · simpa only [passed_update hpassed] using passed

theorem Listed.submit (h : Listed m loc chain) {c : Caller} {x : α}
    (ht : loc t = .wakeSubmit c x) :
    Listed { m with submitted := m.submitted ++ [m.dsn x] }
      (Function.update loc t (.wakeNext c x)) chain := by
  have hreg := h.history (t := t) (by simp [ht, Loc.hold]) (by rw [ht]; rfl)
  have hhead : chain.head? = some x := h.front.hold_eq t x (by rw [ht]; rfl)
  obtain ⟨linked, tail_eq, front, unpassed, passed⟩ := h
  obtain ⟨ys, rfl⟩ := List.head?_eq_some_iff.mp hhead
  refine ⟨?_, tail_eq, ?_, fun hall ↦ ?_, fun u _ ↦ ?_⟩
  · rw [comp_update_of_eq Loc.role (by rw [ht]; rfl)]
    exact linked
  · rw [comp_update_of_eq Loc.hold (by rw [ht]; rfl)]
    exact front
  · simpa [Loc.passed] using hall t
  · simp [hreg]

theorem Listed.next (h : Listed m loc chain) {c : Caller} {x y : α}
    (ht : loc t = .wakeNext c x) (hnext : m.dsnNext x = some y) :
    chain.tail ≠ [] ∧ Listed m (Function.update loc t (.wakeFree c x y)) chain.tail := by
  have hmove := moves_update Loc.role loc t (.wakeFree c x y)
  have hmoveHold := moves_update Loc.hold loc t (.wakeFree c x y)
  have hreg := h.passed t (by rw [ht]; rfl)
  have hother : ∀ u, u ≠ t → (loc u).passed = false := fun u hu ↦
    h.not_passed (t := t) (by simp [ht, Loc.hold]) hu
  have hhead : chain.head? = some x := h.front.hold_eq t x (by rw [ht]; rfl)
  rw [ht] at hmove hmoveHold
  obtain ⟨linked, tail_eq, front, unpassed, passed⟩ := h
  obtain ⟨xs, rfl⟩ := List.head?_eq_some_iff.mp hhead
  obtain ⟨ys, rfl⟩ := linked.next_eq hnext
  refine ⟨by simp, linked.advance hnext hmove, by simpa using tail_eq,
    front.advance hmoveHold, fun _ ↦ hreg, fun u hu ↦ ?_⟩
  rcases eq_or_ne u t with rfl | hut
  · simp [Loc.passed] at hu
  · simp [hut, hother u hut] at hu

theorem Listed.reset (h : Listed m loc chain) {c : Caller} {x : α}
    (ht : loc t = .wakeReset c x) (htail : m.notifyTail = some x) (filling drained : ℕ) :
    chain = [x] ∧ Listed { m with notifyTail := none, drained := drained }
      (Function.update loc t (.wakeFreeLast c x filling)) [] := by
  have hmove := moves_update Loc.role loc t (.wakeFreeLast c x filling)
  have hmoveHold := moves_update Loc.hold loc t (.wakeFreeLast c x filling)
  have hreg := h.passed t (by rw [ht]; rfl)
  have hother : ∀ u, u ≠ t → (loc u).passed = false := fun u hu ↦
    h.not_passed (t := t) (by simp [ht, Loc.hold]) hu
  have hhead : chain.head? = some x := h.front.hold_eq t x (by rw [ht]; rfl)
  have hlast : IsLast chain x := h.tail_eq.symm.trans htail
  rw [ht] at hmove hmoveHold
  obtain ⟨linked, tail_eq, front, unpassed, passed⟩ := h
  obtain ⟨xs, rfl⟩ := List.head?_eq_some_iff.mp hhead
  obtain rfl : xs = [] := by
    cases xs with
    | nil => rfl
    | cons y ys =>
        rw [isLast_cons_cons] at hlast
        exact ((List.nodup_cons.mp linked.nodup).1 hlast.mem).elim
  refine ⟨rfl, linked.close hmove, rfl, front.close hmoveHold, fun _ ↦ hreg, fun u hu ↦ ?_⟩
  rcases eq_or_ne u t with rfl | hut
  · simp [Loc.passed] at hu
  · simp [hut, hother u hut] at hu

variable [DecidableEq α]

theorem map_update_of_notMem {β : Type*} (f : α → β) {x : α} (y : β) {xs : List α}
    (hx : x ∉ xs) : xs.map (Function.update f x y) = xs.map f := by
  refine List.map_congr_left fun z hz ↦ Function.update_of_ne ?_ _ _
  rintro rfl
  exact hx hz

theorem Listed.notify (h : Listed m loc chain) (ht : loc t = .idle) {addr : α}
    (haddr : addr ∉ m.live) (d : Notification ν) :
    Listed { m with
      live := insert addr m.live
      dsnNext := Function.update m.dsnNext addr none
      dsn := Function.update m.dsn addr d } (Function.update loc t (.notifyExchange addr))
      chain := by
  have hfresh : addr ∉ chain := fun hmem ↦ haddr (h.linked.chain_live addr hmem)
  have hfresh' : addr ∉ chain.tail := fun hmem ↦ hfresh (List.mem_of_mem_tail hmem)
  have hmove := moves_update Loc.role loc t (.notifyExchange addr)
  have hpassed : (Loc.notifyExchange addr).passed = (loc t).passed := by rw [ht]; rfl
  rw [ht] at hmove
  obtain ⟨linked, tail_eq, front, unpassed, passed⟩ := h
  refine ⟨?_, tail_eq, ?_, ?_, ?_⟩
  · refine linked.build hmove (by simp) (by simpa using haddr) ?_ ?_ ?_ ?_
    · intro x hx
      exact Function.update_of_ne (by simpa using hx) _ _
    · simp
    · simp
    · intro x
      simp [or_comm]
  · rw [comp_update_of_eq Loc.hold (by rw [ht]; rfl)]
    exact front
  · simp only [passed_update hpassed, map_update_of_notMem _ _ hfresh]
    exact unpassed
  · simp only [passed_update hpassed, map_update_of_notMem _ _ hfresh']
    exact passed

theorem Listed.exchangeBehind (h : Listed m loc chain) {prev x : α}
    (ht : loc t = .notifyExchange x) (htail : m.notifyTail = some prev)
    (d : Notification ν) :
    Listed { m with
      notifyTail := some x
      dsn := Function.update m.dsn x d
      registered := m.registered ++ [d] } (Function.update loc t (.notifyLink prev x))
      (chain ++ [x]) := by
  have hrole : (loc t).role = { own := [x], building := true, sealed := true } := by rw [ht]; rfl
  have hfresh : x ∉ chain := h.linked.own_fresh t x (by simp [hrole])
  have hlast : IsLast chain prev := h.tail_eq.symm.trans htail
  have hpassed : (Loc.notifyLink prev x).passed = (loc t).passed := by rw [ht]; rfl
  have hmove := moves_update Loc.role loc t (.notifyLink prev x)
  rw [ht] at hmove
  obtain ⟨linked, tail_eq, front, unpassed, passed⟩ := h
  obtain ⟨y, ys, rfl⟩ : ∃ y ys, chain = y :: ys := List.exists_cons_of_ne_nil (by
    rintro rfl
    simp at hlast)
  have hfresh' : x ∉ ys := fun hmem ↦ hfresh (List.mem_cons_of_mem _ hmem)
  refine ⟨linked.exchange hlast hmove, List.getLast?_concat.symm, ?_, fun hall ↦ ?_,
    fun u hu ↦ ?_⟩
  · rw [comp_update_of_eq Loc.hold (by rw [ht]; rfl)]
    exact front.extend [x]
  · have hreg := unpassed fun u ↦ (passed_update hpassed u).symm.trans (hall u)
    simp [hreg, map_update_of_notMem _ _ hfresh', Function.update_of_ne (Ne.symm
      (List.ne_of_not_mem_cons hfresh))]
  · have hreg := passed u ((passed_update hpassed u).symm.trans hu)
    rw [List.tail_cons] at hreg
    simp [hreg, map_update_of_notMem _ _ hfresh']

theorem Listed.exchangeFirst (h : Listed m loc chain) {x : α}
    (ht : loc t = .notifyExchange x) (htail : m.notifyTail = none) (d : Notification ν)
    (filling opened : ℕ) :
    Listed { m with
      notifyTail := some x
      dsn := Function.update m.dsn x d
      registered := m.registered ++ [d]
      opened := opened } (Function.update loc t (.notifyRetain x filling)) [x] := by
  have hmove := moves_update Loc.role loc t (.notifyRetain x filling)
  have hmoveHold := moves_update Loc.hold loc t (.notifyRetain x filling)
  have hpassed : (Loc.notifyRetain x filling).passed = (loc t).passed := by rw [ht]; rfl
  rw [ht] at hmove hmoveHold
  obtain ⟨linked, tail_eq, front, unpassed, passed⟩ := h
  obtain rfl : chain = [] := List.getLast?_eq_none_iff.mp (tail_eq ▸ htail)
  have hnone : ∀ u, (loc u).passed = false := fun u ↦ by
    by_contra hu
    exact Loc.hold_of_passed (by simpa using hu) (front.eq_none.2 u)
  refine ⟨linked.exchange_nil hmove, rfl, front.open hmoveHold, fun _ ↦ ?_, fun u hu ↦ ?_⟩
  · simpa using unpassed hnone
  · rw [passed_update hpassed, hnone u] at hu
    cases hu

theorem Listed.link (h : Listed m loc chain) {prev x : α} (ht : loc t = .notifyLink prev x) :
    Listed { m with dsnNext := Function.update m.dsnNext prev (some x) }
      (Function.update loc t .idle) chain := by
  have hmove := moves_update Loc.role loc t .idle
  have hpassed : (Loc.idle : Loc α).passed = (loc t).passed := by rw [ht]; rfl
  rw [ht] at hmove
  obtain ⟨linked, tail_eq, front, unpassed, passed⟩ := h
  refine ⟨linked.link hmove (fun y hy ↦ Function.update_of_ne hy _ _) (by simp), tail_eq, ?_,
    ?_, ?_⟩
  · rw [comp_update_of_eq Loc.hold (by rw [ht]; rfl)]
    exact front
  · simpa only [passed_update hpassed] using unpassed
  · simpa only [passed_update hpassed] using passed

theorem Listed.free (h : Listed m loc chain) {x : α} (ht : (loc t).role = { own := [x] })
    (hl' : l'.role = {}) (hhold : l'.hold = (loc t).hold)
    (hpassed : l'.passed = (loc t).passed) :
    Listed { m with live := m.live.erase x } (Function.update loc t l') chain := by
  have hmove := moves_update Loc.role loc t l'
  rw [ht, hl'] at hmove
  obtain ⟨linked, tail_eq, front, unpassed, passed⟩ := h
  refine ⟨linked.release hmove (by simp [and_comm]), tail_eq, ?_, ?_, ?_⟩
  · rw [comp_update_of_eq Loc.hold hhold]
    exact front
  · simpa only [passed_update hpassed] using unpassed
  · simpa only [passed_update hpassed] using passed

/-! ## References -/

omit [DecidableEq α] in
theorem Referenced.stutter {chain' : List α} (h : Referenced m loc chain)
    (hopened : m'.opened = m.opened) (hdrained : m'.drained = m.drained)
    (hret : m'.retained = m.retained) (hrel : m'.released = m.released)
    (hchain : chain' = [] ↔ chain = []) (hretaining : l'.retaining = (loc t).retaining)
    (hreleasing : l'.releasing = (loc t).releasing) :
    Referenced m' (Function.update loc t l') chain' := by
  have hretainings := comp_update_of_eq Loc.retaining hretaining
  have hreleasings := comp_update_of_eq Loc.releasing hreleasing
  obtain ⟨opened_eq, retained, released, retaining_eq⟩ := h
  refine ⟨?_, ?_, ?_, fun u e he ↦ ?_⟩
  · simp only [hopened, hdrained, opened_eq, hchain]
  · simpa only [hret, hopened, hretainings] using retained
  · simpa only [hrel, hdrained, hreleasings] using released
  · rw [hdrained]
    exact retaining_eq u e ((congrFun hretainings u).symm.trans he)

omit [DecidableEq α] in
theorem Referenced.exchangeFirst (h : Referenced m loc []) {x : α}
    (ht : loc t = .notifyExchange x) (hopened : m'.opened = m.opened + 1)
    (hdrained : m'.drained = m.drained) (hret : m'.retained = m.retained)
    (hrel : m'.released = m.released) :
    Referenced m' (Function.update loc t (.notifyRetain x m.opened)) [x] := by
  have hmove := moves_update Loc.retaining loc t (.notifyRetain x m.opened)
  rw [ht] at hmove
  obtain ⟨opened_eq, retained, released, retaining_eq⟩ := h
  have hopen : m.opened = m.drained := by simpa using opened_eq
  refine ⟨?_, ?_, ?_, fun u e he ↦ ?_⟩
  · simp [hopened, hdrained, hopen]
  · rw [hret, hopened]
    exact retained.issue hmove
  · rw [hrel, hdrained, comp_update_of_eq Loc.releasing (by rw [ht]; rfl)]
    exact released
  · rw [hdrained]
    rcases eq_or_ne u t with rfl | hu
    · simp only [Function.update_self, Loc.retaining, Option.some.injEq] at he
      exact he.symm.trans hopen
    · exact retaining_eq u e (by simpa [hu] using he)

omit [DecidableEq α] in
theorem Referenced.retain (h : Referenced m loc chain) {x : α} {e : ℕ}
    (ht : loc t = .notifyRetain x e) :
    Referenced { m with retained := e :: m.retained }
      (Function.update loc t (.notifyHead x)) chain := by
  have hmove := moves_update Loc.retaining loc t (.notifyHead x)
  rw [ht] at hmove
  obtain ⟨opened_eq, retained, released, retaining_eq⟩ := h
  refine ⟨opened_eq, retained.settle hmove, ?_, fun u e he ↦ ?_⟩
  · rw [comp_update_of_eq Loc.releasing (by rw [ht]; rfl)]
    exact released
  · rcases eq_or_ne u t with rfl | hu
    · simp [Loc.retaining] at he
    · exact retaining_eq u e (by simpa [hu] using he)

omit [DecidableEq α] in
theorem Referenced.reset (h : Referenced m loc chain) {c : Caller} {x : α}
    (ht : loc t = .wakeReset c x) (hchain : chain = [x]) (tail : Option α)
    (hnone : ∀ u, u ≠ t → (loc u).retaining = none) :
    Referenced { m with notifyTail := tail, drained := m.drained + 1 }
      (Function.update loc t (.wakeFreeLast c x m.drained)) [] := by
  have hmove := moves_update Loc.releasing loc t (.wakeFreeLast c x m.drained)
  rw [ht] at hmove
  obtain ⟨opened_eq, retained, released, retaining_eq⟩ := h
  refine ⟨?_, ?_, released.issue hmove, fun u e he ↦ ?_⟩
  · simpa [hchain] using opened_eq
  · rw [comp_update_of_eq Loc.retaining (by rw [ht]; rfl)]
    exact retained
  · rcases eq_or_ne u t with rfl | hu
    · simp [Loc.retaining] at he
    · simp [hu, hnone u hu] at he

omit [DecidableEq α] in
theorem Referenced.release (h : Referenced m loc chain) {c : Caller} {e : ℕ}
    (ht : loc t = .wakeRelease c e) (returns : List WaitReturn) :
    Referenced { m with released := e :: m.released, returns := returns }
      (Function.update loc t .idle) chain := by
  have hmove := moves_update Loc.releasing loc t .idle
  rw [ht] at hmove
  obtain ⟨opened_eq, retained, released, retaining_eq⟩ := h
  refine ⟨opened_eq, ?_, released.settle hmove, fun u e he ↦ ?_⟩
  · rw [comp_update_of_eq Loc.retaining (by rw [ht]; rfl)]
    exact retained
  · rcases eq_or_ne u t with rfl | hu
    · simp [Loc.retaining] at he
    · exact retaining_eq u e (by simpa [hu] using he)

theorem Trans.listed (h : Trans m (loc t) m' l') (hlist : Listed m loc chain)
    (href : Referenced m loc chain) :
    ∃ chain', Listed m' (Function.update loc t l') chain' ∧
      Referenced m' (Function.update loc t l') chain' := by
  generalize ht : loc t = l at h
  have hrole : l.role = (loc t).role := by rw [ht]
  have hhold : l.hold = (loc t).hold := by rw [ht]
  have hpassed : l.passed = (loc t).passed := by rw [ht]
  have hretaining : l.retaining = (loc t).retaining := by rw [ht]
  have hreleasing : l.releasing = (loc t).releasing := by rw [ht]
  cases h
  case notify haddr =>
    exact ⟨chain, hlist.notify ht haddr _,
      href.stutter rfl rfl rfl rfl Iff.rfl hretaining hreleasing⟩
  case exchangeBehind htail =>
    refine ⟨_, hlist.exchangeBehind ht htail _,
      href.stutter rfl rfl rfl rfl ?_ hretaining hreleasing⟩
    have hne : chain ≠ [] := by
      rintro rfl
      simp [hlist.tail_eq] at htail
    simp [hne]
  case exchangeFirst htail =>
    obtain rfl : chain = [] := List.getLast?_eq_none_iff.mp (hlist.tail_eq.symm.trans htail)
    exact ⟨_, hlist.exchangeFirst ht htail _ _ _, href.exchangeFirst ht rfl rfl rfl rfl⟩
  case link =>
    exact ⟨chain, hlist.link ht, href.stutter rfl rfl rfl rfl Iff.rfl hretaining hreleasing⟩
  case retain =>
    exact ⟨chain, hlist.stutter rfl rfl rfl rfl rfl rfl rfl hrole hhold hpassed,
      href.retain ht⟩
  case storeHead =>
    exact ⟨chain, hlist.storeHead ht,
      href.stutter rfl rfl rfl rfl Iff.rfl hretaining hreleasing⟩
  case takeHead =>
    exact ⟨chain, hlist.takeHead ht,
      href.stutter rfl rfl rfl rfl Iff.rfl hretaining hreleasing⟩
  case submit =>
    exact ⟨chain, hlist.submit ht, href.stutter rfl rfl rfl rfl Iff.rfl hretaining hreleasing⟩
  case nextSome hnext =>
    obtain ⟨hne, hlist'⟩ := hlist.next ht hnext
    refine ⟨_, hlist', href.stutter rfl rfl rfl rfl ?_ hretaining hreleasing⟩
    exact ⟨fun h ↦ (hne h).elim, fun h ↦ by rw [h]; rfl⟩
  case reset htail =>
    obtain ⟨hchain, hlist'⟩ := hlist.reset ht htail m.drained (m.drained + 1)
    refine ⟨_, hlist', href.reset ht hchain none fun u hu ↦ ?_⟩
    by_contra hne
    obtain ⟨e, he⟩ := Option.ne_none_iff_exists'.mp hne
    exact hu (hlist.front.unique u t (Loc.hold_of_retaining he) (by simp [ht, Loc.hold]))
  case free | freeLast =>
    exact ⟨chain, hlist.free (by rw [ht]; rfl) rfl hhold hpassed,
      href.stutter rfl rfl rfl rfl Iff.rfl hretaining hreleasing⟩
  case release =>
    exact ⟨chain, hlist.stutter rfl rfl rfl rfl rfl rfl rfl hrole hhold hpassed,
      href.release ht _⟩
  all_goals
    exact ⟨chain, hlist.stutter rfl rfl rfl rfl rfl rfl rfl hrole hhold hpassed,
      href.stutter rfl rfl rfl rfl Iff.rfl hretaining hreleasing⟩

end Steps

/-! ## Whole runs -/

def Loc.Outside : Loc α → Prop
  | .idle | .entering _ | .waitCheck _ | .waitRegister _ | .waitRecheck _ | .timedWait _
  | .undo _ | .undoSwap _ _ | .kernelWait _ => True
  | _ => False

/-- On the way to exchange the head of the list if the group is empty. -/
def Loc.Notifying : Loc α → Prop
  | .leaving _ | .leaveCheck | .notifyCheck | .wake _ => True
  | _ => False

/-- What `dispatch_group_notify_f` owes its callers and the group.  The `n`-th entry
of `submitted` is the `n`-th entry of `registered`, so that no notification is
submitted twice or out of order. -/
structure NotifySound (s : Pool T (Mem α ν) (Loc α)) : Prop where
  in_order : s.mem.submitted <+: s.mem.registered
  retained_once : s.mem.retained.Nodup
  released_once : s.mem.released.Nodup
  released_drained : ∀ e ∈ s.mem.released, e ∈ s.mem.retained ∧ e < s.mem.drained
  references : (∀ t, (s.loc t).Outside) →
    ∀ e, (e ∈ s.mem.retained ↔ e < s.mem.opened) ∧ (e ∈ s.mem.released ↔ e < s.mem.drained)
  settled : (∀ t, (s.loc t).Outside) → s.mem.members = 0 →
    s.mem.notifyHead = none ∧ s.mem.notifyTail = none ∧ s.mem.submitted = s.mem.registered ∧
      s.mem.opened = s.mem.drained

theorem Loc.Outside.eq_none {l : Loc α} (h : l.Outside) :
    l.hold = none ∧ l.passed = false ∧ l.retaining = none ∧ l.releasing = none ∧
      ¬ l.Notifying := by
  cases l <;> simp_all [Outside, hold, passed, retaining, releasing, Notifying]

theorem Listed.submitted_initial {m : Mem α ν} {loc : T → Loc α} {chain : List α}
    (h : Listed m loc chain) : m.submitted <+: m.registered := by
  by_cases hpassed : ∃ t, (loc t).passed
  · obtain ⟨t, ht⟩ := hpassed
    exact ⟨_, (h.passed t ht).symm⟩
  · exact ⟨_, (h.unpassed fun t ↦ by simpa using not_exists.mp hpassed t).symm⟩

variable [DecidableEq α]

theorem Trans.notifying {m m' : Mem α ν} {l l' : Loc α} (h : Trans m l m' l')
    (hval : m.members = 0 → m.dsema.dsemaValue = dsemaOrig) (hm : m'.members = 0)
    (hhead : m'.notifyHead ≠ none) :
    l'.Notifying ∨ ((m.members = 0 ∧ m.notifyHead ≠ none) ∧ ¬ l.Notifying) := by
  cases h <;> simp_all [Loc.Notifying, Mem.enterReturned]

section Runs

variable [DecidableEq T] {C : Pool T (Mem α ν) (Loc α) → T → Act α ν → Prop}
  {dsnNext : α → Option α} {dsn : α → Notification ν} {s : Pool T (Mem α ν) (Loc α)}

theorem listed_of_run (h : Pool.Runs step C (created dsnNext dsn) s) :
    ∃ chain, Listed s.mem s.loc chain ∧ Referenced s.mem s.loc chain := by
  refine h.invariant
    (I := fun s ↦ ∃ chain, Listed s.mem s.loc chain ∧ Referenced s.mem s.loc chain) ?_ ?_
  · exact ⟨[], ⟨linked_empty _, rfl, fronted_empty, fun _ ↦ rfl, fun _ _ ↦ rfl⟩,
      ⟨rfl, ledger_empty, ledger_empty, nofun⟩⟩
  · rintro s t a m l hr ⟨chain, hlist, href⟩ - hP
    exact (trans_of_run hr hP).listed hlist href

variable [Fintype T]

theorem exists_notifying (h : Pool.Runs step C (created dsnNext dsn) s) :
    s.mem.members = 0 ∧ s.mem.notifyHead ≠ none → ∃ t, (s.loc t).Notifying := by
  refine h.exists_loc (N := fun m ↦ m.members = 0 ∧ m.notifyHead ≠ none)
    (by simp [created, dispatchGroupCreate]) ?_
  rintro s t a m l hr - hP ⟨hm, hhead⟩
  exact (trans_of_run hr hP).notifying (value_eq_of_members hr) hm hhead

/-- Whatever its users do, the notifications of a group are submitted once each and in
order, every reference is released once, and an empty group at rest has submitted all. -/
theorem notifySound_of_reachable {dsnNext : α → Option α} {dsn : α → Notification ν}
    {s : Pool T (Mem α ν) (Loc α)} (h : Pool.Reachable step (created dsnNext dsn) s) :
    NotifySound s := by
  obtain ⟨chain, hlist, href⟩ := listed_of_run h
  refine ⟨hlist.submitted_initial, href.retained.done_nodup, href.released.done_nodup,
    fun e he ↦ ?_, fun hout e ↦ ⟨⟨href.retained.lt_of_done e, fun he ↦ ?_⟩,
      ⟨href.released.lt_of_done e, fun he ↦ ?_⟩⟩, fun hout hm ↦ ?_⟩
  · have hlt := href.released.lt_of_done e he
    refine ⟨?_, hlt⟩
    by_contra hnot
    obtain ⟨t, ht⟩ := href.retained.exists_of_lt e
      (hlt.trans_le (by rw [href.opened_eq]; omega)) hnot
    exact hlt.ne (href.retaining_eq t e ht)
  · by_contra hnot
    obtain ⟨t, ht⟩ := href.retained.exists_of_lt e he hnot
    simp [(hout t).eq_none] at ht
  · by_contra hnot
    obtain ⟨t, ht⟩ := href.released.exists_of_lt e he hnot
    simp [(hout t).eq_none] at ht
  · have hhead : s.mem.notifyHead = none := by
      by_contra hne
      obtain ⟨t, ht⟩ := exists_notifying h ⟨hm, hne⟩
      exact (hout t).eq_none.2.2.2.2 ht
    obtain rfl : chain = [] := by
      by_contra hne
      rcases hlist.front.exists_front hne with hne | ⟨t, ht⟩
      · exact hne hhead
      · exact ht (hout t).eq_none.1
    refine ⟨hhead, hlist.tail_eq, ?_, by simpa using href.opened_eq⟩
    simpa using (hlist.unpassed fun t ↦ (hout t).eq_none.2.1).symm

/-- Two notifications are registered on a group with a member, which then leaves. -/
theorem notifySound_of_reachable_two :
    ∃ s : Pool Unit (Mem ℕ ℕ) (Loc ℕ), s.mem.submitted.map Notification.note = [7, 8] ∧
      s.mem.released = [0] ∧ NotifySound s :=
  ⟨((created (fun _ ↦ none) fun _ ↦ ⟨0, ∅, ⟨true, 0⟩⟩).run step (fun _ _ _ ↦ True)
      [((), .enter), ((), .notify 7 100), ((), .go), ((), .go), ((), .go), ((), .go),
        ((), .notify 8 101), ((), .go), ((), .go), ((), .leave 0), ((), .go), ((), .go),
        ((), .go), ((), .go), ((), .go), ((), .go), ((), .go), ((), .go), ((), .go),
        ((), .go), ((), .go)]).get (by decide), by decide, by decide,
    notifySound_of_reachable (Pool.runs_get _)⟩

end Runs

end LibDispatch.Group
