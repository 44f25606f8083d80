import LibDispatch.Redirect.Model

/-!
# No continuation is in two places

A continuation is in the cache of a thread, on the list of a queue, or wrapped in a
continuation on a list, and only in one of these places.  So nobody writes to one that
waits on a list, or to the item that it wraps.
-/

namespace LibDispatch.Redirect

variable {T Q : Type*}

structure Storage (T Q : Type*) where
  conts : Addr → Cont Q
  heap : Addr
  cache : T → List Addr
  items : Q → List (Item Q)
  targets : Targets Q

def Mem.storage (m : Mem T Q) : Storage T Q where
  conts := m.conts
  heap := m.heap
  cache := m.cache
  items := m.items
  targets := m.targets

inductive Place (T Q : Type*)
  | cache (t : T)
  | list (dq : Q)
  | inside (dc : Addr)

def Item.addr : Item Q → Option Addr
  | .cont dc => some dc
  | .queue _ => none

@[simp]
theorem Item.addr_cont (a : Addr) : (Item.cont a : Item Q).addr = some a := rfl

@[simp]
theorem Item.addr_queue (dq : Q) : (Item.queue dq).addr = none := rfl

theorem Item.addr_eq_some {item : Item Q} {a : Addr} : item.addr = some a ↔ item = .cont a := by
  cases item <;> simp

theorem mem_addrs {items : List (Item Q)} {a : Addr} :
    a ∈ items.filterMap Item.addr ↔ .cont a ∈ items := by
  simp [List.mem_filterMap, Item.addr_eq_some]

/-- The continuation at the address is in the place. -/
def Storage.Uses (s : Storage T Q) : Place T Q → Addr → Prop
  | .cache t, a => a ∈ s.cache t
  | .list dq, a => .cont a ∈ s.items dq
  | .inside dc, a => (∃ dq, .cont dc ∈ s.items dq) ∧ (s.conts dc).dcFunc = .redirect2 ∧
      (s.conts dc).dcData1 = some (.cont a)

def Storage.Unused (s : Storage T Q) (a : Addr) : Prop :=
  ∀ p, ¬ s.Uses p a

/-- A continuation that some thread has in hand: it has been allocated and is in no place. -/
structure Storage.InHand (s : Storage T Q) (a : Addr) : Prop where
  unused : s.Unused a
  pos : 0 < a
  lt_heap : a < s.heap

structure Storage.Owned (s : Storage T Q) : Prop where
  heap_pos : 0 < s.heap
  unique : ∀ p p' a, s.Uses p a → s.Uses p' a → p = p'
  range : ∀ p a, s.Uses p a → 0 < a ∧ a < s.heap
  cache_nodup : ∀ t, (s.cache t).Nodup
  list_nodup : ∀ dq, ((s.items dq).filterMap Item.addr).Nodup
  redirect : ∀ dq a, .cont a ∈ s.items dq → (s.conts a).dcFunc = .redirect2 →
    s.targets.doTargetq dq = none ∧ (s.conts a).dcCtxt = a

namespace Storage

variable {s s' : Storage T Q} {a b : Addr} {dq : Q} {t : T}

theorem Owned.unused_heap (h : s.Owned) : s.Unused s.heap := fun p hp ↦
  lt_irrefl _ (h.range p _ hp).2

theorem Owned.mono (h : s.Owned) (hheap : s.heap ≤ s'.heap)
    (huses : ∀ p a, s'.Uses p a → s.Uses p a) (hcache : ∀ t, (s'.cache t).Nodup)
    (hlist : ∀ dq, ((s'.items dq).filterMap Item.addr).Nodup)
    (hredirect : ∀ dq a, .cont a ∈ s'.items dq → (s'.conts a).dcFunc = .redirect2 →
      s'.targets.doTargetq dq = none ∧ (s'.conts a).dcCtxt = a) : s'.Owned where
  heap_pos := lt_of_lt_of_le h.heap_pos hheap
  unique p p' a hp hp' := h.unique p p' a (huses p a hp) (huses p' a hp')
  range p a hp := (h.range p a (huses p a hp)).imp_right fun hlt ↦ lt_of_lt_of_le hlt hheap
  cache_nodup := hcache
  list_nodup := hlist
  redirect := hredirect

theorem Owned.put (h : s.Owned) {N : Place T Q → Addr → Prop} (hheap : s'.heap = s.heap)
    (huses : ∀ p a, s'.Uses p a → s.Uses p a ∨ N p a) (hN : ∀ p a, N p a → s.InHand a)
    (hunique : ∀ p p' a, N p a → N p' a → p = p') (hcache : ∀ t, (s'.cache t).Nodup)
    (hlist : ∀ dq, ((s'.items dq).filterMap Item.addr).Nodup)
    (hredirect : ∀ dq a, .cont a ∈ s'.items dq → (s'.conts a).dcFunc = .redirect2 →
      s'.targets.doTargetq dq = none ∧ (s'.conts a).dcCtxt = a) : s'.Owned where
  heap_pos := lt_of_lt_of_eq h.heap_pos hheap.symm
  unique p p' a hp hp' := by
    rcases huses p a hp with hp | hp <;> rcases huses p' a hp' with hp' | hp'
    · exact h.unique p p' a hp hp'
    · exact absurd hp ((hN p' a hp').unused p)
    · exact absurd hp' ((hN p a hp).unused p')
    · exact hunique p p' a hp hp'
  range p a hp := by
    rw [hheap]
    rcases huses p a hp with hp | hp
    · exact h.range p a hp
    · exact ⟨(hN p a hp).pos, (hN p a hp).lt_heap⟩
  cache_nodup := hcache
  list_nodup := hlist
  redirect := hredirect

/-! ## The memory of the continuations -/

def alloc (s : Storage T Q) : Storage T Q :=
  { s with heap := s.heap + 1 }

theorem Owned.alloc (h : s.Owned) : s.alloc.Owned :=
  h.mono (Nat.le_succ _) (fun p _ hp ↦ by cases p <;> exact hp) h.cache_nodup h.list_nodup
    h.redirect

theorem Owned.inHand_alloc (h : s.Owned) : s.alloc.InHand s.heap :=
  ⟨fun p hp ↦ h.unused_heap p (by cases p <;> exact hp), h.heap_pos, Nat.lt_succ_self _⟩

def fill (s : Storage T Q) (a : Addr) (c : Cont Q) : Storage T Q :=
  { s with conts := Function.update s.conts a c }

theorem uses_fill (hunused : s.Unused a) (c : Cont Q) (p : Place T Q) (x : Addr) :
    (s.fill a c).Uses p x ↔ s.Uses p x := by
  cases p with
  | cache t => exact Iff.rfl
  | list q => exact Iff.rfl
  | inside dc =>
      refine and_congr_right fun ⟨q, hq⟩ ↦ ?_
      have hne : dc ≠ a := by
        rintro rfl
        exact hunused (.list q) hq
      simp [fill, hne]

theorem Owned.fill (h : s.Owned) (hunused : s.Unused a) (c : Cont Q) : (s.fill a c).Owned := by
  refine h.mono le_rfl (fun p x ↦ (uses_fill hunused c p x).mp) h.cache_nodup h.list_nodup
    fun q x hx ↦ ?_
  have hne : x ≠ a := by
    rintro rfl
    exact hunused (.list q) hx
  simpa [Storage.fill, hne] using h.redirect q x hx

theorem InHand.fill (hb : s.InHand b) (hunused : s.Unused a) (c : Cont Q) :
    (s.fill a c).InHand b :=
  ⟨fun p hp ↦ hb.unused p ((uses_fill hunused c p b).mp hp), hb.pos, hb.lt_heap⟩

/-! ## The caches -/

section Caches

variable [DecidableEq T]

def uncache (s : Storage T Q) (t : T) (rest : List Addr) : Storage T Q :=
  { s with cache := Function.update s.cache t rest }

theorem uses_uncache {rest : List Addr} (hsub : rest.Sublist (s.cache t)) (p : Place T Q) (x : Addr)
    (hx : (s.uncache t rest).Uses p x) : s.Uses p x := by
  cases p with
  | cache u =>
      rcases eq_or_ne u t with rfl | hu
      · exact hsub.subset (by simpa [Uses, uncache] using hx)
      · simpa [Uses, uncache, hu] using hx
  | list q => exact hx
  | inside dc => exact hx

theorem Owned.uncache (h : s.Owned) {rest : List Addr} (hsub : rest.Sublist (s.cache t)) :
    (s.uncache t rest).Owned := by
  refine h.mono le_rfl (uses_uncache hsub) (fun u ↦ ?_) h.list_nodup h.redirect
  rcases eq_or_ne u t with rfl | hu
  · simpa [Storage.uncache] using (h.cache_nodup u).sublist hsub
  · simpa [Storage.uncache, hu] using h.cache_nodup u

theorem Owned.inHand_uncache (h : s.Owned) {rest : List Addr} (hcache : s.cache t = a :: rest) :
    (s.uncache t rest).InHand a := by
  have huse : s.Uses (.cache t) a := by simp [Uses, hcache]
  refine ⟨fun p hp ↦ ?_, (h.range _ a huse).1, (h.range _ a huse).2⟩
  have hsub : rest.Sublist (s.cache t) := by
    rw [hcache]
    exact List.sublist_cons_self _ _
  obtain rfl := h.unique _ _ a huse (uses_uncache hsub p a hp)
  have hnodup := h.cache_nodup t
  rw [hcache] at hnodup
  exact (List.nodup_cons.mp hnodup).1 (by simpa [Uses, Storage.uncache] using hp)

/-- A continuation is put in the cache of a thread. -/
def free (s : Storage T Q) (t : T) (a : Addr) : Storage T Q :=
  { s with cache := Function.update s.cache t (a :: s.cache t) }

theorem uses_free (p : Place T Q) (x : Addr) :
    (s.free t a).Uses p x → s.Uses p x ∨ p = .cache t ∧ x = a := by
  intro hx
  cases p with
  | cache u =>
      rcases eq_or_ne u t with rfl | hu
      · simpa [Uses, free, or_comm] using hx
      · exact .inl (by simpa [Uses, free, hu] using hx)
  | list q => exact .inl hx
  | inside dc => exact .inl hx

theorem Owned.free (h : s.Owned) (ha : s.InHand a) : (s.free t a).Owned := by
  refine h.put rfl uses_free (fun p x hx ↦ hx.2 ▸ ha) (fun p p' x hp hp' ↦ hp.1.trans hp'.1.symm)
    (fun u ↦ ?_) h.list_nodup h.redirect
  rcases eq_or_ne u t with rfl | hu
  · simpa [Storage.free] using ⟨ha.unused (.cache u), h.cache_nodup u⟩
  · simpa [Storage.free, hu] using h.cache_nodup u

theorem InHand.free (hb : s.InHand b) (hne : b ≠ a) : (s.free t a).InHand b :=
  ⟨fun p hp ↦ (uses_free p b hp).elim (hb.unused p) fun hx ↦ hne hx.2, hb.pos, hb.lt_heap⟩

end Caches

/-! ## The lists -/

theorem Owned.ne_of_wraps (h : s.Owned) (ha : .cont a ∈ s.items dq)
    (hfunc : (s.conts a).dcFunc = .redirect2) (hdata : (s.conts a).dcData1 = some (.cont b)) :
    b ≠ a := by
  rintro rfl
  cases h.unique (.list dq) (.inside b) b ha ⟨⟨dq, ha⟩, hfunc, hdata⟩

section Lists

variable [DecidableEq Q]

def pop (s : Storage T Q) (dq : Q) (rest : List (Item Q)) : Storage T Q :=
  { s with items := Function.update s.items dq rest }

variable {item : Item Q} {rest : List (Item Q)}

theorem mem_pop (hitems : s.items dq = item :: rest) {q : Q} {x : Item Q}
    (hx : x ∈ (s.pop dq rest).items q) : x ∈ s.items q := by
  rcases eq_or_ne q dq with rfl | hq
  · rw [hitems]
    exact List.mem_cons_of_mem _ (by simpa [pop] using hx)
  · simpa [pop, hq] using hx

theorem uses_pop (hitems : s.items dq = item :: rest) (p : Place T Q) (x : Addr)
    (hx : (s.pop dq rest).Uses p x) : s.Uses p x := by
  cases p with
  | cache t => exact hx
  | list q => exact mem_pop hitems hx
  | inside dc => exact hx.imp_left fun ⟨q, hq⟩ ↦ ⟨q, mem_pop hitems hq⟩

theorem Owned.pop (h : s.Owned) (hitems : s.items dq = item :: rest) : (s.pop dq rest).Owned := by
  refine h.mono le_rfl (uses_pop hitems) h.cache_nodup (fun q ↦ ?_) fun q x hx ↦
    h.redirect q x (mem_pop hitems hx)
  rcases eq_or_ne q dq with rfl | hq
  · have hnodup := h.list_nodup q
    rw [hitems] at hnodup
    have hsub : (rest.filterMap Item.addr).Sublist ((item :: rest).filterMap Item.addr) :=
      (List.sublist_cons_self item rest).filterMap Item.addr
    simpa [Storage.pop] using hnodup.sublist hsub
  · simpa [Storage.pop, hq] using h.list_nodup q

theorem Owned.inHand_pop (h : s.Owned) (hitems : s.items dq = .cont a :: rest) :
    (s.pop dq rest).InHand a := by
  have huse : s.Uses (.list dq) a := by simp [Uses, hitems]
  refine ⟨fun p hp ↦ ?_, (h.range _ a huse).1, (h.range _ a huse).2⟩
  obtain rfl := h.unique _ _ a huse (uses_pop hitems p a hp)
  have hnodup := h.list_nodup dq
  rw [hitems] at hnodup
  rw [List.filterMap_cons_some (Item.addr_cont a)] at hnodup
  have hnot : a ∉ rest.filterMap Item.addr := (List.nodup_cons.mp hnodup).1
  exact hnot (mem_addrs.mpr (by simpa [Uses, Storage.pop] using hp))

theorem Owned.inHand_pop_inside (h : s.Owned) (hitems : s.items dq = .cont a :: rest)
    (hfunc : (s.conts a).dcFunc = .redirect2) (hdata : (s.conts a).dcData1 = some (.cont b)) :
    (s.pop dq rest).InHand b := by
  have hlist : s.Uses (.list dq) a := by simp [Uses, hitems]
  have huse : s.Uses (.inside a) b := ⟨⟨dq, hlist⟩, hfunc, hdata⟩
  refine ⟨fun p hp ↦ ?_, (h.range _ b huse).1, (h.range _ b huse).2⟩
  obtain rfl := h.unique _ _ b huse (uses_pop hitems p b hp)
  obtain ⟨⟨q, hq⟩, -⟩ := hp
  exact (h.inHand_pop hitems).unused (.list q) hq

theorem count_eq_one (h : s.Owned) (ha : .cont a ∈ s.items dq) :
    (s.items dq).count (.cont a) = 1 := by
  refine le_antisymm ?_ (List.one_le_count_iff.mpr ha)
  have hle : (s.items dq).count (.cont a) ≤ ((s.items dq).filterMap Item.addr).count a := by
    generalize s.items dq = items
    induction items with
    | nil => simp
    | cons x items ih =>
        cases x with
        | cont b => simpa [List.filterMap_cons, List.count_cons] using ih
        | queue q => simpa [List.filterMap_cons, List.count_cons] using ih
  exact hle.trans (List.nodup_iff_count_le_one.mp (h.list_nodup dq) a)

def push (s : Storage T Q) (dq : Q) (item : Item Q) : Storage T Q :=
  { s with items := Function.update s.items dq (s.items dq ++ [item]) }

theorem mem_push {item x : Item Q} {q : Q} :
    x ∈ (s.push dq item).items q ↔ x ∈ s.items q ∨ q = dq ∧ x = item := by
  rcases eq_or_ne q dq with rfl | hq
  · simp [push]
  · simp [push, hq]

theorem nodup_push (h : s.Owned) {item : Item Q} (hitem : ∀ a, item = .cont a → s.Unused a)
    (q : Q) : (((s.push dq item).items q).filterMap Item.addr).Nodup := by
  rcases eq_or_ne q dq with rfl | hq
  · cases item with
    | queue dq' => simpa [push, List.filterMap_cons] using h.list_nodup q
    | cont a =>
        have hnot : a ∉ (s.items q).filterMap Item.addr := fun hmem ↦
          hitem a rfl (.list q) (mem_addrs.mp hmem)
        have hnodup : ((s.items q).filterMap Item.addr ++ [a]).Nodup :=
          (List.nodup_cons.mpr ⟨hnot, h.list_nodup q⟩).perm (List.perm_append_singleton _ _).symm
        simpa [push, List.filterMap_cons] using hnodup
  · simpa [push, hq] using h.list_nodup q

theorem Owned.push_queue (h : s.Owned) (dq' : Q) : (s.push dq (.queue dq')).Owned := by
  have hmem : ∀ q x, .cont x ∈ (s.push dq (.queue dq')).items q → .cont x ∈ s.items q := by
    intro q x hx
    simpa [mem_push] using hx
  refine h.mono le_rfl (fun p x hx ↦ ?_) h.cache_nodup (nodup_push h (by simp)) fun q x hx ↦
    h.redirect q x (hmem q x hx)
  cases p with
  | cache t => exact hx
  | list q => exact hmem q x hx
  | inside dc => exact hx.imp_left fun ⟨q, hq⟩ ↦ ⟨q, hmem q dc hq⟩

theorem uses_push (p : Place T Q) (x : Addr) (hx : (s.push dq (.cont a)).Uses p x) :
    s.Uses p x ∨ p = .list dq ∧ x = a ∨
      p = .inside a ∧ (s.conts a).dcFunc = .redirect2 ∧
        (s.conts a).dcData1 = some (.cont x) := by
  cases p with
  | cache t => exact .inl hx
  | list q =>
      rcases mem_push.mp hx with hmem | ⟨rfl, heq⟩
      · exact .inl hmem
      · exact .inr (.inl ⟨rfl, Item.cont.inj heq⟩)
  | inside dc =>
      obtain ⟨⟨q, hq⟩, hfunc, hdata⟩ := hx
      rcases mem_push.mp hq with hmem | ⟨rfl, heq⟩
      · exact .inl ⟨⟨q, hmem⟩, hfunc, hdata⟩
      · cases heq
        exact .inr (.inr ⟨rfl, hfunc, hdata⟩)

theorem Owned.push (h : s.Owned) (ha : s.InHand a)
    (hinside : ∀ b, (s.conts a).dcFunc = .redirect2 → (s.conts a).dcData1 = some (.cont b) →
      b ≠ a ∧ s.InHand b)
    (hroot : (s.conts a).dcFunc = .redirect2 →
      s.targets.doTargetq dq = none ∧ (s.conts a).dcCtxt = a) :
    (s.push dq (.cont a)).Owned := by
  refine h.put rfl uses_push (fun p x hx ↦ ?_) (fun p p' x hp hp' ↦ ?_) h.cache_nodup
    (nodup_push h fun x hx ↦ Item.cont.inj hx ▸ ha.unused) fun q x hx ↦ ?_
  · rcases hx with ⟨-, rfl⟩ | ⟨-, hfunc, hdata⟩
    · exact ha
    · exact (hinside x hfunc hdata).2
  · rcases hp with ⟨rfl, hxa⟩ | ⟨rfl, hfunc, hdata⟩ <;>
      rcases hp' with ⟨rfl, hxa'⟩ | ⟨rfl, hfunc', hdata'⟩
    · rfl
    · exact absurd hxa (hinside x hfunc' hdata').1
    · exact absurd hxa' (hinside x hfunc hdata).1
    · rfl
  · rcases mem_push.mp hx with hmem | ⟨rfl, heq⟩
    · exact h.redirect q x hmem
    · cases heq
      exact hroot

end Lists

end Storage

end LibDispatch.Redirect
