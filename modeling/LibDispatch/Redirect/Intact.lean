import LibDispatch.Redirect.Owned

/-!
# Redirected items arrive intact

A thread that drains a concurrent queue with an empty cache forwards an item to the root
queue in a new continuation.  Whatever happens before a worker takes it, the continuation
and its item stay as they are; the worker then calls the function of the item once, with
the queue it came from as the current one, and gives the counts back afterwards.

With a continuation in its cache the thread takes that one out of the cache, forgets it,
and writes through a null pointer.
-/

namespace LibDispatch.Redirect

variable {T Q : Type*} [DecidableEq T] [DecidableEq Q]

/-! ## What the operations do to the continuations -/

namespace Storage

variable {s : Storage T Q} {a b : Addr} {t : T} {item : Item Q}

/-- An item that is not used any more; only asynchronous ones go to the cache. -/
def freeItem (s : Storage T Q) (t : T) : Item Q → Storage T Q
  | .cont a => if (s.conts a).asyncBit then s.free t a else s
  | .queue _ => s

omit [DecidableEq Q] in
theorem conts_freeItem : (s.freeItem t item).conts = s.conts := by
  cases item with
  | cont a =>
      simp only [freeItem]
      split <;> rfl
  | queue dq => rfl

omit [DecidableEq Q] in
theorem Owned.freeItem (h : s.Owned) (hitem : ∀ a, item = .cont a → s.InHand a) :
    (s.freeItem t item).Owned := by
  cases item with
  | cont a =>
      simp only [Storage.freeItem]
      split
      · exact h.free (hitem a rfl)
      · exact h
  | queue dq => exact h

omit [DecidableEq Q] in
theorem InHand.freeItem (hb : s.InHand b) (hne : item ≠ .cont b) :
    (s.freeItem t item).InHand b := by
  cases item with
  | cont a =>
      simp only [Storage.freeItem]
      split
      · exact hb.free fun heq ↦ hne (by rw [heq])
      · exact hb
  | queue dq => exact hb

/-- A step keeps the continuations in one place each, and does not touch those that are
not in a cache. -/
structure Keeps (s s' : Storage T Q) : Prop where
  owned : s'.Owned
  conts_eq : ∀ p a, s.Uses p a → (∀ t, p ≠ .cache t) → s'.conts a = s.conts a

end Storage

section Functions

variable {width : Q → ℕ} {m m' : Mem T Q} {t : T} {dq : Q} {item : Item Q}
  {rest : List (Item Q)} {oldDq redirected : Option Q}

open Storage

omit [DecidableEq Q] in
theorem storage_freeIfAsync (t : T) (a : Addr) (m : Mem T Q) :
    (freeIfAsync t a m).storage = m.storage.freeItem t (.cont a) := by
  unfold freeIfAsync
  by_cases hbit : (m.conts a).asyncBit
  · simp [hbit, freeItem, Mem.storage, dispatchContinuationFree, Storage.free]
  · simp [hbit, freeItem, Mem.storage]

/-- `_dispatch_continuation_pop` frees the item, and then calls its function or goes on
with the item that it wraps. -/
theorem storage_pop {n : ℕ}
    (h : dispatchContinuationPop t (n + 1) oldDq redirected item m = some m') :
    m'.storage = m.storage.freeItem t item ∨
      ∃ a other m₁ oldDq' redirected', item = .cont a ∧ (m.conts a).dcFunc = .redirect2 ∧
        (m.conts (m.conts a).dcCtxt).dcData1 = some other ∧
        m₁.storage = m.storage.freeItem t item ∧
        dispatchContinuationPop t n oldDq' redirected' other m₁ = some m' := by
  cases item with
  | queue dq =>
      cases h
      exact .inl rfl
  | cont a =>
      have hconts : (freeIfAsync t a m).conts = m.conts := by
        unfold freeIfAsync
        split <;> rfl
      rw [← storage_freeIfAsync]
      simp only [dispatchContinuationPop] at h
      split at h
      · cases h
        exact .inl rfl
      · cases h
        exact .inl rfl
      · obtain ⟨q, -, rfl⟩ := Option.map_eq_some_iff.mp h
        exact .inl rfl
      · rename_i hfunc
        rw [hconts] at h
        split at h
        · rename_i hdata
          exact .inr ⟨a, _, _, _, _, rfl, hfunc, hdata, by rfl, h⟩
        · cases h

theorem keeps_pop (ho : m.storage.Owned) (hitems : m.items dq = item :: rest)
    {m₁ : Mem T Q} (hm₁ : m₁.storage = m.storage.pop dq rest)
    (h : dispatchContinuationPop t 2 oldDq redirected item m₁ = some m') :
    m.storage.Keeps m'.storage := by
  have ho₁ : m₁.storage.Owned := hm₁ ▸ ho.pop hitems
  have hconts₁ : m₁.conts = m.conts := congrArg Storage.conts hm₁
  have hhand : ∀ a, item = .cont a → m₁.storage.InHand a := by
    rintro a rfl
    rw [hm₁]
    exact ho.inHand_pop hitems
  rcases storage_pop h with hm' | ⟨a, other, m₂, _, _, rfl, hfunc, hdata, hm₂, hpop⟩
  · rw [hm']
    exact ⟨ho₁.freeItem hhand, fun p x _ _ ↦ by rw [conts_freeItem]; exact congrFun hconts₁ x⟩
  · rw [hconts₁] at hfunc hdata
    have hmem : (.cont a : Item Q) ∈ m.items dq := by simp [hitems]
    have hctxt : (m.conts a).dcCtxt = a := (ho.redirect dq a hmem hfunc).2
    rw [hctxt] at hdata
    rcases storage_pop hpop with hm' | ⟨_, _, _, _, _, _, _, _, _, hpop'⟩
    · rw [hm', hm₂]
      refine ⟨(ho₁.freeItem hhand).freeItem fun b hb ↦ ?_, fun p x _ _ ↦ ?_⟩
      · subst hb
        have hne := ho.ne_of_wraps hmem hfunc hdata
        have hb := ho.inHand_pop_inside hitems hfunc hdata
        rw [← hm₁] at hb
        exact hb.freeItem fun heq ↦ hne (Item.cont.inj heq).symm
      · rw [conts_freeItem, conts_freeItem]
        exact congrFun hconts₁ x
    · cases hpop'

omit [DecidableEq T] [DecidableEq Q] in
theorem conts_fill {s : Storage T Q} {a x : Addr} (c : Cont Q) (hne : x ≠ a) :
    (s.fill a c).conts x = s.conts x :=
  Function.update_of_ne hne _ _

omit [DecidableEq Q] in
theorem inHand_asyncAlloc (ho : m.storage.Owned) :
    (asyncAlloc t m).1.storage.Owned ∧
      (asyncAlloc t m).1.storage.InHand (asyncAlloc t m).2 ∧ (asyncAlloc t m).1.conts = m.conts ∧
      ∀ p x, m.storage.Uses p x → (∀ u, p ≠ .cache u) → x ≠ (asyncAlloc t m).2 := by
  unfold asyncAlloc dispatchContinuationAllocCacheonly
  rcases hcache : m.cache t with - | ⟨dc, rest⟩
  · refine ⟨ho.alloc, ho.inHand_alloc, rfl, fun p x hx _ hxa ↦ ?_⟩
    rw [hxa] at hx
    exact ho.unused_heap p hx
  · have hhand : (m.storage.uncache t rest).InHand dc := ho.inHand_uncache hcache
    have huse : m.storage.Uses (.cache t) dc := by simp [Uses, Mem.storage, hcache]
    have hsub : rest.Sublist (m.storage.cache t) := by
      simp [Mem.storage, hcache]
    rw [if_neg hhand.pos.ne']
    refine ⟨ho.uncache hsub, hhand, rfl, ?_⟩
    rintro p x hx hp rfl
    exact hp t (ho.unique _ _ _ hx huse)

theorem keeps_async {w : Work} (ho : m.storage.Owned) (h : dispatchAsyncF t dq w m = some m') :
    m.storage.Keeps m'.storage := by
  obtain ⟨ho₁, hhand, hconts, hne⟩ := inHand_asyncAlloc (t := t) ho
  simp only [dispatchAsyncF, store, hhand.pos.ne', if_false, Option.map_some,
    Option.some.injEq] at h
  subst h
  generalize hc : ({ (asyncAlloc t m).1.conts (asyncAlloc t m).2 with
    asyncBit := true
    barrierBit := w.barrier
    dcGroup := w.group
    dcFunc := .client w.func
    dcCtxt := w.ctxt } : Cont Q) = c
  have hfunc : c.dcFunc ≠ .redirect2 := by
    rw [← hc]
    simp
  refine ⟨(ho₁.fill hhand.unused c).push (hhand.fill hhand.unused c) ?_ ?_, fun p x hx hp ↦ ?_⟩
  · intro b hb
    simp [Storage.fill, hfunc] at hb
  · intro hb
    simp [Storage.fill, hfunc] at hb
  · have hfill := conts_fill (s := (asyncAlloc t m).1.storage) c (hne p x hx hp)
    exact hfill.trans (congrFun hconts x)

omit [DecidableEq T] in
theorem keeps_pushOnStack {barrier : Bool} {func : Func} (ctxt : ℕ) (hfunc : func ≠ .redirect2)
    (ho : m.storage.Owned) : m.storage.Keeps (pushOnStack barrier func dq ctxt m).storage := by
  have hhand := ho.inHand_alloc
  unfold pushOnStack
  generalize hc : ({ m.conts m.heap with
    asyncBit := false
    barrierBit := barrier
    dcGroup := none
    dcFunc := func
    dcCtxt := ctxt } : Cont Q) = c
  have hfunc : c.dcFunc ≠ .redirect2 := by
    rw [← hc]
    exact hfunc
  refine ⟨(ho.alloc.fill hhand.unused c).push (hhand.fill hhand.unused c) ?_ ?_, fun p x hx _ ↦ ?_⟩
  · intro b hb
    simp [Storage.fill, hfunc, Mem.storage] at hb
  · intro hb
    simp [Storage.fill, hfunc, Mem.storage] at hb
  · refine conts_fill (s := m.storage) c ?_
    rintro rfl
    exact ho.unused_heap p hx

/-! ## The root queue -/

omit [DecidableEq Q] in
/-- `root` is at the end of the chain of targets that starts with `dq`. -/
def Targets.IsRoot (τ : Targets Q) (dq root : Q) : Prop :=
  Relation.ReflTransGen (fun q q' ↦ τ.doTargetq q = some q') dq root ∧ τ.doTargetq root = none

omit [DecidableEq Q] in
theorem Targets.isRoot_follow (τ : Targets Q) {n : ℕ} {q : Q} (hn : τ.depth q ≤ n) :
    τ.IsRoot q (τ.follow n q) := by
  induction n generalizing q with
  | zero =>
      refine ⟨.refl, ?_⟩
      rcases htq : τ.doTargetq q with - | q'
      · exact htq
      · have hlt := τ.depth_lt htq
        omega
  | succ n ih =>
      simp only [Targets.follow]
      split
      · rename_i q' htq
        have hlt := τ.depth_lt htq
        obtain ⟨hchain, hroot⟩ := ih (q := q') (by omega)
        exact ⟨.head htq hchain, hroot⟩
      · exact ⟨.refl, ‹_›⟩

omit [DecidableEq Q] in
theorem Targets.isRoot_of_root {τ : Targets Q} {root : Q} (h : τ.root dq = some root) :
    τ.IsRoot dq root := by
  obtain ⟨tq, htq, rfl⟩ := Option.map_eq_some_iff.mp h
  obtain ⟨hchain, hroot⟩ := τ.isRoot_follow (q := tq) le_rfl
  exact ⟨.head htq hchain, hroot⟩

omit [DecidableEq Q] in
theorem Targets.root_ne_none {τ : Targets Q} {dq : Q} (h : τ.doTargetq dq ≠ none) :
    ∃ root, τ.root dq = some root := by
  obtain ⟨tq, htq⟩ := Option.ne_none_iff_exists'.mp h
  exact ⟨_, by rw [Targets.root, htq]; rfl⟩

/-! ## Redirecting -/

omit [DecidableEq Q] in
theorem redirectAlloc_of_nil (hcache : m.cache t = []) :
    redirectAlloc t m = ({ m with heap := m.heap + 1 }, m.heap) := by
  simp [redirectAlloc, dispatchContinuationAllocCacheonly, hcache,
    dispatchContinuationAllocFromHeap]

omit [DecidableEq Q] in
theorem redirectAlloc_of_cons {dc : Addr} {rest : List Addr} (hcache : m.cache t = dc :: rest)
    (hdc : dc ≠ 0) :
    redirectAlloc t m = ({ m with cache := Function.update m.cache t rest }, 0) := by
  simp [redirectAlloc, dispatchContinuationAllocCacheonly, hcache, hdc]

theorem redirect_of_nil (dq : Q) (item : Item Q) {root : Q}
    (hslow : m.isSyncSlow2 item = false) (hcache : m.cache t = []) (hheap : 0 < m.heap)
    (hroot : m.targets.root dq = some root) :
    dispatchAsyncFRedirect t dq item m = some (dispatchQueuePush root (.cont m.heap)
      { addRef dq 1 (addRunning dq 2 m) with
        heap := m.heap + 1
        conts := Function.update m.conts m.heap (redirectCont dq item m.heap) }) := by
  have halloc := redirectAlloc_of_nil (m := addRef dq 1 (addRunning dq 2 m)) hcache
  have hne : (addRef dq 1 (addRunning dq 2 m)).heap ≠ 0 := hheap.ne'
  simp only [dispatchAsyncFRedirect, hslow, halloc, store, hne]
  simp only [Bool.false_eq_true, if_false, Option.bind_some]
  rw [show (addRef dq 1 (addRunning dq 2 m)).targets.root dq = some root from hroot]
  rfl

theorem redirect_of_cons {dc : Addr} {rest : List Addr} (hslow : m.isSyncSlow2 item = false)
    (hcache : m.cache t = dc :: rest) (hdc : dc ≠ 0) :
    dispatchAsyncFRedirect t dq item m = none := by
  have halloc := redirectAlloc_of_cons (m := addRef dq 1 (addRunning dq 2 m)) hcache hdc
  simp [dispatchAsyncFRedirect, hslow, halloc, store]

theorem keeps_redirect (ho : m.storage.Owned) (hitems : m.items dq = item :: rest)
    (hprivate : m.targets.doTargetq dq ≠ none)
    {m₁ : Mem T Q} (hm₁ : m₁.storage = m.storage.pop dq rest)
    (h : dispatchAsyncFRedirect t dq item m₁ = some m') :
    m.storage.Keeps m'.storage := by
  have ho₁ : m₁.storage.Owned := hm₁ ▸ ho.pop hitems
  have hconts₁ : m₁.conts = m.conts := congrArg Storage.conts hm₁
  by_cases hslow : m₁.isSyncSlow2 item
  · simp only [dispatchAsyncFRedirect, hslow, if_true, dispatchSyncFSlow2] at h
    obtain ⟨q, -, rfl⟩ := Option.map_eq_some_iff.mp h
    exact ⟨ho₁, fun p x _ _ ↦ congrFun hconts₁ x⟩
  · rw [Bool.not_eq_true] at hslow
    rcases hcache : m₁.cache t with - | ⟨dc, cached⟩
    · obtain ⟨root, hroot⟩ := Targets.root_ne_none (show m₁.targets.doTargetq dq ≠ none by
        rw [show m₁.targets = m.targets from congrArg Storage.targets hm₁]
        exact hprivate)
      rw [redirect_of_nil dq item hslow hcache ho₁.heap_pos hroot, Option.some.injEq] at h
      subst h
      have hdc := ho₁.inHand_alloc
      refine ⟨(ho₁.alloc.fill hdc.unused (redirectCont dq item m₁.heap)).push
        (hdc.fill hdc.unused _) ?_ ?_, fun p x hx _ ↦ ?_⟩
      · rintro b - hb
        obtain rfl : item = .cont b := by
          simpa [Storage.fill, redirectCont, Mem.storage] using hb
        have hhand : m₁.storage.InHand b := by
          rw [hm₁]
          exact ho.inHand_pop hitems
        refine ⟨hhand.lt_heap.ne, Storage.InHand.fill ⟨fun p hp ↦ hhand.unused p ?_, hhand.pos, ?_⟩
          hdc.unused _⟩
        · cases p <;> exact hp
        · exact hhand.lt_heap.trans (Nat.lt_succ_self _)
      · intro _
        refine ⟨(Targets.isRoot_of_root hroot).2, ?_⟩
        simp [Storage.fill, redirectCont, Mem.storage]
      · have hne : x ≠ m₁.heap := by
          rw [show m₁.heap = m.heap from congrArg Storage.heap hm₁]
          exact (ho.range p x hx).2.ne
        exact (conts_fill (s := m₁.storage) _ hne).trans (congrFun hconts₁ x)
    · have huse : m₁.storage.Uses (.cache t) dc := by simp [Uses, Mem.storage, hcache]
      rw [redirect_of_cons hslow hcache (ho₁.range _ dc huse).1.ne'] at h
      cases h

end Functions

/-! ## Whole runs -/

section Runs

variable {width : Q → ℕ} {m m' : Mem T Q}

omit [DecidableEq T] in
theorem redirectLeave_eq (t : T) (dq : Q) (m : Mem T Q) :
    (redirectLeave t dq m).storage = m.storage ∧
      (redirectLeave t dq m).dqRunning =
        Function.update m.dqRunning dq (m.dqRunning dq - 2) ∧
      (redirectLeave t dq m).doRefCnt = Function.update m.doRefCnt dq (m.doRefCnt dq - 1) ∧
      (redirectLeave t dq m).current = m.current ∧ (redirectLeave t dq m).frames = m.frames := by
  unfold redirectLeave wakeupIfIdle
  by_cases hzero : (addRunning dq (-2) m).dqRunning dq = 0
  · rw [if_pos hzero]
    exact ⟨rfl, rfl, rfl, rfl, rfl⟩
  · rw [if_neg hzero]
    exact ⟨rfl, rfl, rfl, rfl, rfl⟩

omit [DecidableEq T] [DecidableEq Q] in
theorem leaveGroup_eq (t : T) (group : Option ℕ) (m : Mem T Q) :
    (leaveGroup t group m).storage = m.storage ∧ (leaveGroup t group m).dqRunning = m.dqRunning ∧
      (leaveGroup t group m).doRefCnt = m.doRefCnt ∧ (leaveGroup t group m).frames = m.frames := by
  cases group <;> exact ⟨rfl, rfl, rfl, rfl⟩

theorem storage_functionReturn {t : T} (h : functionReturn t m = some m') :
    m'.storage = m.storage := by
  unfold functionReturn at h
  split at h
  · cases h
  · simp only at h
    split at h <;> cases h
    · exact (leaveGroup_eq _ _ _).1
    · exact (redirectLeave_eq _ _ _).1.trans (leaveGroup_eq _ _ _).1

theorem Step.keeps (h : Step width m m') (ho : m.storage.Owned) :
    m.storage.Keeps m'.storage := by
  cases h with
  | async h => exact keeps_async ho h
  | barrierSyncSlow dq ctxt => exact keeps_pushOnStack ctxt (by simp) ho
  | syncSlow dq ctxt => exact keeps_pushOnStack ctxt (by simp) ho
  | wakeup dq tq => exact ⟨ho.push_queue dq, fun _ _ _ _ ↦ rfl⟩
  | drain hprivate h =>
      unfold dispatchQueueDrain at h
      split at h
      · cases h
      · rename_i hitems
        simp only at h
        split at h
        · exact keeps_pop ho hitems rfl h
        · obtain ⟨m₂, hm₂, rfl⟩ := Option.map_eq_some_iff.mp h
          have hkeeps := keeps_redirect ho hitems hprivate rfl hm₂
          exact hkeeps
  | work _ h =>
      unfold dispatchWorkerThread2 at h
      split at h
      · cases h
      · rename_i hitems
        exact keeps_pop ho hitems rfl h
  | «return» h =>
      rw [storage_functionReturn h]
      exact ⟨ho, fun _ _ _ _ ↦ rfl⟩
  | cleanup t => exact ⟨ho.uncache (List.nil_sublist _), fun _ _ _ _ ↦ rfl⟩
  | count dq running refs => exact ⟨ho, fun _ _ _ _ ↦ rfl⟩
  | retarget τ hτ =>
      refine ⟨ho.mono le_rfl (fun p _ hp ↦ by cases p <;> exact hp) ho.cache_nodup ho.list_nodup
        fun q a ha hfunc ↦ ?_, fun _ _ _ _ ↦ rfl⟩
      exact (ho.redirect q a ha hfunc).imp_left (hτ q).mpr

omit [DecidableEq T] [DecidableEq Q] in
theorem owned_of_fresh (h : Fresh m) : m.storage.Owned := by
  have huses : ∀ p a, ¬ m.storage.Uses p a := by
    intro p a hp
    cases p with
    | cache t => simp [Storage.Uses, Mem.storage, h.cache] at hp
    | list q => simp [Storage.Uses, Mem.storage, h.items] at hp
    | inside dc => simp [Storage.Uses, Mem.storage, h.items] at hp
  refine ⟨h.heap, fun p _ a hp ↦ absurd hp (huses p a), fun p a hp ↦ absurd hp (huses p a),
    fun t ↦ ?_, fun q ↦ ?_, fun q a ha ↦ ?_⟩
  · simp [Mem.storage, h.cache]
  · simp [Mem.storage, h.items]
  · simp [Mem.storage, h.items] at ha

theorem owned_of_steps (h : Relation.ReflTransGen (Step width) m m') (ho : m.storage.Owned) :
    m'.storage.Owned := by
  induction h with
  | refl => exact ho
  | tail _ hstep ih => exact (hstep.keeps ih).owned

theorem owned_of_reachable (h : Reachable width m) : m.storage.Owned := by
  obtain ⟨m₀, hfresh, hsteps⟩ := h
  exact owned_of_steps hsteps (owned_of_fresh hfresh)

/-- A run during which the continuation waits on the list of the root queue. -/
def Waits (width : Q → ℕ) (root : Q) (dc : Addr) : Mem T Q → Mem T Q → Prop :=
  Relation.ReflTransGen fun m m' ↦ Step width m m' ∧ .cont dc ∈ m'.items root

structure InTransit (m : Mem T Q) (root dq : Q) (item : Item Q) (dc : Addr) : Prop where
  owned : m.storage.Owned
  mem : .cont dc ∈ m.items root
  filled : m.conts dc = redirectCont dq item dc

theorem InTransit.waits {root dq : Q} {item : Item Q} {dc : Addr} (h : InTransit m root dq item dc)
    (hw : Waits width root dc m m') :
    InTransit m' root dq item dc ∧ ∀ b, item = .cont b → m'.conts b = m.conts b := by
  induction hw with
  | refl => exact ⟨h, fun _ _ ↦ rfl⟩
  | tail _ hstep ih =>
      rename_i m₁ m₂ _
      obtain ⟨⟨owned, mem, filled⟩, hitem⟩ := ih
      obtain ⟨hstep, hmem'⟩ := hstep
      have hkeeps := hstep.keeps owned
      refine ⟨⟨hkeeps.owned, hmem', ?_⟩, fun b hb ↦ ?_⟩
      · exact (hkeeps.conts_eq (.list root) dc mem (by simp)).trans filled
      · have hinside : m₁.storage.Uses (.inside dc) b := by
          refine ⟨⟨root, mem⟩, ?_, ?_⟩
          · simp [Mem.storage, filled, redirectCont]
          · simp [Mem.storage, filled, redirectCont, hb]
        exact (hkeeps.conts_eq (.inside dc) b hinside (by simp)).trans (hitem b hb)

/-! ## The way of an item -/

/-- What the rest of the program notices when the function of an item is called. -/
def Mem.event (m : Mem T Q) : Item Q → Event Q
  | .queue dq => .invoke dq
  | .cont dc =>
      match (m.conts dc).dcFunc with
      | .client f => .call f (m.conts dc).dcCtxt
      | _ => .signal (m.conts dc).dcCtxt

def Mem.group (m : Mem T Q) : Item Q → Option ℕ
  | .queue _ => none
  | .cont dc => (m.conts dc).dcGroup

/-- The thread has forwarded the first item of `dq` in the new continuation `dc`. -/
structure Forwarded (m m' : Mem T Q) (dq root : Q) (item : Item Q) (rest : List (Item Q))
    (dc : Addr) : Prop where
  ne_null : dc ≠ 0
  unused : m.storage.Unused dc
  cache : m'.cache = m.cache
  filled : m'.conts dc = redirectCont dq item dc
  conts_eq : ∀ a, a ≠ dc → m'.conts a = m.conts a
  dqRunning : m'.dqRunning = Function.update m.dqRunning dq (m.dqRunning dq + 2)
  doRefCnt : m'.doRefCnt = Function.update m.doRefCnt dq (m.doRefCnt dq + 1)
  isRoot : m.targets.IsRoot dq root
  items_dq : m'.items dq = rest
  items_root : m'.items root = m.items root ++ [.cont dc]
  items_other : ∀ q, q ≠ dq → q ≠ root → m'.items q = m.items q
  events : m'.events = m.events

/-- A worker has taken the continuation and called the function of the item. -/
structure Started (m m' : Mem T Q) (u : T) (dq : Q) (group : Option ℕ) (event : Event Q) :
    Prop where
  events : m'.events = m.events ++ [(u, some dq, event)]
  current : m'.current u = some dq
  frames : m'.frames u = ⟨group, m.current u, some dq⟩ :: ⟨none, m.current u, none⟩ :: m.frames u
  dqRunning : m'.dqRunning = m.dqRunning
  doRefCnt : m'.doRefCnt = m.doRefCnt

/-- The function has returned, and the counts have been given back. -/
structure Finished (m m' : Mem T Q) (u : T) (dq : Q) (oldDq : Option Q) : Prop where
  current : m'.current u = oldDq
  dqRunning : m'.dqRunning = Function.update m.dqRunning dq (m.dqRunning dq - 2)
  doRefCnt : m'.doRefCnt = Function.update m.doRefCnt dq (m.doRefCnt dq - 1)

theorem forwarded_drain {t : T} {dq : Q} {item : Item Q} {rest : List (Item Q)}
    (ho : m.storage.Owned) (hprivate : m.targets.doTargetq dq ≠ none) (hwidth : 1 < width dq)
    (hitems : m.items dq = item :: rest) (hbarrier : m.isBarrier item = false)
    (hslow : m.isSyncSlow2 item = false) (hcache : m.cache t = []) :
    ∃ m' root, dispatchQueueDrain width t dq m = some m' ∧
      Forwarded m m' dq root item rest m.heap := by
  obtain ⟨root, hroot⟩ := Targets.root_ne_none hprivate
  have hisRoot := Targets.isRoot_of_root hroot
  have hne : root ≠ dq := by
    rintro rfl
    exact hprivate hisRoot.2
  have hredirect := redirect_of_nil dq item
    (m := setCurrent t (some dq) { m with items := Function.update m.items dq rest })
    hslow hcache ho.heap_pos hroot
  have hnot : ¬ (width dq = 1 ∨ m.isBarrier item) := by
    simp [hbarrier, hwidth.ne']
  generalize hm' : dispatchQueuePush root _ _ = m' at hredirect
  refine ⟨setCurrent t (m.current t) m', root, ?_, ?_⟩
  · rw [dispatchQueueDrain, hitems]
    simp only [hnot, if_false]
    rw [hredirect, Option.map_some]
  · subst hm'
    refine ⟨ho.heap_pos.ne', ho.unused_heap, rfl, ?_, fun a ha ↦ ?_, rfl, rfl, hisRoot, ?_, ?_,
      fun q hq hq' ↦ ?_, rfl⟩
    · exact Function.update_self _ _ _
    · exact Function.update_of_ne ha _ _
    · simp [dispatchQueuePush, setCurrent, addRef, addRunning, hne.symm]
    · simp [dispatchQueuePush, setCurrent, addRef, addRunning, hne]
    · simp [dispatchQueuePush, setCurrent, addRef, addRunning, hq, hq']

omit [DecidableEq Q] in
theorem freeIfAsync_eq (t : T) (a : Addr) (m : Mem T Q) :
    (freeIfAsync t a m).current = m.current ∧ (freeIfAsync t a m).frames = m.frames ∧
      (freeIfAsync t a m).dqRunning = m.dqRunning ∧ (freeIfAsync t a m).doRefCnt = m.doRefCnt ∧
      (freeIfAsync t a m).items = m.items ∧ (freeIfAsync t a m).events = m.events := by
  unfold freeIfAsync
  split <;> exact ⟨rfl, rfl, rfl, rfl, rfl, rfl⟩

theorem started_work {u : T} {root dq : Q} {item : Item Q} {rest : List (Item Q)} {dc : Addr}
    (hitems : m.items root = .cont dc :: rest) (hfilled : m.conts dc = redirectCont dq item dc)
    (hslow : m.isSyncSlow2 item = false)
    (hplain : ∀ a, item = .cont a → (m.conts a).dcFunc ≠ .redirect2) :
    ∃ m', dispatchWorkerThread2 u root m = some m' ∧
      Started m m' u dq (m.group item) (m.event item) ∧
      m'.items = Function.update m.items root rest := by
  let m₁ : Mem T Q := dispatchContinuationFree u dc
    { m with items := Function.update m.items root rest }
  let m₂ : Mem T Q := setCurrent u (some dq) (pushFrame u ⟨none, m.current u, none⟩ m₁)
  have hwork : dispatchWorkerThread2 u root m =
      dispatchContinuationPop u 1 (m.current u) (some dq) item m₂ := by
    simp [dispatchWorkerThread2, dispatchContinuationPop, hitems, hfilled, redirectCont, m₁, m₂,
      freeIfAsync, dispatchContinuationFree]
  rw [hwork]
  cases item with
  | queue q =>
      refine ⟨_, rfl, ⟨?_, ?_, ?_, rfl, rfl⟩, rfl⟩
      all_goals simp [enter, note, pushFrame, setCurrent, m₁, m₂, dispatchContinuationFree,
        Mem.group, Mem.event]
  | cont a =>
      obtain ⟨hcurrent, hframes, hrunning, hrefs, hitems', hevents⟩ := freeIfAsync_eq u a m₂
      have hconts : m₂.conts a = m.conts a := rfl
      have hfunc : ∃ e, dispatchContinuationPop u 1 (m.current u) (some dq) (.cont a) m₂ =
          some (enter u ⟨m.group (.cont a), m.current u, some dq⟩ e (freeIfAsync u a m₂)) ∧
          m.event (.cont a) = e := by
        simp only [dispatchContinuationPop, hconts, Mem.event, Mem.group]
        cases hf : (m.conts a).dcFunc with
        | client f => exact ⟨_, rfl, rfl⟩
        | barrierSyncSlowInvoke => exact ⟨_, rfl, rfl⟩
        | syncSlow2 => simp [Mem.isSyncSlow2, hf] at hslow
        | redirect2 => exact absurd hf (hplain a rfl)
      obtain ⟨e, he, rfl⟩ := hfunc
      refine ⟨_, he, ⟨?_, ?_, ?_, hrunning, hrefs⟩, hitems'⟩
      all_goals
        simp only [enter, note, pushFrame, hcurrent, hframes, hevents]
        simp [m₂, m₁, setCurrent, pushFrame, dispatchContinuationFree]

theorem finished_return {u : T} {dq : Q} {group : Option ℕ} {oldDq : Option Q}
    {fs : List (Frame Q)} (hframes : m.frames u = ⟨group, oldDq, some dq⟩ :: fs) :
    ∃ m', functionReturn u m = some m' ∧ Finished m m' u dq oldDq ∧ m'.frames u = fs := by
  let m₁ := leaveGroup u group { m with frames := Function.update m.frames u fs }
  obtain ⟨-, hrunning, hrefs, hframes₁⟩ := leaveGroup_eq u group
    { m with frames := Function.update m.frames u fs }
  obtain ⟨-, hrunning', hrefs', hcurrent', hframes'⟩ :=
    redirectLeave_eq u dq (setCurrent u oldDq m₁)
  refine ⟨redirectLeave u dq (setCurrent u oldDq m₁), by rw [functionReturn, hframes],
    ⟨?_, ?_, ?_⟩, ?_⟩
  · rw [hcurrent']
    exact Function.update_self _ _ _
  · rw [hrunning']
    exact congrArg (fun r ↦ Function.update r dq (r dq - 2)) hrunning
  · rw [hrefs']
    exact congrArg (fun r ↦ Function.update r dq (r dq - 1)) hrefs
  · rw [hframes']
    exact (congrFun hframes₁ u).trans (Function.update_self _ _ _)

/-- A thread with an empty cache forwards an item of a concurrent queue intact. -/
theorem redirect_intact (hreach : Reachable width m) {t : T} {dq : Q} {item : Item Q}
    {rest : List (Item Q)} (hprivate : m.targets.doTargetq dq ≠ none) (hwidth : 1 < width dq)
    (hitems : m.items dq = item :: rest) (hbarrier : m.isBarrier item = false)
    (hslow : m.isSyncSlow2 item = false) (hcache : m.cache t = []) :
    ∃ m' root dc, dispatchQueueDrain width t dq m = some m' ∧
      Forwarded m m' dq root item rest dc ∧
      ∀ m₁, Waits width root dc m' m₁ → (m₁.items root).count (.cont dc) = 1 ∧
        ∀ u rest', m₁.items root = .cont dc :: rest' →
          ∃ m₂, dispatchWorkerThread2 u root m₁ = some m₂ ∧
            Started m₁ m₂ u dq (m.group item) (m.event item) ∧
            (∀ q, .cont dc ∉ m₂.items q) ∧
            ∀ m₃, Relation.ReflTransGen (Step width) m₂ m₃ → m₃.frames u = m₂.frames u →
              ∃ m₄, functionReturn u m₃ = some m₄ ∧ Finished m₃ m₄ u dq (m₁.current u) := by
  have ho := owned_of_reachable hreach
  obtain ⟨m', root, hdrain, hfwd⟩ := forwarded_drain ho hprivate hwidth hitems hbarrier hslow hcache
  refine ⟨m', root, m.heap, hdrain, hfwd, fun m₁ hwaits ↦ ?_⟩
  have htransit : InTransit m' root dq item m.heap :=
    ⟨((Step.drain hprivate hdrain).keeps ho).owned, by simp [hfwd.items_root], hfwd.filled⟩
  obtain ⟨⟨ho₁, hmem, hfilled⟩, hconts⟩ := htransit.waits hwaits
  have hitem : ∀ a, item = .cont a → m₁.conts a = m.conts a := by
    rintro a rfl
    have huse : m.storage.Uses (.list dq) a := by simp [Storage.Uses, Mem.storage, hitems]
    exact (hconts a rfl).trans (hfwd.conts_eq a (ho.range _ a huse).2.ne)
  have hgroup : m₁.group item = m.group item := by
    cases item <;> simp [Mem.group, hitem]
  have hevent : m₁.event item = m.event item := by
    cases item <;> simp [Mem.event, hitem]
  have hslow₁ : m₁.isSyncSlow2 item = false := by
    cases item <;> simp_all [Mem.isSyncSlow2]
  have hplain : ∀ a, item = .cont a → (m₁.conts a).dcFunc ≠ .redirect2 := by
    rintro a rfl hfunc
    rw [hitem a rfl] at hfunc
    exact hprivate (ho.redirect dq a (by simp [Mem.storage, hitems]) hfunc).1
  refine ⟨?_, fun u rest' hhead ↦ ?_⟩
  · exact Storage.count_eq_one ho₁ hmem
  · obtain ⟨m₂, hwork, hstarted, hitems₂⟩ :=
      started_work (u := u) hhead hfilled hslow₁ hplain
    rw [hgroup, hevent] at hstarted
    refine ⟨m₂, hwork, hstarted, fun q hq ↦ ?_, fun m₃ _ hframes ↦ ?_⟩
    · rw [hitems₂] at hq
      exact (ho₁.inHand_pop hhead).unused (.list q) hq
    · rw [hstarted.frames] at hframes
      obtain ⟨m₄, hreturn, hfinished, -⟩ := finished_return hframes
      exact ⟨m₄, hreturn, hfinished⟩

/-- A thread with a continuation in its cache loses that continuation and fails, whichever
item it is to forward. -/
theorem redirect_fails_of_cached (hreach : Reachable width m) {t : T} {dq : Q} {item : Item Q}
    {rest : List (Item Q)} {dc : Addr} {cached : List Addr} (hwidth : 1 < width dq)
    (hitems : m.items dq = item :: rest) (hbarrier : m.isBarrier item = false)
    (hslow : m.isSyncSlow2 item = false) (hcache : m.cache t = dc :: cached) :
    (redirectAlloc t m).2 = 0 ∧ (redirectAlloc t m).1.cache t = cached ∧
      dispatchQueueDrain width t dq m = none := by
  have ho := owned_of_reachable hreach
  have huse : m.storage.Uses (.cache t) dc := by simp [Storage.Uses, Mem.storage, hcache]
  have hdc : dc ≠ 0 := (ho.range _ dc huse).1.ne'
  have halloc := redirectAlloc_of_cons hcache hdc
  have hnot : ¬ (width dq = 1 ∨ m.isBarrier item) := by
    simp [hbarrier, hwidth.ne']
  refine ⟨by rw [halloc], by rw [halloc]; simp, ?_⟩
  have hredirect : dispatchAsyncFRedirect t dq item
      (setCurrent t (some dq) { m with items := Function.update m.items dq rest }) = none :=
    redirect_of_cons hslow hcache hdc
  rw [dispatchQueueDrain, hitems]
  simp only [hnot, if_false]
  rw [hredirect, Option.map_none]

end Runs

/-! ## A concurrent queue on a root queue -/

/-- The queue `false` with the root queue `true` as its target, and one thread. -/
def freshMem : Mem Unit Bool where
  conts _ := ⟨false, false, none, .client 0, 0, none, none⟩
  heap := 1
  cache _ := []
  current _ := none
  frames _ := []
  dqRunning _ := 0
  doRefCnt _ := 1
  items _ := []
  targets :=
    { doTargetq := fun q ↦ if q then none else some true
      depth := fun q ↦ if q then 0 else 1
      depth_lt := by decide }
  events := []

theorem fresh_freshMem : Fresh freshMem :=
  ⟨by decide, fun _ ↦ rfl, fun _ ↦ rfl, fun _ ↦ rfl⟩

def asyncMem : Mem Unit Bool :=
  (dispatchAsyncF () false ⟨false, none, 7, 8⟩ freshMem).get rfl

theorem reachable_asyncMem : Reachable (fun _ ↦ 2) asyncMem :=
  ⟨freshMem, fresh_freshMem, .single (.async (Option.some_get _).symm)⟩

theorem redirect_intact_async :
    asyncMem.items false = [.cont 1] ∧
      ∃ m' root dc, dispatchQueueDrain (fun _ ↦ 2) () false asyncMem = some m' ∧
        Forwarded asyncMem m' false root (.cont 1) [] dc := by
  refine ⟨rfl, ?_⟩
  obtain ⟨m', root, dc, hdrain, hfwd, -⟩ := redirect_intact reachable_asyncMem (t := ())
    (by decide : asyncMem.targets.doTargetq false ≠ none) (by decide)
    (rfl : asyncMem.items false = .cont 1 :: []) rfl rfl rfl
  exact ⟨m', root, dc, hdrain, hfwd⟩

def barrierMem : Mem Unit Bool :=
  (dispatchAsyncF () false ⟨false, none, 7, 8⟩
    ((dispatchAsyncF () false ⟨true, none, 5, 6⟩ freshMem).get rfl)).get rfl

/-- The barrier has been run, and its continuation is in the cache. -/
def cachedMem : Mem Unit Bool :=
  (functionReturn () ((dispatchQueueDrain (fun _ ↦ 2) () false barrierMem).get rfl)).get rfl

theorem reachable_cachedMem : Reachable (fun _ ↦ 2) cachedMem := by
  have hbarrier : Step (fun _ ↦ 2) freshMem
      ((dispatchAsyncF () false ⟨true, none, 5, 6⟩ freshMem).get rfl) :=
    .async (Option.some_get _).symm
  have hasync : Step (fun _ ↦ 2) _ barrierMem := .async (Option.some_get _).symm
  have hdrain : Step (fun _ ↦ 2) barrierMem
      ((dispatchQueueDrain (fun _ ↦ 2) () false barrierMem).get rfl) :=
    .drain (by decide) (Option.some_get _).symm
  have hreturn : Step (fun _ ↦ 2) _ cachedMem := .return (Option.some_get _).symm
  exact ⟨freshMem, fresh_freshMem, .tail (.tail (.tail (.single hbarrier) hasync) hdrain) hreturn⟩

theorem redirect_loses_cached :
    Reachable (fun _ ↦ 2) cachedMem ∧ cachedMem.targets.doTargetq false ≠ none ∧
      cachedMem.items false = [.cont 2] ∧ cachedMem.isBarrier (.cont 2) = false ∧
      cachedMem.isSyncSlow2 (.cont 2) = false ∧ cachedMem.cache () = [1] ∧
      (redirectAlloc () cachedMem).2 = 0 ∧ (redirectAlloc () cachedMem).1.cache () = [] ∧
      dispatchQueueDrain (fun _ ↦ 2) () false cachedMem = none := by
  exact ⟨reachable_cachedMem, by decide, rfl, rfl, rfl, rfl, rfl, rfl, rfl⟩

end LibDispatch.Redirect
