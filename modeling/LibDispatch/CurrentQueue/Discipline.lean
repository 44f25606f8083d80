import LibDispatch.CurrentQueue.Model

/-!
# The current queue is the queue submitted to

Every activation gives the current queue back as it found it, and an item finds the queue
it was submitted to.  A handler of a source finds the target of the source.  The target is
changed only by an item of the source's own list, while the source is drained; the handler
runs after that, under the same lock.
-/

namespace LibDispatch.CurrentQueue

open Interleaving

variable {T ι : Type*}

def Item.Fits (dq : Queue ι) : Item T ι → Prop
  | .client dq' _ _ => dq' = dq
  | .barrierSyncFSlowInvoke dq' _ _ => dq' = dq
  | .setTargetQueue2 _ => dq.isGlobal = false
  | .asyncFRedirect2 dq' other => other.Fits dq' ∧ other.barrier = false
  | .queue _ | .syncFSlow2 _ => True

def Item.retargets : Item T ι → Prop
  | .setTargetQueue2 _ => True
  | _ => False

/-- The lock of `dq` was taken by an activation of `t` below height `n`. -/
def Held (m : Mem T ι) (t : T) (n : ℕ) (p : Phase) (dq : Queue ι) : Prop :=
  ∃ i < n, m.locked dq = some ⟨t, i, p⟩

/-- What a function relies on when it is called at height `n`. -/
def Call.Ok (m : Mem T ι) (t : T) (n : ℕ) (key : Option (Queue ι)) : Call T ι → Prop
  | .workerThread2 _ => key = none
  | .continuationPop dc =>
      ∃ dq, key = some dq ∧ dc.Fits dq ∧ (dc.retargets → Held m t n .drain dq)
  | .queueDrain dq => dq.isGlobal ∨ Held m t n .drain dq
  | .sourceInvoke ds => Held m t n .invoke (.source ds)
  | .asyncFRedirect dq other => key = some dq ∧ other.Fits dq ∧ other.barrier = false
  | .asyncFRedirect2 dq other => other.Fits dq ∧ other.barrier = false
  | .barrierSyncFSlowInvoke dq _ _ => key = some dq
  | .setTargetQueue2 _ => ∃ dq, key = some dq ∧ Held m t n .drain dq
  | .item dq _ => key = some dq
  | .handler ds => key = m.doTargetq (.source ds) ∧ Held m t n .invoke (.source ds)
  | .queueInvoke _ | .mgrInvoke | .barrierSyncF _ _ | .barrierSyncFSlow _ _ | .syncF _ _
  | .syncFSlow _ | .syncFSlow2 _ | .mainQueueCallback => True

/-- What holds of an activation at height `n` that was entered with the current queue
`e`: either the current queue is `e` again, or `e` is in a local variable. -/
def Loc.Ok (m : Mem T ι) (t : T) (n : ℕ) (l : Loc T ι) (key e : Option (Queue ι)) : Prop :=
  match l with
  | .enter c => key = e ∧ c.Ok m t n key
  | .idle => key = e ∧ e = none
  | .working i => key = some (.root i) ∧ e = none
  | .invokeDrained dq _ => key = e ∧ m.locked dq = some ⟨t, n, .drain⟩
  | .dxInvoked dq | .invoked dq _ => key = e ∧ m.locked dq = some ⟨t, n, .invoke⟩
  | .draining dq oldDq _ =>
      key = some dq ∧ oldDq = e ∧ (dq.isGlobal ∨ Held m t n .drain dq)
  | .redirectFollow dq other _ | .redirectTest dq other _ =>
      key = e ∧ other.Fits dq ∧ other.barrier = false
  | .redirected oldDq | .barrierSlow oldDq | .synced oldDq => oldDq = e
  | .barrierSynced dq oldDq => oldDq = e ∧ m.locked dq = some ⟨t, n, .sync⟩
  | .barrierWait _ _ oldDq => key = e ∧ oldDq = e
  | .managing => key = some .mgr
  | .leave _ | .outside | .slowInvoked _ | .syncing _ _ | .syncWait | .sourceInvoked _
  | .mainDrained => key = e
  | .crash _ => False

/-- Every item is on a list where it may be popped, and only root queues have no target. -/
structure Sorted (m : Mem T ι) : Prop where
  fits : ∀ dq, ∀ item ∈ m.items dq, item.Fits dq
  target : ∀ dq, m.doTargetq dq = none → ∃ i, dq = .root i

/-- What a step of `t` at height `n` leaves alone: the locks taken by other threads and by
the activations below, and the targets of the queues that `t` is not draining. -/
structure Guarantee (m : Mem T ι) (t : T) (n : ℕ) (m' : Mem T ι) : Prop where
  lock : ∀ dq h, m.locked dq = some h → (h.thread = t → h.height < n) → m'.locked dq = some h
  target : ∀ dq, m'.doTargetq dq = m.doTargetq dq ∨ ∃ i, m.locked dq = some ⟨t, i, .drain⟩

theorem Held.mono {m : Mem T ι} {t : T} {n n' : ℕ} {p : Phase} {dq : Queue ι}
    (h : Held m t n p dq) (hn : n ≤ n') : Held m t n' p dq := by
  obtain ⟨i, hi, hlock⟩ := h
  exact ⟨i, hi.trans_le hn, hlock⟩

theorem Guarantee.held {m m' : Mem T ι} {t u : T} {n i : ℕ} {p : Phase} {dq : Queue ι}
    (hg : Guarantee m t n m') (hu : u = t → i < n) (h : Held m u i p dq) : Held m' u i p dq := by
  obtain ⟨j, hj, hlock⟩ := h
  exact ⟨j, hj, hg.lock dq _ hlock fun hut ↦ hj.trans (hu hut)⟩

theorem Guarantee.own {m m' : Mem T ι} {t u : T} {n i : ℕ} {p : Phase} {dq : Queue ι}
    (hg : Guarantee m t n m') (hu : u = t → i < n) (h : m.locked dq = some ⟨u, i, p⟩) :
    m'.locked dq = some ⟨u, i, p⟩ :=
  hg.lock dq _ h hu

theorem Guarantee.target_of_held {m m' : Mem T ι} {t u : T} {n i : ℕ} {dq : Queue ι}
    (hg : Guarantee m t n m') (h : Held m u i .invoke dq) :
    m'.doTargetq dq = m.doTargetq dq := by
  rcases hg.target dq with htarget | ⟨j, hdrain⟩
  · exact htarget
  · obtain ⟨i, -, hlock⟩ := h
    rw [hlock] at hdrain
    cases hdrain

theorem Call.Ok.stable {m m' : Mem T ι} {t u : T} {n i : ℕ} {key : Option (Queue ι)}
    {c : Call T ι} (hg : Guarantee m t n m') (hu : u = t → i < n) (h : c.Ok m u i key) :
    c.Ok m' u i key := by
  cases c with
  | continuationPop item =>
      obtain ⟨dq, hkey, hfits, hheld⟩ := h
      exact ⟨dq, hkey, hfits, fun hr ↦ hg.held hu (hheld hr)⟩
  | queueDrain dq => exact h.imp_right (hg.held hu)
  | sourceInvoke ds =>
      have hheld : Held m u i .invoke (.source ds) := h
      exact hg.held hu hheld
  | setTargetQueue2 tq =>
      obtain ⟨dq, hkey, hheld⟩ := h
      exact ⟨dq, hkey, hg.held hu hheld⟩
  | handler ds => exact ⟨h.1.trans (hg.target_of_held h.2).symm, hg.held hu h.2⟩
  | _ => exact h

theorem Loc.Ok.stable {m m' : Mem T ι} {t u : T} {n i : ℕ} {key e : Option (Queue ι)}
    {l : Loc T ι} (hg : Guarantee m t n m') (hu : u = t → i < n) (h : l.Ok m u i key e) :
    l.Ok m' u i key e := by
  cases l with
  | enter c => exact ⟨h.1, h.2.stable hg hu⟩
  | invokeDrained dq tq => exact ⟨h.1, hg.own hu h.2⟩
  | dxInvoked dq => exact ⟨h.1, hg.own hu h.2⟩
  | invoked dq tq => exact ⟨h.1, hg.own hu h.2⟩
  | draining dq oldDq origTq => exact ⟨h.1, h.2.1, h.2.2.imp_right (hg.held hu)⟩
  | barrierSynced dq oldDq => exact ⟨h.1, hg.own hu h.2⟩
  | _ => exact h

theorem Loc.Ok.resume {m : Mem T ι} {t : T} {n : ℕ} {key e : Option (Queue ι)} {l : Loc T ι}
    (h : l.Ok m t n key e) (r : Option (Queue ι)) : (resume l r).Ok m t n key e := by
  cases l <;> exact h

/-- What has to be shown of a step of an activation that was entered with `e`. -/
def Kept (m : Mem T ι) (t : T) (n : ℕ) (e : Option (Queue ι)) (r : Result T ι) : Prop :=
  ∀ m' key x, r = some (m', key, x) →
    Sorted m' ∧ Guarantee m t n m' ∧ x.Sound (Loc.Ok m' t) n e key

section Memory

variable {m : Mem T ι} {t : T} {n : ℕ} {dq : Queue ι}

theorem Guarantee.of_eq {m' : Mem T ι} (hlock : m'.locked = m.locked)
    (htarget : m'.doTargetq = m.doTargetq) : Guarantee m t n m' :=
  ⟨fun _ _ h _ ↦ by rw [hlock, h], fun _ ↦ .inl (by rw [htarget])⟩

theorem Guarantee.refl : Guarantee m t n m := .of_eq rfl rfl

variable [DecidableEq ι]

theorem Guarantee.push {item : Item T ι} : Guarantee m t n (dispatchQueuePush dq item m) :=
  .of_eq rfl rfl

theorem Guarantee.setLock {h : Option (Holder T)}
    (hfree : ∀ x, m.locked dq = some x → x.thread = t ∧ n ≤ x.height) :
    Guarantee m t n (setLock dq h m) := by
  refine ⟨fun dq' x hx hbelow ↦ ?_, fun _ ↦ .inl rfl⟩
  have hne : dq' ≠ dq := by
    rintro rfl
    obtain ⟨ht, hn⟩ := hfree x hx
    exact absurd (hbelow ht) (not_lt.mpr hn)
  simpa [CurrentQueue.setLock, hne] using hx

theorem Guarantee.setLock_own {h : Option (Holder T)} {p : Phase}
    (hown : m.locked dq = some ⟨t, n, p⟩) : Guarantee m t n (CurrentQueue.setLock dq h m) := by
  refine .setLock fun x hx ↦ ?_
  obtain rfl : x = ⟨t, n, p⟩ := Option.some.inj (hx.symm.trans hown)
  exact ⟨rfl, le_rfl⟩

theorem Guarantee.setLock_free {h : Option (Holder T)} (hfree : m.locked dq = none) :
    Guarantee m t n (CurrentQueue.setLock dq h m) :=
  .setLock fun x hx ↦ by rw [hfree] at hx; cases hx

theorem Guarantee.push_setLock {h : Option (Holder T)} {tq : Queue ι} {item : Item T ι}
    (hg : Guarantee m t n (CurrentQueue.setLock dq h m)) :
    Guarantee m t n (dispatchQueuePush tq item (CurrentQueue.setLock dq h m)) :=
  ⟨hg.lock, hg.target⟩

theorem Sorted.setLock (hm : Sorted m) (h : Option (Holder T)) :
    Sorted (CurrentQueue.setLock dq h m) :=
  ⟨hm.fits, hm.target⟩

theorem Sorted.push (hm : Sorted m) {item : Item T ι} (hfits : item.Fits dq) :
    Sorted (dispatchQueuePush dq item m) := by
  refine ⟨fun dq' item' hmem ↦ ?_, hm.target⟩
  rcases eq_or_ne dq' dq with rfl | hne
  · have hmem' : item' ∈ m.items dq' ∨ item' = item := by simpa [dispatchQueuePush] using hmem
    rcases hmem' with hold | rfl
    · exact hm.fits _ _ hold
    · exact hfits
  · exact hm.fits dq' item' (by simpa [dispatchQueuePush, hne] using hmem)

theorem Sorted.pop (hm : Sorted m) {item : Item T ι} {rest : List (Item T ι)}
    (hitems : m.items dq = item :: rest) :
    Sorted { m with items := Function.update m.items dq rest } ∧ item.Fits dq := by
  refine ⟨⟨fun dq' item' hmem ↦ ?_, hm.target⟩, hm.fits dq item (by simp [hitems])⟩
  rcases eq_or_ne dq' dq with rfl | hne
  · have hrest : item' ∈ rest := by simpa using hmem
    exact hm.fits dq' item' (by simp [hitems, hrest])
  · exact hm.fits dq' item' (by simpa [hne] using hmem)

end Memory

section Step

variable {m m' : Mem T ι} {t : T} {n : ℕ} {e key : Option (Queue ι)} {a : Act ι}

theorem kept_none : Kept m t n e none := by
  rintro m' key x h
  cases h

theorem kept_goto {l : Loc T ι} (hm : Sorted m') (hg : Guarantee m t n m')
    (hl : l.Ok m' t n key e) : Kept m t n e (goto m' key l) := by
  rintro _ _ _ ⟨⟩
  exact ⟨hm, hg, hl⟩

theorem kept_call {l : Loc T ι} {c : Call T ι} (hm : Sorted m') (hg : Guarantee m t n m')
    (hl : l.Ok m' t n key e) (hc : c.Ok m' t (n + 1) key) :
    Kept m t n e (call m' key l c) := by
  rintro _ _ _ ⟨⟩
  exact ⟨hm, hg, hl, rfl, hc⟩

theorem kept_goto_here {l : Loc T ι} (hm : Sorted m) (hl : l.Ok m t n key e) :
    Kept m t n e (goto m key l) :=
  kept_goto hm .refl hl

theorem kept_call_here {l : Loc T ι} {c : Call T ι} (hm : Sorted m) (hl : l.Ok m t n key e)
    (hc : c.Ok m t (n + 1) key) : Kept m t n e (call m key l c) :=
  kept_call hm .refl hl hc

theorem kept_wait [DecidableEq T] {f : Mem T ι → Result T ι}
    (hf : ∀ m', m'.locked = m.locked → m'.doTargetq = m.doTargetq → m'.items = m.items →
      Kept m t n e (f m')) : Kept m t n e ((wait t m).bind f) := by
  unfold wait
  split
  · exact kept_none
  · exact hf _ rfl rfl rfl

theorem kept_continuationPop {item : Item T ι} (hm : Sorted m)
    (h : (Call.continuationPop item).Ok m t n key) :
    Kept m t n key (dispatchContinuationPop m key item) := by
  obtain ⟨dq, rfl, hfits, hheld⟩ := h
  cases item with
  | queue dq' => exact kept_call_here hm rfl trivial
  | client dq' barrier f =>
      obtain rfl : dq' = dq := hfits
      exact kept_call_here hm rfl rfl
  | barrierSyncFSlowInvoke dq' f sema =>
      obtain rfl : dq' = dq := hfits
      exact kept_call_here hm rfl rfl
  | syncFSlow2 sema => exact kept_call_here hm rfl trivial
  | setTargetQueue2 tq =>
      exact kept_call_here hm rfl ⟨dq, rfl, (hheld trivial).mono (Nat.le_succ n)⟩
  | asyncFRedirect2 dq' other => exact kept_call_here hm rfl hfits

theorem kept_dxInvoke {dq : Queue ι} (hm : Sorted m') (hg : Guarantee m t n m')
    (hlock : m'.locked dq = some ⟨t, n, .invoke⟩) : Kept m t n key (dxInvoke m' key dq) := by
  cases dq with
  | source ds => exact kept_call hm hg ⟨rfl, hlock⟩ ⟨n, n.lt_succ_self, hlock⟩
  | mgr => exact kept_call hm hg ⟨rfl, hlock⟩ trivial
  | _ => exact kept_goto hm hg ⟨rfl, hlock⟩

theorem kept_mgrInvoke {l : Loc T ι} (hm : Sorted m) (h : l.Ok m t n key e) :
    Kept m t n e (dispatchMgrInvoke m key l) := by
  unfold dispatchMgrInvoke
  split
  · exact kept_goto_here hm rfl
  · exact kept_call_here hm h (.inl rfl)
  · exact kept_none

theorem kept_asyncFRedirect2 {l : Loc T ι} (hm : Sorted m) (h : l.Ok m t n key e) :
    Kept m t n e (dispatchAsyncFRedirect2 m key l) := by
  unfold dispatchAsyncFRedirect2
  split
  case h_1 dq other =>
    obtain ⟨rfl, hfits, hno⟩ := h
    refine kept_call_here hm rfl ⟨dq, rfl, hfits, fun hr ↦ ?_⟩
    cases other <;> cases hr
    cases hno
  case h_2 oldDq => exact kept_goto_here hm h
  case h_3 => exact kept_none

theorem kept_syncF {l : Loc T ι} (hm : Sorted m) (h : l.Ok m t n key e) :
    Kept m t n e (dispatchSyncF a m key l) := by
  unfold dispatchSyncF
  split
  case h_1 dq f =>
    split
    · exact kept_call_here hm h.1 trivial
    split
    · exact kept_goto_here hm h.1
    · exact kept_call_here hm h.1 trivial
    · exact kept_none
  case h_2 dq f => exact kept_call_here hm h rfl
  case h_3 oldDq => exact kept_goto_here hm h
  case h_4 => exact kept_none

theorem kept_syncFSlow2 [DecidableEq T] (hm : Sorted m) (sema : T) :
    Kept m t n key (dispatchSyncFSlow2 m key sema) := by
  unfold dispatchSyncFSlow2
  split
  · exact kept_goto ⟨hm.fits, hm.target⟩ (.of_eq rfl rfl) rfl
  · exact kept_none

theorem kept_mainQueueCallback {l : Loc T ι} (hm : Sorted m) (h : l.Ok m t n key e) :
    Kept m t n e (dispatchMainQueueCallback m key l) := by
  unfold dispatchMainQueueCallback
  split
  · split
    · exact kept_goto_here hm h.1
    · exact kept_call ⟨hm.fits, hm.target⟩ (.of_eq rfl rfl) h.1 (.inl rfl)
  · exact kept_goto ⟨hm.fits, hm.target⟩ (.of_eq rfl rfl) h
  · exact kept_none

variable [DecidableEq ι]

theorem kept_workerThread2 {l : Loc T ι} (hm : Sorted m) (h : l.Ok m t n key e) :
    Kept m t n e (dispatchWorkerThread2 a m key l) := by
  unfold dispatchWorkerThread2
  split
  case h_1 i =>
    obtain ⟨rfl, rfl⟩ : key = e ∧ key = none := h
    exact kept_goto_here hm ⟨rfl, rfl⟩
  case h_2 i =>
    obtain ⟨rfl, rfl⟩ : key = some (.root i) ∧ e = none := h
    split
    case h_1 item rest hitems =>
      obtain ⟨hm', hfits⟩ := hm.pop hitems
      refine kept_call hm' (.of_eq rfl rfl) ⟨rfl, rfl⟩ ⟨.root i, rfl, hfits, fun hr ↦ ?_⟩
      cases item <;> cases hr
      cases hfits
    case h_2 => exact kept_goto_here hm rfl
    case h_3 => exact kept_none
  case h_3 => exact kept_none

theorem kept_queueInvoke {l : Loc T ι} (hm : Sorted m) (h : l.Ok m t n key e) :
    Kept m t n e (dispatchQueueInvoke t a m n key l) := by
  unfold dispatchQueueInvoke
  split
  case h_1 dq =>
    obtain ⟨rfl, -⟩ := h
    split
    case h_1 hfree =>
      have hlock : (setLock dq (some ⟨t, n, .drain⟩) m).locked dq = some ⟨t, n, .drain⟩ := by
        simp [setLock]
      exact kept_call (hm.setLock _) (.setLock_free hfree) ⟨rfl, hlock⟩
        (.inr ⟨n, n.lt_succ_self, hlock⟩)
    case h_2 => exact kept_goto_here hm rfl
    case h_3 => exact kept_none
  case h_2 dq tq =>
    obtain ⟨rfl, hown⟩ : key = e ∧ m.locked dq = some ⟨t, n, .drain⟩ := h
    have hg : Guarantee m t n (setLock dq (some ⟨t, n, .invoke⟩) m) := .setLock_own hown
    have hlock : (setLock dq (some ⟨t, n, .invoke⟩) m).locked dq = some ⟨t, n, .invoke⟩ := by
      simp [setLock]
    dsimp only
    split
    · exact kept_dxInvoke (hm.setLock _) hg hlock
    · exact kept_goto (hm.setLock _) hg ⟨rfl, hlock⟩
  case h_3 dq tq =>
    obtain ⟨rfl, hown⟩ : key = e ∧ m.locked dq = some ⟨t, n, .invoke⟩ := h
    have hg : Guarantee m t n (setLock dq none m) := .setLock_own hown
    dsimp only
    split
    · exact kept_goto ((hm.setLock none).push trivial) hg.push_setLock rfl
    · exact kept_goto (hm.setLock none) hg rfl
  case h_4 => exact kept_none

theorem kept_queueDrain {l : Loc T ι} (hm : Sorted m) (h : l.Ok m t n key e) :
    Kept m t n e (dispatchQueueDrain a m key l) := by
  unfold dispatchQueueDrain
  split
  case h_1 dq =>
    obtain ⟨rfl, hheld⟩ := h
    exact kept_goto_here hm ⟨rfl, rfl, hheld⟩
  case h_2 dq oldDq origTq =>
    obtain ⟨rfl, rfl, hheld⟩ : key = some dq ∧ oldDq = e ∧
      (dq.isGlobal ∨ Held m t n .drain dq) := h
    split
    case h_1 item rest hitems =>
      obtain ⟨hm', hfits⟩ := hm.pop hitems
      split
      · exact kept_none
      split
      · refine kept_call hm' (.of_eq rfl rfl) ⟨rfl, rfl, hheld⟩ ⟨dq, rfl, hfits, fun hr ↦ ?_⟩
        have hglobal : dq.isGlobal = false := by
          cases item <;> cases hr
          exact hfits
        rcases hheld with hdq | hheld
        · rw [hglobal] at hdq
          cases hdq
        · exact hheld.mono (Nat.le_succ n)
      case isFalse hbarrier =>
        have hno : item.barrier = false := by
          rw [not_or] at hbarrier
          exact Bool.eq_false_iff.mpr hbarrier.2
        exact kept_call hm' (.of_eq rfl rfl) ⟨rfl, rfl, hheld⟩ ⟨rfl, hfits, hno⟩
    case h_2 => exact kept_goto_here hm rfl
    case h_3 => exact kept_none
  case h_3 => exact kept_none

theorem kept_sourceInvoke {l : Loc T ι} (hm : Sorted m) (h : l.Ok m t n key e) :
    Kept m t n e (dispatchSourceInvoke a m key l) := by
  unfold dispatchSourceInvoke
  split
  case h_1 ds =>
    obtain ⟨rfl, hheld⟩ : key = e ∧ Held m t n .invoke (.source ds) := h
    have hcallee := hheld.mono (Nat.le_succ n)
    dsimp only
    split
    case h_3 hasHandler called =>
      split
      · exact kept_goto_here hm rfl
      case isFalse hkey =>
        split
        case isTrue hcalled =>
          have hkey : key = m.doTargetq (.source ds) := not_not.mp fun hne ↦ hkey ⟨hcalled.1, hne⟩
          exact kept_call_here hm rfl ⟨hkey, hcallee⟩
        case isFalse => exact kept_goto_here hm rfl
    case h_4 called needsRearm =>
      split
      · exact kept_goto_here hm rfl
      case isFalse hkey =>
        split
        · exact kept_call_here hm rfl ⟨not_not.mp hkey, hcallee⟩
        · exact kept_goto_here hm rfl
    case h_7 => exact kept_none
    all_goals exact kept_goto_here hm rfl
  case h_2 r => exact kept_goto_here hm h
  case h_3 => exact kept_none

theorem kept_setTargetQueue2 (hm : Sorted m) {tq : Queue ι}
    (h : (Call.setTargetQueue2 tq).Ok m t n key) :
    Kept m t n key (dispatchSetTargetQueue2 m key tq) := by
  obtain ⟨dq, rfl, i, -, hlock⟩ := h
  refine kept_goto ⟨hm.fits, fun dq' hnone ↦ ?_⟩ ⟨fun _ _ hx _ ↦ hx, fun dq' ↦ ?_⟩ rfl
  · rcases eq_or_ne dq' dq with rfl | hne
    · simp at hnone
    · exact hm.target dq' (by simpa [hne] using hnone)
  · rcases eq_or_ne dq' dq with rfl | hne
    · exact .inr ⟨i, hlock⟩
    · exact .inl (by simp [hne])

theorem kept_asyncFRedirect {l : Loc T ι} (hm : Sorted m) (h : l.Ok m t n key e) :
    Kept m t n e (dispatchAsyncFRedirect m key l) := by
  unfold dispatchAsyncFRedirect
  split
  case h_1 dq other =>
    obtain ⟨rfl, rfl, hother⟩ : key = e ∧ key = some dq ∧ other.Fits dq ∧ other.barrier = false := h
    split
    · exact kept_call_here hm rfl trivial
    · exact kept_goto_here hm ⟨rfl, hother⟩
  case h_2 dq other rootDq =>
    split
    · exact kept_goto_here hm h
    · exact kept_none
  case h_3 dq other rootDq =>
    split
    · exact kept_goto_here hm h
    · exact kept_goto (hm.push h.2) .push h.1
  case h_4 => exact kept_none

theorem kept_barrierSyncF {l : Loc T ι} (hm : Sorted m) (h : l.Ok m t n key e) :
    Kept m t n e (dispatchBarrierSyncF t a m n key l) := by
  unfold dispatchBarrierSyncF
  split
  case h_1 dq f =>
    obtain ⟨rfl, -⟩ := h
    split
    case h_1 hfree =>
      exact kept_call (hm.setLock _) (.setLock_free hfree) ⟨rfl, by simp [setLock]⟩ rfl
    case h_2 => exact kept_call_here hm rfl trivial
    case h_3 => exact kept_none
  case h_2 dq oldDq => exact kept_goto (hm.setLock none) (.setLock_own h.2) h.1
  case h_3 => exact kept_none

variable [DecidableEq T]

theorem kept_barrierSyncFSlow {l : Loc T ι} (hm : Sorted m) (h : l.Ok m t n key e) :
    Kept m t n e (dispatchBarrierSyncFSlow t m key l) := by
  unfold dispatchBarrierSyncFSlow
  split
  case h_1 dq f => exact kept_goto (hm.push rfl) .push ⟨h.1, h.1⟩
  case h_2 dq f oldDq =>
    obtain ⟨rfl, rfl⟩ : key = e ∧ oldDq = e := h
    refine kept_wait fun m' hlock htarget hitems ↦ ?_
    have hm' : Sorted m' := ⟨by rw [hitems]; exact hm.fits, by rw [htarget]; exact hm.target⟩
    split
    · exact kept_goto hm' (.of_eq hlock htarget) rfl
    · exact kept_call hm' (.of_eq hlock htarget) rfl rfl
  case h_3 oldDq => exact kept_goto_here hm h
  case h_4 => exact kept_none

theorem kept_barrierSyncFSlowInvoke {l : Loc T ι} (hm : Sorted m) (h : l.Ok m t n key e) :
    Kept m t n e (dispatchBarrierSyncFSlowInvoke m key l) := by
  unfold dispatchBarrierSyncFSlowInvoke
  split
  case h_1 dq f sema =>
    obtain ⟨rfl, rfl⟩ : key = e ∧ key = some dq := h
    split
    case isTrue hne => exact (hne rfl).elim
    split
    · exact kept_call_here hm rfl rfl
    · exact kept_goto ⟨hm.fits, hm.target⟩ (.of_eq rfl rfl) rfl
  case h_2 sema => exact kept_goto ⟨hm.fits, hm.target⟩ (.of_eq rfl rfl) h
  case h_3 => exact kept_none

theorem kept_syncFSlow {l : Loc T ι} (hm : Sorted m) (h : l.Ok m t n key e) :
    Kept m t n e (dispatchSyncFSlow t m key l) := by
  unfold dispatchSyncFSlow
  split
  case h_1 dq =>
    split
    · exact kept_goto_here hm h.1
    · exact kept_goto (hm.push trivial) .push h.1
  case h_2 =>
    refine kept_wait fun m' hlock htarget hitems ↦ ?_
    have hm' : Sorted m' := ⟨by rw [hitems]; exact hm.fits, by rw [htarget]; exact hm.target⟩
    exact kept_goto hm' (.of_eq hlock htarget) h
  case h_3 => exact kept_none

theorem kept_clientCode {l : Loc T ι} (hm : Sorted m) (h : l.Ok m t n key e) (hkey : key = e) :
    Kept m t n e (clientCode a m key l) := by
  unfold clientCode
  split
  · exact kept_call_here hm h trivial
  · exact kept_call_here hm h trivial
  · exact kept_call_here hm h trivial
  · split
    · exact kept_none
    · exact kept_goto_here hm hkey
  · exact kept_none

theorem kept_inside {l : Loc T ι} (hm : Sorted m) (h : l.Ok m t n key e) :
    Kept m t n e (inside t a m n key l) := by
  unfold inside
  split
  case h_1 r =>
    rintro _ _ _ ⟨⟩
    exact ⟨hm, .refl, h⟩
  case h_2 => exact kept_clientCode hm h h
  case h_3 => exact kept_clientCode hm h h.1
  case h_4 => exact kept_clientCode hm h h.1
  case h_5 =>
    split
    · exact kept_call_here hm h (h.1.trans h.2)
    · exact kept_none
  case h_6 | h_7 => exact kept_workerThread2 hm h
  case h_8 =>
    obtain ⟨rfl, hc⟩ := h
    exact kept_continuationPop hm hc
  case h_9 | h_10 | h_11 => exact kept_queueInvoke hm h
  case h_12 | h_13 => exact kept_queueDrain hm h
  case h_14 | h_15 => exact kept_sourceInvoke hm h
  case h_16 | h_17 => exact kept_mgrInvoke hm h
  case h_18 | h_19 | h_20 => exact kept_asyncFRedirect hm h
  case h_21 | h_22 => exact kept_asyncFRedirect2 hm h
  case h_23 | h_24 => exact kept_barrierSyncF hm h
  case h_25 | h_26 | h_27 => exact kept_barrierSyncFSlow hm h
  case h_28 | h_29 => exact kept_barrierSyncFSlowInvoke hm h
  case h_30 | h_31 | h_32 => exact kept_syncF hm h
  case h_33 | h_34 => exact kept_syncFSlow hm h
  case h_35 =>
    obtain ⟨rfl, -⟩ := h
    exact kept_syncFSlow2 hm _
  case h_36 =>
    obtain ⟨rfl, hc⟩ := h
    exact kept_setTargetQueue2 hm hc
  case h_37 | h_38 => exact kept_mainQueueCallback hm h
  case h_39 | h_40 => exact kept_none

theorem kept_body {l : Loc T ι} (hm : Sorted m) (h : l.Ok m t n key e) :
    Kept m t n e (body t a m n key l) := by
  have hstay {m' : Mem T ι} (hm' : Sorted m') (hg : Guarantee m t n m')
      (hown : m'.locked = m.locked) (htarget : m'.doTargetq = m.doTargetq) :
      Kept m t n e (goto m' key l) := by
    have hbelow : Guarantee m t (n + 1) m' := .of_eq hown htarget
    exact kept_goto hm' hg (h.stable hbelow fun _ ↦ n.lt_succ_self)
  unfold body
  split
  case h_1 dq barrier f => exact hstay (hm.push rfl) .push rfl rfl
  case h_2 dq tq =>
    unfold dispatchSetTargetQueue
    split
    · exact kept_goto_here hm h
    case isFalse hglobal =>
      exact hstay (hm.push (Bool.eq_false_iff.mpr hglobal)) .push rfl rfl
  case h_3 dq width =>
    unfold dispatchQueueSetWidth
    split
    · exact kept_goto_here hm h
    · exact hstay ⟨hm.fits, hm.target⟩ (.of_eq rfl rfl) rfl rfl
  case h_4 dq =>
    unfold dispatchWakeup
    split
    · exact kept_goto_here hm h
    · exact hstay (hm.push trivial) .push rfl rfl
  case h_5 => exact kept_inside hm h

end Step

variable [DecidableEq T] [DecidableEq ι]

theorem ok_of_reachable {s : State T ι} (h : Reachable s) :
    Sorted s.mem ∧ ∀ t, Calls.Disciplined (Loc.Ok s.mem t) (s.loc t).key (s.loc t).stack := by
  obtain ⟨s₀, hfresh, hrun⟩ := h
  have hm : Sorted s₀.mem :=
    ⟨fun dq item hmem ↦ by simp [hfresh.items dq] at hmem, fun dq ↦ (hfresh.targets dq).mp⟩
  refine Calls.disciplined_of_run (fun _ _ _ _ _ _ _ _ _ hg hu h ↦ h.stable hg hu)
    (fun _ _ _ _ _ _ r h ↦ h.resume r)
    (fun t a m n key l e m' key' x hm h hb ↦ kept_body hm h m' key' x hb) ⟨hm, fun t ↦ ?_⟩ hrun
  rcases hfresh.ready t with hstack | ⟨hkey, hstack⟩
  · rw [hstack]
    exact ⟨rfl, trivial⟩
  · rw [hstack, hkey]
    exact ⟨⟨rfl, rfl⟩, trivial⟩

/-- In every run, of any number of threads with any nesting of calls, the innermost
activation of a thread finds the right current queue.  A client's function that was
submitted to `dq` finds `dq`; a handler of a source finds the target of the source; a
function that is about to return finds what it found when it was called, so that the
check of the worker and the assertion of the slow path never fail. -/
theorem current_queue_kept {s : State T ι} (h : Reachable s) {t : T} {l : Loc T ι}
    {e : Option (Queue ι)} {rest : List (Loc T ι × Option (Queue ι))}
    (htop : (s.loc t).stack = (l, e) :: rest) :
    (∀ dq f, l = .enter (.item dq f) → dispatchGetCurrentQueue (s.loc t).key = dq) ∧
      (∀ ds, l = .enter (.handler ds) →
        s.mem.doTargetq (.source ds) = some (dispatchGetCurrentQueue (s.loc t).key)) ∧
      (∀ r, l = .leave r → (s.loc t).key = e) ∧ ∀ c, l ≠ .crash c := by
  obtain ⟨hm, hstacks⟩ := ok_of_reachable h
  have hok := hstacks t
  rw [htop] at hok
  obtain ⟨hl, -⟩ := hok
  refine ⟨?_, ?_, ?_, ?_⟩
  · rintro dq f rfl
    obtain ⟨-, hkey⟩ : _ ∧ (s.loc t).key = some dq := hl
    simp [dispatchGetCurrentQueue, hkey]
  · rintro ds rfl
    obtain ⟨-, hkey, -⟩ := hl
    cases htarget : s.mem.doTargetq (.source ds) with
    | none =>
        obtain ⟨i, hi⟩ := hm.target _ htarget
        cases hi
    | some tq => simp [dispatchGetCurrentQueue, hkey, htarget]
  · rintro r rfl
    exact hl
  · rintro c rfl
    exact hl

/-- One thread of a client and one worker; every queue but the root queues has the root
queue of default priority as its target. -/
def oneWorker : State (Fin 2) (Fin 2) where
  mem := {
    items := fun _ ↦ []
    doTargetq := fun dq ↦ match dq with
      | .root _ => none
      | _ => some (.root 3)
    dqWidth := fun _ ↦ 1
    locked := fun _ ↦ none
    sema := fun _ ↦ 0
    mainQIsDraining := false }
  loc := ![⟨none, [(.outside, none)]⟩, ⟨none, [(.idle, none)]⟩]

theorem fresh_oneWorker : Fresh oneWorker where
  items _ := rfl
  targets dq := by cases dq <;> simp [oneWorker]
  ready t := by
    fin_cases t
    · exact .inl rfl
    · exact .inr ⟨rfl, rfl⟩

/-- The worker runs an item of queue 0, whose function makes a synchronous call on
queue 1. -/
def nestedSync : List (Fin 2 × Act (Fin 2)) :=
  [(0, .async (.priv 0) false 7), (0, .wakeup (.priv 0)), (1, .work 3), (1, .run),
    (1, .test true), (1, .run), (1, .test true), (1, .run), (1, .test true), (1, .run),
    (1, .sync (.priv 1) 8), (1, .run), (1, .test true)]

theorem current_queue_kept_nested :
    ∃ (s : State (Fin 2) (Fin 2)) (e : Option (Queue (Fin 2)))
      (rest : List (Loc (Fin 2) (Fin 2) × Option (Queue (Fin 2)))),
      Reachable s ∧ (s.loc 1).stack = (.enter (.item (.priv 1) 8), e) :: rest ∧
        dispatchGetCurrentQueue (s.loc 1).key = .priv 1 := by
  have hsome : (oneWorker.run (Calls.program body resume) (fun _ _ _ ↦ True)
      nestedSync).isSome := by decide
  have hreach : Reachable (Option.get _ hsome) :=
    ⟨oneWorker, fresh_oneWorker, Pool.runs_get hsome⟩
  refine ⟨_, _, _, hreach, rfl, ?_⟩
  exact (current_queue_kept hreach rfl).1 _ _ rfl

end LibDispatch.CurrentQueue
