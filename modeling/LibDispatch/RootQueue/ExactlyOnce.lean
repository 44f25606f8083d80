import LibDispatch.RootQueue.Model

/-!
# A root queue hands out each item once

At every moment the first item of the list is stored in the head, or it is in
the hands of the pusher that will store it or of the worker that has taken it.
A worker that found the queue empty may reset the mediator of another one, but
it never overwrites an item, and only the thread that has the first item in hand
writes an item to the head.
-/

namespace LibDispatch.RootQueue

open Interleaving TailList

variable {α T : Type*}

/-- The pointer a worker has obtained from the head, with its number. -/
def Loc.obtained : Loc α → Option (ℕ × Word α)
  | .drainNext head number | .drainClear head number | .drainResetTail head number
  | .drainWait head number | .drainStore head _ number | .drainReturn head number =>
      some (number, head)
  | _ => none

/-- In the section of `_dispatch_queue_concurrent_drain_one` that owns an item taken
from the head and may still write the head. -/
def Loc.Owning : Loc α → Prop
  | .drainNext .. | .drainClear .. | .drainResetTail .. | .drainWait .. | .drainStore .. => True
  | _ => False

def Loc.role : Loc α → Role α
  | .push p => p.role
  | .drainStore head _ _ | .drainReturn head _ => { own := head.toOption.toList }
  | _ => {}

def Loc.hold : Loc α → Option α
  | .push p => p.hold
  | .drainNext head _ | .drainClear head _ | .drainResetTail head _ | .drainWait head _ =>
      head.toOption
  | .drainStore _ next _ => some next
  | _ => none

def Loc.taking : Loc α → Bool
  | .drainNext .. | .drainClear .. | .drainResetTail .. | .drainWait .. => true
  | _ => false

/-- The worker is bound to take the mediator out of the head. -/
def Loc.repairs : Loc α → Bool
  | .drainReset | .drainNext .. | .drainClear .. | .drainStore .. => true
  | _ => false

/-- What a worker has obtained is a pointer to an item. -/
def Loc.Sound : Loc α → Prop
  | .drainNext head _ | .drainClear head _ | .drainResetTail head _ | .drainWait head _
  | .drainStore head _ _ | .drainReturn head _ => ∃ x, head = .item x
  | .fault => False
  | _ => True

/-! ## The items and their numbers -/

/-- The items `gone` have left the list, the items `chain` are on it, and workers
obtain the items in the order of the exchanges. -/
structure Numbered (m : Mem α) (loc : T → Loc α) (gone chain : List α) : Prop where
  shape : m.dq.Shape (fun t ↦ (loc t).role) (fun t ↦ (loc t).hold) chain
  pushed_eq : m.dq.pushed = gone ++ chain
  untaken : (∀ t, (loc t).taking = false) → m.taken = gone.length
  taken_eq : ∀ t, (loc t).taking → m.taken = gone.length + 1
  ledger : Ledger (fun t ↦ (loc t).obtained.map Prod.fst) (m.returned.map Prod.fst) m.taken
  obtained : ∀ t n w, (loc t).obtained = some (n, w) → ∃ x, w = .item x ∧ m.dq.pushed[n]? = some x
  returned : ∀ r ∈ m.returned, ∃ x, r.2 = .item x ∧ m.dq.pushed[r.1]? = some x
  no_fault : ∀ t, loc t ≠ .fault

section Steps

variable {m m' : Mem α} {loc : T → Loc α} {l' : Loc α} {t : T} {x : α} {gone chain : List α}

theorem Numbered.sound (h : Numbered m loc gone chain) (t : T) : (loc t).Sound := by
  have hobt : ∀ n w, (loc t).obtained = some (n, w) → ∃ x, w = .item x := fun n w hw ↦
    (h.obtained t n w hw).imp fun _ hx ↦ hx.1
  have hfault := h.no_fault t
  cases hl : loc t <;> simp_all [Loc.Sound, Loc.obtained]

theorem Numbered.hold_of_owning (h : Numbered m loc gone chain) (ht : (loc t).Owning) :
    (loc t).hold ≠ none := by
  have hsound := h.sound t
  cases hl : loc t <;> simp_all [Loc.Owning, Loc.Sound, Loc.hold]
  all_goals
    obtain ⟨x, rfl⟩ := hsound
    simp [Word.toOption]

theorem Numbered.hold_of_taking (h : Numbered m loc gone chain) (ht : (loc t).taking) :
    (loc t).hold ≠ none := by
  refine h.hold_of_owning ?_
  cases hl : loc t <;> simp_all [Loc.Owning, Loc.taking]

theorem Numbered.not_taking (h : Numbered m loc gone chain) (ht : (loc t).hold ≠ none) {u : T}
    (hu : u ≠ t) : (loc u).taking = false := by
  by_contra htaking
  exact hu (h.shape.front.unique u t (h.hold_of_taking (by simpa using htaking)) ht)

theorem Numbered.head_oldest (h : Numbered m loc gone chain) (hhead : m.dq.dqItemsHead = .item x) :
    m.taken = gone.length ∧ ∃ xs, chain = x :: xs := by
  refine ⟨h.untaken fun u ↦ ?_,
    List.head?_eq_some_iff.mp (h.shape.front.head_eq x (by rw [hhead]; rfl))⟩
  by_contra htaking
  exact h.hold_of_taking (by simpa using htaking)
    (h.shape.front.head_hold u (by simp [hhead, Word.toOption]))

variable [DecidableEq T]

theorem taking_update (htaking : l'.taking = (loc t).taking) (u : T) :
    (Function.update loc t l' u).taking = (loc u).taking :=
  congrFun (comp_update_of_eq Loc.taking htaking) u

theorem obtained_update (hobt : l'.obtained = (loc t).obtained) (u : T) :
    (Function.update loc t l' u).obtained = (loc u).obtained :=
  congrFun (comp_update_of_eq Loc.obtained hobt) u

theorem no_fault_update (h : ∀ u, loc u ≠ .fault) (hl' : l' ≠ .fault) (u : T) :
    Function.update loc t l' u ≠ .fault := by
  rcases eq_or_ne u t with rfl | hu <;> simp [*]

theorem Numbered.keep (h : Numbered m loc gone chain)
    (hshape : m'.dq.Shape (fun u ↦ (Function.update loc t l' u).role)
      (fun u ↦ (Function.update loc t l' u).hold) chain)
    (hpushed : m'.dq.pushed = m.dq.pushed) (htaken : m'.taken = m.taken)
    (hret : m'.returned = m.returned) (htaking : l'.taking = (loc t).taking)
    (hobt : l'.obtained = (loc t).obtained) (hl' : l' ≠ .fault) :
    Numbered m' (Function.update loc t l') gone chain := by
  obtain ⟨-, pushed_eq, untaken, taken_eq, ledger, obtained, returned, no_fault⟩ := h
  refine ⟨hshape, hpushed.trans pushed_eq, ?_, ?_, ?_, ?_, ?_, no_fault_update no_fault hl'⟩
  · simpa only [taking_update htaking, htaken] using untaken
  · simpa only [taking_update htaking, htaken] using taken_eq
  · simpa only [obtained_update hobt, htaken, hret] using ledger
  · simpa only [obtained_update hobt, hpushed] using obtained
  · simpa only [hret, hpushed] using returned

theorem Numbered.stutter (h : Numbered m loc gone chain)
    (hhead : m'.dq.dqItemsHead.toOption = m.dq.dqItemsHead.toOption)
    (hdq : { m'.dq with dqItemsHead := m.dq.dqItemsHead } = m.dq) (htaken : m'.taken = m.taken)
    (hret : m'.returned = m.returned) (hrole : l'.role = (loc t).role)
    (hhold : l'.hold = (loc t).hold) (htaking : l'.taking = (loc t).taking)
    (hobt : l'.obtained = (loc t).obtained) (hl' : l' ≠ .fault) :
    Numbered m' (Function.update loc t l') gone chain := by
  have hshape : m'.dq.Shape (fun u ↦ (loc u).role) (fun u ↦ (loc u).hold) chain := by
    have hshape := h.shape
    rw [← hdq] at hshape
    refine ⟨hshape.linked, hshape.tail_eq, ?_⟩
    rw [hhead]
    exact h.shape.front
  have hpushed : ({ m'.dq with dqItemsHead := m.dq.dqItemsHead } : Items α).pushed =
      m.dq.pushed := congrArg Items.pushed hdq
  refine h.keep ?_ hpushed htaken hret htaking hobt hl'
  rwa [comp_update_of_eq Loc.role hrole, comp_update_of_eq Loc.hold hhold]

theorem Numbered.extend (h : Numbered m loc gone chain) {ys : List α}
    (hshape : m'.dq.Shape (fun u ↦ (Function.update loc t l' u).role)
      (fun u ↦ (Function.update loc t l' u).hold) (chain ++ ys))
    (hpushed : m'.dq.pushed = m.dq.pushed ++ ys) (htaken : m'.taken = m.taken)
    (hret : m'.returned = m.returned) (htaking : l'.taking = (loc t).taking)
    (hobt : l'.obtained = (loc t).obtained) (hl' : l' ≠ .fault) :
    Numbered m' (Function.update loc t l') gone (chain ++ ys) := by
  obtain ⟨-, pushed_eq, untaken, taken_eq, ledger, obtained, returned, no_fault⟩ := h
  refine ⟨hshape, ?_, ?_, ?_, ?_, fun u n w hw ↦ ?_, fun r hr ↦ ?_,
    no_fault_update no_fault hl'⟩
  · rw [hpushed, pushed_eq, List.append_assoc]
  · simpa only [taking_update htaking, htaken] using untaken
  · simpa only [taking_update htaking, htaken] using taken_eq
  · simpa only [obtained_update hobt, htaken, hret] using ledger
  · rw [obtained_update hobt] at hw
    obtain ⟨x, hx, hn⟩ := obtained u n w hw
    obtain ⟨hlt, -⟩ := List.getElem?_eq_some_iff.mp hn
    exact ⟨x, hx, by rw [hpushed, List.getElem?_append_left hlt, hn]⟩
  · rw [hret] at hr
    obtain ⟨x, hx, hn⟩ := returned r hr
    obtain ⟨hlt, -⟩ := List.getElem?_eq_some_iff.mp hn
    exact ⟨x, hx, by rw [hpushed, List.getElem?_append_left hlt, hn]⟩

theorem Numbered.take (h : Numbered m loc gone chain) (ht : loc t = .idle) {x : α}
    (hhead : m.dq.dqItemsHead = .item x) :
    Numbered { m with dq.dqItemsHead := .mediator, taken := m.taken + 1 }
      (Function.update loc t (.drainNext (.item x) m.taken)) gone chain := by
  obtain ⟨htaken, xs, rfl⟩ := h.head_oldest hhead
  have hhold := moves_update Loc.hold loc t (.drainNext (.item x) m.taken)
  have hnumber := moves_update (fun l ↦ l.obtained.map Prod.fst) loc t
    (.drainNext (.item x) m.taken)
  obtain ⟨shape, pushed_eq, untaken, taken_eq, ledger, obtained, returned, no_fault⟩ := h
  rw [ht] at hhold hnumber
  refine ⟨⟨?_, shape.tail_eq, ?_⟩, pushed_eq, ?_, ?_, ledger.issue hnumber, ?_, returned,
    no_fault_update no_fault (by simp)⟩
  · rw [comp_update_of_eq Loc.role (by rw [ht]; rfl)]
    exact shape.linked
  · have hfront := shape.front
    rw [hhead] at hfront
    exact hfront.take hhold
  · intro hall
    simpa [Loc.taking] using hall t
  · intro u _
    simp [htaken]
  · intro u n w hw
    rcases eq_or_ne u t with rfl | hu
    · simp only [Function.update_self, Loc.obtained, Option.some.injEq, Prod.mk.injEq] at hw
      obtain ⟨rfl, rfl⟩ := hw
      exact ⟨x, rfl, by simp [pushed_eq, htaken]⟩
    · exact obtained u n w (by simpa [hu] using hw)

theorem Numbered.leave (h : Numbered m loc gone (x :: chain)) (ht : (loc t).taking)
    (hshape : m'.dq.Shape (fun u ↦ (Function.update loc t l' u).role)
      (fun u ↦ (Function.update loc t l' u).hold) chain)
    (hpushed : m'.dq.pushed = m.dq.pushed) (htaken : m'.taken = m.taken)
    (hret : m'.returned = m.returned) (hl't : l'.taking = false)
    (hobt : l'.obtained = (loc t).obtained) (hl' : l' ≠ .fault) :
    Numbered m' (Function.update loc t l') (gone ++ [x]) chain := by
  have hother : ∀ u, u ≠ t → (loc u).taking = false := fun u hu ↦
    h.not_taking (h.hold_of_taking ht) hu
  obtain ⟨-, pushed_eq, untaken, taken_eq, ledger, obtained, returned, no_fault⟩ := h
  refine ⟨hshape, ?_, fun _ ↦ ?_, fun u hu ↦ ?_, ?_, ?_, ?_, no_fault_update no_fault hl'⟩
  · rw [hpushed, pushed_eq, List.append_assoc]
    rfl
  · rw [htaken, taken_eq t ht, List.length_append]
    rfl
  · rcases eq_or_ne u t with rfl | hut
    · simp [hl't] at hu
    · simp [hut, hother u hut] at hu
  · simpa only [obtained_update hobt, htaken, hret] using ledger
  · simpa only [obtained_update hobt, hpushed] using obtained
  · simpa only [hret, hpushed] using returned

theorem Numbered.return (h : Numbered m loc gone chain) {n : ℕ}
    (ht : loc t = .drainReturn (.item x) n)
    (hshape : m'.dq.Shape (fun u ↦ (Function.update loc t .idle u).role)
      (fun u ↦ (Function.update loc t .idle u).hold) chain)
    (hpushed : m'.dq.pushed = m.dq.pushed) (htaken : m'.taken = m.taken)
    (hret : m'.returned = (n, .item x) :: m.returned) :
    Numbered m' (Function.update loc t .idle) gone chain := by
  have hnumber := moves_update (fun l ↦ l.obtained.map Prod.fst) loc t .idle
  have htaking : (Loc.idle : Loc α).taking = (loc t).taking := by rw [ht]; rfl
  obtain ⟨-, pushed_eq, untaken, taken_eq, ledger, obtained, returned, no_fault⟩ := h
  have hitem := obtained t n (.item x) (by rw [ht]; rfl)
  rw [ht] at hnumber
  refine ⟨hshape, hpushed.trans pushed_eq, ?_, ?_, ?_, fun u k w hw ↦ ?_, ?_,
    no_fault_update no_fault (by simp)⟩
  · simpa only [taking_update htaking, htaken] using untaken
  · simpa only [taking_update htaking, htaken] using taken_eq
  · rw [hret, htaken]
    exact ledger.settle hnumber
  · rcases eq_or_ne u t with rfl | hu
    · simp [Loc.obtained] at hw
    · rw [hpushed]
      exact obtained u k w (by simpa [hu] using hw)
  · rw [hret, hpushed]
    exact List.forall_mem_cons.mpr ⟨hitem, returned⟩

end Steps

/-! ## Steps -/

variable [DecidableEq α]

inductive Trans (m : Mem α) : Loc α → Mem α → Loc α → Prop
  | prepare {head : α} {rest : List α} {i : Items α} {p : Push α} :
      m.dq.prepare head rest = some (i, p) → Trans m .idle { m with dq := i } (.push p)
  | push {p : Push α} {i : Items α} {p' : Option (Push α)} : m.dq.pushList p = (i, p') →
      Trans m (.push p) { m with dq := i } (p'.elim .idle .push)
  | foundNull : m.dq.dqItemsHead = .null →
      Trans m .idle { m with dq.dqItemsHead := .mediator } .drainReset
  | foundMediator : m.dq.dqItemsHead = .mediator →
      Trans m .idle { m with dq.dqItemsHead := .mediator } .idle
  | take {x : α} : m.dq.dqItemsHead = .item x →
      Trans m .idle { m with dq.dqItemsHead := .mediator, taken := m.taken + 1 }
        (.drainNext (.item x) m.taken)
  | reset : m.dq.dqItemsHead = .mediator →
      Trans m .drainReset { m with dq.dqItemsHead := .null } .idle
  | resetMissed : m.dq.dqItemsHead ≠ .mediator → Trans m .drainReset m .idle
  | nextSome {x next : α} {n : ℕ} : m.dq.doNext x = some next →
      Trans m (.drainNext (.item x) n) m (.drainStore (.item x) next n)
  | nextNone {x : α} {n : ℕ} : m.dq.doNext x = none →
      Trans m (.drainNext (.item x) n) m (.drainClear (.item x) n)
  | clear {x : α} {n : ℕ} : Trans m (.drainClear (.item x) n)
      { m with dq.dqItemsHead := .null } (.drainResetTail (.item x) n)
  | resetTail {x : α} {n : ℕ} : m.dq.dqItemsTail = some x →
      Trans m (.drainResetTail (.item x) n) { m with dq.dqItemsTail := none }
        (.drainReturn (.item x) n)
  | tailMoved {x : α} {n : ℕ} : m.dq.dqItemsTail ≠ some x →
      Trans m (.drainResetTail (.item x) n) m (.drainWait (.item x) n)
  | waitSome {x next : α} {n : ℕ} : m.dq.doNext x = some next →
      Trans m (.drainWait (.item x) n) m (.drainStore (.item x) next n)
  | waitNone {x : α} {n : ℕ} : m.dq.doNext x = none →
      Trans m (.drainWait (.item x) n) m (.drainWait (.item x) n)
  | store {x next : α} {n : ℕ} : Trans m (.drainStore (.item x) next n)
      { m with dq.dqItemsHead := .item next } (.drainReturn (.item x) n)
  | return {x : α} {n : ℕ} : Trans m (.drainReturn (.item x) n)
      { m with
        dq.live := m.dq.live \ {x}
        returned := (n, .item x) :: m.returned } .idle

theorem trans_of_drain {m m' : Mem α} {l l' : Loc α} (hl : l.Sound)
    (h : dispatchQueueConcurrentDrainOne m l = some (m', l')) : Trans m l m' l' := by
  unfold dispatchQueueConcurrentDrainOne at h
  split at h
  · simp only at h
    split at h <;> cases h
    · exact .foundNull ‹_›
    · exact .foundMediator ‹_›
    · exact .take ‹_›
  · split at h <;> cases h
    · exact .reset ‹_›
    · exact .resetMissed ‹_›
  · obtain ⟨x, rfl⟩ := hl
    simp only at h
    split at h <;> cases h
    · exact .nextSome ‹_›
    · exact .nextNone ‹_›
  · obtain ⟨x, rfl⟩ := hl
    cases h
    exact .clear
  · obtain ⟨x, rfl⟩ := hl
    have htail : Word.ofOption m.dq.dqItemsTail = .item x ↔ m.dq.dqItemsTail = some x := by
      cases m.dq.dqItemsTail <;> simp [Word.ofOption]
    split at h <;> rename_i hcond <;> rw [htail] at hcond <;> cases h
    · exact .resetTail hcond
    · exact .tailMoved hcond
  · obtain ⟨x, rfl⟩ := hl
    simp only at h
    split at h <;> cases h
    · exact .waitSome ‹_›
    · exact .waitNone ‹_›
  · obtain ⟨x, rfl⟩ := hl
    cases h
    exact .store
  · obtain ⟨x, rfl⟩ := hl
    cases h
    exact .return
  · cases h

theorem trans_of_step {m m' : Mem α} {l l' : Loc α} {t : T} {a : Act α} (hl : l.Sound)
    (h : step t a m l = some (m', l')) : Trans m l m' l' := by
  unfold step at h
  split at h
  · obtain ⟨⟨i, p⟩, hp, heq⟩ := Option.map_eq_some_iff.mp h
    cases heq
    exact .prepare hp
  · cases h
    exact .push rfl
  · exact trans_of_drain hl h
  · cases h
  · exact trans_of_drain hl h
  · cases h

omit [DecidableEq α] in
theorem elim_push (p' : Option (Push α)) :
    (p'.elim .idle .push : Loc α).role = p'.elim {} Push.role ∧
      (p'.elim .idle .push : Loc α).hold = p'.elim none Push.hold ∧
      (p'.elim .idle .push : Loc α).taking = false ∧
      (p'.elim .idle .push : Loc α).obtained = none ∧ (p'.elim .idle .push : Loc α) ≠ .fault := by
  cases p' <;> simp [Loc.role, Loc.hold, Loc.taking, Loc.obtained]

theorem Trans.numbered [DecidableEq T] {m m' : Mem α} {loc : T → Loc α} {l' : Loc α} {t : T}
    {gone chain : List α} (h : Trans m (loc t) m' l') (hnum : Numbered m loc gone chain) :
    ∃ gone' chain', Numbered m' (Function.update loc t l') gone' chain' := by
  have hmrole := moves_update Loc.role loc t l'
  have hmhold := moves_update Loc.hold loc t l'
  have hshape := hnum.shape
  generalize ht : loc t = l at h hmrole hmhold
  have hrole : l.role = (loc t).role := by rw [ht]
  have hhold : l.hold = (loc t).hold := by rw [ht]
  have htaking : l.taking = (loc t).taking := by rw [ht]
  have hobt : l.obtained = (loc t).obtained := by rw [ht]
  cases h
  case prepare p hp =>
    refine ⟨gone, chain, hnum.keep ?_ (Items.pushed_prepare hp) rfl rfl htaking hobt (by simp)⟩
    rw [comp_update_of_eq Loc.hold (by rw [ht]; exact Items.hold_prepare hp)]
    exact Items.shape_prepare hp hshape hmrole
  case push p i p' hp =>
    obtain ⟨hr, hh, htk, hob, hfault⟩ := elim_push p'
    rw [hr] at hmrole
    rw [hh] at hmhold
    obtain ⟨ys, hshape', hpushed⟩ := Items.shape_pushList hp hshape hmrole hmhold
    exact ⟨gone, _, hnum.extend hshape' hpushed rfl rfl (htk.trans htaking) (hob.trans hobt) hfault⟩
  case foundNull hhead | foundMediator hhead | reset hhead =>
    exact ⟨gone, chain, hnum.stutter (by simp [hhead, Word.toOption]) rfl rfl rfl hrole hhold
      htaking hobt (by simp)⟩
  case take hhead => exact ⟨gone, chain, hnum.take ht hhead⟩
  case nextSome hnext | waitSome hnext =>
    obtain ⟨ys, rfl, hshape'⟩ := hshape.advance hhold.symm hnext hmrole hmhold
    exact ⟨_, _, hnum.leave (by rw [ht]; rfl) hshape' rfl rfl rfl rfl hobt (by simp)⟩
  case clear =>
    have hnone := mt (hshape.front.head_hold t) (by rw [← hhold]; simp [Loc.hold, Word.toOption])
    exact ⟨gone, chain, hnum.stutter (not_not.mp hnone).symm rfl rfl rfl hrole hhold htaking hobt
      (by simp)⟩
  case resetTail htail =>
    obtain rfl := hshape.eq_singleton hhold.symm htail
    have hshape' := hshape.close hhold.symm htail hmrole hmhold
    exact ⟨_, _, hnum.leave (by rw [ht]; rfl) hshape' rfl rfl rfl rfl hobt (by simp)⟩
  case store =>
    refine ⟨gone, chain, hnum.keep ?_ rfl rfl rfl htaking hobt (by simp)⟩
    rw [comp_update_of_eq Loc.role (by rw [ht]; rfl)]
    exact ⟨hshape.linked, hshape.tail_eq, hshape.front.store hmhold⟩
  case «return» =>
    refine ⟨gone, chain, hnum.return ht ?_ rfl rfl rfl⟩
    rw [comp_update_of_eq Loc.hold (by rw [ht]; rfl)]
    exact ⟨hshape.linked.release hmrole (by simp [Word.toOption, eq_comm]), hshape.tail_eq,
      hshape.front⟩
  all_goals
    exact ⟨gone, chain, hnum.stutter rfl rfl rfl rfl hrole hhold htaking hobt (by simp)⟩

theorem Trans.repairs {m m' : Mem α} {l l' : Loc α} (h : Trans m l m' l')
    (hhead : m'.dq.dqItemsHead = .mediator) :
    l'.repairs ∨ m.dq.dqItemsHead = .mediator ∧ l.repairs = false := by
  cases h
  case prepare hp => exact .inr ⟨(Items.ends_prepare hp).2 ▸ hhead, rfl⟩
  case push hp => exact .inr ⟨Items.head_pushList hp hhead, rfl⟩
  case foundNull | take | nextSome | nextNone | waitSome => exact .inl rfl
  case foundMediator hmed => exact .inr ⟨hmed, rfl⟩
  case resetMissed hne => exact absurd hhead hne
  case reset | clear | store => cases hhead
  all_goals exact .inr ⟨hhead, rfl⟩

/-! ## Whole runs -/

/-- What a root queue owes its users.  The `n`-th item that a worker obtains from the
head is the `n`-th pushed one.  Each obtained item is in the hands of one worker, or one
call has returned it, and an item that is still waiting is returned by the next call. -/
structure ExactlyOnce [DecidableEq T] (s : Pool T (Mem α) (Loc α)) : Prop where
  obtained : ∀ t n w, (s.loc t).obtained = some (n, w) →
    ∃ x, w = .item x ∧ s.mem.dq.pushed[n]? = some x
  returned : ∀ r ∈ s.mem.returned, ∃ x, r.2 = .item x ∧ s.mem.dq.pushed[r.1]? = some x
  once : Ledger (fun t ↦ (s.loc t).obtained.map Prod.fst) (s.mem.returned.map Prod.fst)
    s.mem.taken
  owner_unique : ∀ t u, (s.loc t).Owning → (s.loc u).Owning → t = u
  head_oldest : s.mem.dq.dqItemsHead = .null ∨ s.mem.dq.dqItemsHead = .mediator ∨
    ∃ x, s.mem.dq.dqItemsHead = .item x ∧ s.mem.dq.pushed[s.mem.taken]? = some x
  no_fault : ∀ t, s.loc t ≠ .fault
  all_returned : (∀ t, s.loc t = .idle) → ∀ n < s.mem.taken, n ∈ s.mem.returned.map Prod.fst
  next_returned : (∀ t, s.loc t = .idle) → ∀ x, s.mem.dq.pushed[s.mem.taken]? = some x →
    ∀ t, ∃ s', Pool.Runs step (fun _ u _ ↦ u = t) s s' ∧ s'.loc = s.loc ∧
      s'.mem.returned = (s.mem.taken, .item x) :: s.mem.returned

section Runs

variable [DecidableEq T] {doNext : α → Option α} {s : Pool T (Mem α) (Loc α)}

theorem numbered_of_run (h : Pool.Reachable step (created doNext) s) :
    ∃ gone chain, Numbered s.mem s.loc gone chain := by
  refine h.invariant (I := fun s ↦ ∃ gone chain, Numbered s.mem s.loc gone chain) ?_ ?_
  · exact ⟨[], [], shape_empty doNext, rfl, fun _ ↦ rfl, nofun, ledger_empty, nofun, nofun, nofun⟩
  · rintro s t a m l - ⟨gone, chain, hnum⟩ - hP
    exact (trans_of_step (hnum.sound t) hP).numbered hnum

theorem repairing_of_run (h : Pool.Reachable step (created doNext) s)
    (hhead : s.mem.dq.dqItemsHead = .mediator) : ∃ t, (s.loc t).repairs := by
  refine h.exists_loc (N := fun m ↦ m.dq.dqItemsHead = .mediator) (R := fun l ↦ l.repairs = true)
    nofun ?_ hhead
  intro s t a m l hr _ hP hhead
  obtain ⟨gone, chain, hnum⟩ := numbered_of_run hr
  simpa using (trans_of_step (hnum.sound t) hP).repairs hhead

theorem head_of_tail (htail : s.mem.dq.dqItemsTail = none)
    (h : Pool.Reachable step (created doNext) s) (hmed : s.mem.dq.dqItemsHead ≠ .mediator) :
    s.mem.dq.dqItemsHead = .null := by
  obtain ⟨gone, chain, hnum⟩ := numbered_of_run h
  obtain rfl : chain = [] := hnum.shape.eq_nil htail
  have hnone := hnum.shape.front.eq_none.1
  cases hhead : s.mem.dq.dqItemsHead with
  | null => rfl
  | mediator => exact absurd hhead hmed
  | item x => simp [hhead, Word.toOption] at hnone

omit [DecidableEq T] in
theorem drain_alone_last {m : Mem α} {x : α} (hhead : m.dq.dqItemsHead = .item x)
    (hnext : m.dq.doNext x = none) (htail : m.dq.dqItemsTail = some x) (t : T) :
    ∃ m', Relation.ReflTransGen (Pool.Alone step t) (m, .idle) (m', .idle) ∧
      m'.returned = (m.taken, .item x) :: m.returned := by
  let m₁ : Mem α := { m with dq.dqItemsHead := .mediator, taken := m.taken + 1 }
  let m₂ : Mem α := { m₁ with dq.dqItemsHead := .null }
  let m₃ : Mem α := { m₂ with dq.dqItemsTail := none }
  have htake : Pool.Alone step t (m, .idle) (m₁, .drainNext (.item x) m.taken) := ⟨.drain, by
    simp [step, dispatchQueueConcurrentDrainOne, hhead, m₁]⟩
  have hlast : Pool.Alone step t (m₁, .drainNext (.item x) m.taken)
      (m₁, .drainClear (.item x) m.taken) := ⟨.go, by
    simp [step, dispatchQueueConcurrentDrainOne, hnext, m₁]⟩
  have hclear : Pool.Alone step t (m₁, .drainClear (.item x) m.taken)
      (m₂, .drainResetTail (.item x) m.taken) := ⟨.go, rfl⟩
  have hreset : Pool.Alone step t (m₂, .drainResetTail (.item x) m.taken)
      (m₃, .drainReturn (.item x) m.taken) := ⟨.go, by
    simp [step, dispatchQueueConcurrentDrainOne, htail, Word.ofOption, m₃, m₂, m₁]⟩
  have hreturn : Pool.Alone step t (m₃, .drainReturn (.item x) m.taken)
      ({ m₃ with dq.live := m.dq.live \ {x}, returned := (m.taken, .item x) :: m.returned },
        .idle) := ⟨.go, rfl⟩
  exact ⟨_, Relation.ReflTransGen.single htake |>.tail hlast |>.tail hclear |>.tail hreset
    |>.tail hreturn, rfl⟩

omit [DecidableEq T] in
theorem drain_alone_linked {m : Mem α} {x next : α} (hhead : m.dq.dqItemsHead = .item x)
    (hnext : m.dq.doNext x = some next) (t : T) :
    ∃ m', Relation.ReflTransGen (Pool.Alone step t) (m, .idle) (m', .idle) ∧
      m'.returned = (m.taken, .item x) :: m.returned := by
  let m₁ : Mem α := { m with dq.dqItemsHead := .mediator, taken := m.taken + 1 }
  let m₂ : Mem α := { m₁ with dq.dqItemsHead := .item next }
  have htake : Pool.Alone step t (m, .idle) (m₁, .drainNext (.item x) m.taken) := ⟨.drain, by
    simp [step, dispatchQueueConcurrentDrainOne, hhead, m₁]⟩
  have hfound : Pool.Alone step t (m₁, .drainNext (.item x) m.taken)
      (m₁, .drainStore (.item x) next m.taken) := ⟨.go, by
    simp [step, dispatchQueueConcurrentDrainOne, hnext, m₁]⟩
  have hstore : Pool.Alone step t (m₁, .drainStore (.item x) next m.taken)
      (m₂, .drainReturn (.item x) m.taken) := ⟨.go, rfl⟩
  have hreturn : Pool.Alone step t (m₂, .drainReturn (.item x) m.taken)
      ({ m₂ with dq.live := m.dq.live \ {x}, returned := (m.taken, .item x) :: m.returned },
        .idle) := ⟨.go, rfl⟩
  exact ⟨_, Relation.ReflTransGen.single htake |>.tail hfound |>.tail hstore
    |>.tail hreturn, rfl⟩

theorem Numbered.next_returned {gone chain : List α} (h : Numbered s.mem s.loc gone chain)
    (hidle : ∀ t, s.loc t = .idle) {x : α} (hx : s.mem.dq.pushed[s.mem.taken]? = some x)
    (t : T) : ∃ s', Pool.Runs step (fun _ u _ ↦ u = t) s s' ∧ s'.loc = s.loc ∧
      s'.mem.returned = (s.mem.taken, .item x) :: s.mem.returned := by
  have htaken := h.untaken fun u ↦ by rw [hidle u]; rfl
  have hchain : chain.head? = some x := by
    rw [h.pushed_eq, htaken, List.getElem?_append_right le_rfl, Nat.sub_self] at hx
    rw [← hx, List.head?_eq_getElem?]
  obtain ⟨xs, rfl⟩ := List.head?_eq_some_iff.mp hchain
  have hhead : s.mem.dq.dqItemsHead = .item x := by
    rcases h.shape.front.exists_front (by simp) with hne | ⟨u, hu⟩
    · have heq := h.shape.front.head_eq
      cases hw : s.mem.dq.dqItemsHead <;> simp_all [Word.toOption]
    · simp [hidle u, Loc.hold] at hu
  obtain ⟨m', halone, hret⟩ : ∃ m', Relation.ReflTransGen (Pool.Alone step t) (s.mem, .idle)
      (m', .idle) ∧ m'.returned = (s.mem.taken, .item x) :: s.mem.returned := by
    rcases hnext : s.mem.dq.doNext x with - | next
    · obtain rfl : xs = [] := by
        rcases h.shape.linked.next_none hnext with hnil | ⟨u, y, hu⟩
        · exact hnil
        · simp [hidle u, Loc.role] at hu
      exact drain_alone_last hhead hnext h.shape.tail_eq t
    · exact drain_alone_linked hhead hnext t
  have hloc : Function.update s.loc t .idle = s.loc := by rw [← hidle t, Function.update_eq_self]
  exact ⟨_, Pool.Runs.of_alone (hidle t) halone, hloc, hret⟩

/-- Whatever its users do, a root queue hands out each pushed item exactly once and in
the order of the pushes. -/
theorem exactlyOnce_of_reachable {doNext : α → Option α} {s : Pool T (Mem α) (Loc α)}
    (h : Pool.Reachable step (created doNext) s) : ExactlyOnce s := by
  obtain ⟨gone, chain, hnum⟩ := numbered_of_run h
  refine ⟨hnum.obtained, hnum.returned, hnum.ledger, fun t u ht hu ↦ ?_, ?_, hnum.no_fault,
    fun hidle n hn ↦ ?_, fun hidle x hx t ↦ hnum.next_returned hidle hx t⟩
  · exact hnum.shape.front.unique t u (hnum.hold_of_owning ht) (hnum.hold_of_owning hu)
  · cases hhead : s.mem.dq.dqItemsHead with
    | null => exact .inl rfl
    | mediator => exact .inr (.inl rfl)
    | item x =>
        obtain ⟨htaken, xs, rfl⟩ := hnum.head_oldest hhead
        exact .inr (.inr ⟨x, rfl, by simp [hnum.pushed_eq, htaken]⟩)
  · by_contra hnot
    obtain ⟨t, ht⟩ := hnum.ledger.exists_of_lt n hn hnot
    simp [hidle t, Loc.obtained] at ht

/-- Two threads: one pushes a list of two items, the other one drains. -/
theorem exactlyOnce_of_reachable_two :
    ∃ s : Pool Bool (Mem ℕ) (Loc ℕ), s.mem.returned = [(1, .item 8), (0, .item 7)] ∧
      ExactlyOnce s :=
  ⟨((created fun _ ↦ none).run step (fun _ _ _ ↦ True)
      [(true, .push 7 [8]), (true, .go), (true, .go), (true, .go), (false, .drain), (false, .go),
        (false, .go), (false, .go), (false, .drain), (false, .go), (false, .go), (false, .go),
        (false, .go)]).get (by decide), by decide, exactlyOnce_of_reachable (Pool.runs_get _)⟩

end Runs

end LibDispatch.RootQueue
