import LibDispatch.SerialQueue.Model

/-!
# A serial queue is first in, first out

The thread that drains is the only holder of `dq_running`.  The item it has in hand
is either still the first one of the list, or it has left the list together with the
tail and is owed to the front.  Items pushed in between are behind it in both cases,
so putting it back restores the order of the pushes.
-/

namespace LibDispatch.SerialQueue

open Interleaving TailList

variable {α Q T : Type*}

/-- The thread holds `dq_running`. -/
def Loc.Held : Loc α Q → Prop
  | .idle | .push _ => False
  | _ => True

def Loc.role : Loc α Q → Role α
  | .push p => p.role
  | .drainSuspended _ dc none | .drainRunning _ dc none | .drainTarget _ dc none
  | .drainPop _ dc none | .outSwap dc | .outWait dc | .outFront dc _ =>
      { own := [dc], sealed := true }
  | .outLink dc next => { link := some (dc, next) }
  | _ => {}

def Loc.hold : Loc α Q → Option α
  | .push p => p.hold
  | .drainNext _ dc | .drainReset _ dc | .drainSuspended _ dc (some _)
  | .drainRunning _ dc (some _) | .drainTarget _ dc (some _) | .drainPop _ dc (some _)
  | .outHead dc => some dc
  | _ => none

/-- An item that has left the list and has not been popped. -/
def Loc.hand : Loc α Q → Option α
  | .drainSuspended _ dc none | .drainRunning _ dc none | .drainTarget _ dc none
  | .drainPop _ dc none | .outSwap dc | .outWait dc | .outFront dc _ => some dc
  | _ => none

/-- What the local variables of a thread say about the list. -/
def Loc.Sound (i : Items α) : Loc α Q → Prop
  | .drainLoad _ => ∃ x, i.dqItemsHead = .item x
  | .drainClear _ dc => i.dqItemsHead = .item dc
  | .drainSuspended _ dc (some next) | .drainRunning _ dc (some next)
  | .drainTarget _ dc (some next) | .drainPop _ dc (some next) => i.doNext dc = some next
  | .outFront _ next => i.dqItemsHead = .item next
  | .fault => False
  | _ => True

def Loc.Names : Loc α Q → α → Prop
  | .push (.link _ head), x | .push (.storeHead head), x => x = head
  | .drainClear _ dc, x | .drainNext _ dc, x | .drainReset _ dc, x | .outSwap dc, x
  | .outHead dc, x | .outWait dc, x => x = dc
  | .drainSuspended _ dc next, x | .drainRunning _ dc next, x | .drainTarget _ dc next, x
  | .drainPop _ dc next, x => x = dc ∨ next = some x
  | .outFront dc next, x | .outLink dc next, x => x = dc ∨ x = next
  | _, _ => False

/-! ## Steps -/

section Steps

variable [DecidableEq α] [DecidableEq Q]

inductive Trans (m : Mem α Q) : Loc α Q → Mem α Q → Loc α Q → Prop
  | prepare {head : α} {rest : List α} {i : Items α} {p : Push α} :
      m.dq.prepare head rest = some (i, p) → Trans m .idle { m with dq := i } (.push p)
  | push {p : Push α} {i : Items α} {p' : Option (Push α)} : m.dq.pushList p = (i, p') →
      Trans m (.push p) { m with dq := i } (p'.elim .idle .push)
  | acquire {l' : Loc α Q} : m.dqRunning = 0 → l' = .drain ∨ l' = .locked →
      Trans m .idle { m with dqRunning := 1 } l'
  | release {l : Loc α Q} : l = .locked ∨ l = .unlock →
      Trans m l { m with dqRunning := m.dqRunning - 1 } .idle
  | suspension {n : ℕ} : Trans m .idle { m with doSuspendCnt := n } .idle
  | retarget {tq : Q} : Trans m .idle { m with doTargetq := tq } .idle
  | start : Trans m .drain m (.drainTail m.doTargetq)
  | tailSome {tq : Q} : m.dq.dqItemsTail ≠ none → Trans m (.drainTail tq) m (.drainHead tq)
  | tailNone {tq : Q} : m.dq.dqItemsTail = none → Trans m (.drainTail tq) m .unlock
  | headNull {tq : Q} : m.dq.dqItemsHead = .null → Trans m (.drainHead tq) m (.drainHead tq)
  | headSome {tq : Q} : m.dq.dqItemsHead ≠ .null → Trans m (.drainHead tq) m (.drainLoad tq)
  | load {tq : Q} {dc : α} : m.dq.dqItemsHead = .item dc →
      Trans m (.drainLoad tq) m (.drainClear tq dc)
  | loadFault {tq : Q} : (∀ x, m.dq.dqItemsHead ≠ .item x) → Trans m (.drainLoad tq) m .fault
  | clear {tq : Q} {dc : α} :
      Trans m (.drainClear tq dc) { m with dq.dqItemsHead := .null } (.drainNext tq dc)
  | nextSome {tq : Q} {dc next : α} : m.dq.doNext dc = some next →
      Trans m (.drainNext tq dc) m (.drainSuspended tq dc (some next))
  | nextNone {tq : Q} {dc : α} : m.dq.doNext dc = none →
      Trans m (.drainNext tq dc) m (.drainReset tq dc)
  | resetTail {tq : Q} {dc : α} : m.dq.dqItemsTail = some dc →
      Trans m (.drainReset tq dc) { m with dq.dqItemsTail := none } (.drainSuspended tq dc none)
  | tailMoved {tq : Q} {dc : α} : m.dq.dqItemsTail ≠ some dc →
      Trans m (.drainReset tq dc) m (.drainNext tq dc)
  | suspended {tq : Q} {dc : α} {next : Option α} : m.doSuspendCnt ≥ 2 →
      Trans m (.drainSuspended tq dc next) m (drainOut dc next)
  | notSuspended {tq : Q} {dc : α} {next : Option α} : ¬ m.doSuspendCnt ≥ 2 →
      Trans m (.drainSuspended tq dc next) m (.drainRunning tq dc next)
  | crowded {tq : Q} {dc : α} {next : Option α} : m.dqRunning > dqWidth →
      Trans m (.drainRunning tq dc next) m (drainOut dc next)
  | notCrowded {tq : Q} {dc : α} {next : Option α} : ¬ m.dqRunning > dqWidth →
      Trans m (.drainRunning tq dc next) m (.drainTarget tq dc next)
  | retargeted {tq : Q} {dc : α} {next : Option α} : tq ≠ m.doTargetq →
      Trans m (.drainTarget tq dc next) m (drainOut dc next)
  | notRetargeted {tq : Q} {dc : α} {next : Option α} : tq = m.doTargetq →
      Trans m (.drainTarget tq dc next) m (.drainPop tq dc next)
  | pop {tq : Q} {dc : α} {next : Option α} : Trans m (.drainPop tq dc next)
      { m with dq.live := m.dq.live.erase dc, popped := m.popped ++ [dc] }
      (next.elim (.drainTail tq) (.drainNext tq))
  | swap {dc : α} : m.dq.dqItemsTail = none →
      Trans m (.outSwap dc) { m with dq.dqItemsTail := some dc } (.outHead dc)
  | swapMissed {dc : α} : m.dq.dqItemsTail ≠ none → Trans m (.outSwap dc) m (.outWait dc)
  | storeHead {dc : α} : Trans m (.outHead dc) { m with dq.dqItemsHead := .item dc } .unlock
  | waitNull {dc : α} : m.dq.dqItemsHead = .null → Trans m (.outWait dc) m (.outWait dc)
  | waitSome {dc next : α} : m.dq.dqItemsHead = .item next →
      Trans m (.outWait dc) m (.outFront dc next)
  | waitFault {dc : α} : m.dq.dqItemsHead = .mediator → Trans m (.outWait dc) m .fault
  | front {dc next : α} :
      Trans m (.outFront dc next) { m with dq.dqItemsHead := .item dc } (.outLink dc next)
  | link {dc next : α} : Trans m (.outLink dc next)
      { m with dq.doNext := Function.update m.dq.doNext dc (some next) } .unlock

variable {m m' : Mem α Q} {l l' : Loc α Q}

theorem trans_of_drain (h : dispatchQueueDrain m l = some (m', l')) : Trans m l m' l' := by
  unfold dispatchQueueDrain at h
  split at h
  · cases h
    exact .start
  · split at h <;> cases h
    · exact .tailSome (by simp [*])
    · exact .tailNone ‹_›
  · split at h <;> cases h
    · exact .headNull ‹_›
    · exact .headSome ‹_›
  · split at h <;> cases h
    · exact .load ‹_›
    · rename_i hfault
      exact .loadFault fun x hx ↦ hfault x hx
  · cases h
    exact .clear
  · split at h <;> cases h
    · exact .nextSome ‹_›
    · exact .nextNone ‹_›
  · split at h <;> cases h
    · exact .resetTail ‹_›
    · exact .tailMoved ‹_›
  · split at h <;> cases h
    · exact .suspended ‹_›
    · exact .notSuspended ‹_›
  · split at h <;> cases h
    · exact .crowded ‹_›
    · exact .notCrowded ‹_›
  · split at h <;> cases h
    · exact .retargeted ‹_›
    · exact .notRetargeted (not_not.mp ‹_›)
  · cases h
    exact .pop
  · split at h <;> cases h
    · exact .swap ‹_›
    · exact .swapMissed ‹_›
  · cases h
    exact .storeHead
  · split at h <;> cases h
    · exact .waitNull ‹_›
    · exact .waitSome ‹_›
    · exact .waitFault ‹_›
  · cases h
    exact .front
  · cases h
    exact .link
  · cases h

theorem trans_of_step {t : T} {a : Act α Q} (h : step t a m l = some (m', l')) :
    Trans m l m' l' := by
  unfold step at h
  split at h
  · obtain ⟨⟨i, p⟩, hp, heq⟩ := Option.map_eq_some_iff.mp h
    cases heq
    exact .prepare hp
  · cases h
    exact .push rfl
  · split at h <;> cases h
    exact .acquire ‹_› (.inl rfl)
  · split at h <;> cases h
    exact .acquire ‹_› (.inr rfl)
  · cases h
    exact .release (.inl rfl)
  · cases h
    exact .release (.inr rfl)
  · cases h
    exact .suspension
  · split at h <;> cases h
    exact .suspension
  · cases h
    exact .retarget
  · cases h
  · exact trans_of_drain h
  · cases h

end Steps

/-! ## One holder of the lock -/

def Exclusive (m : Mem α Q) (loc : T → Loc α Q) : Prop :=
  (m.dqRunning = 0 ∧ ∀ t, ¬ (loc t).Held) ∨ (m.dqRunning = 1 ∧ ∃ t, ∀ u, (loc u).Held ↔ u = t)

theorem Exclusive.unique {m : Mem α Q} {loc : T → Loc α Q} {t u : T} (h : Exclusive m loc)
    (ht : (loc t).Held) (hu : (loc u).Held) : t = u := by
  rcases h with ⟨-, hnone⟩ | ⟨-, v, hv⟩
  · exact (hnone t ht).elim
  · rw [(hv t).mp ht, (hv u).mp hu]

section Lock

variable [DecidableEq α] {m m' : Mem α Q} {l l' : Loc α Q}

theorem Trans.lock (h : Trans m l m' l') :
    (m.dqRunning = 0 ∧ m'.dqRunning = 1 ∧ l'.Held) ∨
      (l.Held ∧ ¬ l'.Held ∧ m'.dqRunning = m.dqRunning - 1) ∨
      (m'.dqRunning = m.dqRunning ∧ (l'.Held ↔ l.Held)) := by
  cases h
  case acquire hfree hl' =>
    refine .inl ⟨hfree, rfl, ?_⟩
    rcases hl' with rfl | rfl <;> trivial
  case release hl =>
    refine .inr (.inl ⟨?_, not_false, rfl⟩)
    rcases hl with rfl | rfl <;> trivial
  case push p' _ => exact .inr (.inr ⟨rfl, by cases p' <;> rfl⟩)
  case suspended next _ | crowded next _ | retargeted next _ | pop next =>
    exact .inr (.inr ⟨rfl, by cases next <;> rfl⟩)
  all_goals exact .inr (.inr ⟨rfl, Iff.rfl⟩)

theorem Trans.exclusive [DecidableEq T] {loc : T → Loc α Q} {t : T}
    (h : Trans m (loc t) m' l') (hex : Exclusive m loc) :
    Exclusive m' (Function.update loc t l') := by
  have hothers : ∀ u, u ≠ t → Function.update loc t l' u = loc u := fun u hu ↦
    Function.update_of_ne hu _ _
  rcases h.lock with ⟨hfree, hrun, hl'⟩ | ⟨hl, hl', hrun⟩ | ⟨hrun, hiff⟩
  · rcases hex with ⟨-, hnone⟩ | ⟨hone, -⟩
    · refine .inr ⟨hrun, t, fun u ↦ ?_⟩
      rcases eq_or_ne u t with rfl | hu
      · simpa using hl'
      · simpa [hothers u hu, hu] using hnone u
    · omega
  · rcases hex with ⟨-, hnone⟩ | ⟨hone, v, hv⟩
    · exact (hnone t hl).elim
    · refine .inl ⟨by omega, fun u ↦ ?_⟩
      rcases eq_or_ne u t with rfl | hu
      · simpa using hl'
      · rw [hothers u hu, hv u, ← (hv t).mp hl]
        exact hu
  · have hheld : ∀ u, (Function.update loc t l' u).Held ↔ (loc u).Held := by
      intro u
      rcases eq_or_ne u t with rfl | hu
      · simpa using hiff
      · rw [hothers u hu]
    simpa only [Exclusive, hheld, hrun] using hex

end Lock

/-! ## The order of the items -/

/-- The items `chain` are on the list; an item in hand comes before them, and the
popped items before that. -/
structure Ordered (m : Mem α Q) (loc : T → Loc α Q) (chain : List α) : Prop where
  shape : m.dq.Shape (fun t ↦ (loc t).role) (fun t ↦ (loc t).hold) chain
  plain : m.dq.dqItemsHead ≠ .mediator
  sound : ∀ t, (loc t).Sound m.dq
  settled : (∀ t, (loc t).hand = none) → m.dq.pushed = m.popped ++ chain
  inHand : ∀ t d, (loc t).hand = some d → m.dq.pushed = m.popped ++ d :: chain

theorem Loc.Sound.of_not_held {i i' : Items α} {l : Loc α Q} (h : l.Sound i) (hl : ¬ l.Held) :
    l.Sound i' := by
  cases l <;> simp_all [Held, Sound]

theorem Loc.held_of_hand {l : Loc α Q} (h : l.hand ≠ none) : l.Held := by
  cases l <;> simp_all [Held, hand]

theorem Loc.Sound.of_keeps {i i' : Items α} {l : Loc α Q} {chain : List α} (h : l.Sound i)
    (hkeep : i.Keeps i' chain) (hhold : ∀ x, l.hold = some x → x ∈ chain) : l.Sound i' := by
  cases l
  case drainLoad => exact h.imp hkeep.head
  case drainClear dc => exact hkeep.head dc h
  case outFront next => exact hkeep.head next h
  case drainSuspended dc next | drainRunning dc next | drainTarget dc next | drainPop dc next =>
    cases next with
    | none => trivial
    | some next => exact hkeep.doNext dc (hhold dc rfl) next h
  all_goals exact h

section Order

variable {m m' : Mem α Q} {loc : T → Loc α Q} {l' : Loc α Q} {t : T} {d : α}
  {chain chain' : List α}

theorem Ordered.mem_of_hold (h : Ordered m loc chain) (u : T) {x : α}
    (hu : (loc u).hold = some x) : x ∈ chain :=
  List.mem_of_head? (h.shape.front.hold_eq u x hu)

variable [DecidableEq T]

theorem sound_update {i : Items α} (hl' : l'.Sound i) (hothers : ∀ u, u ≠ t → (loc u).Sound i)
    (u : T) : (Function.update loc t l' u).Sound i := by
  rcases eq_or_ne u t with rfl | hu
  · simpa using hl'
  · simpa [hu] using hothers u hu

theorem Ordered.extend (h : Ordered m loc chain) {ys : List α}
    (hshape : m'.dq.Shape (fun u ↦ (Function.update loc t l' u).role)
      (fun u ↦ (Function.update loc t l' u).hold) (chain ++ ys))
    (hplain : m'.dq.dqItemsHead ≠ .mediator)
    (hsound : ∀ u, (Function.update loc t l' u).Sound m'.dq)
    (hpushed : m'.dq.pushed = m.dq.pushed ++ ys) (hpopped : m'.popped = m.popped)
    (hhand : l'.hand = (loc t).hand) :
    Ordered m' (Function.update loc t l') (chain ++ ys) := by
  have hhands := congrFun (comp_update_of_eq Loc.hand hhand)
  refine ⟨hshape, hplain, hsound, fun hall ↦ ?_, fun u d hu ↦ ?_⟩
  · rw [hpushed, hpopped, h.settled fun u ↦ (hhands u).symm.trans (hall u), List.append_assoc]
  · rw [hpushed, hpopped, h.inHand u d ((hhands u).symm.trans hu), List.append_assoc]
    rfl

theorem Ordered.stutter (h : Ordered m loc chain) (hdq : m'.dq = m.dq)
    (hpopped : m'.popped = m.popped) (hrole : l'.role = (loc t).role)
    (hhold : l'.hold = (loc t).hold) (hhand : l'.hand = (loc t).hand) (hl' : l'.Sound m.dq) :
    Ordered m' (Function.update loc t l') chain := by
  rw [← List.append_nil chain]
  refine h.extend ?_ (by rw [hdq]; exact h.plain) ?_ (by simp [hdq]) hpopped hhand
  · rw [comp_update_of_eq Loc.role hrole, comp_update_of_eq Loc.hold hhold, hdq, List.append_nil]
    exact h.shape
  · rw [hdq]
    exact sound_update hl' fun u _ ↦ h.sound u

omit [DecidableEq T] in
theorem Ordered.order (h : Ordered m loc chain) (hex : ∀ u, u ≠ t → ¬ (loc u).Held) :
    m.dq.pushed = m.popped ++ ((loc t).hand.toList ++ chain) := by
  rcases hhand : (loc t).hand with - | d
  · refine h.settled fun u ↦ ?_
    by_contra hu
    rcases eq_or_ne u t with rfl | hut
    · exact hu hhand
    · exact hex u hut (Loc.held_of_hand hu)
  · exact h.inHand t d hhand

theorem Ordered.drained (h : Ordered m loc chain) (hex : ∀ u, u ≠ t → ¬ (loc u).Held)
    (hshape : m'.dq.Shape (fun u ↦ (Function.update loc t l' u).role)
      (fun u ↦ (Function.update loc t l' u).hold) chain')
    (hplain : m'.dq.dqItemsHead ≠ .mediator) (hl' : l'.Sound m'.dq)
    (horder : m'.dq.pushed = m'.popped ++ (l'.hand.toList ++ chain')) :
    Ordered m' (Function.update loc t l') chain' := by
  refine ⟨hshape, hplain, sound_update hl' fun u hu ↦ (h.sound u).of_not_held (hex u hu),
    fun hall ↦ ?_, fun u d hu ↦ ?_⟩
  · have hnone : l'.hand = none := by simpa using hall t
    simpa [hnone] using horder
  · rcases eq_or_ne u t with rfl | hut
    · have hsome : l'.hand = some d := by simpa using hu
      simpa [hsome] using horder
    · rw [Function.update_of_ne hut] at hu
      exact (hex u hut (Loc.held_of_hand (by simp [hu]))).elim

end Order

section Preservation

variable [DecidableEq α] [DecidableEq T] {m m' : Mem α Q} {loc : T → Loc α Q} {l' : Loc α Q}
  {t : T} {chain : List α}

omit [DecidableEq α] in
theorem elim_push (p' : Option (Push α)) :
    (p'.elim .idle .push : Loc α Q).role = p'.elim {} Push.role ∧
      (p'.elim .idle .push : Loc α Q).hold = p'.elim none Push.hold ∧
      (p'.elim .idle .push : Loc α Q).hand = none ∧
      ∀ i, (p'.elim .idle .push : Loc α Q).Sound i := by
  cases p' <;> simp [Loc.role, Loc.hold, Loc.hand, Loc.Sound]

theorem Trans.ordered (h : Trans m (loc t) m' l') (hord : Ordered m loc chain)
    (hlock : Exclusive m loc) : ∃ chain', Ordered m' (Function.update loc t l') chain' := by
  have hmrole := moves_update Loc.role loc t l'
  have hmhold := moves_update Loc.hold loc t l'
  have hshape := hord.shape
  have hsound := hord.sound t
  have hex : (loc t).Held → ∀ u, u ≠ t → ¬ (loc u).Held := fun ht u hut hu ↦
    hut (hlock.unique hu ht)
  have horder := fun ht : (loc t).Held ↦ hord.order (hex ht)
  generalize ht : loc t = l at h hmrole hmhold hsound hex horder
  have hrole : l.role = (loc t).role := by rw [ht]
  have hhold : l.hold = (loc t).hold := by rw [ht]
  have hhand : l.hand = (loc t).hand := by rw [ht]
  cases h
  case prepare p hp =>
    have hkeep := Items.keeps_prepare hp hshape
    refine ⟨chain ++ [], hord.extend ?_ (hkeep.plain hord.plain) ?_ ?_ rfl hhand⟩
    · rw [comp_update_of_eq Loc.hold (by rw [ht]; exact Items.hold_prepare hp), List.append_nil]
      exact Items.shape_prepare hp hshape hmrole
    · exact sound_update trivial fun u _ ↦ (hord.sound u).of_keeps hkeep
        fun x hx ↦ hord.mem_of_hold u hx
    · rw [List.append_nil]
      exact Items.pushed_prepare hp
  case push p i p' hp =>
    obtain ⟨hr, hh, hha, hso⟩ := elim_push (Q := Q) p'
    rw [hr] at hmrole
    rw [hh] at hmhold
    have hkeep := Items.keeps_pushList hp hshape hmrole.1 hmhold.1
    obtain ⟨ys, hshape', hpushed⟩ := Items.shape_pushList hp hshape hmrole hmhold
    refine ⟨_, hord.extend hshape' (hkeep.plain hord.plain) ?_ hpushed rfl (hha.trans hhand)⟩
    exact sound_update (hso _) fun u _ ↦ (hord.sound u).of_keeps hkeep
      fun x hx ↦ hord.mem_of_hold u hx
  case acquire hl' => exact ⟨chain, by
    rcases hl' with rfl | rfl <;> exact hord.stutter rfl rfl hrole hhold hhand trivial⟩
  case release hl => exact ⟨chain, by
    rcases hl with rfl | rfl <;> exact hord.stutter rfl rfl hrole hhold hhand trivial⟩
  case headSome hhead =>
    refine ⟨chain, hord.stutter rfl rfl hrole hhold hhand ?_⟩
    have hplain := hord.plain
    cases hw : m.dq.dqItemsHead <;> simp_all [Loc.Sound]
  case load hhead | nextSome hhead | waitSome hhead =>
    exact ⟨chain, hord.stutter rfl rfl hrole hhold hhand hhead⟩
  case loadFault hfault =>
    obtain ⟨x, hx⟩ := hsound
    exact (hfault x hx).elim
  case waitFault hfault => exact (hord.plain hfault).elim
  case notSuspended next _ | notCrowded next _ | notRetargeted next _ =>
    cases next <;> exact ⟨chain, hord.stutter rfl rfl hrole hhold hhand hsound⟩
  case suspended next _ | crowded next _ | retargeted next _ =>
    -- an item with a successor is still on the list, one without has left it
    cases next <;> exact ⟨chain, hord.stutter rfl rfl hrole hhold hhand trivial⟩
  case clear tq dc =>
    refine ⟨chain, hord.drained (hex trivial) ?_ (by simp) trivial (horder trivial)⟩
    rw [comp_update_of_eq Loc.role (by rw [ht]; rfl)]
    have hfront := hshape.front
    rw [show m.dq.dqItemsHead = .item dc from hsound] at hfront
    exact ⟨hshape.linked, hshape.tail_eq, hfront.take hmhold⟩
  case resetTail tq dc htail =>
    obtain rfl := hshape.eq_singleton hhold.symm htail
    have hshape' := hshape.close hhold.symm htail hmrole hmhold
    exact ⟨[], hord.drained (hex trivial) hshape' hord.plain trivial (horder trivial)⟩
  case pop tq dc next =>
    cases next with
    | none =>
        refine ⟨chain, hord.drained (hex trivial) ?_ hord.plain trivial ?_⟩
        · rw [comp_update_of_eq Loc.hold (by rw [ht]; rfl)]
          exact ⟨hshape.linked.release hmrole (by simp [and_comm]), hshape.tail_eq, hshape.front⟩
        · simpa [Loc.hand] using horder trivial
    | some next =>
        obtain ⟨ys, rfl, hshape'⟩ := hshape.pop hhold.symm hsound
          (fun z ↦ by rw [Finset.mem_erase, and_comm]) hmhold
        refine ⟨next :: ys, hord.drained (hex trivial) ?_ hord.plain trivial ?_⟩
        · rw [comp_update_of_eq Loc.role (by rw [ht]; rfl)]
          exact hshape'
        · simpa [Loc.hand] using horder trivial
  case swap dc htail =>
    obtain rfl := hshape.eq_nil htail
    refine ⟨[dc], hord.drained (hex trivial) ?_ hord.plain trivial (horder trivial)⟩
    exact ⟨hshape.linked.reopen hmrole, rfl, hshape.front.open hmhold⟩
  case storeHead dc =>
    refine ⟨chain, hord.drained (hex trivial) ?_ (by simp) trivial (horder trivial)⟩
    rw [comp_update_of_eq Loc.role (by rw [ht]; rfl)]
    exact ⟨hshape.linked, hshape.tail_eq, hshape.front.store hmhold⟩
  case front dc next =>
    have hhead : m.dq.dqItemsHead = .item next := hsound
    obtain ⟨ys, rfl⟩ := List.head?_eq_some_iff.mp
      (hshape.front.head_eq next (by rw [hhead]; rfl))
    have hfront := hshape.front
    rw [hhead] at hfront
    refine ⟨dc :: next :: ys, hord.drained (hex trivial) ?_ (by simp) trivial (horder trivial)⟩
    rw [comp_update_of_eq Loc.hold (by rw [ht]; rfl)]
    exact ⟨hshape.linked.putBack hmrole, by simpa using hshape.tail_eq, hfront.putBack dc⟩
  case link dc next =>
    refine ⟨chain, hord.drained (hex trivial) ?_ hord.plain trivial (horder trivial)⟩
    rw [comp_update_of_eq Loc.hold (by rw [ht]; rfl)]
    refine ⟨hshape.linked.link hmrole (fun x hx ↦ ?_) (by simp), hshape.tail_eq, hshape.front⟩
    exact Function.update_of_ne hx _ _
  all_goals exact ⟨chain, hord.stutter rfl rfl hrole hhold hhand trivial⟩

end Preservation

/-! ## Whole runs -/

/-- The places from which the code can come to an item: the head of the list, and the
local variables of the thread that drains and of the threads that push. -/
def Start (s : Pool T (Mem α Q) (Loc α Q)) (x : α) : Prop :=
  s.mem.dq.dqItemsHead = .item x ∨ ∃ t, (s.loc t).Names x

/-- What a serial queue owes its users.  The items are popped in the order in which they
were pushed, each of them once, and those that wait can all be come to. -/
structure Fifo (s : Pool T (Mem α Q) (Loc α Q)) : Prop where
  initial : s.mem.popped <+: s.mem.dq.pushed
  waiting_nodup : (s.mem.dq.pushed.drop s.mem.popped.length).Nodup
  waiting_follows : ∀ x ∈ s.mem.dq.pushed.drop s.mem.popped.length,
    Follows s.mem.dq.doNext (Start s) x
  drainer_unique : ∀ t u, (s.loc t).Held → (s.loc u).Held → t = u
  no_fault : ∀ t, s.loc t ≠ .fault

theorem Loc.names_of_hold {l : Loc α Q} {x : α} (h : l.hold = some x) : l.Names x := by
  cases l
  case push p => cases p <;> simp_all [hold, Push.hold, Names]
  case drainSuspended next | drainRunning next | drainTarget next | drainPop next =>
    cases next <;> simp_all [hold, Names]
  all_goals simp_all [hold, Names]

theorem Loc.names_of_link {l : Loc α Q} {a x : α} (h : l.role.link = some (a, x)) :
    l.Names x := by
  cases l
  case push p => cases p <;> simp_all [role, Push.role, Names]
  case drainSuspended next | drainRunning next | drainTarget next | drainPop next =>
    cases next <;> simp_all [role]
  all_goals simp_all [role, Names]

theorem Loc.names_of_hand {l : Loc α Q} {x : α} (h : l.hand = some x) : l.Names x := by
  cases l
  case drainSuspended next | drainRunning next | drainTarget next | drainPop next =>
    cases next <;> simp_all [hand, Names]
  all_goals simp_all [hand, Names]

theorem Loc.own_of_hand {l : Loc α Q} {x : α} (h : l.hand = some x) : x ∈ l.role.own := by
  cases l
  case drainSuspended next | drainRunning next | drainTarget next | drainPop next =>
    cases next <;> simp_all [hand, role]
  all_goals simp_all [hand, role]

section Runs

variable {s : Pool T (Mem α Q) (Loc α Q)} {chain : List α}

theorem Ordered.follows (h : Ordered s.mem s.loc chain) :
    ∀ x ∈ chain, Follows s.mem.dq.doNext (Start s) x := by
  cases chain with
  | nil => simp
  | cons y ys =>
      have hy : Start s y := by
        rcases h.shape.front.exists_front (by simp) with hhead | ⟨t, ht⟩
        · obtain ⟨z, hz⟩ := Option.ne_none_iff_exists'.mp hhead
          obtain rfl : y = z := by simpa using h.shape.front.head_eq z hz
          refine .inl ?_
          cases hw : s.mem.dq.dqItemsHead <;> simp_all [Word.toOption]
        · obtain ⟨z, hz⟩ := Option.ne_none_iff_exists'.mp ht
          obtain rfl : y = z := by simpa using h.shape.front.hold_eq t z hz
          exact .inr ⟨t, Loc.names_of_hold hz⟩
      intro x hx
      refine (h.shape.linked.follows x hx).mono ?_
      rintro z (rfl | ⟨t, a, ht⟩)
      · exact hy
      · exact .inr ⟨t, Loc.names_of_link ht⟩

theorem Ordered.exists_waiting (h : Ordered s.mem s.loc chain) :
    ∃ waiting, s.mem.dq.pushed = s.mem.popped ++ waiting ∧ waiting.Nodup ∧
      ∀ x ∈ waiting, Follows s.mem.dq.doNext (Start s) x := by
  by_cases hall : ∀ t, (s.loc t).hand = none
  · exact ⟨chain, h.settled hall, h.shape.linked.nodup, h.follows⟩
  · push Not at hall
    obtain ⟨t, ht⟩ := hall
    obtain ⟨d, hd⟩ := Option.ne_none_iff_exists'.mp ht
    refine ⟨d :: chain, h.inHand t d hd, List.nodup_cons.mpr ⟨?_, h.shape.linked.nodup⟩, ?_⟩
    · exact h.shape.linked.own_fresh t d (Loc.own_of_hand hd)
    · intro x hx
      rcases List.mem_cons.mp hx with rfl | hx
      · exact .start (.inr ⟨t, Loc.names_of_hand hd⟩)
      · exact h.follows x hx

variable [DecidableEq α] [DecidableEq Q] [DecidableEq T] {doNext : α → Option α} {tq : Q}

theorem ordered_of_run (h : Pool.Reachable step (created doNext tq) s) :
    Exclusive s.mem s.loc ∧ ∃ chain, Ordered s.mem s.loc chain := by
  refine h.invariant
    (I := fun s ↦ Exclusive s.mem s.loc ∧ ∃ chain, Ordered s.mem s.loc chain) ?_ ?_
  · exact ⟨.inl ⟨rfl, fun _ ↦ not_false⟩, [], shape_empty doNext, by simp [created, Items.empty],
      fun _ ↦ trivial, fun _ ↦ rfl, nofun⟩
  · rintro s t a m l - ⟨hlock, chain, hord⟩ - hP
    have htrans := trans_of_step hP
    exact ⟨htrans.exclusive hlock, htrans.ordered hord hlock⟩

/-- Whatever its users do and wherever its drains are cut short, a serial queue pops the
pushed items in order, and loses and repeats none. -/
theorem fifo_of_reachable (h : Pool.Reachable step (created doNext tq) s) : Fifo s := by
  obtain ⟨hlock, chain, hord⟩ := ordered_of_run h
  obtain ⟨waiting, hpushed, hnodup, hfollows⟩ := hord.exists_waiting
  have hdrop : s.mem.dq.pushed.drop s.mem.popped.length = waiting := by
    rw [hpushed, List.drop_left]
  refine ⟨⟨waiting, hpushed.symm⟩, by rwa [hdrop], by rwa [hdrop],
    fun t u ht hu ↦ hlock.unique ht hu, fun t ht ↦ ?_⟩
  have hsound := hord.sound t
  rwa [ht] at hsound

end Runs

def steps (t : Bool) (a : Act ℕ ℕ) (n : ℕ) : List (Bool × Act ℕ ℕ) :=
  (t, a) :: List.replicate n (t, .go)

/-- A drain is cut short with the only item in hand while another one is pushed; the
first item goes back to the front. -/
def putBackTrace : List (Bool × Act ℕ ℕ) :=
  steps true (.push 7 []) 3 ++ steps false .drain 7 ++ steps true .suspend 0 ++
    steps true (.push 8 []) 3 ++ List.replicate 6 (false, .go) ++ steps true .resume 0 ++
    steps false .drain 10

def putBackState : Pool Bool (Mem ℕ ℕ) (Loc ℕ ℕ) :=
  ((created (fun _ ↦ none) 0).run step (fun _ _ _ ↦ True) putBackTrace).get (by decide)

theorem fifo_of_reachable_putBack :
    ∃ s : Pool Bool (Mem ℕ ℕ) (Loc ℕ ℕ), s.mem.popped = [7] ∧ s.mem.dq.pushed = [7, 8] ∧ Fifo s :=
  ⟨putBackState, by decide, by decide, fifo_of_reachable (Pool.runs_get _)⟩

end LibDispatch.SerialQueue
