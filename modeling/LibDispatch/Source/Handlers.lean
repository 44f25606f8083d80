import LibDispatch.Source.Cancel

/-!
# A source as its handlers see it

What there is to know about a source for somebody who wants to know when its handlers are
called: where the threads stand that cancel it or are about to call a handler, and how many
handlers for its cancellation are on their way.
-/

namespace LibDispatch.Source

open Interleaving

variable {T Q : Type*}

/-! ## Places near the handlers -/

/-- The place of a thread, with all places that are not near a handler taken together. -/
inductive Spot
  | plain
  | merging
  | cancelRetain
  | cancelFlag
  | latch
  | latchData (prev : BitVec 64)
  | latchRun
  | calloutRun
  deriving DecidableEq

def Held.spot : Held Q → Spot
  | .latchXref | .latchXchg => .latch
  | .latchData prev => .latchData prev
  | .latchRun => .latchRun
  | .calloutRun _ => .calloutRun
  | _ => .plain

def Loc.spot : Loc Q → Spot
  | .mergeDkev _ | .mergeFlags _ | .mergeXref _ | .mergePending _ | .mergeRearm | .mergeDisarm =>
      .merging
  | .cancelRetain => .cancelRetain
  | .cancelFlag => .cancelFlag
  | .held _ p => p.spot
  | _ => .plain

/-- The parts of a source that decide about its handlers stay as they are. -/
structure Mem.Same (m m' : Mem Q) : Prop where
  pending : m'.dsPendingData = m.dsPendingData
  canceled : m'.dsCanceled = m.dsCanceled
  calls : m'.cancelCalls = m.cancelCalls

theorem Mem.Same.refl (m : Mem Q) : m.Same m := ⟨rfl, rfl, rfl⟩

/-- What a step inside of the library does near the handlers, if the thread does not merge data.
-/
inductive Near (m : Mem Q) : Spot → Mem Q → Spot → Prop
  | plain {x : Spot} {m' : Mem Q} : x ≠ .cancelRetain → x ≠ .cancelFlag → m.Same m' →
      Near m x m' .plain
  | clear {m' : Mem Q} : m'.dsPendingData = 0 → m'.dsCanceled = m.dsCanceled →
      m'.cancelCalls = m.cancelCalls → Near m .plain m' .plain
  | cancelFlag {m' : Mem Q} : m.Same m' → Near m .cancelRetain m' .cancelFlag
  | canceled {m' : Mem Q} : m'.dsPendingData = m.dsPendingData → m'.dsCanceled →
      m'.cancelCalls = m.cancelCalls → Near m .cancelFlag m' .plain
  | latchFlags {m' : Mem Q} : m.dsCanceled = false → m.Same m' → Near m .plain m' .latch
  | latchXref {m' : Mem Q} : m.Same m' → Near m .latch m' .latch
  | latchXchg {m' : Mem Q} : m'.dsPendingData = 0 → m'.dsCanceled = m.dsCanceled →
      m'.cancelCalls = m.cancelCalls → Near m .latch m' (.latchData m.dsPendingData)
  | latchData {m' : Mem Q} {prev : BitVec 64} : prev ≠ 0 → m.Same m' →
      Near m (.latchData prev) m' .latchRun
  | callout {m' : Mem Q} {n : ℕ} : m.dsCanceled → m'.dsPendingData = m.dsPendingData →
      m'.dsCanceled = m.dsCanceled → m'.cancelCalls = n :: m.cancelCalls →
      Near m .plain m' .calloutRun

section Steps

variable [DecidableEq Q] {set : Setting T Q} {t : T} {m m' : Mem Q} {l l' : Loc Q}

omit [DecidableEq Q] in
theorem spot_afterLoc (k : After) : (k.loc : Loc Q).spot = .plain := by
  cases k <;> rfl

omit [DecidableEq Q] in
theorem spot_resumeLoc (m : Mem Q) (k : After) : (resumeLoc m k).spot = .plain := by
  rcases resumeLoc_eq m k with h | h | h <;> rw [h]
  · rfl
  · rfl
  · exact spot_afterLoc k

omit [DecidableEq Q] in
theorem HeldTrans.near {f f' : Frame Q} {p p' : Held Q} (h : HeldTrans set m f p m' f' p') :
    Near m p.spot m' p'.spot := by
  cases h
  case latchFlags hcanceled => exact .latchFlags hcanceled (.refl m)
  case latchXref => exact .latchXref (.refl m)
  case latchXchg => exact .latchXchg rfl rfl rfl
  case latchData hprev _ => exact .latchData hprev ⟨rfl, rfl, rfl⟩
  case calloutFlags hcanceled => exact .callout hcanceled rfl rfl rfl
  case calloutPending => exact .clear rfl rfl rfl
  case drainItem dc =>
    have hspot : (if f.next then .drainTake else .drainTail : Held Q).spot = .plain := by
      split <;> rfl
    rw [hspot]
    cases dc <;> exact .plain nofun nofun ⟨rfl, rfl, rfl⟩
  case outSuspended dc _ | outRunning dc _ | outTarget dc _ =>
    rcases drainOut_cases f dc with ho | ho <;> rw [ho] <;> exact .plain nofun nofun (.refl m)
  all_goals exact .plain nofun nofun ⟨rfl, rfl, rfl⟩

theorem Trans.near (h : Trans set t m l m' l') (hl : l ≠ .idle) (hmerge : l.spot ≠ .merging) :
    Near m l.spot m' l'.spot := by
  cases h
  case held h => exact h.near
  case cancelRetain => exact .cancelFlag ⟨rfl, rfl, rfl⟩
  case cancelFlag => exact .canceled rfl rfl rfl
  case wakeupSuspended k _ | wakeupEmpty k _ | wakeupMissed k _ =>
    rw [spot_afterLoc]
    exact .plain nofun nofun (.refl m)
  case wakeupPush k =>
    rw [spot_afterLoc]
    exact .plain nofun nofun ⟨rfl, rfl, rfl⟩
  case timerResume =>
    rw [spot_resumeLoc]
    exact .plain nofun nofun ⟨rfl, rfl, rfl⟩
  all_goals first
    | exact absurd rfl hl
    | exact absurd rfl hmerge
    | exact .plain nofun nofun ⟨rfl, rfl, rfl⟩

/-- The calls that neither cancel a source nor merge data. -/
def Act.quiet : Act Q → Bool
  | .setEventHandler _ _ | .setCancelHandler _ | .setTimer | .setTimer2 | .release | .resume
  | .invoke _ => true
  | _ => false

theorem same_of_quiet [DecidableEq T] {a : Act Q} (ha : a.quiet)
    (h : step set t a m .idle = some (m', l')) : m.Same m' ∧ l'.spot = .plain := by
  cases a with
  | setEventHandler | setCancelHandler =>
      cases h
      exact ⟨.refl m, rfl⟩
  | resume =>
      simp only [step, if_true, Option.ite_none_right_eq_some, Option.some.injEq] at h
      obtain ⟨-, h⟩ := h
      cases h
      exact ⟨⟨rfl, rfl, rfl⟩, spot_resumeLoc _ _⟩
  | setTimer | setTimer2 | release | invoke =>
      simp only [step, if_true, Option.ite_none_right_eq_some, Option.some.injEq,
        Prod.mk.injEq] at h
      obtain ⟨-, rfl, rfl⟩ := h
      exact ⟨⟨rfl, rfl, rfl⟩, rfl⟩
  | _ => cases ha

theorem fire_eq [DecidableEq T] {n : BitVec 64} (h : step set t (.fire n) m .idle = some (m', l')) :
    m' = { m with dsPendingData := m.dsPendingData + n, merges := m.merges ++ [n] } ∧
      l' = .wakeup .suspended .return := by
  simp only [step, if_true, Option.ite_none_right_eq_some, Option.some.injEq, Prod.mk.injEq] at h
  exact ⟨h.2.1.symm, h.2.2.symm⟩

/-! ## Handlers on their way -/

/-- One for an item that installs a handler for the cancellation. -/
def Item.handlers : Item Q → ℕ
  | .setCancelHandler _ => 1
  | _ => 0

/-- The handlers in the hands of a thread that drains the source.  As long as another item
follows, the one that is looked at is still on the list. -/
def Held.handlers (f : Frame Q) : Held Q → ℕ
  | .drainSuspended dc | .drainRunning dc | .drainTarget dc | .drainPop dc =>
      if f.next then 0 else dc.handlers
  | .drainItem dc | .outSwap dc | .outFront dc => dc.handlers
  | _ => 0

def Loc.handlers : Loc Q → ℕ
  | .pushExchange item => item.handlers
  | .held f p => p.handlers f
  | _ => 0

def Mem.handlers (m : Mem Q) : ℕ := (m.items.map Item.handlers).sum + m.installs

/-- The item that is looked at, if it is still on the list. -/
def Held.peeks (f : Frame Q) : Held Q → Option (Item Q)
  | .drainSuspended dc | .drainRunning dc | .drainTarget dc | .drainPop dc =>
      if f.next then some dc else none
  | _ => none

omit [DecidableEq Q] in
theorem handlers_afterLoc (k : After) : (k.loc : Loc Q).handlers = 0 := by
  cases k <;> rfl

omit [DecidableEq Q] in
theorem handlers_resumeLoc (m : Mem Q) (k : After) : (resumeLoc m k).handlers = 0 := by
  rcases resumeLoc_eq m k with h | h | h <;> rw [h]
  · rfl
  · rfl
  · exact handlers_afterLoc k

omit [DecidableEq Q] in
theorem handlers_drainOut (f : Frame Q) (dc : Item Q) :
    (drainOut f dc).handlers f = if f.next then 0 else dc.handlers := by
  unfold drainOut
  split <;> rfl

omit [DecidableEq Q] in
theorem HeldTrans.handlers_eq {f f' : Frame Q} {p p' : Held Q} (h : HeldTrans set m f p m' f' p')
    (hpeek : ∀ dc, p.peeks f = some dc → m.items.head? = some dc) :
    m'.handlers + p'.handlers f' = m.handlers + p.handlers f := by
  cases h
  case drainLast dc hitems => simp [Mem.handlers, Held.handlers, hitems, Nat.add_comm]
  case drainTake => simp [Held.handlers]
  case drainPop dc =>
    cases hnext : f.next with
    | false => simp [Mem.handlers, Held.handlers, hnext]
    | true =>
        obtain ⟨rest, hitems⟩ := List.head?_eq_some_iff.mp (hpeek dc (by simp [Held.peeks, hnext]))
        simp only [Mem.handlers, Held.handlers, hnext, hitems, if_true, List.tail_cons,
          List.map_cons, List.sum_cons]
        omega
  case drainItem dc =>
    have hhand : (if f.next then .drainTake else .drainTail : Held Q).handlers f = 0 := by
      split <;> rfl
    rw [hhand]
    cases dc <;> rfl
  case outSwap dc hitems => simp [Mem.handlers, Held.handlers, hitems, Nat.add_comm]
  case outFront dc =>
    simp only [Mem.handlers, Held.handlers, List.map_cons, List.sum_cons]
    omega
  case outSuspended dc _ | outRunning dc _ | outTarget dc _ =>
    rw [handlers_drainOut]
    rfl
  all_goals rfl

theorem Trans.handlers_eq (h : Trans set t m l m' l')
    (hpeek : ∀ f p dc, l = .held f p → p.peeks f = some dc → m.items.head? = some dc) :
    m'.handlers + l'.handlers = m.handlers + l.handlers + if l = .idle then l'.handlers else 0 := by
  cases h
  case held f _ p _ h => exact h.handlers_eq fun dc ↦ hpeek f p dc rfl
  case exchange hitems => simp [Mem.handlers, Loc.handlers, hitems, Nat.add_comm]
  case exchangeBehind item _ =>
    simp only [Mem.handlers, Loc.handlers, List.map_append, List.sum_append, List.map_cons,
      List.map_nil, List.sum_cons, List.sum_nil, reduceCtorEq, if_false]
    omega
  case wakeupSuspended k _ | wakeupEmpty k _ | wakeupMissed k _ | wakeupPush k =>
    rw [handlers_afterLoc]
    rfl
  case resume =>
    rw [handlers_resumeLoc]
    rfl
  case timerResume =>
    rw [handlers_resumeLoc]
    rfl
  all_goals rfl

/-- One for a call of `dispatch_source_set_cancel_handler`. -/
def Act.handlers : Act Q → ℕ
  | .setCancelHandler _ => 1
  | _ => 0

theorem handlers_of_call [DecidableEq T] {a : Act Q} (h : step set t a m .idle = some (m', l')) :
    l'.handlers = a.handlers := by
  cases a with
  | go | found => cases h
  | setEventHandler | setCancelHandler | setTargetQueue | cancel | mergeData | suspend =>
      cases h
      rfl
  | resume =>
      simp only [step, if_true, Option.ite_none_right_eq_some, Option.some.injEq] at h
      obtain ⟨-, h⟩ := h
      cases h
      exact handlers_resumeLoc _ _
  | kevent | fire | setTimer | setTimer2 | nextFire | retain | release | invoke =>
      simp only [step, if_true, Option.ite_none_right_eq_some, Option.some.injEq,
        Prod.mk.injEq] at h
      obtain ⟨-, rfl, rfl⟩ := h
      rfl

omit [DecidableEq Q] in
theorem HeldTrans.peeks_of {f f' : Frame Q} {p p' : Held Q} (h : HeldTrans set m f p m' f' p')
    (hpeek : ∀ dc, p.peeks f = some dc → m.items.head? = some dc) {dc : Item Q}
    (hp : p'.peeks f' = some dc) : m'.items.head? = some dc := by
  cases h
  case drainTake hitems =>
    rw [hitems]
    exact hp
  case drainLast => cases hp
  case drainSuspended | drainRunning | drainTarget => exact hpeek dc hp
  case drainItem => split at hp <;> cases hp
  case outSuspended dc _ | outRunning dc _ | outTarget dc _ =>
    rcases drainOut_cases f dc with ho | ho <;> rw [ho] at hp <;> cases hp
  all_goals cases hp

theorem Trans.items_append (h : Trans set t m l m' l') (hl : l.bit = 0) :
    ∃ new, m'.items = m.items ++ new := by
  cases h
  case held => cases hl
  case exchange | exchangeBehind => exact ⟨_, rfl⟩
  all_goals exact ⟨[], (List.append_nil _).symm⟩

end Steps

section Runs

variable [DecidableEq T] [DecidableEq Q] [Fintype T] {set : Setting T Q} {t : T} {m m' : Mem Q}
  {loc : T → Loc Q} {l' : Loc Q}

/-- An item that is looked at and still on the list is the first one there. -/
def Peeks (m : Mem Q) (loc : T → Loc Q) : Prop :=
  ∀ u f p dc, loc u = .held f p → p.peeks f = some dc → m.items.head? = some dc

theorem Trans.peeks (h : Trans set t m (loc t) m' l') (hacc : Accounts m loc) (hp : Peeks m loc) :
    Peeks m' (Function.update loc t l') := by
  intro u f p dc hu hpeek
  rcases eq_or_ne u t with rfl | hut
  · rw [Function.update_self] at hu
    rcases eq_or_ne (loc u).bit 0 with hl | hl
    · obtain ⟨rfl, -⟩ := h.held_of_free hl hu
      cases hpeek
    · obtain ⟨g, q, ht⟩ := Loc.eq_held_of_bit hl
      rw [ht] at h
      cases h
      case held h =>
        cases hu
        exact h.peeks_of (fun dc ↦ hp u g q dc ht) hpeek
      case releaseRef | releaseRefLast =>
        cases hu
        cases hpeek
      all_goals cases hu
  · rw [Function.update_of_ne hut] at hu
    have hfree : (loc t).bit = 0 := by
      by_contra hbit
      obtain ⟨g, q, ht⟩ := Loc.eq_held_of_bit hbit
      exact hacc.ne_held ht hut hu
    obtain ⟨new, hitems⟩ := h.items_append hfree
    obtain ⟨rest, hfirst⟩ := List.head?_eq_some_iff.mp (hp u f p dc hu hpeek)
    rw [hitems, hfirst]
    rfl

theorem peeks_of_run {C : Pool T (Mem Q) (Loc Q) → T → Act Q → Prop} {tq : Q} {mask : BitVec 64}
    {needsRearm : Bool} {s : Pool T (Mem Q) (Loc Q)}
    (h : Pool.Runs (step set) C (created tq mask needsRearm) s) : Peeks s.mem s.loc :=
  h.invariant (I := fun s ↦ Peeks s.mem s.loc) nofun
    fun _ _ _ _ _ hr hp _ hP ↦ (trans_of_step hP).peeks (accounts_of_run hr) hp

omit [DecidableEq T] [DecidableEq Q] in
theorem Ordered.exists_protocol (ho : Ordered set m loc) (hacc : Accounts m loc) :
    ∃ p, Protocol m p := by
  rcases Nat.eq_zero_or_pos m.dqRunning with hzero | hpos
  · exact ⟨none, ho.free hzero⟩
  · obtain ⟨t, f, p, ht⟩ := hacc.exists_held hpos
    exact ⟨some p, (ho.held t f p ht).1⟩

omit [DecidableEq T] [DecidableEq Q] in
theorem Ordered.calls_le (ho : Ordered set m loc) (hacc : Accounts m loc) :
    m.cancelCalls.length ≤ m.installs := by
  obtain ⟨p, hp⟩ := ho.exists_protocol hacc
  have hsubset : m.cancelCalls ⊆ List.range m.installs :=
    fun n hn ↦ List.mem_range.mpr (hp.lt_of_call n hn)
  simpa using (hp.calls_nodup.subperm hsubset).length_le

end Runs

end LibDispatch.Source
