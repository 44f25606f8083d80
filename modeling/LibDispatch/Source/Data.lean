import LibDispatch.Interleaving.Batches
import LibDispatch.Source.Wakeup
import Mathlib.Data.BitVec

/-!
# Data sources

The pending data of a source is a cell into which any number of threads merge and which the
thread that has `dq_running` empties for each call of the event handler.
-/

namespace LibDispatch.Source

open Interleaving

variable {T Q : Type*}

/-- How a source combines the data that is merged. -/
def mergeOp (adder : Bool) (x y : BitVec 64) : BitVec 64 := if adder then x + y else x ||| y

instance (adder : Bool) : Std.Associative (mergeOp adder) where
  assoc x y z := by cases adder <;> simp [mergeOp, BitVec.add_assoc, BitVec.or_assoc]

instance (adder : Bool) : Std.LawfulIdentity (mergeOp adder) 0 where
  left_id x := by cases adder <;> simp [mergeOp]
  right_id x := by cases adder <;> simp [mergeOp]

/-! ## A data source in use -/

def intMax : ℕ := 2147483647

def dataMask : BitVec 64 := 0xffffffff

/-- The calls on a data source that is not cancelled.  It gets no events from the kernel and
is not a timer. -/
def Act.allowed (set : Setting T Q) : Act Q → Bool
  | .mergeData val => set.dsIsAdder || val.toNat ≤ intMax
  | .cancel | .kevent _ | .fire _ | .setTimer => false
  | _ => true

/-- The last external reference is not released, and data is delivered while an event handler
is installed. -/
def Loc.allowed (m : Mem Q) : Loc Q → Bool
  | .releaseXref => 1 < m.doXrefCnt
  | .held _ (.latchData _) => m.dsHandlerFunc
  | _ => true

/-- A step on a data source with an event handler that is not cancelled or released. -/
def InUse (set : Setting T Q) (s : Pool T (Mem Q) (Loc Q)) (t : T) (a : Act Q) : Prop :=
  a.allowed set ∧ (s.loc t).allowed s.mem

instance (set : Setting T Q) (s : Pool T (Mem Q) (Loc Q)) (t : T) (a : Act Q) :
    Decidable (InUse set s t a) := inferInstanceAs (Decidable (_ ∧ _))

/-- The source has neither been cancelled nor released. -/
structure Live (mask : BitVec 64) (m : Mem Q) : Prop where
  canceled : m.dsCanceled = false
  xref : 0 < m.doXrefCnt
  mask : m.dsPendingDataMask = mask

/-- The places of `_dispatch_source_invoke` on a source that has been cancelled. -/
def Held.cancels : Held Q → Bool
  | .dkev | .releaseDkev | .releaseRemove | .releaseArmed | .releaseRearm | .releaseRef
  | .releaseTarget | .cancelHandler | .calloutMask | .calloutPending | .calloutData
  | .calloutHandler | .calloutFlags _ | .calloutRun _ | .calloutClear => true
  | _ => false

/-- The event carries the same data as number and as flags. -/
def Kevent.Plain (set : Setting T Q) (mask : BitVec 64) (ke : Kevent) : Prop :=
  ke.error = false ∧ (set.dsIsAdder = false → ke.fflags.setWidth 64 &&& mask = ke.data)

/-- The places of a thread that uses such a source. -/
def Loc.Plain (set : Setting T Q) (mask : BitVec 64) : Loc Q → Prop
  | .mergeDkev ke | .mergeFlags ke | .mergeXref ke | .mergePending ke => ke.Plain set mask
  | .cancelRetain | .cancelFlag => False
  | .held _ p => p.cancels = false
  | _ => True

theorem setWidth_and_dataMask {val : BitVec 64} (h : val.toNat ≤ intMax) :
    (val.setWidth 32).setWidth 64 &&& dataMask = val := by
  unfold intMax at h
  apply BitVec.eq_of_toNat_eq
  have hmask : dataMask.toNat = 2 ^ 32 - 1 := rfl
  rw [BitVec.toNat_and, hmask, Nat.and_two_pow_sub_one_eq_mod]
  simp only [BitVec.toNat_setWidth]
  omega

theorem Live.work {m : Mem Q} {mask : BitVec 64} (hm : Live mask m) (hp : m.dsPendingData ≠ 0) :
    m.Work := by
  have hdelivers : m.delivers = true := by
    unfold Mem.delivers
    rw [bne_iff_ne.mpr hp, Bool.true_or]
  left
  simp [Mem.finds, hm.canceled, hm.xref.ne', hdelivers]

section Steps

variable [DecidableEq Q] {set : Setting T Q} {t : T} {m m' : Mem Q} {l l' : Loc Q}
  {mask : BitVec 64}

omit [DecidableEq Q] in
theorem HeldTrans.live {f f' : Frame Q} {p p' : Held Q} (h : HeldTrans set m f p m' f' p')
    (hp : p.cancels = false) (hm : Live mask m) : Live mask m' ∧ p'.cancels = false := by
  obtain ⟨hcanceled, hxref, hmask⟩ := hm
  cases h
  case flagsCanceled hc => exact absurd hc (by simp [hcanceled])
  case xrefReleased hz => omega
  case drainItem dc =>
    refine ⟨by cases dc <;> exact ⟨hcanceled, hxref, hmask⟩, ?_⟩
    split <;> rfl
  case outSuspended dc _ | outRunning dc _ | outTarget dc _ =>
    rcases drainOut_cases f dc with ho | ho <;> rw [ho] <;>
      exact ⟨⟨hcanceled, hxref, hmask⟩, rfl⟩
  all_goals first | exact ⟨⟨hcanceled, hxref, hmask⟩, rfl⟩ | cases hp

omit [DecidableEq Q] in
theorem plain_afterLoc (set : Setting T Q) (mask : BitVec 64) (k : After) :
    (k.loc : Loc Q).Plain set mask := by
  cases k <;> trivial

omit [DecidableEq Q] in
theorem plain_resumeLoc (set : Setting T Q) (mask : BitVec 64) (m : Mem Q) (k : After) :
    (resumeLoc m k).Plain set mask := by
  rcases resumeLoc_eq m k with h | h | h <;> rw [h]
  · trivial
  · trivial
  · exact plain_afterLoc set mask k

theorem Trans.live (h : Trans set t m l m' l') (hl : l.Plain set mask) (ha : l.allowed m)
    (hm : Live mask m) : Live mask m' := by
  cases h
  case held h => exact (h.live hl hm).1
  case cancelFlag => cases hl
  case setTimer | retain => exact ⟨hm.canceled, Nat.succ_pos _, hm.mask⟩
  case releaseXref hpos => exact ⟨hm.canceled, Nat.sub_pos_of_lt hpos, hm.mask⟩
  case releaseXrefLast hone =>
    simp only [Loc.allowed, decide_eq_true_eq] at ha
    omega
  all_goals exact ⟨hm.canceled, hm.xref, hm.mask⟩

theorem Trans.plain (h : Trans set t m l m' l') (hne : l ≠ .idle) (hl : l.Plain set mask)
    (hm : Live mask m) : l'.Plain set mask := by
  cases h
  case held h => exact (h.live hl hm).2
  case timerResume => exact plain_resumeLoc set mask m _
  case wakeupSuspended | wakeupEmpty | wakeupMissed | wakeupPush => exact plain_afterLoc set mask _
  case push | cancel | mergeData | kevent | fire | setTimer | setTimer2 | retain | releaseCall |
      suspend | resume | invoke => exact (hne rfl).elim
  all_goals first | exact hl | trivial

theorem plain_of_step [DecidableEq T] {a : Act Q} (h : step set t a m .idle = some (m', l'))
    (ha : a.allowed set) (hmask : set.dsIsAdder = false → mask = dataMask) :
    l'.Plain set mask ∧ m'.merges = m.merges ∧ m'.dsPendingData = m.dsPendingData := by
  cases a <;> simp only [step, if_true] at h
  case cancel | kevent | fire | setTimer => cases ha
  case go | found => cases h
  case mergeData val =>
    cases h
    refine ⟨⟨rfl, fun hadder ↦ ?_⟩, rfl, rfl⟩
    rw [hmask hadder]
    simp only [Act.allowed, hadder, Bool.false_or, decide_eq_true_eq] at ha
    exact setWidth_and_dataMask ha
  case setEventHandler | setCancelHandler | setTargetQueue | suspend =>
    cases h
    exact ⟨trivial, rfl, rfl⟩
  case resume =>
    split at h <;> cases h
    exact ⟨plain_resumeLoc set mask _ _, rfl, rfl⟩
  all_goals
    split at h <;> cases h
    exact ⟨trivial, rfl, rfl⟩

/-! ## The pending data as a cell -/

/-- The pending data that a thread has taken and not delivered yet. -/
def Held.inHand (m : Mem Q) : Held Q → Option (ℕ × BitVec 64)
  | .latchData prev => some (m.latchedAt, prev)
  | _ => none

/-- The pending data of the source, with `inHand` taken from it. -/
def Mem.Conserves (set : Setting T Q) (m : Mem Q) (inHand : Option (ℕ × BitVec 64)) : Prop :=
  Cell (mergeOp set.dsIsAdder) 0 m.merges m.deliveries m.dsPendingData inHand ∧
    ∀ d ∈ m.deliveries, d.2 ≠ 0

omit [DecidableEq Q] in
theorem HeldTrans.conserves {f f' : Frame Q} {p p' : Held Q} (h : HeldTrans set m f p m' f' p')
    (hp : p.cancels = false) (hlevel : set.dsIsLevel = false)
    (ha : (Loc.held f p).allowed m) (hc : m.Conserves set (p.inHand m)) :
    m'.Conserves set (p'.inHand m') := by
  cases h
  case latchXchg => exact ⟨hc.1.take, hc.2⟩
  case latchData prev hprev _ =>
    have hdata : latchedData set prev = prev := by simp [latchedData, hlevel]
    rw [hdata]
    refine ⟨hc.1.deliver, fun d hd ↦ ?_⟩
    rcases List.mem_append.mp hd with hd | hd
    · exact hc.2 d hd
    · rw [List.mem_singleton.mp hd]
      exact hprev
  case latchDrop prev hfunc =>
    obtain rfl : prev = 0 := hfunc ha
    exact ⟨hc.1.discard, hc.2⟩
  case drainItem dc =>
    have hnone : Held.inHand (dc.run m) (if f.next then .drainTake else .drainTail) = none := by
      split <;> rfl
    rw [hnone]
    cases dc <;> exact hc
  case outSuspended dc _ | outRunning dc _ | outTarget dc _ =>
    rcases drainOut_cases f dc with ho | ho <;> rw [ho] <;> exact hc
  case calloutPending => cases hp
  all_goals exact hc

omit [DecidableEq Q] in
theorem mergedData_eq {ke : Kevent} (hlevel : set.dsIsLevel = false) (hm : Live mask m)
    (hke : ke.Plain set mask) :
    mergedData set m ke = mergeOp set.dsIsAdder m.dsPendingData ke.data := by
  unfold mergedData mergeOp
  rw [hlevel, hm.mask]
  cases hadder : set.dsIsAdder with
  | true => simp
  | false => simp [hke.2 hadder]

theorem Trans.conserves (h : Trans set t m l m' l') (hbit : l.bit = 0)
    (hidle : l = .idle → m'.merges = m.merges ∧ m'.dsPendingData = m.dsPendingData)
    (hl : l.Plain set mask) (hlevel : set.dsIsLevel = false) (hm : Live mask m)
    {inHand : Option (ℕ × BitVec 64)} (hc : m.Conserves set inHand) :
    m'.Conserves set inHand ∧ m'.latchedAt = m.latchedAt := by
  cases h
  case held => cases hbit
  case fire =>
    obtain ⟨hmerges, -⟩ := hidle rfl
    simp at hmerges
  case mergePending ke ke' hactual =>
    obtain rfl : ke = ke' := by simpa [Kevent.actual, hl.1] using hactual
    refine ⟨⟨?_, hc.2⟩, rfl⟩
    rw [mergedData_eq hlevel hm hl]
    exact hc.1.merge ke.data
  all_goals exact ⟨hc, rfl⟩

end Steps

/-! ## Over whole runs -/

/-- The pending data, whoever has `dq_running`. -/
structure Delivering (set : Setting T Q) (m : Mem Q) (loc : T → Loc Q) : Prop where
  held : ∀ t f p, loc t = .held f p → m.Conserves set (p.inHand m)
  free : m.dqRunning = 0 → m.Conserves set none

section Runs

variable [DecidableEq T] [DecidableEq Q] {set : Setting T Q} {tq : Q} {mask : BitVec 64}
  {s : Pool T (Mem Q) (Loc Q)}

theorem live_of_run (h : Pool.Runs (step set) (InUse set) (created tq mask false) s)
    (hmask : set.dsIsAdder = false → mask = dataMask) :
    Live mask s.mem ∧ ∀ t, (s.loc t).Plain set mask := by
  refine h.invariant (I := fun s ↦ Live mask s.mem ∧ ∀ t, (s.loc t).Plain set mask)
    ⟨⟨rfl, Nat.one_pos, rfl⟩, fun _ ↦ trivial⟩ ?_
  rintro s t a m l - ⟨hlive, hplain⟩ ⟨ha, hal⟩ hP
  have htrans := trans_of_step hP
  refine ⟨htrans.live (hplain t) hal hlive, fun u ↦ ?_⟩
  dsimp only
  rcases eq_or_ne u t with rfl | hut
  · rw [Function.update_self]
    by_cases hidle : s.loc u = .idle
    · rw [hidle] at hP
      exact (plain_of_step hP ha hmask).1
    · exact htrans.plain hidle (hplain u) hlive
  · rw [Function.update_of_ne hut]
    exact hplain u

variable [Fintype T]

theorem Trans.delivering_held {t : T} {m m' : Mem Q} {loc : T → Loc Q} {l' : Loc Q} {f : Frame Q}
    {p : Held Q} (h : Trans set t m (.held f p) m' l') (ht : loc t = .held f p)
    (hacc : Accounts m loc) (hlevel : set.dsIsLevel = false) (hp : p.cancels = false)
    (ha : (Loc.held f p).allowed m) (hd : Delivering set m loc) :
    Delivering set m' (Function.update loc t l') := by
  have hc := hd.held t f p ht
  have hone : m.dqRunning = 1 := hacc.running_of_held ht
  constructor
  · intro u g q hu
    rcases eq_or_ne u t with rfl | hut
    · rw [Function.update_self] at hu
      cases h
      case held h =>
        cases hu
        exact h.conserves hp hlevel ha hc
      case releaseRef | releaseRefLast =>
        cases hu
        exact hc
      all_goals cases hu
    · rw [Function.update_of_ne hut] at hu
      exact (hacc.ne_held ht hut hu).elim
  · intro hzero
    cases h
    case held h => exact absurd hzero (by rw [h.counts.1, hone]; exact one_ne_zero)
    case releaseRef | releaseRefLast | releaseRefCrash =>
      exact absurd hzero (by rw [hone]; exact one_ne_zero)
    case unlock | unlockTo => exact hc

theorem Trans.delivering_free {t : T} {m m' : Mem Q} {loc : T → Loc Q} {l' : Loc Q}
    (h : Trans set t m (loc t) m' l') (hbit : (loc t).bit = 0) (hacc : Accounts m loc)
    (hidle : loc t = .idle → m'.merges = m.merges ∧ m'.dsPendingData = m.dsPendingData)
    (hl : (loc t).Plain set mask) (hlevel : set.dsIsLevel = false) (hm : Live mask m)
    (hd : Delivering set m loc) : Delivering set m' (Function.update loc t l') := by
  have hkeep : ∀ {inHand}, m.Conserves set inHand → m'.Conserves set inHand ∧
      m'.latchedAt = m.latchedAt := fun hc ↦ h.conserves hbit hidle hl hlevel hm hc
  constructor
  · intro u g q hu
    rcases eq_or_ne u t with rfl | hut
    · obtain ⟨rfl, hzero⟩ := h.held_of_free hbit (by simpa using hu)
      exact (hkeep (hd.free hzero)).1
    · rw [Function.update_of_ne hut] at hu
      obtain ⟨hc, hlatched⟩ := hkeep (hd.held u g q hu)
      have hsame : q.inHand m' = q.inHand m := by
        unfold Held.inHand
        rw [hlatched]
      rwa [hsame]
  · intro hzero
    have hrun := h.running_eq (hacc.bit_le t) fun f ht ↦ by
      rw [ht] at hbit
      cases hbit
    have hnonneg := l'.bit_nonneg
    exact (hkeep (hd.free (by omega))).1

theorem delivering_of_run (h : Pool.Runs (step set) (InUse set) (created tq mask false) s)
    (hlevel : set.dsIsLevel = false) (hmask : set.dsIsAdder = false → mask = dataMask) :
    Delivering set s.mem s.loc := by
  refine h.invariant (I := fun s ↦ Delivering set s.mem s.loc) ⟨nofun, fun _ ↦ ?_⟩ ?_
  · exact ⟨cell_empty, nofun⟩
  · rintro s t a m l hr hd ⟨ha, hal⟩ hP
    have htrans := trans_of_step hP
    have hacc := accounts_of_run hr
    obtain ⟨hlive, hplain⟩ := live_of_run hr hmask
    rcases eq_or_ne (s.loc t).bit 0 with hbit | hbit
    · refine htrans.delivering_free hbit hacc (fun hidle ↦ ?_) (hplain t) hlevel hlive hd
      rw [hidle] at hP
      exact (plain_of_step hP ha hmask).2
    · obtain ⟨f, p, ht⟩ := Loc.eq_held_of_bit hbit
      have hp := hplain t
      rw [ht] at htrans hp hal
      exact htrans.delivering_held ht hacc hlevel hp hal hd

/-- The setting of a `DISPATCH_SOURCE_TYPE_DATA_ADD` or `DISPATCH_SOURCE_TYPE_DATA_OR`
source. -/
def dataSetting (mgr : T) (mgrQ : Q) (adder : Bool) : Setting T Q := ⟨mgr, mgrQ, false, adder⟩

def dataCreated (tq : Q) (adder : Bool) : Pool T (Mem Q) (Loc Q) :=
  created tq (if adder then 0 else dataMask) false

omit [DecidableEq T] [DecidableEq Q] in
theorem Delivering.cases {m : Mem Q} {loc : T → Loc Q} (hd : Delivering set m loc)
    (hacc : Accounts m loc) :
    (∃ t f prev, loc t = .held f (.latchData prev) ∧ m.Conserves set (some (m.latchedAt, prev))) ∨
      ((∀ t f prev, loc t ≠ .held f (.latchData prev)) ∧ m.Conserves set none) := by
  rcases Nat.eq_zero_or_pos m.dqRunning with hzero | hpos
  · refine .inr ⟨fun t f prev ht ↦ ?_, hd.free hzero⟩
    rw [hacc.running_of_held ht] at hzero
    cases hzero
  · obtain ⟨t, f, p, ht⟩ := hacc.exists_held hpos
    have hc := hd.held t f p ht
    by_cases hp : ∃ prev, p = .latchData prev
    · obtain ⟨prev, rfl⟩ := hp
      exact .inl ⟨t, f, prev, ht, hc⟩
    · have hnone : p.inHand m = none := by
        unfold Held.inHand
        split
        · exact (hp ⟨_, rfl⟩).elim
        · rfl
      rw [hnone] at hc
      refine .inr ⟨fun u g prev hu ↦ ?_, hc⟩
      rcases eq_or_ne u t with rfl | hut
      · exact hp ⟨prev, (Loc.held.inj (ht.symm.trans hu)).2⟩
      · exact hacc.ne_held ht hut hu

/-- What the calls of the event handler have seen, what a thread has taken and is about to
deliver and the pending data make up all that has been merged; the handler does not see zero;
each call sees what has been merged since the exchange of the call before; and at rest a
resumed source on no list has no pending data. -/
theorem data_conserved (mgr : T) (mgrQ : Q) (adder : Bool)
    (h : Pool.Runs (step (dataSetting mgr mgrQ adder)) (InUse (dataSetting mgr mgrQ adder))
      (dataCreated tq adder) s) :
    ((∀ t f prev, s.loc t ≠ .held f (.latchData prev)) →
      mergeOp adder ((s.mem.deliveries.map Prod.snd).foldr (mergeOp adder) 0)
        s.mem.dsPendingData = s.mem.merges.foldr (mergeOp adder) 0) ∧
    (∀ t f prev, s.loc t = .held f (.latchData prev) →
      mergeOp adder ((s.mem.deliveries.map Prod.snd).foldr (mergeOp adder) 0)
        (mergeOp adder prev s.mem.dsPendingData) = s.mem.merges.foldr (mergeOp adder) 0) ∧
    (∀ d ∈ s.mem.deliveries, d.2 ≠ 0) ∧
    (∀ ds k data ds', s.mem.deliveries = ds ++ (k, data) :: ds' →
      data = ((s.mem.merges.take k).drop (lastCut 0 ds)).foldr (mergeOp adder) 0) ∧
    (AtRest s → s.mem.doSuspendCnt < 2 → s.mem.linked = [] → s.mem.dsPendingData = 0) := by
  have hacc := accounts_of_run h
  have hmask : (dataSetting mgr mgrQ adder).dsIsAdder = false →
      (if adder then 0 else dataMask) = dataMask := fun hadder ↦ by
    simp only [dataSetting] at hadder
    simp [hadder]
  have hlive := (live_of_run h hmask).1
  have hcases := (delivering_of_run h rfl hmask).cases hacc
  have hc : ∃ inHand, s.mem.Conserves (dataSetting mgr mgrQ adder) inHand := by
    rcases hcases with ⟨t, f, prev, -, hc⟩ | ⟨-, hc⟩
    · exact ⟨_, hc⟩
    · exact ⟨_, hc⟩
  obtain ⟨inHand, hcell, hnonzero⟩ := hc
  refine ⟨fun hnone ↦ ?_, fun t f prev ht ↦ ?_, hnonzero, ?_, fun hrest hcnt hlinked ↦ ?_⟩
  · rcases hcases with ⟨t, f, prev, ht, -⟩ | ⟨-, hc⟩
    · exact (hnone t f prev ht).elim
    · have htotal := hc.1.total
      rwa [show mergeOp _ (Option.elim none 0 Prod.snd) _ = _ from
        Std.LawfulLeftIdentity.left_id s.mem.dsPendingData] at htotal
  · rcases hcases with ⟨u, g, prev', hu, hc⟩ | ⟨hnone, -⟩
    · rcases eq_or_ne u t with rfl | hut
      · cases ht.symm.trans hu
        exact hc.1.total
      · exact (hacc.ne_held ht hut hu).elim
    · exact (hnone t f prev ht).elim
  · intro ds k data ds' hds
    have hbatched := hcell.batched
    rw [hds] at hbatched
    exact hbatched.eq_of_append
  · by_contra hpending
    have hdisarms := h.imp (D := DisarmsInTime) fun s t a hr _ _ hneeds ↦ by
      cases (dsNeedsRearm_of_run hr).symm.trans hneeds
    obtain ⟨-, hlist, -⟩ := linked_of_atRest hdisarms hrest (hlive.work hpending) hcnt
    rw [hlinked] at hlist
    rcases hlist with hlist | hlist <;> cases hlist

end Runs

/-- Thread 0 installs an event handler, resumes the source, merges 5 and is the worker of its
target queue; thread 1 is the manager. -/
def mergeTrace : List (Fin 2 × Act (Fin 2)) :=
  [(0, Act.setEventHandler true false)] ++ steps 0 5 ++ [(0, Act.resume)] ++ steps 0 6 ++
    [(0, Act.invoke 0)] ++ steps 0 16 ++ [(1, Act.invoke 1)] ++ steps 1 21 ++
      [(0, Act.mergeData 5)] ++
    steps 0 14 ++ [(0, Act.invoke 0)]

def deliveredState : Pool (Fin 2) (Mem (Fin 2)) (Loc (Fin 2)) :=
  ((dataCreated 0 true).run (step (dataSetting 1 1 true)) (InUse (dataSetting 1 1 true))
    (mergeTrace ++ steps 0 27)).get (by decide)

theorem data_conserved_once :
    deliveredState.mem.deliveries = [(1, 5)] ∧ deliveredState.mem.merges = [5] ∧
      deliveredState.mem.dsPendingData = 0 := by
  have hrun : Pool.Runs (step (dataSetting 1 1 true)) (InUse (dataSetting 1 1 true))
      (dataCreated 0 true) deliveredState := Pool.runs_get _
  have hrest : ∀ t, deliveredState.loc t = .idle := by decide
  exact ⟨by decide, by decide,
    (data_conserved 1 1 true hrun).2.2.2.2 hrest (by decide) (by decide)⟩

/-- The worker has taken the pending data and not called the event handler yet. -/
theorem not_delivered_in_hand :
    ∃ s : Pool (Fin 2) (Mem (Fin 2)) (Loc (Fin 2)),
      Pool.Runs (step (dataSetting 1 1 true)) (InUse (dataSetting 1 1 true))
        (dataCreated 0 true) s ∧ s.mem.dsHandlerFunc = true ∧
        (s.mem.deliveries.map Prod.snd).sum + s.mem.dsPendingData ≠ s.mem.merges.sum :=
  ⟨((dataCreated 0 true).run (step (dataSetting 1 1 true)) (InUse (dataSetting 1 1 true))
    (mergeTrace ++ steps 0 13)).get (by decide), Pool.runs_get _, by decide, by decide⟩

end LibDispatch.Source
