import LibDispatch.Source.Data
import LibDispatch.Source.Settle

/-!
# Merging data into a source

`dispatch_source_merge_data` asserts first that the source is one for data, and for that
reads the filter through `ds_dkev`.  A source is created with a kernel event of its own.
When it is registered, that one is freed and `ds_dkev` is set to the one that all sources
of its type share, which is never freed; when it is unregistered, `ds_dkev` is cleared.
The steps of the source are taken over.  The loads of `ds_dkev`, the reads through it and
the two steps of the exchange are added.
-/

namespace LibDispatch.Source

open Interleaving

/-- The kernel event that a data source is created with, or the shared one. -/
inductive Dkev
  | own
  | shared
  deriving DecidableEq

/-- The pointer `ds_dkev`, and whether the source's own kernel event has been freed. -/
structure Kevents where
  dsDkev : Option Dkev
  freed : Bool
  deriving DecidableEq

inductive MergeCrash
  | nullDkev
  | freedDkev
  | assertion
  deriving DecidableEq

/-- Where a thread stands: inside a function of the source, before one of the two loads of
`ds_dkev` in the assertion, before the read through the loaded pointer, or in
`_dispatch_kevent_merge` before the own kernel event is freed and before `ds_dkev` is
stored.  From the last two the thread goes on at `l`. -/
inductive Place (Q : Type*)
  | inside (l : Loc Q)
  | load (second : Bool) (val : BitVec 64)
  | read (second : Bool) (p : Option Dkev) (val : BitVec 64)
  | free (l : Loc Q)
  | store (l : Loc Q)
  | crash (why : MergeCrash)
  deriving DecidableEq

variable {T Q : Type*}

/-- The comparison `val <= INT_MAX`. -/
def fitsInt (val : BitVec 64) : Bool := val.toNat ≤ intMax

/-- The event that is merged when the assertion has held. -/
def dataKevent (val : BitVec 64) : Kevent := ⟨false, false, val, val.setWidth 32⟩

/-- A read through a loaded `ds_dkev`.  Its filter is `DISPATCH_EVFILT_CUSTOM_ADD` for a
source that adds; the second read is made when it is not, and compares it with
`DISPATCH_EVFILT_CUSTOM_OR`. -/
def readFilter (set : Setting T Q) (k : Kevents) (second : Bool) (val : BitVec 64) :
    Option Dkev → Place Q
  | none => .crash .nullDkev
  | some p =>
      if p = .own ∧ k.freed then .crash .freedDkev
      else if second then
        if !set.dsIsAdder && fitsInt val then .inside (.mergeFlags (dataKevent val))
        else .crash .assertion
      else if set.dsIsAdder then .inside (.mergeFlags (dataKevent val))
      else .load true val

/-- The step of `_dispatch_kevent_merge` after which the kernel event is exchanged. -/
def registers : Loc Q → Loc Q → Bool
  | .held _ (.merge .isInstalled), .held _ (.merge .insert) => true
  | .timerMerge .isInstalled, .timerMerge .insert => true
  | _, _ => false

/-- The step of `_dispatch_kevent_release` that clears `ds_dkev`. -/
def unregisters : Loc Q → Bool
  | .held _ .releaseDkev => true
  | _ => false

variable [DecidableEq T] [DecidableEq Q]

/-- A step of the source, with what it does to `ds_dkev`. -/
def insideStep (set : Setting T Q) (t : T) (a : Act Q) (m : Mem Q) (k : Kevents) (l : Loc Q) :
    Option ((Mem Q × Kevents) × Place Q) :=
  (step set t a m l).map fun r ↦
    ((r.1, if unregisters l then { k with dsDkev := none } else k),
      if registers l r.2 then .free r.2 else .inside r.2)

/-- One step of a thread that uses a data source.  `dispatch_source_merge_data` is called
by a thread that has a reference, with a value that is admissible for the source. -/
def dataStep (set : Setting T Q) : Program T (Act Q) (Mem Q × Kevents) (Place Q) :=
  fun t a m l ↦
    match l, a with
    | .inside l, .mergeData val =>
        if l = .idle ∧ 0 < m.1.doXrefCnt ∧ (set.dsIsAdder || fitsInt val) then
          some (m, .load false val)
        else none
    | .inside l, a => insideStep set t a m.1 m.2 l
    | .load second val, .go => some (m, .read second m.2.dsDkev val)
    | .read second p val, .go => some (m, readFilter set m.2 second val p)
    | .free l, .go => some ((m.1, { m.2 with freed := true }), .store l)
    | .store l, .go => some ((m.1, { m.2 with dsDkev := some .shared }), .inside l)
    | _, _ => none

def mergeCreated (tq : Q) (adder : Bool) : Pool T (Mem Q × Kevents) (Place Q) where
  mem := ((dataCreated (T := T) tq adder).mem, ⟨some .own, false⟩)
  loc := fun _ ↦ .inside .idle

/-- The pointer `ds_dkev` can be read through. -/
def Kevents.live (k : Kevents) : Bool :=
  match k.dsDkev with
  | none => false
  | some .own => !k.freed
  | some .shared => true

/-- The thread evaluates the assertion. -/
def Place.asserts : Place Q → Bool
  | .load .. | .read .. => true
  | _ => false

/-- The thread exchanges `ds_dkev` in `_dispatch_kevent_merge`, or has cleared it in
`_dispatch_kevent_release` and not yet taken the source off `dk_sources`. -/
def Place.exchanges : Place Q → Bool
  | .free _ | .store _ | .inside (.held _ .releaseRemove) => true
  | _ => false

/-- The thread is going to begin with that. -/
def Place.toExchange : Place Q → Bool
  | .inside (.held _ (.merge .isInstalled)) | .inside (.timerMerge .isInstalled)
  | .inside (.held _ .releaseDkev) => true
  | _ => false

def Act.mergesData : Act Q → Bool
  | .mergeData _ => true
  | _ => false

/-- `dispatch_source_merge_data` is called while the source is on `dk_sources` or has not been
installed yet, and its assertion does not overlap with the exchange of the kernel event in
`_dispatch_kevent_merge` or with `_dispatch_kevent_release`. -/
def Apart (s : Pool T (Mem Q × Kevents) (Place Q)) (t : T) (a : Act Q) : Prop :=
  (a.mergesData → (s.mem.1.dkSources ∨ s.mem.1.dsIsInstalled = false) ∧
      ∀ u, (s.loc u).exchanges = false) ∧
    ((s.loc t).toExchange → ∀ u, (s.loc u).asserts = false)

/-! ## How far a call has to go -/

@[simp] def Probe.toGo : Probe → ℕ
  | .isInstalled => 12
  | .flags => 11
  | .xref => 10
  | .dkev | .pendingData => 9
  | .cancelHandler | .needsRearm => 8
  | .isArmed => 7

@[simp] def Wake.toGo : Wake Q → ℕ
  | .suspended => 13
  | .probe p => p.toGo
  | .tail => 6
  | .lock => 5
  | .retain => 4
  | .target => 3
  | .push _ => 2

/-- The steps that a thread in `_dispatch_source_merge_kevent` has to take at most. -/
@[simp] def Loc.toGo : Loc Q → ℕ
  | .mergeFlags _ => 18
  | .mergeXref _ => 17
  | .mergePending _ => 16
  | .mergeRearm => 15
  | .mergeDisarm => 14
  | .wakeup w .return => w.toGo
  | _ => 0

/-- The same for `dispatch_source_merge_data`. -/
@[simp] def Place.toGo : Place Q → ℕ
  | .inside l => l.toGo
  | .load false _ => 22
  | .read false _ _ => 21
  | .load true _ => 20
  | .read true _ _ => 19
  | .free _ | .store _ | .crash _ => 0

/-- A call that has not yet tested whether the source has been cancelled. -/
def Place.Untested : Place Q → Prop
  | .load _ _ | .read _ _ _ | .inside (.mergeFlags _) => True
  | _ => False

omit [DecidableEq T] [DecidableEq Q] in
theorem probe_toGo {m : Mem Q} {p p' : Probe} (h : dispatchSourceProbe m p = .inl p') :
    p'.toGo < p.toGo := by
  unfold dispatchSourceProbe at h
  split at h
  case h_2 | h_3 =>
    cases h
    split <;> decide
  case h_5 | h_8 => cases h
  all_goals
    split at h
    all_goals cases h
    decide

def Nearer (l l' : Place Q) : Prop := l'.toGo < l.toGo ∧ (0 < l'.toGo ∨ l' = .inside .idle)

omit [DecidableEq T] [DecidableEq Q] in
theorem nearer_wakeup (m : Mem Q) (w : Wake Q) :
    Nearer (.inside (.wakeup w .return)) (.inside (dispatchWakeup m .return w).2) := by
  have hprobe (p : Probe) : 6 < p.toGo := by cases p <;> decide
  unfold dispatchWakeup
  cases w with
  | suspended =>
      dsimp only
      split <;> simp [Nearer, After.loc]
  | probe p =>
      dsimp only
      split
      case h_1 p' hp =>
        have hpos := hprobe p'
        exact ⟨probe_toGo hp, .inl (Nat.zero_lt_of_lt hpos)⟩
      case h_2 =>
        have hpos := hprobe p
        simp only [Nearer, Place.toGo, Loc.toGo, Wake.toGo]
        omega
      case h_3 => exact ⟨hprobe p, .inl (by simp)⟩
  | tail =>
      dsimp only
      split <;> simp [Nearer, After.loc]
  | lock =>
      dsimp only
      split <;> simp [Nearer, After.loc]
  | retain => simp [Nearer]
  | target => simp [Nearer]
  | push tq => simp [Nearer, After.loc]

omit [DecidableEq T] in
/-- A thread in `_dispatch_source_merge_kevent` can take its next step, which is one
towards the end. -/
theorem go_nearer (set : Setting T Q) (m : Mem Q) {l : Loc Q} (h : 0 < l.toGo) :
    ∃ m' l', go set m false l = some (m', l') ∧ Nearer (.inside l) (.inside l') := by
  cases l
  case wakeup w k =>
    cases k
    case «return» => exact ⟨_, _, rfl, nearer_wakeup m w⟩
    all_goals cases h
  case mergeFlags ke =>
    refine ⟨m, if m.dsCanceled then .idle else .mergeXref ke, rfl, ?_⟩
    split <;> simp [Nearer]
  case mergeXref ke =>
    refine ⟨m, if m.doXrefCnt = 0 then .idle else .mergePending ke, rfl, ?_⟩
    split <;> simp [Nearer]
  case mergePending ke =>
    cases hke : ke.actual with
    | none =>
        refine ⟨m, .idle, ?_, by simp [Nearer]⟩
        simp [go, dispatchQueuePush, dispatchSourceXrefRelease, dispatchSourceCancel,
          dispatchSourceMergeKevent, hke]
    | some ke' =>
        refine ⟨{ m with dsPendingData := mergedData set m ke', merges := m.merges ++ [ke'.data] },
          .mergeRearm, ?_, by simp [Nearer]⟩
        simp [go, dispatchQueuePush, dispatchSourceXrefRelease, dispatchSourceCancel,
          dispatchSourceMergeKevent, hke]
  case mergeRearm =>
    refine ⟨m, if m.dsNeedsRearm then .mergeDisarm else .wakeup .suspended .return, rfl, ?_⟩
    split <;> simp [Nearer]
  case mergeDisarm => exact ⟨_, _, rfl, by simp [Nearer]⟩
  all_goals cases h

/-! ## What one step can do -/

inductive DataTrans (set : Setting T Q) (t : T) (a : Act Q) (m : Mem Q × Kevents) :
    Place Q → Mem Q × Kevents → Place Q → Prop
  | call {val : BitVec 64} : a = .mergeData val → set.dsIsAdder ∨ fitsInt val →
      DataTrans set t a m (.inside .idle) m (.load false val)
  | inside {l l' : Loc Q} {m' : Mem Q} : step set t a m.1 l = some (m', l') →
      DataTrans set t a m (.inside l)
        (m', if unregisters l then { m.2 with dsDkev := none } else m.2)
        (if registers l l' then .free l' else .inside l')
  | load {second : Bool} {val : BitVec 64} :
      DataTrans set t a m (.load second val) m (.read second m.2.dsDkev val)
  | read {second : Bool} {p : Option Dkev} {val : BitVec 64} :
      DataTrans set t a m (.read second p val) m (readFilter set m.2 second val p)
  | free {l : Loc Q} : DataTrans set t a m (.free l) (m.1, { m.2 with freed := true }) (.store l)
  | store {l : Loc Q} :
      DataTrans set t a m (.store l) (m.1, { m.2 with dsDkev := some .shared }) (.inside l)

/-- The assertion is evaluated for an admissible value, and the loaded pointer is good. -/
def Place.Safe (set : Setting T Q) (k : Kevents) : Place Q → Prop
  | .load second val => (second → set.dsIsAdder = false) ∧ (set.dsIsAdder ∨ fitsInt val)
  | .read second p val =>
      (second → set.dsIsAdder = false) ∧ (set.dsIsAdder ∨ fitsInt val) ∧
        (p = some .shared ∨ p = some .own ∧ k.freed = false)
  | .crash _ => False
  | .inside _ | .free _ | .store _ => True

section Steps

variable {set : Setting T Q} {t : T} {a : Act Q} {m m' : Mem Q × Kevents} {l l' : Place Q}

theorem dataTrans_of_step (h : dataStep set t a m l = some (m', l')) :
    DataTrans set t a m l m' l' := by
  unfold dataStep at h
  split at h
  case h_1 l val =>
    split at h
    case isFalse => cases h
    case isTrue hcall =>
      cases h
      rw [hcall.1]
      exact .call rfl (by simpa using hcall.2.2)
  case h_2 l a _ =>
    obtain ⟨⟨m₁, l₁⟩, hstep, heq⟩ := Option.map_eq_some_iff.mp h
    cases heq
    exact .inside hstep
  case h_3 =>
    cases h
    exact .load
  case h_4 =>
    cases h
    exact .read
  case h_5 =>
    cases h
    exact .free
  case h_6 =>
    cases h
    exact .store
  case h_7 => cases h

omit [DecidableEq T] in
theorem Trans.dsDkev_eq {m m' : Mem Q} {l l' : Loc Q} (h : Trans set t m l m' l')
    (hl : ∀ f, l ≠ .held f .releaseDkev) : m'.dsDkev = m.dsDkev := by
  cases h
  case held f _ p _ h => exact h.dsDkev_eq fun hp ↦ hl f (by rw [hp])
  all_goals rfl

omit [DecidableEq T] [DecidableEq Q] in
theorem HeldTrans.releaseDkev_of {m m' : Mem Q} {f f' : Frame Q} {p p' : Held Q}
    (h : HeldTrans set m f p m' f' p') (hp' : p' = .releaseRemove) : p = .releaseDkev := by
  cases h
  case releaseDkev => rfl
  case drainItem => split at hp' <;> cases hp'
  case outSuspended dc _ | outRunning dc _ | outTarget dc _ =>
    rcases drainOut_cases f dc with ho | ho <;> cases ho.symm.trans hp'
  all_goals cases hp'

omit [DecidableEq T] in
theorem Trans.releaseDkev_of {m m' : Mem Q} {l l' : Loc Q} (h : Trans set t m l m' l')
    {f : Frame Q} (hl' : l' = .held f .releaseRemove) : ∃ f, l = .held f .releaseDkev := by
  cases h
  case held f _ p _ h =>
    cases hl'
    exact ⟨f, by rw [h.releaseDkev_of rfl]⟩
  case resume | timerResume =>
    rcases resumeLoc_eq m _ with h | h | h <;> rw [h] at hl' <;> cases hl'
  case wakeupSuspended k _ | wakeupEmpty k _ | wakeupMissed k _ | wakeupPush k =>
    cases k <;> cases hl'
  all_goals cases hl'

omit [DecidableEq T] [DecidableEq Q] in
theorem registers_eq_false {l : Loc Q} (l' : Loc Q)
    (h : (Place.inside l).toExchange = false) :
    registers l l' = false ∧ unregisters l = false := by
  unfold registers unregisters
  constructor
  · split
    · cases h
    · cases h
    · rfl
  · split
    · cases h
    · rfl

omit [DecidableEq T] [DecidableEq Q] in
theorem Place.Safe.mono {k k' : Kevents} (h : l.Safe set k)
    (hk : l.asserts = false ∨ k'.freed = k.freed) : l.Safe set k' := by
  cases l with
  | read second p val =>
      obtain ⟨hsecond, hval, hp⟩ := h
      refine ⟨hsecond, hval, hp.imp_right fun hown ↦ ⟨hown.1, ?_⟩⟩
      rcases hk with hk | hk
      · cases hk
      · rw [hk, hown.2]
  | _ => exact h

omit [DecidableEq T] [DecidableEq Q] in
theorem safe_readFilter {k : Kevents} {second : Bool} {p : Option Dkev} {val : BitVec 64}
    (h : (Place.read second p val : Place Q).Safe set k) :
    readFilter set k second val p = .inside (.mergeFlags (dataKevent val)) ∨
      second = false ∧ readFilter set k second val p = .load true val ∧
        set.dsIsAdder = false ∧ fitsInt val := by
  obtain ⟨hsecond, hval, hp⟩ := h
  obtain ⟨q, rfl, hgood⟩ : ∃ q, p = some q ∧ ¬ (q = .own ∧ k.freed = true) := by
    rcases hp with rfl | ⟨rfl, hfreed⟩
    · exact ⟨.shared, rfl, nofun⟩
    · exact ⟨.own, rfl, fun h ↦ by simp [hfreed] at h⟩
  unfold readFilter
  dsimp only
  rw [if_neg hgood]
  cases second with
  | true =>
      have hadder := hsecond rfl
      have hfits : fitsInt val = true := hval.resolve_left (by simp [hadder])
      exact .inl (by simp [hadder, hfits])
  | false =>
      cases hadder : set.dsIsAdder with
      | true => exact .inl (by simp)
      | false => exact .inr ⟨rfl, by simp, rfl, hval.resolve_left (by simp [hadder])⟩

theorem insideStep_of_toGo (k : Kevents) {m₀ m₁ : Mem Q} {l₀ l₁ : Loc Q} (h : 0 < l₀.toGo)
    (hstep : step set t a m₀ l₀ = some (m₁, l₁)) :
    insideStep set t a m₀ k l₀ = some ((m₁, k), .inside l₁) := by
  have hleaves : registers l₀ l₁ = false ∧ unregisters l₀ = false := by
    cases l₀
    case held | timerMerge => cases h
    all_goals exact ⟨rfl, rfl⟩
  simp [insideStep, hstep, hleaves]

theorem untested_step (hstep : dataStep set t a m l = some (m', l')) (hl : l.Safe set m.2)
    (hcanceled : m.1.dsCanceled) (huntested : l.Untested) :
    m' = m ∧ (l'.Untested ∨ l' = .inside .idle) := by
  cases l with
  | load second val =>
      cases a <;> cases hstep
      exact ⟨rfl, .inl trivial⟩
  | read second p val =>
      cases a <;> cases hstep
      rcases safe_readFilter hl with hread | ⟨-, hread, -⟩
      · rw [hread]
        exact ⟨rfl, .inl trivial⟩
      · rw [hread]
        exact ⟨rfl, .inl trivial⟩
  | inside l₀ =>
      cases l₀
      case mergeFlags ke =>
        have hgo (found : Bool) : go set m.1 found (.mergeFlags ke) = some (m.1, .idle) := by
          have hflags : go set m.1 found (.mergeFlags ke) =
            some (m.1, if m.1.dsCanceled then .idle else .mergeXref ke) := rfl
          rw [hflags, if_pos hcanceled]
        cases a
        case go | found =>
          cases hstep.symm.trans (insideStep_of_toGo m.2 (by simp) (hgo _))
          exact ⟨rfl, .inr rfl⟩
        all_goals simp [dataStep, insideStep, step] at hstep
      all_goals cases huntested
  | _ => cases huntested

theorem nearer_step (hl : l.Safe set m.2) (h : 0 < l.toGo) :
    ∃ r, dataStep set t .go m l = some r ∧ Nearer l r.2 := by
  cases l with
  | load second val =>
      refine ⟨_, rfl, ?_⟩
      cases second <;> simp [Nearer]
  | read second p val =>
      refine ⟨_, rfl, ?_⟩
      dsimp only
      rcases safe_readFilter hl with hread | ⟨rfl, hread, -⟩
      · rw [hread]
        cases second <;> simp [Nearer]
      · rw [hread]
        simp [Nearer]
  | inside l₀ =>
      obtain ⟨m₁, l₁, hgo, hnear⟩ := go_nearer set m.1 h
      exact ⟨((m₁, m.2), .inside l₁), insideStep_of_toGo m.2 h hgo, hnear⟩
  | _ => cases h

omit [DecidableEq T] in
theorem Trans.dsCanceled_of {m₀ m₁ : Mem Q} {l₀ l₁ : Loc Q} (h : Trans set t m₀ l₀ m₁ l₁)
    (hcanceled : m₀.dsCanceled) : m₁.dsCanceled := by
  cases h
  case held h => rwa [h.keeps.2.1]
  case cancelFlag => rfl
  all_goals exact hcanceled

theorem canceled_step (hstep : dataStep set t a m l = some (m', l'))
    (hcanceled : m.1.dsCanceled) : m'.1.dsCanceled := by
  cases dataTrans_of_step hstep
  case inside hin => exact (trans_of_step hin).dsCanceled_of hcanceled
  all_goals exact hcanceled

end Steps

/-! ## Calls apart from the exchange -/

/-- Where the thread stands in the functions of the source. -/
def Place.loc : Place Q → Loc Q
  | .inside l | .free l | .store l => l
  | .load _ val | .read _ _ val => .mergeDkev (dataKevent val)
  | .crash _ => .idle

/-- While an assertion is evaluated, `ds_dkev` is not exchanged, and a kernel event that has been
freed is about to be replaced. -/
structure Guarded (set : Setting T Q) (s : Pool T (Mem Q × Kevents) (Place Q)) : Prop where
  dkev : s.mem.1.dsDkev → s.mem.2.dsDkev ≠ none
  freed : s.mem.2.freed → s.mem.2.dsDkev = some .own → ∃ u l, s.loc u = .store l
  safe : ∀ u, (s.loc u).Safe set s.mem.2
  asserts : ∀ u, (s.loc u).asserts → s.mem.1.dsDkev ∧ ∀ v, (s.loc v).exchanges = false

section Runs

variable {set : Setting T Q} {t : T} {a : Act Q} {m : Mem Q × Kevents} {l : Place Q}
  {s : Pool T (Mem Q × Kevents) (Place Q)}

omit [DecidableEq Q] in
theorem Guarded.exists_store (hg : Guarded set s) (hfreed : s.mem.2.freed)
    (hown : s.mem.2.dsDkev = some .own) (ht : ∀ l, s.loc t ≠ .store l) :
    ∃ u l', Function.update s.loc t l u = .store l' := by
  obtain ⟨u, l', hu⟩ := hg.freed hfreed hown
  have hut : u ≠ t := by
    rintro rfl
    exact ht l' hu
  exact ⟨u, l', by rw [Function.update_of_ne hut, hu]⟩

omit [DecidableEq Q] in
theorem Guarded.safe_update (hg : Guarded set s) {k : Kevents} (hl : l.Safe set k)
    (hk : (∀ u, (s.loc u).asserts = false) ∨ k.freed = s.mem.2.freed) (u : T) :
    (Function.update s.loc t l u).Safe set k := by
  rcases eq_or_ne u t with rfl | hu
  · rwa [Function.update_self]
  · rw [Function.update_of_ne hu]
    exact (hg.safe u).mono (hk.imp_left fun hnone ↦ hnone u)

omit [DecidableEq Q] in
theorem asserts_update_of_none (hnone : ∀ u, (s.loc u).asserts = false) (hl : l.asserts = false)
    (u : T) : (Function.update s.loc t l u).asserts = false := by
  rcases eq_or_ne u t with rfl | hu
  · rwa [Function.update_self]
  · rw [Function.update_of_ne hu]
    exact hnone u

omit [DecidableEq Q] in
theorem exchanges_update (hnone : ∀ u, (s.loc u).exchanges = false) (hl : l.exchanges = false)
    (u : T) : (Function.update s.loc t l u).exchanges = false := by
  rcases eq_or_ne u t with rfl | hu
  · rwa [Function.update_self]
  · rw [Function.update_of_ne hu]
    exact hnone u

omit [DecidableEq T] [DecidableEq Q] in
theorem Guarded.none_asserts (hg : Guarded set s) (ht : (s.loc t).exchanges) (u : T) :
    (s.loc u).asserts = false := by
  by_contra hu
  have hnot := (hg.asserts u (Bool.eq_true_of_not_eq_false hu)).2 t
  rw [ht] at hnot
  cases hnot

omit [DecidableEq Q] in
theorem Guarded.asserts_update (hg : Guarded set s) (hdkev : m.1.dsDkev = s.mem.1.dsDkev)
    (hl : l.exchanges = false)
    (hself : l.asserts → s.mem.1.dsDkev ∧ ∀ v, (s.loc v).exchanges = false) (u : T)
    (hu : (Function.update s.loc t l u).asserts) :
    m.1.dsDkev ∧ ∀ v, (Function.update s.loc t l v).exchanges = false := by
  have hnone : s.mem.1.dsDkev ∧ ∀ v, (s.loc v).exchanges = false := by
    rcases eq_or_ne u t with rfl | hut
    · rw [Function.update_self] at hu
      exact hself hu
    · rw [Function.update_of_ne hut] at hu
      exact hg.asserts u hu
  exact ⟨hdkev ▸ hnone.1, exchanges_update hnone.2 hl⟩

theorem Guarded.inside {l₀ l₁ : Loc Q} {m₁ : Mem Q} (hg : Guarded set s)
    (ht : s.loc t = .inside l₀) (h : Trans set t s.mem.1 l₀ m₁ l₁)
    (hC : (Place.inside l₀).toExchange → ∀ u, (s.loc u).asserts = false) :
    Guarded set ⟨(m₁, if unregisters l₀ then { s.mem.2 with dsDkev := none } else s.mem.2),
      Function.update s.loc t (if registers l₀ l₁ then .free l₁ else .inside l₁)⟩ := by
  have hstore : ∀ l, s.loc t ≠ .store l := fun l hl ↦ by cases ht.symm.trans hl
  have hnot : (if registers l₀ l₁ then Place.free l₁ else .inside l₁).asserts = false := by
    split <;> rfl
  have hsafe (k : Kevents) :
      (if registers l₀ l₁ then Place.free l₁ else .inside l₁).Safe set k := by
    split <;> trivial
  refine ⟨fun hd ↦ ?_, fun hfreed hown ↦ ?_, hg.safe_update (hsafe _) (.inr ?_), ?_⟩
  · dsimp only at hd ⊢
    split
    case isTrue hun =>
      cases l₀ <;> try cases hun
      rename_i f p
      cases p <;> cases hun
      cases h
      case held h =>
        cases h
        cases hd
    case isFalse hun =>
      rw [h.dsDkev_eq fun f hl ↦ hun (by rw [hl]; rfl)] at hd
      exact hg.dkev hd
  · dsimp only at hfreed hown
    split at hown
    · cases hown
    · rename_i hun
      rw [if_neg hun] at hfreed
      exact hg.exists_store hfreed hown hstore
  · dsimp only
    split <;> rfl
  · cases hex : (Place.inside l₀).toExchange with
    | true =>
        intro u hu
        rw [asserts_update_of_none (hC hex) hnot u] at hu
        cases hu
    | false =>
        obtain ⟨hreg, hun⟩ := registers_eq_false l₁ hex
        have hkeep : ∀ f, l₀ ≠ .held f .releaseDkev := by
          rintro f rfl
          cases hex
        rw [hreg, hun]
        refine hg.asserts_update (h.dsDkev_eq hkeep) ?_ nofun
        by_contra hremove
        cases l₁ <;> try exact hremove rfl
        rename_i f p
        cases p <;> try exact hremove rfl
        obtain ⟨g, hg⟩ := h.releaseDkev_of rfl
        exact hkeep g hg

theorem Guarded.step (hg : Guarded set s) (hC : Apart s t a)
    (hdkev : a.mergesData → s.mem.1.dsDkev) (h : DataTrans set t a s.mem (s.loc t) m l) :
    Guarded set ⟨m, Function.update s.loc t l⟩ := by
  generalize ht : s.loc t = l₀ at h
  cases h
  case call val ha hval =>
    have hmerges : a.mergesData := by
      rw [ha]
      rfl
    have hstore : ∀ l, s.loc t ≠ .store l := fun l hl ↦ by cases ht.symm.trans hl
    exact ⟨hg.dkev, fun hfreed hown ↦ hg.exists_store hfreed hown hstore,
      hg.safe_update ⟨nofun, hval⟩ (.inr rfl),
      hg.asserts_update rfl rfl fun _ ↦ ⟨hdkev hmerges, (hC.1 hmerges).2⟩⟩
  case inside hstep => exact hg.inside ht (trans_of_step hstep) (ht ▸ hC.2)
  case load second val =>
    have hstore : ∀ l, s.loc t ≠ .store l := fun l hl ↦ by cases ht.symm.trans hl
    obtain ⟨hd, hnone⟩ := hg.asserts t (by rw [ht]; rfl)
    have hsafe := hg.safe t
    rw [ht] at hsafe
    refine ⟨hg.dkev, fun hfreed hown ↦ hg.exists_store hfreed hown hstore,
      hg.safe_update ⟨hsafe.1, hsafe.2, ?_⟩ (.inr rfl),
      hg.asserts_update rfl rfl fun _ ↦ ⟨hd, hnone⟩⟩
    -- nobody is about to replace a kernel event, so the one that is loaded has not been freed
    cases hp : s.mem.2.dsDkev with
    | none => exact absurd hp (hg.dkev hd)
    | some p =>
        cases p with
        | shared => exact .inl rfl
        | own =>
            refine .inr ⟨rfl, Bool.eq_false_iff.mpr fun hfreed ↦ ?_⟩
            obtain ⟨u, l', hu⟩ := hg.freed hfreed hp
            have hex := hnone u
            rw [hu] at hex
            cases hex
  case read second p val =>
    have hstore : ∀ l, s.loc t ≠ .store l := fun l hl ↦ by cases ht.symm.trans hl
    have hasserts := hg.asserts t (by rw [ht]; rfl)
    have hsafe := hg.safe t
    rw [ht] at hsafe
    refine ⟨hg.dkev, fun hfreed hown ↦ hg.exists_store hfreed hown hstore,
      hg.safe_update ?_ (.inr rfl), hg.asserts_update rfl ?_ fun _ ↦ hasserts⟩
    · rcases safe_readFilter hsafe with hread | ⟨-, hread, hadder, hfits⟩
      · rw [hread]
        trivial
      · rw [hread]
        exact ⟨fun _ ↦ hadder, .inr hfits⟩
    · rcases safe_readFilter hsafe with hread | ⟨-, hread, -⟩ <;> rw [hread] <;> rfl
  case free l₀ =>
    have hnone := hg.none_asserts (t := t) (by rw [ht]; rfl)
    refine ⟨hg.dkev, fun _ _ ↦ ⟨t, l₀, Function.update_self ..⟩,
      hg.safe_update trivial (.inl hnone), fun u hu ↦ ?_⟩
    rw [asserts_update_of_none hnone rfl u] at hu
    cases hu
  case store l₀ =>
    have hnone := hg.none_asserts (t := t) (by rw [ht]; rfl)
    refine ⟨fun _ ↦ nofun, fun _ ↦ nofun, hg.safe_update trivial (.inr rfl), fun u hu ↦ ?_⟩
    rw [asserts_update_of_none hnone rfl u] at hu
    cases hu

theorem DataTrans.source {l' : Place Q} {m' : Mem Q × Kevents}
    (h : DataTrans set t a m l m' l') (hl : l.Safe set m.2) (hd : l.asserts → m.1.dsDkev) :
    (m'.1 = m.1 ∧ l'.loc = l.loc) ∨ ∃ b, Source.step set t b m.1 l.loc = some (m'.1, l'.loc) := by
  cases h
  case call val _ _ => exact .inr ⟨.mergeData val, rfl⟩
  case inside l l' m' hstep =>
    have hloc : (if registers l l' then Place.free l' else .inside l').loc = l' := by split <;> rfl
    exact .inr ⟨a, by rwa [hloc]⟩
  case read second p val =>
    rcases safe_readFilter hl with hread | ⟨-, hread, -⟩
    · refine .inr ⟨.go, ?_⟩
      rw [hread]
      have hgo : go set m.1 false (.mergeDkev (dataKevent val)) = some (m.1,
        if m.1.dsDkev then .mergeFlags (dataKevent val) else .crash .nullDkev) := rfl
      exact hgo.trans (by rw [if_pos (hd rfl)]; rfl)
    · rw [hread]
      exact .inl ⟨rfl, rfl⟩
  all_goals exact .inl ⟨rfl, rfl⟩

variable [Fintype T] {tq : Q} {adder : Bool}

/-- A source that is on `dk_sources` or has not been installed has a kernel event, unless it is
being released. -/
theorem dsDkev_of_registered {mask : BitVec 64} {needsRearm : Bool}
    (h : Pool.Reachable (step set) (created tq mask needsRearm)
      ⟨s.mem.1, fun u ↦ (s.loc u).loc⟩)
    (hreg : s.mem.1.dkSources ∨ s.mem.1.dsIsInstalled = false)
    (hex : ∀ u, (s.loc u).exchanges = false) : s.mem.1.dsDkev := by
  have ho := ordered_of_run h
  have hacc := accounts_of_run h
  obtain ⟨p, hp, hremove⟩ : ∃ p, Protocol s.mem.1 p ∧ p ≠ some .releaseRemove := by
    rcases Nat.eq_zero_or_pos s.mem.1.dqRunning with hzero | hpos
    · exact ⟨none, ho.free hzero, nofun⟩
    · obtain ⟨u, f, p, hu⟩ := hacc.exists_held hpos
      refine ⟨some p, (ho.held u f p hu).1, fun hp ↦ ?_⟩
      cases hp
      have hnot := hex u
      dsimp only at hu
      cases hloc : s.loc u <;> rw [hloc] at hu hnot <;> cases hu <;> cases hnot
  rcases hreg with hsources | hnot
  · exact (hp.sources hsources).resolve_right hremove
  · by_contra hd
    have hi := hp.installed (Bool.eq_false_iff.mpr hd)
    rw [hnot] at hi
    cases hi

theorem guarded_of_run (h : Pool.Runs (dataStep set) Apart (mergeCreated tq adder) s) :
    Guarded set s ∧ Pool.Reachable (Source.step set) (dataCreated tq adder)
      ⟨s.mem.1, fun u ↦ (s.loc u).loc⟩ := by
  refine h.invariant (I := fun s ↦ Guarded set s ∧ Pool.Reachable (Source.step set)
    (dataCreated tq adder) ⟨s.mem.1, fun u ↦ (s.loc u).loc⟩)
    ⟨⟨fun _ ↦ nofun, nofun, fun _ ↦ trivial, nofun⟩, .refl⟩ ?_
  rintro s t a m l - ⟨hg, hr⟩ hC hP
  have htrans := dataTrans_of_step hP
  refine ⟨hg.step hC (fun ha ↦ dsDkev_of_registered hr (hC.1 ha).1 (hC.1 ha).2) htrans, ?_⟩
  have hloc : (fun u ↦ (Function.update s.loc t l u).loc) =
      Function.update (fun u ↦ (s.loc u).loc) t l.loc := by
    funext u
    rcases eq_or_ne u t with rfl | hu <;> simp [*]
  dsimp only
  rw [hloc]
  rcases htrans.source (hg.safe t) fun ha ↦ (hg.asserts t ha).1 with ⟨hm, hl⟩ | ⟨b, hb⟩
  · rw [hm, hl, Function.update_eq_self]
    exact hr
  · exact hr.step trivial (Pool.step_of_program hb)

omit [Fintype T] in
/-- A call that finds no kernel event, or one that has been freed, reads through it. -/
theorem crash_of_not_live {val : BitVec 64} (ht : s.loc t = .inside .idle)
    (hxref : 0 < s.mem.1.doXrefCnt) (hval : set.dsIsAdder ∨ fitsInt val)
    (hlive : s.mem.2.live = false) :
    ∃ s', Pool.Runs (dataStep set) (fun _ u _ ↦ u = t) s s' ∧ ∃ why, s'.loc t = .crash why := by
  have hcall : Pool.Alone (dataStep set) t (s.mem, .inside .idle) (s.mem, .load false val) :=
    ⟨.mergeData val, by rcases hval with h | h <;> simp [dataStep, hxref, h]⟩
  have hload : Pool.Alone (dataStep set) t (s.mem, .load false val)
    (s.mem, .read false s.mem.2.dsDkev val) := ⟨.go, rfl⟩
  obtain ⟨why, hwhy⟩ : ∃ why, readFilter set s.mem.2 false val s.mem.2.dsDkev = .crash why := by
    unfold Kevents.live at hlive
    split at hlive
    case h_1 hp => exact ⟨.nullDkev, by rw [hp]; rfl⟩
    case h_2 hp =>
      have hfreed : s.mem.2.freed = true := by simpa using hlive
      exact ⟨.freedDkev, by simp [readFilter, hp, hfreed]⟩
    case h_3 => cases hlive
  have hread : Pool.Alone (dataStep set) t (s.mem, .read false s.mem.2.dsDkev val)
    (s.mem, .crash why) := ⟨.go, by rw [← hwhy]; rfl⟩
  exact ⟨_, Pool.Runs.of_alone ht (((Relation.ReflTransGen.single hcall).tail hload).tail hread),
    why, Function.update_self ..⟩

/-- In every run in which `dispatch_source_merge_data` is called while the source is registered
or not yet installed, apart from the exchange of its kernel event: no call reads through a null
pointer or a freed kernel event or fails in the assertion; every step of a call is possible and
brings it nearer to its return, so that it completes; and a call that finds the source cancelled,
as it stays, changes nothing.  A call that is made when `ds_dkev` is null or freed crashes unless
others help. -/
theorem merge_data_apart {mgr : T} {mgrQ : Q} :
    (∀ s : Pool T (Mem Q × Kevents) (Place Q),
      Pool.Runs (dataStep (dataSetting mgr mgrQ adder)) Apart (mergeCreated tq adder) s →
      (∀ t why, s.loc t ≠ .crash why) ∧
      (∀ t, 0 < (s.loc t).toGo → ∃ r,
        dataStep (dataSetting mgr mgrQ adder) t .go s.mem (s.loc t) = some r ∧
          Nearer (s.loc t) r.2) ∧
      (∀ t a m l, s.mem.1.dsCanceled →
        dataStep (dataSetting mgr mgrQ adder) t a s.mem (s.loc t) = some (m, l) →
        m.1.dsCanceled ∧
          ((s.loc t).Untested → m = s.mem ∧ (l.Untested ∨ l = .inside .idle)))) ∧
    ∀ (s : Pool T (Mem Q × Kevents) (Place Q)) (t : T) (val : BitVec 64),
      s.loc t = .inside .idle → 0 < s.mem.1.doXrefCnt → adder ∨ fitsInt val →
      s.mem.2.live = false →
      ∃ s', Pool.Runs (dataStep (dataSetting mgr mgrQ adder)) (fun _ u _ ↦ u = t) s s' ∧
        ∃ why, s'.loc t = .crash why := by
  refine ⟨fun s h ↦ ?_, fun s t val ht hxref hval ↦ crash_of_not_live ht hxref hval⟩
  have hsafe := (guarded_of_run h).1.safe
  refine ⟨?_, fun t ↦ nearer_step (hsafe t), ?_⟩
  · intro t why hcrash
    have hsafe := hsafe t
    rw [hcrash] at hsafe
    exact hsafe
  · intro t a m l hcanceled hstep
    exact ⟨canceled_step hstep hcanceled, untested_step hstep (hsafe t) hcanceled⟩

end Runs

/-- Thread 0 is the client and the worker of the target queue, thread 1 the manager.  The
source has been resumed, and is on the list of the manager queue. -/
def resumedTrace : List (Fin 2 × Act (Fin 2)) :=
  [(0, Act.resume)] ++ steps 0 6 ++ [(0, Act.invoke 0)] ++ steps 0 9

def registeredTrace : List (Fin 2 × Act (Fin 2)) :=
  resumedTrace ++ [(1, Act.invoke 1)] ++ steps 1 23

/-- It has been cancelled and unregistered; after that the client merges data. -/
def nullTrace : List (Fin 2 × Act (Fin 2)) :=
  registeredTrace ++ [(0, Act.cancel)] ++ steps 0 11 ++ [(0, Act.invoke 0)] ++ steps 0 11 ++
    [(1, Act.invoke 1)] ++ steps 1 17 ++ [(0, Act.mergeData 5)] ++ steps 0 2

/-- The client loads `ds_dkev` before the manager frees what it points to, and reads
through it after that. -/
def freedTrace : List (Fin 2 × Act (Fin 2)) :=
  resumedTrace ++ [(0, Act.mergeData 5)] ++ steps 0 1 ++ [(1, Act.invoke 1)] ++ steps 1 9 ++
    steps 0 1

def nullState : Pool (Fin 2) (Mem (Fin 2) × Kevents) (Place (Fin 2)) :=
  ((mergeCreated 0 true).run (dataStep (dataSetting 1 1 true)) (fun _ _ _ ↦ True)
    nullTrace).get (by decide)

def freedState : Pool (Fin 2) (Mem (Fin 2) × Kevents) (Place (Fin 2)) :=
  ((mergeCreated 0 true).run (dataStep (dataSetting 1 1 true)) (fun _ _ _ ↦ True)
    freedTrace).get (by decide)

/-- With a reference in hand, the call reads through a null pointer when the source has been
cancelled and unregistered, and through a freed one when it is being registered. -/
theorem merge_data_too_late :
    (Pool.Reachable (dataStep (dataSetting 1 1 true)) (mergeCreated 0 true) nullState ∧
        nullState.mem.1.dsCanceled ∧ nullState.mem.1.doXrefCnt = 1 ∧
        nullState.loc 0 = .crash .nullDkev) ∧
      Pool.Reachable (dataStep (dataSetting 1 1 true)) (mergeCreated 0 true) freedState ∧
        freedState.mem.1.dsCanceled = false ∧ freedState.mem.1.doXrefCnt = 1 ∧
        freedState.loc 0 = .crash .freedDkev :=
  ⟨⟨Pool.runs_get _, by decide, by decide, by decide⟩,
    Pool.runs_get _, by decide, by decide, by decide⟩

instance (s : Pool (Fin 2) (Mem (Fin 2) × Kevents) (Place (Fin 2))) (t : Fin 2)
    (a : Act (Fin 2)) : Decidable (Apart s t a) :=
  inferInstanceAs (Decidable (_ ∧ _))

/-- The client merges data into a registered source. -/
def mergingState : Pool (Fin 2) (Mem (Fin 2) × Kevents) (Place (Fin 2)) :=
  ((mergeCreated 0 true).run (dataStep (dataSetting 1 1 true)) Apart
    (registeredTrace ++ [(0, Act.mergeData 5)] ++ steps 0 2)).get (by decide)

theorem merge_data_apart_registered :
    mergingState.loc 0 = .inside (.mergeFlags (dataKevent 5)) ∧
      ∃ r, dataStep (dataSetting 1 1 true) 0 .go mergingState.mem (mergingState.loc 0) = some r ∧
        Nearer (mergingState.loc 0) r.2 := by
  have hrun : Pool.Runs (dataStep (dataSetting 1 1 true)) Apart (mergeCreated 0 true)
      mergingState :=
    Pool.runs_get _
  exact ⟨by decide, (merge_data_apart.1 _ hrun).2.1 0 (by decide)⟩

end LibDispatch.Source
