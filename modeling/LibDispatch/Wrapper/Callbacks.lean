import LibDispatch.Interleaving.Sequence
import Mathlib.Data.List.Basic
import Mathlib.Logic.Function.Basic

/-!
# What the event handler of a native source reaches

The handles of a source share its private data, which owns the source type.  Three pointers
lead back: the wrapper of the native source, which is never deleted, has an operation with a
pointer to the source type; the source type has a pointer to the handle that was constructed
from it; and that of a timer has one more, to the timer.
-/

namespace LibDispatch.Wrapper.Callbacks

open Interleaving.Sequence (Runs run runs_get)

/-! ## The model -/

/-- A `native_source`; `parent` is that of a `timer_type`. -/
structure Sourcetype (H N : Type*) where
  native : N
  cb : H
  parent : Option H
  deriving DecidableEq

/-- What the event handler uses. -/
inductive Target (H S : Type*)
  | sourcetype (s : S)
  | source (h : H)
  | timer (h : H)
  deriving DecidableEq

/-- The handles with the source type that their private data owns, the source types, and for
each native source the source type of the operation in its wrapper.  `silent` says that the
event handler of a native source is not called any more, since the source has been cancelled.
The last two fields are history: the handles and source types that have been destroyed, and
which of them an event handler has used. -/
structure State (H S N : Type*) where
  handles : List (H × S)
  types : S → Option (Sourcetype H N)
  op : N → Option S
  resumed : N → Bool
  silent : N → Bool
  destroyed : List (Target H S)
  faults : List (Target H S)

def initial {H S N : Type*} : State H S N :=
  ⟨[], fun _ ↦ none, fun _ ↦ none, fun _ ↦ false, fun _ ↦ false, [], []⟩

variable {H S N : Type*} [DecidableEq H] [DecidableEq S] [DecidableEq N]

namespace State

variable (st : State H S N)

/-- Neither a handle nor one that has been destroyed. -/
def fresh (h : H) : Prop := st.handles.lookup h = none ∧ .source h ∉ st.destroyed

instance (h : H) : Decidable (st.fresh h) := inferInstanceAs (Decidable (_ ∧ _))

/-- `native_source::native_source` puts its operation into the wrapper of the native source,
and `source::source` itself into the source type. -/
def construct (h : H) (s : S) (n : N) (parent : Option H) : Option (State H S N) :=
  if st.fresh h ∧ st.types s = none ∧ .sourcetype s ∉ st.destroyed then
    some { st with
      handles := (h, s) :: st.handles
      types := Function.update st.types s (some ⟨n, h, parent⟩)
      op := Function.update st.op n (some s) }
  else none

def copy (h other : H) : Option (State H S N) :=
  if st.fresh h then
    (st.handles.lookup other).map fun s ↦ { st with handles := (h, s) :: st.handles }
  else none

/-- `source::~source`; with the last handle the private data goes and takes the source type
along. -/
def destroy (h : H) : Option (State H S N) :=
  (st.handles.lookup h).map fun s ↦
    let handles := st.handles.erase (h, s)
    if ∃ e ∈ handles, e.2 = s then
      { st with handles, destroyed := .source h :: st.destroyed }
    else
      { st with
        handles
        types := Function.update st.types s none
        destroyed := .sourcetype s :: .source h :: st.destroyed }

/-- The handles that are used through the source type and are no handles. -/
def dangling (ty : Sourcetype H N) : List (Target H S) :=
  (if st.handles.lookup ty.cb = none then [.source ty.cb] else []) ++
    (ty.parent.filter fun h ↦ st.handles.lookup h = none).toList.map .timer

/-- The event handler: `native_source_wrapper__run_event_operation` runs the operation of the
wrapper, which calls `on_source_ready()` of the source type, and `ready` calls `notify` of the
handle in `cb` with the timer as its data. -/
def fire (n : N) : Option (State H S N) :=
  if st.silent n ∨ ¬ st.resumed n then none
  else (st.op n).map fun s ↦
    match st.types s with
    | none => { st with faults := st.faults ++ [.sourcetype s] }
    | some ty => { st with faults := st.faults ++ st.dangling ty }

end State

inductive Act (H S N : Type*)
  | source (h : H) (s : S) (n : N)
  | timer (h : H) (s : S) (n : N)
  | copy (h other : H)
  | destroy (h : H)
  | resume (n : N)
  | suspend (n : N)
  | silence (n : N)
  | fire (n : N)

def step (a : Act H S N) (st : State H S N) : Option (State H S N) :=
  match a with
  | .source h s n => st.construct h s n none
  | .timer h s n => if st.op n = none then st.construct h s n (some h) else none
  | .copy h other => st.copy h other
  | .destroy h => st.destroy h
  | .resume n => some { st with resumed := Function.update st.resumed n true }
  | .suspend n => some { st with resumed := Function.update st.resumed n false }
  | .silence n => some { st with silent := Function.update st.silent n true }
  | .fire n => st.fire n

/-! ## Live objects -/

/-- The event handler of the native source can be called and goes to this source type. -/
def State.fires (st : State H S N) (n : N) (s : S) : Bool := !st.silent n && st.op n = some s

/-- The handle that was constructed from a source type is destroyed only when the event handler
does not go to that source type any more. -/
def keepsFirst (st : State H S N) : Act H S N → Bool
  | .destroy h => (st.handles.lookup h).all fun s ↦ (st.types s).all fun ty ↦
      ty.cb ≠ h || !st.fires ty.native s
  | _ => true

variable {st st' : State H S N} {h other : H} {s : S} {n : N} {ty : Sourcetype H N}

structure Inv (st : State H S N) : Prop where
  faults : st.faults = []
  owned : ∀ e ∈ st.handles, ∃ ty, st.types e.2 = some ty
  known : ∀ n s, st.op n = some s → (∃ ty, st.types s = some ty) ∨ .sourcetype s ∈ st.destroyed
  first : ∀ n s, st.fires n s → ∃ ty, st.types s = some ty ∧ ty.native = n ∧
    (ty.cb, s) ∈ st.handles ∧ ∀ h, ty.parent = some h → h = ty.cb

omit [DecidableEq H] [DecidableEq N] in
theorem State.fires_iff : st.fires n s ↔ st.silent n = false ∧ st.op n = some s := by
  simp [State.fires]

theorem Inv.construct (hi : Inv st) {parent : Option H} (hparent : ∀ h', parent = some h' → h' = h)
    (hs : st.construct h s n parent = some st') : Inv st' := by
  unfold State.construct at hs
  split at hs
  swap
  · cases hs
  rename_i hfresh
  cases hs
  obtain ⟨-, hnone, hdestroyed⟩ := hfresh
  have hold : ∀ {s' ty}, st.types s' = some ty → s' ≠ s := by
    rintro s' ty hty rfl
    rw [hnone] at hty
    cases hty
  refine ⟨hi.faults, fun e he ↦ ?_, fun n' s' hop ↦ ?_, fun n' s' hfires ↦ ?_⟩
  · rcases List.mem_cons.mp he with rfl | he
    · exact ⟨_, Function.update_self _ _ _⟩
    · obtain ⟨ty, hty⟩ := hi.owned e he
      exact ⟨ty, by simpa [hold hty] using hty⟩
  · rcases eq_or_ne n' n with rfl | hne
    · obtain rfl : s = s' := by simpa using hop
      exact .inl ⟨_, Function.update_self _ _ _⟩
    · rcases hi.known n' s' (by simpa [hne] using hop) with ⟨ty, hty⟩ | hgone
      · exact .inl ⟨ty, by simpa [hold hty] using hty⟩
      · exact .inr hgone
  · obtain ⟨hsilent, hop⟩ := State.fires_iff.mp hfires
    rcases eq_or_ne n' n with rfl | hne
    · obtain rfl : s = s' := by simpa using hop
      exact ⟨_, Function.update_self _ _ _, rfl, List.mem_cons_self, hparent⟩
    · have hfires' : st.fires n' s' := State.fires_iff.mpr ⟨hsilent, by simpa [hne] using hop⟩
      obtain ⟨ty, hty, hnative, hmem, hfirst⟩ := hi.first n' s' hfires'
      exact ⟨ty, by simpa [hold hty] using hty, hnative, List.mem_cons_of_mem _ hmem, hfirst⟩

omit [DecidableEq N] in
theorem Inv.copy (hi : Inv st) (hs : st.copy h other = some st') : Inv st' := by
  unfold State.copy at hs
  split at hs
  swap
  · cases hs
  obtain ⟨s, hother, rfl⟩ := Option.map_eq_some_iff.mp hs
  refine ⟨hi.faults, fun e he ↦ ?_, hi.known, fun n s' hfires ↦ ?_⟩
  · rcases List.mem_cons.mp he with rfl | he
    · obtain ⟨front, rest, heq, -⟩ := List.lookup_eq_some_iff.mp hother
      exact hi.owned (other, s) (by simp [heq])
    · exact hi.owned e he
  · obtain ⟨ty, hty, hnative, hmem, hfirst⟩ := hi.first n s' hfires
    exact ⟨ty, hty, hnative, List.mem_cons_of_mem _ hmem, hfirst⟩

omit [DecidableEq N] in
theorem Inv.first_erase (hi : Inv st) (hfind : st.handles.lookup h = some s)
    (hc : keepsFirst st (.destroy h)) {s' : S} (hfires : st.fires n s') :
    ∃ ty, st.types s' = some ty ∧ ty.native = n ∧ (ty.cb, s') ∈ st.handles.erase (h, s) ∧
      ∀ h, ty.parent = some h → h = ty.cb := by
  obtain ⟨ty, hty, rfl, hmem, hfirst⟩ := hi.first n s' hfires
  refine ⟨ty, hty, rfl, (List.mem_erase_of_ne ?_).mpr hmem, hfirst⟩
  intro heq
  obtain ⟨rfl, rfl⟩ := Prod.mk.inj heq
  simp [keepsFirst, hfind, hty, hfires] at hc

omit [DecidableEq N] in
theorem Inv.destroy (hi : Inv st) (hc : keepsFirst st (.destroy h))
    (hs : st.destroy h = some st') : Inv st' := by
  obtain ⟨s, hfind, rfl⟩ := Option.map_eq_some_iff.mp hs
  have howned : ∀ e ∈ st.handles.erase (h, s), ∃ ty, st.types e.2 = some ty :=
    fun e he ↦ hi.owned e (List.mem_of_mem_erase he)
  simp only
  split
  · refine ⟨hi.faults, howned, fun n s' hop ↦ ?_, fun n s' hfires ↦ hi.first_erase hfind hc hfires⟩
    exact (hi.known n s' hop).imp_right (List.mem_cons_of_mem _)
  · rename_i hlast
    refine ⟨hi.faults, fun e he ↦ ?_, fun n s' hop ↦ ?_, fun n s' hfires ↦ ?_⟩
    · obtain ⟨ty, hty⟩ := howned e he
      have hne : e.2 ≠ s := fun heq ↦ hlast ⟨e, he, heq⟩
      exact ⟨ty, by simpa [hne] using hty⟩
    · rcases eq_or_ne s' s with rfl | hne
      · exact .inr List.mem_cons_self
      · rcases hi.known n s' hop with ⟨ty, hty⟩ | hgone
        · exact .inl ⟨ty, by simpa [hne] using hty⟩
        · exact .inr (List.mem_cons_of_mem _ (List.mem_cons_of_mem _ hgone))
    · obtain ⟨ty, hty, hnative, hmem, hfirst⟩ := hi.first_erase hfind hc hfires
      have hne : s' ≠ s := fun heq ↦ hlast ⟨_, hmem, heq⟩
      exact ⟨ty, by simpa [hne] using hty, hnative, hmem, hfirst⟩

omit [DecidableEq H] in
theorem Inv.silence (hi : Inv st) (n : N) :
    Inv { st with silent := Function.update st.silent n true } := by
  refine ⟨hi.faults, hi.owned, hi.known, fun n' s hfires ↦ hi.first n' s ?_⟩
  obtain ⟨hsilent, hop⟩ := State.fires_iff.mp hfires
  have hne : n' ≠ n := by
    rintro rfl
    simp at hsilent
  exact State.fires_iff.mpr ⟨by simpa [hne] using hsilent, hop⟩

omit [DecidableEq N] in
theorem Inv.fire (hi : Inv st) (hs : st.fire n = some st') : Inv st' := by
  unfold State.fire at hs
  split at hs
  · cases hs
  rename_i hcalled
  obtain ⟨s, hop, rfl⟩ := Option.map_eq_some_iff.mp hs
  have hfires : st.fires n s :=
    State.fires_iff.mpr ⟨Bool.eq_false_iff.mpr fun h ↦ hcalled (.inl h), hop⟩
  obtain ⟨ty, hty, -, hmem, hfirst⟩ := hi.first n s hfires
  have hcb : st.handles.lookup ty.cb ≠ none := fun hnone ↦ by
    simpa using List.lookup_eq_none_iff.mp hnone _ hmem
  have hdangling : st.dangling ty = [] := by
    cases hparent : ty.parent with
    | none => simp [State.dangling, hcb, hparent]
    | some h =>
        obtain rfl := hfirst h hparent
        rw [State.dangling, if_neg hcb, hparent, Option.filter_some, decide_eq_false hcb]
        rfl
  simp only [hty, hdangling, List.append_nil]
  exact hi

theorem Inv.step (hi : Inv st) {a : Act H S N} (hc : keepsFirst st a) (hs : step a st = some st') :
    Inv st' := by
  cases a with
  | source h s n => exact hi.construct (fun _ hnone ↦ by cases hnone) hs
  | timer h s n =>
      simp only [Callbacks.step, Option.ite_none_right_eq_some] at hs
      exact hi.construct (fun h' hh ↦ (Option.some.inj hh).symm) hs.2
  | copy h other => exact hi.copy hs
  | destroy h => exact hi.destroy hc hs
  | resume n | suspend n =>
      cases hs
      exact ⟨hi.faults, hi.owned, hi.known, hi.first⟩
  | silence n =>
      cases hs
      exact hi.silence n
  | fire n => exact hi.fire hs

omit [DecidableEq H] [DecidableEq N] in
theorem inv_initial : Inv (initial : State H S N) := by
  refine ⟨rfl, nofun, nofun, fun n s hf ↦ ?_⟩
  simp [State.fires, initial] at hf

/-- As long as the handle that was constructed from a source type stays until the event handler
of the native source is not called any more, the event handler uses neither a source type nor
a handle that has been destroyed. -/
theorem callbacks_touch_live (hr : Runs step (fun st a ↦ keepsFirst st a) initial st) :
    st.faults = [] :=
  (hr.invariant inv_initial fun _ _ _ hi hc hs ↦ hi.step hc hs : Inv st).faults

/-- A timer is copied and fires, the copy is destroyed, and the timer itself after its native
source has been cancelled. -/
def orderedState : State ℕ ℕ ℕ :=
  (run step (fun st a ↦ keepsFirst st a) initial
    [.timer 0 0 0, .resume 0, .copy 1 0, .fire 0, .destroy 1, .fire 0, .silence 0, .destroy 0]).get
      (by decide)

theorem callbacks_touch_live_ordered : orderedState.handles = [] ∧ orderedState.faults = [] :=
  ⟨by decide, callbacks_touch_live (runs_get _)⟩

/-- The timer that was copied is destroyed, and the event handler calls `notify` on it and
hands it out, although the copy is alive.  After the last handle has been destroyed, the event
handler goes to a source type that has been destroyed. -/
theorem callbacks_touch_destroyed :
    ∃ copied gone : State ℕ ℕ ℕ,
      Runs step (fun _ _ ↦ True) initial copied ∧ copied.handles.lookup 1 = some 0 ∧
      copied.faults = [.source 0, .timer 0] ∧
      Runs step (fun _ _ ↦ True) initial gone ∧ gone.handles = [] ∧
        gone.faults = [.sourcetype 0] := by
  refine ⟨_, _,
    runs_get (l := [.timer 0 0 0, .resume 0, .copy 1 0, .destroy 0, .fire 0]) (by decide),
    by decide, by decide,
    runs_get (l := [.source 0 0 0, .resume 0, .destroy 0, .fire 0]) (by decide),
    by decide, by decide⟩

end LibDispatch.Wrapper.Callbacks
