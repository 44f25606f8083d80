import LibDispatch.Wrapper.Handlers
import Mathlib.Algebra.Group.Int.Defs
import Mathlib.Data.List.Induction

/-!
# The gate in front of the handler

A source counts its `resume()` calls up and its `suspend()` calls down in a word without a sign,
and `notify` lets the handler through unless `suspend_ct <= 0`.  Here the calls are made one after
the other, and what each of them makes happen is compared with what the counts of the calls before
it ask for.
-/

namespace LibDispatch.Wrapper.Gate

open Handlers (Setting)

/-! ## The model -/

inductive Call (O D : Type*)
  | resume
  | suspend
  | handler (op : O)
  | cancel
  | notify (dt : D)
  deriving DecidableEq

/-- What a call makes happen: the callbacks of the source type, the deletion of an operation, and
the handler, which is run at once or put on the target queue. -/
inductive Event (O D : Type*)
  | onResume
  | onSuspend
  | onCancel
  | delete (op : O)
  | run (op : O) (dt : D)
  | submit (op : O) (dt : D)
  deriving DecidableEq

/-- `source::pdata` without a cancel handler. -/
structure Pdata (O : Type*) where
  suspendCt : UInt64 := 0
  cancelled : Bool := false
  handler : Option O := none
  deriving DecidableEq

variable {O D : Type*} (set : Setting O)

namespace Pdata

variable (d : Pdata O)

def suspend : Pdata O × List (Event O D) :=
  ({ d with suspendCt := d.suspendCt - 1 }, if d.suspendCt - 1 = 0 then [.onSuspend] else [])

def resume : Pdata O × List (Event O D) :=
  ({ d with suspendCt := d.suspendCt + 1 }, if d.suspendCt + 1 = 1 then [.onResume] else [])

def setHandler (op : O) : Pdata O × List (Event O D) :=
  ({ d with handler := some op }, (d.handler.filter set.autoDelete).toList.map .delete)

def cancel : Pdata O × List (Event O D) :=
  ({ d with cancelled := true }, if d.cancelled then [] else [.onCancel])

def notify (dt : D) : List (Event O D) :=
  if d.suspendCt ≤ 0 then []
  else match d.handler with
    | none => []
    | some op =>
        if d.cancelled then []
        else if set.fastDispatch then [.run op dt]
        else [.submit op dt]

def step : Call O D → Pdata O × List (Event O D)
  | .resume => d.resume
  | .suspend => d.suspend
  | .handler op => d.setHandler set op
  | .cancel => d.cancel
  | .notify dt => (d, d.notify set dt)

end Pdata

def after (calls : List (Call O D)) : Pdata O := calls.foldl (fun d c ↦ (d.step set c).1) {}

/-- What the call `c` makes happen after these calls. -/
def events (calls : List (Call O D)) (c : Call O D) : List (Event O D) :=
  ((after set calls).step set c).2

/-! ## What the calls ask for -/

def Call.change : Call O D → ℤ
  | .resume => 1
  | .suspend => -1
  | _ => 0

/-- The number of `resume()` calls minus the number of `suspend()` calls. -/
def net (calls : List (Call O D)) : ℤ := calls.foldl (fun n c ↦ n + c.change) 0

def Call.installs : Call O D → Option O
  | .handler op => some op
  | _ => none

def installed (calls : List (Call O D)) : Option O := (calls.filterMap Call.installs).getLast?

def Call.isCancel : Call O D → Bool
  | .cancel => true
  | _ => false

def cancelled (calls : List (Call O D)) : Bool := calls.any Call.isCancel

/-- What has to happen at the call `c` after these calls. -/
def expected (calls : List (Call O D)) : Call O D → List (Event O D)
  | .resume => if net calls = 0 then [.onResume] else []
  | .suspend => if net calls = 1 then [.onSuspend] else []
  | .handler _ => ((installed calls).filter set.autoDelete).toList.map .delete
  | .cancel => if cancelled calls then [] else [.onCancel]
  | .notify dt =>
      match installed calls with
      | none => []
      | some op =>
          if cancelled calls = false ∧ 1 ≤ net calls then
            if set.fastDispatch then [.run op dt] else [.submit op dt]
          else []

/-- What the call `c` has to find out about the count from its word. -/
def Tells (calls : List (Call O D)) : Call O D → Prop
  | .resume => net calls % 2 ^ 64 = 0 → net calls = 0
  | .suspend => net calls % 2 ^ 64 = 1 → net calls = 1
  | .notify _ => installed calls ≠ none → cancelled calls = false →
      (net calls % 2 ^ 64 ≠ 0 ↔ 1 ≤ net calls)
  | _ => True

/-! ## The private data and the counts -/

section Counts

variable (calls : List (Call O D)) (c : Call O D)

theorem after_append : after set (calls ++ [c]) = ((after set calls).step set c).1 := by
  rw [after, List.foldl_append]
  rfl

theorem net_append : net (calls ++ [c]) = net calls + c.change := by
  rw [net, List.foldl_append]
  rfl

theorem installed_append : installed (calls ++ [c]) = c.installs.or (installed calls) := by
  cases c <;> simp [installed, Call.installs]

theorem cancelled_append : cancelled (calls ++ [c]) = (cancelled calls || c.isCancel) := by
  simp [cancelled]

theorem net_bounds : -(calls.length : ℤ) ≤ net calls ∧ net calls ≤ calls.length := by
  induction calls using List.reverseRecOn with
  | nil => simp [net]
  | append_singleton calls c ih =>
      have hchange : -1 ≤ c.change ∧ c.change ≤ 1 := by cases c <;> simp [Call.change]
      rw [net_append, List.length_append, List.length_singleton]
      push_cast
      omega

/-- The fields of the private data are what the calls have made of them, but the count is only
known modulo the size of the word. -/
theorem after_eq : ((after set calls).suspendCt.toNat : ℤ) = net calls % 2 ^ 64 ∧
    (after set calls).handler = installed calls ∧
      (after set calls).cancelled = cancelled calls := by
  induction calls using List.reverseRecOn with
  | nil => exact ⟨rfl, rfl, rfl⟩
  | append_singleton calls c ih =>
      obtain ⟨hct, hop, hcan⟩ := ih
      rw [after_append, net_append, installed_append, cancelled_append, ← hop, ← hcan]
      cases c with
      | resume =>
          refine ⟨?_, rfl, by simp [Pdata.step, Pdata.resume, Call.isCancel]⟩
          simp only [Pdata.step, Pdata.resume, Call.change, UInt64.toNat_add]
          have hone : (1 : UInt64).toNat = 1 := rfl
          rw [hone]
          omega
      | suspend =>
          refine ⟨?_, rfl, by simp [Pdata.step, Pdata.suspend, Call.isCancel]⟩
          simp only [Pdata.step, Pdata.suspend, Call.change, UInt64.toNat_sub]
          have hone : (1 : UInt64).toNat = 1 := rfl
          rw [hone]
          omega
      | handler op =>
          refine ⟨?_, rfl, by simp [Pdata.step, Pdata.setHandler, Call.isCancel]⟩
          simp only [Call.change, Int.add_zero]
          exact hct
      | cancel =>
          refine ⟨?_, rfl, by simp [Pdata.step, Pdata.cancel, Call.isCancel]⟩
          simp only [Call.change, Int.add_zero]
          exact hct
      | notify dt =>
          refine ⟨?_, rfl, by simp [Pdata.step, Call.isCancel]⟩
          simp only [Call.change, Int.add_zero]
          exact hct

end Counts

/-! ## The calls one by one -/

section Single

variable {set} {calls : List (Call O D)}

theorem onResume_iff : (after set calls).suspendCt + 1 = 1 ↔ net calls % 2 ^ 64 = 0 := by
  have hct := (after_eq set calls).1
  have hone : (1 : UInt64).toNat = 1 := rfl
  rw [← UInt64.toNat_inj, UInt64.toNat_add, hone]
  omega

theorem onSuspend_iff : (after set calls).suspendCt - 1 = 0 ↔ net calls % 2 ^ 64 = 1 := by
  have hct := (after_eq set calls).1
  have hone : (1 : UInt64).toNat = 1 := rfl
  have hzero : (0 : UInt64).toNat = 0 := rfl
  rw [← UInt64.toNat_inj, UInt64.toNat_sub, hone, hzero]
  omega

theorem closed_iff : (after set calls).suspendCt ≤ 0 ↔ net calls % 2 ^ 64 = 0 := by
  have hct := (after_eq set calls).1
  have hzero : (0 : UInt64).toNat = 0 := rfl
  rw [UInt64.le_iff_toNat_le, hzero]
  omega

theorem events_notify_iff (dt : D) :
    events set calls (.notify dt) = expected set calls (.notify dt) ↔ Tells calls (.notify dt) := by
  obtain ⟨-, hop, hcan⟩ := after_eq set calls
  simp only [events, Pdata.step, Pdata.notify, expected, Tells, hop, hcan, closed_iff]
  cases installed calls with
  | none => simp
  | some op =>
      cases cancelled calls with
      | true => simp
      | false =>
          by_cases hopen : net calls % 2 ^ 64 = 0 <;> by_cases hle : 1 ≤ net calls <;>
            cases set.fastDispatch <;> simp_all

theorem callback_iff {p q : Prop} [Decidable p] [Decidable q] (e : Event O D) :
    ((if p then [e] else []) = if q then [e] else []) ↔ (p ↔ q) := by
  by_cases hp : p <;> by_cases hq : q <;> simp [hp, hq]

theorem events_iff_tells (c : Call O D) :
    events set calls c = expected set calls c ↔ Tells calls c := by
  obtain ⟨-, hop, hcan⟩ := after_eq set calls
  cases c with
  | resume =>
      simp only [events, Pdata.step, Pdata.resume, expected, Tells, onResume_iff, callback_iff]
      omega
  | suspend =>
      simp only [events, Pdata.step, Pdata.suspend, expected, Tells, onSuspend_iff, callback_iff]
      omega
  | handler op => simp only [events, Pdata.step, Pdata.setHandler, expected, hop, Tells]
  | cancel => simp only [events, Pdata.step, Pdata.cancel, expected, hcan, Tells]
  | notify dt => exact events_notify_iff dt

theorem tells_iff (hlen : calls.length < 2 ^ 64 - 1) (c : Call O D) :
    Tells calls c ↔ ∀ dt, c = .notify dt → installed calls ≠ none → cancelled calls = false →
      0 ≤ net calls := by
  have hbounds := net_bounds calls
  cases c with
  | notify dt =>
      have hgate : (net calls % 2 ^ 64 ≠ 0 ↔ 1 ≤ net calls) ↔ 0 ≤ net calls := by omega
      simp only [Tells, hgate, Call.notify.injEq, forall_eq']
  | resume => exact iff_of_true (fun hmod ↦ by omega) fun dt h ↦ by cases h
  | suspend => exact iff_of_true (fun hmod ↦ by omega) fun dt h ↦ by cases h
  | handler op => exact iff_of_true trivial fun dt h ↦ by cases h
  | cancel => exact iff_of_true trivial fun dt h ↦ by cases h

end Single

/-- Histories whose calls all do what the calls before them ask for. -/
theorem gated_iff (set : Setting O) (calls : List (Call O D)) :
    ((∀ p c, p ++ [c] <+: calls → events set p c = expected set p c) ↔
      ∀ p c, p ++ [c] <+: calls → Tells p c) ∧
    (calls.length < 2 ^ 64 → ((∀ p c, p ++ [c] <+: calls → Tells p c) ↔
      ∀ p dt, p ++ [.notify dt] <+: calls → installed p ≠ none → cancelled p = false →
        0 ≤ net p)) := by
  refine ⟨by simp only [events_iff_tells], fun hlen ↦ ?_⟩
  have hshort : ∀ {p : List (Call O D)} {c}, p ++ [c] <+: calls → p.length < 2 ^ 64 - 1 := by
    intro p c hp
    have hle := hp.length_le
    rw [List.length_append, List.length_singleton] at hle
    omega
  constructor
  · intro h p dt hp
    exact (tells_iff (hshort hp) _).mp (h p _ hp) dt rfl
  · intro h p c hp
    refine (tells_iff (hshort hp) c).mpr fun dt hc ↦ ?_
    exact h p dt (hc ▸ hp)

def resumedOnce : List (Call Unit ℕ) := [.handler (), .resume, .notify 7]

theorem gated_iff_resumedOnce :
    events ⟨fun _ ↦ false, true⟩ [.handler (), .resume] (.notify 7) = [.run () 7] := by
  obtain ⟨hiff, hshort⟩ := gated_iff ⟨fun _ ↦ false, true⟩ resumedOnce
  have hgated := hiff.mpr ((hshort (by decide)).mpr fun p dt hp _ _ ↦ by
    have htake : p = resumedOnce.take p.length :=
      List.prefix_iff_eq_take.mp ((List.prefix_append p _).trans hp)
    have hlt : p.length < 3 := by
      have hle := hp.length_le
      rw [List.length_append] at hle
      exact hle
    have hnet : ∀ n < 3, 0 ≤ net (resumedOnce.take n) := by decide
    rw [htake]
    exact hnet p.length hlt)
  rw [hgated [.handler (), .resume] (.notify 7) (List.prefix_refl _)]
  decide

/-- A source that is suspended once more than it has been resumed lets its handler through. -/
theorem handler_runs_below_zero :
    events ⟨fun _ ↦ false, true⟩ [.handler (), .suspend] (.notify 7 : Call Unit ℕ) = [.run () 7] ∧
      net [(.handler () : Call Unit ℕ), .suspend] = -1 := by
  decide

/-! ## The same calls on the private data with its operations -/

section View

variable [DecidableEq O]

def view (st : Handlers.State O D) : Pdata O := ⟨st.suspendCt, st.cancelled, st.handler⟩

def Call.act : Call O D → Handlers.Act O D
  | .resume => .resume
  | .suspend => .suspend
  | .handler op => .handler op
  | .cancel => .cancel
  | .notify dt => .notify dt

def Event.item : Event O D → Option (Handlers.Item O D)
  | .submit op dt => some (.notify dt op)
  | _ => none

def Event.invoked : Event O D → Option O
  | .run op _ => some op
  | _ => none

variable {st : Handlers.State O D}

theorem view_delete (s : Option O) : view (st.delete set s) = view st := by
  unfold Handlers.State.delete
  split
  · rfl
  · split <;> rfl

theorem handles_delete (s : Option O) : (st.delete set s).handles = st.handles := by
  unfold Handlers.State.delete
  split
  · rfl
  · split <;> rfl

omit [DecidableEq O] in
theorem notify_view (st : Handlers.State O D) (dt : D) :
    view (st.notify set dt) = view st ∧ (st.notify set dt).handles = st.handles ∧
      (st.notify set dt).cancelHandler = st.cancelHandler ∧
      (st.notify set dt).items = st.items ++ ((view st).notify set dt).filterMap Event.item ∧
      (st.notify set dt).invocations.map Prod.fst =
        st.invocations.map Prod.fst ++ ((view st).notify set dt).filterMap Event.invoked := by
  obtain ⟨handles, suspendCt, cancelled, handler, cancelHandler, items, deletes, invocations⟩ := st
  simp only [Handlers.State.notify, Pdata.notify, view]
  by_cases hct : suspendCt ≤ 0
  · simp only [hct, if_true, List.filterMap_nil, List.append_nil, and_self]
  · simp only [hct, if_false]
    cases handler with
    | none => simp
    | some op =>
        cases cancelled with
        | true => simp
        | false =>
            cases set.fastDispatch <;> simp [Handlers.State.invoke, Event.item, Event.invoked]

/-- A source without a cancel handler goes through the same states, and what is put on the target
queue and what is invoked are the events of the call. -/
theorem step_view (hhandles : st.handles ≠ 0) (hcancel : st.cancelHandler = none) (c : Call O D) :
    ∃ st', Handlers.step set c.act st = some st' ∧ view st' = ((view st).step set c).1 ∧
      st'.handles = st.handles ∧ st'.cancelHandler = none ∧
      st'.items = st.items ++ ((view st).step set c).2.filterMap Event.item ∧
      st'.invocations.map Prod.fst =
        st.invocations.map Prod.fst ++ ((view st).step set c).2.filterMap Event.invoked := by
  cases c with
  | resume =>
      refine ⟨_, if_neg hhandles, rfl, rfl, hcancel, ?_⟩
      simp only [Pdata.step, Pdata.resume]
      split <;> simp [Event.item, Event.invoked]
  | suspend =>
      refine ⟨_, if_neg hhandles, rfl, rfl, hcancel, ?_⟩
      simp only [Pdata.step, Pdata.suspend]
      split <;> simp [Event.item, Event.invoked]
  | handler op =>
      refine ⟨_, if_neg hhandles, ?_, ?_, ?_, ?_⟩
      · exact view_delete set _
      · exact handles_delete set _
      · exact (Handlers.State.delete_cancelHandler _).trans hcancel
      · simp only [Handlers.State.setHandler, Handlers.State.delete_items,
          Handlers.State.delete_invocations, Pdata.step, Pdata.setHandler]
        cases (view st).handler.filter set.autoDelete <;> simp [Event.item, Event.invoked]
  | cancel =>
      refine ⟨_, if_neg hhandles, ?_⟩
      simp only [Handlers.State.cancel, Pdata.step, Pdata.cancel, hcancel]
      cases hcan : st.cancelled <;> simp [view, hcan, hcancel, Event.item, Event.invoked]
  | notify dt =>
      obtain ⟨hview, hsame, hch, hitems, hinv⟩ := notify_view set st dt
      exact ⟨_, if_neg hhandles, hview, hsame, hch.trans hcancel, hitems, hinv⟩

end View

end LibDispatch.Wrapper.Gate
