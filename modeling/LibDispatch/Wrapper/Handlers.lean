import LibDispatch.Interleaving.Sequence
import Mathlib.Data.List.Count
import Mathlib.Data.List.Perm.Basic

/-!
# Handler operations of a source

`xdispatch::source` keeps its handlers in private data that all its handles share.  A
notification that is put on the target queue has the pointer of the operation that was the
handler then; the private data deletes an operation when it is replaced and when the last
handle goes away.
-/

namespace LibDispatch.Wrapper.Handlers

open Interleaving.Sequence (Runs run runs_get)

/-! ## The private data -/

/-- What the source has put on its target queue. -/
inductive Item (O D : Type*)
  /-- a `src_notify_operation` -/
  | notify (dt : D) (op : O)
  | cancel (op : O)
  deriving DecidableEq

/-- `source::pdata`.  The last two fields are history: how often an operation has been deleted,
and which operations have been invoked, with the number of their deletions at that time. -/
structure State (O D : Type*) where
  handles : ℕ
  suspendCt : UInt64
  cancelled : Bool
  handler : Option O
  cancelHandler : Option O
  items : List (Item O D)
  deletes : O → ℕ
  invocations : List (O × ℕ)

/-- The source as its constructor leaves it, suspended. -/
def initial {O D : Type*} : State O D := ⟨1, 0, false, none, none, [], fun _ ↦ 0, []⟩

/-- What does not change: the operations with `auto_delete()`, and `fast_dispatch()` of the
source. -/
structure Setting (O : Type*) where
  autoDelete : O → Bool
  fastDispatch : Bool

variable {O D : Type*} [DecidableEq O] (set : Setting O)

namespace State

/-- `if( op && op->auto_delete() ) delete op` -/
def delete (st : State O D) : Option O → State O D
  | none => st
  | some op =>
      if set.autoDelete op then
        { st with deletes := Function.update st.deletes op (st.deletes op + 1) }
      else st

omit [DecidableEq O] in
def invoke (st : State O D) (op : O) : State O D :=
  { st with invocations := st.invocations ++ [(op, st.deletes op)] }

def setHandler (st : State O D) (op : O) : State O D :=
  { st with handler := some op }.delete set st.handler

def setCancelHandler (st : State O D) (op : O) : State O D :=
  { st with cancelHandler := some op }.delete set st.cancelHandler

omit [DecidableEq O] in
def notify (st : State O D) (dt : D) : State O D :=
  if st.suspendCt ≤ 0 then st
  else match st.handler with
    | none => st
    | some op =>
        if st.cancelled then st
        else if set.fastDispatch then st.invoke op
        else { st with items := st.items ++ [.notify dt op] }

omit [DecidableEq O] in
def cancel (st : State O D) : State O D :=
  if st.cancelled then st
  else
    { st with
      cancelled := true
      cancelHandler := none
      items := st.items ++ (st.cancelHandler.map .cancel).toList }

/-- A handle goes away; with the last one `~pdata` runs. -/
def destroy (st : State O D) : State O D :=
  if st.handles = 1 then
    ({ st with handles := 0, handler := none, cancelHandler := none }.delete set st.handler).delete
      set st.cancelHandler
  else { st with handles := st.handles - 1 }

/-- `_xdispatch_run_operation` on the operation of an item, which deletes the operation
itself: that of a notification is a `src_notify_operation`, and what it points to stays. -/
def runItem (st : State O D) : Item O D → State O D
  | .notify _ op => st.invoke op
  | .cancel op => (st.invoke op).delete set op

end State

/-! ## Runs -/

/-- The calls through a handle, and what the target queue does, in whichever order. -/
inductive Act (O D : Type*)
  | copy
  | destroy
  | resume
  | suspend
  | handler (op : O)
  | cancelHandler (op : O)
  | cancel
  | notify (dt : D)
  | run (i : ℕ)

def step (a : Act O D) (st : State O D) : Option (State O D) :=
  match a with
  | .run i => st.items[i]?.map fun item ↦ { st with items := st.items.eraseIdx i }.runItem set item
  | a =>
      if st.handles = 0 then none
      else match a with
        | .copy => some { st with handles := st.handles + 1 }
        | .destroy => some (st.destroy set)
        | .resume => some { st with suspendCt := st.suspendCt + 1 }
        | .suspend => some { st with suspendCt := st.suspendCt - 1 }
        | .handler op => some (st.setHandler set op)
        | .cancelHandler op => some (st.setCancelHandler set op)
        | .cancel => some st.cancel
        | .notify dt => some (st.notify set dt)
        | .run _ => none

/-! ## Who deletes an operation -/

def slot (s : Option O) (op : O) : ℕ := if s = some op then 1 else 0

def Item.owns (op : O) : Item O D → Bool
  | .notify _ _ => false
  | .cancel op' => op' = op

/-- The places from which the operation is going to be deleted. -/
def State.owners (st : State O D) (op : O) : ℕ :=
  slot st.handler op + slot st.cancelHandler op + st.items.countP (Item.owns op)

def Item.notifies (op : O) : Item O D → Bool
  | .notify _ op' => op' = op
  | .cancel _ => false

/-- No notification that waits on the target queue has to invoke the operation. -/
def State.settled (st : State O D) (op : O) : Bool :=
  set.autoDelete op → st.items.all fun item ↦ !item.notifies op

def State.unowned (st : State O D) (op : O) : Bool :=
  set.autoDelete op → st.owners op + st.deletes op = 0

/-- An operation that is deleted automatically is given to the source once, and replaced, or
left to the last handle, only when no notification that waits on the target queue has to
invoke it. -/
def outlives (st : State O D) : Act O D → Bool
  | .handler op => st.unowned set op && st.handler.all (st.settled set)
  | .cancelHandler op => st.unowned set op
  | .destroy => st.handles ≠ 1 || st.handler.all (st.settled set)
  | _ => true

variable {set} {st st' : State O D} {op o : O}

structure Inv (set : Setting O) (st : State O D) : Prop where
  once : ∀ op, set.autoDelete op → st.owners op + st.deletes op ≤ 1
  never : ∀ op, set.autoDelete op = false → st.deletes op = 0
  notified : ∀ dt op, .notify dt op ∈ st.items → set.autoDelete op → st.handler = some op
  invoked : ∀ p ∈ st.invocations, p.2 = 0

namespace State

@[simp] theorem delete_handler (s : Option O) : (st.delete set s).handler = st.handler := by
  unfold delete
  split
  · rfl
  · split <;> rfl

@[simp] theorem delete_cancelHandler (s : Option O) :
    (st.delete set s).cancelHandler = st.cancelHandler := by
  unfold delete
  split
  · rfl
  · split <;> rfl

@[simp] theorem delete_items (s : Option O) : (st.delete set s).items = st.items := by
  unfold delete
  split
  · rfl
  · split <;> rfl

@[simp] theorem delete_invocations (s : Option O) :
    (st.delete set s).invocations = st.invocations := by
  unfold delete
  split
  · rfl
  · split <;> rfl

theorem delete_deletes_of_auto (h : set.autoDelete op) (s : Option O) :
    (st.delete set s).deletes op = st.deletes op + slot s op := by
  unfold delete slot
  split
  · rfl
  · rename_i o
    rcases eq_or_ne op o with rfl | hne
    · simp [h]
    · by_cases ho : set.autoDelete o = true
      · simp [ho, hne, hne.symm]
      · simp [ho, hne.symm]

theorem delete_deletes_of_not (h : set.autoDelete op = false) (s : Option O) :
    (st.delete set s).deletes op = st.deletes op := by
  unfold delete
  split
  · rfl
  · rename_i o
    split
    · rename_i ho
      have hne : op ≠ o := by
        rintro rfl
        rw [h] at ho
        cases ho
      exact Function.update_of_ne hne _ _
    · rfl

@[simp] theorem delete_owners (s : Option O) : (st.delete set s).owners op = st.owners op := by
  simp [owners]

end State

theorem slot_some_self : slot (some op) op = 1 := if_pos rfl

theorem slot_none : slot none op = 0 := if_neg nofun

theorem Inv.deletes_of_handler (hi : Inv set st) (h : st.handler = some op) :
    st.deletes op = 0 := by
  cases ha : set.autoDelete op with
  | false => exact hi.never op ha
  | true =>
      have honce := hi.once op ha
      rw [State.owners, h, slot_some_self] at honce
      omega

theorem Inv.deletes_of_mem (hi : Inv set st) {item : Item O D} (hmem : item ∈ st.items)
    (h : item.owns op ∨ item.notifies op) : st.deletes op = 0 := by
  cases ha : set.autoDelete op with
  | false => exact hi.never op ha
  | true =>
      cases item with
      | notify dt o =>
          obtain rfl : o = op := by simpa [Item.owns, Item.notifies] using h
          exact hi.deletes_of_handler (hi.notified dt o hmem ha)
      | cancel o =>
          have hpos : 0 < st.items.countP (Item.owns op) :=
            List.countP_pos_iff.mpr ⟨_, hmem, by simpa [Item.notifies] using h⟩
          have honce := hi.once op ha
          rw [State.owners] at honce
          omega

theorem settled_of_all {s : Option O} (h : s.all (st.settled set)) (hs : s = some op)
    (ha : set.autoDelete op) (dt : D) : .notify dt op ∉ st.items := by
  intro hmem
  subst hs
  have hall : ∀ item ∈ st.items, item.notifies op = false := by
    simpa [State.settled, ha] using h
  exact absurd (hall _ hmem) (by simp [Item.notifies])

/-! ## Steps -/

theorem Inv.once_install (hi : Inv set st) (hown : st.unowned set op) (ha : set.autoDelete o) :
    st.owners o + st.deletes o + slot (some op) o ≤ 1 := by
  rcases eq_or_ne o op with rfl | hne
  · have hzero : st.owners o + st.deletes o = 0 := by simpa [State.unowned, ha] using hown
    rw [slot_some_self]
    omega
  · have hslot : slot (some op) o = 0 := if_neg (by simpa using hne.symm)
    rw [hslot]
    exact hi.once o ha

theorem Inv.setHandler (hi : Inv set st) (hown : st.unowned set op)
    (hsettled : st.handler.all (st.settled set)) : Inv set (st.setHandler set op) := by
  unfold State.setHandler
  refine ⟨fun o ha ↦ ?_, fun o ha ↦ ?_, fun dt o hmem ha ↦ ?_, ?_⟩
  · have honce := hi.once_install hown ha
    rw [State.delete_owners, State.delete_deletes_of_auto ha]
    simp only [State.owners] at honce ⊢
    omega
  · rw [State.delete_deletes_of_not ha]
    exact hi.never o ha
  · rw [State.delete_items] at hmem
    exact (settled_of_all hsettled (hi.notified dt o hmem ha) ha dt hmem).elim
  · rw [State.delete_invocations]
    exact hi.invoked

theorem Inv.setCancelHandler (hi : Inv set st) (hown : st.unowned set op) :
    Inv set (st.setCancelHandler set op) := by
  unfold State.setCancelHandler
  refine ⟨fun o ha ↦ ?_, fun o ha ↦ ?_, fun dt o hmem ha ↦ ?_, ?_⟩
  · have honce := hi.once_install hown ha
    rw [State.delete_owners, State.delete_deletes_of_auto ha]
    simp only [State.owners] at honce ⊢
    omega
  · rw [State.delete_deletes_of_not ha]
    exact hi.never o ha
  · rw [State.delete_items] at hmem
    rw [State.delete_handler]
    exact hi.notified dt o hmem ha
  · rw [State.delete_invocations]
    exact hi.invoked

theorem Inv.invoke (hi : Inv set st) (h : st.deletes op = 0) : Inv set (st.invoke op) := by
  refine ⟨hi.once, hi.never, hi.notified, fun p hp ↦ ?_⟩
  rcases List.mem_append.mp hp with hp | hp
  · exact hi.invoked p hp
  · rw [List.mem_singleton.mp hp]
    exact h

theorem Inv.notify (hi : Inv set st) (dt : D) : Inv set (st.notify set dt) := by
  unfold State.notify
  split
  · exact hi
  · split
    · exact hi
    · rename_i op hop
      split
      · exact hi
      · split
        · exact hi.invoke (hi.deletes_of_handler hop)
        · refine ⟨fun o ha ↦ ?_, hi.never, fun dt' o hmem ha ↦ ?_, hi.invoked⟩
          · have honce := hi.once o ha
            simpa [State.owners, Item.owns] using honce
          · rcases List.mem_append.mp hmem with hmem | hmem
            · exact hi.notified dt' o hmem ha
            · cases List.mem_singleton.mp hmem
              exact hop

theorem Inv.cancel (hi : Inv set st) : Inv set st.cancel := by
  unfold State.cancel
  split
  · exact hi
  · refine ⟨fun o ha ↦ ?_, hi.never, fun dt o hmem ha ↦ ?_, hi.invoked⟩
    · have honce := hi.once o ha
      have hmoved : (st.cancelHandler.map Item.cancel).toList.countP (Item.owns (D := D) o) =
          slot st.cancelHandler o := by
        cases st.cancelHandler with
        | none => rfl
        | some c => simp [slot, Item.owns, List.countP_cons]
      simp only [State.owners, List.countP_append, hmoved, slot_none] at honce ⊢
      omega
    · rcases List.mem_append.mp hmem with hmem | hmem
      · exact hi.notified dt o hmem ha
      · simp at hmem

theorem Inv.destroy (hi : Inv set st)
    (hsettled : st.handles ≠ 1 ∨ st.handler.all (st.settled set)) :
    Inv set (st.destroy set) := by
  unfold State.destroy
  split
  · rename_i hlast
    refine ⟨fun o ha ↦ ?_, fun o ha ↦ ?_, fun dt o hmem ha ↦ ?_, ?_⟩
    · have honce := hi.once o ha
      rw [State.delete_owners, State.delete_owners, State.delete_deletes_of_auto ha,
        State.delete_deletes_of_auto ha]
      simp only [State.owners, slot_none] at honce ⊢
      omega
    · rw [State.delete_deletes_of_not ha, State.delete_deletes_of_not ha]
      exact hi.never o ha
    · rw [State.delete_items, State.delete_items] at hmem
      have hall := hsettled.resolve_left (not_not.mpr hlast)
      exact (settled_of_all hall (hi.notified dt o hmem ha) ha dt hmem).elim
    · rw [State.delete_invocations, State.delete_invocations]
      exact hi.invoked
  · exact ⟨hi.once, hi.never, hi.notified, hi.invoked⟩

/-- The queue takes an item: if it was the operation of a cancel handler, it is the item's
turn to delete it. -/
theorem Inv.runItem (hi : Inv set st) {i : ℕ} {item : Item O D} (hitem : st.items[i]? = some item) :
    Inv set ({ st with items := st.items.eraseIdx i }.runItem set item) := by
  obtain ⟨hlt, hget⟩ := List.getElem?_eq_some_iff.mp hitem
  have hmem : item ∈ st.items := hget ▸ List.getElem_mem hlt
  have hperm : (item :: st.items.eraseIdx i).Perm st.items :=
    hget ▸ List.getElem_cons_eraseIdx_perm hlt
  have hnotified : ∀ dt op, .notify dt op ∈ st.items.eraseIdx i → set.autoDelete op →
      st.handler = some op :=
    fun dt op h ha ↦ hi.notified dt op (List.mem_of_mem_eraseIdx h) ha
  cases item with
  | notify dt op =>
      have hlive : st.deletes op = 0 := hi.deletes_of_mem hmem (by simp [Item.notifies])
      have htaken : Inv set { st with items := st.items.eraseIdx i } := by
        refine ⟨fun o ha ↦ ?_, hi.never, hnotified, hi.invoked⟩
        have honce := hi.once o ha
        rw [State.owners, ← hperm.countP_eq, List.countP_cons_of_neg (by simp [Item.owns])] at honce
        exact honce
      exact htaken.invoke hlive
  | cancel op =>
      have hlive : st.deletes op = 0 := hi.deletes_of_mem hmem (by simp [Item.owns])
      refine ⟨fun o ha ↦ ?_, fun o ha ↦ ?_, fun dt o h ha ↦ ?_, fun p hp ↦ ?_⟩
      · have honce := hi.once o ha
        rw [State.owners, ← hperm.countP_eq, List.countP_cons] at honce
        have hslot : (if Item.owns o (.cancel op : Item O D) then 1 else 0) = slot (some op) o := by
          simp [Item.owns, slot]
        rw [State.runItem, State.delete_owners, State.delete_deletes_of_auto ha, ← hslot]
        change slot st.handler o + slot st.cancelHandler o +
          (st.items.eraseIdx i).countP (Item.owns o) + (st.deletes o + _) ≤ 1
        omega
      · rw [State.runItem, State.delete_deletes_of_not ha]
        exact hi.never o ha
      · rw [State.runItem, State.delete_items] at h
        rw [State.runItem, State.delete_handler]
        exact hnotified dt o h ha
      · rw [State.runItem, State.delete_invocations] at hp
        rcases List.mem_append.mp hp with hp | hp
        · exact hi.invoked p hp
        · rw [List.mem_singleton.mp hp]
          exact hlive

theorem Inv.step (hi : Inv set st) {a : Act O D} (hc : outlives set st a)
    (hs : step set a st = some st') : Inv set st' := by
  unfold Handlers.step at hs
  cases a with
  | run i =>
      obtain ⟨item, hitem, rfl⟩ := Option.map_eq_some_iff.mp hs
      exact hi.runItem hitem
  | copy =>
      obtain ⟨-, rfl⟩ := by simpa using hs
      exact ⟨hi.once, hi.never, hi.notified, hi.invoked⟩
  | destroy =>
      obtain ⟨-, rfl⟩ := by simpa using hs
      exact hi.destroy (by simpa [outlives] using hc)
  | resume =>
      obtain ⟨-, rfl⟩ := by simpa using hs
      exact ⟨hi.once, hi.never, hi.notified, hi.invoked⟩
  | suspend =>
      obtain ⟨-, rfl⟩ := by simpa using hs
      exact ⟨hi.once, hi.never, hi.notified, hi.invoked⟩
  | handler op =>
      obtain ⟨-, rfl⟩ := by simpa using hs
      obtain ⟨hown, hsettled⟩ := Bool.and_eq_true_iff.mp hc
      exact hi.setHandler hown hsettled
  | cancelHandler op =>
      obtain ⟨-, rfl⟩ := by simpa using hs
      exact hi.setCancelHandler hc
  | cancel =>
      obtain ⟨-, rfl⟩ := by simpa using hs
      exact hi.cancel
  | notify dt =>
      obtain ⟨-, rfl⟩ := by simpa using hs
      exact hi.notify dt

theorem inv_initial : Inv set (initial : State O D) :=
  ⟨fun _ _ ↦ Nat.zero_le 1, fun _ _ ↦ rfl, nofun, nofun⟩

/-- As long as operations are given to the source and taken from it like that, each is
deleted at most once and none is invoked after that. -/
theorem handlers_outlive_notifications
    (hr : Runs (step set) (fun st a ↦ outlives set st a) initial st) :
    (∀ op, st.deletes op ≤ 1) ∧ ∀ p ∈ st.invocations, p.2 = 0 := by
  have hi : Inv set st := hr.invariant inv_initial fun _ _ _ hi hc hs ↦ hi.step hc hs
  refine ⟨fun op ↦ ?_, hi.invoked⟩
  cases ha : set.autoDelete op with
  | false =>
      rw [hi.never op ha]
      exact Nat.zero_le 1
  | true => exact Nat.le_trans (Nat.le_add_left _ _) (hi.once op ha)

/-- Every operation is deleted automatically, and notifications go through the queue. -/
def queued : Setting ℕ := ⟨fun _ ↦ true, false⟩

/-- The first handler is replaced after its notification has run, the second one goes with
the last handle, and the cancel handler runs after that. -/
def settledState : State ℕ Unit :=
  (run (step queued) (fun st a ↦ outlives queued st a) initial
    [.handler 0, .resume, .notify (), .run 0, .handler 1, .cancelHandler 2, .copy, .destroy,
      .cancel, .destroy, .run 0]).get (by decide)

theorem handlers_outlive_notifications_settled :
    (∀ op, settledState.deletes op ≤ 1) ∧ ∀ p ∈ settledState.invocations, p.2 = 0 :=
  handlers_outlive_notifications (runs_get _)

/-- The handler is replaced while a notification waits; the item invokes the operation that
was deleted.  The same happens when the last handle goes away, and an operation that is given
to the source again is deleted twice. -/
theorem deleted_handler_invoked :
    ∃ replaced gone repeated : State ℕ Unit,
      Runs (step queued) (fun _ _ ↦ True) initial replaced ∧ (0, 1) ∈ replaced.invocations ∧
      Runs (step queued) (fun _ _ ↦ True) initial gone ∧ (0, 1) ∈ gone.invocations ∧
      Runs (step queued) (fun _ _ ↦ True) initial repeated ∧ repeated.deletes 0 = 2 := by
  refine ⟨_, _, _,
    runs_get (l := [.handler 0, .resume, .notify (), .handler 1, .run 0]) (by decide), by decide,
    runs_get (l := [.handler 0, .resume, .notify (), .destroy, .run 0]) (by decide), by decide,
    runs_get (l := [.handler 0, .handler 0, .destroy]) (by decide), by decide⟩

end LibDispatch.Wrapper.Handlers
