import LibDispatch.Interleaving.Sequence
import LibDispatch.Kevent.Manager

/-!
# The registry over the bundled event queue

Where the system has no `kqueue`, the library registers its kevents with a library that
provides one.  What a change does there is decided by the order in which `kevent_copyin_one`
looks at its flags, and what the caller hears of it is the receipt that `kevent_copyin`
writes.  The registry on top is the one of the manager.
-/

namespace LibDispatch.Kqueue

open Kevent (Filter SourceType Host Dk Change Receipt EventQueue ENOENT setKnote)

/-! ## The event queue -/

structure Flags extends Kevent.Flags where
  evDisable : Bool := false
  evReceipt : Bool := false
  evError : Bool := false
  deriving DecidableEq

structure Kev (U : Type*) where
  ident : ℕ
  filter : Filter
  flags : Flags
  fflags : BitVec 32
  data : ℕ
  udata : U
  deriving DecidableEq

def EFAULT : ℕ := 14
def EINVAL : ℕ := 22
def ENOSYS : ℕ := 38

/-- The functions of the filters, as far as they change the `kev` of a knote, and what the
masks depend on: `kn_create` and `kn_enable` keep the flags of the filter, `kn_modify` takes
the given ones. -/
structure Filters (U : Type*) where
  implemented : Filter → Bool
  knCreate : Kev U → Kev U
  knModify : Kev U → Kev U → Kev U
  knEnable : Kev U → Kev U
  knDisable : Kev U → Kev U
  knCreate_fflags : ∀ kn, (knCreate kn).fflags = kn.fflags
  knModify_fflags : ∀ kn src, (knModify kn src).fflags = src.fflags
  knEnable_fflags : ∀ kn, (knEnable kn).fflags = kn.fflags

/-- How the system answers while a change is made: whether there is memory for a knote, the
`errno` that a function of the filter fails with, and that of `kn_disable` on a new knote. -/
structure Answer where
  memory : Bool := true
  error : Option ℕ := none
  disableError : Option ℕ := none
  deriving DecidableEq

abbrev Knotes (U : Type*) := ℕ → Filter → Option (Kev U)

/-- The event queue with its filters.  The second field is history: a registration has failed. -/
structure Queue {U : Type*} (fs : Filters U) where
  knotes : Knotes U
  failed : Bool

section Copyin

variable {U : Type*} (fs : Filters U) (knotes : Knotes U)

/-- The error of `filter_lookup`.  The filters that the library made up are outside of the
table. -/
def filterLookup (filter : Filter) : Option ℕ :=
  if filter.isStatic then some EINVAL
  else if fs.implemented filter then none
  else some ENOSYS

def filterKnoteCreate (src : Kev U) (answer : Answer) : Except ℕ (Kev U) :=
  if answer.memory then
    if answer.error = none then
      .ok (fs.knCreate { src with flags.evEnable := false, flags.evAdd := true })
    else .error EFAULT
  else .error ENOENT

/-- `kevent_copyin_one`: the knotes and the `errno`, if the change fails. -/
def keventCopyinOne (src : Kev U) (answer : Answer) : Knotes U × Option ℕ :=
  if src.flags.evDispatch ∧ src.flags.evOneshot then (knotes, some EINVAL)
  else
    match filterLookup fs src.filter with
    | some errno => (knotes, some errno)
    | none =>
        match knotes src.ident src.filter with
        | none =>
            if src.flags.evAdd then
              match filterKnoteCreate fs src answer with
              | .error errno => (knotes, some errno)
              | .ok kn =>
                  if src.flags.evDisable then
                    (setKnote knotes src.ident src.filter
                      (fs.knDisable { kn with flags.evDisable := true }), answer.disableError)
                  else (setKnote knotes src.ident src.filter kn, none)
            else (knotes, some ENOENT)
        | some kn =>
            if src.flags.evDelete then (setKnote knotes src.ident src.filter none, none)
            else if src.flags.evDisable then
              (setKnote knotes src.ident src.filter
                (fs.knDisable { kn with flags.evDisable := true }), answer.error)
            else if src.flags.evEnable then
              (setKnote knotes src.ident src.filter
                (fs.knEnable { kn with flags.evDisable := false }), answer.error)
            else if src.flags.evAdd ∨ src.flags = {} ∨ src.flags.evReceipt then
              (setKnote knotes src.ident src.filter
                (fs.knModify { kn with udata := src.udata } src), answer.error)
            else (knotes, none)

/-- `kevent_copyin` with room for `nevents` receipts: the knotes and the receipts, none if the
call fails.  A receipt is a copy of the change with the status in `data`. -/
def keventCopyin : Knotes U → List (Kev U × Answer) → ℕ → Knotes U × Option (List (Kev U))
  | knotes, [], _ => (knotes, some [])
  | knotes, (src, answer) :: changes, nevents =>
      match keventCopyinOne fs knotes src answer with
      | (knotes', none) =>
          if src.flags.evReceipt then
            match nevents with
            | 0 => (knotes', none)
            | n + 1 =>
                let r := keventCopyin knotes' changes n
                (r.1, r.2.map ({ src with data := 0 } :: ·))
          else keventCopyin knotes' changes nevents
      | (knotes', some errno) =>
          match nevents with
          | 0 => (knotes', none)
          | n + 1 =>
              let r := keventCopyin knotes' changes n
              (r.1, r.2.map ({ src with data := errno } :: ·))

end Copyin

/-! ## The registry on top of it -/

variable {S : Type*}

/-- The kevent that is passed to `kevent()`. -/
def Kev.ofChange (c : Change S) : Kev (Dk S) :=
  ⟨c.ident, c.filter, { toFlags := c.flags, evReceipt := true }, c.fflags, 0, c.udata⟩

/-- As the receipt takes the room, the call does not wait. -/
instance (fs : Filters (Dk S)) : EventQueue S (Queue fs) Answer where
  kevent q c answer :=
    let src := Kev.ofChange c
    let r := keventCopyin fs q.knotes [(src, answer)] 1
    let failed := c.flags.evAdd && !c.flags.evDelete &&
      (keventCopyinOne fs q.knotes src answer).2.isSome
    (⟨r.1, q.failed || failed⟩, r.2.map fun receipts ↦
      let receipt := receipts.headD src
      ⟨receipt.data, receipt.flags.evError⟩)

abbrev State (fs : Filters (Dk S)) := Kevent.State S (Queue fs)

variable {fs : Filters (Dk S)} {answer : Answer}

theorem keventCopyin_ofChange (knotes : Knotes (Dk S)) (c : Change S) :
    keventCopyin fs knotes [(Kev.ofChange c, answer)] 1 =
      ((keventCopyinOne fs knotes (Kev.ofChange c) answer).1,
        some [{ Kev.ofChange c with
          data := (keventCopyinOne fs knotes (Kev.ofChange c) answer).2.getD 0 }]) := by
  have hreceipt : (Kev.ofChange c).flags.evReceipt = true := rfl
  unfold keventCopyin
  rcases keventCopyinOne fs knotes (Kev.ofChange c) answer with ⟨knotes', _ | errno⟩
  · simp [hreceipt, keventCopyin]
  · simp [keventCopyin]

/-- The receipt has the error in `data`, and is not marked with `EV_ERROR`. -/
@[simp] theorem eventQueue_kevent (q : Queue fs) (c : Change S) :
    EventQueue.kevent q c answer =
      (⟨(keventCopyinOne fs q.knotes (Kev.ofChange c) answer).1,
        q.failed || (c.flags.evAdd && !c.flags.evDelete &&
          (keventCopyinOne fs q.knotes (Kev.ofChange c) answer).2.isSome)⟩,
        some ⟨(keventCopyinOne fs q.knotes (Kev.ofChange c) answer).2.getD 0, false⟩) := by
  simp only [EventQueue.kevent, keventCopyin_ofChange]
  rfl

/-- The `errno` in the receipt of the change that is made for a kevent. -/
def receiptData (st : State fs) (dk : Dk S) (answer : Answer) : ℕ :=
  ((EventQueue.kevent st.kq.knotes (st.change dk) answer).2.map Receipt.data).getD 0

/-! ## Runs -/

/-- Sources are created, installed and removed. -/
inductive Act (S : Type*)
  | create (ds : S) (ty : SourceType) (handle : ℕ) (mask : BitVec 64)
  | install (ds : S) (answer : Answer)
  | remove (ds : S) (answer : Answer)

variable [DecidableEq S]

def step (host : Host) (fs : Filters (Dk S)) (a : Act S) (st : State fs) : Option (State fs) :=
  match a with
  | .create ds ty handle mask => st.dispatchSourceCreate host ds ty handle mask
  | .install ds answer => (st.reg.ds ds).bind fun x ↦
      match x.dsIsInstalled, x.dsDkev with
      | false, some _ => some (st.dispatchKeventMerge ds x answer)
      | _, _ => none
  | .remove ds answer => (st.reg.ds ds).bind fun x ↦
      match x.dsIsInstalled, x.dsDkev with
      | true, some dk => some (st.dispatchKeventRelease ds x dk answer)
      | _, _ => none

def initial (fs : Filters (Dk S)) : State fs := Kevent.initialOver ⟨fun _ _ ↦ none, false⟩

def Runs (host : Host) (fs : Filters (Dk S)) (C : State fs → Act S → Prop) : State fs → Prop :=
  Interleaving.Sequence.Runs (step host fs) C (initial fs)

end LibDispatch.Kqueue
