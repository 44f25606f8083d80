import LibDispatch.Kevent.Descriptors

/-!
# Removing one direction of a descriptor

The two directions of a descriptor are registered apart, each with the kernel queue or, if that
refuses it, with `select()`.  To delete a registration, `_dispatch_update_kq` looks into the sets
of `select()` first and asks the kernel queue only if it finds nothing there.  The case of
`EVFILT_READ` does not end with its own set: it goes on to the set of `EVFILT_WRITE`.
-/

namespace LibDispatch.Kevent

open Interleaving.Sequence (run runs_get)

namespace Kq

variable {S : Type*} (kq : Kq S (Knotes S))

def clearRead (fd : ℕ) : Kq S (Knotes S) :=
  { kq with
    dispatchRfds := Function.update kq.dispatchRfds fd false
    dispatchRfdPtrs := Function.update kq.dispatchRfdPtrs fd none }

def clearWrite (fd : ℕ) : Kq S (Knotes S) :=
  { kq with
    dispatchWfds := Function.update kq.dispatchWfds fd false
    dispatchWfdPtrs := Function.update kq.dispatchWfdPtrs fd none }

/-- The `switch` over the filters of a deletion; none if the deletion is passed on to the kernel
queue. -/
def deleteWatched (fd : ℕ) : Filter → Option (Kq S (Knotes S))
  | .read =>
      if kq.dispatchRfds fd then some (kq.clearRead fd)
      -- there is no `break`
      else if kq.dispatchWfds fd then some (kq.clearWrite fd)
      else none
  | .write => if kq.dispatchWfds fd then some (kq.clearWrite fd) else none
  | _ => none

/-- What a deletion has to do: it leaves every other registration with `select()` alone, is passed
on to the kernel queue if `select()` does not know the registration, and in the end the
registration is gone. -/
structure Removes (kq kq' : Kq S (Knotes S)) (fd : ℕ) (filter : Filter) (passed : Prop) : Prop where
  reads : ∀ i, ¬ (filter = .read ∧ i = fd) →
    kq'.dispatchRfds i = kq.dispatchRfds i ∧ kq'.dispatchRfdPtrs i = kq.dispatchRfdPtrs i
  writes : ∀ i, ¬ (filter = .write ∧ i = fd) →
    kq'.dispatchWfds i = kq.dispatchWfds i ∧ kq'.dispatchWfdPtrs i = kq.dispatchWfdPtrs i
  passed_iff : passed ↔ kq.watches fd filter = false
  unwatched : kq'.watches fd filter = false
  unregistered : kq'.knotes fd filter = none

/-- What has to be known for that: the other direction does not get in the way, the registration
is not at both places, and the kernel queue takes the call.  A deletion that asks for a
registration as well has to find something to delete. -/
structure Removable (fd : ℕ) (filter : Filter) (evAdd : Bool) (answer : Option ℕ) : Prop where
  direction : filter = .read → kq.dispatchRfds fd ∨ kq.dispatchWfds fd = false
  place : kq.knotes fd filter ≠ none → kq.watches fd filter = false ∧ answer ≠ none
  found : evAdd → kq.watches fd filter ∨ kq.knotes fd filter ≠ none ∨ answer = none

end Kq

variable {S : Type*} [DecidableEq S] {st : Manager S} {dk : Dk S} {answer : Option ℕ}

theorem dispatchUpdateKq_delete (hdelete : (st.flags dk).evDelete) :
    st.dispatchUpdateKq dk answer =
      match st.kq.deleteWatched (st.reg.dk dk).ident (st.reg.dk dk).filter with
      | some kq => { st with kq := kq }
      | none => st.changeKq dk answer := by
  simp only [State.dispatchUpdateKq, hdelete, true_and]
  generalize (st.reg.dk dk).ident = fd
  cases (st.reg.dk dk).filter with
  | read =>
      by_cases hr : st.kq.dispatchRfds fd = true
      · simp [Kq.deleteWatched, hr, Kq.clearRead]
      · by_cases hw : st.kq.dispatchWfds fd = true <;>
          simp [Kq.deleteWatched, hr, hw, Kq.clearWrite]
  | write =>
      by_cases hw : st.kq.dispatchWfds fd = true <;> simp [Kq.deleteWatched, hw, Kq.clearWrite]
  | _ => simp [Kq.deleteWatched]

section Delete

variable (hdelete : (st.flags dk).evDelete) (errno : ℕ)

include hdelete

theorem changeKq_delete_of_some
    (h : st.kq.knotes (st.reg.dk dk).ident (st.reg.dk dk).filter ≠ none) :
    st.changeKq dk (some errno) = { st with
      kq.knotes := setKnote st.kq.knotes (st.reg.dk dk).ident (st.reg.dk dk).filter none } := by
  obtain ⟨kn, hkn⟩ := Option.ne_none_iff_exists'.mp h
  have hkevent : kevent st.kq.knotes (st.change dk) errno =
      (setKnote st.kq.knotes (st.reg.dk dk).ident (st.reg.dk dk).filter none, 0) := by
    simp [kevent, State.change, hdelete, hkn]
  simp only [State.changeKq, eventQueue_kevent, hkevent]
  simp

theorem changeKq_delete_of_none
    (h : st.kq.knotes (st.reg.dk dk).ident (st.reg.dk dk).filter = none) :
    st.changeKq dk (some errno) =
      if (st.flags dk).evAdd then st.registrationFailed dk ⟨ENOENT, true⟩ else st := by
  have hkevent : kevent st.kq.knotes (st.change dk) errno = (st.kq.knotes, ENOENT) := by
    simp [kevent, State.change, hdelete, h]
  simp only [State.changeKq, eventQueue_kevent, hkevent]
  simp [ENOENT, EBADF]

end Delete

section Cases

variable {kq : Kq S (Knotes S)} {fd : ℕ} {filter : Filter}

omit [DecidableEq S] in
theorem removes_iff_of_watches (h : kq.watches fd filter) :
    ∃ kq', kq.deleteWatched fd filter = some kq' ∧
      (kq.Removes kq' fd filter (kq.deleteWatched fd filter = none) ↔
        kq.knotes fd filter = none) := by
  have hpassed {kq' : Kq S (Knotes S)} (heq : kq.deleteWatched fd filter = some kq') :
      kq.deleteWatched fd filter = none ↔ kq.watches fd filter = false := by simp [heq, h]
  cases filter with
  | read =>
      have hr : kq.dispatchRfds fd = true := h
      have heq : kq.deleteWatched fd .read = some (kq.clearRead fd) := if_pos hr
      refine ⟨_, heq, fun hremoves ↦ hremoves.unregistered, fun hnone ↦ ?_⟩
      refine ⟨fun i hi ↦ ?_, fun i _ ↦ ⟨rfl, rfl⟩, hpassed heq, Function.update_self _ _ _, hnone⟩
      have hne : i ≠ fd := fun heq ↦ hi ⟨rfl, heq⟩
      exact ⟨Function.update_of_ne hne _ _, Function.update_of_ne hne _ _⟩
  | write =>
      have hw : kq.dispatchWfds fd = true := h
      have heq : kq.deleteWatched fd .write = some (kq.clearWrite fd) := if_pos hw
      refine ⟨_, heq, fun hremoves ↦ hremoves.unregistered, fun hnone ↦ ?_⟩
      refine ⟨fun i _ ↦ ⟨rfl, rfl⟩, fun i hi ↦ ?_, hpassed heq, Function.update_self _ _ _, hnone⟩
      have hne : i ≠ fd := fun heq ↦ hi ⟨rfl, heq⟩
      exact ⟨Function.update_of_ne hne _ _, Function.update_of_ne hne _ _⟩
  | _ => cases h

omit [DecidableEq S] in
theorem deleteWatched_eq_none (hdesc : filter.isDescriptor) (h : kq.watches fd filter = false)
    (hdir : filter = .read → kq.dispatchRfds fd ∨ kq.dispatchWfds fd = false) :
    kq.deleteWatched fd filter = none := by
  cases filter with
  | read =>
      have hr : kq.dispatchRfds fd = false := h
      have hw : kq.dispatchWfds fd = false := (hdir rfl).resolve_left (by simp [hr])
      simp [Kq.deleteWatched, hr, hw]
  | write =>
      have hw : kq.dispatchWfds fd = false := h
      simp [Kq.deleteWatched, hw]
  | _ => cases hdesc

omit [DecidableEq S] in
theorem removes_of_passed {knotes : Knotes S}
    (hpassed : kq.deleteWatched fd filter = none) (h : kq.watches fd filter = false)
    (hnone : knotes fd filter = none) :
    kq.Removes { kq with knotes := knotes } fd filter (kq.deleteWatched fd filter = none) where
  reads _ _ := ⟨rfl, rfl⟩
  writes _ _ := ⟨rfl, rfl⟩
  passed_iff := iff_of_true hpassed h
  unwatched := by cases filter <;> exact h
  unregistered := hnone

end Cases

theorem removes_changeKq_iff (answer : Option ℕ) (hdelete : (st.flags dk).evDelete)
    (hdesc : (st.reg.dk dk).filter.isDescriptor)
    (hpassed : st.kq.deleteWatched (st.reg.dk dk).ident (st.reg.dk dk).filter = none)
    (hwatch : st.kq.watches (st.reg.dk dk).ident (st.reg.dk dk).filter = false) :
    st.kq.Removes (st.changeKq dk answer).kq (st.reg.dk dk).ident (st.reg.dk dk).filter
        (st.kq.deleteWatched (st.reg.dk dk).ident (st.reg.dk dk).filter = none) ↔
      (st.kq.knotes (st.reg.dk dk).ident (st.reg.dk dk).filter ≠ none → answer ≠ none) ∧
        ((st.flags dk).evAdd → st.kq.knotes (st.reg.dk dk).ident (st.reg.dk dk).filter ≠ none ∨
          answer = none) := by
  cases answer with
  | none =>
      have hsame : (st.changeKq dk none).kq = st.kq := rfl
      rw [hsame]
      constructor
      · intro h
        exact ⟨fun hne ↦ absurd h.unregistered hne, fun _ ↦ .inr rfl⟩
      · intro h
        exact removes_of_passed hpassed hwatch (not_not.mp fun hne ↦ h.1 hne rfl)
  | some errno =>
      by_cases hknote : st.kq.knotes (st.reg.dk dk).ident (st.reg.dk dk).filter = none
      · rw [changeKq_delete_of_none hdelete errno hknote]
        by_cases hadd : (st.flags dk).evAdd = true
        · have hback : (st.registrationFailed dk ⟨ENOENT, true⟩).kq.watches (st.reg.dk dk).ident
              (st.reg.dk dk).filter = true := by
            unfold State.registrationFailed
            cases hfilter : (st.reg.dk dk).filter with
            | read => exact Function.update_self _ _ _
            | write => exact Function.update_self _ _ _
            | _ =>
                rw [hfilter] at hdesc
                cases hdesc
          simp only [hadd, if_true]
          constructor
          · intro h
            exact absurd h.unwatched (by simp [hback])
          · intro h
            simp [hknote] at h
        · simp only [hadd]
          refine iff_of_true (removes_of_passed hpassed hwatch hknote) ⟨fun h ↦ absurd hknote h, ?_⟩
          intro h
          cases h
      · rw [changeKq_delete_of_some hdelete errno hknote]
        refine iff_of_true (removes_of_passed hpassed hwatch ?_)
          ⟨fun _ ↦ by simp, fun _ ↦ .inl hknote⟩
        simp [setKnote]

/-- Which deletions remove their registration and nothing else. -/
theorem dispatchUpdateKq_removes_iff (st : Manager S) (dk : Dk S) (answer : Option ℕ)
    (hdelete : (st.flags dk).evDelete) (hdesc : (st.reg.dk dk).filter.isDescriptor) :
    st.kq.Removes (st.dispatchUpdateKq dk answer).kq (st.reg.dk dk).ident (st.reg.dk dk).filter
        (st.kq.deleteWatched (st.reg.dk dk).ident (st.reg.dk dk).filter = none) ↔
      st.kq.Removable (st.reg.dk dk).ident (st.reg.dk dk).filter (st.flags dk).evAdd answer := by
  rw [dispatchUpdateKq_delete hdelete]
  by_cases hwatch : st.kq.watches (st.reg.dk dk).ident (st.reg.dk dk).filter = true
  · obtain ⟨kq', heq, hremoves⟩ := removes_iff_of_watches hwatch
    have hdir : (st.reg.dk dk).filter = .read → st.kq.dispatchRfds (st.reg.dk dk).ident = true ∨
        st.kq.dispatchWfds (st.reg.dk dk).ident = false := by
      intro hread
      rw [hread] at hwatch
      exact .inl hwatch
    rw [heq] at hremoves ⊢
    rw [hremoves]
    constructor
    · intro hnone
      exact ⟨hdir, fun hne ↦ absurd hnone hne, fun _ ↦ .inl hwatch⟩
    · intro h
      refine not_not.mp fun hne ↦ ?_
      simp [(h.place hne).1] at hwatch
  · rw [Bool.not_eq_true] at hwatch
    by_cases hdir : (st.reg.dk dk).filter = .read → st.kq.dispatchRfds (st.reg.dk dk).ident = true ∨
        st.kq.dispatchWfds (st.reg.dk dk).ident = false
    · have hpassed := deleteWatched_eq_none hdesc hwatch hdir
      have hchange := removes_changeKq_iff answer hdelete hdesc hpassed hwatch
      simp only [hpassed] at hchange ⊢
      rw [hchange]
      constructor
      · rintro ⟨hplace, hfound⟩
        exact ⟨hdir, fun hne ↦ ⟨hwatch, hplace hne⟩, fun hadd ↦ .inr (hfound hadd)⟩
      · intro h
        refine ⟨fun hne ↦ (h.place hne).2, fun hadd ↦ (h.found hadd).resolve_left ?_⟩
        simp [hwatch]
    · refine iff_of_false (fun h ↦ ?_) fun h ↦ hdir h.direction
      obtain ⟨hread, hnot⟩ := Classical.not_imp.mp hdir
      have hpassed := h.passed_iff.mpr hwatch
      rw [hread] at hpassed
      simp only [Kq.deleteWatched] at hpassed
      simp_all

/-- The descriptor 5 is written to and read from.  The kernel queue has refused it for writing,
and the source that reads from it has been cancelled. -/
def bothDirections : Manager (Fin 2) :=
  (run (step plainHost) (fun _ _ ↦ True) initial
    [.create 0 .write 5 0, .invoke 0 (some 1), .create 1 .read 5 0, .invoke 1 (some 0),
      .cancel 1]).get (by decide)

def deletesWrite : Manager (Fin 2) :=
  bothDirections.setFlags (.own 0) { bothDirections.flags (.own 0) with evDelete := true }

theorem dispatchUpdateKq_removes_write :
    deletesWrite.kq.dispatchWfds 5 ∧
      (deletesWrite.dispatchUpdateKq (.own 0) (some 0)).kq.dispatchWfds 5 = false ∧
      (deletesWrite.dispatchUpdateKq (.own 0) (some 0)).kq.dispatchRfds 5 =
        deletesWrite.kq.dispatchRfds 5 := by
  have hident : (deletesWrite.reg.dk (.own 0)).ident = 5 := by decide
  have hfilter : (deletesWrite.reg.dk (.own 0)).filter = .write := by decide
  have hremoves := (dispatchUpdateKq_removes_iff deletesWrite (.own 0) (some 0) (by decide)
    (by decide)).mpr ⟨by decide, by decide, by decide⟩
  rw [hident, hfilter] at hremoves
  refine ⟨by decide, hremoves.unwatched, (hremoves.reads 5 ?_).1⟩
  rintro ⟨hread, -⟩
  cases hread

/-- Removing the source that reads ends the watch for writing, of which there is still a source,
and leaves the knote for reading in the kernel queue. -/
theorem write_unwatched_on_read_removal :
    ∃ st st' : Manager (Fin 2), Runs plainHost (fun _ _ ↦ True) st ∧
      step plainHost (.invoke 1 (some 0)) st = some st' ∧
      (st.kq.dispatchWfds 5 ∧ st.kq.dispatchWfdPtrs 5 = some (.own 0) ∧
        st.kq.dispatchRfds 5 = false ∧ (st.kq.knotes 5 .read).isSome) ∧
      st'.kq.dispatchWfds 5 = false ∧ st'.kq.dispatchWfdPtrs 5 = none ∧
      (st'.reg.ds 0).map Source.dsDkev = some (some (.own 0)) ∧
      (st'.kq.knotes 5 .read).map Knote.udata = some (.own 1) ∧
      (st'.reg.ds 1).map Source.dsDkev = some none :=
  ⟨bothDirections, (step plainHost (.invoke 1 (some 0)) bothDirections).get (by decide), runs_get _,
    (Option.some_get _).symm, by decide⟩

end LibDispatch.Kevent
