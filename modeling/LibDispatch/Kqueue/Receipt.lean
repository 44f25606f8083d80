import LibDispatch.Kqueue.Masks

/-!
# Failed registrations

The receipt of a failed registration goes the way of an event, and the sources tell it from
one by `EV_ERROR`.  The event queue writes the error into the receipt and leaves its flags
alone.
-/

namespace LibDispatch.Kqueue

open Interleaving.Sequence (run runs_get)
open Kevent (Filter SourceType Dk Delivery EBADF ESRCH NOTE_EXIT dispatchSourceMergeKevent)

variable {S : Type*} {fs : Filters (Dk S)} {st : State fs} {dk : Dk S} {answer : Answer} {ds : S}

def listens (x : Delivery) : Bool := !x.dsfCanceled && !x.unreferenced

/-- The event handler of the source is going to be called. -/
def handlerDue (x : Delivery) : Bool := listens x && x.dsPendingData ≠ 0

/-- The flags of the event that stands for an error: a process that is gone has exited, other
errors are no events. -/
def simulated (filter : Filter) (errno : ℕ) : BitVec 32 :=
  if filter = .proc ∧ errno = ESRCH then NOTE_EXIT else 0

/-- The source is of a type that has the filter of the kevent. -/
def ofType (st : State fs) (dk : Dk S) (ds : S) : Prop :=
  ∃ ty : SourceType, ty.filter = (st.reg.dk dk).filter ∧
    (st.del ds).dsIsLevel = (Kevent.State.newDelivery ty).dsIsLevel ∧
    (st.del ds).dsIsAdder = (Kevent.State.newDelivery ty).dsIsAdder

theorem ofType_kind (h : ofType st dk ds) (hread : (st.reg.dk dk).filter ≠ .read)
    (hwrite : (st.reg.dk dk).filter ≠ .write) (hstatic : (st.reg.dk dk).filter.isStatic = false) :
    (st.del ds).dsIsLevel = false ∧
      (st.del ds).dsIsAdder = decide ((st.reg.dk dk).filter = .signal) := by
  obtain ⟨ty, hfilter, hlevel, hadder⟩ := h
  rw [hlevel, hadder]
  rw [← hfilter] at hread hwrite hstatic ⊢
  cases ty
  case read => exact absurd rfl hread
  case write => exact absurd rfl hwrite
  case timer | dataAdd | dataOr => cases hstatic
  all_goals exact ⟨rfl, rfl⟩

theorem or_eq_or_iff {p a b : ℕ} : p ||| a = p ||| b ↔ (a ^^^ b) &&& p = a ^^^ b := by
  have hbits (m n : ℕ) : m = n ↔ ∀ i, m.testBit i = n.testBit i :=
    ⟨fun h _ ↦ h ▸ rfl, Nat.eq_of_testBit_eq⟩
  rw [hbits, hbits]
  refine forall_congr' fun i ↦ ?_
  rw [Nat.testBit_or, Nat.testBit_or, Nat.testBit_and, Nat.testBit_xor]
  cases p.testBit i <;> cases a.testBit i <;> cases b.testBit i <;> decide

theorem merge_of_not_listens {x : Delivery} (h : listens x = false) (mask : BitVec 32)
    (ke : Kevent.Event) : dispatchSourceMergeKevent x mask ke = x := by
  unfold dispatchSourceMergeKevent
  rw [if_pos]
  cases hc : x.dsfCanceled with
  | true => exact .inl rfl
  | false => exact .inr (by simpa [listens, hc] using h)

theorem merge_pendingData {x : Delivery} (h : listens x) (mask : BitVec 32) {ke : Kevent.Event}
    (herror : ke.evError = false) :
    (dispatchSourceMergeKevent x mask ke).dsPendingData = x.pendingData mask ke := by
  simp only [listens, Bool.and_eq_true, Bool.not_eq_true'] at h
  simp [dispatchSourceMergeKevent, h.1, h.2, Kevent.Event.seen, herror]

theorem listens_merge (x : Delivery) (mask : BitVec 32) (ke : Kevent.Event) :
    listens (dispatchSourceMergeKevent x mask ke) = listens x := by
  unfold dispatchSourceMergeKevent
  split
  · rfl
  · split <;> rfl

variable [DecidableEq S]

/-- What is in `ds_pending_data` after a registration has failed. -/
def pendingAfter (st : State fs) (dk : Dk S) (errno : ℕ) (ds : S) : ℕ :=
  if ds ∈ (st.reg.dk dk).dkSources ∧ listens (st.del ds) then
    (st.del ds).dsPendingData |||
      (simulated (st.reg.dk dk).filter errno &&& st.reg.pendingDataMask ds).toNat
  else (st.del ds).dsPendingData

/-- The source does not count events, and the flags by which the kevent differs from the simulated
event are pending already or not asked for. -/
def harmless (st : State fs) (dk : Dk S) (errno : ℕ) (ds : S) : Bool :=
  let differing := ((st.reg.dk dk).fflags ^^^ simulated (st.reg.dk dk).filter errno) &&&
    st.reg.pendingDataMask ds
  listens (st.del ds) →
    (st.reg.dk dk).filter ≠ .signal &&
      differing.toNat &&& (st.del ds).dsPendingData = differing.toNat

omit [DecidableEq S] in
theorem receiptData_eq : receiptData st dk answer =
    (keventCopyinOne fs st.kq.knotes.knotes (Kev.ofChange (st.change dk)) answer).2.getD 0 := by
  simp [receiptData]

theorem updateKq_del (hadd : (st.flags dk).evAdd) (hdelete : (st.flags dk).evDelete = false)
    (hread : (st.reg.dk dk).filter ≠ .read) (hwrite : (st.reg.dk dk).filter ≠ .write)
    (herrno : receiptData st dk answer ≠ 0) (hbadf : receiptData st dk answer ≠ EBADF) :
    (st.dispatchUpdateKq dk answer).del ds =
      if ds ∈ (st.reg.dk dk).dkSources then
        dispatchSourceMergeKevent (st.del ds) (st.reg.pendingDataMask ds)
          ⟨(st.reg.dk dk).filter, (st.flags dk).evOneshot, false, (st.reg.dk dk).fflags,
            receiptData st dk answer⟩
      else st.del ds := by
  have hchange : st.dispatchUpdateKq dk answer = st.changeKq dk answer := by
    simp [Kevent.State.dispatchUpdateKq, hdelete]
  rw [receiptData_eq] at herrno hbadf ⊢
  rw [hchange]
  simp only [Kevent.State.changeKq, eventQueue_kevent, hadd, if_true, herrno, hbadf, or_self,
    if_false]
  unfold Kevent.State.registrationFailed
  split
  · exact absurd ‹_› hread
  · exact absurd ‹_› hwrite
  · rfl

theorem updateKq_del_of_badf (hdelete : (st.flags dk).evDelete = false)
    (hbadf : receiptData st dk answer = EBADF) : (st.dispatchUpdateKq dk answer).del = st.del := by
  have hchange : st.dispatchUpdateKq dk answer = st.changeKq dk answer := by
    simp [Kevent.State.dispatchUpdateKq, hdelete]
  rw [receiptData_eq] at hbadf
  rw [hchange]
  simp only [Kevent.State.changeKq, eventQueue_kevent, hbadf, or_true, if_true]
  split <;> rfl

theorem pendingAfter_of_not_exit {errno : ℕ}
    (h : (st.reg.dk dk).filter ≠ .proc ∨ errno ≠ ESRCH) :
    pendingAfter st dk errno ds = (st.del ds).dsPendingData := by
  have hnone : simulated (st.reg.dk dk).filter errno = 0 :=
    if_neg fun hexit ↦ h.elim (absurd hexit.1) (absurd hexit.2)
  simp [pendingAfter, hnone]

theorem pendingData_eq_iff (hread : (st.reg.dk dk).filter ≠ .read)
    (hwrite : (st.reg.dk dk).filter ≠ .write) (hstatic : (st.reg.dk dk).filter.isStatic = false)
    {errno : ℕ} (hpos : errno ≠ 0) (hint : errno < 2 ^ 31) (htype : ofType st dk ds)
    (hmem : ds ∈ (st.reg.dk dk).dkSources) :
    (dispatchSourceMergeKevent (st.del ds) (st.reg.pendingDataMask ds)
        ⟨(st.reg.dk dk).filter, (st.flags dk).evOneshot, false, (st.reg.dk dk).fflags,
          errno⟩).dsPendingData = pendingAfter st dk errno ds ↔ harmless st dk errno ds := by
  obtain ⟨hlevel, hadder⟩ := ofType_kind htype hread hwrite hstatic
  cases hlistens : listens (st.del ds) with
  | false => simp [merge_of_not_listens hlistens, pendingAfter, harmless, hlistens]
  | true =>
      rw [merge_pendingData hlistens _ rfl, pendingAfter, if_pos ⟨hmem, hlistens⟩]
      by_cases hsignal : (st.reg.dk dk).filter = .signal
      · have hnone : simulated (st.reg.dk dk).filter errno = 0 := if_neg (by simp [hsignal])
        have hne : Kevent.wrap ((st.del ds).dsPendingData + errno) ≠ (st.del ds).dsPendingData := by
          unfold Kevent.wrap
          omega
        rw [hnone, Delivery.pendingData, hlevel, hadder, decide_eq_true hsignal]
        simp [hne, harmless, hlistens, hsignal]
      · have hflags : (st.del ds).dsIsAdder = false := by rw [hadder, decide_eq_false hsignal]
        have hxor (a b mask : BitVec 32) :
            (a &&& mask).toNat ^^^ (b &&& mask).toNat = ((a ^^^ b) &&& mask).toNat := by
          rw [← BitVec.toNat_xor]
          congr 1
          ext i
          simp only [BitVec.getElem_xor, BitVec.getElem_and]
          cases a[i] <;> cases b[i] <;> cases mask[i] <;> rfl
        simp only [Delivery.pendingData, hlevel, hflags, Bool.false_eq_true, if_false, or_eq_or_iff,
          hxor]
        simp [harmless, hlistens, hsignal]

theorem listens_updateKq (hadd : (st.flags dk).evAdd) (hdelete : (st.flags dk).evDelete = false)
    (hread : (st.reg.dk dk).filter ≠ .read) (hwrite : (st.reg.dk dk).filter ≠ .write)
    (herrno : receiptData st dk answer ≠ 0) (ds : S) :
    listens ((st.dispatchUpdateKq dk answer).del ds) = listens (st.del ds) := by
  by_cases hbadf : receiptData st dk answer = EBADF
  · rw [updateKq_del_of_badf hdelete hbadf]
  · rw [updateKq_del hadd hdelete hread hwrite herrno hbadf]
    split
    · exact listens_merge _ _ _
    · rfl

/-- A failed registration is no event exactly if the descriptor is bad or it is harmless for all
sources on the kevent: `ds_pending_data` stays as it is, or gets the exit event of a process that is
gone. -/
theorem failed_registration_iff (hadd : (st.flags dk).evAdd)
    (hdelete : (st.flags dk).evDelete = false) (hread : (st.reg.dk dk).filter ≠ .read)
    (hwrite : (st.reg.dk dk).filter ≠ .write) (hstatic : (st.reg.dk dk).filter.isStatic = false)
    (hpos : receiptData st dk answer ≠ 0) (hint : receiptData st dk answer < 2 ^ 31)
    (htype : ∀ ds ∈ (st.reg.dk dk).dkSources, ofType st dk ds) :
    (∀ ds, ((st.dispatchUpdateKq dk answer).del ds).dsPendingData =
        pendingAfter st dk (receiptData st dk answer) ds ∧
      (((st.reg.dk dk).filter ≠ .proc ∨ receiptData st dk answer ≠ ESRCH) →
        handlerDue ((st.dispatchUpdateKq dk answer).del ds) = handlerDue (st.del ds))) ↔
    receiptData st dk answer = EBADF ∨
      ∀ ds ∈ (st.reg.dk dk).dkSources, harmless st dk (receiptData st dk answer) ds := by
  have hdue : (∀ ds, ((st.dispatchUpdateKq dk answer).del ds).dsPendingData =
        pendingAfter st dk (receiptData st dk answer) ds ∧
      (((st.reg.dk dk).filter ≠ .proc ∨ receiptData st dk answer ≠ ESRCH) →
        handlerDue ((st.dispatchUpdateKq dk answer).del ds) = handlerDue (st.del ds))) ↔
      ∀ ds, ((st.dispatchUpdateKq dk answer).del ds).dsPendingData =
        pendingAfter st dk (receiptData st dk answer) ds := by
    refine forall_congr' fun ds ↦ and_iff_left_of_imp fun hpending hexit ↦ ?_
    rw [handlerDue, handlerDue, listens_updateKq hadd hdelete hread hwrite hpos ds, hpending,
      pendingAfter_of_not_exit hexit]
  rw [hdue]
  by_cases hbadf : receiptData st dk answer = EBADF
  · have hne : receiptData st dk answer ≠ ESRCH := by
      rw [hbadf]
      decide
    refine iff_of_true (fun ds ↦ ?_) (.inl hbadf)
    rw [updateKq_del_of_badf hdelete hbadf, pendingAfter_of_not_exit (.inr hne)]
  · rw [or_iff_right hbadf]
    refine forall_congr' fun ds ↦ ?_
    rw [updateKq_del hadd hdelete hread hwrite hpos hbadf]
    by_cases hmem : ds ∈ (st.reg.dk dk).dkSources
    · rw [if_pos hmem, forall_prop_of_true hmem]
      exact pendingData_eq_iff hread hwrite hstatic hpos hint (htype ds hmem) hmem
    · refine iff_of_true ?_ fun hin ↦ absurd hin hmem
      rw [if_neg hmem, pendingAfter, if_neg fun hand ↦ hmem hand.1]

/-- A source for the exit of a process, and its kevent. -/
def exitState : State (plainFilters (U := Dk (Fin 1))) :=
  (run (step Kevent.plainHost plainFilters) (fun _ _ ↦ True) (initial _)
    [.create 0 .proc 7 0x80000000, .install 0 {}]).get (by decide)

theorem failed_registration_iff_exit :
    receiptData exitState (.own 0) { error := some ESRCH } = ESRCH ∧
      ((exitState.dispatchUpdateKq (.own 0) { error := some ESRCH }).del 0).dsPendingData
        = pendingAfter exitState (.own 0) ESRCH 0 ∧
      pendingAfter exitState (.own 0) ESRCH 0 = NOTE_EXIT.toNat :=
  ⟨by decide, ((failed_registration_iff (by decide) (by decide) (by decide) (by decide) (by decide)
    (by decide) (by decide) fun ds _ ↦ ⟨.proc, rfl, by decide +revert, by decide +revert⟩).mpr
    (.inr (by decide)) 0).1, by decide⟩

/-- A source on a descriptor and one for a signal. -/
def createdState : State (plainFilters (U := Dk (Fin 2))) :=
  (run (step Kevent.plainHost plainFilters) (fun _ _ ↦ True) (initial _)
    [.create 0 .vnode 5 1, .create 1 .signal 2 0]).get (by decide)

/-- The kevent of one of them is on the table and is going to be registered. -/
def registering (ds : Fin 2) : State (plainFilters (U := Dk (Fin 2))) :=
  (createdState.reg.ds ds).elim createdState fun x ↦
    { createdState with reg := (createdState.reg.merge ds x (.own ds)).1 }

/-- The filter refuses the registration, and the error arrives as an event: as the flags that
the source asks for, or as so many signals as the error's number says. -/
theorem failed_registration_delivered :
    Runs Kevent.plainHost plainFilters (fun _ _ ↦ True) createdState ∧
      (∀ ds, ((registering ds).flags (.own ds)).evAdd ∧
        ((registering ds).flags (.own ds)).evDelete = false ∧
        receiptData (registering ds) (.own ds) { error := some 2 } = EFAULT ∧
        ((registering ds).del ds).dsPendingData = 0 ∧ handlerDue ((registering ds).del ds) = false ∧
        handlerDue (((registering ds).dispatchUpdateKq (.own ds)
          { error := some 2 }).del ds)) ∧
      (((registering 0).dispatchUpdateKq (.own 0)
        { error := some 2 }).del 0).dsPendingData = 1 ∧
      (((registering 1).dispatchUpdateKq (.own 1)
        { error := some 2 }).del 1).dsPendingData = EFAULT :=
  ⟨runs_get _, by decide, by decide, by decide⟩

end LibDispatch.Kqueue
