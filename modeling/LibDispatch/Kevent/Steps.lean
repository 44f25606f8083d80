import LibDispatch.Kevent.Registry

/-!
# What a step of the manager can do
-/

namespace LibDispatch.Kevent

variable {S K A : Type*} [DecidableEq S]

namespace State

variable {st : State S K} {ds : S} {x : Source S} {dk : Dk S} {answer : A}

/-! ## The kernel does not change the registry -/

def Quiet (st st' : State S K) : Prop := st'.reg = st.reg ∧ st'.params = st.params

omit [DecidableEq S] in
theorem Quiet.trans {st₁ st₂ st₃ : State S K} (h : Quiet st₁ st₂) (h' : Quiet st₂ st₃) :
    Quiet st₁ st₃ :=
  ⟨h'.1.trans h.1, h'.2.trans h.2⟩

theorem quiet_setFlags (st : State S K) (dk : Dk S) (x : Flags) : Quiet st (st.setFlags dk x) :=
  ⟨rfl, rfl⟩

theorem quiet_registrationFailed (st : State S K) (receipt : Receipt) :
    Quiet st (st.registrationFailed dk receipt) := by
  unfold registrationFailed
  split <;> exact ⟨rfl, rfl⟩

variable [EventQueue S K A]

/-- The knotes are those that `kevent()` leaves, and a registration may have failed. -/
theorem changeKq_cases (st : State S K) (dk : Dk S) (answer : A) :
    let st' := { st with kq.knotes := (EventQueue.kevent st.kq.knotes (st.change dk) answer).1 }
    st.changeKq dk answer = st' ∨
      ∃ receipt, st.changeKq dk answer = st'.registrationFailed dk receipt := by
  simp only [changeKq]
  split
  · exact .inl rfl
  · split
    · split
      · exact .inl rfl
      · exact .inr ⟨_, rfl⟩
    · exact .inl rfl

theorem quiet_changeKq : Quiet st (st.changeKq dk answer) := by
  rcases st.changeKq_cases dk answer with h | ⟨receipt, h⟩ <;> rw [h]
  · exact ⟨rfl, rfl⟩
  · exact quiet_registrationFailed _ receipt

theorem quiet_dispatchUpdateKq : Quiet st (st.dispatchUpdateKq dk answer) := by
  simp only [dispatchUpdateKq]
  split
  · exact ⟨rfl, rfl⟩
  · split
    · exact ⟨rfl, rfl⟩
    · exact quiet_changeKq

theorem quiet_resumeKq : Quiet st (st.resumeKq dk answer) := by
  unfold resumeKq
  simp only
  split
  · exact quiet_dispatchUpdateKq.trans ⟨rfl, rfl⟩
  · exact quiet_dispatchUpdateKq

theorem quiet_dispatchKeventResume (st : State S K) (dk : Dk S) (answer : A) :
    Quiet st (st.dispatchKeventResume dk answer) := by
  unfold dispatchKeventResume
  split
  case h_4 =>
    split
    · exact ⟨rfl, rfl⟩
    · exact quiet_resumeKq
  case h_5 => exact quiet_resumeKq
  all_goals exact ⟨rfl, rfl⟩

theorem quiet_registerNew : Quiet st (st.registerNew ds dk answer) :=
  (quiet_setFlags st dk _).trans
    ((quiet_dispatchKeventResume _ dk answer).trans ⟨rfl, rfl⟩)

theorem quiet_deleteKq : Quiet st (st.deleteKq dk answer) := by
  unfold deleteKq
  split
  · exact ⟨rfl, rfl⟩
  · exact (quiet_setFlags st dk _).trans quiet_dispatchUpdateKq

/-! ## Installing and removing -/

theorem merge_installed (hinst : x.dsIsInstalled) : st.dispatchKeventMerge ds x answer = st := by
  unfold dispatchKeventMerge
  rw [hinst]

theorem quiet_merge (st : State S K) (ds : S) (answer : A) (hinst : x.dsIsInstalled = false)
    {own : Dk S} (hdkev : x.dsDkev = some own) :
    Quiet { st with reg := (st.reg.merge ds x own).1 } (st.dispatchKeventMerge ds x answer) := by
  unfold dispatchKeventMerge
  rw [hinst, hdkev]
  simp only
  split
  · exact quiet_registerNew
  · exact ⟨rfl, rfl⟩

theorem quiet_dispose :
    Quiet { st with reg := if (st.reg.dk dk).filter.isStatic then st.reg else st.reg.remove dk }
      (st.dispatchKeventDispose dk answer) := by
  have hdelete : Quiet { st with reg := st.reg.remove dk }
      { st.deleteKq dk answer with reg := (st.deleteKq dk answer).reg.remove dk } :=
    ⟨by simp only [quiet_deleteKq.1], quiet_deleteKq.2⟩
  unfold dispatchKeventDispose
  cases (st.reg.dk dk).filter
  case timer | customAdd | customOr => exact ⟨rfl, rfl⟩
  case proc =>
    by_cases hone : (st.flags dk).evOneshot
    · simp only [hone, if_true]
      exact ⟨rfl, rfl⟩
    · simp only [hone, if_false, Bool.false_eq_true]
      exact hdelete
  all_goals exact hdelete

theorem quiet_release (st : State S K) (ds : S) (x : Source S) (dk : Dk S) (answer : A) :
    Quiet { st with reg := st.reg.release ds x dk } (st.dispatchKeventRelease ds x dk answer) := by
  have hq : Quiet { st with reg := st.reg.release ds x dk }
      (State.releaseKevent { st with reg := st.reg.detach ds x dk }
        dk x.dsPendingDataMask answer) := by
    unfold releaseKevent Registry.release
    simp only
    split
    · exact quiet_dispose
    · split
      · exact quiet_dispatchKeventResume _ dk answer
      · exact ⟨rfl, rfl⟩
  exact hq.trans ⟨rfl, rfl⟩

end State

/-! ## Steps -/

inductive Trans (host : Host) (st : Manager S) : Act S → Manager S → Prop
  | create {ds : S} {ty : SourceType} {handle : ℕ} {mask : BitVec 64} :
      State.handleOk host handle mask ty.filter → st.reg.ds ds = none →
      Trans host st (.create ds ty handle mask)
        { st with
          reg := (st.reg.setDk (.own ds)
            ⟨handle, ty.filter, ty.fflags ||| mask.setWidth 32, []⟩).setDs
            ds (State.newSource ds ty handle mask)
          flags := Function.update st.flags (.own ds)
            { ty.flags with evAdd := true, evEnable := true }
          del := Function.update st.del ds (State.newDelivery ty) }
  | install {ds : S} {x : Source S} {answer : Option ℕ} :
      st.reg.ds ds = some x → x.dsIsInstalled = false →
      Trans host st (.invoke ds answer) (st.dispatchKeventMerge ds x answer)
  | uninstall {ds : S} {x : Source S} {dk : Dk S} {answer : Option ℕ} :
      st.reg.ds ds = some x → x.dsIsInstalled → (st.del ds).dsfCanceled ∨ (st.del ds).unreferenced →
      x.dsDkev = some dk →
      Trans host st (.invoke ds answer) (st.dispatchKeventRelease ds x dk answer)
  | rearm {ds : S} {x : Source S} {dk : Dk S} {answer : Option ℕ} :
      st.reg.ds ds = some x → x.dsIsInstalled →
      (st.del ds).dsfCanceled = false → (st.del ds).unreferenced = false →
      x.dsDkev = some dk →
      Trans host st (.invoke ds answer)
        ((st.dispatchKeventResume dk answer).setDel ds
          { (st.dispatchKeventResume dk answer).del ds with dsIsArmed := true })
  | latch {ds : S} :
      Trans host st (.latch ds) (st.setDel ds { st.del ds with dsPendingData := 0 })
  | callout {ds : S} {x : Source S} :
      st.reg.ds ds = some x → x.dsIsInstalled → x.dsDkev = none →
      Trans host st (.callout ds)
        (State.setDel { st with reg := st.reg.setDs ds { x with dsPendingDataMask := 0 } } ds
          { st.del ds with dsPendingData := 0 })
  | cancel {ds : S} :
      Trans host st (.cancel ds) (st.setDel ds { st.del ds with dsfCanceled := true })
  | unreference {ds : S} :
      Trans host st (.unreference ds) (st.setDel ds { st.del ds with unreferenced := true })
  | event {ident : ℕ} {filter : Filter} {evOneshot : Bool} {fflags : BitVec 32} {data : ℕ}
      {x : Knote S} :
      st.kq.knotes ident filter = some x → x.enabled → (evOneshot → filter = .proc) →
      Trans host st (.event ident filter evOneshot fflags data)
        (State.dispatchSourceDrainKevent
          { st with
            kq.knotes := setKnote st.kq.knotes ident filter
              (if evOneshot then none else some { x with enabled := !x.evDispatch }) } x.udata
          ⟨filter, evOneshot, false, fflags, data⟩)
  | selectRead {fd : ℕ} {dk : Dk S} :
      st.kq.dispatchRfds fd → st.kq.dispatchRfdPtrs fd = some dk →
      Trans host st (.selectRead fd)
        (State.dispatchSourceDrainKevent
          { st with
            kq.dispatchRfds := Function.update st.kq.dispatchRfds fd false
            kq.dispatchRfdPtrs := Function.update st.kq.dispatchRfdPtrs fd none } dk
          ⟨.read, false, false, 0, 1⟩)
  | selectWrite {fd : ℕ} {dk : Dk S} :
      st.kq.dispatchWfds fd → st.kq.dispatchWfdPtrs fd = some dk →
      Trans host st (.selectWrite fd)
        (State.dispatchSourceDrainKevent
          { st with
            kq.dispatchWfds := Function.update st.kq.dispatchWfds fd false
            kq.dispatchWfdPtrs := Function.update st.kq.dispatchWfdPtrs fd none } dk
          ⟨.write, false, false, 0, 1⟩)
  | setTimer {ds : S} {x : Source S} {start interval leeway now : BitVec 64} :
      st.reg.ds ds = some x → x.dsType = .timer →
      Trans host st (.setTimer ds start interval leeway now)
        { st with
          params := st.params ++
            [dispatchSourceSetTimer host ds x.dsTimer.flags start interval leeway now] }
  | setTimer2 {i : ℕ} {p : SetTimerParams S} : st.params[i]? = some p →
      Trans host st (.setTimer2 i)
        (State.dispatchSourceSetTimer2 { st with params := st.params.eraseIdx i } p)
  | runTimers {c : Clock} {now n : ℕ} {st' : Manager S} :
      State.dispatchRunTimers2 c now n st = some st' → Trans host st (.runTimers c now n) st'

variable {host : Host} {st st' : Manager S} {a : Act S}

theorem trans_of_invoke {ds : S} {x : Source S} {answer : Option ℕ} (hx : st.reg.ds ds = some x)
    (h : st.dispatchSourceInvoke ds x answer = some st') :
    Trans host st (.invoke ds answer) st' := by
  unfold State.dispatchSourceInvoke at h
  split at h
  · rename_i hinst
    cases h
    exact .install hx (by simpa using hinst)
  · rename_i hinst
    replace hinst : x.dsIsInstalled := by simpa using hinst
    split at h
    · obtain ⟨dk, hdk, rfl⟩ := Option.map_eq_some_iff.mp h
      exact .uninstall hx hinst ‹_› hdk
    · rename_i hcan
      simp only [not_or, Bool.not_eq_true] at hcan
      split at h
      · obtain ⟨dk, hdk, rfl⟩ := Option.map_eq_some_iff.mp h
        exact .rearm hx hinst hcan.1 hcan.2 hdk
      · cases h

theorem trans_of_step (h : step host a st = some st') : Trans host st a st' := by
  cases a with
  | create ds ty handle mask =>
      simp only [step, State.dispatchSourceCreate] at h
      split at h <;> cases h
      rename_i hok
      exact .create hok.2.1 hok.2.2
  | invoke ds answer =>
      obtain ⟨x, hx, h⟩ := Option.bind_eq_some_iff.mp h
      exact trans_of_invoke hx h
  | latch ds =>
      cases h
      exact .latch
  | callout ds =>
      obtain ⟨x, hx, h⟩ := Option.bind_eq_some_iff.mp h
      split at h <;> cases h
      rename_i hok
      exact .callout hx hok.1 hok.2.2
  | cancel ds =>
      cases h
      exact .cancel
  | unreference ds =>
      cases h
      exact .unreference
  | event ident filter evOneshot fflags data =>
      simp only [step, State.deliver] at h
      split at h
      · split at h <;> cases h
        rename_i hen
        exact .event ‹_› hen.1 hen.2
      · cases h
  | selectRead fd =>
      simp only [step, State.selectRead] at h
      split at h <;> cases h
      exact .selectRead ‹_› ‹_›
  | selectWrite fd =>
      simp only [step, State.selectWrite] at h
      split at h <;> cases h
      exact .selectWrite ‹_› ‹_›
  | setTimer ds start interval leeway now =>
      obtain ⟨x, hx, h⟩ := Option.bind_eq_some_iff.mp h
      split at h <;> cases h
      exact .setTimer hx ‹_›
  | setTimer2 i =>
      obtain ⟨p, hp, rfl⟩ := Option.map_eq_some_iff.mp h
      exact .setTimer2 hp
  | runTimers c now n => exact .runTimers h

end LibDispatch.Kevent
