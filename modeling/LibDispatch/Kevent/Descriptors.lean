import LibDispatch.Kevent.Frame
import LibDispatch.Kevent.Invariant

/-!
# Armed descriptors are monitored

A knote for a descriptor is registered with `EV_DISPATCH`, so it is disabled with each event,
and the source is disarmed by the same event.  To arm it again `EV_ENABLE` alone is sent.  That
works as long as there is a knote.  A descriptor that the kernel queue refuses has none: its bit
for `select()` is cleared with the first event, and nothing sets it again.  The bit for writing
is also lost when the kevent for reading the same descriptor is deleted with its own bit clear.
-/

namespace LibDispatch.Kevent

open Interleaving.Sequence (run runs_get)

variable {S : Type*} [DecidableEq S]

def Filter.isDescriptor : Filter → Bool
  | .read | .write => true
  | _ => false

section Knotes

variable {knotes knotes' : Knotes S} {i : ℕ} {f : Filter}

omit [DecidableEq S]

@[simp] theorem eventQueue_kevent (c : Change S) (errno : ℕ) :
    EventQueue.kevent knotes c (some errno) =
      ((kevent knotes c errno).1, some ⟨(kevent knotes c errno).2, true⟩) := rfl

theorem kevent_of_ne {c : Change S} {errno : ℕ} (h : (i, f) ≠ (c.ident, c.filter)) :
    (kevent knotes c errno).1 i f = knotes i f := by
  unfold kevent
  split
  · split
    · exact setKnote_of_ne h
    · rfl
  · split
    · split
      · exact setKnote_of_ne h
      · rfl
    · split
      · exact setKnote_of_ne h
      · rfl

theorem Changes.knotes_eq {key : ℕ × Filter} (h : Changes S key knotes knotes')
    (hne : (i, f) ≠ key) : knotes' i f = knotes i f := by
  induction h with
  | refl => rfl
  | tail _ hstep ih =>
      obtain ⟨c, answer, rfl, rfl⟩ := hstep
      cases answer with
      | none => exact ih
      | some errno => exact (kevent_of_ne hne).trans ih

end Knotes

/-! ## Installing and removing -/

namespace Registry

variable {r : Registry S} {ds : S} {x : Source S} {dk : Dk S}

theorem merge_dk (r : Registry S) (ds : S) (x : Source S) (own : Dk S) :
    ((r.merge ds x own).1.dk (r.merge ds x own).2.1).ident = (r.dk (r.merge ds x own).2.1).ident ∧
    ((r.merge ds x own).1.dk (r.merge ds x own).2.1).filter =
      (r.dk (r.merge ds x own).2.1).filter ∧
    ((r.merge ds x own).1.dk (r.merge ds x own).2.1).dkSources =
      (r.dk (r.merge ds x own).2.1).dkSources ++ [ds] := by
  unfold Registry.merge
  split <;> simp [attach, dispatchKeventInsert]

theorem merge_dk_of_ne (own : Dk S) {d : Dk S} (hd : d ≠ (r.merge ds x own).2.1) :
    (r.merge ds x own).1.dk d = r.dk d := by
  revert hd
  unfold Registry.merge
  split
  · intro hd
    simp [attach, hd]
  · intro hd
    simp [attach, dispatchKeventInsert, hd]

theorem registered_merge (own : Dk S) {d : Dk S} (hd : d ≠ (r.merge ds x own).2.1)
    (hreg : (r.merge ds x own).1.Registered d) : r.Registered d := by
  revert hd hreg
  unfold Registry.merge
  split
  · exact fun _ hreg ↦ hreg
  · intro hd hreg
    exact (Buckets.mem_insert.mp hreg).resolve_right hd

theorem Wf.merge_cases (h : Wf r) (ds : S) (x : Source S) (own : Dk S) :
    r.Registered (r.merge ds x own).2.1 ∨
      (r.merge ds x own).2.1 = own ∧ (r.merge ds x own).2.2 = true := by
  have hfind := find_eq r (r.key own)
  simp only [Registry.merge]
  split
  · rename_i dk hdk
    rw [key, hdk] at hfind
    exact .inl (h.table.find_eq_some.mp hfind.symm).1
  · exact .inr ⟨rfl, rfl⟩

theorem release_dk (r : Registry S) (ds : S) (x : Source S) (dk : Dk S) :
    ((r.release ds x dk).dk dk).ident = (r.dk dk).ident ∧
    ((r.release ds x dk).dk dk).filter = (r.dk dk).filter ∧
    ((r.release ds x dk).dk dk).dkSources = (r.dk dk).dkSources.erase ds := by
  simp only [Registry.release]
  split
  · split <;> simp [detach, remove]
  · split <;> simp [detach]

end Registry

namespace State

variable {k : ℕ × Filter} {st : Manager S} {ds : S} {x : Source S} {dk : Dk S} {answer : Option ℕ}

theorem local_merge {own : Dk S} (hinst : x.dsIsInstalled = false) (hown : x.dsDkev = some own)
    (hspares : (st.flags (st.reg.merge ds x own).2.1).evDelete →
      st.Spares (st.reg.merge ds x own).2.1 k) :
    Local k st (st.dispatchKeventMerge ds x answer) (st.reg.merge ds x own).2.1 ds := by
  have hmerge : Local k st { st with reg := (st.reg.merge ds x own).1 }
      (st.reg.merge ds x own).2.1 ds := by
    constructor
    case registered => exact fun d hd hreg ↦ Registry.registered_merge own hd hreg
    case dk_eq => exact fun d hd _ ↦ Registry.merge_dk_of_ne own hd
    case key_eq => exact Prod.ext (st.reg.merge_dk ds x own).1 (st.reg.merge_dk ds x own).2.1
    case ds_eq =>
      intro ds' hne
      simp only [Registry.merge_ds]
      exact Function.update_of_ne hne _ _
    case flags_eq => exact fun _ _ ↦ rfl
    case changes => exact .refl
    case select_eq => exact fun _ ↦ rfl
    case del => exact fun _ _ ↦ .refl _
  unfold dispatchKeventMerge
  rw [hinst, hown]
  simp only
  split
  · exact hmerge.trans (local_registerNew _ _ ds answer fun hdelete ↦
      (hspares hdelete).of_eq hmerge.key_eq rfl)
  · exact hmerge

theorem local_releaseKevent {mask : BitVec 32}
    (hkept : (st.flags dk).evDelete → st.Spares dk k)
    (hspares : (st.reg.dk dk).dkSources = [] → st.Spares dk k) :
    Local k st (st.releaseKevent dk mask answer) dk ds := by
  simp only [releaseKevent]
  split
  · exact st.local_dispose dk ds answer (hspares ‹_›)
  · split
    · refine .trans ?_ (local_dispatchKeventResume _ dk ds answer fun hdelete ↦
        (hkept (by simpa using hdelete)).of_eq (by simp [Registry.key]) rfl)
      constructor
      case registered => exact fun _ _ hreg ↦ hreg
      case dk_eq => exact fun d hd _ ↦ Registry.setDk_dk_of_ne _ hd _
      case key_eq => simp [Registry.key]
      case ds_eq => exact fun _ _ ↦ rfl
      case flags_eq => exact fun d hd ↦ Function.update_of_ne hd _ _
      case changes => exact .refl
      case select_eq => exact fun _ ↦ rfl
      case del => exact fun _ _ ↦ .refl _
    · exact .refl k st dk ds

theorem local_release (hkept : (st.flags dk).evDelete → st.Spares dk k)
    (hspares : (st.reg.dk dk).dkSources.erase ds = [] → st.Spares dk k) :
    Local k st (st.dispatchKeventRelease ds x dk answer) dk ds := by
  have hdetach : Local k st { st with reg := st.reg.detach ds x dk } dk ds := by
    constructor
    case registered => exact fun _ _ hreg ↦ hreg
    case dk_eq => exact fun d hd _ ↦ Registry.setDk_dk_of_ne _ hd _
    case key_eq => simp [Registry.key, Registry.detach]
    case ds_eq => exact fun ds' hne ↦ Registry.setDs_ds_of_ne _ hne _
    case flags_eq => exact fun _ _ ↦ rfl
    case changes => exact .refl
    case select_eq => exact fun _ ↦ rfl
    case del => exact fun _ _ ↦ .refl _
  refine (hdetach.trans (local_releaseKevent ?_ ?_)).trans (.setDel k _ dk ds _)
  · exact fun hdelete ↦ (hkept hdelete).of_eq hdetach.key_eq rfl
  · intro hnil
    exact (hspares (by simpa [Registry.detach] using hnil)).of_eq hdetach.key_eq rfl

theorem local_listUpdate (h : st.reg.Wf) (hx : st.reg.ds ds = some x)
    (htype : x.dsType = .timer) :
    Local k st (st.dispatchTimerListUpdate ds x) (.timer .wall) ds := by
  cases hdkev : x.dsDkev with
  | none =>
      rw [listUpdate_released hdkev]
      exact .refl k st _ ds
  | some own =>
      obtain ⟨hwf, hreq, -⟩ := requeued_listUpdate h hx htype (by simp [hdkev])
      have hmerge : Local k st (st.dispatchKeventMerge ds x (some 0)) (.timer .wall) ds := by
        cases hinst : x.dsIsInstalled with
        | true =>
            rw [merge_installed hinst]
            exact .refl k st _ ds
        | false =>
            obtain rfl : own = .own ds :=
              Option.some_inj.mp (hdkev.symm.trans (h.fresh ds x hx hinst).1)
            have hwall : (st.reg.merge ds x (.own ds)).2.1 = .timer .wall := by
              have hds := congrArg (fun r : Registry S ↦ r.ds ds) (h.merge_timer hx hinst htype)
              simpa [Registry.merge_ds] using hds
            refine hwall ▸ local_merge hinst hdkev fun _ hread ↦ ?_
            rw [hwall, h.filter_static rfl] at hread
            cases hread
      have hrest : (st.dispatchTimerListUpdate ds x).flags =
            (st.dispatchKeventMerge ds x (some 0)).flags ∧
          (st.dispatchTimerListUpdate ds x).kq = (st.dispatchKeventMerge ds x (some 0)).kq ∧
          (st.dispatchTimerListUpdate ds x).del = (st.dispatchKeventMerge ds x (some 0)).del := by
        unfold dispatchTimerListUpdate
        rw [hdkev]
        simp only
        split
        · split <;> exact ⟨rfl, rfl, rfl⟩
        · exact ⟨rfl, rfl, rfl⟩
      constructor
      case registered =>
        intro d _ hreg
        unfold Registry.Registered at hreg
        rwa [hreq.sources_eq] at hreg
      case dk_eq =>
        intro d _ hs
        refine hreq.dk_eq d ?_
        rintro c rfl
        cases hs
      case key_eq =>
        have hkey := (hwf.static (.timer .wall) rfl).2
        have hkey' := (h.static (.timer .wall) rfl).2
        exact hkey.trans hkey'.symm
      case ds_eq =>
        intro ds' hne
        rw [hreq.ds_eq, Function.update_of_ne hne]
      case flags_eq =>
        rw [hrest.1]
        exact hmerge.flags_eq
      case changes =>
        rw [hrest.2.1]
        exact hmerge.changes
      case select_eq =>
        rw [hrest.2.1]
        exact hmerge.select_eq
      case del =>
        rw [hrest.2.2]
        exact hmerge.del

end State

/-! ## Monitored kevents -/

/-- The flags with which a descriptor can be enabled again. -/
structure Flags.Enabling (f : Flags) : Prop where
  evDelete : f.evDelete = false
  evEnable : f.evEnable
  evDispatch : f.evDispatch

/-- As long as one of its sources expects events, the kevent is enabled in the kernel queue if
that supports its descriptor, and watched with `select()` if it does not and the descriptor is
`k`. -/
structure Monitored (supported : ℕ → Filter → Bool) (k : ℕ × Filter) (st : Manager S) (d : Dk S) :
    Prop where
  flags : (st.flags d).Enabling
  rearm : ∀ ds ∈ (st.reg.dk d).dkSources, (st.del ds).dsNeedsRearm
  knote : supported (st.reg.dk d).ident (st.reg.dk d).filter →
    ∃ x, st.kq.knotes (st.reg.dk d).ident (st.reg.dk d).filter = some x ∧ x.evDispatch ∧
      x.udata = d ∧ ∀ ds ∈ (st.reg.dk d).dkSources, (st.del ds).Live → x.enabled
  selected : supported (st.reg.dk d).ident (st.reg.dk d).filter = false → st.reg.key d = k →
    ((st.kq.select k).1 → (st.kq.select k).2 = some d) ∧
      ∀ ds ∈ (st.reg.dk d).dkSources, (st.del ds).Live → (st.kq.select k).1

structure Ready (st : Manager S) (ds : S) : Prop where
  flags : (st.flags (.own ds)).Enabling
  rearm : (st.del ds).dsNeedsRearm
  idle : (st.del ds).dsIsArmed = false

structure Watched (supported : ℕ → Filter → Bool) (k : ℕ × Filter) (st : Manager S) : Prop where
  monitored : ∀ d, st.reg.Registered d → (st.reg.dk d).filter.isDescriptor →
    Monitored supported k st d
  ready : ∀ ds x, st.reg.ds ds = some x → x.dsIsInstalled = false →
    x.dsType.filter.isDescriptor → Ready st ds

section Watched

variable {st st' : Manager S} {d d₀ : Dk S} {ds ds₀ : S} {supported : ℕ → Filter → Bool}
  {k : ℕ × Filter}

theorem Filter.not_isStatic {f : Filter} (h : f.isDescriptor) : f.isStatic = false := by
  cases f <;> first | rfl | cases h

omit [DecidableEq S] in
theorem spares_of_enabling
    (hflags : (st.reg.dk d).filter.isDescriptor → (st.flags d).Enabling)
    (hdelete : (st.flags d).evDelete) : st.Spares d k := by
  intro hread
  rw [(hflags (by rw [hread]; rfl)).evDelete] at hdelete
  cases hdelete

omit [DecidableEq S] in
theorem Monitored.of_live (h : Monitored supported k st d)
    (hkey : st'.reg.key d = st.reg.key d) (hflags : (st'.flags d).Enabling)
    (hknote : st'.kq.knotes (st.reg.dk d).ident (st.reg.dk d).filter =
      st.kq.knotes (st.reg.dk d).ident (st.reg.dk d).filter)
    (hselect : st.reg.key d = k → st'.kq.select k = st.kq.select k)
    (hrearm : ∀ ds ∈ (st'.reg.dk d).dkSources, (st'.del ds).dsNeedsRearm)
    (hlive : ∀ ds ∈ (st'.reg.dk d).dkSources, (st'.del ds).Live →
      ds ∈ (st.reg.dk d).dkSources ∧ (st.del ds).Live) :
    Monitored supported k st' d := by
  obtain ⟨hident, hfilter⟩ : (st'.reg.dk d).ident = (st.reg.dk d).ident ∧
      (st'.reg.dk d).filter = (st.reg.dk d).filter := Prod.ext_iff.mp hkey
  constructor
  case flags => exact hflags
  case rearm => exact hrearm
  case knote =>
    rw [hident, hfilter, hknote]
    intro hsup
    obtain ⟨x, hx, hdispatch, hudata, henabled⟩ := h.knote hsup
    refine ⟨x, hx, hdispatch, hudata, fun ds hds hl ↦ ?_⟩
    obtain ⟨hmem, hl'⟩ := hlive ds hds hl
    exact henabled ds hmem hl'
  case selected =>
    rw [hident, hfilter, hkey]
    intro hsup hk
    obtain ⟨hptr, hbit⟩ := h.selected hsup hk
    rw [hselect hk]
    refine ⟨hptr, fun ds hds hl ↦ ?_⟩
    obtain ⟨hmem, hl'⟩ := hlive ds hds hl
    exact hbit ds hmem hl'

omit [DecidableEq S] in
theorem Monitored.of_eq (h : Monitored supported k st d) (hdk : st'.reg.dk d = st.reg.dk d)
    (hflags : (st'.flags d).Enabling)
    (hknote : st'.kq.knotes (st.reg.dk d).ident (st.reg.dk d).filter =
      st.kq.knotes (st.reg.dk d).ident (st.reg.dk d).filter)
    (hselect : st.reg.key d = k → st'.kq.select k = st.kq.select k)
    (hdel : ∀ ds ∈ (st.reg.dk d).dkSources, (st.del ds).Settles (st'.del ds)) :
    Monitored supported k st' d := by
  refine h.of_live (by rw [Registry.key, hdk, Registry.key]) hflags hknote hselect ?_ ?_ <;>
    rw [hdk]
  · intro ds hds
    rw [(hdel ds hds).rearm_eq]
    exact h.rearm ds hds
  · exact fun ds hds hl ↦ ⟨hds, (hdel ds hds).live hl⟩

omit [DecidableEq S] in
theorem Ready.of_settles (h : Ready st ds) (hflags : (st'.flags (.own ds)).Enabling)
    (hdel : (st.del ds).Settles (st'.del ds)) : Ready st' ds := by
  refine ⟨hflags, ?_, ?_⟩
  · rw [hdel.rearm_eq]
    exact h.rearm
  · simpa [h.idle] using hdel.armed

omit [DecidableEq S] in
theorem Watched.of_local (h : Watched supported k st) (hwf : st.reg.Wf) (hwf' : st'.reg.Wf)
    (hl : Local k st st' d₀ ds₀)
    (hd₀ : st.reg.Registered d₀ ∨ d₀ = .own ds₀ ∧ st'.reg.Registered d₀)
    (hoff : ∀ d, d ≠ d₀ → d.isStatic = false → ds₀ ∉ (st.reg.dk d).dkSources)
    (hself : st'.reg.Registered d₀ → (st'.reg.dk d₀).filter.isDescriptor →
      Monitored supported k st' d₀)
    (hready : ∀ x, st'.reg.ds ds₀ = some x → x.dsIsInstalled = false →
      x.dsType.filter.isDescriptor = false) : Watched supported k st' where
  monitored d hreg hdesc := by
    by_cases hd : d = d₀
    · subst hd
      exact hself hreg hdesc
    · have hreg' := hl.registered d hd hreg
      have hs : d.isStatic = false := by
        rw [← hwf'.isStatic_filter hreg]
        exact Filter.not_isStatic hdesc
      have hdk := hl.dk_eq d hd hs
      rw [hdk] at hdesc
      have hmon := h.monitored d hreg' hdesc
      have hkey : st.reg.key d ≠ st.reg.key d₀ := by
        intro heq
        rcases hd₀ with hreg₀ | ⟨-, hreg₀⟩
        · exact hd (hwf.table.unique d d₀ hreg' hreg₀ heq)
        · refine hd (hwf'.table.unique d d₀ hreg hreg₀ ?_)
          rw [hl.key_eq, ← heq, Registry.key, Registry.key, hdk]
      refine hmon.of_eq hdk ?_ (hl.changes.knotes_eq hkey) (fun hk ↦ ?_) fun ds hds ↦ ?_
      · rw [hl.flags_eq d hd]
        exact hmon.flags
      · exact hl.select_eq (hk ▸ hkey.symm)
      · refine hl.del ds ?_
        rintro rfl
        exact hoff d hd hs hds
  ready ds x hx hinst hdesc := by
    rcases eq_or_ne ds ds₀ with rfl | hds
    · rw [hready x hx hinst] at hdesc
      cases hdesc
    · rw [hl.ds_eq ds hds] at hx
      have hr := h.ready ds x hx hinst hdesc
      have hd : Dk.own ds ≠ d₀ := by
        rintro rfl
        rcases hd₀ with hreg | ⟨heq, -⟩
        · obtain ⟨y, hy, hyinst⟩ := hwf.born ds hreg
          rw [hx, Option.some_inj] at hy
          rw [← hy, hinst] at hyinst
          cases hyinst
        · exact hds (Dk.own.inj heq)
      refine hr.of_settles ?_ (hl.del ds hds)
      rw [hl.flags_eq _ hd]
      exact hr.flags

omit [DecidableEq S] in
theorem Watched.of_settles (h : Watched supported k st)
    (hsources : st'.reg.dispatchSources = st.reg.dispatchSources) (hdk : st'.reg.dk = st.reg.dk)
    (hds : ∀ ds x, st'.reg.ds ds = some x → x.dsIsInstalled = false → st.reg.ds ds = some x)
    (hflags : ∀ d, (st.flags d).Enabling → (st'.flags d).Enabling) (hkq : st'.kq = st.kq)
    (hdel : ∀ ds, (st.del ds).Settles (st'.del ds)) : Watched supported k st' where
  monitored d hreg hdesc := by
    unfold Registry.Registered at hreg
    rw [hsources] at hreg
    rw [hdk] at hdesc
    have hmon := h.monitored d hreg hdesc
    exact hmon.of_eq (by rw [hdk]) (hflags d hmon.flags) (by rw [hkq]) (fun _ ↦ by rw [hkq])
      fun ds _ ↦ hdel ds
  ready ds x hx hinst hdesc := by
    have hr := h.ready ds x (hds ds x hx hinst) hinst hdesc
    exact hr.of_settles (hflags _ hr.flags) (hdel ds)

omit [DecidableEq S] in
theorem Watched.rekey (h : Watched supported k st) {k' : ℕ × Filter}
    (hk' : k'.2.isDescriptor → supported k'.1 k'.2) : Watched supported k' st where
  monitored d hreg hdesc := by
    have hmon := h.monitored d hreg hdesc
    refine ⟨hmon.flags, hmon.rearm, hmon.knote, ?_⟩
    rintro hsup rfl
    rw [Registry.key] at hk'
    rw [hk' hdesc] at hsup
    cases hsup
  ready := h.ready

theorem Watched.setDel (h : Watched supported k st) {y : Delivery}
    (hy : (st.del ds).Settles y) : Watched supported k (st.setDel ds y) := by
  refine h.of_settles rfl rfl (fun _ _ hx _ ↦ hx) (fun _ hf ↦ hf) rfl fun ds' ↦ ?_
  rcases eq_or_ne ds' ds with rfl | hne
  · simpa [State.setDel] using hy
  · simpa [State.setDel, hne] using .refl (st.del ds')

theorem enabling_drain {ke : Event} (hf : (st.flags d).Enabling) :
    ((st.dispatchSourceDrainKevent d₀ ke).flags d).Enabling := by
  rcases eq_or_ne d d₀ with rfl | hne
  · simp only [State.dispatchSourceDrainKevent, Function.update_self]
    exact ⟨hf.evDelete, hf.evEnable, hf.evDispatch⟩
  · simpa [State.dispatchSourceDrainKevent, hne] using hf

/-! ## Arming -/

variable {answer : Option ℕ}

/-- The answer to a registration: the descriptors that are not supported are refused with an
error other than `EBADF`. -/
def Answers (supported : ℕ → Filter → Bool) (ident : ℕ) (filter : Filter) (answer : Option ℕ) :
    Prop :=
  if supported ident filter then answer = some 0
  else ∃ errno ∈ answer, errno ≠ 0 ∧ errno ≠ EBADF

namespace State

theorem del_changeKq (hdesc : (st.reg.dk d).filter.isDescriptor) :
    (st.changeKq d answer).del = st.del := by
  rcases st.changeKq_cases d answer with h | ⟨receipt, h⟩ <;> rw [h]
  unfold registrationFailed
  cases hf : (st.reg.dk d).filter <;> first | rfl | (rw [hf] at hdesc; cases hdesc)

section Resume

variable (hdesc : (st.reg.dk d).filter.isDescriptor) (hflags : (st.flags d).Enabling)

include hdesc hflags

theorem resume_descriptor : st.dispatchKeventResume d answer =
    (st.changeKq d answer).setFlags d { st.flags d with evAdd := false } := by
  have hresume : st.dispatchKeventResume d answer = st.resumeKq d answer := by
    unfold dispatchKeventResume
    cases hf : (st.reg.dk d).filter <;> first | rfl | (rw [hf] at hdesc; cases hdesc)
  have hupdate : st.dispatchUpdateKq d answer = st.changeKq d answer := by
    simp [dispatchUpdateKq, hflags.evDelete]
  rw [hresume]
  simp only [resumeKq, hupdate, st.flags_changeKq, hflags.evDispatch, if_true]

theorem del_resume : (st.dispatchKeventResume d answer).del = st.del := by
  rw [resume_descriptor hdesc hflags]
  exact del_changeKq hdesc

theorem knotes_resume
    (hknown : (st.flags d).evAdd ∨
      ∃ x, st.kq.knotes (st.reg.dk d).ident (st.reg.dk d).filter = some x ∧ x.evDispatch ∧
        x.udata = d) :
    (st.dispatchKeventResume d (some 0)).kq.knotes (st.reg.dk d).ident (st.reg.dk d).filter =
      some ⟨true, true, d⟩ := by
  have hkevent : kevent st.kq.knotes (st.change d) 0 =
      (setKnote st.kq.knotes (st.reg.dk d).ident (st.reg.dk d).filter (some ⟨true, true, d⟩),
        0) := by
    unfold kevent State.change
    simp only [hflags.evDelete, Bool.false_eq_true, if_false]
    cases hadd : (st.flags d).evAdd with
    | true => simp [hflags.evDispatch]
    | false =>
        obtain ⟨x, hx, hdispatch, hudata⟩ := hknown.resolve_left (by simp [hadd])
        obtain ⟨en, disp, u⟩ := x
        simp only at hdispatch hudata
        subst hdispatch hudata
        simp [hx, hflags.evEnable]
  rw [resume_descriptor hdesc hflags]
  simp [setFlags, changeKq, hkevent]

theorem select_resume {errno : ℕ} (hne : errno ≠ 0) (hbad : errno ≠ EBADF)
    (hknown : (st.flags d).evAdd ∨ st.kq.select (st.reg.key d) = (true, some d)) :
    (st.dispatchKeventResume d (some errno)).kq.select (st.reg.key d) = (true, some d) := by
  rw [resume_descriptor hdesc hflags]
  cases hadd : (st.flags d).evAdd with
  | true =>
      have hkevent : kevent st.kq.knotes (st.change d) errno = (st.kq.knotes, errno) := by
        simp [kevent, State.change, hflags.evDelete, hadd, hne]
      cases hf : (st.reg.dk d).filter <;>
        first
        | (rw [hf] at hdesc; cases hdesc; done)
        | simp [setFlags, changeKq, hkevent, hadd, hne, hbad, registrationFailed, hf, Kq.select,
            Kq.watches, Kq.pointer, Registry.key]
  | false =>
      have hkq : (st.changeKq d (some errno)).kq =
          { st.kq with knotes := (kevent st.kq.knotes (st.change d) errno).1 } := by
        simp [changeKq, hadd]
      exact (congrArg (fun kq : Kq S (Knotes S) ↦ kq.select (st.reg.key d)) hkq).trans
        (hknown.resolve_left (by simp [hadd]))

end Resume

end State

theorem monitored_resume (hdesc : (st.reg.dk d).filter.isDescriptor)
    (hflags : (st.flags d).Enabling)
    (ha : Answers supported (st.reg.dk d).ident (st.reg.dk d).filter answer)
    (hknown : (st.flags d).evAdd ∨ Monitored supported k st d ∧
      (supported (st.reg.dk d).ident (st.reg.dk d).filter = false → st.reg.key d = k →
        (st.kq.select k).1))
    (hrearm : ∀ ds ∈ (st.reg.dk d).dkSources, (st.del ds).dsNeedsRearm)
    {y : Delivery} (hy : ds ∈ (st.reg.dk d).dkSources → y.dsNeedsRearm) :
    Monitored supported k ((st.dispatchKeventResume d answer).setDel ds y) d := by
  have hreg := (st.quiet_dispatchKeventResume d answer).1
  constructor
  case flags =>
    rw [State.resume_descriptor hdesc hflags]
    simp only [State.setDel, State.setFlags, Function.update_self]
    exact ⟨hflags.evDelete, hflags.evEnable, hflags.evDispatch⟩
  case rearm =>
    intro ds' hds'
    simp only [State.setDel, hreg] at hds'
    rcases eq_or_ne ds' ds with rfl | hne
    · simpa [State.setDel] using hy hds'
    · simpa [State.setDel, State.del_resume hdesc hflags, hne] using hrearm ds' hds'
  case knote =>
    simp only [State.setDel, hreg]
    intro hsup
    obtain rfl : answer = some 0 := by simpa [Answers, hsup] using ha
    refine ⟨⟨true, true, d⟩, ?_, rfl, rfl, fun _ _ _ ↦ rfl⟩
    refine State.knotes_resume hdesc hflags (hknown.imp_right fun hmon ↦ ?_)
    obtain ⟨x, hx, hdispatch, hudata, -⟩ := hmon.1.knote hsup
    exact ⟨x, hx, hdispatch, hudata⟩
  case selected =>
    simp only [State.setDel, hreg]
    rintro hsup rfl
    obtain ⟨errno, rfl, hne, hbad⟩ : ∃ errno, answer = some errno ∧ errno ≠ 0 ∧ errno ≠ EBADF := by
      simpa [Answers, hsup] using ha
    have hselect := State.select_resume hdesc hflags hne hbad (hknown.imp_right fun hmon ↦
      Prod.ext (hmon.2 hsup rfl) ((hmon.1.selected hsup rfl).1 (hmon.2 hsup rfl)))
    rw [hselect]
    exact ⟨fun _ ↦ rfl, fun _ _ _ ↦ rfl⟩

variable {x : Source S}

/-- The answer that the kernel gives when it is asked about a descriptor. -/
def AnsweredFor (supported : ℕ → Filter → Bool) (x : Source S) (answer : Option ℕ) : Prop :=
  x.dsType.filter.isDescriptor → Answers supported x.dsIdentHack x.dsType.filter answer

omit [DecidableEq S] in
theorem key_of_suits {dk : Dkevent S} (hsuits : Registry.Suits dk x)
    (hdesc : dk.filter.isDescriptor) :
    (dk.ident, dk.filter) = (x.dsIdentHack, x.dsType.filter) := by
  have htype : x.dsType ≠ .timer := by
    intro htype
    rw [hsuits.filter_eq, htype] at hdesc
    cases hdesc
  rw [hsuits.ident_eq htype, hsuits.filter_eq]

omit [DecidableEq S] in
theorem answers_of_suits {dk : Dkevent S} (hsuits : Registry.Suits dk x)
    (ha : AnsweredFor supported x answer) (hdesc : dk.filter.isDescriptor) :
    Answers supported dk.ident dk.filter answer := by
  obtain ⟨hident, hfilter⟩ := Prod.ext_iff.mp (key_of_suits hsuits hdesc)
  simp only at hident hfilter
  rw [hident, hfilter]
  exact ha (hfilter ▸ hdesc)

theorem monitored_join {r : Registry S} {again : Bool} (hready : Ready st ds)
    (hdesc : (r.dk d).filter.isDescriptor) (hkey : r.key d = st.reg.key d)
    (ha : Answers supported (r.dk d).ident (r.dk d).filter answer)
    (hlist : (r.dk d).dkSources = (st.reg.dk d).dkSources ++ [ds])
    (hor : Monitored supported k st d ∨
      d = .own ds ∧ again = true ∧ (st.reg.dk d).dkSources = []) :
    Monitored supported k (if again then State.registerNew { st with reg := r } ds d answer
      else { st with reg := r }) d := by
  have hflags : (st.flags d).Enabling := by
    rcases hor with hmon | ⟨rfl, -, -⟩
    · exact hmon.flags
    · exact hready.flags
  have hrearm : ∀ ds' ∈ (r.dk d).dkSources, (st.del ds').dsNeedsRearm := by
    intro ds' hds'
    rw [hlist, List.mem_append, List.mem_singleton] at hds'
    rcases hds' with hds' | rfl
    · rcases hor with hmon | ⟨-, -, hnil⟩
      · exact hmon.rearm ds' hds'
      · rw [hnil] at hds'
        cases hds'
    · exact hready.rearm
  cases again with
  | true =>
      have hflags' : ((State.setFlags { st with reg := r } d
          { st.flags d with evAdd := true }).flags d).Enabling := by
        simp only [State.setFlags, Function.update_self]
        exact ⟨hflags.evDelete, hflags.evEnable, hflags.evDispatch⟩
      have hknown : ((State.setFlags { st with reg := r } d
          { st.flags d with evAdd := true }).flags d).evAdd := by
        simp [State.setFlags]
      simp only [if_true, State.registerNew]
      refine monitored_resume hdesc hflags' ha (.inl hknown) hrearm fun hmem ↦ ?_
      rw [State.del_resume hdesc hflags']
      exact hrearm ds hmem
  | false =>
      have hmon : Monitored supported k st d := hor.resolve_right fun hown ↦ by cases hown.2.1
      refine hmon.of_live hkey hflags rfl (fun _ ↦ rfl) hrearm fun ds' hds' hl ↦ ⟨?_, hl⟩
      simp only [Bool.false_eq_true, if_false, hlist, List.mem_append, List.mem_singleton] at hds'
      refine hds'.resolve_right ?_
      rintro rfl
      have harmed := hl.1
      simp [hready.idle] at harmed

theorem Watched.merge (h : Watched supported k st) (hwf : st.reg.Wf)
    (hx : st.reg.ds ds = some x) (hinst : x.dsIsInstalled = false)
    (ha : AnsweredFor supported x answer) :
    Watched supported k (st.dispatchKeventMerge ds x answer) := by
  obtain ⟨hown, hsuits, -⟩ := hwf.fresh ds x hx hinst
  have hreg : (st.dispatchKeventMerge ds x answer).reg = (st.reg.merge ds x (.own ds)).1 :=
    (st.quiet_merge ds answer hinst hown).1
  have hwf' : (st.reg.merge ds x (.own ds)).1.Wf := hwf.merge hx hinst
  have hx' : (st.reg.merge ds x (.own ds)).1.ds ds =
      some { x with dsIsInstalled := true, dsDkev := some (st.reg.merge ds x (.own ds)).2.1 } := by
    rw [Registry.merge_ds, Function.update_self]
  obtain ⟨hreg₀, hsuits₀⟩ := hwf'.installed ds _ _ hx' rfl rfl
  obtain ⟨hident, hfilter, hlist⟩ := st.reg.merge_dk ds x (.own ds)
  have hor (hdesc : (st.reg.dk (st.reg.merge ds x (.own ds)).2.1).filter.isDescriptor) :
      Monitored supported k st (st.reg.merge ds x (.own ds)).2.1 ∨
        (st.reg.merge ds x (.own ds)).2.1 = .own ds ∧
          (st.reg.merge ds x (.own ds)).2.2 = true ∧
          (st.reg.dk (st.reg.merge ds x (.own ds)).2.1).dkSources = [] := by
    rcases hwf.merge_cases ds x (.own ds) with hd | ⟨hd, hagain⟩
    · exact .inl (h.monitored _ hd hdesc)
    · refine .inr ⟨hd, hagain, ?_⟩
      rw [hd]
      exact (hwf.own_of_fresh hx hinst).2
  have hready (hdesc : (st.reg.dk (st.reg.merge ds x (.own ds)).2.1).filter.isDescriptor) :
      Ready st ds := by
    refine h.ready ds x hx hinst ?_
    rwa [← hfilter, hsuits₀.filter_eq] at hdesc
  have hspares : (st.flags (st.reg.merge ds x (.own ds)).2.1).evDelete →
      st.Spares (st.reg.merge ds x (.own ds)).2.1 k := by
    refine spares_of_enabling fun hdesc ↦ ?_
    rcases hor hdesc with hmon | ⟨hd, -, -⟩
    · exact hmon.flags
    · rw [hd]
      exact (hready hdesc).flags
  refine h.of_local hwf (hreg ▸ hwf') (State.local_merge hinst hown hspares) ?_
    (fun d _ _ ↦ hwf.notMem_of_fresh hx hinst d) ?_ ?_
  · exact (hwf.merge_cases ds x (.own ds)).imp_right fun hown' ↦ ⟨hown'.1, hreg.symm ▸ hreg₀⟩
  · intro _ hdesc
    rw [hreg] at hdesc
    have heq : st.dispatchKeventMerge ds x answer =
        if (st.reg.merge ds x (.own ds)).2.2 then
          State.registerNew { st with reg := (st.reg.merge ds x (.own ds)).1 } ds
            (st.reg.merge ds x (.own ds)).2.1 answer
        else { st with reg := (st.reg.merge ds x (.own ds)).1 } := by
      unfold State.dispatchKeventMerge
      rw [hinst, hown]
    rw [heq]
    have hdesc' := hfilter ▸ hdesc
    exact monitored_join (hready hdesc') hdesc (Prod.ext hident hfilter)
      (answers_of_suits hsuits₀ ha hdesc) hlist (hor hdesc')
  · intro y hy hyinst
    rw [hreg, hx', Option.some_inj] at hy
    rw [← hy] at hyinst
    cases hyinst

omit [DecidableEq S] in
theorem Watched.of_installed (h : Watched supported k st) (hwf : st.reg.Wf) (hwf' : st'.reg.Wf)
    (hx : st.reg.ds ds = some x) (hinst : x.dsIsInstalled) (hdk : x.dsDkev = some d)
    (hl : Local k st st' d ds) {x' : Source S} (hx' : st'.reg.ds ds = some x')
    (hinst' : x'.dsIsInstalled)
    (hself : st'.reg.Registered d → (st.reg.dk d).filter.isDescriptor →
      Monitored supported k st d → Monitored supported k st' d) :
    Watched supported k st' := by
  obtain ⟨hreg, -⟩ := hwf.installed ds x d hx hinst hdk
  obtain ⟨-, hfilter⟩ := Prod.ext_iff.mp hl.key_eq
  refine h.of_local hwf hwf' hl (.inl hreg) (fun d' hne _ ↦ hwf.notMem_of_ne hx hdk hne) ?_ ?_
  · intro hreg' hdesc
    simp only [Registry.key] at hfilter
    rw [hfilter] at hdesc
    exact hself hreg' hdesc (h.monitored d hreg hdesc)
  · intro y hy hyinst
    rw [hx', Option.some_inj] at hy
    rw [← hy, hinst'] at hyinst
    cases hyinst

theorem monitored_leave (hdesc : (st.reg.dk d).filter.isDescriptor)
    (hmon : Monitored supported k st d)
    (ha : Answers supported (st.reg.dk d).ident (st.reg.dk d).filter answer)
    (hnodup : (st.reg.dk d).dkSources.Nodup) (hne : (st.reg.dk d).dkSources.erase ds ≠ []) :
    Monitored supported k (st.dispatchKeventRelease ds x d answer) d := by
  have hlist : ((st.reg.detach ds x d).dk d).dkSources = (st.reg.dk d).dkSources.erase ds := by
    simp [Registry.detach]
  have hnot : ds ∉ (st.reg.dk d).dkSources.erase ds := hnodup.not_mem_erase
  simp only [State.dispatchKeventRelease, State.releaseKevent, hlist, if_neg hne]
  split
  · refine monitored_resume ?_ ?_ ?_ (.inl ?_) ?_ ?_
    · simpa [Registry.detach] using hdesc
    · simp only [Function.update_self]
      exact ⟨hmon.flags.evDelete, hmon.flags.evEnable, hmon.flags.evDispatch⟩
    · simpa [Registry.detach] using ha
    · simp
    · intro ds' hds'
      refine hmon.rearm ds' (List.mem_of_mem_erase (?_ : ds' ∈ (st.reg.dk d).dkSources.erase ds))
      simpa [Registry.detach] using hds'
    · intro hmem
      refine absurd ?_ hnot
      simpa [Registry.detach] using hmem
  · have hmem : ∀ ds' ∈ ((st.reg.detach ds x d).dk d).dkSources,
        ds' ≠ ds ∧ ds' ∈ (st.reg.dk d).dkSources := by
      intro ds' hds'
      rw [hlist] at hds'
      exact ⟨fun heq ↦ hnot (heq ▸ hds'), List.mem_of_mem_erase hds'⟩
    have hkey : (st.reg.detach ds x d).key d = st.reg.key d := by
      simp [Registry.key, Registry.detach]
    refine hmon.of_live hkey hmon.flags rfl (fun _ ↦ rfl) (fun ds' hds' ↦ ?_) fun ds' hds' hl ↦ ?_
      <;> obtain ⟨hne', hds'⟩ := hmem ds' hds'
    · simpa [State.setDel, hne'] using hmon.rearm ds' hds'
    · exact ⟨hds', by simpa [State.setDel, hne'] using hl⟩

theorem Watched.release (h : Watched supported k st) (hwf : st.reg.Wf)
    (hx : st.reg.ds ds = some x) (hinst : x.dsIsInstalled) (hdk : x.dsDkev = some d)
    (ha : AnsweredFor supported x answer)
    (hspares : (st.reg.dk d).dkSources = [ds] → st.Spares d k) :
    Watched supported k (st.dispatchKeventRelease ds x d answer) := by
  have hreg : (st.dispatchKeventRelease ds x d answer).reg = st.reg.release ds x d :=
    (st.quiet_release ds x d answer).1
  have hwf' := hwf.release hx hinst hdk
  have hx' : (st.dispatchKeventRelease ds x d answer).reg.ds ds =
      some { x with dsDkev := none } := by
    rw [hreg, Registry.release_ds, Function.update_self]
  obtain ⟨hregd, hsuits⟩ := hwf.installed ds x d hx hinst hdk
  have hmem : ds ∈ (st.reg.dk d).dkSources := (hwf.listed ds d).mpr ⟨x, hx, hinst, hdk⟩
  have hl : Local k st (st.dispatchKeventRelease ds x d answer) d ds := by
    refine State.local_release (spares_of_enabling fun hdesc ↦ (h.monitored d hregd hdesc).flags)
      fun hnil ↦ hspares ?_
    exact (List.erase_eq_nil_iff.mp hnil).resolve_left (List.ne_nil_of_mem hmem)
  refine h.of_installed hwf (hreg ▸ hwf') hx hinst hdk hl hx' hinst ?_
  intro hreg' hdesc hmon
  refine monitored_leave hdesc hmon (answers_of_suits hsuits ha hdesc) (hwf.list_nodup d) ?_
  rw [hreg] at hreg'
  obtain ⟨-, hfilter, hlist⟩ := st.reg.release_dk ds x d
  have hs : d.isStatic = false := by
    rw [← hwf'.isStatic_filter hreg', hfilter]
    exact Filter.not_isStatic hdesc
  cases d with
  | own t =>
      rw [← hlist]
      exact (hwf'.used t hreg').2.1
  | _ => cases hs

theorem Watched.rearm (h : Watched supported k st) (hwf : st.reg.Wf)
    (hx : st.reg.ds ds = some x) (hinst : x.dsIsInstalled) (hdk : x.dsDkev = some d)
    (ha : AnsweredFor supported x answer)
    (hbit : supported k.1 k.2 = false → (x.dsIdentHack, x.dsType.filter) = k →
      (st.kq.select k).1) :
    Watched supported k ((st.dispatchKeventResume d answer).setDel ds
      { (st.dispatchKeventResume d answer).del ds with dsIsArmed := true }) := by
  have hreg := (st.quiet_dispatchKeventResume d answer).1
  obtain ⟨hregd, hsuits⟩ := hwf.installed ds x d hx hinst hdk
  have hl := st.local_dispatchKeventResume d ds answer (k := k)
    (spares_of_enabling fun hdesc ↦ (h.monitored d hregd hdesc).flags)
  refine h.of_installed hwf (hreg.symm ▸ hwf) hx hinst hdk (hl.trans (.setDel k _ d ds _))
    ((congrArg (fun r ↦ r.ds ds) hreg).trans hx) hinst ?_
  intro _ hdesc hmon
  have hkey := key_of_suits hsuits hdesc
  refine monitored_resume hdesc hmon.flags (answers_of_suits hsuits ha hdesc)
    (.inr ⟨hmon, fun hsup hk ↦ ?_⟩) hmon.rearm fun hmem ↦ ?_
  · subst hk
    exact hbit hsup hkey.symm
  · rw [State.del_resume hdesc hmon.flags]
    exact hmon.rearm ds hmem

omit [DecidableEq S] in
theorem Watched.timer (h : Watched supported k st) (hwf : st.reg.Wf) (hwf' : st'.reg.Wf)
    (hx : st.reg.ds ds = some x) (htype : x.dsType = .timer)
    (hl : Local k st st' (.timer .wall) ds) {x' : Source S} (hx' : st'.reg.ds ds = some x')
    (htype' : x'.dsType = .timer) : Watched supported k st' := by
  refine h.of_local hwf hwf' hl (.inl (hwf.static _ rfl).1) (fun d _ hs hmem ↦ ?_) ?_ ?_
  · obtain ⟨y, hy, hyinst, hyd⟩ := (hwf.listed ds d).mp hmem
    rw [hx, Option.some_inj] at hy
    subst hy
    obtain ⟨c, rfl⟩ := hwf.dkev_timer hx hyinst htype hyd
    cases hs
  · intro _ hdesc
    rw [hwf'.filter_static rfl] at hdesc
    cases hdesc
  · intro y hy _
    rw [hx', Option.some_inj] at hy
    rw [← hy, htype']
    rfl

theorem Watched.listUpdate (h : Watched supported k st) (hwf : st.reg.Wf)
    (hx : st.reg.ds ds = some x) (htype : x.dsType = .timer) :
    Watched supported k (st.dispatchTimerListUpdate ds x) := by
  cases hdkev : x.dsDkev with
  | none => rwa [State.listUpdate_released hdkev]
  | some own =>
      obtain ⟨hwf', hreq, -⟩ := State.requeued_listUpdate hwf hx htype (by simp [hdkev])
      have hx' : (st.dispatchTimerListUpdate ds x).reg.ds ds = some
          { x with dsIsInstalled := true, dsDkev := some (.timer (Registry.clockOf x)) } := by
        rw [hreq.ds_eq, Function.update_self]
      exact h.timer hwf hwf' hx htype (State.local_listUpdate hwf hx htype) hx' htype

theorem Watched.setDs (h : Watched supported k st) (hwf : st.reg.Wf)
    (hx : st.reg.ds ds = some x) (htype : x.dsType = .timer) {x' : Source S}
    (hwf' : (st.reg.setDs ds x').Wf) (htype' : x'.dsType = .timer) :
    Watched supported k { st with reg := st.reg.setDs ds x' } := by
  refine h.timer hwf hwf' hx htype ?_ (Registry.setDs_ds_self _ _ _) htype'
  exact ⟨fun _ _ hreg ↦ hreg, fun _ _ _ ↦ rfl, rfl,
    fun ds' hne ↦ Registry.setDs_ds_of_ne _ hne _, fun _ _ ↦ rfl, .refl, fun _ ↦ rfl,
    fun _ _ ↦ .refl _⟩

theorem Watched.runTimers (h : Watched supported k st) (hI : Inv st) {c : Clock} {now : ℕ}
    (hs : st.runTimers c now = some st') : Watched supported k st' := by
  obtain ⟨ds, x, hhead, hx, hor⟩ := State.runTimers_eq_some hs
  obtain ⟨y, hy, htype, -, -⟩ := hI.wf.mem_timer (List.mem_of_mem_head? hhead)
  rw [hx, Option.some_inj] at hy
  subst hy
  rcases hor with ⟨-, rfl⟩ | ⟨-, -, -, -, rfl⟩
  · exact h.listUpdate hI.wf hx htype
  · have htype' : (x.fire now).1.dsType = .timer := by simpa using htype
    have hI' : Inv (st.fireTimer ds x now) := hI.fireTimer hx
    have hfire : Watched supported k (st.fireTimer ds x now) :=
      (h.setDs hI.wf hx htype hI'.wf htype').setDel ⟨rfl, id, id, id⟩
    exact hfire.listUpdate hI'.wf (Registry.setDs_ds_self _ _ _) htype'

/-- An event is merged into the sources of a kevent, and the knotes and what is watched with
`select()` change. -/
theorem Watched.drain (h : Watched supported k st) {kq : Kq S (Knotes S)} {ke : Event}
    (hknote : ∀ d, (st.reg.dk d).filter.isDescriptor → Monitored supported k st d →
      supported (st.reg.dk d).ident (st.reg.dk d).filter →
      ∃ x, kq.knotes (st.reg.dk d).ident (st.reg.dk d).filter = some x ∧ x.evDispatch ∧
        x.udata = d ∧ ∀ ds ∈ (st.reg.dk d).dkSources,
          ((State.dispatchSourceDrainKevent { st with kq := kq } d₀ ke).del ds).Live → x.enabled)
    (hselected : ∀ d, Monitored supported k st d →
      supported (st.reg.dk d).ident (st.reg.dk d).filter = false → st.reg.key d = k →
      ((kq.select k).1 → (kq.select k).2 = some d) ∧ ∀ ds ∈ (st.reg.dk d).dkSources,
        ((State.dispatchSourceDrainKevent { st with kq := kq } d₀ ke).del ds).Live →
          (kq.select k).1) :
    Watched supported k (State.dispatchSourceDrainKevent { st with kq := kq } d₀ ke) where
  monitored d hreg hdesc := by
    have hmon := h.monitored d hreg hdesc
    constructor
    case flags => exact enabling_drain hmon.flags
    case rearm =>
      intro ds hds
      rw [(State.settles_drain _ _ ds ke).rearm_eq]
      exact hmon.rearm ds hds
    case knote => exact hknote d hdesc hmon
    case selected => exact hselected d hmon
  ready ds x hx hinst hdesc := by
    have hr := h.ready ds x hx hinst hdesc
    exact hr.of_settles (enabling_drain hr.flags) (State.settles_drain _ _ ds ke)

theorem Watched.event (h : Watched supported k st) {ident : ℕ} {filter : Filter} {kn : Knote S}
    (hkn : st.kq.knotes ident filter = some kn) {evOneshot : Bool}
    (hone : evOneshot → filter = .proc) {ke : Event} (herror : ke.evError = false) :
    Watched supported k (State.dispatchSourceDrainKevent
      { st with
        kq.knotes := setKnote st.kq.knotes ident filter
          (if evOneshot then none else some { kn with enabled := !kn.evDispatch }) }
      kn.udata ke) := by
  refine h.drain (fun d hdesc hmon hsup ↦ ?_) fun d hmon hsup hk ↦ ?_
  · obtain ⟨kn', hkn', hdispatch, hudata, hlive⟩ := hmon.knote hsup
    by_cases hkey : ((st.reg.dk d).ident, (st.reg.dk d).filter) = (ident, filter)
    · obtain ⟨rfl, rfl⟩ := Prod.ext_iff.mp hkey
      have hkeep : evOneshot = false := by
        cases evOneshot with
        | false => rfl
        | true =>
            have hproc : (st.reg.dk d).filter = .proc := hone rfl
            rw [hproc] at hdesc
            cases hdesc
      rw [hkn, Option.some_inj] at hkn'
      subst hkn'
      refine ⟨{ kn with enabled := false }, ?_, hdispatch, hudata, ?_⟩
      · simp [hkeep, hdispatch]
      · intro ds hds hl
        simp only [State.dispatchSourceDrainKevent, hudata, hds, if_true] at hl
        exact absurd hl (Delivery.not_live_merge (hmon.rearm ds hds) _ herror)
    · exact ⟨kn', (setKnote_of_ne hkey).trans hkn', hdispatch, hudata,
        fun ds hds hl ↦ hlive ds hds ((State.settles_drain _ _ ds ke).live hl)⟩
  · obtain ⟨hptr, hlive⟩ := hmon.selected hsup hk
    exact ⟨hptr, fun ds hds hl ↦ hlive ds hds ((State.settles_drain _ _ ds ke).live hl)⟩

theorem Watched.select (h : Watched supported k st) {k₀ : ℕ × Filter} {kq : Kq S (Knotes S)}
    (hselect : st.kq.select k₀ = (true, some d₀)) (hknotes : kq.knotes = st.kq.knotes)
    (hclear : kq.select k₀ = (false, none)) (hother : k₀ ≠ k → kq.select k = st.kq.select k)
    {ke : Event} (herror : ke.evError = false) :
    Watched supported k (State.dispatchSourceDrainKevent { st with kq := kq } d₀ ke) := by
  refine h.drain (fun d _ hmon hsup ↦ ?_) fun d hmon hsup hk ↦ ?_
  · obtain ⟨kn, hkn, hdispatch, hudata, hlive⟩ := hmon.knote hsup
    rw [hknotes]
    exact ⟨kn, hkn, hdispatch, hudata,
      fun ds hds hl ↦ hlive ds hds ((State.settles_drain _ _ ds ke).live hl)⟩
  · obtain ⟨hptr, hlive⟩ := hmon.selected hsup hk
    by_cases hk₀ : k₀ = k
    · subst hk₀
      rw [hselect, Option.some_inj] at hptr
      obtain rfl : d₀ = d := hptr rfl
      rw [hclear]
      refine ⟨fun hset ↦ absurd hset Bool.false_ne_true, fun ds hds hl ↦ absurd hl ?_⟩
      simp only [State.dispatchSourceDrainKevent, hds, if_true]
      exact Delivery.not_live_merge (hmon.rearm ds hds) _ herror
    · rw [hother hk₀]
      exact ⟨hptr, fun ds hds hl ↦ hlive ds hds ((State.settles_drain _ _ ds ke).live hl)⟩

theorem Watched.create (h : Watched supported k st) (hwf : st.reg.Wf)
    (hnone : st.reg.ds ds = none) {ty : SourceType} {handle : ℕ} {mask : BitVec 64}
    {dk : Dkevent S} :
    Watched supported k
      { st with
        reg := (st.reg.setDk (.own ds) dk).setDs ds (State.newSource ds ty handle mask)
        flags := Function.update st.flags (.own ds)
          { ty.flags with evAdd := true, evEnable := true }
        del := Function.update st.del ds (State.newDelivery ty) } where
  monitored d hreg hdesc := by
    have hd : d ≠ .own ds := by
      rintro rfl
      obtain ⟨y, hy, -⟩ := hwf.born ds hreg
      rw [hnone] at hy
      cases hy
    have hdk := st.reg.setDk_dk_of_ne hd dk
    rw [Registry.setDs_dk, hdk] at hdesc
    have hmon := h.monitored d hreg hdesc
    refine hmon.of_eq hdk ?_ rfl (fun _ ↦ rfl) fun ds' hds' ↦ ?_
    · simpa [hd] using hmon.flags
    · have hne : ds' ≠ ds := by
        rintro rfl
        obtain ⟨y, hy, -⟩ := (hwf.listed ds' d).mp hds'
        rw [hnone] at hy
        cases hy
      simpa [hne] using .refl (st.del ds')
  ready ds' x hx hinst hdesc := by
    rcases eq_or_ne ds' ds with rfl | hne
    · rw [Registry.setDs_ds_self, Option.some_inj] at hx
      subst hx
      replace hdesc : ty.filter.isDescriptor := hdesc
      have hdispatch : ty.flags.evDispatch ∧ ty.flags.evDelete = false := by
        cases ty <;> first | exact ⟨rfl, rfl⟩ | cases hdesc
      refine ⟨?_, ?_, ?_⟩
      · simp only [Function.update_self]
        exact ⟨hdispatch.2, rfl, hdispatch.1⟩
      · simp [State.newDelivery, hdispatch.1]
      · simp [State.newDelivery]
    · rw [Registry.setDs_ds_of_ne _ hne] at hx
      refine (h.ready ds' x hx hinst hdesc).of_settles ?_ ?_
      · simpa [hne] using (h.ready ds' x hx hinst hdesc).flags
      · simpa [hne] using .refl (st.del ds')

end Watched

/-! ## Runs -/

section Runs

variable {host : Host} {st st' : Manager S} {a : Act S} {supported : ℕ → Filter → Bool}
  {k : ℕ × Filter}

/-- What the kernel answers: it accepts exactly the descriptors that it supports, and refuses
the others with an error other than `EBADF`. -/
def Answered (supported : ℕ → Filter → Bool) (st : Manager S) : Act S → Prop
  | .invoke ds answer => ∀ x ∈ st.reg.ds ds, AnsweredFor supported x answer
  | _ => True

/-- What a descriptor that is watched with `select()` can bear: it is not armed again after an
event, and the deletion of the kevent for reading does not fall through to it. -/
def Bears (k : ℕ × Filter) (st : Manager S) : Act S → Prop
  | .invoke ds _ => ∀ x ∈ st.reg.ds ds, x.dsIsInstalled →
      if (st.del ds).dsfCanceled ∨ (st.del ds).unreferenced then
        ∀ d ∈ x.dsDkev, (st.reg.dk d).dkSources = [ds] → st.Spares d k
      else (x.dsIdentHack, x.dsType.filter) = k → st.kq.watches k.1 k.2
  | _ => True

/-- The steps after which the descriptor `k` is still monitored.  If the kernel queue supports
it, only the answers of the kernel matter. -/
def KeepsMonitored (supported : ℕ → Filter → Bool) (k : ℕ × Filter) (st : Manager S) (a : Act S) :
    Prop :=
  Answered supported st a ∧ (supported k.1 k.2 = false → Bears k st a)

theorem Trans.watched (ht : Trans host st a st') (hC : KeepsMonitored supported k st a)
    (hI : Inv st) (h : Watched supported k st) : Watched supported k st' := by
  cases ht
  case create ds ty handle mask hok hnone => exact h.create hI.wf hnone
  case install ds x answer hx hinst => exact h.merge hI.wf hx hinst (hC.1 x hx)
  case uninstall ds x dk answer hx hinst hgone hdk =>
    cases hsup : supported k.1 k.2 with
    | true =>
        have h' : Watched supported (0, .proc) st := h.rekey fun hdesc ↦ by cases hdesc
        have hrelease := h'.release hI.wf hx hinst hdk (hC.1 x hx) fun _ _ hk ↦ by simp at hk
        exact hrelease.rekey fun _ ↦ hsup
    | false =>
        have hspares := hC.2 hsup x hx hinst
        rw [if_pos hgone] at hspares
        exact h.release hI.wf hx hinst hdk (hC.1 x hx) (hspares dk hdk)
  case rearm ds x dk answer hx hinst hcan href hdk =>
    refine h.rearm hI.wf hx hinst hdk (hC.1 x hx) fun hsup ↦ ?_
    have hbit := hC.2 hsup x hx hinst
    rwa [if_neg (by simp [hcan, href])] at hbit
  case latch ds => exact h.setDel ⟨rfl, id, id, id⟩
  case callout ds x hx hinst hdk =>
    refine Watched.setDel ?_ ⟨rfl, id, id, id⟩
    refine h.of_settles rfl rfl (fun ds' y hy hyinst ↦ ?_) (fun _ hf ↦ hf) rfl (fun _ ↦ .refl _)
    rcases eq_or_ne ds' ds with rfl | hne
    · rw [Registry.setDs_ds_self, Option.some_inj] at hy
      rw [← hy, hinst] at hyinst
      cases hyinst
    · rwa [Registry.setDs_ds_of_ne _ hne] at hy
  case cancel ds => exact h.setDel ⟨rfl, id, fun _ ↦ rfl, id⟩
  case unreference ds => exact h.setDel ⟨rfl, id, id, fun _ ↦ rfl⟩
  case event ident filter evOneshot fflags data kn hkn _ hone => exact h.event hkn hone rfl
  case selectRead fd dk hbit hptr =>
    have hselect : st.kq.select (fd, .read) = (true, some dk) := Prod.ext hbit hptr
    refine h.select hselect ?_ ?_ (st.kq.select_setRead _ _ _) ?_
    · rfl
    · simp [Kq.select, Kq.watches, Kq.pointer]
    · rfl
  case selectWrite fd dk hbit hptr =>
    have hselect : st.kq.select (fd, .write) = (true, some dk) := Prod.ext hbit hptr
    refine h.select hselect ?_ ?_ (st.kq.select_setWrite _ _ _) ?_
    · rfl
    · simp [Kq.select, Kq.watches, Kq.pointer]
    · rfl
  case setTimer ds x start interval leeway now hx htype =>
    exact h.of_settles rfl rfl (fun _ _ hx _ ↦ hx) (fun _ hf ↦ hf) rfl (fun _ ↦ .refl _)
  case setTimer2 i p hp =>
    obtain ⟨⟨x, hx, htype⟩, -⟩ := hI.params p (List.mem_of_getElem? hp)
    rw [setTimer2_eq (by exact hx)]
    have hI' := hI.assign (i := i) hx htype
    have h' : Watched supported k { st with params := st.params.eraseIdx i } :=
      h.of_settles rfl rfl (fun _ _ hx _ ↦ hx) (fun _ hf ↦ hf) rfl (fun _ ↦ .refl _)
    exact (h'.setDs hI.wf hx htype hI'.wf htype).listUpdate hI'.wf
      (Registry.setDs_ds_self _ _ _) htype
  case runTimers c now n hs =>
    have hP := State.runTimers2_induction (P := fun st ↦ Inv st ∧ Watched supported k st)
      (fun _ _ h hs ↦ ⟨h.1.runTimers hs, h.2.runTimers h.1 hs⟩) hs ⟨hI, h⟩
    exact hP.2

theorem watched_of_run (h : Runs host (KeepsMonitored supported k) st) :
    Watched supported k st := by
  induction h with
  | refl =>
      constructor
      case monitored =>
        intro d hreg hdesc
        obtain ⟨i, hi⟩ := hreg
        have hs : d.isStatic := (mem_initialSources.mp hi).1
        replace hdesc : d.initial.filter.isDescriptor := hdesc
        cases d <;> first | (cases hs; done) | cases hdesc
      case ready => exact fun ds x hx ↦ by cases hx
  | tail hrun hstep ih =>
      obtain ⟨a, hC, hs⟩ := hstep
      exact (trans_of_step hs).watched hC (inv_of_run hrun) ih

end Runs

instance (supported : ℕ → Filter → Bool) (ident : ℕ) (filter : Filter) (answer : Option ℕ) :
    Decidable (Answers supported ident filter answer) :=
  inferInstanceAs (Decidable (if supported _ _ then _ else _))

instance (supported : ℕ → Filter → Bool) (x : Source S) (answer : Option ℕ) :
    Decidable (AnsweredFor supported x answer) :=
  inferInstanceAs (Decidable (_ → _))

instance (st : Manager S) (dk : Dk S) (k : ℕ × Filter) : Decidable (st.Spares dk k) :=
  inferInstanceAs (Decidable (_ → _ → _ ∨ _))

instance (supported : ℕ → Filter → Bool) (st : Manager S) (a : Act S) :
    Decidable (Answered supported st a) :=
  match a with
  | .invoke ds answer =>
      inferInstanceAs (Decidable (∀ x ∈ st.reg.ds ds, AnsweredFor supported x answer))
  | .create .. | .latch .. | .callout .. | .cancel .. | .unreference .. | .event ..
  | .selectRead .. | .selectWrite .. | .setTimer .. | .setTimer2 .. | .runTimers .. =>
      inferInstanceAs (Decidable True)

instance (k : ℕ × Filter) (st : Manager S) (a : Act S) : Decidable (Bears k st a) :=
  match a with
  | .invoke ds _ =>
      inferInstanceAs (Decidable (∀ x ∈ st.reg.ds ds, x.dsIsInstalled →
        if (st.del ds).dsfCanceled ∨ (st.del ds).unreferenced then
          ∀ d ∈ x.dsDkev, (st.reg.dk d).dkSources = [ds] → st.Spares d k
        else (x.dsIdentHack, x.dsType.filter) = k → st.kq.watches k.1 k.2))
  | .create .. | .latch .. | .callout .. | .cancel .. | .unreference .. | .event ..
  | .selectRead .. | .selectWrite .. | .setTimer .. | .setTimer2 .. | .runTimers .. =>
      inferInstanceAs (Decidable True)

instance (supported : ℕ → Filter → Bool) (k : ℕ × Filter) (st : Manager S) (a : Act S) :
    Decidable (KeepsMonitored supported k st a) :=
  inferInstanceAs (Decidable (_ ∧ _))

/-- A source for a descriptor that is supported has had an event and has been armed again. -/
def rearmedState : Manager (Fin 1) :=
  (run (step plainHost) (KeepsMonitored (fun _ _ ↦ true) (3, .read)) initial
    [.create 0 .read 3 0, .invoke 0 (some 0), .event 3 .read false 0 1, .latch 0,
      .invoke 0 (some 0)]).get (by decide)

/-- A source for a descriptor that is not supported has had an event and has been cancelled.
Two others for the same descriptor have followed, of which the second is armed after its
registration. -/
def followedState : Manager (Fin 3) :=
  (run (step plainHost) (KeepsMonitored (fun _ _ ↦ false) (3, .read)) initial
    [.create 0 .read 3 0, .invoke 0 (some 22), .selectRead 3, .cancel 0, .invoke 0 (some 22),
      .create 1 .read 3 0, .invoke 1 (some 22), .create 2 .read 3 0, .invoke 2 (some 22),
      .invoke 2 (some 22)]).get (by decide)

/-- A descriptor that is not supported, whose event comes from `select()`. -/
def selectedState : Manager (Fin 1) :=
  (run (step plainHost) (Answered fun _ _ ↦ false) initial
    [.create 0 .read 3 0, .invoke 0 (some 22), .selectRead 3, .latch 0,
      .invoke 0 (some 22)]).get (by decide)

/-- The descriptor is read and written.  The source that reads has had its event and has been
removed. -/
def fallenState : Manager (Fin 2) :=
  (run (step plainHost) (Answered fun _ _ ↦ false) initial
    [.create 0 .write 3 0, .invoke 0 (some 22), .create 1 .read 3 0, .invoke 1 (some 22),
      .selectRead 3, .cancel 1, .invoke 1 (some 22)]).get (by decide)

end LibDispatch.Kevent
