import LibDispatch.Kevent.Frame
import LibDispatch.Kevent.Invariant
import LibDispatch.Kqueue.Model

/-!
# The masks in the event queue

A knote is created with the flags of the filter that its kevent has at that time.  When the
kevent gets other flags, the library registers it again with `EV_ADD` and `EV_ENABLE`, and
`kevent_copyin_one` takes that for a request to enable the knote.
-/

namespace LibDispatch.Kqueue

open Interleaving.Sequence (run runs_get)
open Kevent (Filter SourceType Host Dk Source Delivery Registry Changes EventQueue setKnote_self
  setKnote_of_ne)

variable {S : Type*} {fs : Filters (Dk S)} {st st' : State fs} {dk : Dk S} {answer : Answer}

/-- The filters whose sources have masks of their own. -/
def masked : Filter → Bool
  | .vnode | .proc => true
  | _ => false

theorem masked_iff {filter : Filter} : masked filter ↔ filter = .vnode ∨ filter = .proc := by
  cases filter <;> simp [masked]

/-- The flags that a registered kevent of such a filter has. -/
def plainFlags : Kevent.Flags := { evAdd := true, evEnable := true, evClear := true }

/-! ## What a change can touch -/

theorem keventCopyinOne_of_ne {U : Type*} {fs : Filters U} {knotes : Knotes U} {src : Kev U}
    {i : ℕ} {f : Filter} (h : (i, f) ≠ (src.ident, src.filter)) :
    (keventCopyinOne fs knotes src answer).1 i f = knotes i f := by
  unfold keventCopyinOne
  split
  · rfl
  · split
    · rfl
    · split
      · split
        · split
          · rfl
          · split <;> exact setKnote_of_ne h
        · rfl
      · split
        · exact setKnote_of_ne h
        · split
          · exact setKnote_of_ne h
          · split
            · exact setKnote_of_ne h
            · split
              · exact setKnote_of_ne h
              · rfl

theorem changes_frame {key : ℕ × Filter} {q q' : Queue fs} (h : Changes S key q q') :
    (∀ i f, (i, f) ≠ key → q'.knotes i f = q.knotes i f) ∧
      (q'.failed = false → q.failed = false) := by
  induction h with
  | refl => exact ⟨fun _ _ _ ↦ rfl, id⟩
  | tail _ hstep ih =>
      obtain ⟨c, answer, rfl, rfl⟩ := hstep
      simp only [eventQueue_kevent, Bool.or_eq_false_iff]
      exact ⟨fun i f hne ↦ (keventCopyinOne_of_ne hne).trans (ih.1 i f hne), fun hf ↦ ih.2 hf.1⟩

/-! ## What a change does to a knote with a mask -/

section CopyinOne

variable {U : Type*} {fs : Filters U} {knotes : Knotes U} {src : Kev U}

theorem keventCopyinOne_new (hadd : src.flags.evAdd) (hdisable : src.flags.evDisable = false)
    (hnone : knotes src.ident src.filter = none)
    (hok : (keventCopyinOne fs knotes src answer).2 = none) :
    filterLookup fs src.filter = none ∧
      ∃ kn, (keventCopyinOne fs knotes src answer).1 src.ident src.filter = some kn ∧
        kn.fflags = src.fflags := by
  unfold keventCopyinOne at hok ⊢
  split at hok
  · cases hok
  · rename_i hkind
    rw [if_neg hkind]
    cases hlookup : filterLookup fs src.filter with
    | some errno =>
        rw [hlookup] at hok
        cases hok
    | none =>
        simp only [hlookup, hnone, hadd, hdisable, if_true, Bool.false_eq_true, if_false] at hok ⊢
        refine ⟨trivial, ?_⟩
        cases hcreate : filterKnoteCreate fs src answer with
        | error errno =>
            rw [hcreate] at hok
            cases hok
        | ok kn =>
            refine ⟨kn, setKnote_self, ?_⟩
            unfold filterKnoteCreate at hcreate
            split at hcreate
            · split at hcreate
              · cases hcreate
                exact fs.knCreate_fflags _
              · cases hcreate
            · cases hcreate

theorem keventCopyinOne_delete (hkind : ¬ (src.flags.evDispatch ∧ src.flags.evOneshot))
    (hlookup : filterLookup fs src.filter = none) (hdelete : src.flags.evDelete)
    (hsome : knotes src.ident src.filter ≠ none) :
    (keventCopyinOne fs knotes src answer).1 src.ident src.filter = none := by
  obtain ⟨kn, hkn⟩ := Option.ne_none_iff_exists'.mp hsome
  unfold keventCopyinOne
  rw [if_neg hkind]
  simp only [hlookup, hkn, hdelete, if_true]
  exact setKnote_self

end CopyinOne

/-! ## The registry and the event queue -/

section Mirrors

variable {r r' : Registry S} {knotes knotes' : Knotes (Dk S)}

def Same (r r' : Registry S) (d : Dk S) : Prop :=
  r'.key d = r.key d ∧ (r'.dk d).fflags = (r.dk d).fflags

theorem Same.ident {d : Dk S} (h : Same r r' d) : (r'.dk d).ident = (r.dk d).ident :=
  congrArg Prod.fst h.1

theorem Same.filter {d : Dk S} (h : Same r r' d) : (r'.dk d).filter = (r.dk d).filter :=
  congrArg Prod.snd h.1

/-- The knotes are those of the kevents on the table, with their flags. -/
structure Mirrors (fs : Filters (Dk S)) (r : Registry S) (knotes : Knotes (Dk S)) : Prop where
  knote : ∀ d, r.Registered d → masked (r.dk d).filter →
    filterLookup fs (r.dk d).filter = none ∧
      ∃ kn, knotes (r.dk d).ident (r.dk d).filter = some kn ∧ kn.fflags = (r.dk d).fflags
  absent : ∀ i f, masked f → (∀ d, r.Registered d → r.key d ≠ (i, f)) → knotes i f = none

theorem Mirrors.knote_of_same (h : Mirrors fs r knotes) {d : Dk S} (hsame : Same r r' d)
    (hd : r.Registered d) (hmask : masked (r'.dk d).filter)
    (hknotes : knotes' (r.dk d).ident (r.dk d).filter = knotes (r.dk d).ident (r.dk d).filter) :
    filterLookup fs (r'.dk d).filter = none ∧
      ∃ kn, knotes' (r'.dk d).ident (r'.dk d).filter = some kn ∧ kn.fflags = (r'.dk d).fflags := by
  rw [hsame.filter] at hmask
  rw [hsame.ident, hsame.filter, hsame.2, hknotes]
  exact h.knote d hd hmask

theorem Mirrors.congr (h : Mirrors fs r knotes) (hreg : ∀ d, r'.Registered d ↔ r.Registered d)
    (hsame : ∀ d, r.Registered d → Same r r' d) : Mirrors fs r' knotes where
  knote d hd hmask := h.knote_of_same (hsame d ((hreg d).mp hd)) ((hreg d).mp hd) hmask rfl
  absent i f hf hne := h.absent i f hf fun d hd ↦ by
    rw [← (hsame d hd).1]
    exact hne d ((hreg d).mpr hd)

theorem Mirrors.insert (h : Mirrors fs r knotes) (hwf : r'.Wf) {dk : Dk S}
    (hreg : ∀ d, r'.Registered d ↔ r.Registered d ∨ d = dk) (hsame : ∀ d, Same r r' d)
    (hnew : ¬ r.Registered dk)
    (hknotes : ∀ i f, (i, f) ≠ r'.key dk → knotes' i f = knotes i f)
    (hknote : masked (r'.dk dk).filter → filterLookup fs (r'.dk dk).filter = none ∧
      ∃ kn, knotes' (r'.dk dk).ident (r'.dk dk).filter = some kn ∧ kn.fflags = (r'.dk dk).fflags) :
    Mirrors fs r' knotes' where
  knote d hd hmask := by
    rcases (hreg d).mp hd with hold | rfl
    · refine h.knote_of_same (hsame d) hold hmask (hknotes _ _ fun hkey ↦ ?_)
      have heq : d = dk := hwf.table.unique d dk hd ((hreg dk).mpr (.inr rfl))
        ((hsame d).1.trans hkey)
      exact hnew (heq ▸ hold)
    · exact hknote hmask
  absent i f hf hne := by
    rw [hknotes i f fun heq ↦ hne dk ((hreg dk).mpr (.inr rfl)) heq.symm]
    refine h.absent i f hf fun d hd ↦ ?_
    rw [← (hsame d).1]
    exact hne d ((hreg d).mpr (.inl hd))

theorem Mirrors.remove (h : Mirrors fs r knotes) (hwf : r.Wf) {dk : Dk S} (hdk : r.Registered dk)
    (hreg : ∀ d, r'.Registered d ↔ r.Registered d ∧ d ≠ dk) (hsame : ∀ d, Same r r' d)
    (hknotes : ∀ i f, (i, f) ≠ r.key dk → knotes' i f = knotes i f)
    (hknote : masked (r.dk dk).filter → knotes' (r.dk dk).ident (r.dk dk).filter = none) :
    Mirrors fs r' knotes' where
  knote d hd hmask := by
    obtain ⟨hold, hne⟩ := (hreg d).mp hd
    exact h.knote_of_same (hsame d) hold hmask
      (hknotes _ _ fun hkey ↦ hne (hwf.table.unique d dk hold hdk hkey))
  absent i f hf hne := by
    by_cases hkey : (i, f) = r.key dk
    · obtain ⟨rfl, rfl⟩ := Prod.ext_iff.mp hkey
      exact hknote hf
    · rw [hknotes i f hkey]
      refine h.absent i f hf fun d hd ↦ ?_
      rcases eq_or_ne d dk with rfl | hd'
      · exact fun heq ↦ hkey heq.symm
      · rw [← (hsame d).1]
        exact hne d ((hreg d).mpr ⟨hd, hd'⟩)

end Mirrors

variable [DecidableEq S]

theorem setFlags_self {x : Kevent.Flags} (h : st.flags dk = x) : st.setFlags dk x = st := by
  subst h
  simp only [Kevent.State.setFlags, Function.update_eq_self]

theorem updateKq_masked (hmask : masked (st.reg.dk dk).filter) :
    st.dispatchUpdateKq dk answer = st.changeKq dk answer := by
  unfold Kevent.State.dispatchUpdateKq
  rcases masked_iff.mp hmask with hf | hf <;> simp [hf]

theorem resume_masked (hmask : masked (st.reg.dk dk).filter) (hflags : st.flags dk = plainFlags) :
    st.dispatchKeventResume dk answer = st.changeKq dk answer := by
  have hresume : st.resumeKq dk answer = st.changeKq dk answer := by
    unfold Kevent.State.resumeKq
    simp only [updateKq_masked hmask, st.flags_changeKq, hflags]
    rfl
  unfold Kevent.State.dispatchKeventResume
  rcases masked_iff.mp hmask with hf | hf <;> simp only [hf, hflags] <;> exact hresume

theorem dispose_eq (hmask : masked (st.reg.dk dk).filter) (hflags : st.flags dk = plainFlags) :
    st.dispatchKeventDispose dk answer =
      { st.deleteKq dk answer with reg := (st.deleteKq dk answer).reg.remove dk } := by
  unfold Kevent.State.dispatchKeventDispose
  rcases masked_iff.mp hmask with hf | hf
  · simp only [hf]
  · simp only [hf, hflags]
    rfl

theorem registerNew_masked (ds : S) (hmask : masked (st.reg.dk dk).filter)
    (hflags : st.flags dk = plainFlags) :
    st.registerNew ds dk answer = (st.changeKq dk answer).setDel ds
      { (st.changeKq dk answer).del ds with dsIsArmed := true } := by
  have hset : st.setFlags dk { st.flags dk with evAdd := true } = st :=
    setFlags_self (by rw [hflags]; rfl)
  unfold Kevent.State.registerNew
  rw [hset, resume_masked hmask hflags]

theorem registerNew_knote (ds : S) (hmask : masked (st.reg.dk dk).filter)
    (hflags : st.flags dk = plainFlags)
    (hnone : st.kq.knotes.knotes (st.reg.dk dk).ident (st.reg.dk dk).filter = none)
    (hf : (st.registerNew ds dk answer).kq.knotes.failed = false) :
    filterLookup fs (st.reg.dk dk).filter = none ∧
      ∃ kn, (st.registerNew ds dk answer).kq.knotes.knotes (st.reg.dk dk).ident
        (st.reg.dk dk).filter = some kn ∧ kn.fflags = (st.reg.dk dk).fflags := by
  rw [registerNew_masked ds hmask hflags] at hf ⊢
  simp only [Kevent.State.setDel, st.knotes_changeKq, eventQueue_kevent] at hf ⊢
  have hplain : (st.change dk).flags = plainFlags := hflags
  have hok : (keventCopyinOne fs st.kq.knotes.knotes (Kev.ofChange (st.change dk)) answer).2 =
      none := by
    rw [hplain] at hf
    simpa [plainFlags] using (Bool.or_eq_false_iff.mp hf).2
  have hadd : (Kev.ofChange (st.change dk)).flags.evAdd := by
    simp only [Kev.ofChange, hplain]
    rfl
  exact keventCopyinOne_new hadd rfl hnone hok

theorem dispose_masked (hmask : masked (st.reg.dk dk).filter) (hflags : st.flags dk = plainFlags)
    (hlookup : filterLookup fs (st.reg.dk dk).filter = none)
    (hsome : st.kq.knotes.knotes (st.reg.dk dk).ident (st.reg.dk dk).filter ≠ none) :
    (st.dispatchKeventDispose dk answer).kq.knotes.knotes (st.reg.dk dk).ident
      (st.reg.dk dk).filter = none := by
  let st₁ : State fs := st.setFlags dk { st.flags dk with evDelete := true }
  have hnew : (st₁.change dk).flags = { plainFlags with evDelete := true } := by
    rw [← hflags]
    exact Function.update_self _ _ _
  have hdelete : st.deleteKq dk answer = st₁.changeKq dk answer := by
    unfold Kevent.State.deleteKq
    rw [if_neg (by rw [hflags]; exact Bool.false_ne_true)]
    exact updateKq_masked hmask
  rw [dispose_eq hmask hflags, hdelete]
  change (st₁.changeKq dk answer).kq.knotes.knotes _ _ = _
  rw [st₁.knotes_changeKq, eventQueue_kevent]
  refine keventCopyinOne_delete ?_ hlookup ?_ hsome
  · simp only [Kev.ofChange, hnew]
    decide
  · simp only [Kev.ofChange, hnew]

/-! ## Runs without changes of a mask -/

/-- The step changes the flags of a kevent that stays on the table, so that it is registered
again. -/
def reregisters (st : State fs) : Act S → Bool
  | .create _ _ _ _ => false
  | .install ds _ => (st.reg.ds ds).any fun x ↦ x.dsDkev.any fun own ↦
      (st.reg.dispatchKeventFind (st.reg.dk own).ident (st.reg.dk own).filter).any fun dk ↦
        ~~~(st.reg.dk dk).fflags &&& (st.reg.dk own).fflags ≠ 0
  | .remove ds _ => (st.reg.ds ds).any fun x ↦ x.dsDkev.any fun dk ↦
      let l := (st.reg.dk dk).dkSources.erase ds
      l ≠ [] && x.dsPendingDataMask &&& ~~~st.reg.fflagsOf l ≠ 0

def Fresh (r : Registry S) (ds : S) : Prop := ∃ x, r.ds ds = some x ∧ x.dsIsInstalled = false

structure Inv (st : State fs) : Prop where
  wf : st.reg.Wf
  flags : ∀ ds, st.reg.Registered (.own ds) ∨ Fresh st.reg ds →
    masked (st.reg.dk (.own ds)).filter → st.flags (.own ds) = plainFlags
  mirrors : st.kq.knotes.failed = false → Mirrors fs st.reg st.kq.knotes.knotes

omit [DecidableEq S] in
theorem Inv.plain (h : Inv st) (hdk : st.reg.Registered dk) (hmask : masked (st.reg.dk dk).filter) :
    st.flags dk = plainFlags := by
  have hstatic := h.wf.isStatic_filter hdk
  cases dk with
  | own ds => exact h.flags ds (.inl hdk) hmask
  | _ => rcases masked_iff.mp hmask with hf | hf <;> rw [hf] at hstatic <;> cases hstatic

variable {host : Host} {ds : S} {x : Source S}

theorem Inv.create (h : Inv st) {ty : SourceType} {handle : ℕ} {mask : BitVec 64}
    (hs : st.dispatchSourceCreate host ds ty handle mask = some st') : Inv st' := by
  unfold Kevent.State.dispatchSourceCreate at hs
  split at hs
  · rename_i hok
    obtain ⟨-, hhandle, hnone⟩ := hok
    cases hs
    have hnew : ¬ st.reg.Registered (.own ds) := fun hreg ↦ by
      obtain ⟨y, hy, -⟩ := h.wf.born ds hreg
      rw [hnone] at hy
      cases hy
    refine ⟨h.wf.create hnone rfl rfl rfl ⟨rfl, fun _ ↦ rfl⟩ rfl
      (Kevent.handle_of_handleOk hhandle), ?_, fun hf ↦ (h.mirrors hf).congr (fun d ↦ .rfl) ?_⟩
    · intro ds' hor hmask
      rcases eq_or_ne ds' ds with rfl | hne
      · simp only [Function.update_self]
        replace hmask : masked ty.filter := by simpa using hmask
        cases ty <;> first | rfl | cases hmask
      · have hdk : Dk.own ds' ≠ Dk.own ds := fun heq ↦ hne (Dk.own.inj heq)
        simp only [Function.update_of_ne hdk]
        refine h.flags ds' (hor.imp_right ?_) ?_
        · rintro ⟨y, hy, hinst⟩
          exact ⟨y, by simpa [hne] using hy, hinst⟩
        · simpa [hdk] using hmask
    · intro d hd
      have hdk : d ≠ .own ds := by
        rintro rfl
        exact hnew hd
      simp [Same, Registry.key, hdk]
  · cases hs

theorem Inv.join (h : Inv st) (hx : st.reg.ds ds = some x) (hinst : x.dsIsInstalled = false)
    (hfind : st.reg.dispatchKeventFind (st.reg.dk (.own ds)).ident (st.reg.dk (.own ds)).filter =
      some dk)
    (hkeep : ~~~(st.reg.dk dk).fflags &&& (st.reg.dk (.own ds)).fflags = 0) :
    Inv (st.dispatchKeventMerge ds x answer) := by
  have heq : (st.reg.merge ds x (.own ds)).1 =
      (st.reg.setDk dk { st.reg.dk dk with
        fflags := (st.reg.dk dk).fflags ||| (st.reg.dk (.own ds)).fflags }).attach ds x dk := by
    simp only [Registry.merge, hfind]
  have hor : (st.reg.dk dk).fflags ||| (st.reg.dk (.own ds)).fflags = (st.reg.dk dk).fflags :=
    Registry.or_eq_of_and_not (by rw [BitVec.and_comm]; exact hkeep)
  have hmerge : st.dispatchKeventMerge ds x answer =
      { st with reg := (st.reg.merge ds x (.own ds)).1 } := by
    simp only [Kevent.State.dispatchKeventMerge, hinst, (h.wf.fresh ds x hx hinst).1,
      Registry.merge,
      hfind, hkeep, ne_eq, not_true_eq_false, decide_false, Bool.false_eq_true, if_false]
  have hsame : ∀ d, Same st.reg (st.reg.merge ds x (.own ds)).1 d := by
    intro d
    rw [heq]
    rcases eq_or_ne d dk with rfl | hne
    · simp [Same, Registry.key, Registry.attach, hor]
    · simp [Same, Registry.key, Registry.attach, hne]
  rw [hmerge]
  refine ⟨h.wf.merge hx hinst, ?_,
    fun hf ↦ (h.mirrors hf).congr (fun d ↦ by rw [heq]; exact .rfl) fun d _ ↦ hsame d⟩
  intro ds' hor' hmask
  refine h.flags ds' (hor'.imp (fun hreg ↦ by rw [heq] at hreg; exact hreg) ?_)
    ((hsame _).filter ▸ hmask)
  rintro ⟨y, hy, hinst'⟩
  rw [Registry.merge_ds] at hy
  rcases eq_or_ne ds' ds with rfl | hne
  · exact ⟨x, hx, hinst⟩
  · exact ⟨y, by simpa [hne] using hy, hinst'⟩

theorem Inv.register (h : Inv st) (hx : st.reg.ds ds = some x) (hinst : x.dsIsInstalled = false)
    (hfind : st.reg.dispatchKeventFind (st.reg.dk (.own ds)).ident (st.reg.dk (.own ds)).filter =
      none) :
    Inv (st.dispatchKeventMerge ds x answer) := by
  have hwf := h.wf.merge hx hinst
  have heq : (st.reg.merge ds x (.own ds)).1 =
      (st.reg.dispatchKeventInsert (.own ds)).attach ds x (.own ds) := by
    simp only [Registry.merge, hfind]
  let st₁ : State fs := { st with reg := (st.reg.merge ds x (.own ds)).1 }
  have hmerge : st.dispatchKeventMerge ds x answer = st₁.registerNew ds (.own ds) answer := by
    simp only [st₁, Kevent.State.dispatchKeventMerge, hinst, (h.wf.fresh ds x hx hinst).1,
      Registry.merge, hfind, if_true]
  have hsame : ∀ d, Same st.reg (st.reg.merge ds x (.own ds)).1 d := by
    intro d
    rw [heq]
    rcases eq_or_ne d (.own ds) with rfl | hne
    · simp [Same, Registry.key, Registry.attach, Registry.dispatchKeventInsert]
    · simp [Same, Registry.key, Registry.attach, Registry.dispatchKeventInsert, hne]
  have hreg : ∀ d, (st.reg.merge ds x (.own ds)).1.Registered d ↔
      st.reg.Registered d ∨ d = .own ds := by
    intro d
    rw [heq]
    exact Buckets.mem_insert
  have hplain : masked (st₁.reg.dk (.own ds)).filter → st₁.flags (.own ds) = plainFlags :=
    fun hmask ↦ h.flags ds (.inr ⟨x, hx, hinst⟩) ((hsame _).filter ▸ hmask)
  have hlocal := st₁.local_registerNew (.own ds) ds answer fun _ ↦ st₁.spares_key (.own ds)
  have hreg₁ : (st₁.registerNew ds (.own ds) answer).reg = st₁.reg :=
    Kevent.State.quiet_registerNew.1
  obtain ⟨hknotes, hfailed⟩ := changes_frame hlocal.changes
  rw [hmerge]
  refine ⟨by rw [hreg₁]; exact hwf, ?_, ?_⟩
  · intro ds' hor hmask
    rw [hreg₁] at hor hmask
    rcases eq_or_ne ds' ds with rfl | hne
    · rw [registerNew_masked ds' hmask (hplain hmask)]
      change (st₁.changeKq _ answer).flags _ = _
      rw [st₁.flags_changeKq]
      exact hplain hmask
    · have hdk : Dk.own ds' ≠ Dk.own ds := fun heq ↦ hne (Dk.own.inj heq)
      rw [hlocal.flags_eq _ hdk]
      refine h.flags ds' (hor.imp (fun hd ↦ ((hreg _).mp hd).resolve_right hdk) ?_)
        ((hsame _).filter ▸ hmask)
      rintro ⟨y, hy, hinst'⟩
      change (st.reg.merge ds x (.own ds)).1.ds ds' = some y at hy
      rw [Registry.merge_ds] at hy
      exact ⟨y, by simpa [hne] using hy, hinst'⟩
  · intro hf
    have hmirrors := h.mirrors (hfailed hf)
    rw [hreg₁]
    refine hmirrors.insert hwf hreg hsame (h.wf.own_of_fresh hx hinst).1 hknotes fun hmask ↦ ?_
    refine registerNew_knote ds hmask (hplain hmask) ?_ hf
    refine hmirrors.absent _ _ hmask fun d hd hkey ↦ ?_
    have hfind' := Registry.find_eq st.reg (st.reg.key (.own ds))
    rw [Registry.key, hfind] at hfind'
    exact h.wf.table.find_eq_none.mp hfind'.symm d hd (hkey.trans (hsame (.own ds)).1)

theorem Fresh.of_detach {r : Registry S} (hinst : x.dsIsInstalled) {ds' : S}
    (h : Fresh (r.detach ds x dk) ds') : Fresh r ds' := by
  obtain ⟨y, hy, hyi⟩ := h
  rcases eq_or_ne ds' ds with rfl | hne
  · rw [Registry.detach, Registry.setDs_ds_self, Option.some_inj] at hy
    rw [← hy] at hyi
    rw [hinst] at hyi
    cases hyi
  · exact ⟨y, by simpa [Registry.detach, hne] using hy, hyi⟩

theorem same_detach (r : Registry S) (d : Dk S) : Same r (r.detach ds x dk) d := by
  rcases eq_or_ne d dk with rfl | hne
  · simp [Same, Registry.key, Registry.detach]
  · simp [Same, Registry.key, Registry.detach, hne]

theorem dkSources_detach (r : Registry S) :
    ((r.detach ds x dk).dk dk).dkSources = (r.dk dk).dkSources.erase ds := by
  simp [Registry.detach]

theorem fflagsOf_detach {r : Registry S} (hx : r.ds ds = some x) (l : List S) :
    (r.detach ds x dk).fflagsOf l = r.fflagsOf l :=
  Registry.fflagsOf_congr fun ds' _ ↦ Registry.pendingDataMask_detach hx ds'

theorem Inv.setDel (h : Inv st) (y : Delivery) : Inv (st.setDel ds y) :=
  ⟨h.wf, h.flags, h.mirrors⟩

theorem Inv.detach (h : Inv st) (hinst : x.dsIsInstalled) (hwf : (st.reg.detach ds x dk).Wf) :
    Inv { st with reg := st.reg.detach ds x dk } := by
  refine ⟨hwf, fun ds' hor hmask ↦ ?_, fun hf ↦
    (h.mirrors hf).congr (fun d ↦ .rfl) fun d _ ↦ same_detach st.reg d⟩
  exact h.flags ds' (hor.imp_right (Fresh.of_detach hinst)) ((same_detach st.reg _).filter ▸ hmask)

theorem Inv.leave (h : Inv st) (hx : st.reg.ds ds = some x) (hinst : x.dsIsInstalled)
    (hdk : x.dsDkev = some dk) (hrest : (st.reg.dk dk).dkSources.erase ds ≠ [])
    (hkeep : x.dsPendingDataMask &&& ~~~st.reg.fflagsOf ((st.reg.dk dk).dkSources.erase ds) = 0) :
    Inv (st.dispatchKeventRelease ds x dk answer) := by
  have hwf := h.wf.release hx hinst hdk
  have hrelease : st.reg.release ds x dk = st.reg.detach ds x dk := by
    simp [Registry.release, dkSources_detach, fflagsOf_detach hx, hrest, hkeep]
  have heq : st.dispatchKeventRelease ds x dk answer =
      Kevent.State.setDel { st with reg := st.reg.detach ds x dk } ds
        { st.del ds with dsIsArmed := false, dsNeedsRearm := false } := by
    simp [Kevent.State.dispatchKeventRelease, Kevent.State.releaseKevent, dkSources_detach,
      fflagsOf_detach hx, hrest, hkeep]
  rw [heq]
  exact (h.detach hinst (hrelease ▸ hwf)).setDel _

theorem Inv.remove (h : Inv st) (hinst : x.dsIsInstalled) (hregd : st.reg.Registered dk)
    (hstatic : (st.reg.dk dk).filter.isStatic = false)
    (hwf : ((st.reg.detach ds x dk).remove dk).Wf) :
    Inv (Kevent.State.dispatchKeventDispose { st with reg := st.reg.detach ds x dk } dk
      answer) := by
  have hsame : ∀ d, Same st.reg (st.reg.detach ds x dk) d := same_detach st.reg
  let st₁ : State fs := { st with reg := st.reg.detach ds x dk }
  have hlocal := st₁.local_dispose dk ds answer (st₁.spares_key dk)
  obtain ⟨hknotes, hfailed⟩ := changes_frame hlocal.changes
  have hquiet : (st₁.dispatchKeventDispose dk answer).reg = st₁.reg.remove dk := by
    rw [← (hsame dk).filter] at hstatic
    exact Kevent.State.quiet_dispose.1.trans (if_neg (by rw [hstatic]; exact Bool.false_ne_true))
  have hreg : ∀ d, ((st.reg.detach ds x dk).remove dk).Registered d ↔
      st.reg.Registered d ∧ d ≠ dk := by
    intro d
    refine Iff.trans ?_ (h.wf.table.mem_erase (a := dk))
    rw [← (hsame dk).1]
    exact .rfl
  refine ⟨by rw [hquiet]; exact hwf, fun ds' hor hmask ↦ ?_, fun hf ↦ ?_⟩
  · rw [hquiet] at hor hmask
    have hold := hor.imp (hreg _).mp (Fresh.of_detach hinst)
    have hne : Dk.own ds' ≠ dk := by
      rintro rfl
      rcases hold with hold | ⟨y, hy, hyi⟩
      · exact hold.2 rfl
      · exact (h.wf.own_of_fresh hy hyi).1 hregd
    rw [hlocal.flags_eq _ hne]
    exact h.flags ds' (hold.imp_left And.left) ((hsame _).filter ▸ hmask)
  · have hmirrors := h.mirrors (hfailed hf)
    rw [hquiet]
    refine hmirrors.remove h.wf hregd hreg hsame (fun i f hne ↦ ?_) fun hmask ↦ ?_
    · exact hknotes i f ((hsame dk).1 ▸ hne)
    · obtain ⟨hlookup, kn, hkn, -⟩ := hmirrors.knote dk hregd hmask
      rw [← (hsame dk).ident, ← (hsame dk).filter] at hkn ⊢
      rw [← (hsame dk).filter] at hmask hlookup
      exact dispose_masked hmask (h.plain hregd ((hsame dk).filter ▸ hmask)) hlookup
        (by rw [hkn]; exact Option.some_ne_none kn)

theorem Inv.dispose (h : Inv st) (hx : st.reg.ds ds = some x) (hinst : x.dsIsInstalled)
    (hdk : x.dsDkev = some dk) (hrest : (st.reg.dk dk).dkSources.erase ds = []) :
    Inv (st.dispatchKeventRelease ds x dk answer) := by
  have hwf := h.wf.release hx hinst hdk
  obtain ⟨hregd, -⟩ := h.wf.installed ds x dk hx hinst hdk
  have hfilter : ((st.reg.detach ds x dk).dk dk).filter = (st.reg.dk dk).filter :=
    (same_detach st.reg dk).filter
  let st₁ : State fs := { st with reg := st.reg.detach ds x dk }
  have heq : st.dispatchKeventRelease ds x dk answer =
      (st₁.dispatchKeventDispose dk answer).setDel ds
        { (st₁.dispatchKeventDispose dk answer).del ds with
          dsIsArmed := false, dsNeedsRearm := false } := by
    simp [st₁, Kevent.State.dispatchKeventRelease, Kevent.State.releaseKevent, dkSources_detach,
      hrest]
  rw [heq]
  refine Inv.setDel ?_ _
  cases hstatic : (st.reg.dk dk).filter.isStatic with
  | true =>
      have hrelease : st.reg.release ds x dk = st.reg.detach ds x dk := by
        simp [Registry.release, dkSources_detach, hrest, hfilter, hstatic]
      have hdispose : st₁.dispatchKeventDispose dk answer = st₁ := by
        unfold Kevent.State.dispatchKeventDispose
        simp only [st₁, hfilter]
        cases hf : (st.reg.dk dk).filter <;> rw [hf] at hstatic <;> cases hstatic
      rw [hdispose]
      exact h.detach hinst (hrelease ▸ hwf)
  | false =>
      have hrelease : st.reg.release ds x dk = (st.reg.detach ds x dk).remove dk := by
        simp [Registry.release, dkSources_detach, hrest, hfilter, hstatic]
      exact h.remove hinst hregd hstatic (hrelease ▸ hwf)

theorem Inv.step (h : Inv st) {a : Act S} (hc : reregisters st a = false)
    (hs : step host fs a st = some st') : Inv st' := by
  cases a with
  | create ds ty handle mask => exact h.create hs
  | install ds answer =>
      obtain ⟨x, hx, hs⟩ := Option.bind_eq_some_iff.mp hs
      split at hs
      · rename_i own hinst hown
        cases hs
        obtain ⟨hown', -⟩ := h.wf.fresh ds x hx hinst
        rw [hown, Option.some_inj] at hown'
        subst hown'
        cases hfind : st.reg.dispatchKeventFind (st.reg.dk (.own ds)).ident
            (st.reg.dk (.own ds)).filter with
        | none => exact h.register hx hinst hfind
        | some dk =>
            refine h.join hx hinst hfind ?_
            simpa [reregisters, hx, hown, hfind] using hc
      · cases hs
  | remove ds answer =>
      obtain ⟨x, hx, hs⟩ := Option.bind_eq_some_iff.mp hs
      split at hs
      · rename_i dk hinst hdk
        cases hs
        by_cases hrest : (st.reg.dk dk).dkSources.erase ds = []
        · exact h.dispose hx hinst hdk hrest
        · refine h.leave hx hinst hdk hrest ?_
          simpa only [reregisters, hx, hdk, Option.any_some, ne_eq, hrest, not_false_eq_true,
            decide_true, Bool.true_and, decide_eq_false_iff_not, not_not] using hc
      · cases hs

theorem inv_of_run (h : Runs host fs (fun st a ↦ reregisters st a = false) st) : Inv st := by
  refine h.invariant ⟨Kevent.wf_initial, fun ds hor hmask ↦ ?_, fun _ ↦
    ⟨fun d _ hmask ↦ ?_, fun _ _ _ _ ↦ rfl⟩⟩ fun st st' a hinv hc hs ↦ hinv.step hc hs
  · cases hmask
  · cases d <;> cases hmask

/-- As long as every registration succeeds and no kevent on the table gets other flags, the
knote of an identifier and a filter has the flags of the kevent, which are those that its
sources ask for. -/
theorem knote_mask_of_steady (h : Runs host fs (fun st a ↦ reregisters st a = false) st)
    (hok : st.kq.knotes.failed = false) (hdk : st.reg.Registered dk)
    (hfilter : (st.reg.dk dk).filter = .vnode ∨ (st.reg.dk dk).filter = .proc) :
    ∃ kn, st.kq.knotes.knotes (st.reg.dk dk).ident (st.reg.dk dk).filter = some kn ∧
      kn.fflags = (st.reg.dk dk).fflags ∧
      (st.reg.dk dk).fflags = st.reg.fflagsOf (st.reg.dk dk).dkSources := by
  have hinv := inv_of_run h
  obtain ⟨-, kn, hkn, hfflags⟩ := (hinv.mirrors hok).knote dk hdk (masked_iff.mpr hfilter)
  refine ⟨kn, hkn, hfflags, ?_⟩
  have hstatic := hinv.wf.isStatic_filter hdk
  cases dk with
  | own ds => exact (hinv.wf.used ds hdk).2.2
  | _ => rcases hfilter with hf | hf <;> rw [hf] at hstatic <;> cases hstatic

/-- Filters that do nothing else to a knote than what the masks depend on. -/
def plainFilters {U : Type*} : Filters U where
  implemented _ := true
  knCreate kn := kn
  knModify kn src := { kn with fflags := src.fflags }
  knEnable kn := kn
  knDisable kn := kn
  knCreate_fflags _ := rfl
  knModify_fflags _ _ := rfl
  knEnable_fflags _ := rfl

/-- Two sources on one descriptor, of which the second one asks for less and is removed
again. -/
def steadyState : State (plainFilters (U := Dk (Fin 2))) :=
  (run (step Kevent.plainHost plainFilters) (fun st a ↦ reregisters st a = false) (initial _)
    [.create 0 .vnode 5 3, .create 1 .vnode 5 2, .install 0 {}, .install 1 {}, .remove 1 {}]).get
      (by decide)

theorem knote_mask_of_steady_removed :
    steadyState.kq.knotes.failed = false ∧ (steadyState.reg.dk (.own 0)).fflags = 3 ∧
      ∃ kn, steadyState.kq.knotes.knotes 5 .vnode = some kn ∧
        kn.fflags = (steadyState.reg.dk (.own 0)).fflags ∧
        (steadyState.reg.dk (.own 0)).fflags =
          steadyState.reg.fflagsOf (steadyState.reg.dk (.own 0)).dkSources :=
  ⟨by decide, by decide,
    knote_mask_of_steady (runs_get _) (by decide)
      (⟨5, by decide⟩ : steadyState.reg.Registered (.own 0)) (by decide)⟩

/-- Two sources on one descriptor that ask for different events. -/
def widenedState : State (plainFilters (U := Dk (Fin 2))) :=
  (run (step Kevent.plainHost plainFilters) (fun _ _ ↦ True) (initial _)
    [.create 0 .vnode 5 1, .create 1 .vnode 5 2, .install 0 {}, .install 1 {}]).get (by decide)

/-- The second source's events are not asked for: the registration with the new flags enables
the knote and keeps its flags. -/
theorem knote_keeps_old_mask :
    Runs Kevent.plainHost plainFilters (fun _ _ ↦ True) widenedState ∧
      widenedState.kq.knotes.failed = false ∧ widenedState.reg.Registered (.own 0) ∧
      (widenedState.reg.dk (.own 0)).filter = .vnode ∧
      (widenedState.reg.dk (.own 0)).fflags = 3 ∧
      widenedState.reg.fflagsOf (widenedState.reg.dk (.own 0)).dkSources = 3 ∧
      (widenedState.kq.knotes.knotes 5 .vnode).map Kev.fflags = some 1 :=
  ⟨runs_get _, by decide, ⟨5, by decide⟩, by decide, by decide, by decide, by decide⟩

end LibDispatch.Kqueue
