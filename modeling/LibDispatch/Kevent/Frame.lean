import LibDispatch.Kevent.Steps
import Mathlib.Logic.Relation

/-!
# What a change for one kevent leaves alone

The functions that register a kevent, arm it or delete it make changes of its own knote, and
look at its own bit for `select()`.  A deletion for reading may also clear the bit for writing.
-/

namespace LibDispatch.Kevent

variable {S K A : Type*} [DecidableEq S]

section SetKnote

variable {N : Type*} {knotes : ℕ → Filter → Option N} {ident i : ℕ} {filter f : Filter}
  {x : Option N}

@[simp] theorem setKnote_self : setKnote knotes ident filter x ident filter = x := by
  simp [setKnote]

theorem setKnote_of_ne (h : (i, f) ≠ (ident, filter)) :
    setKnote knotes ident filter x i f = knotes i f := by
  unfold setKnote
  rcases eq_or_ne i ident with rfl | hi
  · have hf : f ≠ filter := fun hf ↦ h (by rw [hf])
    simp [hf]
  · simp [hi]

end SetKnote

namespace Delivery

/-- The source is armed, and takes the events of its kevent. -/
def Live (y : Delivery) : Prop := y.dsIsArmed ∧ y.dsfCanceled = false ∧ y.unreferenced = false

/-- The source may have been disarmed, cancelled or given up. -/
structure Settles (y y' : Delivery) : Prop where
  rearm_eq : y'.dsNeedsRearm = y.dsNeedsRearm
  armed : y'.dsIsArmed → y.dsIsArmed
  canceled : y.dsfCanceled → y'.dsfCanceled
  unreferenced : y.unreferenced → y'.unreferenced

variable {y y' y'' : Delivery}

theorem Settles.refl (y : Delivery) : y.Settles y := ⟨rfl, id, id, id⟩

theorem Settles.trans (h : y.Settles y') (h' : y'.Settles y'') : y.Settles y'' :=
  ⟨h'.rearm_eq.trans h.rearm_eq, h.armed ∘ h'.armed, h'.canceled ∘ h.canceled,
    h'.unreferenced ∘ h.unreferenced⟩

theorem Settles.live (h : y.Settles y') (hlive : y'.Live) : y.Live := by
  obtain ⟨harmed, hcan, href⟩ := hlive
  exact ⟨h.armed harmed, by simpa [hcan] using h.canceled, by simpa [href] using h.unreferenced⟩

theorem settles_merge (y : Delivery) (mask : BitVec 32) (ke : Event) :
    y.Settles (dispatchSourceMergeKevent y mask ke) := by
  unfold dispatchSourceMergeKevent
  split
  · exact .refl y
  · split
    · exact ⟨rfl, fun harmed ↦ (Bool.and_eq_true_iff.mp harmed).1, id, id⟩
    · exact .refl y

theorem not_live_merge (hrearm : y.dsNeedsRearm) (mask : BitVec 32) {ke : Event}
    (herror : ke.evError = false) : ¬ (dispatchSourceMergeKevent y mask ke).Live := by
  intro hlive
  obtain ⟨-, hcan, href⟩ := (settles_merge y mask ke).live hlive
  have harmed := hlive.1
  simp [dispatchSourceMergeKevent, hcan, href, Event.seen, herror, hrearm] at harmed

end Delivery

/-! ## What `select()` watches -/

namespace Kq

variable {S K : Type*} (kq : Kq S K)

/-- The registration is one that `select()` stands in for. -/
def watches (fd : ℕ) : Filter → Bool
  | .read => kq.dispatchRfds fd
  | .write => kq.dispatchWfds fd
  | _ => false

/-- The kevent that an event from `select()` is for. -/
def pointer (fd : ℕ) : Filter → Option (Dk S)
  | .read => kq.dispatchRfdPtrs fd
  | .write => kq.dispatchWfdPtrs fd
  | _ => none

def select (k : ℕ × Filter) : Bool × Option (Dk S) := (kq.watches k.1 k.2, kq.pointer k.1 k.2)

variable {fd : ℕ} {k : ℕ × Filter} (workaround bit : Bool) (dk : Option (Dk S))

theorem select_setRead (hne : (fd, .read) ≠ k) :
    Kq.select
      { kq with
        dispatchSelectWorkaround := workaround
        dispatchRfds := Function.update kq.dispatchRfds fd bit
        dispatchRfdPtrs := Function.update kq.dispatchRfdPtrs fd dk } k = kq.select k := by
  obtain ⟨i, f⟩ := k
  cases f with
  | read =>
      have hi : i ≠ fd := fun hi ↦ hne (by rw [hi])
      simp [select, watches, pointer, hi]
  | _ => rfl

theorem select_setWrite (hne : (fd, .write) ≠ k) :
    Kq.select
      { kq with
        dispatchSelectWorkaround := workaround
        dispatchWfds := Function.update kq.dispatchWfds fd bit
        dispatchWfdPtrs := Function.update kq.dispatchWfdPtrs fd dk } k = kq.select k := by
  obtain ⟨i, f⟩ := k
  cases f with
  | write =>
      have hi : i ≠ fd := fun hi ↦ hne (by rw [hi])
      simp [select, watches, pointer, hi]
  | _ => rfl

end Kq

/-- A deletion of the kevent does not fall through to what `select()` watches under `k`. -/
def State.Spares {S K : Type*} (st : State S K) (dk : Dk S) (k : ℕ × Filter) : Prop :=
  (st.reg.dk dk).filter = .read → k = ((st.reg.dk dk).ident, .write) →
    st.kq.dispatchRfds (st.reg.dk dk).ident ∨ st.kq.dispatchWfds (st.reg.dk dk).ident = false

theorem State.spares_key {S K : Type*} (st : State S K) (dk : Dk S) :
    st.Spares dk (st.reg.key dk) := by
  intro hread hkey
  rw [Registry.key, hread] at hkey
  cases hkey

theorem State.Spares.of_eq {S K : Type*} {st st' : State S K} {dk : Dk S} {k : ℕ × Filter}
    (h : st.Spares dk k) (hkey : st'.reg.key dk = st.reg.key dk) (hkq : st'.kq = st.kq) :
    st'.Spares dk k := by
  obtain ⟨hident, hfilter⟩ := Prod.ext_iff.mp hkey
  simp only [Registry.key] at hident hfilter
  rwa [State.Spares, hident, hfilter, hkq]

/-- The knotes differ by changes under the given identifier and filter. -/
def Changes (S : Type*) {K A : Type*} [EventQueue S K A] (key : ℕ × Filter) : K → K → Prop :=
  Relation.ReflTransGen fun knotes knotes' ↦ ∃ (c : Change S) (answer : A),
    (c.ident, c.filter) = key ∧ knotes' = (EventQueue.kevent knotes c answer).1

variable [EventQueue S K A]

/-- What is done for the source `ds₀` and its kevent `d₀` concerns no other source that is not
on a static list, no other kevent, and the descriptor `k` only if it is that of `d₀`. -/
structure Local (k : ℕ × Filter) (st st' : State S K) (d₀ : Dk S) (ds₀ : S) : Prop where
  registered : ∀ d, d ≠ d₀ → st'.reg.Registered d → st.reg.Registered d
  dk_eq : ∀ d, d ≠ d₀ → d.isStatic = false → st'.reg.dk d = st.reg.dk d
  key_eq : st'.reg.key d₀ = st.reg.key d₀
  ds_eq : ∀ ds, ds ≠ ds₀ → st'.reg.ds ds = st.reg.ds ds
  flags_eq : ∀ d, d ≠ d₀ → st'.flags d = st.flags d
  changes : Changes S (st.reg.key d₀) st.kq.knotes st'.kq.knotes
  select_eq : st.reg.key d₀ ≠ k → st'.kq.select k = st.kq.select k
  del : ∀ ds, ds ≠ ds₀ → (st.del ds).Settles (st'.del ds)

namespace Local

variable {k : ℕ × Filter} {st st' st'' : State S K} {d₀ : Dk S} {ds₀ : S}

omit [DecidableEq S] in
theorem trans (h : Local k st st' d₀ ds₀) (h' : Local k st' st'' d₀ ds₀) :
    Local k st st'' d₀ ds₀ where
  registered d hd hreg := h.registered d hd (h'.registered d hd hreg)
  dk_eq d hd hs := (h'.dk_eq d hd hs).trans (h.dk_eq d hd hs)
  key_eq := h'.key_eq.trans h.key_eq
  ds_eq ds hds := (h'.ds_eq ds hds).trans (h.ds_eq ds hds)
  flags_eq d hd := (h'.flags_eq d hd).trans (h.flags_eq d hd)
  changes := h.changes.trans (h.key_eq ▸ h'.changes)
  select_eq hne := (h'.select_eq (h.key_eq ▸ hne)).trans (h.select_eq hne)
  del ds hds := (h.del ds hds).trans (h'.del ds hds)

omit [DecidableEq S] in
theorem of_reg_eq (hreg : st'.reg = st.reg) (hflags : ∀ d, d ≠ d₀ → st'.flags d = st.flags d)
    (hchanges : Changes S (st.reg.key d₀) st.kq.knotes st'.kq.knotes)
    (hselect : st.reg.key d₀ ≠ k → st'.kq.select k = st.kq.select k)
    (hdel : ∀ ds, ds ≠ ds₀ → (st.del ds).Settles (st'.del ds)) : Local k st st' d₀ ds₀ where
  registered d _ h := hreg ▸ h
  dk_eq d _ _ := by rw [hreg]
  key_eq := by rw [hreg]
  ds_eq ds _ := by rw [hreg]
  flags_eq := hflags
  changes := hchanges
  select_eq := hselect
  del := hdel

omit [DecidableEq S] in
theorem refl (k : ℕ × Filter) (st : State S K) (d₀ : Dk S) (ds₀ : S) : Local k st st d₀ ds₀ :=
  .of_reg_eq rfl (fun _ _ ↦ rfl) .refl (fun _ ↦ rfl) (fun _ _ ↦ .refl _)

theorem setFlags (k : ℕ × Filter) (st : State S K) (d₀ : Dk S) (ds₀ : S) (x : Flags) :
    Local k st (st.setFlags d₀ x) d₀ ds₀ :=
  .of_reg_eq rfl (fun _ hd ↦ Function.update_of_ne hd _ _) .refl (fun _ ↦ rfl)
    (fun _ _ ↦ .refl _)

theorem setDel (k : ℕ × Filter) (st : State S K) (d₀ : Dk S) (ds₀ : S) (x : Delivery) :
    Local k st (st.setDel ds₀ x) d₀ ds₀ :=
  .of_reg_eq rfl (fun _ _ ↦ rfl) .refl (fun _ ↦ rfl)
    fun ds hds ↦ by simpa [State.setDel, hds] using .refl (st.del ds)

end Local

namespace Registry

variable {r : Registry S} {dk : Dk S}

theorem registered_remove {d : Dk S} (hreg : (r.remove dk).Registered d) : r.Registered d := by
  obtain ⟨i, hi⟩ := hreg
  simp only [remove] at hi
  rcases eq_or_ne i (dispatchKeventHash (r.dk dk).ident (r.dk dk).filter) with rfl | hne
  · rw [Function.update_self] at hi
    exact ⟨_, List.mem_of_mem_erase hi⟩
  · rw [Function.update_of_ne hne] at hi
    exact ⟨i, hi⟩

end Registry

namespace State

variable (st : State S K) (dk : Dk S) (ds : S) (answer : A) {k : ℕ × Filter}

theorem settles_drain (ke : Event) :
    (st.del ds).Settles ((st.dispatchSourceDrainKevent dk ke).del ds) := by
  simp only [dispatchSourceDrainKevent]
  split
  · exact Delivery.settles_merge _ _ _
  · exact .refl _

theorem local_registrationFailed (receipt : Receipt) :
    Local k st (st.registrationFailed dk receipt) dk ds := by
  have hdrain : ∀ ke, Local k st (st.dispatchSourceDrainKevent dk ke) dk ds := fun ke ↦
    .of_reg_eq rfl (fun d hd ↦ Function.update_of_ne hd _ _) .refl (fun _ ↦ rfl)
      fun ds' _ ↦ st.settles_drain dk ds' ke
  unfold registrationFailed
  split
  case h_1 hread =>
    refine .of_reg_eq rfl (fun _ _ ↦ rfl) .refl (fun hne ↦ ?_) fun _ _ ↦ .refl _
    refine st.kq.select_setRead _ _ _ ?_
    rwa [Registry.key, hread] at hne
  case h_2 hwrite =>
    refine .of_reg_eq rfl (fun _ _ ↦ rfl) .refl (fun hne ↦ ?_) fun _ _ ↦ .refl _
    refine st.kq.select_setWrite _ _ _ ?_
    rwa [Registry.key, hwrite] at hne
  case h_3 => exact hdrain _

theorem local_changeKq : Local k st (st.changeKq dk answer) dk ds := by
  have hkevent : Local k st
      { st with kq.knotes := (EventQueue.kevent st.kq.knotes (st.change dk) answer).1 } dk ds :=
    .of_reg_eq rfl (fun _ _ ↦ rfl) (.single ⟨_, answer, rfl, rfl⟩) (fun _ ↦ rfl)
      fun _ _ ↦ .refl _
  rcases st.changeKq_cases dk answer with h | ⟨receipt, h⟩ <;> rw [h]
  · exact hkevent
  · exact hkevent.trans (local_registrationFailed _ dk ds receipt)

theorem flags_changeKq : (st.changeKq dk answer).flags = st.flags := by
  have hself : Function.update st.flags dk { st.flags dk with
      evOneshot := (st.flags dk).evOneshot || (st.flags dk).evOneshot } = st.flags := by
    simp
  rcases st.changeKq_cases dk answer with h | ⟨receipt, h⟩ <;> rw [h]
  unfold registrationFailed
  split
  · rfl
  · rfl
  · exact hself

theorem knotes_changeKq : (st.changeKq dk answer).kq.knotes =
    (EventQueue.kevent st.kq.knotes (st.change dk) answer).1 := by
  rcases st.changeKq_cases dk answer with h | ⟨receipt, h⟩ <;> rw [h]
  unfold registrationFailed
  split <;> rfl

theorem local_dispatchUpdateKq (hspares : (st.flags dk).evDelete → st.Spares dk k) :
    Local k st (st.dispatchUpdateKq dk answer) dk ds := by
  simp only [dispatchUpdateKq]
  split
  case isTrue hread =>
    refine .of_reg_eq rfl (fun _ _ ↦ rfl) .refl (fun hne ↦ ?_) fun _ _ ↦ .refl _
    refine st.kq.select_setRead _ _ _ ?_
    rwa [Registry.key, hread.2.1] at hne
  case isFalse hread =>
    split
    case isTrue hwrite =>
      refine .of_reg_eq rfl (fun _ _ ↦ rfl) .refl (fun hne ↦ ?_) fun _ _ ↦ .refl _
      obtain ⟨hdelete, hfilter, hset⟩ := hwrite
      refine st.kq.select_setWrite _ _ _ ?_
      rcases hfilter with hfilter | hfilter
      · intro hk
        rcases hspares hdelete hfilter hk.symm with hbit | hbit
        · exact hread ⟨hdelete, hfilter, hbit⟩
        · rw [hset] at hbit
          cases hbit
      · rwa [Registry.key, hfilter] at hne
    case isFalse => exact st.local_changeKq dk ds answer

section Resume

variable (hspares : (st.flags dk).evDelete → st.Spares dk k)

include hspares

theorem local_resumeKq : Local k st (st.resumeKq dk answer) dk ds := by
  have hupdate := st.local_dispatchUpdateKq dk ds answer hspares
  simp only [resumeKq]
  split
  · exact hupdate.trans (.setFlags k _ dk ds _)
  · exact hupdate

theorem local_dispatchKeventResume : Local k st (st.dispatchKeventResume dk answer) dk ds := by
  unfold dispatchKeventResume
  split
  case h_4 =>
    split
    · exact .refl k st dk ds
    · exact st.local_resumeKq dk ds answer hspares
  case h_5 => exact st.local_resumeKq dk ds answer hspares
  all_goals exact .refl k st dk ds

theorem local_registerNew : Local k st (st.registerNew ds dk answer) dk ds := by
  have hresume := local_dispatchKeventResume (st.setFlags dk { st.flags dk with evAdd := true })
    dk ds answer fun hdelete ↦ hspares (by simpa [setFlags] using hdelete)
  exact ((Local.setFlags k st dk ds _).trans hresume).trans (.setDel k _ dk ds _)

end Resume

theorem local_deleteKq (hspares : st.Spares dk k) : Local k st (st.deleteKq dk answer) dk ds := by
  unfold deleteKq
  split
  · exact .refl k st dk ds
  · exact (Local.setFlags k st dk ds _).trans
      (local_dispatchUpdateKq _ dk ds answer fun _ ↦ hspares)

theorem local_remove : Local k st { st with reg := st.reg.remove dk } dk ds where
  registered _ _ hreg := Registry.registered_remove hreg
  dk_eq _ _ _ := rfl
  key_eq := rfl
  ds_eq _ _ := rfl
  flags_eq _ _ := rfl
  changes := .refl
  select_eq _ := rfl
  del _ _ := .refl _

theorem local_dispose (hspares : st.Spares dk k) :
    Local k st (st.dispatchKeventDispose dk answer) dk ds := by
  have hdelete : Local k st
      { st.deleteKq dk answer with reg := (st.deleteKq dk answer).reg.remove dk } dk ds :=
    (st.local_deleteKq dk ds answer hspares).trans (local_remove _ dk ds)
  unfold dispatchKeventDispose
  cases (st.reg.dk dk).filter
  case timer | customAdd | customOr => exact .refl k st dk ds
  case proc =>
    by_cases hone : (st.flags dk).evOneshot
    · simp only [hone, if_true]
      exact st.local_remove dk ds
    · simp only [hone, if_false, Bool.false_eq_true]
      exact hdelete
  all_goals exact hdelete

end State

end LibDispatch.Kevent
