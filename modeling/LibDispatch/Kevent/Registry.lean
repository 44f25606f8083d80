import LibDispatch.Kevent.Manager
import LibDispatch.Lists.Buckets

/-!
# The registry of kevents

Every source that is installed is on the list of exactly one kevent, which is on the hash
table and asks the kernel for exactly what its sources ask for.
-/

namespace LibDispatch.Kevent

variable {S : Type*}

def Dk.isStatic : Dk S → Bool
  | .own _ => false
  | _ => true

namespace Registry

def key (r : Registry S) (dk : Dk S) : ℕ × Filter := ((r.dk dk).ident, (r.dk dk).filter)

def hashKey (k : ℕ × Filter) : ℕ := dispatchKeventHash k.1 k.2

def Registered (r : Registry S) (dk : Dk S) : Prop := Buckets.Mem r.dispatchSources dk

structure Suits (k : Dkevent S) (x : Source S) : Prop where
  filter_eq : k.filter = x.dsType.filter
  ident_eq : x.dsType ≠ .timer → k.ident = x.dsIdentHack

structure Wf (r : Registry S) : Prop where
  table : Buckets.Wf hashKey r.key r.dispatchSources
  static : ∀ dk : Dk S, dk.isStatic → r.Registered dk ∧
    ((r.dk dk).ident, (r.dk dk).filter) = (dk.initial.ident, dk.initial.filter)
  listed : ∀ ds dk, ds ∈ (r.dk dk).dkSources ↔
    ∃ x, r.ds ds = some x ∧ x.dsIsInstalled ∧ x.dsDkev = some dk
  list_nodup : ∀ dk, (r.dk dk).dkSources.Nodup
  installed : ∀ ds x dk, r.ds ds = some x → x.dsIsInstalled → x.dsDkev = some dk →
    r.Registered dk ∧ Suits (r.dk dk) x
  fresh : ∀ ds x, r.ds ds = some x → x.dsIsInstalled = false →
    x.dsDkev = some (.own ds) ∧ Suits (r.dk (.own ds)) x ∧
      (r.dk (.own ds)).fflags = x.dsPendingDataMask ∧
      (x.dsType.filter.isStatic → (r.dk (.own ds)).ident = 0)
  born : ∀ ds, r.Registered (.own ds) → ∃ x, r.ds ds = some x ∧ x.dsIsInstalled
  used : ∀ ds, r.Registered (.own ds) → (r.dk (.own ds)).filter.isStatic = false ∧
    (r.dk (.own ds)).dkSources ≠ [] ∧
      (r.dk (.own ds)).fflags = r.fflagsOf (r.dk (.own ds)).dkSources

/-! ## The flags of a list -/

variable {r : Registry S} {ds : S} {x x' : Source S} {dk : Dk S} {l l' : List S}

theorem getLsbD_fflagsOf (r : Registry S) (l : List S) (i : ℕ) :
    (r.fflagsOf l).getLsbD i = l.any fun ds ↦ (r.pendingDataMask ds).getLsbD i := by
  have hfold : ∀ f : BitVec 32,
      (l.foldl (fun fflags ds ↦ fflags ||| r.pendingDataMask ds) f).getLsbD i =
      (f.getLsbD i || l.any fun ds ↦ (r.pendingDataMask ds).getLsbD i) := by
    induction l with
    | nil => simp
    | cons ds l ih =>
        intro f
        rw [List.foldl_cons, ih, BitVec.getLsbD_or, List.any_cons, Bool.or_assoc]
  simpa [fflagsOf] using hfold 0

theorem fflagsOf_congr {r' : Registry S}
    (h : ∀ ds ∈ l, r'.pendingDataMask ds = r.pendingDataMask ds) : r'.fflagsOf l = r.fflagsOf l :=
  List.foldl_ext _ _ _ fun f ds hds ↦ by rw [h ds hds]

theorem fflagsOf_perm (h : l.Perm l') : r.fflagsOf l = r.fflagsOf l' := by
  refine BitVec.eq_of_getLsbD_eq fun i _ ↦ ?_
  rw [getLsbD_fflagsOf, getLsbD_fflagsOf, h.any_eq]

theorem fflagsOf_cons : r.fflagsOf (ds :: l) = r.fflagsOf l ||| r.pendingDataMask ds := by
  refine BitVec.eq_of_getLsbD_eq fun i _ ↦ ?_
  rw [getLsbD_fflagsOf, BitVec.getLsbD_or, getLsbD_fflagsOf, List.any_cons, Bool.or_comm]

theorem or_eq_of_and_not {m f : BitVec 32} (h : m &&& ~~~f = 0) : f ||| m = f := by
  refine BitVec.eq_of_getLsbD_eq fun i hi ↦ ?_
  have hbit : (m &&& ~~~f).getLsbD i = false := by simp [h]
  rw [BitVec.getLsbD_and, BitVec.getLsbD_not] at hbit
  rw [BitVec.getLsbD_or]
  cases hm : m.getLsbD i <;> cases hf : f.getLsbD i <;> simp_all

/-! ## What follows from being well formed -/

theorem Wf.notMem_of_fresh (h : Wf r) (hx : r.ds ds = some x) (hinst : x.dsIsInstalled = false)
    (d : Dk S) : ds ∉ (r.dk d).dkSources := by
  intro hmem
  obtain ⟨y, hy, hyi, -⟩ := (h.listed ds d).mp hmem
  rw [hx, Option.some_inj] at hy
  rw [hy, hyi] at hinst
  cases hinst

theorem Wf.own_of_fresh (h : Wf r) (hx : r.ds ds = some x) (hinst : x.dsIsInstalled = false) :
    ¬ r.Registered (.own ds) ∧ (r.dk (.own ds)).dkSources = [] := by
  have hreg : ¬ r.Registered (.own ds) := by
    intro hreg
    obtain ⟨y, hy, hyi⟩ := h.born ds hreg
    rw [hx, Option.some_inj] at hy
    rw [hy, hyi] at hinst
    cases hinst
  refine ⟨hreg, List.eq_nil_iff_forall_not_mem.mpr fun ds' hmem ↦ ?_⟩
  obtain ⟨y, hy, hyi, hyd⟩ := (h.listed ds' _).mp hmem
  exact hreg (h.installed ds' y _ hy hyi hyd).1

theorem find_eq (r : Registry S) (k : ℕ × Filter) :
    r.dispatchKeventFind k.1 k.2 = (r.dispatchSources (hashKey k)).find? fun d ↦ r.key d = k := by
  simp only [dispatchKeventFind, hashKey, key, Prod.ext_iff]

theorem Wf.exists_static (h : Wf r) {filter : Filter} (hf : filter.isStatic) :
    ∃ d, r.Registered d ∧ r.key d = (0, filter) := by
  cases filter <;> try cases hf
  · exact ⟨.timer .wall, (h.static _ rfl).1, (h.static _ rfl).2⟩
  · exact ⟨.dataAdd, (h.static _ rfl).1, (h.static _ rfl).2⟩
  · exact ⟨.dataOr, (h.static _ rfl).1, (h.static _ rfl).2⟩

theorem Wf.filter_static (h : Wf r) (hs : dk.isStatic) : (r.dk dk).filter = dk.initial.filter :=
  (Prod.ext_iff.mp (h.static dk hs).2).2

theorem Wf.isStatic_filter (h : Wf r) (hreg : r.Registered dk) :
    (r.dk dk).filter.isStatic = dk.isStatic := by
  cases hs : dk.isStatic with
  | true =>
      rw [h.filter_static hs]
      cases dk <;> first | rfl | cases hs
  | false =>
      cases dk with
      | own t => exact (h.used t hreg).1
      | _ => cases hs

/-! ## One kevent and one source change -/

section Update

variable [DecidableEq S] {k' : Dkevent S} {b' : ℕ → List (Dk S)}

theorem pendingDataMask_update (hx : r.ds ds = some x)
    (hmask : x'.dsPendingDataMask = x.dsPendingDataMask) (b : ℕ → List (Dk S))
    (dk : Dk S → Dkevent S)
    (ds' : S) :
    pendingDataMask ⟨b, dk, Function.update r.ds ds (some x')⟩ ds' = r.pendingDataMask ds' := by
  rcases eq_or_ne ds' ds with rfl | hne
  · simp [pendingDataMask, hx, hmask]
  · simp [pendingDataMask, hne]

/-- A change of the registry that concerns one installed source `ds` and one kevent `dk`. -/
structure Edit (r : Registry S) (b' : ℕ → List (Dk S)) (dk : Dk S) (k' : Dkevent S) (ds : S)
    (x' : Source S) : Prop where
  table : Buckets.Wf hashKey r.key b'
  mem : ∀ d, d ≠ dk → (Buckets.Mem b' d ↔ r.Registered d)
  mem_dk : k'.dkSources ≠ [] ∨ dk.isStatic → Buckets.Mem b' dk
  ident_eq : k'.ident = (r.dk dk).ident
  filter_eq : k'.filter = (r.dk dk).filter
  list : ∀ ds', ds' ≠ ds → (ds' ∈ k'.dkSources ↔ ds' ∈ (r.dk dk).dkSources)
  list_nodup : k'.dkSources.Nodup
  list_self : ds ∈ k'.dkSources ↔ x'.dsDkev = some dk
  list_other : ∀ d, d ≠ dk → (ds ∈ (r.dk d).dkSources ↔ x'.dsDkev = some d)
  is_installed : x'.dsIsInstalled
  mask_eq : ∃ x, r.ds ds = some x ∧ x'.dsPendingDataMask = x.dsPendingDataMask
  suits : ∀ d, x'.dsDkev = some d → Suits (r.dk d) x'
  own : ∀ t, dk = .own t → t = ds ∨ ∃ x, r.ds t = some x ∧ x.dsIsInstalled
  used : Buckets.Mem b' dk → dk.isStatic = false → k'.filter.isStatic = false ∧ k'.dkSources ≠ [] ∧
    k'.fflags = r.fflagsOf k'.dkSources

theorem Edit.key_eq (hc : Edit r b' dk k' ds x') (d : Dk S) :
    key ⟨b', Function.update r.dk dk k', Function.update r.ds ds (some x')⟩ d = r.key d := by
  rcases eq_or_ne d dk with rfl | hne
  · simp [key, hc.ident_eq, hc.filter_eq]
  · simp [key, hne]

theorem Edit.suits_update (hc : Edit r b' dk k' ds x') {d : Dk S} {y : Source S}
    (hy : Suits (r.dk d) y) : Suits (Function.update r.dk dk k' d) y := by
  rcases eq_or_ne d dk with rfl | hne
  · exact ⟨by simpa [hc.filter_eq] using hy.filter_eq, by simpa [hc.ident_eq] using hy.ident_eq⟩
  · simpa [hne] using hy

theorem Edit.listed (hc : Edit r b' dk k' ds x') (h : Wf r) (ds' : S) (d : Dk S) :
    ds' ∈ (Function.update r.dk dk k' d).dkSources ↔
      ∃ y, Function.update r.ds ds (some x') ds' = some y ∧ y.dsIsInstalled ∧
        y.dsDkev = some d := by
  rcases eq_or_ne ds' ds with rfl | hds
  · have hself : ds' ∈ (Function.update r.dk dk k' d).dkSources ↔ x'.dsDkev = some d := by
      rcases eq_or_ne d dk with rfl | hd
      · simpa using hc.list_self
      · simpa [hd] using hc.list_other d hd
    simp [hself, hc.is_installed]
  · rw [Function.update_of_ne hds, ← h.listed ds' d]
    rcases eq_or_ne d dk with rfl | hd
    · simpa using hc.list ds' hds
    · simp [hd]

theorem Edit.installed (hc : Edit r b' dk k' ds x') (h : Wf r) {ds' : S} {y : Source S} {d : Dk S}
    (hy : Function.update r.ds ds (some x') ds' = some y) (hinst : y.dsIsInstalled)
    (hd : y.dsDkev = some d) : Buckets.Mem b' d ∧ Suits (Function.update r.dk dk k' d) y := by
  have hmem : ds' ∈ (Function.update r.dk dk k' d).dkSources :=
    (hc.listed h ds' d).mpr ⟨y, hy, hinst, hd⟩
  refine ⟨?_, hc.suits_update ?_⟩
  · rcases eq_or_ne d dk with rfl | hne
    · exact hc.mem_dk (.inl (List.ne_nil_of_mem (by simpa using hmem)))
    · rw [Function.update_of_ne hne] at hmem
      obtain ⟨z, hz, hzi, hzd⟩ := (h.listed ds' d).mp hmem
      exact (hc.mem d hne).mpr (h.installed ds' z d hz hzi hzd).1
  · rcases eq_or_ne ds' ds with rfl | hds
    · rw [Function.update_self, Option.some_inj] at hy
      subst hy
      exact hc.suits d hd
    · rw [Function.update_of_ne hds] at hy
      exact (h.installed ds' y d hy hinst hd).2

theorem Wf.update (h : Wf r) (hc : Edit r b' dk k' ds x') :
    Wf ⟨b', Function.update r.dk dk k', Function.update r.ds ds (some x')⟩ := by
  obtain ⟨x, hx, hmask⟩ := hc.mask_eq
  have hflags : ∀ l,
      fflagsOf ⟨b', Function.update r.dk dk k', Function.update r.ds ds (some x')⟩ l =
      r.fflagsOf l := fun l ↦ fflagsOf_congr fun ds' _ ↦ pendingDataMask_update hx hmask _ _ ds'
  constructor
  case table => exact hc.table.congr fun d _ ↦ hc.key_eq d
  case static =>
    intro d hd
    obtain ⟨hreg, hkey⟩ := h.static d hd
    refine ⟨?_, (hc.key_eq d).trans hkey⟩
    rcases eq_or_ne d dk with rfl | hne
    · exact hc.mem_dk (.inr hd)
    · exact (hc.mem d hne).mpr hreg
  case listed => exact hc.listed h
  case list_nodup =>
    intro d
    rcases eq_or_ne d dk with rfl | hne
    · simpa using hc.list_nodup
    · simpa [hne] using h.list_nodup d
  case installed => exact fun ds' y d hy hinst hd ↦ hc.installed h hy hinst hd
  case fresh =>
    intro ds' y (hy : Function.update r.ds ds (some x') ds' = some y) hinst
    have hds : ds' ≠ ds := by
      rintro rfl
      rw [Function.update_self, Option.some_inj] at hy
      rw [← hy, hc.is_installed] at hinst
      cases hinst
    rw [Function.update_of_ne hds] at hy
    have hne : Dk.own ds' ≠ dk := by
      rintro rfl
      rcases hc.own ds' rfl with rfl | ⟨z, hz, hzi⟩
      · exact hds rfl
      · rw [hy, Option.some_inj] at hz
        rw [hz, hzi] at hinst
        cases hinst
    simpa [hne] using h.fresh ds' y hy hinst
  case born =>
    intro ds' hreg
    rcases eq_or_ne ds' ds with rfl | hds
    · exact ⟨x', by simp, hc.is_installed⟩
    · suffices ∃ y, r.ds ds' = some y ∧ y.dsIsInstalled by simpa [hds] using this
      rcases eq_or_ne (Dk.own ds') dk with hdk | hne
      · exact (hc.own ds' hdk.symm).resolve_left hds
      · exact h.born ds' ((hc.mem _ hne).mp hreg)
  case used =>
    intro ds' hreg
    rw [hflags]
    rcases eq_or_ne (Dk.own ds') dk with rfl | hne
    · simpa using hc.used hreg rfl
    · simpa [hne] using h.used ds' ((hc.mem _ hne).mp hreg)

/-! ## Installing and removing sources -/

omit [DecidableEq S] in
theorem Wf.merge_found (h : Wf r) (hx : r.ds ds = some x) (hinst : x.dsIsInstalled = false)
    (hd : r.Registered dk) (hkey : r.key dk = r.key (.own ds)) :
    Edit r r.dispatchSources dk
      { r.dk dk with
        fflags := (r.dk dk).fflags ||| (r.dk (.own ds)).fflags
        dkSources := (r.dk dk).dkSources ++ [ds] } ds
      { x with dsIsInstalled := true, dsDkev := some dk } := by
  obtain ⟨-, hsuits, hmask, -⟩ := h.fresh ds x hx hinst
  have hnot := h.notMem_of_fresh hx hinst
  obtain ⟨hident, hfilter⟩ := Prod.ext_iff.mp hkey
  constructor
  case table => exact h.table
  case mem => exact fun d _ ↦ .rfl
  case mem_dk => exact fun _ ↦ hd
  case ident_eq => rfl
  case filter_eq => rfl
  case list =>
    intro ds' hne
    simp [hne]
  case list_nodup =>
    rw [List.nodup_append_comm]
    exact List.nodup_cons.mpr ⟨hnot dk, h.list_nodup dk⟩
  case list_self => simp
  case list_other =>
    intro d hne
    simp [hnot d, hne.symm]
  case is_installed => rfl
  case mask_eq => exact ⟨x, hx, rfl⟩
  case suits =>
    rintro d ⟨⟩
    exact ⟨hfilter.trans hsuits.filter_eq, fun hty ↦ hident.trans (hsuits.ident_eq hty)⟩
  case own =>
    rintro t rfl
    exact .inr (h.born t hd)
  case used =>
    intro _ hstatic
    cases dk with
    | own t =>
        obtain ⟨hf, -, hfflags⟩ := h.used t hd
        refine ⟨hf, by simp, ?_⟩
        rw [fflagsOf_perm (List.perm_append_singleton ds _), fflagsOf_cons, hfflags, hmask]
        simp [pendingDataMask, hx]
    | _ => cases hstatic

omit [DecidableEq S] in
theorem Wf.merge_new (h : Wf r) (hx : r.ds ds = some x) (hinst : x.dsIsInstalled = false)
    (hnone : ∀ d, r.Registered d → r.key d ≠ r.key (.own ds)) :
    Edit r (r.dispatchKeventInsert (.own ds)).dispatchSources (.own ds)
      { r.dk (.own ds) with dkSources := (r.dk (.own ds)).dkSources ++ [ds] } ds
      { x with dsIsInstalled := true, dsDkev := some (.own ds) } := by
  obtain ⟨-, hsuits, hmask, hzero⟩ := h.fresh ds x hx hinst
  obtain ⟨hreg, hnil⟩ := h.own_of_fresh hx hinst
  have hnot := h.notMem_of_fresh hx hinst
  constructor
  case table => exact h.table.insert hnone
  case mem => exact fun d hd ↦ Buckets.mem_insert.trans (or_iff_left hd)
  case mem_dk => exact fun _ ↦ Buckets.mem_insert.mpr (.inr rfl)
  case ident_eq => rfl
  case filter_eq => rfl
  case list =>
    intro ds' hne
    simp [hne]
  case list_nodup => simp [hnil]
  case list_self => simp
  case list_other =>
    intro d hne
    simp [hnot d, hne.symm]
  case is_installed => rfl
  case mask_eq => exact ⟨x, hx, rfl⟩
  case suits =>
    rintro d ⟨⟩
    exact ⟨hsuits.filter_eq, hsuits.ident_eq⟩
  case own =>
    rintro t ⟨⟩
    exact .inl rfl
  case used =>
    intro _ _
    refine ⟨?_, by simp, ?_⟩
    · by_contra hf
      rw [Bool.not_eq_false] at hf
      obtain ⟨d, hd, hkey⟩ := h.exists_static hf
      rw [hsuits.filter_eq] at hf
      exact hnone d hd (by rw [hkey, key, hzero hf])
    · simp only [hnil, List.nil_append, hmask]
      simp [fflagsOf, pendingDataMask, hx]

theorem Wf.merge (h : Wf r) (hx : r.ds ds = some x) (hinst : x.dsIsInstalled = false) :
    Wf (r.merge ds x (.own ds)).1 := by
  unfold Registry.merge
  have hfind := find_eq r (r.key (.own ds))
  split
  · rename_i d hd
    rw [key] at hfind
    rw [hd] at hfind
    obtain ⟨hreg, hkey⟩ := h.table.find_eq_some.mp hfind.symm
    have hw := h.update (h.merge_found hx hinst hreg hkey)
    simpa [attach, setDk, setDs] using hw
  · rename_i hd
    rw [key, hd] at hfind
    have hw := h.update (h.merge_new hx hinst (h.table.find_eq_none.mp hfind.symm))
    simpa [attach, setDk, setDs, dispatchKeventInsert] using hw

def release (r : Registry S) (ds : S) (x : Source S) (dk : Dk S) : Registry S :=
  let r' := r.detach ds x dk
  let l := (r'.dk dk).dkSources
  if l = [] then if (r'.dk dk).filter.isStatic then r' else r'.remove dk
  else if x.dsPendingDataMask &&& ~~~r'.fflagsOf l ≠ 0 then
    r'.setDk dk { r'.dk dk with fflags := r'.fflagsOf l }
  else r'

theorem pendingDataMask_detach (hx : r.ds ds = some x) (ds' : S) :
    (r.detach ds x dk).pendingDataMask ds' = r.pendingDataMask ds' := by
  have hmask : ({ x with dsDkev := none } : Source S).dsPendingDataMask = x.dsPendingDataMask := rfl
  exact pendingDataMask_update hx hmask _ _ ds'

theorem Wf.detach_edit (h : Wf r) (hx : r.ds ds = some x) (hinst : x.dsIsInstalled)
    (hdk : x.dsDkev = some dk) {f : BitVec 32} {b' : ℕ → List (Dk S)}
    (htable : Buckets.Wf hashKey r.key b')
    (hmem : ∀ d, d ≠ dk → (Buckets.Mem b' d ↔ r.Registered d))
    (hmem_dk : (r.dk dk).dkSources.erase ds ≠ [] ∨ dk.isStatic → Buckets.Mem b' dk)
    (hused : Buckets.Mem b' dk → dk.isStatic = false → (r.dk dk).dkSources.erase ds ≠ [] ∧
      f = r.fflagsOf ((r.dk dk).dkSources.erase ds)) :
    Edit r b' dk
      { r.dk dk with fflags := f, dkSources := (r.dk dk).dkSources.erase ds } ds
      { x with dsDkev := none } := by
  obtain ⟨hreg, -⟩ := h.installed ds x dk hx hinst hdk
  constructor
  case table => exact htable
  case mem => exact hmem
  case mem_dk => exact hmem_dk
  case ident_eq => rfl
  case filter_eq => rfl
  case list => exact fun ds' hne ↦ List.mem_erase_of_ne hne
  case list_nodup => exact (h.list_nodup dk).erase ds
  case list_self => simp [(h.list_nodup dk).mem_erase_iff]
  case list_other =>
    intro d hne
    rw [h.listed ds d, hx]
    simp only [Option.some.injEq, reduceCtorEq, iff_false, not_exists]
    rintro y ⟨rfl, -, hyd⟩
    rw [hdk, Option.some_inj] at hyd
    exact hne hyd.symm
  case is_installed => exact hinst
  case mask_eq => exact ⟨x, hx, rfl⟩
  case suits => exact fun d hd ↦ by cases hd
  case own =>
    rintro t rfl
    exact .inr (h.born t hreg)
  case used =>
    intro hm hs
    have hf : (r.dk dk).filter.isStatic = false := by rw [h.isStatic_filter hreg, hs]
    exact ⟨hf, hused hm hs⟩

theorem Wf.release (h : Wf r) (hx : r.ds ds = some x) (hinst : x.dsIsInstalled)
    (hdk : x.dsDkev = some dk) : Wf (r.release ds x dk) := by
  obtain ⟨hreg, -⟩ := h.installed ds x dk hx hinst hdk
  have hds : ds ∈ (r.dk dk).dkSources := (h.listed ds dk).mpr ⟨x, hx, hinst, hdk⟩
  have hflags : ∀ l, (r.detach ds x dk).fflagsOf l = r.fflagsOf l := fun l ↦
    fflagsOf_congr fun ds' _ ↦ pendingDataMask_detach hx ds'
  unfold Registry.release
  simp only [hflags]
  split
  · rename_i hnil
    replace hnil : (r.dk dk).dkSources.erase ds = [] := by simpa [detach, setDk, setDs] using hnil
    split
    · rename_i hf
      replace hf : dk.isStatic := by
        rw [← h.isStatic_filter hreg]
        simpa [detach, setDk, setDs] using hf
      have hw := h.update (h.detach_edit hx hinst hdk (f := (r.dk dk).fflags) h.table
        (fun d _ ↦ .rfl) (fun _ ↦ hreg) (fun _ hs ↦ by rw [hf] at hs; cases hs))
      simpa [detach, setDk, setDs] using hw
    · rename_i hf
      replace hf : ¬ dk.isStatic := by
        rw [← h.isStatic_filter hreg]
        simpa [detach, setDk, setDs] using hf
      have hw := h.update (h.detach_edit hx hinst hdk (f := (r.dk dk).fflags)
        (h.table.erase (a := dk)) (fun d hd ↦ h.table.mem_erase.trans (and_iff_left hd))
        (fun hor ↦ absurd (hor.resolve_left (absurd hnil)) hf)
        (fun hm ↦ absurd rfl (h.table.mem_erase.mp hm).2))
      simpa [detach, remove, setDk, setDs, hashKey, key] using hw
  · rename_i hne
    replace hne : (r.dk dk).dkSources.erase ds ≠ [] := by simpa [detach, setDk, setDs] using hne
    split
    · have hw := h.update
        (h.detach_edit hx hinst hdk (f := r.fflagsOf ((r.dk dk).dkSources.erase ds))
        h.table (fun d _ ↦ .rfl) (fun _ ↦ hreg) (fun _ _ ↦ ⟨hne, rfl⟩))
      simpa [detach, setDk, setDs] using hw
    · rename_i hdel
      replace hdel : x.dsPendingDataMask &&& ~~~r.fflagsOf ((r.dk dk).dkSources.erase ds) = 0 := by
        simpa [detach, setDk, setDs] using hdel
      have hkeep : dk.isStatic = false →
          (r.dk dk).fflags = r.fflagsOf ((r.dk dk).dkSources.erase ds) := by
        intro hs
        cases dk with
        | own t =>
            have hmask : r.pendingDataMask ds = x.dsPendingDataMask := by simp [pendingDataMask, hx]
            rw [(h.used t hreg).2.2, fflagsOf_perm (List.perm_cons_erase hds), fflagsOf_cons, hmask,
              or_eq_of_and_not hdel]
        | _ => cases hs
      have hw := h.update (h.detach_edit hx hinst hdk (f := (r.dk dk).fflags) h.table
        (fun d _ ↦ .rfl) (fun _ ↦ hreg) (fun _ hs ↦ ⟨hne, hkeep hs⟩))
      simpa [detach, setDk, setDs] using hw

theorem Wf.setDs (h : Wf r) (hx : r.ds ds = some x) (htype : x'.dsType = x.dsType)
    (hdkev : x'.dsDkev = x.dsDkev) (hinst : x'.dsIsInstalled = x.dsIsInstalled)
    (hident : x.dsType ≠ .timer → x'.dsIdentHack = x.dsIdentHack)
    (hmask : x'.dsPendingDataMask = x.dsPendingDataMask ∨ x.dsIsInstalled ∧ x.dsDkev = none) :
    Wf (r.setDs ds x') := by
  have hsuits : ∀ k, Suits k x → Suits k x' := fun k hk ↦
    ⟨by rw [htype, hk.filter_eq], fun hty ↦ by rw [htype] at hty; rw [hident hty, hk.ident_eq hty]⟩
  have hof : ∀ ds' y, (r.setDs ds x').ds ds' = some y →
      ∃ z, r.ds ds' = some z ∧ y.dsDkev = z.dsDkev ∧ y.dsIsInstalled = z.dsIsInstalled ∧
        (∀ k, Suits k z → Suits k y) ∧ y.dsType = z.dsType ∧
        (y.dsPendingDataMask = z.dsPendingDataMask ∨ z.dsIsInstalled ∧ z.dsDkev = none) := by
    intro ds' y hy
    rcases eq_or_ne ds' ds with rfl | hne
    · rw [setDs_ds_self, Option.some_inj] at hy
      subst hy
      exact ⟨x, hx, hdkev, hinst, hsuits, htype, hmask⟩
    · rw [setDs_ds_of_ne _ hne] at hy
      exact ⟨y, hy, rfl, rfl, fun _ hk ↦ hk, rfl, .inl rfl⟩
  have hto : ∀ ds' z, r.ds ds' = some z → ∃ y, (r.setDs ds x').ds ds' = some y ∧
      y.dsDkev = z.dsDkev ∧ y.dsIsInstalled = z.dsIsInstalled := by
    intro ds' z hz
    rcases eq_or_ne ds' ds with rfl | hne
    · rw [hx, Option.some_inj] at hz
      subst hz
      exact ⟨x', setDs_ds_self .., hdkev, hinst⟩
    · exact ⟨z, by rwa [setDs_ds_of_ne _ hne], rfl, rfl⟩
  constructor
  case table => exact h.table
  case static => exact h.static
  case listed =>
    intro ds' d
    refine (h.listed ds' d).trans ⟨fun ⟨z, hz, hzi, hzd⟩ ↦ ?_, fun ⟨y, hy, hyi, hyd⟩ ↦ ?_⟩
    · obtain ⟨y, hy, hyd, hyi⟩ := hto ds' z hz
      exact ⟨y, hy, by rwa [hyi], by rwa [hyd]⟩
    · obtain ⟨z, hz, hzd, hzi, -⟩ := hof ds' y hy
      exact ⟨z, hz, by rwa [← hzi], by rwa [← hzd]⟩
  case list_nodup => exact h.list_nodup
  case installed =>
    intro ds' y d hy hyi hyd
    obtain ⟨z, hz, hzd, hzi, hk, -⟩ := hof ds' y hy
    obtain ⟨hreg, hs⟩ := h.installed ds' z d hz (by rwa [← hzi]) (by rwa [← hzd])
    exact ⟨hreg, hk _ hs⟩
  case fresh =>
    intro ds' y hy hyi
    obtain ⟨z, hz, hzd, hzi, hk, hty, hm⟩ := hof ds' y hy
    rw [hzi] at hyi
    obtain ⟨hown, hs, hf, hzero⟩ := h.fresh ds' z hz hyi
    rw [hyi] at hm
    refine ⟨by rw [hzd, hown], hk _ hs, ?_, by rwa [hty]⟩
    rcases hm with hm | ⟨hm, -⟩
    · exact hf.trans hm.symm
    · cases hm
  case born =>
    intro ds' hreg
    obtain ⟨z, hz, hzi⟩ := h.born ds' hreg
    obtain ⟨y, hy, -, hyi⟩ := hto ds' z hz
    exact ⟨y, hy, by rwa [hyi]⟩
  case used =>
    intro t hreg
    obtain ⟨hf, hne, hfl⟩ := h.used t hreg
    refine ⟨hf, hne, hfl.trans (fflagsOf_congr fun ds' hmem ↦ ?_).symm⟩
    obtain ⟨z, hz, hzi, hzd⟩ := (h.listed ds' _).mp hmem
    rcases eq_or_ne ds' ds with rfl | hne
    · rw [hx, Option.some_inj] at hz
      subst hz
      have hm := hmask.resolve_right fun hnone ↦ by rw [hzd] at hnone; cases hnone.2
      simp [pendingDataMask, hx, hm]
    · simp [pendingDataMask, hne]

theorem Wf.create (h : Wf r) (hnone : r.ds ds = none) {k : Dkevent S} (hlist : k.dkSources = [])
    (hdkev : x.dsDkev = some (.own ds)) (hinst : x.dsIsInstalled = false) (hsuits : Suits k x)
    (hmask : k.fflags = x.dsPendingDataMask) (hzero : x.dsType.filter.isStatic → k.ident = 0) :
    Wf ((r.setDk (.own ds) k).setDs ds x) := by
  have hreg : ¬ r.Registered (.own ds) := by
    intro hreg
    obtain ⟨y, hy, -⟩ := h.born ds hreg
    rw [hnone] at hy
    cases hy
  have hdk : ∀ d, r.Registered d → ((r.setDk (.own ds) k).setDs ds x).dk d = r.dk d := by
    intro d hd
    have hne : d ≠ .own ds := by
      rintro rfl
      exact hreg hd
    simp [hne]
  have hnot : ∀ d, ds ∉ (r.dk d).dkSources := by
    intro d hmem
    obtain ⟨y, hy, -⟩ := (h.listed ds d).mp hmem
    rw [hnone] at hy
    cases hy
  have hof : ∀ ds' y, ((r.setDk (.own ds) k).setDs ds x).ds ds' = some y → y.dsIsInstalled →
      r.ds ds' = some y := by
    intro ds' y hy hyi
    rcases eq_or_ne ds' ds with rfl | hne
    · rw [setDs_ds_self, Option.some_inj] at hy
      rw [← hy, hinst] at hyi
      cases hyi
    · rwa [setDs_ds_of_ne _ hne] at hy
  constructor
  case table => exact h.table.congr fun d hd ↦ by simp only [key, hdk d hd]
  case static =>
    intro d hd
    rw [hdk d (h.static d hd).1]
    exact h.static d hd
  case listed =>
    intro ds' d
    constructor
    · intro hmem
      have hd : d ≠ .own ds := by
        rintro rfl
        simp [hlist] at hmem
      replace hmem : ds' ∈ (r.dk d).dkSources := by simpa [hd] using hmem
      have hne : ds' ≠ ds := by
        rintro rfl
        exact hnot d hmem
      simpa [hne] using (h.listed ds' d).mp hmem
    · rintro ⟨y, hy, hyi, hyd⟩
      have hy' := hof ds' y hy hyi
      rw [hdk d (h.installed ds' y d hy' hyi hyd).1]
      exact (h.listed ds' d).mpr ⟨y, hy', hyi, hyd⟩
  case list_nodup =>
    intro d
    rcases eq_or_ne d (.own ds) with rfl | hd
    · simp [hlist]
    · simpa [hd] using h.list_nodup d
  case installed =>
    intro ds' y d hy hyi hyd
    have hw := h.installed ds' y d (hof ds' y hy hyi) hyi hyd
    rw [hdk d hw.1]
    exact hw
  case fresh =>
    intro ds' y hy hyi
    rcases eq_or_ne ds' ds with rfl | hne
    · rw [setDs_ds_self, Option.some_inj] at hy
      subst hy
      simpa using ⟨hdkev, hsuits, hmask, hzero⟩
    · rw [setDs_ds_of_ne _ hne] at hy
      simpa [hne] using h.fresh ds' y hy hyi
  case born =>
    intro ds' hmem
    have hne : ds' ≠ ds := by
      rintro rfl
      exact hreg hmem
    simpa [hne] using h.born ds' hmem
  case used =>
    intro t hmem
    rw [hdk _ hmem, fflagsOf_congr fun ds' hds' ↦ ?_]
    · exact h.used t hmem
    · have hne : ds' ≠ ds := by
        rintro rfl
        exact hnot _ hds'
      simp [pendingDataMask, hne]

/-! ## Moving timers -/

theorem target_setDs {r₁ : Registry S} (hds : r₁.ds = r.ds) (hx : r.ds ds = some x)
    (htimer : x'.dsTimer = x.dsTimer) : (r₁.setDs ds x').target = r.target := by
  funext ds'
  rcases eq_or_ne ds' ds with rfl | hne
  · simp [target, hx, htimer]
  · simp [target, hds, hne]

theorem isLater_setDs {r₁ : Registry S} (hds : r₁.ds = r.ds) (hx : r.ds ds = some x)
    (htimer : x'.dsTimer = x.dsTimer) : (r₁.setDs ds x').isLater = r.isLater := by
  funext t ds'
  simp only [isLater, target_setDs hds hx htimer]

theorem requeueTimer_eq (hx : r.ds ds = some x) :
    r.requeueTimer ds x dk = (r.detach ds x dk).enqueueTimer ds x := by
  have hlater : (r.detach ds x dk).isLater = r.isLater :=
    isLater_setDs rfl hx (rfl : ({ x with dsDkev := none } : Source S).dsTimer = x.dsTimer)
  unfold requeueTimer enqueueTimer
  rw [hlater]
  simp [detach, setDk, Registry.setDs]
  rfl

theorem Wf.enqueueTimer (h : Wf r) (hx : r.ds ds = some { x with dsDkev := none })
    (hinst : x.dsIsInstalled) (htype : x.dsType = .timer) : Wf (r.enqueueTimer ds x) := by
  have hperm := OrderedList.perm_insertBefore (r.isLater x.dsTimer.target) ds
    (r.dk (.timer (clockOf x))).dkSources
  have hnot : ∀ d, ds ∉ (r.dk d).dkSources := by
    intro d hmem
    obtain ⟨y, hy, -, hyd⟩ := (h.listed ds d).mp hmem
    rw [hx, Option.some_inj] at hy
    rw [← hy] at hyd
    cases hyd
  obtain ⟨hreg, -⟩ := h.static (.timer (clockOf x)) rfl
  refine h.update (?_ : Edit r r.dispatchSources _ _ ds _)
  constructor
  case table => exact h.table
  case mem => exact fun d _ ↦ .rfl
  case mem_dk => exact fun _ ↦ hreg
  case ident_eq => rfl
  case filter_eq => rfl
  case list =>
    intro ds' hne
    simp [hperm.mem_iff, hne]
  case list_nodup => exact hperm.nodup_iff.mpr (List.nodup_cons.mpr ⟨hnot _, h.list_nodup _⟩)
  case list_self => simp [hperm.mem_iff]
  case list_other =>
    intro d hne
    simp [hnot d, hne.symm]
  case is_installed => exact hinst
  case mask_eq => exact ⟨_, hx, rfl⟩
  case suits =>
    rintro d ⟨⟩
    exact ⟨by rw [htype]; exact h.filter_static rfl, fun hne ↦ absurd htype hne⟩
  case own => exact fun t ht ↦ by cases ht
  case used => exact fun _ hs ↦ by cases hs

omit [DecidableEq S] in
theorem Wf.dkev_timer (h : Wf r) (hx : r.ds ds = some x) (hinst : x.dsIsInstalled)
    (htype : x.dsType = .timer) (hdk : x.dsDkev = some dk) : ∃ c, dk = .timer c := by
  obtain ⟨hreg, hsuits⟩ := h.installed ds x dk hx hinst hdk
  have hfilter : (r.dk dk).filter = .timer := by rw [hsuits.filter_eq, htype]; rfl
  have hstatic := h.isStatic_filter hreg
  rw [hfilter] at hstatic
  have hinitial := hfilter.symm.trans (h.filter_static hstatic.symm)
  cases dk with
  | timer c => exact ⟨c, rfl⟩
  | own t => cases hstatic
  | _ => cases hinitial

theorem Wf.requeueTimer (h : Wf r) (hx : r.ds ds = some x) (hinst : x.dsIsInstalled)
    (htype : x.dsType = .timer) (hdk : x.dsDkev = some dk) : Wf (r.requeueTimer ds x dk) := by
  obtain ⟨c, rfl⟩ := h.dkev_timer hx hinst htype hdk
  obtain ⟨hreg, -⟩ := h.installed ds x _ hx hinst hdk
  rw [requeueTimer_eq hx]
  have hw := h.update (h.detach_edit hx hinst hdk (f := (r.dk (.timer c)).fflags) h.table
    (fun d _ ↦ .rfl) (fun _ ↦ hreg) (fun _ hs ↦ by cases hs))
  exact Wf.enqueueTimer hw (by simp [detach]) hinst htype

end Update

end Registry

end LibDispatch.Kevent
