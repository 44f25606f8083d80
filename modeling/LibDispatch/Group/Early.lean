import LibDispatch.Group.Notify

/-!
# Notifications and open enters

A thread that has seen the group empty is committed to submitting what it finds
on the list, however the group changes before it gets there.  What it submits was
registered in time as long as no notification is registered on a group with
members while such a thread is on its way.
-/

namespace LibDispatch.Group

open Interleaving TailList

variable {α ν T : Type*}

/-- Has seen the group empty and may still submit notifications. -/
def Loc.Committed : Loc α → Prop
  | .wake _ | .wakeSubmit _ _ | .wakeNext _ _ | .wakeReset _ _ | .wakeFree _ _ _ => True
  | .wakeWaiters _ head | .wakePost _ head _ => head.isSome
  | _ => False

instance : DecidablePred (Loc.Committed (α := α)) := fun l ↦ by
  unfold Loc.Committed
  split <;> infer_instance

/-- The steps that register in time: the tail is exchanged on an empty group or while
no thread is committed to a wake, and an enter does not wrap the value. -/
def InTime (s : Pool T (Mem α ν) (Loc α)) (t : T) (a : Act α ν) : Prop :=
  match s.loc t, a with
  | .notifyExchange _, .go =>
      s.mem.dsema.dsemaValue = dsemaOrig ∨ ∀ u, ¬ (s.loc u).Committed
  | .idle, .enter => s.mem.dsema.dsemaValue ≠ longMin
  | _, _ => True

instance [Fintype T] (s : Pool T (Mem α ν) (Loc α)) (t : T) (a : Act α ν) :
    Decidable (InTime s t a) := by
  unfold InTime
  split <;> infer_instance

/-- No enter that was open as the notification was asked for is open any more, and the
group has been empty since its registration. -/
structure Timely (m : Mem α ν) (r : Notification ν) : Prop where
  disjoint : Disjoint r.openEnters m.openEnters
  emptySince : m.emptySince r.registeredAt

def NotEarly (s : Pool T (Mem α ν) (Loc α)) : Prop :=
  ∀ r ∈ s.mem.submitted, Timely s.mem r

/-! ## Steps -/

section Steps

variable [DecidableEq α] {m m' : Mem α ν} {l l' : Loc α}

theorem Trans.committed (h : Trans m l m' l') (hl' : l'.Committed) :
    l.Committed ∨ m.dsema.dsemaValue = dsemaOrig := by
  cases h <;> simp_all [Loc.Committed]

theorem Trans.entered_le (h : Trans m l m' l') : m.entered ≤ m'.entered := by
  cases h <;> first | exact le_rfl | exact Nat.le_succ _

theorem Trans.timely (h : Trans m l m' l') {r : Notification ν}
    (hr : ∀ e ∈ r.openEnters, e < m.entered) (ht : Timely m r) : Timely m' r := by
  refine ⟨?_, h.emptySince_mono ht.emptySince⟩
  have hdisj := ht.disjoint
  have hnew : m.entered ∉ r.openEnters := fun hmem ↦ (hr _ hmem).false
  cases h <;> try exact hdisj
  case enter | entered => exact Finset.disjoint_insert_right.mpr ⟨hnew, hdisj⟩
  case leave | leaveSlow => exact hdisj.mono_right (Finset.erase_subset _ _)

theorem Trans.registered_eq (h : Trans m l m' l') :
    m'.registered = m.registered ∨ ∃ x, l = .notifyExchange x ∧ ¬ l'.Committed ∧
      m'.registered = m.registered ++ [{ m.dsn x with registeredAt := m.now }] := by
  cases h <;> first
    | exact .inl rfl
    | exact .inr ⟨_, rfl, id, rfl⟩

theorem Trans.submitted_eq (h : Trans m l m' l') :
    m'.submitted = m.submitted ∨
      ∃ c x, l = .wakeSubmit c x ∧ m'.submitted = m.submitted ++ [m.dsn x] := by
  cases h <;> first
    | exact .inl rfl
    | exact .inr ⟨_, _, rfl, rfl⟩

end Steps

/-! ## Whole runs -/

section Runs

variable [DecidableEq α] [DecidableEq T] {C : Pool T (Mem α ν) (Loc α) → T → Act α ν → Prop}
  {dsnNext : α → Option α} {dsn : α → Notification ν} {s : Pool T (Mem α ν) (Loc α)}

/-- The enters that a notification knows of have returned. -/
structure Known (m : Mem α ν) : Prop where
  live : ∀ x ∈ m.live, ∀ e ∈ (m.dsn x).openEnters, e < m.entered
  registered : ∀ r ∈ m.registered, ∀ e ∈ r.openEnters, e < m.entered
  past : ∀ r ∈ m.registered, Past r.registeredAt m

theorem Known.step {m m' : Mem α ν} {l l' : Loc α} (h : Known m) (htrans : Trans m l m' l')
    (hopen : ∀ e ∈ m.openEnters, e < m.entered)
    (hown : ∀ x, l = .notifyExchange x → x ∈ m.live) : Known m' := by
  have hle := htrans.entered_le
  have hpast : ∀ k, Past k m → Past k m' := fun k hk ↦ htrans.past hk
  obtain ⟨hlive, hreg, hregPast⟩ := h
  have hlive' : ∀ x ∈ m.live, ∀ e ∈ (m.dsn x).openEnters, e < m'.entered :=
    fun x hx e he ↦ (hlive x hx e he).trans_le hle
  have hreg' : ∀ r ∈ m.registered, ∀ e ∈ r.openEnters, e < m'.entered :=
    fun r hr e he ↦ (hreg r hr e he).trans_le hle
  have hregPast' : ∀ r ∈ m.registered, Past r.registeredAt m' :=
    fun r hr ↦ hpast _ (hregPast r hr)
  cases htrans <;> try exact ⟨hlive', hreg', hregPast'⟩
  case notify addr haddr =>
    refine ⟨fun x hx e he ↦ ?_, hreg', hregPast'⟩
    rcases eq_or_ne x addr with rfl | hne
    · simp only [Function.update_self] at he
      exact hopen e he
    · simp only [Function.update_of_ne hne] at he
      exact hlive x ((Finset.mem_insert.mp hx).resolve_left hne) e he
  case exchangeBehind x _ | exchangeFirst x _ =>
    have hx := hown x rfl
    refine ⟨fun y hy e he ↦ ?_, fun r hr e he ↦ ?_, fun r hr ↦ ?_⟩
    · rcases eq_or_ne y x with rfl | hne
      · simp only [Function.update_self] at he
        exact hlive y hx e he
      · simp only [Function.update_of_ne hne] at he
        exact hlive y hy e he
    · rcases List.mem_append.mp hr with hr | hr
      · exact hreg r hr e he
      · obtain rfl := List.mem_singleton.mp hr
        exact hlive x hx e he
    · rcases List.mem_append.mp hr with hr | hr
      · exact hregPast' r hr
      · obtain rfl := List.mem_singleton.mp hr
        exact hpast _ (past_now m)
  case free | freeLast =>
    exact ⟨fun x hx ↦ hlive x (Finset.mem_of_mem_erase hx), hreg', hregPast'⟩

theorem known_of_run (h : Pool.Runs step C (created dsnNext dsn) s) : Known s.mem := by
  refine h.invariant (I := fun s ↦ Known s.mem) ⟨?_, ?_, ?_⟩ ?_
  all_goals try simp [created, dispatchGroupCreate]
  intro s t a m l hr hI _ hP
  obtain ⟨chain, hlist, -⟩ := listed_of_run hr
  refine hI.step (trans_of_run hr hP) (openEnters_lt hr) fun x hx ↦ ?_
  exact hlist.linked.own_live t x (by simp [hx, Loc.role])

variable [Fintype T]

theorem Trans.members_le_succ {m m' : Mem α ν} {l l' : Loc α} (h : Trans m l m' l') :
    m'.members ≤ m.members + 1 := by
  cases h <;> first
    | exact Nat.le_succ _
    | exact le_rfl
    | exact (Nat.sub_le _ _).trans (Nat.le_succ _)

theorem value_eq_sub_of_le (h : Pool.Runs step C (created dsnNext dsn) s)
    (hle : (s.mem.members : ℤ) ≤ dsemaOrig - longMin) :
    s.mem.dsema.dsemaValue = dsemaOrig - s.mem.members := by
  rw [value_eq_wrap h, wrap_of_mem] <;> simp only [dsemaOrig, longMin, longMax] at * <;> omega

theorem members_le_of_inTime (h : Pool.Runs step InTime (created dsnNext dsn) s) :
    (s.mem.members : ℤ) ≤ dsemaOrig - longMin := by
  refine h.invariant (I := fun s ↦ (s.mem.members : ℤ) ≤ dsemaOrig - longMin)
    (by simp [created, dispatchGroupCreate, dsemaOrig, longMax, longMin]) ?_
  intro s t a m l hr hle hC hP
  rcases Nat.lt_or_ge s.mem.members m.members with hlt | hge
  · obtain ⟨hidle, rfl⟩ := eq_enter_of_members_lt (sound_of_run hr t) hP hlt
    have hval := value_eq_sub_of_le hr hle
    have hne : s.mem.dsema.dsemaValue ≠ longMin := by simpa [InTime, hidle] using hC
    have hsucc := (trans_of_run hr hP).members_le_succ
    simp only
    omega
  · simp only
    omega

theorem timely_of_empty (h : Pool.Runs step InTime (created dsnNext dsn) s)
    (hval : s.mem.dsema.dsemaValue = dsemaOrig) {r : Notification ν}
    (hr : Past r.registeredAt s.mem) : Timely s.mem r := by
  have hsub := value_eq_sub_of_le h (members_le_of_inTime h)
  have hzero : s.mem.members = 0 := by omega
  have hopen : s.mem.openEnters = ∅ := by
    have hcard := card_openEnters_le h
    exact Finset.card_eq_zero.mp (by omega)
  exact ⟨by simp [hopen], hr.emptySince hzero⟩

omit [DecidableEq T] [Fintype T] in
theorem inTime_exchange {t : T} {a : Act α ν} {x : α} {r : Mem α ν × Loc α}
    (hC : InTime s t a) (hx : s.loc t = .notifyExchange x)
    (hP : step t a s.mem (s.loc t) = some r) :
    s.mem.dsema.dsemaValue = dsemaOrig ∨ ∀ u, ¬ (s.loc u).Committed := by
  unfold InTime at hC
  rw [hx] at hC hP
  cases a with
  | go => exact hC
  | _ => cases hP

theorem timely_of_run (h : Pool.Runs step InTime (created dsnNext dsn) s) :
    (∀ t, (s.loc t).Committed → ∀ r ∈ s.mem.registered, Timely s.mem r) ∧
      ∀ r ∈ s.mem.submitted, Timely s.mem r := by
  refine h.invariant (I := fun s ↦ (∀ t, (s.loc t).Committed → ∀ r ∈ s.mem.registered,
    Timely s.mem r) ∧ ∀ r ∈ s.mem.submitted, Timely s.mem r) ⟨nofun, nofun⟩ ?_
  rintro s t a m l hr ⟨hcommitted, hsubmitted⟩ hC hP
  have htrans := trans_of_run hr hP
  have hknown := known_of_run hr
  obtain ⟨chain, hlist, -⟩ := listed_of_run hr
  have hkeep : ∀ r ∈ s.mem.registered, Timely s.mem r → Timely m r := fun r hreg ↦
    htrans.timely (hknown.registered r hreg)
  refine ⟨fun u hu ↦ ?_, fun r hmem ↦ ?_⟩
  · have hbefore : (∃ v, (s.loc v).Committed) ∨ s.mem.dsema.dsemaValue = dsemaOrig := by
      rcases eq_or_ne u t with rfl | hut
      · exact (htrans.committed (by simpa using hu)).imp_left fun hc ↦ ⟨u, hc⟩
      · exact .inl ⟨u, by simpa [hut] using hu⟩
    have hold : ∀ r ∈ s.mem.registered, Timely m r := fun r hreg ↦ by
      rcases hbefore with ⟨v, hv⟩ | hval
      · exact hkeep r hreg (hcommitted v hv r hreg)
      · exact hkeep r hreg (timely_of_empty hr hval (hknown.past r hreg))
    rcases htrans.registered_eq with heq | ⟨x, hx, hl, heq⟩
    · simpa only [heq] using hold
    · simp only [heq]
      intro r hmem
      rcases List.mem_append.mp hmem with hmem | hmem
      · exact hold r hmem
      · obtain rfl := List.mem_singleton.mp hmem
        have hval : s.mem.dsema.dsemaValue = dsemaOrig := by
          refine (inTime_exchange hC hx hP).resolve_right fun hnone ↦ ?_
          rcases eq_or_ne u t with rfl | hut
          · exact hl (by simpa using hu)
          · exact hnone u (by simpa [hut] using hu)
        have hlive := hlist.linked.own_live t x (by simp [hx, Loc.role])
        exact htrans.timely (hknown.live x hlive) (timely_of_empty hr hval (past_now _))
  · rcases htrans.submitted_eq with heq | ⟨c, x, hx, heq⟩
    · simp only [heq] at hmem
      exact hkeep r (hlist.submitted_initial.subset hmem) (hsubmitted r hmem)
    · simp only [heq] at hmem
      rcases List.mem_append.mp hmem with hmem | hmem
      · exact hkeep r (hlist.submitted_initial.subset hmem) (hsubmitted r hmem)
      · obtain rfl := List.mem_singleton.mp hmem
        have hreg : s.mem.dsn x ∈ s.mem.registered := by
          rw [hlist.history (t := t) (by simp [hx, Loc.hold]) (by rw [hx]; rfl)]
          refine List.mem_append_right _ (List.mem_map_of_mem ?_)
          exact List.mem_of_head? (hlist.front.hold_eq t x (by simp [hx, Loc.hold]))
        exact hkeep _ hreg (hcommitted t (by simp [hx, Loc.Committed]) _ hreg)

/-- As long as notifications are registered in time, none is submitted early. -/
theorem notEarly_of_inTime {dsnNext : α → Option α} {dsn : α → Notification ν}
    {s : Pool T (Mem α ν) (Loc α)} (h : Pool.Runs step InTime (created dsnNext dsn) s) :
    NotEarly s :=
  (timely_of_run h).2

/-- A notification is registered on a group with a member, which then leaves. -/
theorem notEarly_of_inTime_one :
    ∃ s : Pool Unit (Mem ℕ ℕ) (Loc ℕ), s.mem.submitted = [⟨7, {0}, ⟨false, 0⟩⟩] ∧
      NotEarly s :=
  ⟨((created (fun _ ↦ none) fun _ ↦ ⟨0, ∅, ⟨true, 0⟩⟩).run step InTime
      [((), .enter), ((), .notify 7 100), ((), .go), ((), .go), ((), .go), ((), .go),
        ((), .leave 0), ((), .go), ((), .go), ((), .go), ((), .go)]).get (by decide),
    by decide, notEarly_of_inTime (Pool.runs_get _)⟩

/-- A leave has seen the group empty; before it gets to the list, another thread
enters and registers a notification, which the leave then submits although that
enter is still open. -/
theorem notEarly_fails_late_wake :
    ∃ s : Pool Bool (Mem ℕ ℕ) (Loc ℕ),
      Pool.Reachable step (created (fun _ ↦ none) fun _ ↦ ⟨0, ∅, ⟨true, 0⟩⟩) s ∧
        s.mem.openEnters = {1} ∧ s.mem.submitted = [⟨7, {1}, ⟨false, 1⟩⟩] ∧ ¬ NotEarly s := by
  refine ⟨((created (fun _ ↦ none) fun _ ↦ ⟨0, ∅, ⟨true, 0⟩⟩).run step (fun _ _ _ ↦ True)
      [(true, .enter), (true, .leave 0), (true, .go), (false, .enter), (false, .notify 7 100),
        (false, .go), (false, .go), (false, .go), (false, .go), (true, .go), (true, .go),
        (true, .go)]).get (by decide), Pool.runs_get _, by decide, by decide, fun hnot ↦ ?_⟩
  have hdisj := (hnot ⟨7, {1}, ⟨false, 1⟩⟩ (by decide)).disjoint
  exact absurd hdisj (by decide)

end Runs

end LibDispatch.Group
