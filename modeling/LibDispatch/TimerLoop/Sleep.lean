import LibDispatch.TimerLoop.Steps

/-!
# The manager does not oversleep a timer that has been resumed

A timer that the manager has passed over as suspended has been disarmed, so the thread that
resumes it finds something to do and puts it on its way to the manager queue.  This needs the
timer to be suspended still when it is disarmed.
-/

namespace LibDispatch.TimerLoop

open Interleaving
open Kevent (Clock fireKey)

variable {T S Q : Type*} [DecidableEq S]

/-! ## The lists -/

section Lists

variable {m m' : Mem S Q}

omit [DecidableEq S] in
theorem Listed.of_eq (h : Listed m) (hds : m'.ds = m.ds) (hlist : m'.list = m.list) :
    Listed m' := by
  have htarget : m'.target = m.target := by
    funext ds
    simp only [Mem.target, hds]
  exact ⟨by rw [hlist]; exact h.nodup, by rw [hlist]; exact h.disjoint,
    by rw [hlist, htarget]; exact h.sorted, by rw [hlist, htarget, hds]; exact h.clock⟩

theorem mem_list_fired (c c' : Clock) {ds : S} (now : ℕ) (hmem : ds ∈ m.list c) :
    ((m.fired c ds now).list c').Perm (m.list c') := by
  rcases eq_or_ne c' c with rfl | hne
  · have heq : (m.fired c' ds now).list c' = _ := Function.update_self ..
    rw [heq]
    exact (OrderedList.perm_insertBefore _ ds _).trans (List.perm_cons_erase hmem).symm
  · have heq : (m.fired c ds now).list c' = m.list c' := Function.update_of_ne hne _ _
    exact .of_eq heq

theorem target_fired_of_ne (c : Clock) {ds dsi : S} (now : ℕ) (hne : dsi ≠ ds) :
    (m.fired c ds now).ds dsi = m.ds dsi :=
  Function.update_of_ne hne ..

omit [DecidableEq S] in
theorem clockOf_fire (x : Kevent.Source S) (now : ℕ) :
    Kevent.Registry.clockOf (x.fire now).1 = Kevent.Registry.clockOf x := by
  unfold Kevent.Source.fire
  split <;> rfl

theorem Listed.fired (h : Listed m) {c : Clock} {ds : S} (now : ℕ) (hmem : ds ∈ m.list c)
    (hset : m.target ds ≠ 0) : Listed (m.fired c ds now) := by
  have hmem_iff : ∀ c' dsi, dsi ∈ (m.fired c ds now).list c' ↔ dsi ∈ m.list c' := fun c' _ ↦
    (mem_list_fired c c' now hmem).mem_iff
  have htarget : ∀ dsi, dsi ≠ ds → (m.fired c ds now).target dsi = m.target dsi := by
    intro dsi hne
    simp only [Mem.target, target_fired_of_ne c now hne]
  refine ⟨fun c' ↦ ?_, ?_, fun c' ↦ ?_, ?_⟩
  · exact (mem_list_fired c c' now hmem).nodup_iff.mpr (h.nodup c')
  · intro c₁ c₂ dsi h₁ h₂
    exact h.disjoint c₁ c₂ dsi ((hmem_iff c₁ dsi).mp h₁) ((hmem_iff c₂ dsi).mp h₂)
  · rcases eq_or_ne c' c with rfl | hne
    · have hlist : (m.fired c' ds now).list c' = _ := Function.update_self ..
      rw [hlist]
      have hrest : ∀ b ∈ (m.list c').erase ds, b ≠ ds := by
        rintro b hb rfl
        exact (h.nodup c').not_mem_erase hb
      refine OrderedList.pairwise_insertBefore
        (fun a ↦ fireKey ((m.fired c' ds now).target a)) (fun b hb ↦ ?_) ?_
      · have hnew : (m.fired c' ds now).target ds = ((m.ds ds).fire now).1.dsTimer.target := by
          simp [Mem.fired, Mem.target]
        rw [htarget b (hrest b hb), Kevent.fireKey_lt_iff, hnew, decide_eq_true_iff]
      · refine ((h.sorted c').sublist List.erase_sublist).imp_of_mem fun {a b} ha hb hab ↦ ?_
        rwa [htarget a (hrest a ha), htarget b (hrest b hb)]
    · have hlist : (m.fired c ds now).list c' = m.list c' := Function.update_of_ne hne ..
      rw [hlist]
      have hother : ∀ a ∈ m.list c', a ≠ ds := by
        rintro a ha rfl
        exact hne (h.disjoint c' c a ha hmem)
      refine (h.sorted c').imp_of_mem fun {a b} ha hb hab ↦ ?_
      rwa [htarget a (hother a ha), htarget b (hother b hb)]
  · intro c' dsi hdsi htar
    rw [hmem_iff] at hdsi
    rcases eq_or_ne dsi ds with rfl | hne
    · have hds : (m.fired c dsi now).ds dsi = ((m.ds dsi).fire now).1 := Function.update_self ..
      rw [hds, clockOf_fire]
      exact h.clock c' dsi hdsi hset
    · rw [htarget dsi hne] at htar
      rw [target_fired_of_ne c now hne]
      exact h.clock c' dsi hdsi htar

end Lists

/-! ## The sources -/

structure SourceInv [Fintype T] (set : Setting T Q) (src : S → Source.Mem Q)
    (on : T → S → Source.Loc Q) : Prop where
  accounts : ∀ ds, Source.Accounts (src ds) fun u ↦ on u ds
  steady : ∀ ds, Steady (src ds)
  calm : ∀ u ds, isCalm (on u ds) = true
  attends : ∀ ds, (src ds).Stalled → ∃ u, (on u ds).Attends (src ds)
  taken : ∀ u ds, takenFrom (on u ds) = some set.mgrQ → u = set.mgr
  arms : ∀ u ds, arms (on u ds) → takenFrom (on u ds) = some set.mgrQ
  linked : ∀ ds q, q ∈ (src ds).linked ∨ (∃ u, (on u ds).pushes = some q) →
    q = (src ds).doTargetq ∨ q = set.mgrQ

variable [Fintype T] [DecidableEq T] [DecidableEq Q] {set : Setting T Q} {t : T} {a : Act S Q}
  {m m' : Mem S Q} {l' : Loc S Q} {loc : T → Loc S Q}

omit [Fintype T] [DecidableEq Q] in
theorem on_update (ds : S) : (fun u ↦ (Function.update loc t l' u).on ds) =
    Function.update (fun u ↦ (loc u).on ds) t (l'.on ds) :=
  funext fun u ↦ Function.apply_update (fun _ l ↦ Loc.on l ds) loc t l' u

omit [Fintype T] [DecidableEq Q] in
theorem on_update_of_eq {ds : S} (h : l'.on ds = (loc t).on ds) :
    (fun u ↦ (Function.update loc t l' u).on ds) = fun u ↦ (loc u).on ds :=
  comp_update_of_eq (fun l ↦ Loc.on l ds) h

omit [Fintype T] [DecidableEq Q] in
theorem on_update_of_not {ds dsi : S} {u : T} (hsame : ∀ dsi ≠ ds, l'.on dsi = (loc t).on dsi)
    (h : ¬ (u = t ∧ dsi = ds)) : (Function.update loc t l' u).on dsi = (loc u).on dsi := by
  rcases eq_or_ne u t with rfl | hu
  · rw [Function.update_self]
    exact hsame dsi fun heq ↦ h ⟨rfl, heq⟩
  · rw [Function.update_of_ne hu]

theorem SourceInv.use (h : SourceInv set m.src fun u ds ↦ (loc u).on ds) {ds : S}
    {x : Source.Mem Q}
    (htr : Source.Trans set.toSetting t (m.src ds) ((loc t).on ds) x (l'.on ds))
    {resumes : Prop} (hk : Keeps set.toSetting t resumes (m.src ds) x ((loc t).on ds) (l'.on ds))
    (hother : ∀ dsi ≠ ds, (loc t).on dsi = .idle ∧ l'.on dsi = .idle) :
    SourceInv set (Function.update m.src ds x)
      fun u ds ↦ (Function.update loc t l' u).on ds := by
  have hsame : ∀ dsi ≠ ds, l'.on dsi = (loc t).on dsi := fun dsi hne ↦
    (hother dsi hne).2.trans (hother dsi hne).1.symm
  have hself : (Function.update loc t l' t).on ds = l'.on ds := by rw [Function.update_self]
  have hon {u : T} {dsi : S} (hnot : ¬ (u = t ∧ dsi = ds)) := on_update_of_not hsame hnot
  constructor
  case accounts =>
    intro dsi
    rcases eq_or_ne dsi ds with rfl | hne
    · rw [on_update, Function.update_self]
      exact htr.accounts (h.accounts dsi)
    · rw [on_update_of_eq (hsame dsi hne), Function.update_of_ne hne]
      exact h.accounts dsi
  case steady =>
    intro dsi
    rcases eq_or_ne dsi ds with rfl | hne
    · rw [Function.update_self]
      exact hk.steady
    · rw [Function.update_of_ne hne]
      exact h.steady dsi
  case calm =>
    intro u dsi
    by_cases hthis : u = t ∧ dsi = ds
    · obtain ⟨rfl, rfl⟩ := hthis
      rw [hself]
      exact hk.calm
    · rw [hon hthis]
      exact h.calm u dsi
  case attends =>
    intro dsi hst
    rcases eq_or_ne dsi ds with rfl | hne
    · rw [Function.update_self] at hst ⊢
      have hacc := h.accounts dsi
      have hcalm := h.calm t dsi
      have hdisarm : (loc t).on dsi ≠ .nextFireDisarm := fun hl ↦ by
        rw [hl] at hcalm
        cases hcalm
      rcases htr.attends hst (hacc.share_le_suspend t) hacc.running_eq_zero
        fun hl ↦ absurd hl hdisarm with hl | ⟨hbefore, hnot, hkeep⟩
      · exact ⟨t, by rwa [hself]⟩
      · obtain ⟨u, hu⟩ := h.attends dsi hbefore
        have hut : ¬ (u = t ∧ dsi = dsi) := by
          rintro ⟨rfl, -⟩
          exact hnot hu
        exact ⟨u, by rw [hon hut]; exact hkeep _ hu⟩
    · rw [Function.update_of_ne hne] at hst ⊢
      obtain ⟨u, hu⟩ := h.attends dsi hst
      exact ⟨u, by rwa [hon fun hthis ↦ hne hthis.2]⟩
  case taken =>
    intro u dsi hu
    by_cases hthis : u = t ∧ dsi = ds
    · obtain ⟨rfl, rfl⟩ := hthis
      rw [hself] at hu
      rcases hk.taken _ hu with hbefore | hmgr
      · exact h.taken u dsi hbefore
      · exact hmgr rfl
    · rw [hon hthis] at hu
      exact h.taken u dsi hu
  case arms =>
    intro u dsi hu
    by_cases hthis : u = t ∧ dsi = ds
    · obtain ⟨rfl, rfl⟩ := hthis
      rw [hself] at hu ⊢
      exact hk.arms hu
    · rw [hon hthis] at hu ⊢
      exact h.arms u dsi hu
  case linked =>
    intro dsi q hq
    rcases eq_or_ne dsi ds with rfl | hne
    · rw [Function.update_self] at hq ⊢
      rw [hk.targetq]
      rcases hq with hq | ⟨u, hu⟩
      · rcases htr.mem_linked hq with hq | ht
        · exact h.linked dsi q (.inl hq)
        · exact h.linked dsi q (.inr ⟨t, ht⟩)
      · rcases eq_or_ne u t with rfl | hut
        · rw [hself] at hu
          rcases htr.pushes hu with ht | hfresh
          · exact h.linked dsi q (.inr ⟨u, ht⟩)
          · rwa [hk.targetq] at hfresh
        · rw [hon fun hthis ↦ hut hthis.1] at hu
          exact h.linked dsi q (.inr ⟨u, hu⟩)
    · rw [Function.update_of_ne hne] at hq ⊢
      refine h.linked dsi q (hq.imp_right ?_)
      rintro ⟨u, hu⟩
      rw [hon fun hthis ↦ hne hthis.2] at hu
      exact ⟨u, hu⟩

omit [DecidableEq T] [DecidableEq Q] in
theorem SourceInv.disarm {on : T → S → Source.Loc Q} {src : S → Source.Mem Q}
    (h : SourceInv set src on) {ds : S} (hsus : 2 ≤ (src ds).doSuspendCnt) :
    SourceInv set (Function.update src ds { src ds with dsIsArmed := false }) on := by
  refine ⟨fun dsi ↦ ?_, fun dsi ↦ ?_, h.calm, fun dsi hst ↦ ?_, h.taken, h.arms,
    fun dsi q hq ↦ ?_⟩
  · rcases eq_or_ne dsi ds with rfl | hne
    · rw [Function.update_self]
      have hacc := h.accounts dsi
      exact ⟨hacc.1, hacc.2, hacc.3, hacc.4, hacc.5, hacc.6⟩
    · rw [Function.update_of_ne hne]
      exact h.accounts dsi
  · rcases eq_or_ne dsi ds with rfl | hne
    · rw [Function.update_self]
      have hm := h.steady dsi
      exact ⟨hm.1, hm.2, hm.3, hm.4, hm.5, hm.6⟩
    · rw [Function.update_of_ne hne]
      exact h.steady dsi
  · rcases eq_or_ne dsi ds with rfl | hne
    · rw [Function.update_self] at hst
      have hzero : (src dsi).doSuspendCnt = 0 := hst.1
      omega
    · rw [Function.update_of_ne hne] at hst ⊢
      exact h.attends dsi hst
  · rcases eq_or_ne dsi ds with rfl | hne
    · rw [Function.update_self] at hq ⊢
      exact h.linked dsi q hq
    · rw [Function.update_of_ne hne] at hq ⊢
      exact h.linked dsi q hq

theorem SourceInv.step (h : SourceInv set m.src fun u ds ↦ (loc u).on ds)
    (he : Effect set t a m m' (loc t) l')
    (hsus : ∀ c ds rest p, loc t = ⟨.disarm c ds rest p, none⟩ →
      2 ≤ (m.src ds).doSuspendCnt) :
    SourceInv set m'.src fun u ds ↦ (Function.update loc t l' u).on ds := by
  cases he with
  | use ds x htr hk hsrc hother =>
      rw [hsrc]
      exact h.use htr (hk (h.steady ds) (h.calm t ds)) hother
  | quiet hsrc hidle =>
      rw [hsrc]
      have hon : (fun u ds ↦ (Function.update loc t l' u).on ds) = fun u ds ↦ (loc u).on ds := by
        funext u ds
        exact congrFun (on_update_of_eq ((hidle ds).2.trans (hidle ds).1.symm)) u
      rwa [hon]
  | disarm c ds rest p hl hsrc hidle =>
      rw [hsrc]
      have hon : (fun u ds ↦ (Function.update loc t l' u).on ds) = fun u ds ↦ (loc u).on ds := by
        funext u dsi
        refine congrFun (on_update_of_eq ((hidle dsi).trans ?_)) u
        rw [hl]
        rfl
      rw [hon]
      exact h.disarm (hsus c ds rest p hl)

/-! ## The search for the next fire -/

/-- Every timer of the list of `c` that is set has been disarmed, or the plan is to wait no
longer than until it is due. -/
def Passed (set : Setting T Q) (m : Mem S Q) (p : Plan) (c : Clock) : Prop :=
  ∀ ds ∈ m.list c, m.target ds ≠ 0 → (m.src ds).dsIsArmed = false ∨
    ∃ now, p.now c = some now ∧ now < m.target ds ∧ p.delta ≤ remaining set (m.ds ds) now

/-- The timers in front of `rest` have been disarmed. -/
def Skipped (m : Mem S Q) (c : Clock) (rest : List S) : Prop :=
  ∃ front, m.list c = front ++ rest ∧ ∀ ds ∈ front, (m.src ds).dsIsArmed = false

def Scanned (set : Setting T Q) (m : Mem S Q) : Place S → Prop
  | .scan c rest p => Skipped m c rest ∧ (c = .mach → Passed set m p .wall)
  | .disarm c ds rest p =>
      (Skipped m c (ds :: rest) ∧ (c = .mach → Passed set m p .wall)) ∧
        0 < (m.src ds).suspensions
  | .chosen c ds p =>
      ((∃ rest, Skipped m c (ds :: rest)) ∧ (c = .mach → Passed set m p .wall)) ∧ m.target ds ≠ 0
  | .wait p => ∀ c, Passed set m p c
  | .blocked p timeout => (∀ c, Passed set m p c) ∧ ∃ select, timeout = p.timeout select
  | _ => True

/-- The manager looks for the next fire or waits. -/
def Place.scans : Place S → Bool
  | .scan .. | .disarm .. | .chosen .. | .wait _ | .blocked .. => true
  | _ => false

section Scan

omit [DecidableEq S] [Fintype T] [DecidableEq T] [DecidableEq Q]

variable {c : Clock} {p : Plan} {ds : S} {rest : List S} {place : Place S}

theorem Scanned.of_not_scans (h : place.scans = false) : Scanned set m place := by
  cases place <;> trivial

theorem Scanned.mono (h : Scanned set m place) (hds : m'.ds = m.ds) (hlist : m'.list = m.list)
    (harmed : ∀ ds, (m.src ds).dsIsArmed = false → (m'.src ds).dsIsArmed = false)
    (hsus : ∀ c ds rest p, place = .disarm c ds rest p → 0 < (m.src ds).suspensions →
      0 < (m'.src ds).suspensions) : Scanned set m' place := by
  have htarget : m'.target = m.target := by
    funext ds
    simp only [Mem.target, hds]
  have hpassed : ∀ {p c}, Passed set m p c → Passed set m' p c := by
    intro p c hp ds hmem hset
    rw [hlist] at hmem
    rw [htarget] at hset ⊢
    rw [hds]
    exact (hp ds hmem hset).imp_left (harmed ds)
  have hskipped : ∀ {c rest}, Skipped m c rest → Skipped m' c rest := by
    rintro c rest ⟨front, heq, hfront⟩
    exact ⟨front, by rw [hlist, heq], fun ds hmem ↦ harmed ds (hfront ds hmem)⟩
  cases place with
  | scan c rest p => exact ⟨hskipped h.1, fun hc ↦ hpassed (h.2 hc)⟩
  | disarm c ds rest p =>
      exact ⟨⟨hskipped h.1.1, fun hc ↦ hpassed (h.1.2 hc)⟩, hsus c ds rest p rfl h.2⟩
  | chosen c ds p =>
      obtain ⟨⟨⟨rest, hrest⟩, hwall⟩, hset⟩ := h
      exact ⟨⟨⟨rest, hskipped hrest⟩, fun hc ↦ hpassed (hwall hc)⟩, by rwa [htarget]⟩
  | wait p => exact fun c ↦ hpassed (h c)
  | blocked p timeout => exact ⟨fun c ↦ hpassed (h.1 c), h.2⟩
  | _ => trivial

theorem Listed.key_le (h : Listed m) {front : List S} (hlist : m.list c = front ++ ds :: rest)
    {dsi : S} (hmem : dsi ∈ m.list c) :
    dsi ∈ front ∨ fireKey (m.target ds) ≤ fireKey (m.target dsi) := by
  have hsorted := h.sorted c
  rw [hlist] at hmem hsorted
  rcases List.mem_append.mp hmem with hfront | hback
  · exact .inl hfront
  · rcases List.mem_cons.mp hback with rfl | hrest
    · exact .inr le_rfl
    · exact .inr ((List.pairwise_cons.mp (List.pairwise_append.mp hsorted).2.1).1 dsi hrest)

theorem Skipped.passed_of_nil (h : Skipped m c []) : Passed set m p c := by
  obtain ⟨front, hlist, hfront⟩ := h
  rw [List.append_nil] at hlist
  exact fun ds hmem _ ↦ .inl (hfront ds (hlist ▸ hmem))

theorem Skipped.passed_of_unset (h : Skipped m c (ds :: rest)) (hl : Listed m)
    (hunset : m.target ds = 0) : Passed set m p c := by
  obtain ⟨front, hlist, hfront⟩ := h
  intro dsi hmem hset
  rcases hl.key_le hlist hmem with hmem | hle
  · exact .inl (hfront dsi hmem)
  · rw [hunset, Kevent.fireKey_le_iff] at hle
    rcases hle with hzero | ⟨hne, -⟩
    · exact (hset hzero).elim
    · exact (hne rfl).elim

theorem now_read (p : Plan) (now d : ℕ) (c : Clock) : (p.read now d c).now c = some now := by
  cases c <;> rfl

theorem now_read_of_ne {c' : Clock} (p : Plan) (now d : ℕ) (h : c' ≠ c) :
    (p.read now d c).now c' = p.now c' := by
  cases c <;> cases c' <;> first | rfl | exact (h rfl).elim

theorem delta_read (p : Plan) (now d : ℕ) (c : Clock) :
    (p.read now d c).delta = min p.delta d := by
  cases c <;> rfl

theorem remaining_mono {x y : Kevent.Source S} {now : ℕ}
    (hclock : Kevent.Registry.clockOf x = Kevent.Registry.clockOf y)
    (hle : x.dsTimer.target ≤ y.dsTimer.target) :
    remaining set x now ≤ remaining set y now := by
  have hwall : x.dsTimer.wallClock = y.dsTimer.wallClock := by
    unfold Kevent.Registry.clockOf at hclock
    split at hclock <;> split at hclock <;> simp_all
  have hsub : x.dsTimer.target - now ≤ y.dsTimer.target - now := Nat.sub_le_sub_right hle now
  unfold remaining
  rw [hwall]
  split
  · exact hsub
  · exact set.mach2nano_mono hsub

theorem Skipped.passed_of_chosen {now : ℕ} (h : Skipped m c (ds :: rest)) (hl : Listed m)
    (hset : m.target ds ≠ 0) (hnow : now < m.target ds) :
    Passed set m (p.read now (remaining set (m.ds ds) now) c) c := by
  obtain ⟨front, hlist, hfront⟩ := h
  have hself : ds ∈ m.list c := by simp [hlist]
  intro dsi hmem hset'
  rcases hl.key_le hlist hmem with hmem' | hle
  · exact .inl (hfront dsi hmem')
  · obtain ⟨-, hle⟩ := (Kevent.fireKey_le_iff.mp hle).resolve_left hset'
    refine .inr ⟨now, now_read .., by omega, ?_⟩
    rw [delta_read]
    refine (min_le_right _ _).trans (remaining_mono ?_ hle)
    rw [hl.clock c ds hself hset, hl.clock c dsi hmem hset']

theorem Passed.read {c' : Clock} {now d : ℕ} (h : Passed set m p c') (hne : c' ≠ c) :
    Passed set m (p.read now d c) c' := by
  intro ds hmem hset
  refine (h ds hmem hset).imp_right fun ⟨now', hnow, hlt, hle⟩ ↦ ⟨now', ?_, hlt, ?_⟩
  · rwa [now_read_of_ne p now d hne]
  · rw [delta_read]
    exact (min_le_left _ _).trans hle

theorem scanned_nextList (h : Passed set m p c) (hwall : c = .mach → Passed set m p .wall) :
    Scanned set m (nextList m p c) := by
  cases c with
  | wall => exact ⟨⟨[], rfl, nofun⟩, fun _ ↦ h⟩
  | mach =>
      intro c
      cases c with
      | wall => exact hwall rfl
      | mach => exact h

end Scan

/-! ## Whole runs -/

/-- The act resumes the timer that the manager is about to disarm. -/
def disturbs : Act S Q → Place S → Bool
  | .resume ds, .disarm _ dsi _ _ => ds = dsi
  | _, _ => false

/-- No timer is resumed between the moment when the manager finds it suspended and the store
by which it disarms it. -/
def Undisturbed (set : Setting T Q) (s : Pool T (Mem S Q) (Loc S Q)) (_ : T) (a : Act S Q) :
    Prop := disturbs a (s.loc set.mgr).place = false

instance (s : Pool T (Mem S Q) (Loc S Q)) (t : T) (a : Act S Q) :
    Decidable (Undisturbed set s t a) :=
  inferInstanceAs (Decidable (_ = false))

structure Inv (set : Setting T Q) (m : Mem S Q) (loc : T → Loc S Q) : Prop where
  sources : SourceInv set m.src fun u ds ↦ (loc u).on ds
  outside : ∀ u ≠ set.mgr, (loc u).place = .outside
  listed : Listed m
  alone : (loc set.mgr).place.scans → (loc set.mgr).work = none
  scanned : Scanned set m (loc set.mgr).place

omit [Fintype T] [DecidableEq T] in
theorem Trans.outside {l : Loc S Q} (h : Trans set t a m l m' l') (hl : l.place = .outside) :
    m'.ds = m.ds ∧ m'.list = m.list ∧ l'.place = .outside := by
  cases h with
  | source | suspend | resume | invoke => exact ⟨rfl, rfl, hl⟩
  | _ => cases hl

omit [Fintype T] [DecidableEq T] in
theorem Trans.listed {l : Loc S Q} (h : Trans set t a m l m' l') (hl : Listed m) : Listed m' := by
  cases h with
  | fire hmem hset =>
      exact (hl.fired _ hmem hset).of_eq rfl rfl
  | _ => exact hl.of_eq rfl rfl

omit [Fintype T] [DecidableEq T] in
theorem Effect.suspensions {l : Loc S Q} (he : Effect set t a m m' l l') {ds : S}
    (hm : Steady (m.src ds)) (hcalm : isCalm (l.on ds) = true) (ha : a ≠ .resume ds)
    (hpos : 0 < (m.src ds).suspensions) : 0 < (m'.src ds).suspensions := by
  cases he with
  | use dsi x htr hk hsrc hother =>
      rw [hsrc]
      rcases eq_or_ne ds dsi with rfl | hne
      · rw [Function.update_self]
        have hle := (hk hm hcalm).suspensions.resolve_left ha
        omega
      · rwa [Function.update_of_ne hne]
  | quiet hsrc => rwa [hsrc]
  | disarm c dsi rest p hl hsrc =>
      rw [hsrc]
      rcases eq_or_ne ds dsi with rfl | hne
      · rwa [Function.update_self]
      · rwa [Function.update_of_ne hne]

omit [DecidableEq T] in
theorem Effect.armed (he : Effect set t a m m' (loc t) l')
    (h : SourceInv set m.src fun u ds ↦ (loc u).on ds) (ht : t ≠ set.mgr) (ds : S)
    (harmed : (m.src ds).dsIsArmed = false) : (m'.src ds).dsIsArmed = false := by
  cases he with
  | use dsi x htr hk hsrc hother =>
      rw [hsrc]
      rcases eq_or_ne ds dsi with rfl | hne
      · rw [Function.update_self]
        rcases (hk (h.steady ds) (h.calm t ds)).armed with heq | harms
        · rwa [heq]
        · exact (ht (h.taken t ds (h.arms t ds harms))).elim
      · rwa [Function.update_of_ne hne]
  | quiet hsrc => rwa [hsrc]
  | disarm c dsi rest p hl hsrc =>
      rw [hsrc]
      rcases eq_or_ne ds dsi with rfl | hne
      · rw [Function.update_self]
      · rwa [Function.update_of_ne hne]

omit [DecidableEq S] [DecidableEq T] [DecidableEq Q] in
theorem SourceInv.suspensions_pos {src : S → Source.Mem Q} {on : T → S → Source.Loc Q}
    (h : SourceInv set src on) {ds : S} (hsus : 2 ≤ (src ds).doSuspendCnt) :
    0 < (src ds).suspensions := by
  have hacc := h.accounts ds
  have hsum := hacc.suspend
  have hlock := hacc.lock_le
  have hnone : ∑ u, (on u ds).suspends = 0 := Finset.sum_eq_zero fun u _ ↦ by
    have hcalm := h.calm u ds
    revert hcalm
    cases on u ds <;> simp [isCalm, Source.Loc.suspends]
  rw [Finset.sum_add_distrib, ← Finset.mul_sum, hnone, (h.steady ds).timers] at hsum
  push_cast at hsum
  omega

omit [DecidableEq S] [DecidableEq T] [DecidableEq Q] in
theorem SourceInv.two_le {src : S → Source.Mem Q} {on : T → S → Source.Loc Q}
    (h : SourceInv set src on) {ds : S} (t : T) (hpos : 0 < (src ds).suspensions) :
    2 ≤ (src ds).doSuspendCnt := by
  have hshare := (h.accounts ds).share_le_suspend t
  have hlock := (on t ds).lock_nonneg
  have hsus := (on t ds).suspends_nonneg
  omega

omit [DecidableEq T] in
theorem Trans.scanned {l : Loc S Q} (h : Trans set t a m l m' l')
    (hsrc : SourceInv set m.src fun u ds ↦ (loc u).on ds) (hl : Listed m)
    (halone : l.place.scans → l.work = none) (hs : Scanned set m l.place) :
    (l'.place.scans → l'.work = none) ∧ Scanned set m' l'.place := by
  cases h with
  | @source place =>
      have hno : place.scans = false := by
        by_contra hscans
        cases halone (by simpa using hscans)
      exact ⟨fun hscans ↦ absurd (hno.symm.trans hscans) (by decide), .of_not_scans hno⟩
  | suspend | resume | invoke | invokeMgr | loop | clock | poll | wake | fire =>
      exact ⟨nofun, trivial⟩
  | @timersDone c now =>
      refine ⟨fun _ ↦ rfl, ?_⟩
      cases c with
      | wall => trivial
      | mach => exact ⟨⟨[], rfl, nofun⟩, nofun⟩
  | scanEnd => exact ⟨fun _ ↦ rfl, scanned_nextList hs.1.passed_of_nil hs.2⟩
  | scanUnset hunset => exact ⟨fun _ ↦ rfl, scanned_nextList (hs.1.passed_of_unset hl hunset) hs.2⟩
  | scanSuspended hsus => exact ⟨fun _ ↦ rfl, hs, hsrc.suspensions_pos hsus⟩
  | scanChosen hset => exact ⟨fun _ ↦ rfl, ⟨⟨_, hs.1⟩, hs.2⟩, hset⟩
  | @disarm c ds rest p =>
      refine ⟨fun _ ↦ rfl, ?_⟩
      have harmed : ∀ dsi, (m.src dsi).dsIsArmed = false →
          ((m.disarm ds).src dsi).dsIsArmed = false := by
        intro dsi hdsi
        rcases eq_or_ne dsi ds with rfl | hne
        · simp [Mem.disarm, Mem.setSrc]
        · simpa [Mem.disarm, Mem.setSrc, hne] using hdsi
      have hbefore : Scanned set m (.scan c (ds :: rest) p) := hs.1
      have hkept : Scanned set (m.disarm ds) (.scan c (ds :: rest) p) :=
        hbefore.mono rfl rfl harmed nofun
      obtain ⟨⟨front, hlist, hfront⟩, hwall⟩ := hkept
      refine ⟨⟨front ++ [ds], by simp [hlist], fun dsi hmem ↦ ?_⟩, hwall⟩
      rcases List.mem_append.mp hmem with hmem | hmem
      · exact hfront dsi hmem
      · rw [List.mem_singleton.mp hmem]
        simp [Mem.disarm, Mem.setSrc]
  | chosen hnow =>
      obtain ⟨⟨⟨rest, hrest⟩, hwall⟩, hset⟩ := hs
      refine ⟨fun _ ↦ rfl, scanned_nextList (hrest.passed_of_chosen hl hset hnow) fun hc ↦ ?_⟩
      exact (hwall hc).read (by rw [hc]; decide)
  | @block p select => exact ⟨fun _ ↦ rfl, hs, select, rfl⟩

theorem Inv.step (h : Inv set m loc) (ht : Trans set t a m (loc t) m' l')
    (hC : disturbs a (loc set.mgr).place = false) : Inv set m' (Function.update loc t l') := by
  have he := ht.effect
  have hsources : SourceInv set m'.src fun u ds ↦ (Function.update loc t l' u).on ds := by
    refine h.sources.step he fun c ds rest p hl ↦ ?_
    have hmgr : t = set.mgr := by
      by_contra hne
      have hout := h.outside t hne
      rw [hl] at hout
      cases hout
    have hs := h.scanned
    rw [← hmgr, hl] at hs
    exact h.sources.two_le t hs.2
  have hlisted := ht.listed h.listed
  rcases eq_or_ne t set.mgr with rfl | hne
  · obtain ⟨halone, hscanned⟩ := ht.scanned h.sources h.listed h.alone h.scanned
    refine ⟨hsources, fun u hu ↦ ?_, hlisted, ?_, ?_⟩
    · rw [Function.update_of_ne hu]
      exact h.outside u hu
    · rwa [Function.update_self]
    · rwa [Function.update_self]
  · obtain ⟨hds, hlist, hplace⟩ := ht.outside (h.outside t hne)
    refine ⟨hsources, fun u hu ↦ ?_, hlisted, ?_, ?_⟩
    · rcases eq_or_ne u t with rfl | hut
      · rwa [Function.update_self]
      · rw [Function.update_of_ne hut]
        exact h.outside u hu
    · rw [Function.update_of_ne hne.symm]
      exact h.alone
    · rw [Function.update_of_ne hne.symm]
      refine h.scanned.mono hds hlist (he.armed h.sources hne) fun c ds rest p hp hpos ↦ ?_
      refine he.suspensions (h.sources.steady ds) (h.sources.calm t ds) ?_ hpos
      rintro rfl
      rw [hp] at hC
      simp [disturbs] at hC

omit [DecidableEq S] [DecidableEq T] [DecidableEq Q] in
theorem Installed.accounts {x : Source.Mem Q} (h : Installed x) :
    Source.Accounts x fun _ : T ↦ (.idle : Source.Loc Q) := by
  obtain ⟨-, hrun, hsus, hrefs, -, hlinked, -, -, -, -, htimers, -⟩ := h
  constructor <;> simp [Source.Loc.bit, Source.Loc.lock, Source.Loc.suspends, Source.Loc.refs,
    hrun, hsus, hrefs, hlinked, htimers]

omit [DecidableEq S] [DecidableEq Q] in
theorem Installed.not_stalled {x : Source.Mem Q} (h : Installed x) : ¬ x.Stalled := by
  rintro ⟨hcnt, hwork⟩
  obtain ⟨harmed, hpending⟩ := h.idle (by have := h.suspend; omega)
  simp [Source.Mem.Work, Source.Mem.finds, Source.Mem.delivers, Source.Mem.rearms, h.items,
    h.installed, h.canceled, h.xrefs, harmed, hpending] at hwork

omit [DecidableEq T] [DecidableEq Q] in
theorem Start.inv {s : Pool T (Mem S Q) (Loc S Q)} (h : Start set s) : Inv set s.mem s.loc := by
  have hon : (fun u ds ↦ (s.loc u).on ds) = fun _ _ ↦ (.idle : Source.Loc Q) := by
    funext u ds
    rcases eq_or_ne u set.mgr with rfl | hu
    · rw [h.mgr]
      rfl
    · rw [h.others u hu]
      rfl
  refine ⟨?_, fun u hu ↦ by rw [h.others u hu], h.listed, fun hs ↦ ?_, ?_⟩
  · rw [hon]
    refine ⟨fun ds ↦ (h.installed ds).accounts, fun ds ↦ ?_, fun _ _ ↦ rfl,
      fun ds hst ↦ ((h.installed ds).not_stalled hst).elim, nofun, nofun, fun ds q hq ↦ ?_⟩
    · have hi := h.installed ds
      exact ⟨hi.items, hi.xrefs, hi.installed, hi.canceled, hi.needsRearm, hi.timers⟩
    · rw [(h.installed ds).linked] at hq
      rcases hq with hq | ⟨_, hq⟩ <;> cases hq
  · rw [h.mgr]
  · rw [h.mgr]
    trivial

theorem inv_of_run {s₀ s : Pool T (Mem S Q) (Loc S Q)} (h₀ : Start set s₀)
    (h : Pool.Runs (step set) (Undisturbed set) s₀ s) : Inv set s.mem s.loc := by
  refine h.invariant (I := fun s ↦ Inv set s.mem s.loc) h₀.inv ?_
  intro s t a m l _ hI hC hP
  exact hI.step (trans_of_step hP) hC

omit [DecidableEq S] [DecidableEq T] [DecidableEq Q] in
theorem SourceInv.on_its_way {src : S → Source.Mem Q} {on : T → S → Source.Loc Q}
    (h : SourceInv set src on) {ds : S} (hsus : (src ds).doSuspendCnt < 2)
    (harmed : (src ds).dsIsArmed = false) :
    (∃ q ∈ (src ds).linked, q = (src ds).doTargetq ∨ q = set.mgrQ) ∨
      ∃ u, (on u ds).invoking ∨ on u ds = .invokeRunning ∨ ∃ w k, on u ds = .wakeup w k := by
  have hm := h.steady ds
  have hacc := h.accounts ds
  have hwork : (src ds).Work := by
    refine .inl ?_
    simp [Source.Mem.finds, Source.Mem.delivers, Source.Mem.rearms, hm.installed, hm.canceled,
      hm.xrefs, hm.needsRearm, harmed]
  rcases Nat.eq_zero_or_pos (src ds).doSuspendCnt with hzero | hpos
  · obtain ⟨u, hu⟩ := h.attends ds ⟨hzero, hwork⟩
    have hcalm := h.calm u ds
    refine .inr ⟨u, .inr ?_⟩
    revert hu hcalm
    cases on u ds <;> simp [Source.Loc.Attends, isCalm]
  · have hsum := hacc.suspend
    rw [Finset.sum_add_distrib, ← Finset.mul_sum] at hsum
    have hsusp : 0 ≤ ∑ u, (on u ds).suspends :=
      Finset.sum_nonneg fun u _ ↦ (on u ds).suspends_nonneg
    by_cases hlinked : (src ds).linked = []
    · rw [hlinked, List.length_nil] at hsum
      have hlock : ∑ u, (on u ds).lock ≠ 0 := by
        have hle := hacc.lock_le
        have hnonneg : 0 ≤ ∑ u, (on u ds).lock := Finset.sum_nonneg fun u _ ↦ (on u ds).lock_nonneg
        omega
      obtain ⟨u, -, hu⟩ := Finset.exists_ne_zero_of_sum_ne_zero hlock
      refine .inr ⟨u, ?_⟩
      rcases (on u ds).lock_eq with ⟨-, hlinking | hinvoking⟩ | ⟨hno, -⟩
      · refine .inr (.inr ?_)
        revert hlinking
        cases on u ds <;> simp [Source.Loc.linking]
      · exact .inl hinvoking
      · exact (hu hno).elim
    · obtain ⟨q, hq⟩ := List.exists_mem_of_ne_nil _ hlinked
      exact .inl ⟨q, hq, h.linked ds q (.inl hq)⟩

/-- While the manager is blocked and no other thread is in the middle of a wakeup, a timer that
is set and not suspended is not due before the manager wakes up, or it is on a list on its way
to the manager queue, or a worker has it in its hands. -/
theorem not_overslept {s₀ s : Pool T (Mem S Q) (Loc S Q)} (h₀ : Start set s₀)
    (h : Pool.Runs (step set) (Undisturbed set) s₀ s) {p : Plan} {timeout : Option ℕ}
    (hblocked : (s.loc set.mgr).place = .blocked p timeout)
    (hquiet : ∀ u ds w k, (s.loc u).on ds ≠ .wakeup w k) {c : Clock} {ds : S}
    (hmem : ds ∈ s.mem.list c) (hset : s.mem.target ds ≠ 0)
    (hsus : (s.mem.src ds).suspended = false) :
    (∃ now, p.now c = some now ∧ now < s.mem.target ds ∧
      timeout.elim (foreverNsec < remaining set (s.mem.ds ds) now)
        (· ≤ remaining set (s.mem.ds ds) now)) ∨
    (∃ q ∈ (s.mem.src ds).linked, q = (s.mem.src ds).doTargetq ∨ q = set.mgrQ) ∨
    ∃ u ≠ set.mgr, ((s.loc u).on ds).invoking ∨ (s.loc u).on ds = .invokeRunning := by
  have hinv := inv_of_run h₀ h
  have hscanned := hinv.scanned
  have halone := hinv.alone
  rw [hblocked] at hscanned halone
  obtain ⟨hpassed, select, rfl⟩ := hscanned
  rcases hpassed c ds hmem hset with harmed | ⟨now, hnow, hlt, hle⟩
  · have hcnt : (s.mem.src ds).doSuspendCnt < 2 := by
      rw [← not_le, ← Queue.suspended_iff, Bool.not_eq_true]
      exact hsus
    rcases hinv.sources.on_its_way hcnt harmed with hlinked | ⟨u, hu⟩
    · exact .inr (.inl hlinked)
    · refine .inr (.inr ⟨u, ?_, ?_⟩)
      · rintro rfl
        have hidle : (s.loc set.mgr).on ds = .idle := by
          unfold Loc.on
          rw [halone rfl]
        simp [hidle, Source.Loc.invoking] at hu
      · rcases hu with hu | hu | ⟨w, k, hu⟩
        · exact .inl hu
        · exact .inr hu
        · exact (hquiet u ds w k hu).elim
  · refine .inl ⟨now, hnow, hlt, ?_⟩
    unfold Plan.timeout
    split
    · simp only [Option.elim_none]
      omega
    · simp only [Option.elim_some]
      split <;> omega

/-! ## A timer that is resumed -/

def timerAt100 : Kevent.Source (Fin 1) :=
  { dsType := .timer, dsDkev := some (.timer .mach), dsIsInstalled := true
    dsPendingDataMask := 0, dsIdentHack := 1, dsTimer := ⟨100, 100, 50, 0, 0⟩, fires := 0 }

def suspendedOnce : Source.Mem (Fin 2) :=
  { items := [], dqRunning := 0, doSuspendCnt := 2, doTargetq := 0, doRefCnt := 2, doXrefCnt := 1
    linked := [], dsIsInstalled := true, dsCanceled := false, dsDkev := true, dkSources := true
    dsHandlerFunc := true, dsHandlerIsBlock := false, dsCancelHandler := none, dsPendingData := 0
    dsPendingDataMask := 0, dsData := 0, dsNeedsRearm := true, dsIsArmed := true, installs := 0
    cancelCalls := [], suspensions := 1, timers := 0, disposed := false, merges := []
    latchedAt := 0, deliveries := [] }

def twoThreads : Setting (Fin 2) (Fin 2) :=
  { mgr := 1, mgrQ := 1, dsIsLevel := false, dsIsAdder := true, mach2nano := id
    mach2nano_mono := monotone_id }

def suspendedTimer : Pool (Fin 2) (Mem (Fin 1) (Fin 2)) (Loc (Fin 1) (Fin 2)) where
  mem :=
    { ds := fun _ ↦ timerAt100
      list := fun c ↦ if c = .mach then [0] else []
      src := fun _ ↦ suspendedOnce }
  loc := fun t ↦ ⟨if t = 1 then .drain else .outside, none⟩

theorem start_suspendedTimer : Start twoThreads suspendedTimer := by
  refine ⟨rfl, by decide, fun _ ↦ ?_, ?_⟩
  · change Installed suspendedOnce
    constructor <;> decide
  · constructor
    · intro c
      cases c <;> decide
    · intro c c' ds
      cases c <;> cases c' <;> simp [suspendedTimer]
    · intro c
      cases c <;> simp [suspendedTimer]
    · intro c
      cases c
      · exact nofun
      · intro ds _ _
        change Kevent.Registry.clockOf timerAt100 = .mach
        decide

/-- The manager runs the timers at 0 and gets to the timer on the second list. -/
def scanTrace : List (Fin 2 × Act (Fin 1) (Fin 2)) :=
  [(1, .loop), (1, .clock 0), (1, .go), (1, .clock 0), (1, .go), (1, .go), (1, .go)]

/-- The timer is resumed after it has been disarmed: it is on its way to the manager. -/
def resumedTimer : Pool (Fin 2) (Mem (Fin 1) (Fin 2)) (Loc (Fin 1) (Fin 2)) :=
  (suspendedTimer.run (step twoThreads) (Undisturbed twoThreads)
    (scanTrace ++ [(1, Act.go), (0, Act.resume 0), (1, Act.go), (1, Act.block false)] ++
      List.replicate 11 (0, Act.go))).get (by decide)

theorem not_overslept_resumed :
    (∃ q ∈ (resumedTimer.mem.src 0).linked, q = (resumedTimer.mem.src 0).doTargetq ∨ q = 1) ∨
      ∃ u ≠ 1, ((resumedTimer.loc u).on 0).invoking ∨
        (resumedTimer.loc u).on 0 = .invokeRunning := by
  have hrun : Pool.Runs (step twoThreads) (Undisturbed twoThreads) suspendedTimer resumedTimer :=
    Pool.runs_get _
  have hidle : ∀ u ds, (resumedTimer.loc u).on ds = .idle := by decide
  have hblocked : (resumedTimer.loc 1).place = .blocked {} none := by decide
  have hmem : 0 ∈ resumedTimer.mem.list .mach := by decide
  refine (not_overslept start_suspendedTimer hrun hblocked (fun u ds w k ↦ ?_) hmem (by decide)
    (by decide)).resolve_left ?_
  · rw [hidle]
    exact nofun
  · rintro ⟨now, hnow, -⟩
    cases hnow

/-- The timer is resumed between the test of its suspend count and the store to
`ds_is_armed`: the thread that resumes it finds it armed, and the manager has passed it over. -/
def oversleptTimer : Pool (Fin 2) (Mem (Fin 1) (Fin 2)) (Loc (Fin 1) (Fin 2)) :=
  (suspendedTimer.run (step twoThreads) (fun _ _ _ ↦ True)
    (scanTrace ++ [(0, Act.resume 0)] ++ List.replicate 8 (0, Act.go) ++
      [(1, Act.go), (1, Act.go), (1, Act.block false)])).get (by decide)

/-- The manager is blocked without a timeout, no thread is at work, and a timer that is due at
100 is neither suspended nor on any list. -/
theorem overslept_after_resume : Start twoThreads suspendedTimer ∧
    Pool.Reachable (step twoThreads) suspendedTimer oversleptTimer ∧
    (oversleptTimer.loc 1).place = .blocked {} none ∧ (∀ u, (oversleptTimer.loc u).work = none) ∧
    0 ∈ oversleptTimer.mem.list .mach ∧ oversleptTimer.mem.target 0 = 100 ∧
    (oversleptTimer.mem.src 0).doSuspendCnt = 0 ∧ (oversleptTimer.mem.src 0).dsCanceled = false ∧
    (oversleptTimer.mem.src 0).linked = [] :=
  ⟨start_suspendedTimer, Pool.runs_get _, by decide, by decide, by decide, by decide, by decide,
    by decide, by decide⟩

end LibDispatch.TimerLoop
