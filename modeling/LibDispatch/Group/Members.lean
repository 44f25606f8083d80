import LibDispatch.Group.Steps

/-!
# The members of a group

The value of a group is its original value less its members, as a word of type
`intptr_t`.  A member is an enter that has returned and has not been matched by
a leave, or an enter that is still waiting inside.
-/

namespace LibDispatch.Group

open Interleaving

variable {α ν T : Type*}

/-- The moment `k` is not in the future, and no emptiness since has been missed. -/
structure Past (k : Moment) (m : Mem α ν) : Prop where
  le : k.emptied ≤ m.emptied
  members_pos : k.empty = false → k.emptied = m.emptied → 0 < m.members

theorem past_now (m : Mem α ν) : Past m.now m where
  le := le_rfl
  members_pos := by
    simp [Mem.now, Nat.pos_iff_ne_zero]

theorem Past.emptySince {k : Moment} {m : Mem α ν} (h : Past k m) (hm : m.members = 0) :
    m.emptySince k := by
  have hle := h.le
  have hpos := h.members_pos
  cases hk : k.empty <;> simp [Mem.emptySince, hk]
  have hne : k.emptied ≠ m.emptied := fun he ↦ by
    have hm' := hpos hk he
    omega
  omega

def Loc.inside : Loc α → ℤ
  | .entering _ => 1
  | _ => 0

theorem leaveReturn_fst (m : Mem α ν) (l : Semaphore.Loc) : (leaveReturn m l).1 = m := by
  cases l <;> rfl

variable [DecidableEq α]

theorem Trans.past {m m' : Mem α ν} {l l' : Loc α} (h : Trans m l m' l') {k : Moment}
    (hk : Past k m) : Past k m' := by
  obtain ⟨hle, hpos⟩ := hk
  cases h
  case leave | leaveSlow =>
    refine ⟨?_, fun he heq ↦ ?_⟩
    · simp only [Mem.leaveSignalled]
      split <;> omega
    · simp only [Mem.leaveSignalled] at heq ⊢
      split at heq
      · omega
      · have := hpos he heq
        omega
  all_goals exact ⟨hle, fun he heq ↦ by first | exact hpos he heq | exact Nat.succ_pos _⟩

theorem Trans.emptySince_mono {m m' : Mem α ν} {l l' : Loc α} (h : Trans m l m' l')
    {k : Moment} (hk : m.emptySince k) : m'.emptySince k := by
  have hle : m.emptied ≤ m'.emptied := by
    cases h <;> try exact le_rfl
    case leave | leaveSlow =>
      simp only [Mem.leaveSignalled]
      split <;> omega
  simp only [Mem.emptySince, Bool.or_eq_true, decide_eq_true_eq] at hk ⊢
  exact hk.imp_right fun hlt ↦ hlt.trans_le hle

theorem Trans.openEnters_lt {m m' : Mem α ν} {l l' : Loc α} (h : Trans m l m' l')
    (hopen : ∀ e ∈ m.openEnters, e < m.entered) : ∀ e ∈ m'.openEnters, e < m'.entered := by
  cases h <;> try exact hopen
  case enter | entered =>
    intro e he
    rcases Finset.mem_insert.mp he with rfl | he
    · exact Nat.lt_succ_self _
    · exact (hopen e he).trans (Nat.lt_succ_self _)
  case leave | leaveSlow =>
    exact fun e he ↦ hopen e (Finset.mem_of_mem_erase he)

theorem Trans.members_eq {m m' : Mem α ν} {l l' : Loc α} (h : Trans m l m' l')
    (hopen : ∀ e ∈ m.openEnters, e < m.entered) (hle : m.openEnters.card ≤ m.members) :
    (m'.members : ℤ) - m'.openEnters.card - l'.inside =
      m.members - m.openEnters.card - l.inside := by
  have hfresh : m.entered ∉ m.openEnters := fun he ↦ (hopen _ he).false
  cases h <;> try rfl
  case enter | entered =>
    simp only [Mem.enterReturned, Loc.inside, Finset.card_insert_of_notMem hfresh]
    push_cast
    ring
  case enterSlow =>
    simp only [Loc.inside]
    push_cast
    ring
  case leave he _ _ _ | leaveSlow he _ _ _ _ =>
    have hcard := Finset.card_erase_add_one he
    simp only [Mem.leaveSignalled, Loc.inside]
    omega

theorem Trans.value_eq {m m' : Mem α ν} {l l' : Loc α} (h : Trans m l m' l')
    (hle : m.openEnters.card ≤ m.members)
    (hval : m.dsema.dsemaValue = wrap (dsemaOrig - m.members)) :
    m'.dsema.dsemaValue = wrap (dsemaOrig - m'.members) := by
  cases h <;> try exact hval
  case enter d hd _ _ | enterSlow d _ hd _ _ _ =>
    simp only [Mem.enterReturned, hd, hval, wrap, Int.bmod_sub_bmod]
    push_cast
    ring_nf
  case leave he hd _ _ | leaveSlow he hd _ _ _ =>
    have hpos : 0 < m.members := lt_of_lt_of_le (Finset.card_pos.mpr ⟨_, he⟩) hle
    simp only [Mem.leaveSignalled, hd, hval, wrap, Int.bmod_add_bmod]
    rw [Nat.cast_sub hpos]
    push_cast
    ring_nf
  all_goals simp_all [Mem.enterReturned]

theorem eq_enter_of_members_lt {m m' : Mem α ν} {l l' : Loc α} {t : T} {a : Act α ν}
    (hl : l.Sound) (hP : step t a m l = some (m', l')) (hlt : m.members < m'.members) :
    l = .idle ∧ a = .enter := by
  have hidle : l = .idle := by
    cases trans_of_step hl hP <;> first | rfl | exact (lt_irrefl _ hlt).elim
  subst hidle
  refine ⟨rfl, ?_⟩
  cases a with
  | enter => rfl
  | leave e =>
      simp only [step] at hP
      split at hP
      · have hm' : (dispatchGroupLeave e m).1 = m' := by rw [Option.some.inj hP]
        simp only [dispatchGroupLeave, leaveReturn_fst] at hm'
        simp only [← hm', Mem.leaveSignalled] at hlt
        omega
      · cases hP
  | notify note addr =>
      simp only [step, dispatchGroupNotify] at hP
      split at hP <;> cases hP
      exact (lt_irrefl _ hlt).elim
  | wait timeout =>
      simp only [step, dispatchGroupWait, Option.some.injEq] at hP
      repeat' split at hP
      all_goals
        cases hP
        exact (lt_irrefl _ hlt).elim
  | go => cases hP
  | expire => cases hP

section Runs

variable [DecidableEq T] {C : Pool T (Mem α ν) (Loc α) → T → Act α ν → Prop}
  {dsnNext : α → Option α} {dsn : α → Notification ν} {s : Pool T (Mem α ν) (Loc α)}

theorem openEnters_lt (h : Pool.Runs step C (created dsnNext dsn) s) :
    ∀ e ∈ s.mem.openEnters, e < s.mem.entered := by
  refine h.invariant (I := fun s ↦ ∀ e ∈ s.mem.openEnters, e < s.mem.entered)
    (by simp [created, dispatchGroupCreate]) ?_
  intro s t a m l hr hI _ hP
  exact (trans_of_run hr hP).openEnters_lt hI

variable [Fintype T]

theorem members_account (h : Pool.Runs step C (created dsnNext dsn) s) :
    (s.mem.members : ℤ) - s.mem.openEnters.card = ∑ t, (s.loc t).inside := by
  refine h.balance (fun m ↦ (m.members : ℤ) - m.openEnters.card) (fun _ l ↦ l.inside)
    (by simp [created, dispatchGroupCreate, Loc.inside]) ?_
  intro s t a m l hr hI _ hP
  refine (trans_of_run hr hP).members_eq (openEnters_lt hr) ?_
  have hnonneg : 0 ≤ ∑ u, (s.loc u).inside :=
    Finset.sum_nonneg fun u _ ↦ by cases s.loc u <;> simp [Loc.inside]
  omega

theorem card_openEnters_le (h : Pool.Runs step C (created dsnNext dsn) s) :
    s.mem.openEnters.card ≤ s.mem.members := by
  have hnonneg : 0 ≤ ∑ u, (s.loc u).inside :=
    Finset.sum_nonneg fun u _ ↦ by cases s.loc u <;> simp [Loc.inside]
  have hacc := members_account h
  omega

theorem value_eq_wrap (h : Pool.Runs step C (created dsnNext dsn) s) :
    s.mem.dsema.dsemaValue = wrap (dsemaOrig - s.mem.members) := by
  refine h.invariant (I := fun s ↦ s.mem.dsema.dsemaValue = wrap (dsemaOrig - s.mem.members))
    (by simp [created, dispatchGroupCreate]; decide) ?_
  intro s t a m l hr hI _ hP
  exact (trans_of_run hr hP).value_eq (card_openEnters_le hr) hI

theorem value_eq_of_members (h : Pool.Runs step C (created dsnNext dsn) s)
    (hm : s.mem.members = 0) : s.mem.dsema.dsemaValue = dsemaOrig := by
  rw [value_eq_wrap h, hm]
  decide

end Runs

end LibDispatch.Group
