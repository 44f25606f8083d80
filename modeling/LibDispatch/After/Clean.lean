import LibDispatch.After.Once

/-!
# The context is freed once

`dispatch_after_f` installs one handler for the cancellation, and a source calls each handler
once.  The source is cancelled by the handler of the timer after the function has returned, so
that is when the context is freed and the last external reference given up.
-/

namespace LibDispatch.After

open Interleaving
open Kevent (Clock)

variable {T Q : Type*} {m m' : Mem T Q} {loc : T → Source.Loc Q} {t : T} {l' : Source.Loc Q}

/-! ## Freeing the context -/

/-- The context is freed once for each call of a handler for the cancellation, and the reference
is released after that. -/
structure Freed (m : Mem T Q) (loc : T → Source.Loc Q) : Prop where
  inside : m.callout ≠ .outside → ∃ t f k, loc t = .held f (.calloutRun k)
  frees : m.frees ≤ m.src.cancelCalls.length
  next : m.callout = .outside → ∀ t, (loc t).spot = .calloutRun →
    m.frees < m.src.cancelCalls.length
  releases : m.releases ≤ m.frees
  owed : m.callout = .release → m.releases < m.frees

theorem near_calls {n n' : Source.Mem Q} {x y : Source.Spot} (h : Source.Near n x n' y) :
    (y ≠ .calloutRun ∧ n'.cancelCalls = n.cancelCalls) ∨
      n'.cancelCalls.length = n.cancelCalls.length + 1 := by
  cases h with
  | callout _ _ _ hcalls => exact .inr (by rw [hcalls, List.length_cons])
  | plain _ _ hsame | cancelFlag hsame | latchFlags _ hsame | latchXref hsame | latchData _ hsame =>
      exact .inl ⟨nofun, hsame.calls⟩
  | clear _ _ hcalls | canceled _ _ hcalls | latchXchg _ _ hcalls => exact .inl ⟨nofun, hcalls⟩

theorem Freed.of_plain (hplain : ∀ t, (loc t).spot = .plain) (hcallout : m.callout = .outside)
    (hfrees : m.frees = 0) (hreleases : m.releases = 0) : Freed m loc := by
  refine ⟨fun h ↦ absurd hcallout h, ?_, fun _ t ↦ ?_, ?_, ?_⟩
  · rw [hfrees]
    exact Nat.zero_le _
  · rw [hplain t]
    nofun
  · rw [hreleases]
    exact Nat.zero_le _
  · rw [hcallout]
    nofun

section Steps

variable [DecidableEq T]

theorem calloutRun_update (hl : (loc t).spot ≠ .calloutRun)
    (h : ∃ u f k, loc u = .held f (.calloutRun k)) :
    ∃ u f k, Function.update loc t l' u = .held f (.calloutRun k) := by
  obtain ⟨u, f, k, hu⟩ := h
  have hne : u ≠ t := by
    rintro rfl
    exact hl (by rw [hu]; rfl)
  exact ⟨u, f, k, by rw [Function.update_of_ne hne, hu]⟩

theorem Freed.frame (hi : Freed m loc) (hcallout : m'.callout = m.callout)
    (hfrees : m'.frees = m.frees) (hreleases : m'.releases = m.releases)
    (hcalls : m'.src.cancelCalls = m.src.cancelCalls) (hfrom : (loc t).spot ≠ .calloutRun)
    (hto : l'.spot ≠ .calloutRun) : Freed m' (Function.update loc t l') := by
  refine ⟨?_, ?_, ?_, ?_, ?_⟩
  · rw [hcallout]
    exact fun h ↦ calloutRun_update hfrom (hi.inside h)
  · rw [hfrees, hcalls]
    exact hi.frees
  · rw [hcallout, hfrees, hcalls]
    exact fun hout ↦ forall_spot_update (P := fun _ x ↦ x = .calloutRun → _)
      (fun u _ ↦ hi.next hout u) fun h ↦ (hto h).elim
  · rw [hreleases, hfrees]
    exact hi.releases
  · rw [hreleases, hcallout, hfrees]
    exact hi.owed

theorem Freed.near (hi : Freed m loc) {n : Source.Mem Q}
    (hnear : Source.Near m.src (loc t).spot n l'.spot) (hfrom : (loc t).spot ≠ .calloutRun) :
    Freed { m with src := n } (Function.update loc t l') := by
  rcases near_calls hnear with ⟨hto, hcalls⟩ | hcalls
  · exact hi.frame rfl rfl rfl hcalls hfrom hto
  · have hless : m.frees < n.cancelCalls.length := by
      rw [hcalls]
      exact Nat.lt_succ_of_le hi.frees
    exact ⟨fun h ↦ calloutRun_update hfrom (hi.inside h), hless.le, fun _ _ _ ↦ hless, hi.releases,
      hi.owed⟩

theorem Freed.calloutReturn [Fintype T] (hi : Freed m loc) {n : Source.Mem Q} {f : Source.Frame Q}
    {k : ℕ} (hacc : Source.Accounts m.src loc) (ht : loc t = .held f (.calloutRun k))
    (hnear : Source.Near m.src .calloutRun n l'.spot) :
    Freed { m with src := n, callout := .outside } (Function.update loc t l') := by
  generalize hy : l'.spot = y at hnear
  cases hnear with
  | plain _ _ hsame =>
      refine ⟨fun h ↦ absurd rfl h, ?_, fun _ ↦ ?_, hi.releases, nofun⟩
      · change m.frees ≤ n.cancelCalls.length
        rw [hsame.calls]
        exact hi.frees
      · refine forall_spot_update (P := fun _ x ↦ x = .calloutRun → _) (fun u hu hspot ↦ ?_)
          (by rw [hy]; nofun)
        cases hloc : loc u with
        | held g q => exact (hacc.ne_held ht hu hloc).elim
        | _ => rw [hloc] at hspot; cases hspot

theorem Freed.quietCall [DecidableEq Q] {set : Setting T Q} (hi : Freed m loc) {a : Source.Act Q}
    {n : Source.Mem Q} (ha : a.quiet)
    (hn : Source.step set.toSetting t a m.src .idle = some (n, l'))
    (hl : loc t = .idle) (hsrc : m'.src = n) (hcallout : m'.callout = m.callout)
    (hfrees : m'.frees = m.frees) (hreleases : m'.releases = m.releases) :
    Freed m' (Function.update loc t l') := by
  obtain ⟨hsame, hspot⟩ := Source.same_of_quiet ha hn
  exact hi.frame hcallout hfrees hreleases (by rw [hsrc]; exact hsame.calls) (by rw [hl]; nofun)
    (by rw [hspot]; nofun)

theorem Freed.release (hi : Freed m loc) {n : Source.Mem Q} (hl : loc t = .idle)
    (hrelease : m.callout = .release) (hsame : m.src.Same n) :
    Freed { m with src := n, callout := .releasing t, releases := m.releases + 1 }
      (Function.update loc t l') := by
  refine ⟨fun _ ↦ calloutRun_update (by rw [hl]; nofun) (hi.inside (by rw [hrelease]; nofun)), ?_,
    nofun, hi.owed hrelease, nofun⟩
  change m.frees ≤ n.cancelCalls.length
  rw [hsame.calls]
  exact hi.frees

theorem Freed.step [DecidableEq Q] [Fintype T] {set : Setting T Q} (hi : Freed m loc)
    (hacc : Source.Accounts m.src loc) (hquiet : ∀ t, (loc t).spot ≠ .merging)
    (h : Trans set t m (loc t) m' l') : Freed m' (Function.update loc t l') := by
  generalize hl : loc t = l at h
  have hstay : ∀ {m₁ : Mem T Q}, Freed m₁ loc → Freed m₁ (Function.update loc t l) := fun h₁ ↦ by
    rwa [← hl, Function.update_eq_self]
  cases h with
  | call =>
      refine hstay ?_
      unfold dispatchAfterF
      split <;> exact ⟨hi.inside, hi.frees, hi.next, hi.releases, hi.owed⟩
  | asyncFunc | asyncReturn | passed | cancelled | callFunc | funcReturn =>
      exact hstay ⟨hi.inside, hi.frees, hi.next, hi.releases, hi.owed⟩
  | next hcall hn => exact hi.quietCall (Progress.call_quiet hcall).1 hn hl rfl rfl rfl rfl
  | invoke hn => exact hi.quietCall rfl hn hl rfl rfl rfl rfl
  | setTimer2 hn => exact hi.quietCall rfl hn hl rfl rfl rfl rfl
  | go hidle _ hcallout hn =>
      have hmerge := hquiet t
      rw [hl] at hmerge
      have hnear := (Source.trans_of_step hn).near hidle hmerge
      rw [← hl] at hnear
      exact hi.near hnear (by rwa [hl])
  | callbackReturn _ hn =>
      have hnear := (Source.trans_of_step hn).near nofun nofun
      have hi' := hi.near (t := t) (by rw [hl]; exact hnear) (by rw [hl]; nofun)
      exact ⟨hi'.inside, hi'.frees, hi'.next, hi'.releases, hi'.owed⟩
  | calloutReturn _ hn =>
      exact hi.calloutReturn hacc hl ((Source.trans_of_step hn).near nofun nofun)
  | fire _ hn =>
      obtain ⟨rfl, rfl⟩ := Source.fire_eq hn
      exact hi.frame rfl rfl rfl rfl (by rw [hl]; nofun) nofun
  | free hout =>
      have hless := hi.next hout t (by rw [hl]; rfl)
      exact hstay ⟨fun _ ↦ ⟨t, _, _, hl⟩, hless, nofun, hi.releases.trans (Nat.le_succ _),
        fun _ ↦ Nat.lt_succ_of_le hi.releases⟩
  | sourceCancel _ hn =>
      cases hn
      exact hi.frame rfl rfl rfl rfl (by rw [hl]; nofun) nofun
  | release hrelease hn =>
      exact hi.release hl hrelease (Source.same_of_quiet rfl hn).1
  | released hcb =>
      exact hstay ⟨fun _ ↦ hi.inside (by rw [hcb]; nofun), hi.frees, nofun, hi.releases, nofun⟩

end Steps

/-! ## One handler for the cancellation -/

/-- One, after `dispatch_after_f` has set the handler for the cancellation. -/
def Progress.handlers : Progress → ℕ
  | .setTimer | .resume | .armed => 1
  | _ => 0

theorem Progress.call_handlers {p p' : Progress} {a : Source.Act Q} (h : p.call = some (a, p')) :
    p'.handlers = p.handlers + a.handlers := by
  cases p <;> cases h <;> rfl

/-- The handlers on their way to the source and those that have been installed are what
`dispatch_after_f` has set. -/
def Balanced [Fintype T] (m : Mem T Q) (loc : T → Source.Loc Q) : Prop :=
  (m.src.handlers : ℤ) + ∑ u, ((loc u).handlers : ℤ) = m.progress.handlers

section Balance

variable [DecidableEq T] [DecidableEq Q] [Fintype T] {set : Setting T Q}

theorem Balanced.src (hb : Balanced m loc) (hpeek : Source.Peeks m.src loc) {a : Source.Act Q}
    {n : Source.Mem Q} (hn : Source.step set.toSetting t a m.src (loc t) = some (n, l'))
    (hsrc : m'.src = n)
    (hprogress : m'.progress.handlers = m.progress.handlers +
      if loc t = .idle then l'.handlers else 0) : Balanced m' (Function.update loc t l') := by
  have heq := (Source.trans_of_step hn).handlers_eq fun f p dc ↦ hpeek t f p dc
  unfold Balanced at hb ⊢
  rw [Pool.sum_update (fun _ l ↦ (Source.Loc.handlers l : ℤ)), hsrc, hprogress]
  generalize (if loc t = .idle then l'.handlers else 0) = k at heq ⊢
  omega

theorem Balanced.step (hb : Balanced m loc) (hpeek : Source.Peeks m.src loc)
    (h : Trans set t m (loc t) m' l') : Balanced m' (Function.update loc t l') := by
  generalize hl : loc t = l at h
  have hstay : ∀ {m₁ : Mem T Q}, Balanced m₁ loc → Balanced m₁ (Function.update loc t l) :=
    fun h₁ ↦ by rwa [← hl, Function.update_eq_self]
  have hsrc : ∀ {a n m₁}, Source.step set.toSetting t a m.src l = some (n, l') → m₁.src = n →
      m₁.progress = m.progress → (l = .idle → a.handlers = 0) →
      Balanced m₁ (Function.update loc t l') := by
    intro a n m₁ hn hsrc hprogress ha
    refine hb.src hpeek (by rw [hl]; exact hn) hsrc ?_
    rw [hprogress, hl]
    split
    · rename_i hidle
      rw [hidle] at hn
      rw [Source.handlers_of_call hn, ha hidle]
      rfl
    · rfl
  cases h with
  | call hstart =>
      refine hstay ?_
      unfold Balanced at hb ⊢
      rw [hstart] at hb
      unfold dispatchAfterF
      split
      · exact hb
      · split <;> exact hb
  | asyncFunc hasync | asyncReturn hasync =>
      refine hstay ?_
      unfold Balanced at hb ⊢
      rw [hasync] at hb
      exact hb
  | next hcall hn =>
      refine hb.src hpeek (by rw [hl]; exact hn) rfl ?_
      rw [hl, if_pos rfl, Source.handlers_of_call hn]
      exact Progress.call_handlers hcall
  | go hidle _ _ hn => exact hsrc hn rfl rfl fun h ↦ absurd h hidle
  | callbackReturn _ hn | calloutReturn _ hn => exact hsrc hn rfl rfl nofun
  | invoke hn | setTimer2 hn | fire _ hn | sourceCancel _ hn | release _ hn =>
      exact hsrc hn rfl rfl fun _ ↦ rfl
  | passed | callFunc | funcReturn | free | cancelled | released => exact hstay hb

omit [DecidableEq T] [DecidableEq Q] in
theorem Balanced.calls_le (hb : Balanced m loc) (hacc : Source.Accounts m.src loc)
    (ho : Source.Ordered set.toSetting m.src loc) : m.src.cancelCalls.length ≤ 1 := by
  have hinstalls := ho.calls_le hacc
  have hsum : 0 ≤ ∑ u, ((loc u).handlers : ℤ) := Finset.sum_nonneg fun _ _ ↦ Int.natCast_nonneg _
  have hone : m.progress.handlers ≤ 1 := by cases m.progress <;> decide
  unfold Balanced Source.Mem.handlers at hb
  omega

end Balance

/-! ## Whole runs -/

/-- Where no source has been created: whether the function has been submitted and called. -/
def Submitted (set : Setting T Q) (m : Mem T Q) : Progress → Prop
  | .start => m.calls = 0 ∧ m.returns = 0 ∧ m.timer = newTimer
  | .async => m.calls = 0 ∧ (set.time = 0 ∨ Passed set m)
  | .asyncFunc => m.calls = 1 ∧ (set.time = 0 ∨ Passed set m)
  | .finished => m.calls = 0 ∨ (m.calls = 1 ∧ (set.time = 0 ∨ Passed set m))
  | _ => False

structure Before (set : Setting T Q) (m : Mem T Q) (loc : T → Source.Loc Q) : Prop where
  src : m.src = (Source.created (T := T) set.queue 0 true).mem
  loc : ∀ t, loc t = .idle
  callback : m.callback = .outside
  callout : m.callout = .outside
  frees : m.frees = 0
  releases : m.releases = 0
  progress : Submitted set m m.progress

structure Started (set : Setting T Q) (m : Mem T Q) (loc : T → Source.Loc Q) : Prop where
  time : set.time ≠ forever ∧ set.time ≠ 0
  source : m.progress.hasSource
  calls : Calls m loc
  passed : Passed set m ∨ Early set m loc
  freed : Freed m loc

section Runs

variable {set : Setting T Q}

theorem Submitted.mono {p : Progress} (h : Submitted set m p) (hcalls : m'.calls = m.calls)
    (hreturns : m'.returns = m.returns) (htimer : m'.timer = m.timer)
    (hreads : m.reads ⊆ m'.reads) :
    Submitted set m' p := by
  have hpassed : set.time = 0 ∨ Passed set m → set.time = 0 ∨ Passed set m' :=
    Or.imp_right fun hp ↦ hp.mono hreads
  cases p with
  | start =>
      simp only [Submitted, hcalls, hreturns, htimer] at h ⊢
      exact h
  | async | asyncFunc => exact ⟨hcalls.trans h.1, hpassed h.2⟩
  | finished => exact h.imp hcalls.trans fun h ↦ ⟨hcalls.trans h.1, hpassed h.2⟩
  | _ => exact h

theorem Submitted.not_hasSource {p : Progress} (h : Submitted set m p) : p.hasSource = false := by
  cases p <;> first | rfl | exact h.elim

theorem Submitted.calls_le {p : Progress} (h : Submitted set m p) :
    m.calls ≤ 1 ∧ (0 < m.calls → set.time = 0 ∨ Passed set m) := by
  have hnone : m.calls = 0 → m.calls ≤ 1 ∧ (0 < m.calls → set.time = 0 ∨ Passed set m) :=
    fun hzero ↦ ⟨hzero.trans_le zero_le_one, fun hpos ↦ absurd hzero hpos.ne'⟩
  cases p with
  | start | async => exact hnone h.1
  | asyncFunc => exact ⟨h.1.le, fun _ ↦ h.2⟩
  | finished =>
      rcases h with h | h
      · exact hnone h
      · exact ⟨h.1.le, fun _ ↦ h.2⟩
  | _ => exact h.elim

theorem valueOf_le_of_timeout {now : ℕ} (hforever : set.time ≠ forever) (hzero : set.time ≠ 0)
    (h : dispatchTimeout set now = 0) : valueOf set.time ≤ now := by
  unfold dispatchTimeout at h
  rw [if_neg hforever, if_neg hzero] at h
  unfold valueOf
  cases hmsb : set.time.msb with
  | true =>
      simp only [hmsb, if_true] at h ⊢
      split at h
      · assumption
      · omega
  | false =>
      simp only [hmsb, Bool.false_eq_true, if_false] at h ⊢
      split at h
      · assumption
      · exact absurd h (set.mach2nano_pos _ (by omega)).ne'

theorem Before.call (hi : Before set m loc) (hstart : m.progress = .start) (now : ℕ) :
    Before set (dispatchAfterF set m now) loc ∨ Started set (dispatchAfterF set m now) loc := by
  have hprogress := hi.progress
  rw [hstart] at hprogress
  obtain ⟨hcalls, hreturns, htimer⟩ := hprogress
  unfold dispatchAfterF
  split
  · exact .inl ⟨hi.src, hi.loc, hi.callback, hi.callout, hi.frees, hi.releases, .inl hcalls⟩
  rename_i hforever
  by_cases htimeout : dispatchTimeout set now = 0
  · rw [if_pos htimeout]
    refine .inl ⟨hi.src, hi.loc, hi.callback, hi.callout, hi.frees, hi.releases, hcalls, ?_⟩
    by_cases hzero : set.time = 0
    · exact .inl hzero
    · have hreads : timeoutReads set now = [(clockOf set.time, now)] :=
        if_neg fun h ↦ h.elim hforever hzero
      refine .inr ⟨(clockOf set.time, now), ?_, rfl, valueOf_le_of_timeout hforever hzero htimeout⟩
      rw [hreads]
      exact List.mem_cons_self
  · rw [if_neg htimeout]
    have hzero : set.time ≠ 0 := by
      intro hzero
      refine htimeout ?_
      unfold dispatchTimeout
      rw [if_neg hforever, if_pos hzero]
    have hplain : ∀ t, (loc t).spot = .plain := fun t ↦ by
      rw [hi.loc t]
      rfl
    refine .inr ⟨⟨hforever, hzero⟩, rfl, .of_plain hplain hi.callback hcalls hreturns ?_,
      .inr (.of_plain hplain hcalls ?_ ?_), .of_plain hplain hi.callout hi.frees hi.releases⟩
    · rw [hi.src]
      rfl
    · rw [hi.src]
      rfl
    · rw [htimer]
      rfl

variable [DecidableEq T] [DecidableEq Q]

theorem Before.step (hi : Before set m loc) (h : Trans set t m (loc t) m' l') :
    Before set m' (Function.update loc t l') ∨ Started set m' (Function.update loc t l') := by
  have hl := hi.loc t
  have hprogress := hi.progress
  have hstay : ∀ {m₁ : Mem T Q}, Before set m₁ loc ∨ Started set m₁ loc →
      Before set m₁ (Function.update loc t .idle) ∨ Started set m₁ (Function.update loc t .idle) :=
    fun h₁ ↦ by rwa [← hl, Function.update_eq_self]
  rw [hl] at h
  cases h with
  | call hstart => exact hstay (hi.call hstart _)
  | asyncFunc hasync =>
      rw [hasync] at hprogress
      exact hstay (.inl ⟨hi.src, hi.loc, hi.callback, hi.callout, hi.frees, hi.releases,
        congrArg Nat.succ hprogress.1, hprogress.2⟩)
  | asyncReturn hasync =>
      rw [hasync] at hprogress
      exact hstay (.inl ⟨hi.src, hi.loc, hi.callback, hi.callout, hi.frees, hi.releases,
        .inr hprogress⟩)
  | passed =>
      exact hstay (.inl ⟨hi.src, hi.loc, hi.callback, hi.callout, hi.frees, hi.releases,
        hprogress.mono rfl rfl rfl (List.subset_cons_self _ _)⟩)
  | next hcall =>
      have hsource := (Progress.call_quiet hcall).2.1
      rw [hprogress.not_hasSource] at hsource
      cases hsource
  | go hidle => exact absurd rfl hidle
  | invoke hn =>
      rw [hi.src] at hn
      simp [Source.step, Source.created] at hn
  | setTimer2 hn =>
      rw [hi.src] at hn
      simp [Source.step, Source.created] at hn
  | fire _ hn =>
      rw [hi.src] at hn
      simp [Source.step, Source.created] at hn
  | sourceCancel hcancel => cases hi.callback.symm.trans hcancel
  | release hrelease => cases hi.callout.symm.trans hrelease
  | cancelled hcb => cases hi.callback.symm.trans hcb
  | released hcb => cases hi.callout.symm.trans hcb

theorem Trans.reads_subset (h : Trans set t m (loc t) m' l') : m.reads ⊆ m'.reads := by
  generalize loc t = l at h
  cases h with
  | call =>
      unfold dispatchAfterF
      split
      · exact List.Subset.refl _
      · exact List.subset_append_right _ _
  | passed | fire => exact List.subset_cons_self _ _
  | _ => exact List.Subset.refl _

theorem Trans.hasSource (h : Trans set t m (loc t) m' l') (hsource : m.progress.hasSource) :
    m'.progress.hasSource := by
  generalize loc t = l at h
  cases h with
  | call hp | asyncFunc hp | asyncReturn hp =>
      rw [hp] at hsource
      cases hsource
  | next hcall => exact (Progress.call_quiet hcall).2.2
  | _ => exact hsource

theorem Started.step [Fintype T] (hi : Started set m loc) (hacc : Source.Accounts m.src loc)
    (h : Trans set t m (loc t) m' l') : Started set m' (Function.update loc t l') := by
  refine ⟨hi.time, h.hasSource hi.source, hi.calls.step hacc hi.source h, ?_,
    hi.freed.step hacc hi.calls.quiet h⟩
  rcases hi.passed with hpassed | hearly
  · exact .inl (hpassed.mono h.reads_subset)
  · exact hearly.step hi.calls.quiet hi.source hi.time h

theorem inv_of_run [Fintype T] {C : Pool T (Mem T Q) (Source.Loc Q) → T → Act Q → Prop}
    {s : Pool T (Mem T Q) (Source.Loc Q)} (h : Pool.Runs (step set) C (initial set) s) :
    Before set s.mem s.loc ∨ Started set s.mem s.loc := by
  refine h.invariant (I := fun s ↦ Before set s.mem s.loc ∨ Started set s.mem s.loc)
    (.inl ⟨rfl, fun _ ↦ rfl, rfl, rfl, rfl, rfl, rfl, rfl, rfl⟩) fun s t a m l hr hi _ hs ↦ ?_
  rcases hi with hi | hi
  · exact hi.step (trans_of_step hs)
  · exact .inr (hi.step (Source.accounts_of_run (src_of_run hr)) (trans_of_step hs))

theorem balanced_of_run [Fintype T] {C : Pool T (Mem T Q) (Source.Loc Q) → T → Act Q → Prop}
    {s : Pool T (Mem T Q) (Source.Loc Q)} (h : Pool.Runs (step set) C (initial set) s) :
    Balanced s.mem s.loc := by
  refine h.invariant (I := fun s ↦ Balanced s.mem s.loc) ?_ fun s t a m l hr hb _ hs ↦
    hb.step (Source.peeks_of_run (src_of_run hr)) (trans_of_step hs)
  simp [Balanced, initial, Source.created, Source.Mem.handlers, Source.Loc.handlers,
    Progress.handlers]

omit [DecidableEq T] [DecidableEq Q] in
theorem Calls.calls_le (hi : Calls m loc) : m.calls ≤ 1 := by
  have hfits := hi.fits
  cases hcb : m.callback with
  | outside =>
      rw [hcb] at hfits
      rcases hfits with h | h
      · exact h.1.trans_le zero_le_one
      · exact h.1.le
  | _ =>
      rw [hcb] at hfits
      exact hfits.1.le

omit [DecidableEq Q] in
theorem Started.after_free [Fintype T] (hi : Started set m loc) (hacc : Source.Accounts m.src loc)
    (ho : Source.Ordered set.toSetting m.src loc) (hfree : 0 < m.frees) :
    m.calls = 1 ∧ m.returns = 1 ∧ m.callback = .outside ∧ ∀ t f, loc t ≠ .held f .latchRun := by
  have hcalls : m.src.cancelCalls ≠ [] :=
    List.ne_nil_of_length_pos (hfree.trans_le hi.freed.frees)
  have hcanceled : m.src.dsCanceled := by
    obtain ⟨p, hp⟩ := ho.exists_protocol hacc
    exact hp.canceled hcalls
  have hrun : ∀ t f, loc t ≠ .held f .latchRun := fun t f ht ↦ hcalls (ho.held t f _ ht).2
  have hout : m.callback = .outside := by
    by_contra hin
    obtain ⟨t, f, ht⟩ := hi.calls.inside hin
    exact hrun t f ht
  have hfits := hi.calls.fits
  rw [hout] at hfits
  rcases hfits with ⟨-, -, hnot⟩ | ⟨hone, hreturns, -, -⟩
  · cases hnot.symm.trans hcanceled
  · exact ⟨hone, hreturns, hout, hrun⟩

/-- The function is called at most once, and not before its clock has been read at or past the
time, unless that is `DISPATCH_TIME_NOW`.  The context is freed and the source released at most
once, after the function has returned, and neither the handler nor the function runs after
that. -/
theorem after_once [Fintype T] {s : Pool T (Mem T Q) (Source.Loc Q)}
    (h : Pool.Reachable (step set) (initial set) s) :
    s.mem.calls ≤ 1 ∧
      (0 < s.mem.calls → set.time = 0 ∨
        ∃ r ∈ s.mem.reads, r.1 = clockOf set.time ∧ valueOf set.time ≤ r.2) ∧
      s.mem.frees ≤ 1 ∧ s.mem.releases ≤ s.mem.frees ∧
      (0 < s.mem.frees → s.mem.calls = 1 ∧ s.mem.returns = 1 ∧ s.mem.callback = .outside ∧
        ∀ t f, s.loc t ≠ .held f .latchRun) := by
  have hacc := Source.accounts_of_run (src_of_run h)
  have ho := Source.ordered_of_run (src_of_run h)
  rcases inv_of_run h with hi | hi
  · obtain ⟨hcalls, hpassed⟩ := hi.progress.calls_le
    refine ⟨hcalls, hpassed, ?_, ?_, fun hfree ↦ absurd hi.frees hfree.ne'⟩
    · exact hi.frees.trans_le zero_le_one
    · rw [hi.releases]
      exact Nat.zero_le _
  · refine ⟨hi.calls.calls_le, fun hpos ↦ .inr ?_, ?_, hi.freed.releases, hi.after_free hacc ho⟩
    · exact hi.passed.resolve_right fun hearly ↦ hpos.ne' hearly.calls
    · exact hi.freed.frees.trans ((balanced_of_run h).calls_le hacc ho)

end Runs

/-- A host whose monotonic clock counts nanoseconds.  Thread 0 calls `dispatch_after_f` and is
the worker of the queue, thread 1 is the manager, and thread 2 has the functions that the
handlers call. -/
def exampleSetting (time : BitVec 64) : Setting (Fin 3) (Fin 2) where
  mgr := 1
  mgrQ := 1
  dsIsLevel := false
  dsIsAdder := true
  caller := 0
  time := time
  queue := 0
  host := ⟨0, 0, 0, 0, true, 1, id⟩
  mach2nano := id
  mach2nano_pos := fun _ h ↦ h

def steps (t : Fin 3) (a : Act (Fin 2)) (n : ℕ) : List (Fin 3 × Act (Fin 2)) :=
  (t, a) :: List.replicate n (t, .go)

/-- The function is to be called at 5.  The clock is read at 3, at 4 and at 7, and once more at 9
while the function is running; after that the source is cancelled and unregistered, and the
context freed. -/
def onceTrace : List (Fin 3 × Act (Fin 2)) :=
  steps 0 (.call 3) 0 ++ steps 0 .next 5 ++ steps 0 .next 2 ++ steps 0 .next 2 ++ steps 0 .next 0 ++
    steps 1 .setTimer2 18 ++ steps 0 (.invoke 0) 36 ++ steps 1 (.pass .mach 4) 0 ++
    steps 1 (.pass .mach 7) 9 ++ steps 0 (.invoke 0) 14 ++ steps 0 .callFunc 0 ++
    steps 1 (.pass .mach 9) 6 ++ steps 0 .funcReturn 0 ++ steps 2 .sourceCancel 8 ++
    steps 2 .handlerReturn 0 ++ steps 0 .go 3 ++ steps 1 (.invoke 1) 17 ++ steps 0 (.invoke 0) 15 ++
    steps 0 .free 0 ++ steps 2 .release 9 ++ steps 2 .handlerReturn 0 ++ steps 0 .go 11

def onceState : Pool (Fin 3) (Mem (Fin 3) (Fin 2)) (Source.Loc (Fin 2)) :=
  ((initial (exampleSetting 5)).run (step (exampleSetting 5)) (fun _ _ _ ↦ True) onceTrace).get
    (by decide +kernel)

theorem after_once_run :
    onceState.mem.calls = 1 ∧ onceState.mem.frees = 1 ∧ onceState.mem.releases = 1 ∧
      onceState.mem.calls ≤ 1 ∧
      (0 < onceState.mem.calls → (5 : BitVec 64) = 0 ∨
        ∃ r ∈ onceState.mem.reads, r.1 = clockOf 5 ∧ valueOf 5 ≤ r.2) ∧
      onceState.mem.frees ≤ 1 ∧ onceState.mem.releases ≤ onceState.mem.frees ∧
      (0 < onceState.mem.frees → onceState.mem.calls = 1 ∧ onceState.mem.returns = 1 ∧
        onceState.mem.callback = .outside ∧ ∀ t f, onceState.loc t ≠ .held f .latchRun) := by
  have hrun : Pool.Reachable (step (exampleSetting 5)) (initial (exampleSetting 5)) onceState :=
    Pool.runs_get _
  exact ⟨by decide +kernel, by decide +kernel, by decide +kernel, after_once hrun⟩

/-- With `DISPATCH_TIME_NOW` the function is called without a reading of a clock. -/
theorem after_now_reads_nothing :
    ∃ s, Pool.Reachable (step (exampleSetting 0)) (initial (exampleSetting 0)) s ∧
      s.mem.calls = 1 ∧ s.mem.reads = [] := by
  have hrun : ((initial (exampleSetting 0)).run (step (exampleSetting 0)) (fun _ _ _ ↦ True)
      (steps 0 (.call 3) 0 ++ steps 0 .asyncFunc 0)).isSome := by decide
  exact ⟨_, Pool.runs_get hrun, by decide +revert⟩

end LibDispatch.After
