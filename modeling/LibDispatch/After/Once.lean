import LibDispatch.After.Steps

/-!
# The function is called once

The timer fires again and again until its handler has cancelled the source, and what it has
counted until then is dropped: a thread that is going to call the handler has seen that the
source was not cancelled, and the first call cancels it before the next thread looks.
-/

namespace LibDispatch.After

open Interleaving
open Kevent (Clock)

variable {T Q : Type*}

/-! ## The calls of the function -/

/-- A thread here has seen that the source was not cancelled. -/
def latched : Source.Spot → Bool
  | .latch | .latchData _ | .latchRun => true
  | _ => false

/-- The calls and returns of the function, and whether the source has been cancelled, by the
progress of the handler. -/
def Fits (m : Mem T Q) (loc : T → Source.Loc Q) : Callback T → Prop
  | .outside => (m.calls = 0 ∧ m.returns = 0 ∧ m.src.dsCanceled = false) ∨
      (m.calls = 1 ∧ m.returns = 1 ∧ m.src.dsCanceled ∧ ∀ t, latched (loc t).spot = false)
  | .func => m.calls = 1 ∧ m.returns = 0 ∧ m.src.dsCanceled = false
  | .cancel => m.calls = 1 ∧ m.returns = 1 ∧ m.src.dsCanceled = false
  | .cancelling t => m.calls = 1 ∧ m.returns = 1 ∧
      (m.src.dsCanceled ∨ (loc t).spot = .cancelRetain ∨ (loc t).spot = .cancelFlag)
  | .returned => m.calls = 1 ∧ m.returns = 1 ∧ m.src.dsCanceled

structure Calls (m : Mem T Q) (loc : T → Source.Loc Q) : Prop where
  quiet : ∀ t, (loc t).spot ≠ .merging
  cancels : ∀ t, (loc t).spot = .cancelRetain ∨ (loc t).spot = .cancelFlag →
    m.callback = .cancelling t
  inside : m.callback ≠ .outside → ∃ t f, loc t = .held f .latchRun
  fits : Fits m loc m.callback

variable {m m' : Mem T Q} {loc : T → Source.Loc Q} {t : T} {l' : Source.Loc Q}

theorem Calls.of_plain (hplain : ∀ t, (loc t).spot = .plain) (hcallback : m.callback = .outside)
    (hcalls : m.calls = 0) (hreturns : m.returns = 0) (hcanceled : m.src.dsCanceled = false) :
    Calls m loc := by
  refine ⟨fun t ↦ ?_, fun t ↦ ?_, fun h ↦ absurd hcallback h, ?_⟩
  · rw [hplain t]
    nofun
  · rw [hplain t]
    nofun
  · rw [hcallback]
    exact .inl ⟨hcalls, hreturns, hcanceled⟩

variable [DecidableEq T]

theorem forall_spot_update {P : T → Source.Spot → Prop} (h : ∀ u, u ≠ t → P u (loc u).spot)
    (ht : P t l'.spot) (u : T) : P u (Function.update loc t l' u).spot := by
  rcases eq_or_ne u t with rfl | hne
  · rwa [Function.update_self]
  · rw [Function.update_of_ne hne]
    exact h u hne

theorem latchRun_update (hl : (loc t).spot ≠ .latchRun) (h : ∃ u f, loc u = .held f .latchRun) :
    ∃ u f, Function.update loc t l' u = .held f .latchRun := by
  obtain ⟨u, f, hu⟩ := h
  have hne : u ≠ t := by
    rintro rfl
    exact hl (by rw [hu]; rfl)
  exact ⟨u, f, by rw [Function.update_of_ne hne, hu]⟩

theorem Calls.frame (hi : Calls m loc) (hcallback : m'.callback = m.callback)
    (hcalls : m'.calls = m.calls) (hreturns : m'.returns = m.returns)
    (hcanceled : m'.src.dsCanceled = m.src.dsCanceled) (hfrom : (loc t).spot ≠ .latchRun)
    (hfrom' : (loc t).spot ≠ .cancelRetain ∧ (loc t).spot ≠ .cancelFlag)
    (hto : l'.spot ≠ .merging ∧ l'.spot ≠ .cancelRetain ∧ l'.spot ≠ .cancelFlag)
    (hlatched : m.src.dsCanceled → latched (loc t).spot = false → latched l'.spot = false) :
    Calls m' (Function.update loc t l') := by
  refine ⟨forall_spot_update (P := fun _ x ↦ x ≠ .merging) (fun u _ ↦ hi.quiet u) hto.1, ?_, ?_, ?_⟩
  · rw [hcallback]
    exact forall_spot_update
      (P := fun u x ↦ x = .cancelRetain ∨ x = .cancelFlag → m.callback = .cancelling u)
      (fun u _ ↦ hi.cancels u) fun h ↦ (h.elim hto.2.1 hto.2.2).elim
  · rw [hcallback]
    exact fun h ↦ latchRun_update hfrom (hi.inside h)
  · have hfits := hi.fits
    rw [hcallback]
    cases hcb : m.callback with
    | outside =>
        rw [hcb] at hfits
        refine hfits.imp (fun h ↦ ?_) fun ⟨h₁, h₂, h₃, h₄⟩ ↦ ?_
        · rw [hcalls, hreturns, hcanceled]
          exact h
        · rw [hcalls, hreturns, hcanceled]
          exact ⟨h₁, h₂, h₃, forall_spot_update (P := fun _ x ↦ latched x = false) (fun u _ ↦ h₄ u)
            (hlatched h₃ (h₄ t))⟩
    | func | cancel | returned =>
        rw [hcb] at hfits
        simp only [Fits, hcalls, hreturns, hcanceled] at hfits ⊢
        exact hfits
    | cancelling u =>
        rw [hcb] at hfits
        simp only [Fits, hcalls, hreturns, hcanceled] at hfits ⊢
        obtain ⟨h₁, h₂, h₃⟩ := hfits
        refine ⟨h₁, h₂, ?_⟩
        rcases eq_or_ne u t with rfl | hne
        · exact .inl (h₃.resolve_right fun h ↦ h.elim hfrom'.1 hfrom'.2)
        · rwa [Function.update_of_ne hne]

omit [DecidableEq T] in
theorem near_of_apart {n n' : Source.Mem Q} {x y : Source.Spot} (h : Source.Near n x n' y)
    (hretain : x ≠ .cancelRetain) (hflag : x ≠ .cancelFlag) :
    n'.dsCanceled = n.dsCanceled ∧ (y ≠ .merging ∧ y ≠ .cancelRetain ∧ y ≠ .cancelFlag) ∧
      (n.dsCanceled → latched x = false → latched y = false) := by
  cases h with
  | cancelFlag => exact absurd rfl hretain
  | canceled => exact absurd rfl hflag
  | plain _ _ hsame => exact ⟨hsame.canceled, ⟨nofun, nofun, nofun⟩, fun _ _ ↦ rfl⟩
  | clear _ hcanceled _ => exact ⟨hcanceled, ⟨nofun, nofun, nofun⟩, fun _ _ ↦ rfl⟩
  | callout _ _ hcanceled _ => exact ⟨hcanceled, ⟨nofun, nofun, nofun⟩, fun _ _ ↦ rfl⟩
  | latchFlags hnot hsame =>
      exact ⟨hsame.canceled, ⟨nofun, nofun, nofun⟩, fun hset ↦ by cases hnot.symm.trans hset⟩
  | latchXref hsame => exact ⟨hsame.canceled, ⟨nofun, nofun, nofun⟩, fun _ ↦ nofun⟩
  | latchXchg _ hcanceled _ => exact ⟨hcanceled, ⟨nofun, nofun, nofun⟩, fun _ ↦ nofun⟩
  | latchData _ hsame => exact ⟨hsame.canceled, ⟨nofun, nofun, nofun⟩, fun _ ↦ nofun⟩

theorem Calls.cancelling (hi : Calls m loc) {n : Source.Mem Q} (hcb : m.callback = .cancelling t)
    (hfrom : (loc t).spot ≠ .latchRun) (hto : l'.spot ≠ .merging)
    (hset : n.dsCanceled ∨ l'.spot = .cancelRetain ∨ l'.spot = .cancelFlag) :
    Calls { m with src := n } (Function.update loc t l') := by
  have hfits := hi.fits
  rw [hcb] at hfits
  refine ⟨forall_spot_update (P := fun _ x ↦ x ≠ .merging) (fun u _ ↦ hi.quiet u) hto, ?_,
    fun h ↦ latchRun_update hfrom (hi.inside h), ?_⟩
  · exact forall_spot_update
      (P := fun u x ↦ x = .cancelRetain ∨ x = .cancelFlag → m.callback = .cancelling u)
      (fun u _ ↦ hi.cancels u) fun _ ↦ hcb
  · change Fits _ _ m.callback
    rw [hcb]
    refine ⟨hfits.1, hfits.2.1, ?_⟩
    rwa [Function.update_self]

theorem Calls.near (hi : Calls m loc) {n : Source.Mem Q}
    (hnear : Source.Near m.src (loc t).spot n l'.spot) (hout : (loc t).spot ≠ .latchRun) :
    Calls { m with src := n } (Function.update loc t l') := by
  rcases eq_or_ne (loc t).spot .cancelRetain with hretain | hretain
  · have hcb := hi.cancels t (.inl hretain)
    rw [hretain] at hnear
    generalize hy : l'.spot = y at hnear
    cases hnear with
    | plain h => exact absurd rfl h
    | cancelFlag => exact hi.cancelling hcb hout (by rw [hy]; nofun) (.inr (.inr hy))
  · rcases eq_or_ne (loc t).spot .cancelFlag with hflag | hflag
    · have hcb := hi.cancels t (.inr hflag)
      rw [hflag] at hnear
      generalize hy : l'.spot = y at hnear
      cases hnear with
      | plain _ h => exact absurd rfl h
      | canceled _ hset => exact hi.cancelling hcb hout (by rw [hy]; nofun) (.inl hset)
    · obtain ⟨hcanceled, hto, hlatched⟩ := near_of_apart hnear hretain hflag
      exact hi.frame rfl rfl rfl hcanceled hout ⟨hretain, hflag⟩ hto hlatched

theorem Calls.idle (hi : Calls m loc) (hl : loc t = .idle) (hcallback : m'.callback = m.callback)
    (hcalls : m'.calls = m.calls) (hreturns : m'.returns = m.returns)
    (hcanceled : m'.src.dsCanceled = m.src.dsCanceled) (hto : l'.spot = .plain) :
    Calls m' (Function.update loc t l') := by
  refine hi.frame hcallback hcalls hreturns hcanceled ?_ ?_ ?_ ?_
  · rw [hl]
    nofun
  · rw [hl]
    exact ⟨nofun, nofun⟩
  · rw [hto]
    exact ⟨nofun, nofun, nofun⟩
  · rw [hto]
    exact fun _ _ ↦ rfl

omit [DecidableEq T] in
theorem Calls.handler (hi : Calls m loc) {f : Source.Frame Q} (ht : loc t = .held f .latchRun)
    (hnot : ∀ u, m.callback ≠ .cancelling u) (hfits : Fits m' loc m'.callback) : Calls m' loc :=
  ⟨hi.quiet, fun u hu ↦ (hnot u (hi.cancels u hu)).elim, fun _ ↦ ⟨t, f, ht⟩, hfits⟩

omit [DecidableEq T] in
theorem Calls.callFunc (hi : Calls m loc) {f : Source.Frame Q} (ht : loc t = .held f .latchRun)
    (hout : m.callback = .outside) :
    Calls { m with callback := .func, calls := m.calls + 1 } loc := by
  have hfits := hi.fits
  rw [hout] at hfits
  refine hi.handler ht (by rw [hout]; nofun) ?_
  rcases hfits with ⟨hcalls, hreturns, hcanceled⟩ | ⟨-, -, -, hlatched⟩
  · exact ⟨by rw [hcalls], hreturns, hcanceled⟩
  · have hnot := hlatched t
    rw [ht] at hnot
    cases hnot

omit [DecidableEq T] in
theorem Calls.funcReturn (hi : Calls m loc) {f : Source.Frame Q} (ht : loc t = .held f .latchRun)
    (hfunc : m.callback = .func) :
    Calls { m with callback := .cancel, returns := m.returns + 1 } loc := by
  have hfits := hi.fits
  rw [hfunc] at hfits
  exact hi.handler ht (by rw [hfunc]; nofun) ⟨hfits.1, by rw [hfits.2.1], hfits.2.2⟩

theorem Calls.sourceCancel (hi : Calls m loc) (ht : loc t = .idle)
    (hcancel : m.callback = .cancel) :
    Calls { m with callback := .cancelling t } (Function.update loc t .cancelRetain) := by
  have hfits := hi.fits
  rw [hcancel] at hfits
  refine ⟨forall_spot_update (P := fun _ x ↦ x ≠ .merging) (fun u _ ↦ hi.quiet u) nofun, ?_,
    fun _ ↦ latchRun_update (by rw [ht]; nofun) (hi.inside (by rw [hcancel]; nofun)), ?_⟩
  · refine forall_spot_update
      (P := fun u x ↦ x = .cancelRetain ∨ x = .cancelFlag → .cancelling t = Callback.cancelling u)
      (fun u _ hu ↦ ?_) fun _ ↦ rfl
    cases hcancel.symm.trans (hi.cancels u hu)
  · refine ⟨hfits.1, hfits.2.1, .inr (.inl ?_)⟩
    rw [Function.update_self]
    rfl

omit [DecidableEq T] in
theorem Calls.cancelled (hi : Calls m loc) (ht : loc t = .idle) (hcb : m.callback = .cancelling t) :
    Calls { m with callback := .returned } loc := by
  have hfits := hi.fits
  have hplain : ¬ ((loc t).spot = .cancelRetain ∨ (loc t).spot = .cancelFlag) := by
    rw [ht]
    nofun
  rw [hcb] at hfits
  refine ⟨hi.quiet, fun u hu ↦ ?_, fun _ ↦ hi.inside (by rw [hcb]; nofun), ?_⟩
  · obtain rfl : t = u := Callback.cancelling.inj (hcb.symm.trans (hi.cancels u hu))
    exact absurd hu hplain
  · exact ⟨hfits.1, hfits.2.1, hfits.2.2.resolve_right hplain⟩

omit [DecidableEq T] in
theorem held_of_latched {l : Source.Loc Q} (h : latched l.spot = true) : ∃ f p, l = .held f p := by
  cases l with
  | held f p => exact ⟨f, p, rfl⟩
  | _ => cases h

theorem Calls.callbackReturn [Fintype T] (hi : Calls m loc) {n : Source.Mem Q} {f : Source.Frame Q}
    (hacc : Source.Accounts m.src loc) (ht : loc t = .held f .latchRun)
    (hreturned : m.callback = .returned) (hnear : Source.Near m.src .latchRun n l'.spot) :
    Calls { m with src := n, callback := .outside } (Function.update loc t l') := by
  have hfits := hi.fits
  rw [hreturned] at hfits
  generalize hy : l'.spot = y at hnear
  cases hnear with
  | plain _ _ hsame =>
      refine ⟨?_, ?_, fun h ↦ absurd rfl h, .inr ⟨hfits.1, hfits.2.1, ?_, ?_⟩⟩
      · exact forall_spot_update (P := fun _ x ↦ x ≠ .merging) (fun u _ ↦ hi.quiet u)
          (by rw [hy]; nofun)
      · refine forall_spot_update
          (P := fun u x ↦ x = .cancelRetain ∨ x = .cancelFlag → Callback.outside = .cancelling u)
          (fun u _ hu ↦ ?_) (by rw [hy]; nofun)
        cases hreturned.symm.trans (hi.cancels u hu)
      · exact hsame.canceled.trans hfits.2.2
      · refine forall_spot_update (P := fun _ x ↦ latched x = false) (fun u hu ↦ ?_)
          (by rw [hy]; rfl)
        by_contra hlatched
        obtain ⟨g, q, hg⟩ := held_of_latched (Bool.eq_true_of_not_eq_false hlatched)
        exact hacc.ne_held ht hu hg

/-- `dispatch_after_f` has created a source. -/
def Progress.hasSource : Progress → Bool
  | .setEventHandler | .setCancelHandler | .setTimer | .resume | .armed => true
  | _ => false

omit [DecidableEq T] in
theorem Progress.call_quiet {p p' : Progress} {a : Source.Act Q} (h : p.call = some (a, p')) :
    a.quiet ∧ p.hasSource ∧ p'.hasSource := by
  cases p <;> cases h <;> exact ⟨rfl, rfl, rfl⟩

section Runs

variable [DecidableEq Q] [Fintype T] {set : Setting T Q}

omit [Fintype T] in
theorem Calls.quietCall (hi : Calls m loc) {a : Source.Act Q} {n : Source.Mem Q} (ha : a.quiet)
    (hn : Source.step set.toSetting t a m.src .idle = some (n, l')) (hl : loc t = .idle)
    (hsrc : m'.src = n) (hcallback : m'.callback = m.callback) (hcalls : m'.calls = m.calls)
    (hreturns : m'.returns = m.returns) : Calls m' (Function.update loc t l') := by
  obtain ⟨hsame, hspot⟩ := Source.same_of_quiet ha hn
  exact hi.idle hl hcallback hcalls hreturns (by rw [hsrc]; exact hsame.canceled) hspot

theorem Calls.step (hi : Calls m loc) (hacc : Source.Accounts m.src loc)
    (hsource : m.progress.hasSource) (h : Trans set t m (loc t) m' l') :
    Calls m' (Function.update loc t l') := by
  generalize hl : loc t = l at h
  have hstay : ∀ {m₁ : Mem T Q}, Calls m₁ loc → Calls m₁ (Function.update loc t l) := fun h₁ ↦ by
    rwa [← hl, Function.update_eq_self]
  cases h with
  | call hstart => rw [hstart] at hsource; cases hsource
  | asyncFunc hasync => rw [hasync] at hsource; cases hsource
  | asyncReturn hasync => rw [hasync] at hsource; cases hsource
  | next hcall hn => exact hi.quietCall (Progress.call_quiet hcall).1 hn hl rfl rfl rfl rfl
  | invoke hn => exact hi.quietCall rfl hn hl rfl rfl rfl rfl
  | setTimer2 hn => exact hi.quietCall rfl hn hl rfl rfl rfl rfl
  | release _ hn => exact hi.quietCall rfl hn hl rfl rfl rfl rfl
  | go hidle hlatch _ hn =>
      have hmerge := hi.quiet t
      rw [hl] at hmerge
      refine hi.near ?_ (by rwa [hl])
      rw [hl]
      exact (Source.trans_of_step hn).near hidle hmerge
  | callbackReturn hreturned hn =>
      exact hi.callbackReturn hacc hl hreturned ((Source.trans_of_step hn).near nofun nofun)
  | calloutReturn _ hn =>
      have hnear := (Source.trans_of_step hn).near nofun nofun
      have hi' := hi.near (t := t) (by rw [hl]; exact hnear) (by rw [hl]; nofun)
      exact ⟨hi'.quiet, hi'.cancels, hi'.inside, hi'.fits⟩
  | passed => exact hi.idle hl rfl rfl rfl rfl rfl
  | fire _ hn =>
      obtain ⟨rfl, rfl⟩ := Source.fire_eq hn
      exact hi.idle hl rfl rfl rfl rfl rfl
  | callFunc hout => exact hstay (hi.callFunc hl hout)
  | funcReturn hfunc => exact hstay (hi.funcReturn hl hfunc)
  | free => exact hstay ⟨hi.quiet, hi.cancels, hi.inside, hi.fits⟩
  | sourceCancel hcancel hn =>
      cases hn
      exact hi.sourceCancel hl hcancel
  | cancelled hcb => exact hstay (hi.cancelled hl hcb)
  | released => exact hstay ⟨hi.quiet, hi.cancels, hi.inside, hi.fits⟩

end Runs

/-! ## The time of the call -/

/-- The clock of the time has been read at or past it. -/
def Passed (set : Setting T Q) (m : Mem T Q) : Prop :=
  ∃ r ∈ m.reads, r.1 = clockOf set.time ∧ valueOf set.time ≤ r.2

/-- What is so as long as the clock has not been read like that: nothing is pending, and the
timer is not set, or as `dispatch_after_f` sets it. -/
structure Early (set : Setting T Q) (m : Mem T Q) (loc : T → Source.Loc Q) : Prop where
  calls : m.calls = 0
  pending : m.src.dsPendingData = 0
  data : ∀ t prev, (loc t).spot = .latchData prev → prev = 0
  running : ∀ t, (loc t).spot ≠ .latchRun
  timer : m.timer.dsTimer.target = 0 ∨
    (m.timer.dsTimer.target = valueOf set.time ∧ m.timer.dsIdentHack = (clockOf set.time).index)

section Time

variable {set : Setting T Q}

omit [DecidableEq T] in
theorem Passed.mono (h : Passed set m) (hreads : m.reads ⊆ m'.reads) : Passed set m' := by
  obtain ⟨r, hr, hclock, hvalue⟩ := h
  exact ⟨r, hreads hr, hclock, hvalue⟩

omit [DecidableEq T] in
theorem setTimer2_eq (hforever : set.time ≠ forever) (hzero : set.time ≠ 0)
    (x : Kevent.Source Unit) : (setTimer2 set x).dsTimer.target = valueOf set.time ∧
      (setTimer2 set x).dsIdentHack = (clockOf set.time).index := by
  have hstart : Kevent.adjustStart set.time 0 = set.time := by
    unfold Kevent.adjustStart
    unfold forever at hforever
    rw [if_neg hzero, if_neg hforever]
  unfold setTimer2 Kevent.dispatchSourceSetTimer valueOf clockOf
  cases hmsb : set.time.msb with
  | false => simp only [hstart, hmsb, Bool.false_eq_true, if_false, and_self]
  | true => simp only [hstart, hmsb, if_true, and_self]

omit [DecidableEq T] in
theorem Early.of_plain (hplain : ∀ t, (loc t).spot = .plain) (hcalls : m.calls = 0)
    (hpending : m.src.dsPendingData = 0) (htimer : m.timer.dsTimer.target = 0) :
    Early set m loc := by
  refine ⟨hcalls, hpending, fun t ↦ ?_, fun t ↦ ?_, .inl htimer⟩
  · rw [hplain t]
    nofun
  · rw [hplain t]
    nofun

theorem Early.update (hi : Early set m loc) (hcalls : m'.calls = m.calls)
    (hpending : m'.src.dsPendingData = 0) (hdata : ∀ prev, l'.spot = .latchData prev → prev = 0)
    (hrunning : l'.spot ≠ .latchRun)
    (htimer : m'.timer.dsTimer.target = 0 ∨ (m'.timer.dsTimer.target = valueOf set.time ∧
      m'.timer.dsIdentHack = (clockOf set.time).index)) : Early set m' (Function.update loc t l') :=
  ⟨hcalls.trans hi.calls, hpending,
    forall_spot_update (P := fun _ x ↦ ∀ prev, x = .latchData prev → prev = 0) (fun u _ ↦ hi.data u)
      hdata,
    forall_spot_update (P := fun _ x ↦ x ≠ .latchRun) (fun u _ ↦ hi.running u) hrunning, htimer⟩

omit [DecidableEq T] in
theorem Early.near (hi : Early set m loc) {n : Source.Mem Q}
    (hnear : Source.Near m.src (loc t).spot n l'.spot) :
    n.dsPendingData = 0 ∧ (∀ prev, l'.spot = .latchData prev → prev = 0) ∧ l'.spot ≠ .latchRun := by
  have hpending := hi.pending
  have hdata := hi.data t
  generalize (loc t).spot = x at hnear hdata
  generalize l'.spot = y at hnear
  cases hnear with
  | plain _ _ hsame => exact ⟨hsame.pending.trans hpending, nofun, nofun⟩
  | clear hzero => exact ⟨hzero, nofun, nofun⟩
  | cancelFlag hsame => exact ⟨hsame.pending.trans hpending, nofun, nofun⟩
  | canceled hsame => exact ⟨hsame.trans hpending, nofun, nofun⟩
  | latchFlags _ hsame => exact ⟨hsame.pending.trans hpending, nofun, nofun⟩
  | latchXref hsame => exact ⟨hsame.pending.trans hpending, nofun, nofun⟩
  | latchXchg hzero =>
      refine ⟨hzero, fun prev heq ↦ ?_, nofun⟩
      cases heq
      exact hpending
  | latchData hprev => exact absurd (hdata _ rfl) hprev
  | callout _ hsame => exact ⟨hsame.trans hpending, nofun, nofun⟩

omit [DecidableEq T] in
theorem Early.passed_of_due (hi : Early set m loc) {c : Clock} {now : ℕ} (h : due m.timer c now) :
    c = clockOf set.time ∧ valueOf set.time ≤ now := by
  obtain ⟨hindex, htarget, -, hle⟩ := of_decide_eq_true h
  obtain ⟨hvalue, hident⟩ := hi.timer.resolve_left htarget
  refine ⟨?_, hvalue ▸ hle⟩
  rw [hident] at hindex
  cases c <;> cases hc : clockOf set.time <;> rw [hc] at hindex <;> first | rfl | cases hindex

theorem Early.step [DecidableEq Q] (hi : Early set m loc) (hquiet : ∀ t, (loc t).spot ≠ .merging)
    (hsource : m.progress.hasSource) (htime : set.time ≠ forever ∧ set.time ≠ 0)
    (h : Trans set t m (loc t) m' l') :
    Passed set m' ∨ Early set m' (Function.update loc t l') := by
  generalize hl : loc t = l at h
  have hrunning := hi.running t
  rw [hl] at hrunning
  have hquietCall : ∀ {a : Source.Act Q} {n : Source.Mem Q} {m₁ : Mem T Q}, a.quiet →
      Source.step set.toSetting t a m.src .idle = some (n, l') → m₁.src = n → m₁.calls = m.calls →
      (m₁.timer.dsTimer.target = 0 ∨ (m₁.timer.dsTimer.target = valueOf set.time ∧
        m₁.timer.dsIdentHack = (clockOf set.time).index)) →
      Early set m₁ (Function.update loc t l') := by
    intro a n m₁ ha hn hsrc hcalls htimer
    obtain ⟨hsame, hspot⟩ := Source.same_of_quiet ha hn
    exact hi.update hcalls (by rw [hsrc]; exact hsame.pending.trans hi.pending)
      (by rw [hspot]; nofun) (by rw [hspot]; nofun) htimer
  cases h with
  | call hstart => rw [hstart] at hsource; cases hsource
  | asyncFunc hasync => rw [hasync] at hsource; cases hsource
  | asyncReturn hasync => rw [hasync] at hsource; cases hsource
  | next hcall hn => exact .inr (hquietCall (Progress.call_quiet hcall).1 hn rfl rfl hi.timer)
  | invoke hn => exact .inr (hquietCall rfl hn rfl rfl hi.timer)
  | release _ hn => exact .inr (hquietCall rfl hn rfl rfl hi.timer)
  | setTimer2 hn => exact .inr (hquietCall rfl hn rfl rfl (.inr (setTimer2_eq htime.1 htime.2 _)))
  | go hidle _ _ hn =>
      have hmerge := hquiet t
      rw [hl] at hmerge
      have hnear := (Source.trans_of_step hn).near hidle hmerge
      rw [← hl] at hnear
      obtain ⟨hpending, hdata, hrun⟩ := hi.near hnear
      exact .inr (hi.update rfl hpending hdata hrun hi.timer)
  | calloutReturn _ hn =>
      have hnear := (Source.trans_of_step hn).near nofun nofun
      rw [← hl] at hnear
      obtain ⟨hpending, hdata, hrun⟩ := hi.near hnear
      exact .inr (hi.update rfl hpending hdata hrun hi.timer)
  | passed => exact .inr (hi.update rfl hi.pending nofun nofun hi.timer)
  | fire hdue _ =>
      obtain ⟨hclock, hvalue⟩ := hi.passed_of_due hdue
      exact .inl ⟨_, List.mem_cons_self, hclock, hvalue⟩
  | callbackReturn | callFunc | funcReturn => exact absurd rfl hrunning
  | free => exact .inr (hi.update rfl hi.pending nofun nofun hi.timer)
  | sourceCancel _ hn =>
      cases hn
      exact .inr (hi.update rfl hi.pending nofun nofun hi.timer)
  | cancelled | released => exact .inr (hi.update rfl hi.pending nofun nofun hi.timer)

end Time

end LibDispatch.After
