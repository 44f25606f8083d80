import LibDispatch.Interleaving.Pool

/-!
# Cancelling a source that submits its notifications

A source whose type does not propagate its target queue puts every notification on that queue
itself.  `source::notify` looks at the flag of `source::cancel` before it does so, and nobody
looks at it again: what has been accepted runs, and the cancel handler is submitted without
waiting for it.
-/

namespace LibDispatch.Wrapper.Cancellation

open Interleaving

/-! ## The model -/

/-- An item on the target queue: a call of the event handler, or of the cancel handler. -/
inductive Kind
  | event
  | cancel
  deriving DecidableEq

/-- The private data of the source and its target queue.  The last three fields are history:
whether a call of `cancel()` has returned, how many event handlers have started after that,
and how many cancel handlers have started while an event handler was running. -/
structure Mem where
  suspendCt : UInt64
  handler : Bool
  cancelHandler : Bool
  cancelled : Bool
  items : List Kind
  events : ℕ
  cancels : ℕ
  cancelReturned : Bool
  lateStarts : ℕ
  overlaps : ℕ
  deriving DecidableEq

/-- Where a thread stands: in `notify`, in `cancel`, or in an item of the target queue. -/
inductive Loc
  | idle
  | notifyHandler
  | notifyCancelled
  | notifySubmit
  | onCancel
  | cancelTake
  | cancelSubmit
  | running (kind : Kind)
  deriving DecidableEq

inductive Act
  | setHandler
  | setCancelHandler
  | resume
  | suspend
  | notify
  | cancel
  | start (i : ℕ)
  | go
  deriving DecidableEq

def Mem.started (m : Mem) (i : ℕ) : Kind → Mem
  | .event =>
      { m with
        items := m.items.eraseIdx i
        events := m.events + 1
        lateStarts := m.lateStarts + m.cancelReturned.toNat }
  | .cancel =>
      { m with
        items := m.items.eraseIdx i
        cancels := m.cancels + 1
        overlaps := m.overlaps + if m.events = 0 then 0 else 1 }

/-- A worker takes an item.  A serial queue has one item running at a time, and takes them in
their order. -/
def start (serial : Bool) (m : Mem) (i : ℕ) : Option (Mem × Loc) :=
  if serial ∧ ¬ (i = 0 ∧ m.events = 0 ∧ m.cancels = 0) then none
  else m.items[i]?.map fun kind ↦ (m.started i kind, .running kind)

/-- The steps of a call, after the first one.  `on_cancel()` of the source type does not touch
any of this. -/
def go (m : Mem) : Loc → Option (Mem × Loc)
  | .idle => none
  | .notifyHandler => some (m, if m.handler then .notifyCancelled else .idle)
  | .notifyCancelled => some (m, if m.cancelled then .idle else .notifySubmit)
  | .notifySubmit => some ({ m with items := m.items ++ [.event] }, .idle)
  | .onCancel => some (m, .cancelTake)
  | .cancelTake =>
      if m.cancelHandler then some ({ m with cancelHandler := false }, .cancelSubmit)
      else some ({ m with cancelReturned := true }, .idle)
  | .cancelSubmit => some ({ m with items := m.items ++ [.cancel], cancelReturned := true }, .idle)
  | .running .event => some ({ m with events := m.events - 1 }, .idle)
  | .running .cancel => some ({ m with cancels := m.cancels - 1 }, .idle)

def step {T : Type*} (serial : Bool) : Program T Act Mem Loc := fun _ a m l ↦
  match a, l with
  | .setHandler, .idle => some ({ m with handler := true }, .idle)
  | .setCancelHandler, .idle => some ({ m with cancelHandler := true }, .idle)
  | .resume, .idle => some ({ m with suspendCt := m.suspendCt + 1 }, .idle)
  | .suspend, .idle => some ({ m with suspendCt := m.suspendCt - 1 }, .idle)
  | .notify, .idle => some (m, if m.suspendCt ≤ 0 then .idle else .notifyHandler)
  | .cancel, .idle =>
      if m.cancelled then some ({ m with cancelReturned := true }, .idle)
      else some ({ m with cancelled := true }, .onCancel)
  | .start i, .idle => start serial m i
  | .go, l => go m l
  | _, _ => none

def initial (T : Type*) : Pool T Mem Loc where
  mem :=
    { suspendCt := 0, handler := false, cancelHandler := false, cancelled := false, items := [],
      events := 0, cancels := 0, cancelReturned := false, lateStarts := 0, overlaps := 0 }
  loc _ := .idle

/-! ## Quiet cancellation -/

/-- The first `cancel()` finds no accepted notification: none is about to be submitted, waits
or runs. -/
def Quiet {T : Type*} (s : Pool T Mem Loc) (_ : T) : Act → Prop
  | .cancel => s.mem.cancelled = false →
      (∀ u, s.loc u ≠ .notifySubmit) ∧ .event ∉ s.mem.items ∧ s.mem.events = 0
  | _ => True

variable {T : Type*} [DecidableEq T] {serial : Bool} {s : Pool T Mem Loc} {m m' : Mem} {l l' : Loc}

/-- Before the flag is set there is nothing of a cancellation, and after that nothing of an
event. -/
structure Fits (m : Mem) (l : Loc) : Prop where
  before : m.cancelled = false →
    l ≠ .onCancel ∧ l ≠ .cancelTake ∧ l ≠ .cancelSubmit ∧ l ≠ .running .cancel
  after : m.cancelled → l ≠ .notifySubmit

structure Inv (s : Pool T Mem Loc) : Prop where
  before : s.mem.cancelled = false → s.mem.cancelReturned = false ∧ .cancel ∉ s.mem.items
  after : s.mem.cancelled → .event ∉ s.mem.items ∧ s.mem.events = 0
  fits : ∀ t, Fits s.mem (s.loc t)
  lateStarts : s.mem.lateStarts = 0
  overlaps : s.mem.overlaps = 0

theorem Inv.move (hi : Inv s) {t : T} (hflag : m.cancelled = s.mem.cancelled)
    (hbefore : m.cancelled = false → m.cancelReturned = false ∧ .cancel ∉ m.items)
    (hafter : m.cancelled → .event ∉ m.items ∧ m.events = 0) (hfits : Fits m l)
    (hlate : m.lateStarts = 0) (hoverlaps : m.overlaps = 0) :
    Inv ⟨m, Function.update s.loc t l⟩ := by
  refine ⟨hbefore, hafter, fun u ↦ ?_, hlate, hoverlaps⟩
  rcases eq_or_ne u t with rfl | hne
  · simpa using hfits
  · obtain ⟨hb, ha⟩ := hi.fits u
    simp only [Function.update_of_ne hne]
    exact ⟨by rw [hflag]; exact hb, by rw [hflag]; exact ha⟩

theorem fits_idle : Fits m .idle := ⟨fun _ ↦ ⟨nofun, nofun, nofun, nofun⟩, fun _ ↦ nofun⟩

theorem Inv.cancel (hi : Inv s) {t : T} (hc : Quiet s t .cancel) (hflag : s.mem.cancelled = false) :
    Inv ⟨{ s.mem with cancelled := true }, Function.update s.loc t .onCancel⟩ := by
  obtain ⟨hsubmit, hitems, hevents⟩ := hc hflag
  refine ⟨nofun, fun _ ↦ ⟨hitems, hevents⟩, fun u ↦ ⟨nofun, fun _ ↦ ?_⟩, hi.lateStarts, hi.overlaps⟩
  rcases eq_or_ne u t with rfl | hne
  · simp
  · simpa [hne] using hsubmit u

theorem Inv.start (hi : Inv s) {t : T} {i : ℕ} (hs : start serial s.mem i = some (m, l)) :
    Inv ⟨m, Function.update s.loc t l⟩ := by
  unfold Cancellation.start at hs
  split at hs
  · cases hs
  obtain ⟨kind, hitem, hs⟩ := Option.map_eq_some_iff.mp hs
  have hmem : kind ∈ s.mem.items := List.mem_of_getElem? hitem
  cases kind with
  | event =>
      cases hs
      have hflag : s.mem.cancelled = false :=
        Bool.eq_false_iff.mpr fun hset ↦ (hi.after hset).1 hmem
      obtain ⟨hreturned, hcancel⟩ := hi.before hflag
      refine hi.move rfl (fun _ ↦ ⟨hreturned, fun h ↦ hcancel (List.mem_of_mem_eraseIdx h)⟩)
        (fun hset ↦ ?_) ⟨fun _ ↦ ⟨nofun, nofun, nofun, nofun⟩, fun _ ↦ nofun⟩ ?_ hi.overlaps
      · cases hflag.symm.trans hset
      · simp [Mem.started, hreturned, hi.lateStarts]
  | cancel =>
      cases hs
      have hflag : s.mem.cancelled := by
        by_contra hset
        exact (hi.before (Bool.eq_false_iff.mpr hset)).2 hmem
      obtain ⟨hitems, hevents⟩ := hi.after hflag
      refine hi.move rfl (fun hset ↦ ?_)
        (fun _ ↦ ⟨fun h ↦ hitems (List.mem_of_mem_eraseIdx h), hevents⟩)
        ⟨fun hset ↦ ?_, fun _ ↦ nofun⟩ hi.lateStarts ?_
      · cases hflag.symm.trans hset
      · cases hflag.symm.trans hset
      · simp [Mem.started, hevents, hi.overlaps]

omit [DecidableEq T] in
theorem Inv.cancelled (hi : Inv s) {t : T}
    (hloc : s.loc t = .onCancel ∨ s.loc t = .cancelTake ∨ s.loc t = .cancelSubmit ∨
      s.loc t = .running .cancel) : s.mem.cancelled := by
  by_contra hset
  obtain ⟨h₁, h₂, h₃, h₄⟩ := (hi.fits t).before (Bool.eq_false_iff.mpr hset)
  rcases hloc with h | h | h | h
  · exact h₁ h
  · exact h₂ h
  · exact h₃ h
  · exact h₄ h

theorem Inv.go (hi : Inv s) {t : T} (hs : go s.mem (s.loc t) = some (m, l)) :
    Inv ⟨m, Function.update s.loc t l⟩ := by
  have hkeep : ∀ l', Fits s.mem l' → Inv ⟨s.mem, Function.update s.loc t l'⟩ := fun l' hl' ↦
    hi.move rfl hi.before hi.after hl' hi.lateStarts hi.overlaps
  cases hloc : s.loc t with
  | idle =>
      rw [hloc] at hs
      cases hs
  | notifyHandler =>
      rw [hloc] at hs
      cases hs
      refine hkeep _ ?_
      split
      · exact ⟨fun _ ↦ ⟨nofun, nofun, nofun, nofun⟩, fun _ ↦ nofun⟩
      · exact fits_idle
  | notifyCancelled =>
      rw [hloc] at hs
      cases hs
      refine hkeep _ ?_
      split
      · exact fits_idle
      · rename_i hset
        exact ⟨fun _ ↦ ⟨nofun, nofun, nofun, nofun⟩, fun h ↦ absurd h hset⟩
  | notifySubmit =>
      rw [hloc] at hs
      cases hs
      have hflag : s.mem.cancelled = false :=
        Bool.eq_false_iff.mpr fun hset ↦ (hi.fits t).after hset hloc
      obtain ⟨hreturned, hcancel⟩ := hi.before hflag
      refine hi.move rfl (fun _ ↦ ⟨hreturned, by simpa using hcancel⟩) (fun hset ↦ ?_) fits_idle
        hi.lateStarts hi.overlaps
      cases hflag.symm.trans hset
  | onCancel =>
      have hflag := hi.cancelled (.inl hloc)
      rw [hloc] at hs
      cases hs
      refine hkeep _ ⟨fun hset ↦ ?_, fun _ ↦ nofun⟩
      cases hflag.symm.trans hset
  | cancelTake =>
      have hflag := hi.cancelled (.inr (.inl hloc))
      rw [hloc] at hs
      simp only [Cancellation.go] at hs
      split at hs
      · cases hs
        refine hi.move rfl (fun hset ↦ ?_) hi.after ⟨fun hset ↦ ?_, fun _ ↦ nofun⟩ hi.lateStarts
          hi.overlaps
        · cases hflag.symm.trans hset
        · cases hflag.symm.trans hset
      · cases hs
        refine hi.move rfl (fun hset ↦ ?_) hi.after fits_idle hi.lateStarts hi.overlaps
        cases hflag.symm.trans hset
  | cancelSubmit =>
      have hflag := hi.cancelled (.inr (.inr (.inl hloc)))
      rw [hloc] at hs
      cases hs
      obtain ⟨hitems, hevents⟩ := hi.after hflag
      refine hi.move rfl (fun hset ↦ ?_) (fun _ ↦ ⟨by simpa using hitems, hevents⟩) fits_idle
        hi.lateStarts hi.overlaps
      cases hflag.symm.trans hset
  | running kind =>
      rw [hloc] at hs
      cases kind with
      | event =>
          cases hs
          refine hi.move rfl hi.before (fun hset ↦ ⟨(hi.after hset).1, ?_⟩) fits_idle hi.lateStarts
            hi.overlaps
          simp [(hi.after hset).2]
      | cancel =>
          cases hs
          exact hi.move rfl hi.before hi.after fits_idle hi.lateStarts hi.overlaps

theorem Inv.step (hi : Inv s) {t : T} {a : Act} (hc : Quiet s t a)
    (hs : step serial t a s.mem (s.loc t) = some (m, l)) : Inv ⟨m, Function.update s.loc t l⟩ := by
  by_cases hgo : a = .go
  · subst hgo
    exact hi.go hs
  by_cases hloc : s.loc t = .idle
  · rw [hloc] at hs
    cases a with
    | go => exact absurd rfl hgo
    | setHandler | setCancelHandler | resume | suspend =>
        cases hs
        exact hi.move rfl hi.before hi.after fits_idle hi.lateStarts hi.overlaps
    | notify =>
        cases hs
        refine hi.move rfl hi.before hi.after ?_ hi.lateStarts hi.overlaps
        split
        · exact fits_idle
        · exact ⟨fun _ ↦ ⟨nofun, nofun, nofun, nofun⟩, fun _ ↦ nofun⟩
    | cancel =>
        simp only [Cancellation.step] at hs
        split at hs
        · rename_i hset
          cases hs
          refine hi.move rfl (fun hnot ↦ ?_) hi.after fits_idle hi.lateStarts hi.overlaps
          cases hset.symm.trans hnot
        · rename_i hset
          cases hs
          exact hi.cancel hc (Bool.eq_false_iff.mpr hset)
    | start i => exact hi.start hs
  · have hnone : Cancellation.step serial t a s.mem (s.loc t) = none := by
      cases hl : s.loc t with
      | idle => exact absurd hl hloc
      | _ =>
          cases a with
          | go => exact absurd rfl hgo
          | _ => rfl
    cases hnone.symm.trans hs

omit [DecidableEq T] in
theorem inv_initial : Inv (initial T) :=
  ⟨fun _ ↦ ⟨rfl, nofun⟩, nofun, fun _ ↦ fits_idle, rfl, rfl⟩

/-- If the first `cancel()` finds no notification on its way, then no event handler starts
after a call of `cancel()` has returned, and none runs when the cancel handler starts. -/
theorem events_end_with_cancel (h : Pool.Runs (step serial) Quiet (initial T) s) :
    s.mem.lateStarts = 0 ∧ s.mem.overlaps = 0 := by
  have hi : Inv s := h.invariant (I := Inv) inv_initial fun _ _ _ _ _ _ hi hc hs ↦ hi.step hc hs
  exact ⟨hi.lateStarts, hi.overlaps⟩

instance {T : Type*} [Fintype T] (s : Pool T Mem Loc) (t : T) : ∀ a, Decidable (Quiet s t a)
  | .cancel => inferInstanceAs (Decidable (s.mem.cancelled = false →
      (∀ u, s.loc u ≠ .notifySubmit) ∧ .event ∉ s.mem.items ∧ s.mem.events = 0))
  | .setHandler | .setCancelHandler | .resume | .suspend | .notify | .start _ | .go =>
      inferInstanceAs (Decidable True)

def prepared : List (Fin 2 × Act) := [(0, .setHandler), (0, .setCancelHandler), (0, .resume)]

def notified : List (Fin 2 × Act) := [(0, .notify), (0, .go), (0, .go), (0, .go)]

/-- A call of `cancel()` from the beginning to the end. -/
def cancelled : List (Fin 2 × Act) := [(0, .cancel), (0, .go), (0, .go), (0, .go)]

/-- The event handler has run before `cancel()` is called; the cancel handler runs. -/
def quietState : Pool (Fin 2) Mem Loc :=
  ((initial (Fin 2)).run (step false) Quiet
    (prepared ++ notified ++ [(1, .start 0), (1, .go)] ++ cancelled ++
      [(0, .notify), (1, .start 0)])).get
      (by decide)

theorem events_end_with_cancel_quiet :
    quietState.mem.cancels = 1 ∧ quietState.mem.lateStarts = 0 ∧ quietState.mem.overlaps = 0 :=
  ⟨by decide, events_end_with_cancel (Pool.runs_get _)⟩

/-- An accepted notification waits while `cancel()` is called, and starts after that, on a
serial queue and on a concurrent one.  On a concurrent queue the cancel handler starts while
the event handler is running. -/
theorem events_outlast_cancel :
    (∀ serial : Bool, ∃ s : Pool (Fin 2) Mem Loc,
      Pool.Reachable (step serial) (initial (Fin 2)) s ∧ s.mem.lateStarts = 1) ∧
      ∃ s : Pool (Fin 2) Mem Loc,
        Pool.Reachable (step false) (initial (Fin 2)) s ∧ s.mem.overlaps = 1 := by
  constructor
  · intro serial
    have hrun : ((initial (Fin 2)).run (step serial) (fun _ _ _ ↦ True)
        (prepared ++ notified ++ cancelled ++ [(1, .start 0)])).isSome := by
      cases serial <;> decide
    refine ⟨_, Pool.runs_get hrun, ?_⟩
    cases serial <;> decide +revert
  · have hrun : ((initial (Fin 2)).run (step false) (fun _ _ _ ↦ True)
        (prepared ++ notified ++ [(1, .start 0)] ++ cancelled ++
          [(0, .start 0)])).isSome := by decide
    exact ⟨_, Pool.runs_get hrun, by decide +revert⟩

end LibDispatch.Wrapper.Cancellation
