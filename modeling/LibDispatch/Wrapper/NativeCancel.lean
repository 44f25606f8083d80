import LibDispatch.Interleaving.Refinement
import LibDispatch.Source.Cancel

/-!
# Cancelling a source of the C++ library that wraps a native one

`source::cancel` cancels the native source, which takes two hops: to the manager queue, where
it is unregistered, and back to its target queue.  The cancel handler that was given to the
C++ source goes another way.  It is submitted to the target queue as soon as
`dispatch_source_cancel` has returned.
-/

namespace LibDispatch.Wrapper.NativeCancel

open Interleaving

/-! ## The model -/

/-- The native source, the private data of the C++ source, and its cancel handlers on the
target queue.  The last field is history: whether `ds_dkev` was not null, and whether the
native source was on a list `dk_sources`, at the start of each cancel handler. -/
structure Mem (Q : Type*) where
  native : Source.Mem Q
  cancelled : Bool
  cancelHandler : Bool
  items : ℕ
  starts : List (Bool × Bool)

inductive Place
  | outside
  | onCancel
  | cancelling
  | take
  | submit
  | handler
  deriving DecidableEq

structure Loc (Q : Type*) where
  place : Place
  native : Source.Loc Q
  deriving DecidableEq

inductive Act (Q : Type*)
  | native (a : Source.Act Q)
  | setCancelHandler
  | cancel
  | start
  | go
  deriving DecidableEq

variable {T Q : Type*} [DecidableEq T] [DecidableEq Q]

def nativeStep (set : Source.Setting T Q) (t : T) (a : Source.Act Q) (m : Mem Q) (l : Loc Q) :
    Option (Mem Q × Loc Q) :=
  (Source.step set t a m.native l.native).map fun r ↦
    ({ m with native := r.1 }, { l with native := r.2 })

/-- The calls on the C++ source, and a worker of the target queue that takes the operation of
the cancel handler. -/
def call (m : Mem Q) (l : Loc Q) : Act Q → Option (Mem Q × Loc Q)
  | .setCancelHandler => some ({ m with cancelHandler := true }, l)
  | .cancel =>
      if m.cancelled then some (m, l)
      else some ({ m with cancelled := true }, { l with place := .onCancel })
  | .start =>
      if 0 < m.items then
        some ({ m with
          items := m.items - 1
          starts := (m.native.dsDkev, m.native.dkSources) :: m.starts },
        { l with place := .handler })
      else none
  | _ => none

/-- The rest of `source::cancel`, and the end of the cancel handler. -/
def go (set : Source.Setting T Q) (t : T) (m : Mem Q) (l : Loc Q) : Option (Mem Q × Loc Q) :=
  match l.place with
  | .outside => none
  | .onCancel => nativeStep set t .cancel m { l with place := .cancelling }
  | .cancelling => some (m, { l with place := .take })
  | .take =>
      if m.cancelHandler then some ({ m with cancelHandler := false }, { l with place := .submit })
      else some (m, { l with place := .outside })
  | .submit => some ({ m with items := m.items + 1 }, { l with place := .outside })
  | .handler => some (m, { l with place := .outside })

/-- One step of a thread: in a function of the C library, which inside of `source::cancel` is
the rest of `dispatch_source_cancel`, or outside of all of them. -/
def step (set : Source.Setting T Q) : Program T (Act Q) (Mem Q) (Loc Q) := fun t a m l ↦
  match a with
  | .native a =>
      if l.place = .outside ∨ (l.place = .cancelling ∧ (a = .go ∨ a = .found)) then
        nativeStep set t a m l
      else none
  | .go => if l.native = .idle then go set t m l else none
  | a => if l.native = .idle ∧ l.place = .outside then call m l a else none

def initial (tq : Q) (mask : BitVec 64) (needsRearm : Bool) : Pool T (Mem Q) (Loc Q) where
  mem := ⟨(Source.created (T := T) tq mask needsRearm).mem, false, false, 0, []⟩
  loc _ := ⟨.outside, .idle⟩

variable {set : Source.Setting T Q} {tq : Q} {mask : BitVec 64} {needsRearm : Bool}
  {s : Pool T (Mem Q) (Loc Q)} {m m' : Mem Q} {l l' : Loc Q} {t : T}

/-! ## Steps -/

inductive Trans (set : Source.Setting T Q) (t : T) (a : Act Q) (m : Mem Q) (l : Loc Q) :
    Mem Q → Loc Q → Prop
  | native {b : Source.Act Q} {n : Source.Mem Q} {ln : Source.Loc Q} {place : Place} :
      Source.step set t b m.native l.native = some (n, ln) →
      (place ≠ .outside → l.place ≠ .outside) → Trans set t a m l { m with native := n } ⟨place, ln⟩
  | setCancelHandler : Trans set t a m l { m with cancelHandler := true } l
  | cancel : a = .cancel → m.cancelled = false →
      Trans set t a m l { m with cancelled := true } { l with place := .onCancel }
  | cancelAgain : m.cancelled → Trans set t a m l m l
  | move {place : Place} : l.place ≠ .outside → Trans set t a m l m { l with place }
  | take : l.place ≠ .outside →
      Trans set t a m l { m with cancelHandler := false } { l with place := .submit }
  | submit : l.place = .submit →
      Trans set t a m l { m with items := m.items + 1 } { l with place := .outside }
  | start : 0 < m.items → Trans set t a m l
      { m with
        items := m.items - 1
        starts := (m.native.dsDkev, m.native.dkSources) :: m.starts } { l with place := .handler }

theorem trans_of_nativeStep {a : Act Q} {b : Source.Act Q} {place : Place}
    (hplace : place ≠ .outside → l.place ≠ .outside)
    (h : nativeStep set t b m { l with place } = some (m', l')) : Trans set t a m l m' l' := by
  obtain ⟨r, hr, heq⟩ := Option.map_eq_some_iff.mp h
  cases heq
  exact .native hr hplace

theorem trans_of_go {a : Act Q} (h : go set t m l = some (m', l')) : Trans set t a m l m' l' := by
  unfold go at h
  split at h <;> rename_i hplace
  · cases h
  · exact trans_of_nativeStep (by rw [hplace]; nofun) h
  · cases h
    exact .move (by rw [hplace]; nofun)
  · split at h
    · cases h
      exact .take (by rw [hplace]; nofun)
    · cases h
      exact .move (by rw [hplace]; nofun)
  · cases h
    exact .submit hplace
  · cases h
    exact .move (by rw [hplace]; nofun)

theorem trans_of_call {a : Act Q} (h : call m l a = some (m', l')) : Trans set t a m l m' l' := by
  cases a with
  | native | go => cases h
  | setCancelHandler =>
      cases h
      exact .setCancelHandler
  | cancel =>
      simp only [call] at h
      split at h
      · cases h
        exact .cancelAgain ‹_›
      · cases h
        exact .cancel rfl (Bool.eq_false_iff.mpr ‹_›)
  | start =>
      simp only [call, Option.ite_none_right_eq_some] at h
      obtain ⟨hpos, heq⟩ := h
      cases heq
      exact .start hpos

theorem trans_of_step {a : Act Q} (h : step set t a m l = some (m', l')) :
    Trans set t a m l m' l' := by
  cases a with
  | native a =>
      simp only [step, Option.ite_none_right_eq_some] at h
      exact trans_of_nativeStep id h.2
  | go =>
      simp only [step, Option.ite_none_right_eq_some] at h
      exact trans_of_go h.2
  | _ =>
      simp only [step, Option.ite_none_right_eq_some] at h
      exact trans_of_call h.2

theorem native_of_run {C : Pool T (Mem Q) (Loc Q) → T → Act Q → Prop}
    (h : Pool.Runs (step set) C (initial tq mask needsRearm) s) :
    Pool.Reachable (Source.step set) (Source.created tq mask needsRearm)
      ⟨s.mem.native, fun t ↦ (s.loc t).native⟩ := by
  refine h.refines Mem.native Loc.native fun t a m l m' l' hs ↦ ?_
  cases trans_of_step hs
  case native hnative _ => exact .inr ⟨_, hnative⟩
  all_goals exact .inl ⟨rfl, rfl⟩

/-! ## Handlers that are submitted in time -/

def Unregistered (m : Mem Q) : Prop := m.native.dsDkev = false ∧ m.native.dkSources = false

instance (m : Mem Q) : Decidable (Unregistered m) := inferInstanceAs (Decidable (_ ∧ _))

/-- A cancel handler is submitted only when the native source has been unregistered. -/
def SubmitsLate (s : Pool T (Mem Q) (Loc Q)) (t : T) (_ : Act Q) : Prop :=
  (s.loc t).place = .submit → Unregistered s.mem

instance (s : Pool T (Mem Q) (Loc Q)) (t : T) (a : Act Q) : Decidable (SubmitsLate s t a) :=
  inferInstanceAs (Decidable (_ → _))

structure Inv (m : Mem Q) : Prop where
  items : 0 < m.items → Unregistered m
  starts : ∀ p ∈ m.starts, p = (false, false)

theorem Inv.step (hi : Inv s.mem) {a : Act Q}
    (ho : Source.Ordered set s.mem.native fun t ↦ (s.loc t).native) (hc : SubmitsLate s t a)
    (hs : Trans set t a s.mem (s.loc t) m l) : Inv m := by
  cases hs with
  | native hnative hplace =>
      refine ⟨fun hpos ↦ ?_, hi.starts⟩
      obtain ⟨hdkev, hsources⟩ := hi.items hpos
      exact Source.unregistered_step ho (Source.trans_of_step hnative) hdkev hsources
  | submit hplace => exact ⟨fun _ ↦ hc hplace, hi.starts⟩
  | start hpos =>
      obtain ⟨hdkev, hsources⟩ := hi.items hpos
      refine ⟨fun _ ↦ ⟨hdkev, hsources⟩, fun p hp ↦ ?_⟩
      rcases List.mem_cons.mp hp with rfl | hp
      · rw [hdkev, hsources]
      · exact hi.starts p hp
  | setCancelHandler | cancel | cancelAgain | move | take => exact ⟨hi.items, hi.starts⟩

theorem starts_of_submit (set : Source.Setting T Q) (ht : s.loc t = ⟨.submit, .idle⟩) :
    ∃ s', Pool.Runs (step set) (fun _ u _ ↦ u = t) s s' ∧
      s'.mem.starts = (s.mem.native.dsDkev, s.mem.native.dkSources) :: s.mem.starts := by
  have hsubmit : Pool.Alone (step set) t (s.mem, ⟨.submit, .idle⟩)
    ({ s.mem with items := s.mem.items + 1 }, ⟨.outside, .idle⟩) := ⟨.go, rfl⟩
  let m' : Mem Q :=
    { s.mem with
      items := s.mem.items + 1 - 1
      starts := (s.mem.native.dsDkev, s.mem.native.dkSources) :: s.mem.starts }
  have hstart : Pool.Alone (step set) t
    ({ s.mem with items := s.mem.items + 1 }, ⟨.outside, .idle⟩) (m', ⟨.handler, .idle⟩) :=
    ⟨.start, rfl⟩
  exact ⟨_, Pool.Runs.of_alone ht ((Relation.ReflTransGen.single hsubmit).tail hstart), rfl⟩

/-- If every cancel handler is submitted when the native source has been unregistered, then it is
so at the start of every cancel handler.  A handler that is submitted earlier can be started at
once, while the native source is registered. -/
theorem cancelHandler_after_unregistered [Fintype T] :
    (∀ s : Pool T (Mem Q) (Loc Q),
      Pool.Runs (step set) SubmitsLate (initial tq mask needsRearm) s →
      ∀ p ∈ s.mem.starts, p = (false, false)) ∧
    ∀ (s : Pool T (Mem Q) (Loc Q)) (t : T),
      Pool.Reachable (step set) (initial tq mask needsRearm) s →
      s.loc t = ⟨.submit, .idle⟩ → ¬ Unregistered s.mem →
      ∃ s', Pool.Runs (step set) (fun _ u _ ↦ u = t) s s' ∧
        ∃ p ∈ s'.mem.starts, p ≠ (false, false) := by
  constructor
  · intro s h
    have hi : Inv s.mem := h.invariant (I := fun s ↦ Inv s.mem) ⟨nofun, nofun⟩
      fun s t a m l hr hi hc hs ↦
        hi.step (Source.ordered_of_run (native_of_run hr)) hc (trans_of_step hs)
    exact hi.starts
  · intro s t _ ht hreg
    obtain ⟨s', hrun, hstarts⟩ := starts_of_submit set ht
    refine ⟨s', hrun, _, by rw [hstarts]; exact List.mem_cons_self, fun heq ↦ hreg ?_⟩
    exact Prod.mk.inj heq

/-- A call of the C library and `n` steps inside of it. -/
def nativeCall (t : Fin 3) (a : Source.Act (Fin 2)) (n : ℕ) : List (Fin 3 × Act (Fin 2)) :=
  (t, .native a) :: List.replicate n (t, .native .go)

/-- The native source is resumed and registered by the manager, which is thread 1; thread 2 is a
worker of the target queue. -/
def registered : List (Fin 3 × Act (Fin 2)) :=
  nativeCall 0 .resume 6 ++ nativeCall 2 (.invoke 0) 9 ++ nativeCall 1 (.invoke 1) 21

/-- A cancel handler is set and `cancel()` called, up to the submission of the handler. -/
def cancelled : List (Fin 3 × Act (Fin 2)) :=
  [(0, Act.setCancelHandler), (0, Act.cancel), (0, Act.go)] ++
    List.replicate 11 (0, Act.native .go) ++ [(0, Act.go), (0, Act.go)]

/-- The handler is submitted, and worker 2 starts it. -/
def submitted : List (Fin 3 × Act (Fin 2)) := [(0, Act.go), (2, Act.start)]

/-- The native source is unregistered in two hops before the handler is submitted. -/
def unregisteredState : Pool (Fin 3) (Mem (Fin 2)) (Loc (Fin 2)) :=
  ((initial 0 0 false).run (step ⟨1, 1, false, true⟩) SubmitsLate
    (registered ++ cancelled ++ nativeCall 2 (.invoke 0) 11 ++ nativeCall 1 (.invoke 1) 17 ++
      submitted)).get (by decide)

theorem cancelHandler_after_unregistered_native :
    unregisteredState.mem.starts = [(false, false)] ∧
      ∀ p ∈ unregisteredState.mem.starts, p = (false, false) :=
  ⟨by decide, cancelHandler_after_unregistered.1 _ (Pool.runs_get _)⟩

/-- The cancel handler is called before the manager has done anything about the
cancellation. -/
theorem cancelHandler_before_unregistered :
    ∃ s : Pool (Fin 3) (Mem (Fin 2)) (Loc (Fin 2)),
      Pool.Reachable (step ⟨1, 1, false, true⟩) (initial 0 0 false) s ∧
        s.mem.starts = [(true, true)] := by
  have hrun : ((initial 0 0 false).run (step ⟨1, 1, false, true⟩) (fun _ _ _ ↦ True)
      (registered ++ cancelled ++ submitted)).isSome := by decide
  exact ⟨_, Pool.runs_get hrun, by decide +revert⟩

end LibDispatch.Wrapper.NativeCancel
