import LibDispatch.Semaphore.Model

/-!
# Reference counts of dispatch objects

One object of `object.c`: `do_ref_cnt` counts the references of the library,
`do_xref_cnt` those of its clients, and all external references together own
one internal reference.  Each load of a count, each atomic increment or
decrement and each test after it is a step of its own.

The references that are owned at a moment are kept as two numbers beside the
counts.  It does not matter to the object who owns them, so a reference may
pass from one thread to another at any time.
-/

namespace LibDispatch.Object

open Interleaving

/-- `DISPATCH_OBJECT_GLOBAL_REFCNT`: the constant `~0u`, widened to `intptr_t`. -/
def globalRefcnt : ℤ := 2 ^ 32 - 1

/-- The vtables: a group is a semaphore. -/
inductive Kind
  | queue
  | source
  | semaphore
  deriving DecidableEq, Repr

inductive Crash
  | resurrection
  | overReleaseExternal
  | releaseSuspended
  | releaseEnqueued
  | releaseExternal
  | overRelease
  | releaseByItself
  | releaseWithItems
  | deallocatedInUse
  deriving DecidableEq, Repr

/-- The crashes of `_dispatch_queue_dispose` and `_dispatch_semaphore_dispose`, which look
at the state of the queue or the semaphore. -/
def Kind.disposeCrashes : Kind → List Crash
  | .queue | .source => [.releaseByItself, .releaseWithItems]
  | .semaphore => [.deallocatedInUse]

/-- The object.  `finalizes` stands for `do_finalizer && do_ctxt`, and `listless`
for `do_next == DISPATCH_OBJECT_LISTLESS`; the list on which the object is linked owns a
reference.  The references that clients and other internal holders own and the last three
fields are history: the calls of the type's dispose function, the finalizers submitted and
the queues that `_dispatch_dispose` has released. -/
structure Mem (Q : Type*) where
  doRefCnt : ℤ
  doXrefCnt : ℤ
  listless : Bool
  suspended : Bool
  targetq : Q
  finalizes : Bool
  external : ℕ
  internal : ℕ
  disposes : ℕ
  finalizers : List Q
  targetReleases : List Q
  deriving DecidableEq, Repr

def Mem.Held {Q : Type*} (m : Mem Q) : Prop :=
  0 < m.external ∨ 0 < m.internal ∨ m.listless = false
  deriving Decidable

/-- Where a thread stands: in front of the test for a global object, of the atomic
operation or of the tests that follow it. -/
inductive Loc (Q : Type*)
  | idle
  | retainTest
  | retainInc
  | retainInternalTest
  | retainInternalInc
  | releaseTest
  | releaseDec
  | suspendedTest
  | wakeup
  | wakeupTest
  | wakeupInc
  | releaseInternalTest
  | releaseInternalDec
  | nextTest
  | xrefTest
  | dispose
  | disposeRead
  | finalize (tq : Q) (finalizes : Bool)
  | releaseTarget (tq : Q)
  | crashed (c : Crash)
  deriving DecidableEq, Repr

inductive Act (Q : Type*)
  | retain
  | release
  | retainInternal
  | releaseInternal
  | push
  | pop
  | suspend (suspended : Bool)
  | setTarget (tq : Q)
  | setFinalizer (finalizes : Bool)
  | go
  | wake
  | trap (c : Crash)
  deriving DecidableEq, Repr

variable {Q T : Type*}

def dispatchRetain (m : Mem Q) : Loc Q → Option (Mem Q × Loc Q)
  | .retainTest =>
      if m.doXrefCnt = globalRefcnt then
        some ({ m with external := m.external + 1 }, .idle)
      else
        some (m, .retainInc)
  | .retainInc =>
      let value := wrap (m.doXrefCnt + 1)
      let m' := { m with doXrefCnt := value, external := m.external + 1 }
      if wrap (value - 1) = 0 then some (m', .crashed .resurrection) else some (m', .idle)
  | _ => none

/-- `_dispatch_retain`, called by an internal holder or by `_dispatch_wakeup` at the end
of `_dispatch_source_xref_release`; `next` is where the caller goes on. -/
def dispatchRetainInternal (m : Mem Q) (inc next : Loc Q) : Mem Q × Loc Q :=
  if m.doRefCnt = globalRefcnt then
    ({ m with internal := m.internal + 1 }, next)
  else
    (m, inc)

def dispatchRetainInternalInc (m : Mem Q) (next : Loc Q) : Mem Q × Loc Q :=
  let value := wrap (m.doRefCnt + 1)
  let m' := { m with doRefCnt := value, internal := m.internal + 1 }
  if wrap (value - 1) = 0 then (m', .crashed .resurrection) else (m', next)

def dispatchRelease (kind : Kind) (m : Mem Q) : Loc Q → Option (Mem Q × Loc Q)
  | .releaseTest =>
      if m.doXrefCnt = globalRefcnt then some (m, .idle) else some (m, .releaseDec)
  | .releaseDec =>
      let value := wrap (m.doXrefCnt - 1)
      let oldval := wrap (value + 1)
      let m' := { m with doXrefCnt := value }
      if oldval > 1 then some (m', .idle)
      else if oldval = 1 then some (m', .suspendedTest)
      else some (m', .crashed .overReleaseExternal)
  | .suspendedTest =>
      if m.suspended then some (m, .crashed .releaseSuspended)
      else if kind = .source then some (m, .wakeup)
      else some (m, .releaseInternalTest)
  | .wakeup => some (m, .releaseInternalTest)
  | _ => none

def dispatchReleaseInternal (m : Mem Q) : Loc Q → Option (Mem Q × Loc Q)
  | .releaseInternalTest =>
      if m.doRefCnt = globalRefcnt then some (m, .idle) else some (m, .releaseInternalDec)
  | .releaseInternalDec =>
      let value := wrap (m.doRefCnt - 1)
      let oldval := wrap (value + 1)
      let m' := { m with doRefCnt := value }
      if oldval > 1 then some (m', .idle)
      else if oldval = 1 then some (m', .nextTest)
      else some (m', .crashed .overRelease)
  | .nextTest =>
      if m.listless then some (m, .xrefTest) else some (m, .crashed .releaseEnqueued)
  | .xrefTest =>
      if m.doXrefCnt = 0 then some (m, .dispose) else some (m, .crashed .releaseExternal)
  | .dispose => some ({ m with disposes := m.disposes + 1 }, .disposeRead)
  | _ => none

/-- `_dispatch_dispose`, reached from the type's own dispose function.  Nobody else has the
object any more, so its fields are read at once. -/
def dispatchDispose (m : Mem Q) : Loc Q → Option (Mem Q × Loc Q)
  | .disposeRead => some (m, .finalize m.targetq m.finalizes)
  | .finalize tq finalizes =>
      if finalizes then some ({ m with finalizers := tq :: m.finalizers }, .releaseTarget tq)
      else some (m, .releaseTarget tq)
  | .releaseTarget tq => some ({ m with targetReleases := tq :: m.targetReleases }, .idle)
  | _ => none

/-- A call.  Who releases a reference owns it and gives it up with the call; the other
fields of the object are written by those who own a reference. -/
def call (m : Mem Q) : Act Q → Option (Mem Q × Loc Q)
  | .retain => some (m, .retainTest)
  | .release =>
      if 0 < m.external then some ({ m with external := m.external - 1 }, .releaseTest) else none
  | .retainInternal => some (m, .retainInternalTest)
  | .releaseInternal =>
      if 0 < m.internal then
        some ({ m with internal := m.internal - 1 }, .releaseInternalTest)
      else none
  | .push =>
      if 0 < m.internal ∧ m.listless then
        some ({ m with internal := m.internal - 1, listless := false }, .idle)
      else none
  | .pop =>
      if m.listless then none
      else some ({ m with internal := m.internal + 1, listless := true }, .idle)
  | .suspend suspended => if m.Held then some ({ m with suspended }, .idle) else none
  | .setTarget targetq => if m.Held then some ({ m with targetq }, .idle) else none
  | .setFinalizer finalizes => if m.Held then some ({ m with finalizes }, .idle) else none
  | _ => none

def step (kind : Kind) : Program T (Act Q) (Mem Q) (Loc Q) := fun _ a m l ↦
  match l, a with
  | .idle, a => call m a
  | .retainTest, .go | .retainInc, .go => dispatchRetain m l
  | .retainInternalTest, .go => some (dispatchRetainInternal m .retainInternalInc .idle)
  | .retainInternalInc, .go => some (dispatchRetainInternalInc m .idle)
  | .wakeup, .wake => some (m, .wakeupTest)
  | .wakeupTest, .go => some (dispatchRetainInternal m .wakeupInc .releaseInternalTest)
  | .wakeupInc, .go => some (dispatchRetainInternalInc m .releaseInternalTest)
  | .releaseTest, .go | .releaseDec, .go | .suspendedTest, .go | .wakeup, .go =>
      dispatchRelease kind m l
  | .releaseInternalTest, .go | .releaseInternalDec, .go | .nextTest, .go | .xrefTest, .go
  | .dispose, .go => dispatchReleaseInternal m l
  | .disposeRead, .trap c => if c ∈ kind.disposeCrashes then some (m, .crashed c) else none
  | .disposeRead, .go | .finalize _ _, .go | .releaseTarget _, .go => dispatchDispose m l
  | _, _ => none

/-- A new object: its creator owns an external reference, and the manager queue an internal
one to a source, which starts suspended. -/
def created (kind : Kind) (targetq : Q) : Pool T (Mem Q) (Loc Q) where
  mem :=
    { doRefCnt := if kind = .source then 2 else 1
      doXrefCnt := 1
      listless := true
      suspended := decide (kind = .source)
      targetq
      finalizes := false
      external := 1
      internal := if kind = .source then 1 else 0
      disposes := 0
      finalizers := []
      targetReleases := [] }
  loc := fun _ ↦ .idle

/-! ## The clients' part -/

/-- While a reference is being taken, one of the kind that makes this possible is owned: an
external one for an external reference, any one for an internal reference. -/
def Owned (s : Pool T (Mem Q) (Loc Q)) (t : T) (_ : Act Q) : Prop :=
  (s.loc t = .retainTest ∨ s.loc t = .retainInc → 0 < s.mem.external) ∧
    (s.loc t = .retainInternalTest ∨ s.loc t = .retainInternalInc → s.mem.Held)

/-- No count is brought up to the value that marks global objects. -/
def Below (s : Pool T (Mem Q) (Loc Q)) (t : T) (_ : Act Q) : Prop :=
  (s.loc t = .retainInc → s.mem.doXrefCnt + 1 < globalRefcnt) ∧
    (s.loc t = .retainInternalInc ∨ s.loc t = .wakeupInc → s.mem.doRefCnt + 1 < globalRefcnt)

/-- References are taken by owners, and stay below the bound. -/
def Disciplined (s : Pool T (Mem Q) (Loc Q)) (t : T) (a : Act Q) : Prop :=
  Owned s t a ∧ Below s t a

instance [DecidableEq Q] (s : Pool T (Mem Q) (Loc Q)) (t : T) (a : Act Q) :
    Decidable (Disciplined s t a) :=
  inferInstanceAs (Decidable (((_ → _) ∧ (_ → _)) ∧ ((_ → _) ∧ (_ → _))))

/-! ## What a step does -/

/-- The two places from which `_dispatch_retain` is called: the test, the increment, and
where the caller goes on. -/
inductive InternalRetain : Loc Q → Loc Q → Loc Q → Prop
  | holder : InternalRetain .retainInternalTest .retainInternalInc .idle
  | wakeup : InternalRetain .wakeupTest .wakeupInc .releaseInternalTest

/-- The transitions of one thread, with the conditions under which they are taken. -/
inductive Trans (kind : Kind) (m : Mem Q) : Loc Q → Mem Q → Loc Q → Prop
  | retain : Trans kind m .idle m .retainTest
  | release : 0 < m.external →
      Trans kind m .idle { m with external := m.external - 1 } .releaseTest
  | retainInternal : Trans kind m .idle m .retainInternalTest
  | releaseInternal : 0 < m.internal →
      Trans kind m .idle { m with internal := m.internal - 1 } .releaseInternalTest
  | push : 0 < m.internal → m.listless = true →
      Trans kind m .idle { m with internal := m.internal - 1, listless := false } .idle
  | pop : m.listless = false →
      Trans kind m .idle { m with internal := m.internal + 1, listless := true } .idle
  | suspend (suspended : Bool) : m.Held → Trans kind m .idle { m with suspended } .idle
  | setTarget (targetq : Q) : m.Held → Trans kind m .idle { m with targetq } .idle
  | setFinalizer (finalizes : Bool) : m.Held → Trans kind m .idle { m with finalizes } .idle
  | retainGlobal : m.doXrefCnt = globalRefcnt →
      Trans kind m .retainTest { m with external := m.external + 1 } .idle
  | retainCounted : Trans kind m .retainTest m .retainInc
  | retained : wrap (wrap (m.doXrefCnt + 1) - 1) ≠ 0 →
      Trans kind m .retainInc
        { m with doXrefCnt := wrap (m.doXrefCnt + 1), external := m.external + 1 } .idle
  | resurrected : wrap (wrap (m.doXrefCnt + 1) - 1) = 0 →
      Trans kind m .retainInc
        { m with doXrefCnt := wrap (m.doXrefCnt + 1), external := m.external + 1 }
        (.crashed .resurrection)
  | retainInternalGlobal {l l' l'' : Loc Q} : InternalRetain l l' l'' →
      m.doRefCnt = globalRefcnt → Trans kind m l { m with internal := m.internal + 1 } l''
  | retainInternalCounted {l l' l'' : Loc Q} : InternalRetain l l' l'' → Trans kind m l m l'
  | retainedInternal {l l' l'' : Loc Q} : InternalRetain l l' l'' →
      wrap (wrap (m.doRefCnt + 1) - 1) ≠ 0 →
      Trans kind m l'
        { m with doRefCnt := wrap (m.doRefCnt + 1), internal := m.internal + 1 } l''
  | resurrectedInternal {l l' l'' : Loc Q} : InternalRetain l l' l'' →
      wrap (wrap (m.doRefCnt + 1) - 1) = 0 →
      Trans kind m l'
        { m with doRefCnt := wrap (m.doRefCnt + 1), internal := m.internal + 1 }
        (.crashed .resurrection)
  | wake : Trans kind m .wakeup m .wakeupTest
  | noWake : Trans kind m .wakeup m .releaseInternalTest
  | releaseGlobal : m.doXrefCnt = globalRefcnt → Trans kind m .releaseTest m .idle
  | releaseCounted : Trans kind m .releaseTest m .releaseDec
  | released : wrap (wrap (m.doXrefCnt - 1) + 1) > 1 →
      Trans kind m .releaseDec { m with doXrefCnt := wrap (m.doXrefCnt - 1) } .idle
  | releasedLast : wrap (wrap (m.doXrefCnt - 1) + 1) = 1 →
      Trans kind m .releaseDec { m with doXrefCnt := wrap (m.doXrefCnt - 1) } .suspendedTest
  | overReleased : wrap (wrap (m.doXrefCnt - 1) + 1) < 1 →
      Trans kind m .releaseDec { m with doXrefCnt := wrap (m.doXrefCnt - 1) }
        (.crashed .overReleaseExternal)
  | releaseSuspended : m.suspended = true →
      Trans kind m .suspendedTest m (.crashed .releaseSuspended)
  | sourceReleased : kind = .source → Trans kind m .suspendedTest m .wakeup
  | objectReleased : kind ≠ .source → Trans kind m .suspendedTest m .releaseInternalTest
  | releaseInternalGlobal : m.doRefCnt = globalRefcnt →
      Trans kind m .releaseInternalTest m .idle
  | releaseInternalCounted : Trans kind m .releaseInternalTest m .releaseInternalDec
  | releasedInternal : wrap (wrap (m.doRefCnt - 1) + 1) > 1 →
      Trans kind m .releaseInternalDec { m with doRefCnt := wrap (m.doRefCnt - 1) } .idle
  | releasedInternalLast : wrap (wrap (m.doRefCnt - 1) + 1) = 1 →
      Trans kind m .releaseInternalDec { m with doRefCnt := wrap (m.doRefCnt - 1) } .nextTest
  | overReleasedInternal : wrap (wrap (m.doRefCnt - 1) + 1) < 1 →
      Trans kind m .releaseInternalDec { m with doRefCnt := wrap (m.doRefCnt - 1) }
        (.crashed .overRelease)
  | nextListless : m.listless = true → Trans kind m .nextTest m .xrefTest
  | nextEnqueued : m.listless = false → Trans kind m .nextTest m (.crashed .releaseEnqueued)
  | xrefZero : m.doXrefCnt = 0 → Trans kind m .xrefTest m .dispose
  | xrefExternal : m.doXrefCnt ≠ 0 → Trans kind m .xrefTest m (.crashed .releaseExternal)
  | dispose : Trans kind m .dispose { m with disposes := m.disposes + 1 } .disposeRead
  | trap {c : Crash} : c ∈ kind.disposeCrashes → Trans kind m .disposeRead m (.crashed c)
  | disposeRead : Trans kind m .disposeRead m (.finalize m.targetq m.finalizes)
  | finalizer {tq : Q} : Trans kind m (.finalize tq true)
      { m with finalizers := tq :: m.finalizers } (.releaseTarget tq)
  | noFinalizer {tq : Q} : Trans kind m (.finalize tq false) m (.releaseTarget tq)
  | releaseTarget {tq : Q} : Trans kind m (.releaseTarget tq)
      { m with targetReleases := tq :: m.targetReleases } .idle

theorem trans_of_call {kind : Kind} {a : Act Q} {m m' : Mem Q} {l' : Loc Q}
    (h : call m a = some (m', l')) : Trans kind m .idle m' l' := by
  cases a <;> simp only [call, Option.ite_none_right_eq_some, Option.ite_none_left_eq_some,
    Option.some.injEq, Prod.mk.injEq, reduceCtorEq] at h
  case retain => obtain ⟨rfl, rfl⟩ := h; exact .retain
  case release => obtain ⟨hpos, rfl, rfl⟩ := h; exact .release hpos
  case retainInternal => obtain ⟨rfl, rfl⟩ := h; exact .retainInternal
  case releaseInternal => obtain ⟨hpos, rfl, rfl⟩ := h; exact .releaseInternal hpos
  case push => obtain ⟨⟨hpos, hlist⟩, rfl, rfl⟩ := h; exact .push hpos hlist
  case pop => obtain ⟨hlist, rfl, rfl⟩ := h; exact .pop (by simpa using hlist)
  case suspend suspended => obtain ⟨hheld, rfl, rfl⟩ := h; exact .suspend suspended hheld
  case setTarget tq => obtain ⟨hheld, rfl, rfl⟩ := h; exact .setTarget tq hheld
  case setFinalizer finalizes =>
    obtain ⟨hheld, rfl, rfl⟩ := h
    exact .setFinalizer finalizes hheld

theorem trans_of_retain {kind : Kind} {m m' : Mem Q} {l l' : Loc Q}
    (h : dispatchRetain m l = some (m', l')) : Trans kind m l m' l' := by
  unfold dispatchRetain at h
  split at h
  · split at h <;> cases h
    · exact .retainGlobal ‹_›
    · exact .retainCounted
  · dsimp only at h
    split at h <;> cases h
    · exact .resurrected ‹_›
    · exact .retained ‹_›
  · cases h

theorem trans_of_retainInternal {kind : Kind} {m m' : Mem Q} {l inc next l' : Loc Q}
    (hl : InternalRetain l inc next)
    (h : some (dispatchRetainInternal m inc next) = some (m', l')) :
    Trans kind m l m' l' := by
  unfold dispatchRetainInternal at h
  split at h <;> cases h
  · exact .retainInternalGlobal hl ‹_›
  · exact .retainInternalCounted hl

theorem trans_of_retainInternalInc {kind : Kind} {m m' : Mem Q} {l inc next l' : Loc Q}
    (hl : InternalRetain l inc next) (h : some (dispatchRetainInternalInc m next) = some (m', l')) :
    Trans kind m inc m' l' := by
  unfold dispatchRetainInternalInc at h
  dsimp only at h
  split at h <;> cases h
  · exact .resurrectedInternal hl ‹_›
  · exact .retainedInternal hl ‹_›

theorem trans_of_release {kind : Kind} {m m' : Mem Q} {l l' : Loc Q}
    (h : dispatchRelease kind m l = some (m', l')) : Trans kind m l m' l' := by
  unfold dispatchRelease at h
  split at h
  · split at h <;> cases h
    · exact .releaseGlobal ‹_›
    · exact .releaseCounted
  · dsimp only at h
    split at h
    · cases h
      exact .released ‹_›
    · split at h <;> cases h
      · exact .releasedLast ‹_›
      · exact .overReleased (by omega)
  · split at h
    · cases h
      exact .releaseSuspended ‹_›
    · split at h <;> cases h
      · exact .sourceReleased ‹_›
      · exact .objectReleased ‹_›
  · cases h
    exact .noWake
  · cases h

theorem trans_of_releaseInternal {kind : Kind} {m m' : Mem Q} {l l' : Loc Q}
    (h : dispatchReleaseInternal m l = some (m', l')) : Trans kind m l m' l' := by
  unfold dispatchReleaseInternal at h
  split at h
  · split at h <;> cases h
    · exact .releaseInternalGlobal ‹_›
    · exact .releaseInternalCounted
  · dsimp only at h
    split at h
    · cases h
      exact .releasedInternal ‹_›
    · split at h <;> cases h
      · exact .releasedInternalLast ‹_›
      · exact .overReleasedInternal (by omega)
  · split at h <;> cases h
    · exact .nextListless ‹_›
    · exact .nextEnqueued (by simpa using ‹¬ m.listless = true›)
  · split at h <;> cases h
    · exact .xrefZero ‹_›
    · exact .xrefExternal ‹_›
  · cases h
    exact .dispose
  · cases h

theorem trans_of_dispose {kind : Kind} {m m' : Mem Q} {l l' : Loc Q}
    (h : dispatchDispose m l = some (m', l')) : Trans kind m l m' l' := by
  cases l <;> simp only [dispatchDispose, reduceCtorEq] at h
  case disposeRead =>
    cases h
    exact .disposeRead
  case finalize tq finalizes =>
    cases finalizes <;> cases h
    · exact .noFinalizer
    · exact .finalizer
  case releaseTarget tq =>
    cases h
    exact .releaseTarget

theorem trans_of_step {kind : Kind} {t : T} {a : Act Q} {m m' : Mem Q} {l l' : Loc Q}
    (h : step kind t a m l = some (m', l')) : Trans kind m l m' l' := by
  unfold step at h
  split at h
  case h_1 => exact trans_of_call h
  case h_2 => exact trans_of_retain h
  case h_3 => exact trans_of_retain h
  case h_4 => exact trans_of_retainInternal .holder h
  case h_5 => exact trans_of_retainInternalInc .holder h
  case h_6 => cases h; exact .wake
  case h_7 => exact trans_of_retainInternal .wakeup h
  case h_8 => exact trans_of_retainInternalInc .wakeup h
  case h_18 =>
    split at h <;> cases h
    exact .trap ‹_›
  case h_22 => cases h
  all_goals first
    | exact trans_of_release h
    | exact trans_of_releaseInternal h
    | exact trans_of_dispose h

end LibDispatch.Object
