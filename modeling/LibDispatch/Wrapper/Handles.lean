import LibDispatch.Interleaving.Sequence
import LibDispatch.Object.Model
import Mathlib.Data.List.Count

/-!
# Handles of the C++ library

`xdispatch::queue`, `xdispatch::group` and `xdispatch::semaphore` are handles of native
objects.  Each of the three classes has its own copy of the same protocol: a constructor takes
an external reference or creates the object, a copy takes another one, and the destructor
gives it back.
-/

namespace LibDispatch.Wrapper.Handles

open Object (Kind Crash globalRefcnt)

/-! ## External references -/

/-- `dispatch_retain` on an object with this count, without anybody else using it. -/
def dispatchRetain (x : ℤ) : Except Crash ℤ :=
  if x = globalRefcnt then .ok x
  else
    let value := wrap (x + 1)
    if wrap (value - 1) = 0 then .error .resurrection else .ok value

/-- `dispatch_release`: the count, and whether the reference that all external ones own
together is released. -/
def dispatchRelease (x : ℤ) : Except Crash (ℤ × Bool) :=
  if x = globalRefcnt then .ok (x, false)
  else
    let value := wrap (x - 1)
    let oldval := wrap (value + 1)
    if oldval > 1 then .ok (value, false)
    else if oldval = 1 then .ok (value, true)
    else .error .overReleaseExternal

section Steps

variable {Q : Type*} {m : Object.Mem Q}

theorem retain_steps :
    (Object.dispatchRetain m .retainTest).bind (fun r ↦
      if r.2 matches .retainInc then Object.dispatchRetain r.1 r.2 else some r) =
      some (match dispatchRetain m.doXrefCnt with
        | .ok x => ({ m with doXrefCnt := x, external := m.external + 1 }, .idle)
        | .error c => ({ m with doXrefCnt := wrap (m.doXrefCnt + 1), external := m.external + 1 },
            .crashed c)) := by
  unfold dispatchRetain Object.dispatchRetain
  by_cases hglobal : m.doXrefCnt = globalRefcnt
  · simp [hglobal]
  · by_cases hzero : wrap (wrap (m.doXrefCnt + 1) - 1) = 0
    · simp [hglobal, hzero]
    · simp [hglobal, hzero]

theorem release_steps {kind : Kind} :
    (Object.dispatchRelease kind m .releaseTest).bind (fun r ↦
      if r.2 matches .releaseDec then Object.dispatchRelease kind r.1 r.2 else some r) =
      some (match dispatchRelease m.doXrefCnt with
        | .ok (x, false) => ({ m with doXrefCnt := x }, .idle)
        | .ok (x, true) => ({ m with doXrefCnt := x }, .suspendedTest)
        | .error c => ({ m with doXrefCnt := wrap (m.doXrefCnt - 1) }, .crashed c)) := by
  unfold dispatchRelease Object.dispatchRelease
  by_cases hglobal : m.doXrefCnt = globalRefcnt
  · simp only [hglobal, if_true, Option.bind_some, Bool.false_eq_true, if_false]
    rw [← hglobal]
  · by_cases hmore : wrap (wrap (m.doXrefCnt - 1) + 1) > 1
    · simp [hglobal, hmore]
    · by_cases hone : wrap (wrap (m.doXrefCnt - 1) + 1) = 1
      · simp [hglobal, hone]
      · simp [hglobal, hmore, hone]

end Steps

theorem dispatchRetain_global : dispatchRetain globalRefcnt = .ok globalRefcnt := if_pos rfl

theorem dispatchRelease_global : dispatchRelease globalRefcnt = .ok (globalRefcnt, false) :=
  if_pos rfl

theorem dispatchRetain_of_pos {x : ℤ} (h : 0 < x) (hx : x < globalRefcnt) :
    dispatchRetain x = .ok (x + 1) := by
  have hlt : x < 2 ^ 32 - 1 := hx
  have hw : wrap (x + 1) = x + 1 :=
    wrap_of_mem (by unfold longMin; omega) (by unfold longMax; omega)
  have hw' : wrap (x + 1 - 1) = x := by
    rw [add_sub_cancel_right]
    exact wrap_of_mem (by unfold longMin; omega) (by unfold longMax; omega)
  unfold dispatchRetain
  simp only [hw, hw', if_neg hx.ne, if_neg h.ne']

theorem dispatchRelease_of_pos {x : ℤ} (h : 0 < x) (hx : x < globalRefcnt) :
    dispatchRelease x = .ok (x - 1, x = 1) := by
  have hlt : x < 2 ^ 32 - 1 := hx
  have hw : wrap (x - 1) = x - 1 :=
    wrap_of_mem (by unfold longMin; omega) (by unfold longMax; omega)
  have hw' : wrap (x - 1 + 1) = x := by
    rw [sub_add_cancel]
    exact wrap_of_mem (by unfold longMin; omega) (by unfold longMax; omega)
  unfold dispatchRelease
  simp only [hw, hw', if_neg hx.ne]
  by_cases hone : x = 1
  · simp [hone]
  · have hgt : 1 < x := by omega
    simp [hgt, hone]

/-! ## Objects and handles -/

inductive Class
  | queue
  | group
  | semaphore
  deriving DecidableEq

def Class.kind : Class → Kind
  | queue => .queue
  | group | semaphore => .semaphore

/-- A native object.  The last two fields are history: how often the reference that the
external ones own together has been released, and how many references are held by clients of
the C library. -/
structure Native where
  kind : Kind
  label : String
  isGlobal : Bool
  doXrefCnt : ℤ
  released : ℕ
  callers : ℕ
  deriving DecidableEq

/-- The members of a handle; only a queue has a label. -/
structure Handle (N : Type*) where
  cls : Class
  native : N
  label : String
  deriving DecidableEq

structure State (H N : Type*) where
  objects : N → Option Native
  handles : List (H × Handle N)
  crashed : Option Crash

def created (kind : Kind) (label : String) (callers : ℕ) : Native :=
  { kind, label, isGlobal := false, doXrefCnt := 1, released := 0, callers }

namespace State

variable {H N : Type*} [DecidableEq H] [DecidableEq N] (st : State H N)

def setObject (n : N) (o : Native) : State H N :=
  { st with objects := Function.update st.objects n (some o) }

def retain (n : N) (o : Native) : State H N :=
  match dispatchRetain o.doXrefCnt with
  | .ok x => st.setObject n { o with doXrefCnt := x }
  | .error c => { st with crashed := some c }

def release (n : N) (o : Native) : State H N :=
  match dispatchRelease o.doXrefCnt with
  | .ok (x, last) => st.setObject n { o with doXrefCnt := x, released := o.released + last.toNat }
  | .error c => { st with crashed := some c }

def insert (h : H) (x : Handle N) : State H N := { st with handles := (h, x) :: st.handles }

def remove (h : H) (x : Handle N) : State H N := { st with handles := st.handles.erase (h, x) }

/-! ### What the classes have in common -/

/-- Construct a handle from a native object that somebody holds. -/
def ofNative (cls : Class) (label : Native → String) (h : H) (n : N) : Option (State H N) :=
  match st.handles.lookup h, st.objects n with
  | none, some o =>
      if o.kind = cls.kind ∧ o.released = 0 then
        some ((st.retain n o).insert h ⟨cls, n, label o⟩)
      else none
  | _, _ => none

/-- Construct a handle together with its native object. -/
def create (cls : Class) (label : String) (h : H) (n : N) : Option (State H N) :=
  match st.handles.lookup h, st.objects n with
  | none, none => some ((st.setObject n (created cls.kind label 0)).insert h ⟨cls, n, label⟩)
  | _, _ => none

def copy (cls : Class) (h other : H) : Option (State H N) :=
  match st.handles.lookup h, st.handles.lookup other with
  | none, some x =>
      if x.cls = cls then
        (st.objects x.native).map fun o ↦ (st.retain x.native o).insert h x
      else none
  | _, _ => none

def destroy (cls : Class) (h : H) : Option (State H N) :=
  (st.handles.lookup h).bind fun x ↦
    if x.cls = cls then
      (st.objects x.native).map fun o ↦ (st.release x.native o).remove h x
    else none

/-- `operator =`, where `!=` compares the native objects. -/
def assign (cls : Class) (h other : H) : Option (State H N) :=
  match st.handles.lookup h, st.handles.lookup other with
  | some x, some y =>
      if x.cls = cls ∧ y.cls = cls then
        if x.native ≠ y.native then
          (st.objects y.native).map fun o ↦ ((st.retain y.native o).remove h x).insert h y
        else some st
      else none
  | _, _ => none

/-! ### The classes -/

def queueOfNative (h : H) (q : N) : Option (State H N) := st.ofNative .queue Native.label h q

def queueCopy (h other : H) : Option (State H N) := st.copy .queue h other

def queueCreate (label : String) (h : H) (n : N) : Option (State H N) := st.create .queue label h n

/-- The target queue gets an internal reference only. -/
def queueCreateTarget (label : String) (target h : H) (n : N) : Option (State H N) :=
  match st.handles.lookup target with
  | some x => if x.cls = .queue then st.create .queue label h n else none
  | none => none

def queueDestroy (h : H) : Option (State H N) := st.destroy .queue h

def queueAssign (h other : H) : Option (State H N) := st.assign .queue h other

def groupCreate (h : H) (n : N) : Option (State H N) := st.create .group "" h n

def groupOfNative (h : H) (g : N) : Option (State H N) := st.ofNative .group (fun _ ↦ "") h g

def groupCopy (h other : H) : Option (State H N) := st.copy .group h other

def groupDestroy (h : H) : Option (State H N) := st.destroy .group h

def groupAssign (h other : H) : Option (State H N) := st.assign .group h other

/-- A negative value makes no native object, and the assertion in the constructor ends the
program. -/
def semaphoreCreate (val : ℤ) (h : H) (n : N) : Option (State H N) :=
  if val < 0 then none else st.create .semaphore "" h n

def semaphoreOfNative (h : H) (sem : N) : Option (State H N) :=
  st.ofNative .semaphore (fun _ ↦ "") h sem

def semaphoreCopy (h other : H) : Option (State H N) := st.copy .semaphore h other

/-- The destructor tests `m_native`, which no constructor leaves null. -/
def semaphoreDestroy (h : H) : Option (State H N) := st.destroy .semaphore h

def semaphoreAssign (h other : H) : Option (State H N) := st.assign .semaphore h other

end State

/-! ## Runs -/

inductive Act (H N : Type*)
  | nativeCreate (kind : Kind) (label : String) (n : N)
  | nativeRetain (n : N)
  | nativeRelease (n : N)
  | queueCreate (label : String) (h : H) (n : N)
  | queueCreateTarget (label : String) (target h : H) (n : N)
  | groupCreate (h : H) (n : N)
  | semaphoreCreate (val : ℤ) (h : H) (n : N)
  | ofNative (cls : Class) (h : H) (n : N)
  | copy (cls : Class) (h other : H)
  | destroy (cls : Class) (h : H)
  | assign (cls : Class) (h other : H)

variable {H N : Type*} [DecidableEq H] [DecidableEq N]

def next (st : State H N) : Act H N → Option (State H N)
  | .nativeCreate kind label n =>
      if st.objects n = none then some (st.setObject n (created kind label 1)) else none
  | .nativeRetain n => (st.objects n).bind fun o ↦
      if o.released = 0 then some (st.retain n { o with callers := o.callers + 1 }) else none
  | .nativeRelease n => (st.objects n).bind fun o ↦
      if 0 < o.callers then some (st.release n { o with callers := o.callers - 1 }) else none
  | .queueCreate label h n => st.queueCreate label h n
  | .queueCreateTarget label target h n => st.queueCreateTarget label target h n
  | .groupCreate h n => st.groupCreate h n
  | .semaphoreCreate val h n => st.semaphoreCreate val h n
  | .ofNative .queue h n => st.queueOfNative h n
  | .ofNative .group h n => st.groupOfNative h n
  | .ofNative .semaphore h n => st.semaphoreOfNative h n
  | .copy .queue h other => st.queueCopy h other
  | .copy .group h other => st.groupCopy h other
  | .copy .semaphore h other => st.semaphoreCopy h other
  | .destroy .queue h => st.queueDestroy h
  | .destroy .group h => st.groupDestroy h
  | .destroy .semaphore h => st.semaphoreDestroy h
  | .assign .queue h other => st.queueAssign h other
  | .assign .group h other => st.groupAssign h other
  | .assign .semaphore h other => st.semaphoreAssign h other

def step (a : Act H N) (st : State H N) : Option (State H N) :=
  if st.crashed = none then next st a else none

/-- The objects that are there from the start are global. -/
def initial (globals : N → Option (Kind × String)) : State H N where
  objects n := (globals n).map fun g ↦
    { kind := g.1, label := g.2, isGlobal := true, doXrefCnt := globalRefcnt, released := 0,
      callers := 0 }
  handles := []
  crashed := none

def State.handlesOf (st : State H N) (n : N) : ℕ := st.handles.countP fun e ↦ e.2.native = n

end LibDispatch.Wrapper.Handles
