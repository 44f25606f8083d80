import LibDispatch.Wrapper.Handles

/-!
# Who owns the native objects

As long as handles are assigned only where this changes nothing, the external count of an
object is the number of its handles and of the references that clients of the C library hold.
Assignment takes a reference to the new object and forgets the one to the old object.
-/

namespace LibDispatch.Wrapper.Handles

open Interleaving.Sequence (Runs run runs_get)
open Object (Kind globalRefcnt)

/-! ## Counts -/

/-- The count of an object with `c` references; that of a global object is not used. -/
structure Counted (c : ℕ) (isGlobal : Bool) (x : ℤ) (released : ℕ) : Prop where
  count : isGlobal = false → x = c ∧ x < globalRefcnt ∧ released = if c = 0 then 1 else 0
  global : isGlobal → x = globalRefcnt ∧ released = 0

variable {c c' : ℕ} {isGlobal : Bool} {x : ℤ} {released : ℕ}

theorem counted_created : Counted 1 false 1 0 :=
  ⟨fun _ ↦ ⟨rfl, by decide, rfl⟩, nofun⟩

theorem Counted.of_global (h : Counted c true x released) : Counted c' true x released :=
  ⟨nofun, h.global⟩

theorem Counted.retain (h : Counted c isGlobal x released) (halive : released = 0)
    (hroom : isGlobal = false → x + 1 < globalRefcnt) :
    ∃ x', dispatchRetain x = .ok x' ∧ Counted (c + 1) isGlobal x' released := by
  cases isGlobal with
  | true =>
      obtain ⟨rfl, -⟩ := h.global rfl
      exact ⟨_, dispatchRetain_global, h.of_global⟩
  | false =>
      obtain ⟨hx, hlt, hreleased⟩ := h.count rfl
      have hc : c ≠ 0 := by
        rintro rfl
        rw [halive] at hreleased
        cases hreleased
      refine ⟨x + 1, dispatchRetain_of_pos (by omega) hlt, fun _ ↦ ⟨?_, hroom rfl, ?_⟩, nofun⟩
      · rw [hx]
        rfl
      · simp [halive]

theorem Counted.release (h : Counted (c + 1) isGlobal x released) :
    ∃ x' last, dispatchRelease x = .ok (x', last) ∧
      Counted c isGlobal x' (released + last.toNat) := by
  cases isGlobal with
  | true =>
      obtain ⟨rfl, rfl⟩ := h.global rfl
      exact ⟨_, _, dispatchRelease_global, nofun, fun _ ↦ ⟨rfl, rfl⟩⟩
  | false =>
      obtain ⟨hx, hlt, hreleased⟩ := h.count rfl
      rw [if_neg c.succ_ne_zero] at hreleased
      refine ⟨_, _, dispatchRelease_of_pos (by omega) hlt, fun _ ↦ ⟨?_, by omega, ?_⟩, nofun⟩
      · omega
      · by_cases hc : c = 0
        · simp [hx, hc, hreleased]
        · simp [hx, hc, hreleased]

/-! ## The objects of a state -/

variable {H N : Type*} [DecidableEq H] [DecidableEq N] {st st' : State H N} {n : N} {o o' : Native}
  {h : H}

omit [DecidableEq N] in
theorem State.mem_of_lookup {y : Handle N} (hf : st.handles.lookup h = some y) :
    (h, y) ∈ st.handles := by
  obtain ⟨front, rest, heq, -⟩ := List.lookup_eq_some_iff.mp hf
  simp [heq]

structure Inv (st : State H N) : Prop where
  crashed : st.crashed = none
  counted : ∀ n o, st.objects n = some o →
    Counted (st.handlesOf n + o.callers) o.isGlobal o.doXrefCnt o.released
  native : ∀ e ∈ st.handles, ∃ o, st.objects e.2.native = some o

omit [DecidableEq H] in
/-- One object and the handles change; the number of handles of another object changes only
if that object is global. -/
theorem Inv.update (hi : Inv st) {l : List (H × Handle N)}
    (hself : Counted (l.countP (fun e ↦ e.2.native = n) + o'.callers) o'.isGlobal o'.doXrefCnt
      o'.released)
    (hother : ∀ n' o, n' ≠ n → st.objects n' = some o → o.isGlobal ∨
      l.countP (fun e ↦ e.2.native = n') = st.handlesOf n')
    (hmem : ∀ e ∈ l, e.2.native = n ∨ e ∈ st.handles) :
    Inv ⟨Function.update st.objects n (some o'), l, st.crashed⟩ := by
  refine ⟨hi.crashed, fun n' o hn ↦ ?_, fun e he ↦ ?_⟩
  · change Function.update st.objects n (some o') n' = some o at hn
    rcases eq_or_ne n' n with rfl | hne
    · rw [Function.update_self, Option.some_inj] at hn
      subst hn
      exact hself
    · rw [Function.update_of_ne hne] at hn
      have hcounted := hi.counted n' o hn
      rcases hother n' o hne hn with hglobal | heq
      · rw [hglobal] at hcounted ⊢
        exact hcounted.of_global
      · change Counted (l.countP _ + o.callers) _ _ _
        rw [heq]
        exact hcounted
  · rcases eq_or_ne e.2.native n with heq | hne
    · exact ⟨o', by rw [heq]; exact Function.update_self _ _ _⟩
    · obtain ⟨o, ho⟩ := hi.native e ((hmem e he).resolve_left hne)
      exact ⟨o, by simpa [hne] using ho⟩

omit [DecidableEq H] in
theorem Inv.insert (hi : Inv st) {y : Handle N} (hy : y.native = n)
    (hself : Counted (st.handlesOf n + 1 + o'.callers) o'.isGlobal o'.doXrefCnt o'.released) :
    Inv ((st.setObject n o').insert h y) := by
  refine hi.update ?_ (fun n' o hne _ ↦ .inr ?_) fun e he ↦ ?_
  · rw [List.countP_cons_of_pos (by simpa using hy)]
    exact hself
  · exact List.countP_cons_of_neg (by simpa [hy] using hne.symm)
  · rcases List.mem_cons.mp he with rfl | he
    · exact .inl hy
    · exact .inr he

theorem Inv.remove (hi : Inv st) {y : Handle N} (hmem : (h, y) ∈ st.handles) (hy : y.native = n)
    (hself : ∀ k, st.handlesOf n = k + 1 →
      Counted (k + o'.callers) o'.isGlobal o'.doXrefCnt o'.released) :
    Inv ((st.setObject n o').remove h y) := by
  have hperm := List.perm_cons_erase hmem
  refine hi.update (hself _ ?_) (fun n' o hne _ ↦ .inr ?_)
    fun e he ↦ .inr (List.mem_of_mem_erase he)
  · rw [State.handlesOf, hperm.countP_eq, List.countP_cons_of_pos (by simpa using hy)]
    rfl
  · rw [State.handlesOf, hperm.countP_eq, List.countP_cons_of_neg (by simpa [hy] using hne.symm)]
    rfl

omit [DecidableEq H] in
theorem Inv.setObject (hi : Inv st)
    (hself : Counted (st.handlesOf n + o'.callers) o'.isGlobal o'.doXrefCnt o'.released) :
    Inv (st.setObject n o') :=
  hi.update hself (fun _ _ _ _ ↦ .inr rfl) fun _ he ↦ .inr he

omit [DecidableEq H] in
theorem Inv.handlesOf_eq_zero (hi : Inv st) (hn : st.objects n = none) : st.handlesOf n = 0 :=
  List.countP_eq_zero.mpr fun e he hnat ↦ by
    obtain ⟨o, ho⟩ := hi.native e he
    rw [of_decide_eq_true hnat, hn] at ho
    cases ho

omit [DecidableEq H] in
theorem Inv.released_of_mem (hi : Inv st) {y : Handle N} (hmem : (h, y) ∈ st.handles)
    (hn : st.objects y.native = some o) : o.released = 0 := by
  have hpos : 0 < st.handlesOf y.native :=
    List.countP_pos_iff.mpr ⟨(h, y), hmem, decide_eq_true rfl⟩
  have hcounted := hi.counted y.native o hn
  cases hglobal : o.isGlobal with
  | true => exact (hcounted.global hglobal).2
  | false =>
      rw [(hcounted.count hglobal).2.2, if_neg]
      omega

/-! ## Steps -/

def State.room (st : State H N) (n : N) : Bool :=
  (st.objects n).all fun o ↦ o.isGlobal || o.doXrefCnt + 1 < globalRefcnt

/-- A step with which the counts stay exact: references are not taken beyond what can be
counted, and a handle is assigned only if it has the native object already or had a global
one. -/
def keepsCount (st : State H N) : Act H N → Bool
  | .nativeRetain n => st.room n
  | .ofNative _ _ n => st.room n
  | .copy _ _ other => (st.handles.lookup other).all fun y ↦ st.room y.native
  | .assign _ h other => (st.handles.lookup h).all fun x ↦ (st.handles.lookup other).all fun y ↦
      x.native = y.native || ((st.objects x.native).all Native.isGlobal && st.room y.native)
  | _ => true

omit [DecidableEq H] [DecidableEq N] in
theorem room_of (hroom : st.room n) (hn : st.objects n = some o) (hglobal : o.isGlobal = false) :
    o.doXrefCnt + 1 < globalRefcnt := by
  simpa [State.room, hn, hglobal] using hroom

variable {cls : Class} {label : String} {other : H}

theorem Inv.step_create (hi : Inv st) (hs : st.create cls label h n = some st') : Inv st' := by
  unfold State.create at hs
  split at hs
  · rename_i hn
    cases hs
    refine hi.insert rfl ?_
    rw [hi.handlesOf_eq_zero hn]
    exact counted_created
  · cases hs

omit [DecidableEq H] in
theorem Inv.acquire (hi : Inv st) (hn : st.objects n = some o) (halive : o.released = 0)
    (hroom : st.room n) {y : Handle N} (hy : y.native = n) : Inv ((st.retain n o).insert h y) := by
  obtain ⟨x', hx, hcounted⟩ := (hi.counted n o hn).retain halive (room_of hroom hn)
  unfold State.retain
  rw [hx]
  refine hi.insert hy ?_
  rwa [Nat.add_right_comm]

theorem Inv.step_ofNative (hi : Inv st) {name : Native → String} (hroom : st.room n)
    (hs : st.ofNative cls name h n = some st') : Inv st' := by
  unfold State.ofNative at hs
  split at hs
  · rename_i o _ hn
    split at hs
    · rename_i hok
      cases hs
      exact hi.acquire hn hok.2 hroom rfl
    · cases hs
  · cases hs

theorem Inv.step_copy (hi : Inv st) (hroom : (st.handles.lookup other).all fun y ↦ st.room y.native)
    (hs : st.copy cls h other = some st') : Inv st' := by
  unfold State.copy at hs
  split at hs
  · rename_i y _ hother
    split at hs
    · obtain ⟨o, hn, rfl⟩ := Option.map_eq_some_iff.mp hs
      rw [hother] at hroom
      exact hi.acquire hn (hi.released_of_mem (State.mem_of_lookup hother) hn) hroom rfl
    · cases hs
  · cases hs

theorem Inv.step_destroy (hi : Inv st) (hs : st.destroy cls h = some st') : Inv st' := by
  obtain ⟨y, hy, hs⟩ := Option.bind_eq_some_iff.mp hs
  split at hs
  · obtain ⟨o, hn, rfl⟩ := Option.map_eq_some_iff.mp hs
    have hmem := State.mem_of_lookup hy
    obtain ⟨k, hk⟩ : ∃ k, st.handlesOf y.native = k + 1 := Nat.exists_eq_succ_of_ne_zero
      (List.countP_pos_iff.mpr ⟨(h, y), hmem, decide_eq_true rfl⟩).ne'
    have hcounted := hi.counted y.native o hn
    rw [hk, Nat.add_right_comm] at hcounted
    obtain ⟨x', last, hx, hcounted⟩ := hcounted.release
    unfold State.release
    rw [hx]
    refine hi.remove hmem rfl fun k' hk' ↦ ?_
    obtain rfl : k = k' := by omega
    exact hcounted
  · cases hs

theorem Inv.step_assign (hi : Inv st)
    (hkeeps : (st.handles.lookup h).all fun x ↦ (st.handles.lookup other).all fun y ↦
      x.native = y.native || ((st.objects x.native).all Native.isGlobal && st.room y.native))
    (hs : st.assign cls h other = some st') : Inv st' := by
  unfold State.assign at hs
  split at hs
  · rename_i x y hx hy
    simp only [hx, hy, Option.all_some, Bool.or_eq_true, decide_eq_true_eq,
      Bool.and_eq_true] at hkeeps
    split at hs
    · split at hs
      · rename_i hne
        obtain ⟨o, hn, rfl⟩ := Option.map_eq_some_iff.mp hs
        obtain ⟨hglobal, hroom⟩ := hkeeps.resolve_left hne
        have hperm := List.perm_cons_erase (State.mem_of_lookup hx)
        obtain ⟨x', hx', hcounted⟩ := (hi.counted y.native o hn).retain
          (hi.released_of_mem (State.mem_of_lookup hy) hn) (room_of hroom hn)
        unfold State.retain
        rw [hx']
        refine hi.update ?_ (fun n' o hne' hn' ↦ ?_) fun e he ↦ ?_
        · have hcount : st.handlesOf y.native =
              (st.handles.erase (h, x)).countP fun e ↦ e.2.native = y.native := by
            rw [State.handlesOf, hperm.countP_eq, List.countP_cons_of_neg (by simpa using hne)]
          rw [List.countP_cons_of_pos (by simp)]
          change Counted (List.countP _ (st.handles.erase (h, x)) + 1 + o.callers) _ _ _
          rwa [← hcount, Nat.add_right_comm]
        · rcases eq_or_ne n' x.native with rfl | hnx
          · left
            simpa [hn'] using hglobal
          · right
            rw [List.countP_cons_of_neg (by simpa using hne'.symm), State.handlesOf,
              hperm.countP_eq, List.countP_cons_of_neg (by simpa using hnx.symm)]
            rfl
        · rcases List.mem_cons.mp he with rfl | he
          · exact .inl rfl
          · exact .inr (List.mem_of_mem_erase he)
      · cases hs
        exact hi
    · cases hs
  · cases hs

theorem Inv.step_nativeRetain (hi : Inv st) (hroom : st.room n)
    (hs : next st (.nativeRetain n) = some st') : Inv st' := by
  obtain ⟨o, hn, hs⟩ := Option.bind_eq_some_iff.mp hs
  split at hs
  · rename_i halive
    cases hs
    obtain ⟨x', hx, hcounted⟩ := (hi.counted n o hn).retain halive (room_of hroom hn)
    unfold State.retain
    simp only [hx]
    exact hi.setObject hcounted
  · cases hs

theorem Inv.step_nativeRelease (hi : Inv st) (hs : next st (.nativeRelease n) = some st') :
    Inv st' := by
  obtain ⟨o, hn, hs⟩ := Option.bind_eq_some_iff.mp hs
  split at hs
  · rename_i hpos
    cases hs
    have hcounted := hi.counted n o hn
    obtain ⟨k, hk⟩ := Nat.exists_eq_succ_of_ne_zero hpos.ne'
    rw [hk, Nat.add_succ] at hcounted
    obtain ⟨x', last, hx, hcounted⟩ := hcounted.release
    unfold State.release
    simp only [hx]
    refine hi.setObject ?_
    simpa [hk] using hcounted
  · cases hs

theorem Inv.step (hi : Inv st) {a : Act H N} (hc : keepsCount st a) (hs : step a st = some st') :
    Inv st' := by
  unfold Handles.step at hs
  rw [if_pos hi.crashed] at hs
  cases a with
  | nativeCreate kind label n =>
      simp only [next, Option.ite_none_right_eq_some, Option.some.injEq] at hs
      obtain ⟨hn, rfl⟩ := hs
      refine hi.setObject ?_
      rw [hi.handlesOf_eq_zero hn]
      exact counted_created
  | nativeRetain n => exact hi.step_nativeRetain hc hs
  | nativeRelease n => exact hi.step_nativeRelease hs
  | queueCreate label h n => exact hi.step_create hs
  | queueCreateTarget label target h n =>
      simp only [next, State.queueCreateTarget] at hs
      split at hs
      · split at hs
        · exact hi.step_create hs
        · cases hs
      · cases hs
  | groupCreate h n => exact hi.step_create hs
  | semaphoreCreate val h n =>
      simp only [next, State.semaphoreCreate] at hs
      split at hs
      · cases hs
      · exact hi.step_create hs
  | ofNative cls h n => cases cls <;> exact hi.step_ofNative hc hs
  | copy cls h other => cases cls <;> exact hi.step_copy hc hs
  | destroy cls h => cases cls <;> exact hi.step_destroy hs
  | assign cls h other => cases cls <;> exact hi.step_assign hc hs

omit [DecidableEq H] in
theorem inv_initial (globals : N → Option (Kind × String)) : Inv (initial globals : State H N) := by
  refine ⟨rfl, fun n o hn ↦ ?_, nofun⟩
  obtain ⟨g, -, rfl⟩ := Option.map_eq_some_iff.mp hn
  exact ⟨nofun, fun _ ↦ ⟨rfl, rfl⟩⟩

/-- In a run of such steps nothing crashes, the external count of every object that is not
global is the number of its handles and of the references of clients of the C library, and the
object is released once, when there are none of them left. -/
theorem handles_own_references {globals : N → Option (Kind × String)}
    (hr : Runs step (fun st a ↦ keepsCount st a) (initial globals) st) (hn : st.objects n = some o)
    (hglobal : o.isGlobal = false) :
    st.crashed = none ∧ o.doXrefCnt = st.handlesOf n + o.callers ∧
      o.released = if st.handlesOf n + o.callers = 0 then 1 else 0 := by
  have hi : Inv st :=
    hr.invariant (inv_initial globals) fun _ _ _ hi hc hs ↦ hi.step hc hs
  obtain ⟨hcount, -, hreleased⟩ := (hi.counted n o hn).count hglobal
  exact ⟨hi.crashed, by exact_mod_cast hcount, hreleased⟩

/-- A queue with two handles of which one is assigned to the other and one destroyed, and a
group whose last handle is destroyed. -/
def sharedState : State ℕ ℕ :=
  (run step (fun st a ↦ keepsCount st a) (initial fun _ ↦ none)
    [.queueCreate "q" 0 0, .copy .queue 1 0, .assign .queue 0 1, .assign .queue 1 1,
      .destroy .queue 0, .groupCreate 2 1, .destroy .group 2]).get (by decide)

theorem handles_own_references_shared :
    sharedState.crashed = none ∧ (1 : ℤ) = sharedState.handlesOf 0 + 0 ∧
      0 = if sharedState.handlesOf 0 + 0 = 0 then 1 else 0 :=
  handles_own_references (o := ⟨.queue, "q", false, 1, 0, 0⟩) (runs_get _) (by decide) rfl

/-- Two objects with a handle each; the first handle is assigned the second one, and both are
destroyed. -/
def reassigned (cls : Class) : List (Act ℕ ℕ) :=
  let create := fun h n ↦ match cls with
    | .queue => Act.queueCreate "q" h n
    | .group => .groupCreate h n
    | .semaphore => .semaphoreCreate 1 h n
  [create 0 0, create 1 1, .assign cls 0 1, .destroy cls 0, .destroy cls 1]

def Leaks (cls : Class) : Prop :=
  ∃ (st : State ℕ ℕ) (o : Native),
    run step (fun _ _ ↦ True) (initial fun _ ↦ none) (reassigned cls) = some st ∧
      Runs step (fun _ _ ↦ True) (initial fun _ ↦ none) st ∧ st.objects 0 = some o ∧
      o.isGlobal = false ∧ st.handlesOf 0 + o.callers = 0 ∧ o.doXrefCnt = 1 ∧ o.released = 0

theorem leaks (cls : Class) : Leaks cls := by
  have hrun : (run step (fun _ _ ↦ True) (initial fun _ ↦ none) (reassigned cls)).isSome := by
    cases cls <;> decide
  refine ⟨_, ⟨cls.kind, if cls = .queue then "q" else "", false, 1, 0, 0⟩,
    (Option.some_get hrun).symm, runs_get hrun, ?_⟩
  cases cls <;> decide +revert

theorem reassigned_leaks : Leaks .queue ∧ Leaks .group ∧ Leaks .semaphore :=
  ⟨leaks .queue, leaks .group, leaks .semaphore⟩

end LibDispatch.Wrapper.Handles
