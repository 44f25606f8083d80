import LibDispatch.Source.Cancel

/-!
# A source that is left alone settles

`_dispatch_source_probe` says whether a source has to be invoked, and
`_dispatch_source_invoke` does one thing and says on which queue to go on.  Both test the
same flags in the same order.  Here they run without interference, as functions of the
source; they agree with the steps of a thread that nobody disturbs.  With no events from
outside, the number of things that are left to do decreases.
-/

namespace LibDispatch.Source

open Interleaving

variable {T Q : Type*}

/-- The source has been cancelled, or released by its last owner. -/
abbrev Mem.Dead (m : Mem Q) : Prop := m.dsCanceled ∨ m.doXrefCnt = 0

namespace Alone

/-- `_dispatch_kevent_merge`, which reads through `ds_dkev`; `found` says that no new flags
are needed. -/
def dispatchKeventMerge (found : Bool) (m : Mem Q) : Option (Mem Q) :=
  if m.dsIsInstalled then some m
  else if m.dsDkev then
    some { m with
      dsIsInstalled := true
      dkSources := true
      dsIsArmed := m.dsIsArmed || !found }
  else none

/-- `_dispatch_kevent_release`.  The reference that it gives back is not the last one: the
thread that invokes the source has one, too. -/
def dispatchKeventRelease (m : Mem Q) : Mem Q :=
  { m with
    dsDkev := false
    dkSources := false
    dsIsArmed := false
    dsNeedsRearm := false
    doRefCnt := m.doRefCnt - 1 }

def dispatchSourceCancelCallout (m : Mem Q) : Mem Q :=
  let m := { m with
    dsPendingDataMask := 0
    dsPendingData := 0
    dsData := 0
    dsHandlerFunc := m.dsHandlerFunc && !m.dsHandlerIsBlock
    dsHandlerIsBlock := false }
  match m.dsCancelHandler with
  | none => m
  | some handler =>
      { m with
        cancelCalls := if m.dsCanceled then handler :: m.cancelCalls else m.cancelCalls
        dsCancelHandler := none }

def dispatchSourceLatchAndCall (set : Setting T Q) (m : Mem Q) : Mem Q :=
  if m.dsCanceled ∨ m.doXrefCnt = 0 then m
  else
    { m with
      dsPendingData := 0
      latchedAt := m.merges.length
      dsData := latchedData set m.dsPendingData
      deliveries :=
        if m.dsPendingData ≠ 0 ∧ m.dsHandlerFunc then
          m.deliveries ++ [(m.merges.length, latchedData set m.dsPendingData)]
        else m.deliveries }

/-- `_dispatch_source_invoke` by a thread with the given current queue: the source after
it, and the queue that is returned.  No result is a read through a null `ds_dkev`. -/
def dispatchSourceInvoke [DecidableEq Q] (set : Setting T Q) (found : Bool) (current : Q)
    (m : Mem Q) : Option (Mem Q × Option Q) :=
  if !m.dsIsInstalled then
    if current ≠ set.mgrQ then some (m, some set.mgrQ)
    else (dispatchKeventMerge found m).map fun m ↦ (m, none)
  else if m.dsCanceled ∨ m.doXrefCnt = 0 then
    if m.dsDkev then
      if current ≠ set.mgrQ then some (m, some set.mgrQ)
      else some (dispatchKeventRelease m, some m.doTargetq)
    else if m.dsCancelHandler.isSome ∧ current ≠ m.doTargetq then some (m, some m.doTargetq)
    else some (dispatchSourceCancelCallout m, none)
  else if m.dsPendingData ≠ 0 then
    if current ≠ m.doTargetq then some (m, some m.doTargetq)
    else
      let m := dispatchSourceLatchAndCall set m
      some (m, if m.dsNeedsRearm then some set.mgrQ else none)
  else if m.dsNeedsRearm ∧ !m.dsIsArmed then
    if current ≠ set.mgrQ then some (m, some set.mgrQ)
    else if m.dsDkev then some ({ m with dsIsArmed := true }, none)
    else none
  else some (m, none)

def dispatchSourceProbe (m : Mem Q) : Bool :=
  if !m.dsIsInstalled then true
  else if m.dsCanceled ∨ m.doXrefCnt = 0 then m.dsDkev || m.dsCancelHandler.isSome
  else if m.dsPendingData ≠ 0 then true
  else m.dsNeedsRearm && !m.dsIsArmed

/-- At most `n` calls of `_dispatch_source_invoke`, the first one on `current`, each of the
others on the queue that the one before has returned.  After null `_dispatch_wakeup` puts
the source on the list of its target again while it has to be invoked. -/
def redrive [DecidableEq Q] (set : Setting T Q) (found : ℕ → Bool) :
    ℕ → Q → Mem Q → Option (Mem Q)
  | 0, _, _ => none
  | n + 1, current, m =>
      match dispatchSourceInvoke set (found n) current m with
      | none => none
      | some (m, some tq) => redrive set found n tq m
      | some (m, none) =>
          if dispatchSourceProbe m then redrive set found n m.doTargetq m else some m

end Alone

/-! ## The steps of a thread that nobody disturbs -/

section Undisturbed

variable [DecidableEq Q] {set : Setting T Q} {found : Bool} {f : Frame Q} {m m' : Mem Q}

/-- One step of a thread that has `dq_running`. -/
def HeldStep (set : Setting T Q) (found : Bool) (f : Frame Q) (x y : Mem Q × Held Q) : Prop :=
  go set x.1 found (.held f x.2) = some (y.1, .held f y.2)

abbrev HeldSteps (set : Setting T Q) (found : Bool) (f : Frame Q) :
    Mem Q × Held Q → Mem Q × Held Q → Prop :=
  Relation.ReflTransGen (HeldStep set found f)

theorem HeldStep.of_invoke {p p' : Held Q}
    (hp : go set m found (.held f p) =
      (dispatchSourceInvoke set m f found p).map fun r ↦ (r.1, .held f r.2))
    (h : dispatchSourceInvoke set m f found p = some (m', p')) :
    HeldStep set found f (m, p) (m', p') := by
  show go set m found (.held f p) = _
  rw [hp, h]
  rfl

theorem merge_alone (h : Alone.dispatchKeventMerge found m = some m')
    (hm : m.dsIsInstalled = false) :
    HeldSteps set found f (m, .merge .isInstalled) (m', .unlock none) := by
  obtain ⟨-, rfl⟩ : m.dsDkev = true ∧ _ := by simpa [Alone.dispatchKeventMerge, hm] using h
  have hinstall : HeldStep set found f (m, .merge .isInstalled)
      ({ m with dsIsInstalled := true }, .merge .insert) :=
    .of_invoke rfl (by simp [dispatchSourceInvoke, dispatchKeventMerge, hm])
  refine .head hinstall ?_
  cases found with
  | true =>
      have hfound : HeldStep set true f ({ m with dsIsInstalled := true }, .merge .insert)
          ({ m with dsIsInstalled := true, dkSources := true }, .unlock none) := rfl
      simpa using Relation.ReflTransGen.single hfound
  | false =>
      have hinsert : HeldStep set false f ({ m with dsIsInstalled := true }, .merge .insert)
          ({ m with dsIsInstalled := true, dkSources := true }, .merge .arm) := rfl
      have harm : HeldStep set false f
          ({ m with dsIsInstalled := true, dkSources := true }, .merge .arm)
          ({ m with dsIsInstalled := true, dkSources := true, dsIsArmed := true },
            .unlock none) := rfl
      simpa using (Relation.ReflTransGen.single hinsert).tail harm

theorem release_alone (href : m.doRefCnt ≠ 1) :
    HeldSteps set found f (m, .releaseDkev)
      (Alone.dispatchKeventRelease m, .unlock (some m.doTargetq)) := by
  let m₁ : Mem Q := { m with
    dsDkev := false
    dkSources := false
    dsIsArmed := false
    dsNeedsRearm := false }
  have hrelease : HeldStep set found f (m₁, .releaseRef)
      (Alone.dispatchKeventRelease m, .releaseTarget) := by
    have hm : dispatchRelease m₁ (.held f .releaseTarget) =
        (Alone.dispatchKeventRelease m, .held f .releaseTarget) := by
      simp [dispatchRelease, m₁, href, Alone.dispatchKeventRelease]
    show some (dispatchRelease m₁ (.held f .releaseTarget)) = _
    rw [hm]
  calc
    HeldSteps set found f (m, .releaseDkev) ({ m with dsDkev := false }, .releaseRemove) :=
      .single rfl
    HeldSteps set found f _ ({ m with dsDkev := false, dkSources := false }, .releaseArmed) :=
      .single rfl
    HeldSteps set found f _
        ({ m with dsDkev := false, dkSources := false, dsIsArmed := false }, .releaseRearm) :=
      .single rfl
    HeldSteps set found f _ (m₁, .releaseRef) := .single rfl
    HeldSteps set found f _ (Alone.dispatchKeventRelease m, .releaseTarget) := .single hrelease
    HeldSteps set found f _ (Alone.dispatchKeventRelease m, .unlock (some m.doTargetq)) :=
      .single rfl

theorem callout_alone (m : Mem Q) :
    HeldSteps set found f (m, .calloutMask)
      (Alone.dispatchSourceCancelCallout m, .unlock none) := by
  let m₁ : Mem Q := { m with
    dsPendingDataMask := 0
    dsPendingData := 0
    dsData := 0
    dsHandlerFunc := m.dsHandlerFunc && !m.dsHandlerIsBlock
    dsHandlerIsBlock := false }
  have hclear : HeldSteps set found f (m, .calloutMask)
      (m₁, m.dsCancelHandler.elim (.unlock none) .calloutFlags) :=
    calc
      HeldSteps set found f (m, .calloutMask)
          ({ m with dsPendingDataMask := 0 }, .calloutPending) :=
        .single rfl
      HeldSteps set found f _
          ({ m with dsPendingDataMask := 0, dsPendingData := 0 }, .calloutData) := .single rfl
      HeldSteps set found f _ (m₁, .calloutHandler) := .single rfl
      HeldSteps set found f _ (m₁, m.dsCancelHandler.elim (.unlock none) .calloutFlags) :=
        .single rfl
  refine hclear.trans ?_
  cases hh : m.dsCancelHandler with
  | none =>
      have heq : Alone.dispatchSourceCancelCallout m = m₁ := by
        simp [Alone.dispatchSourceCancelCallout, m₁, hh]
      rw [heq]
      exact .refl
  | some handler =>
      have hclear (calls : List ℕ) :
          HeldStep set found f ({ m₁ with cancelCalls := calls }, .calloutClear)
            ({ m₁ with cancelCalls := calls, dsCancelHandler := none }, .unlock none) := rfl
      have hcallout : Alone.dispatchSourceCancelCallout m =
          { m₁ with
            cancelCalls := if m.dsCanceled then handler :: m.cancelCalls else m.cancelCalls
            dsCancelHandler := none } := by
        simp [Alone.dispatchSourceCancelCallout, m₁, hh]
      rw [hcallout]
      by_cases hc : m.dsCanceled
      · rw [if_pos hc]
        have hflags : HeldStep set found f (m₁, .calloutFlags handler)
            ({ m₁ with cancelCalls := handler :: m.cancelCalls }, .calloutRun handler) :=
          .of_invoke rfl (by simp [dispatchSourceInvoke, dispatchKeventRelease,
            dispatchSourceCancelCallout, m₁, hc])
        have hrun : HeldStep set found f
            ({ m₁ with cancelCalls := handler :: m.cancelCalls }, .calloutRun handler)
            ({ m₁ with cancelCalls := handler :: m.cancelCalls }, .calloutClear) := rfl
        exact ((Relation.ReflTransGen.single hflags).tail hrun).tail (hclear _)
      · rw [if_neg hc]
        have hflags : HeldStep set found f (m₁, .calloutFlags handler) (m₁, .calloutClear) :=
          .of_invoke rfl (by simp [dispatchSourceInvoke, dispatchKeventRelease,
            dispatchSourceCancelCallout, m₁, hc])
        exact (Relation.ReflTransGen.single hflags).tail (hclear m.cancelCalls)

omit [DecidableEq Q] in
theorem latch_needsRearm (set : Setting T Q) :
    (Alone.dispatchSourceLatchAndCall set m).dsNeedsRearm = m.dsNeedsRearm := by
  unfold Alone.dispatchSourceLatchAndCall
  split <;> rfl

theorem latch_alone (hm : ¬ m.Dead) :
    HeldSteps set found f (m, .latchFlags)
      (Alone.dispatchSourceLatchAndCall set m, .unlock (if m.dsNeedsRearm then some set.mgrQ
        else none)) := by
  obtain ⟨hcanceled, hxref⟩ := not_or.mp hm
  let m₁ : Mem Q := { m with dsPendingData := 0, latchedAt := m.merges.length }
  have hlatch : HeldSteps set found f (m, .latchFlags) (m₁, .latchData m.dsPendingData) :=
    calc
      HeldSteps set found f (m, .latchFlags) (m, .latchXref) :=
        .single (.of_invoke rfl (by simp [dispatchSourceInvoke, dispatchKeventRelease,
          dispatchSourceCancelCallout, dispatchSourceLatchAndCall, hcanceled]))
      HeldSteps set found f _ (m, .latchXchg) :=
        .single (.of_invoke rfl (by simp [dispatchSourceInvoke, dispatchKeventRelease,
          dispatchSourceCancelCallout, dispatchSourceLatchAndCall, hxref]))
      HeldSteps set found f _ (m₁, .latchData m.dsPendingData) := .single rfl
  have hlast : HeldStep set found f (Alone.dispatchSourceLatchAndCall set m, .latchRearm)
      (Alone.dispatchSourceLatchAndCall set m,
        .unlock (if m.dsNeedsRearm then some set.mgrQ else none)) := by
    rw [← latch_needsRearm set]
    rfl
  refine (hlatch.trans ?_).tail hlast
  by_cases hcall : m.dsPendingData ≠ 0 ∧ m.dsHandlerFunc
  · have hdata : HeldStep set found f (m₁, .latchData m.dsPendingData)
        (Alone.dispatchSourceLatchAndCall set m, .latchRun) := by
      rw [Alone.dispatchSourceLatchAndCall, if_neg hm, if_pos hcall]
      exact .of_invoke rfl (if_pos hcall)
    have hrun : HeldStep set found f (Alone.dispatchSourceLatchAndCall set m, .latchRun)
      (Alone.dispatchSourceLatchAndCall set m, .latchRearm) := rfl
    exact (Relation.ReflTransGen.single hdata).tail hrun
  · rw [Alone.dispatchSourceLatchAndCall, if_neg hm, if_neg hcall]
    exact .single (.of_invoke rfl (if_neg hcall))

theorem flags_dead (hi : m.dsIsInstalled) (hm : m.Dead) :
    HeldSteps set found f (m, .isInstalled) (m, .dkev) := by
  have hflags : HeldStep set found f (m, .isInstalled) (m, .flags) :=
    .of_invoke rfl (by simp [dispatchSourceInvoke, hi])
  refine .head hflags ?_
  by_cases hc : m.dsCanceled
  · exact .single (.of_invoke rfl (by simp [dispatchSourceInvoke, hc]))
  · have hxref : HeldStep set found f (m, .flags) (m, .xref) :=
      .of_invoke rfl (by simp [dispatchSourceInvoke, hc])
    have hdkev : HeldStep set found f (m, .xref) (m, .dkev) :=
      .of_invoke rfl (by simp [dispatchSourceInvoke, hm.resolve_left hc])
    exact .head hxref (.single hdkev)

theorem flags_alive (hi : m.dsIsInstalled) (hm : ¬ m.Dead) :
    HeldSteps set found f (m, .isInstalled) (m, .pendingData) := by
  obtain ⟨hc, hx⟩ := not_or.mp hm
  have hflags : HeldStep set found f (m, .isInstalled) (m, .flags) :=
    .of_invoke rfl (by simp [dispatchSourceInvoke, hi])
  have hxref : HeldStep set found f (m, .flags) (m, .xref) :=
    .of_invoke rfl (by simp [dispatchSourceInvoke, hc])
  have hpending : HeldStep set found f (m, .xref) (m, .pendingData) :=
    .of_invoke rfl (by simp [dispatchSourceInvoke, hx])
  exact .head hflags (.head hxref (.single hpending))

theorem invoke_alone_uninstalled {r : Option Q} (hi : ¬ m.dsIsInstalled)
    (h : Alone.dispatchSourceInvoke set found f.current m = some (m', r)) :
    HeldSteps set found f (m, .isInstalled) (m', .unlock r) := by
  rw [Alone.dispatchSourceInvoke, if_pos (by simpa using hi)] at h
  split at h
  case isTrue hq =>
    cases h
    exact .single (.of_invoke rfl (by simp [dispatchSourceInvoke, hi, hq]))
  case isFalse hq =>
    obtain ⟨m₁, hmerge, heq⟩ := Option.map_eq_some_iff.mp h
    cases heq
    have hstart : HeldStep set found f (m, .isInstalled) (m, .merge .isInstalled) :=
      .of_invoke rfl (by simp [dispatchSourceInvoke, hi, not_not.mp hq])
    exact .head hstart (merge_alone hmerge (by simpa using hi))

/-- A source that is cancelled or not referenced any more: it is unregistered on the manager
queue, and after that its cancellation handler runs on its target. -/
theorem invoke_alone_dead {r : Option Q} (hi : m.dsIsInstalled) (hm : m.Dead)
    (href : m.doRefCnt ≠ 1)
    (h : Alone.dispatchSourceInvoke set found f.current m = some (m', r)) :
    HeldSteps set found f (m, .isInstalled) (m', .unlock r) := by
  rw [Alone.dispatchSourceInvoke, if_neg (by simpa using hi), if_pos hm] at h
  refine (flags_dead hi hm).trans ?_
  split at h
  case isTrue hd =>
    split at h
    case isTrue hq =>
      cases h
      exact .single (.of_invoke rfl (by simp [dispatchSourceInvoke, hd, hq]))
    case isFalse hq =>
      cases h
      have hrelease : HeldStep set found f (m, .dkev) (m, .releaseDkev) :=
        .of_invoke rfl (by simp [dispatchSourceInvoke, hd, not_not.mp hq])
      exact .head hrelease (release_alone href)
  case isFalse hd =>
    have hhandler : HeldStep set found f (m, .dkev) (m, .cancelHandler) :=
      .of_invoke rfl (by simp [dispatchSourceInvoke, hd])
    refine .head hhandler ?_
    split at h
    case isTrue hq =>
      cases h
      exact .single (.of_invoke rfl (by simp [dispatchSourceInvoke, hq]))
    case isFalse hq =>
      cases h
      have hcallout : HeldStep set found f (m, .cancelHandler) (m, .calloutMask) :=
        .of_invoke rfl (by simp only [dispatchSourceInvoke, if_neg hq])
      exact .head hcallout (callout_alone m)

theorem invoke_alone_alive {r : Option Q} (hi : m.dsIsInstalled) (hm : ¬ m.Dead)
    (h : Alone.dispatchSourceInvoke set found f.current m = some (m', r)) :
    HeldSteps set found f (m, .isInstalled) (m', .unlock r) := by
  rw [Alone.dispatchSourceInvoke, if_neg (by simpa using hi), if_neg hm] at h
  refine (flags_alive hi hm).trans ?_
  split at h
  case isTrue hp =>
    split at h
    case isTrue hq =>
      cases h
      exact .single (.of_invoke rfl (by simp only [dispatchSourceInvoke, if_neg hp, if_neg hq]))
    case isFalse hq =>
      simp only [latch_needsRearm] at h
      cases h
      have hlatch : HeldStep set found f (m, .pendingData) (m, .latchFlags) :=
        .of_invoke rfl (by simp only [dispatchSourceInvoke, if_neg hp, if_pos (not_not.mp hq)])
      exact .head hlatch (latch_alone hm)
  case isFalse hp =>
    have hrearm : HeldStep set found f (m, .pendingData) (m, .needsRearm) :=
      .of_invoke rfl (by simp [dispatchSourceInvoke, not_not.mp hp])
    refine .head hrearm ?_
    split at h
    case isTrue hr =>
      split at h
      case isTrue hq =>
        cases h
        exact .single (.of_invoke rfl (by simp [dispatchSourceInvoke, hr, hq]))
      case isFalse hq =>
        split at h
        case isFalse => cases h
        case isTrue =>
          cases h
          have hstart : HeldStep set found f (m, .needsRearm) (m, .arm) :=
            .of_invoke rfl (by simp [dispatchSourceInvoke, hr, not_not.mp hq])
          have harm : HeldStep set found f (m, .arm)
              ({ m with dsIsArmed := true }, .unlock none) := rfl
          exact .head hstart (.single harm)
    case isFalse hr =>
      cases h
      exact .single (.of_invoke rfl (by simp only [dispatchSourceInvoke, if_neg hr]))

theorem invoke_alone {r : Option Q} (href : m.doRefCnt ≠ 1)
    (h : Alone.dispatchSourceInvoke set found f.current m = some (m', r)) :
    HeldSteps set found f (m, .isInstalled) (m', .unlock r) := by
  by_cases hi : m.dsIsInstalled
  · by_cases hdead : m.Dead
    · exact invoke_alone_dead hi hdead href h
    · exact invoke_alone_alive hi hdead h
  · exact invoke_alone_uninstalled hi h

omit [DecidableEq Q] in
theorem probe_alone (m : Mem Q) :
    ∃ p, Relation.ReflTransGen (fun p p' ↦ dispatchSourceProbe m p = .inl p') .isInstalled p ∧
      dispatchSourceProbe m p = .inr (Alone.dispatchSourceProbe m) := by
  let Next (p p' : Probe) : Prop := dispatchSourceProbe m p = .inl p'
  unfold Alone.dispatchSourceProbe
  by_cases hi : m.dsIsInstalled
  case neg => exact ⟨.isInstalled, .refl, by simp [dispatchSourceProbe, hi]⟩
  case pos =>
    have hflags : Relation.ReflTransGen Next .isInstalled .flags :=
      .single (by simp [Next, dispatchSourceProbe, hi])
    rw [if_neg (by simpa using hi)]
    by_cases hdead : m.Dead
    case pos =>
      have hdkev : Relation.ReflTransGen Next .isInstalled .dkev := by
        by_cases hc : m.dsCanceled
        · exact hflags.tail (by simp [Next, dispatchSourceProbe, hc])
        · have hxref : Next .flags .xref := by simp [Next, dispatchSourceProbe, hc]
          have hdkev : Next .xref .dkev := by
            simp [Next, dispatchSourceProbe, hdead.resolve_left hc]
          exact (hflags.tail hxref).tail hdkev
      rw [if_pos hdead]
      by_cases hd : m.dsDkev
      · exact ⟨.dkev, hdkev, by simp [dispatchSourceProbe, hd]⟩
      · refine ⟨.cancelHandler, hdkev.tail (by simp [Next, dispatchSourceProbe, hd]), ?_⟩
        simp [dispatchSourceProbe, hd]
    case neg =>
      obtain ⟨hc, hx⟩ := not_or.mp hdead
      have hxref : Next .flags .xref := by simp [Next, dispatchSourceProbe, hc]
      have hpending : Next .xref .pendingData := by simp [Next, dispatchSourceProbe, hx]
      rw [if_neg hdead]
      by_cases hp : m.dsPendingData = 0
      · have hrearm : Next .pendingData .needsRearm := if_pos hp
        rw [if_neg (not_not.mpr hp)]
        by_cases hr : m.dsNeedsRearm
        · have harmed : Next .needsRearm .isArmed := if_pos hr
          refine ⟨.isArmed, (((hflags.tail hxref).tail hpending).tail hrearm).tail harmed, ?_⟩
          simp [dispatchSourceProbe, hr]
        · refine ⟨.needsRearm, ((hflags.tail hxref).tail hpending).tail hrearm, ?_⟩
          simp [dispatchSourceProbe, hr]
      · rw [if_pos hp]
        exact ⟨.pendingData, (hflags.tail hxref).tail hpending, if_neg hp⟩

end Undisturbed

/-! ## What is left to do -/

/-- The number of things that are left to do: to register the source; then, if it is dead,
to unregister it and to call its cancellation handler, and otherwise to deliver its data
and to arm it. -/
def Mem.work (m : Mem Q) : ℕ :=
  (!m.dsIsInstalled).toNat +
    if m.Dead then m.dsDkev.toNat + m.dsCancelHandler.isSome.toNat
    else (decide (m.dsPendingData ≠ 0)).toNat + (m.dsNeedsRearm && !m.dsIsArmed).toNat

/-- The queue on which the next of them is done. -/
def Mem.place (set : Setting T Q) (m : Mem Q) : Q :=
  if m.dsIsInstalled = false then set.mgrQ
  else if m.Dead then if m.dsDkev then set.mgrQ else m.doTargetq
  else if m.dsPendingData ≠ 0 then m.doTargetq
  else set.mgrQ

/-- The calls of the event handler, with the one that is to come. -/
def Mem.eventBudget (m : Mem Q) : ℕ := m.deliveries.length + (decide (m.dsPendingData ≠ 0)).toNat

/-- The calls of cancellation handlers, with the one that is to come. -/
def Mem.cancelBudget (m : Mem Q) : ℕ := m.cancelCalls.length + m.dsCancelHandler.isSome.toNat

/-- A source loses its kernel event only when it is registered and dead. -/
def Mem.Attached (m : Mem Q) : Prop := m.dsDkev = false → m.dsIsInstalled ∧ m.Dead

inductive Mem.Due (m : Mem Q) : Prop
  | install : m.dsIsInstalled = false → Due m
  | release : m.dsIsInstalled → m.Dead → m.dsDkev → Due m
  | callout : m.dsIsInstalled → m.Dead → m.dsDkev = false → m.dsCancelHandler.isSome → Due m
  | latch : m.dsIsInstalled → ¬ m.Dead → m.dsPendingData ≠ 0#64 → Due m
  | arm : m.dsIsInstalled → ¬ m.Dead → m.dsPendingData = 0#64 → m.dsNeedsRearm →
      m.dsIsArmed = false → Due m

/-- What one of the things does. -/
structure Progress (m m' : Mem Q) : Prop where
  attached : m'.Attached
  work_lt : m'.work < m.work
  events_le : m'.eventBudget ≤ m.eventBudget
  cancels_le : m'.cancelBudget ≤ m.cancelBudget

section Work

variable {m : Mem Q}

theorem probe_iff : Alone.dispatchSourceProbe m = true ↔ 0 < m.work := by
  unfold Alone.dispatchSourceProbe Mem.work
  cases m.dsIsInstalled
  · simp
  · by_cases hdead : m.Dead
    · cases m.dsDkev <;> cases m.dsCancelHandler <;> simp [hdead]
    · by_cases hp : m.dsPendingData = 0#64
      · cases m.dsNeedsRearm <;> cases m.dsIsArmed <;> simp [hdead, hp]
      · simp [hdead, hp]

theorem progress_merge (found : Bool) (hi : m.dsIsInstalled = false) (ha : m.Attached) :
    ∃ m', Alone.dispatchKeventMerge found m = some m' ∧ Progress m m' := by
  have hdkev : m.dsDkev = true := by
    by_contra hd
    have hinstalled := (ha (Bool.eq_false_iff.mpr hd)).1
    rw [hi] at hinstalled
    cases hinstalled
  refine ⟨_, by rw [Alone.dispatchKeventMerge, if_neg (by simp [hi]), if_pos hdkev], ?_⟩
  refine ⟨fun hd ↦ ?_, ?_, le_rfl, le_rfl⟩
  · rw [hdkev] at hd
    cases hd
  · unfold Mem.work
    by_cases hdead : m.Dead
    · simp [hdead, hi]
    · cases m.dsIsArmed <;> cases found <;> (simp [hdead, hi]; try omega)

theorem progress_release (hi : m.dsIsInstalled) (hdead : m.Dead) (hd : m.dsDkev) :
    Progress m (Alone.dispatchKeventRelease m) := by
  refine ⟨fun _ ↦ ⟨hi, hdead⟩, ?_, le_rfl, le_rfl⟩
  have hdead' : (Alone.dispatchKeventRelease m).Dead := hdead
  unfold Mem.work
  rw [if_pos hdead, if_pos hdead']
  simp [Alone.dispatchKeventRelease, hd]

theorem progress_callout (hi : m.dsIsInstalled) (hdead : m.Dead)
    (hh : m.dsCancelHandler.isSome) : Progress m (Alone.dispatchSourceCancelCallout m) := by
  obtain ⟨handler, hh⟩ := Option.isSome_iff_exists.mp hh
  have hdead' : (Alone.dispatchSourceCancelCallout m).Dead := by
    simpa [Alone.dispatchSourceCancelCallout, hh] using hdead
  have hi' : (Alone.dispatchSourceCancelCallout m).dsIsInstalled := by
    simpa [Alone.dispatchSourceCancelCallout, hh] using hi
  refine ⟨fun _ ↦ ⟨hi', hdead'⟩, ?_, ?_, ?_⟩
  · unfold Mem.work
    rw [if_pos hdead, if_pos hdead']
    simp [Alone.dispatchSourceCancelCallout, hh]
  · simp [Mem.eventBudget, Alone.dispatchSourceCancelCallout, hh]
  · unfold Mem.cancelBudget
    cases hc : m.dsCanceled <;> simp [Alone.dispatchSourceCancelCallout, hh, hc]

theorem progress_latch (set : Setting T Q) (ha : m.Attached) (hdead : ¬ m.Dead)
    (hp : m.dsPendingData ≠ 0) :
    Progress m (Alone.dispatchSourceLatchAndCall set m) := by
  have hp' : ¬ m.dsPendingData = 0#64 := hp
  rw [Alone.dispatchSourceLatchAndCall, if_neg hdead]
  refine ⟨ha, ?_, ?_, le_rfl⟩
  · unfold Mem.work
    rw [if_neg hdead]
    simp [hdead, hp']
  · unfold Mem.eventBudget
    cases m.dsHandlerFunc <;> simp [hp']

theorem progress_arm (ha : m.Attached) (hdead : ¬ m.Dead) (hr : m.dsNeedsRearm)
    (harmed : m.dsIsArmed = false) : Progress m { m with dsIsArmed := true } := by
  refine ⟨ha, ?_, le_rfl, le_rfl⟩
  unfold Mem.work
  simp [hdead, hr, harmed]

theorem due_of_probe (hp : Alone.dispatchSourceProbe m) : m.Due := by
  unfold Alone.dispatchSourceProbe at hp
  cases hi : m.dsIsInstalled
  case false => exact .install hi
  case true =>
    rw [if_neg (by simp [hi])] at hp
    split at hp
    case isTrue hdead =>
      cases hd : m.dsDkev
      case true => exact .release hi hdead hd
      case false => exact .callout hi hdead hd (by simpa [hd] using hp)
    case isFalse hdead =>
      split at hp
      case isTrue hpending => exact .latch hi hdead hpending
      case isFalse hpending =>
        obtain ⟨hr, harmed⟩ : m.dsNeedsRearm = true ∧ m.dsIsArmed = false := by simpa using hp
        exact .arm hi hdead (not_not.mp hpending) hr harmed

variable [DecidableEq Q] (set : Setting T Q) (found : Bool)

theorem invoke_idle (current : Q) (hp : Alone.dispatchSourceProbe m = false) :
    ∃ m', Alone.dispatchSourceInvoke set found current m = some (m', none) ∧
      Alone.dispatchSourceProbe m' = false ∧ m'.deliveries = m.deliveries ∧
      m'.cancelCalls = m.cancelCalls := by
  obtain ⟨hi, hp'⟩ : m.dsIsInstalled = true ∧ _ := by simpa [Alone.dispatchSourceProbe] using hp
  by_cases hdead : m.Dead
  · obtain ⟨hd, hh⟩ : m.dsDkev = false ∧ m.dsCancelHandler = none := by simpa [hdead] using hp'
    refine ⟨Alone.dispatchSourceCancelCallout m, ?_, ?_, ?_⟩
    · simp [Alone.dispatchSourceInvoke, hi, hdead, hd, hh]
    · simp [Alone.dispatchSourceProbe, Alone.dispatchSourceCancelCallout, hi, hdead, hd, hh]
    · simp [Alone.dispatchSourceCancelCallout, hh]
  · obtain ⟨hpending, hr⟩ : m.dsPendingData = 0#64 ∧ (m.dsNeedsRearm → m.dsIsArmed) := by
      simpa [hdead] using hp'
    have harmed : ¬ (m.dsNeedsRearm = true ∧ m.dsIsArmed = false) := by
      rintro ⟨hneeds, hnot⟩
      rw [hr hneeds] at hnot
      cases hnot
    exact ⟨m, by simp [Alone.dispatchSourceInvoke, hi, hdead, hpending, harmed], hp, rfl, rfl⟩

theorem invoke_elsewhere {current : Q} (h : m.Due) (hq : current ≠ m.place set) :
    Alone.dispatchSourceInvoke set found current m = some (m, some (m.place set)) := by
  cases h with
  | install hi =>
      have hplace : m.place set = set.mgrQ := by simp [Mem.place, hi]
      rw [hplace] at hq ⊢
      simp [Alone.dispatchSourceInvoke, hi, hq]
  | release hi hdead hd =>
      have hplace : m.place set = set.mgrQ := by simp [Mem.place, hi, hdead, hd]
      rw [hplace] at hq ⊢
      simp [Alone.dispatchSourceInvoke, hi, hdead, hd, hq]
  | callout hi hdead hd hh =>
      have hplace : m.place set = m.doTargetq := by simp [Mem.place, hi, hdead, hd]
      rw [hplace] at hq ⊢
      simp [Alone.dispatchSourceInvoke, hi, hdead, hd, hh, hq]
  | latch hi hdead hpending =>
      have hplace : m.place set = m.doTargetq := by simp [Mem.place, hi, hdead, hpending]
      rw [hplace] at hq ⊢
      simp [Alone.dispatchSourceInvoke, hi, hdead, hpending, hq]
  | arm hi hdead hpending hr harmed =>
      have hplace : m.place set = set.mgrQ := by simp [Mem.place, hi, hdead, hpending]
      rw [hplace] at hq ⊢
      simp [Alone.dispatchSourceInvoke, hi, hdead, hpending, hr, harmed, hq]

theorem invoke_here (ha : m.Attached) (h : m.Due) :
    ∃ m' r, Alone.dispatchSourceInvoke set found (m.place set) m = some (m', r) ∧
      Progress m m' := by
  cases h with
  | install hi =>
      obtain ⟨m', hmerge, hprogress⟩ := progress_merge found hi ha
      exact ⟨m', none, by simp [Alone.dispatchSourceInvoke, Mem.place, hi, hmerge], hprogress⟩
  | release hi hdead hd =>
      refine ⟨_, some m.doTargetq, ?_, progress_release hi hdead hd⟩
      simp [Alone.dispatchSourceInvoke, Mem.place, hi, hdead, hd]
  | callout hi hdead hd hh =>
      refine ⟨_, none, ?_, progress_callout hi hdead hh⟩
      simp [Alone.dispatchSourceInvoke, Mem.place, hi, hdead, hd]
  | latch hi hdead hpending =>
      refine ⟨_, if (Alone.dispatchSourceLatchAndCall set m).dsNeedsRearm then some set.mgrQ
        else none, ?_, progress_latch set ha hdead hpending⟩
      simp [Alone.dispatchSourceInvoke, Mem.place, hi, hdead, hpending]
  | arm hi hdead hpending hr harmed =>
      have hd : m.dsDkev = true := by
        by_contra hd
        exact hdead (ha (Bool.eq_false_iff.mpr hd)).2
      refine ⟨_, none, ?_, progress_arm ha hdead hr harmed⟩
      simp [Alone.dispatchSourceInvoke, Mem.place, hi, hdead, hpending, hr, harmed, hd]

/-- Two calls for each of the things, one less on the right queue. -/
def Mem.rank (set : Setting T Q) (current : Q) (m : Mem Q) : ℕ :=
  2 * m.work - if current = m.place set then 1 else 0

theorem rank_le (current : Q) (m : Mem Q) : m.rank set current ≤ 6 := by
  have hwork : m.work ≤ 3 := by
    unfold Mem.work
    have hbool (b : Bool) : b.toNat ≤ 1 := Bool.toNat_le b
    have h₁ := hbool (!m.dsIsInstalled)
    split
    · have h₂ := hbool m.dsDkev
      have h₃ := hbool m.dsCancelHandler.isSome
      omega
    · have h₂ := hbool (decide (m.dsPendingData ≠ 0))
      have h₃ := hbool (m.dsNeedsRearm && !m.dsIsArmed)
      omega
  unfold Mem.rank
  omega

theorem invoke_decreases (ha : m.Attached) (hp : Alone.dispatchSourceProbe m) (current : Q) :
    ∃ m' r, Alone.dispatchSourceInvoke set found current m = some (m', r) ∧ m'.Attached ∧
      m'.rank set (r.getD m'.doTargetq) < m.rank set current ∧ m'.eventBudget ≤ m.eventBudget ∧
      m'.cancelBudget ≤ m.cancelBudget := by
  have hwork := probe_iff.mp hp
  by_cases hq : current = m.place set
  · subst hq
    obtain ⟨m', r, hinvoke, hprogress⟩ := invoke_here set found ha (due_of_probe hp)
    refine ⟨m', r, hinvoke, hprogress.attached, ?_, hprogress.events_le, hprogress.cancels_le⟩
    have hlt := hprogress.work_lt
    unfold Mem.rank
    rw [if_pos rfl]
    omega
  · refine ⟨m, some (m.place set), invoke_elsewhere set found (due_of_probe hp) hq, ha, ?_,
      le_rfl, le_rfl⟩
    unfold Mem.rank
    rw [if_neg hq, Option.getD_some, if_pos rfl]
    omega

theorem redrive_settles {set : Setting T Q} (found : ℕ → Bool) {n : ℕ} {current : Q} {m : Mem Q}
    (ha : m.Attached) (hn : m.rank set current < n) :
    ∃ m', Alone.redrive set found n current m = some m' ∧
      Alone.dispatchSourceProbe m' = false ∧ m'.deliveries.length ≤ m.eventBudget ∧
      m'.cancelCalls.length ≤ m.cancelBudget := by
  induction n generalizing current m with
  | zero => cases hn
  | succ n ih =>
      unfold Alone.redrive
      cases hp : Alone.dispatchSourceProbe m with
      | false =>
          obtain ⟨m', hinvoke, hp', hevents, hcancels⟩ :=
            invoke_idle set (found n) current hp
          rw [hinvoke]
          refine ⟨m', by simp [hp'], hp', ?_, ?_⟩
          · rw [hevents]
            exact Nat.le_add_right _ _
          · rw [hcancels]
            exact Nat.le_add_right _ _
      | true =>
          obtain ⟨m', r, hinvoke, ha', hrank, hevents, hcancels⟩ :=
            invoke_decreases set (found n) ha hp current
          rw [hinvoke]
          have hlt : m'.rank set (r.getD m'.doTargetq) < n := by omega
          obtain ⟨m'', hdrive, hp'', hevents', hcancels'⟩ := ih ha' hlt
          cases r with
          | some tq => exact ⟨m'', hdrive, hp'', hevents'.trans hevents, hcancels'.trans hcancels⟩
          | none =>
              dsimp only
              split
              · exact ⟨m'', hdrive, hp'', hevents'.trans hevents, hcancels'.trans hcancels⟩
              case isFalse hdone =>
                refine ⟨m', rfl, Bool.eq_false_iff.mpr hdone, ?_, ?_⟩
                · exact (Nat.le_add_right _ _).trans hevents
                · exact (Nat.le_add_right _ _).trans hcancels

end Work

/-! ## The sources of whole runs -/

/-- What a thread in `_dispatch_source_invoke` has seen of the source on its way to
`_dispatch_kevent_release`. -/
def Held.Seen (m : Mem Q) : Held Q → Prop
  | .flags | .xref => m.dsIsInstalled
  | .dkev | .releaseDkev => m.dsIsInstalled ∧ m.Dead
  | _ => True

theorem HeldTrans.keeps {set : Setting T Q} {m m' : Mem Q} {f f' : Frame Q} {p p' : Held Q}
    (h : HeldTrans set m f p m' f' p') :
    (m.dsIsInstalled → m'.dsIsInstalled) ∧ m'.dsCanceled = m.dsCanceled ∧
      m'.doXrefCnt = m.doXrefCnt := by
  cases h
  case drainItem dc => cases dc <;> exact ⟨id, rfl, rfl⟩
  all_goals simp

theorem HeldTrans.seen {set : Setting T Q} {m m' : Mem Q} {f f' : Frame Q} {p p' : Held Q}
    (h : HeldTrans set m f p m' f' p') (hp : p.Seen m) : p'.Seen m' := by
  cases h
  case isInstalled hi => exact hi
  case flags => exact hp
  case flagsCanceled hc => exact ⟨hp, .inl hc⟩
  case xrefReleased hx => exact ⟨hp, .inr hx⟩
  case dkev => exact hp
  case drainItem => split <;> trivial
  case outSuspended dc _ | outRunning dc _ | outTarget dc _ =>
    rcases drainOut_cases f dc with ho | ho <;> rw [ho] <;> trivial
  all_goals trivial

def Loc.Seen (m : Mem Q) : Loc Q → Prop
  | .held _ p => p.Seen m
  | _ => True

theorem seen_afterLoc (m : Mem Q) (k : After) : (k.loc : Loc Q).Seen m := by
  cases k <;> trivial

theorem seen_resumeLoc (m m' : Mem Q) (k : After) : (resumeLoc m k).Seen m' := by
  rcases resumeLoc_eq m k with h | h | h <;> rw [h]
  · trivial
  · trivial
  · exact seen_afterLoc m' k

section Runs

variable [DecidableEq Q] {set : Setting T Q} {t : T} {m m' : Mem Q} {l l' : Loc Q}

theorem Trans.keeps (h : Trans set t m l m' l') :
    (m.dsIsInstalled → m'.dsIsInstalled) ∧ (m.Dead → m'.Dead) := by
  cases h
  case held h =>
    obtain ⟨hi, hc, hx⟩ := h.keeps
    exact ⟨hi, fun hd ↦ by rwa [Mem.Dead, hc, hx]⟩
  case setTimer hpos | retain hpos =>
    exact ⟨id, fun hd ↦ .inl (hd.resolve_right hpos.ne')⟩
  case releaseXref hlt => exact ⟨id, fun hd ↦ .inl (hd.resolve_right (by omega))⟩
  case releaseXrefLast hone => exact ⟨id, fun hd ↦ .inl (hd.resolve_right (by omega))⟩
  case cancelFlag => exact ⟨id, fun _ ↦ .inl rfl⟩
  case timerInstalled => exact ⟨fun _ ↦ rfl, id⟩
  all_goals exact ⟨id, id⟩

theorem Held.Seen.keeps {p : Held Q} (hp : p.Seen m) (h : Trans set t m l m' l') :
    p.Seen m' := by
  obtain ⟨hi, hd⟩ := h.keeps
  cases p
  case flags | xref => exact hi hp
  case dkev | releaseDkev => exact ⟨hi hp.1, hd hp.2⟩
  all_goals trivial

theorem Trans.seen (h : Trans set t m l m' l') (hl : l.Seen m) : l'.Seen m' := by
  cases h
  case held h => exact h.seen hl
  case resume | timerResume => exact seen_resumeLoc _ _ _
  case wakeupSuspended | wakeupEmpty | wakeupMissed | wakeupPush => exact seen_afterLoc _ _
  all_goals trivial

theorem Trans.attached (h : Trans set t m l m' l') (hl : l.Seen m) (hm : m.Attached) :
    m'.Attached := by
  intro hd'
  obtain ⟨hi, hdead⟩ := h.keeps
  suffices hold : m.dsIsInstalled ∧ m.Dead from ⟨hi hold.1, hdead hold.2⟩
  cases h
  case held p _ h =>
    rcases eq_or_ne p .releaseDkev with rfl | hne
    · exact hl
    · exact hm ((h.dsDkev_eq hne).symm.trans hd')
  all_goals exact hm hd'

variable [DecidableEq T]

theorem attached_of_run {C : Pool T (Mem Q) (Loc Q) → T → Act Q → Prop} {tq : Q}
    {mask : BitVec 64} {needsRearm : Bool} {s : Pool T (Mem Q) (Loc Q)}
    (h : Pool.Runs (step set) C (created tq mask needsRearm) s) :
    s.mem.Attached ∧ ∀ t, (s.loc t).Seen s.mem := by
  refine h.invariant (I := fun s ↦ s.mem.Attached ∧ ∀ t, (s.loc t).Seen s.mem)
    ⟨nofun, fun _ ↦ trivial⟩ ?_
  intro s t a m l _ hI _ hP
  have htrans := trans_of_step hP
  refine ⟨htrans.attached (hI.2 t) hI.1, fun u ↦ ?_⟩
  rcases eq_or_ne u t with rfl | hu
  · simpa using htrans.seen (hI.2 u)
  · have hother : (s.loc u).Seen m := by
      have hu := hI.2 u
      cases hloc : s.loc u with
      | held f p =>
          rw [hloc] at hu
          exact Held.Seen.keeps hu htrans
      | _ => trivial
    simpa [hu] using hother

/-- In every state that a source can be in, `_dispatch_source_probe` and
`_dispatch_source_invoke` agree, and with nothing from outside the source settles within
seven invocations, with at most one call of each handler. -/
theorem source_settles {tq : Q} {mask : BitVec 64} {needsRearm : Bool}
    {s : Pool T (Mem Q) (Loc Q)}
    (h : Pool.Reachable (step set) (created tq mask needsRearm) s) :
    (Alone.dispatchSourceProbe s.mem = false → ∀ found current, ∃ m',
      Alone.dispatchSourceInvoke set found current s.mem = some (m', none) ∧
        m'.deliveries = s.mem.deliveries ∧ m'.cancelCalls = s.mem.cancelCalls) ∧
      ∀ (found : ℕ → Bool) (current : Q), ∃ m',
        Alone.redrive set found 7 current s.mem = some m' ∧
          Alone.dispatchSourceProbe m' = false ∧
          m'.deliveries.length ≤ s.mem.deliveries.length + 1 ∧
          m'.cancelCalls.length ≤ s.mem.cancelCalls.length + 1 := by
  constructor
  · intro hp found current
    obtain ⟨m', hinvoke, -, hcalls⟩ := invoke_idle set found current hp
    exact ⟨m', hinvoke, hcalls⟩
  · intro found current
    have hrank := rank_le set current s.mem
    obtain ⟨m', hdrive, hp, hevents, hcancels⟩ :=
      redrive_settles found (attached_of_run h).1 (Nat.lt_succ_of_le hrank)
    refine ⟨m', hdrive, hp, hevents.trans ?_, hcancels.trans ?_⟩
    · exact Nat.add_le_add_left (Bool.toNat_le _) _
    · exact Nat.add_le_add_left (Bool.toNat_le _) _

end Runs

/-- A source with a cancellation handler that has been registered and then cancelled. -/
def canceledTrace : List (Fin 2 × Act (Fin 2)) :=
  [(0, Act.setCancelHandler true)] ++ steps 0 5 ++ [(0, Act.resume)] ++ steps 0 6 ++
    [(0, Act.invoke 0)] ++ steps 0 16 ++ [(1, Act.invoke 1)] ++ steps 1 21 ++
    [(0, Act.cancel)] ++ steps 0 2

def canceledState : Pool (Fin 2) (Mem (Fin 2)) (Loc (Fin 2)) :=
  ((created 0 0 false).run (step ⟨1, 1, false, true⟩) (fun _ _ _ ↦ True) canceledTrace).get
    (by decide)

theorem source_settles_canceled :
    canceledState.mem.dsCanceled ∧ canceledState.mem.dsDkev ∧
      canceledState.mem.dsCancelHandler = some 0 ∧ ∃ m' : Mem (Fin 2),
      Alone.redrive (⟨1, 1, false, true⟩ : Setting (Fin 2) (Fin 2)) (fun _ ↦ false) 7 0
        canceledState.mem = some m' ∧
        Alone.dispatchSourceProbe m' = false ∧ m'.cancelCalls.length ≤ 0 + 1 := by
  have hrun : Pool.Reachable (step ⟨1, 1, false, true⟩) (created 0 0 false) canceledState :=
    Pool.runs_get _
  obtain ⟨m', hdrive, hp, -, hcancels⟩ := (source_settles hrun).2 (fun _ ↦ false) 0
  exact ⟨by decide, by decide, by decide, m', hdrive, hp, hcancels⟩

end LibDispatch.Source
