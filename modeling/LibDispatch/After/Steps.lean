import LibDispatch.After.Model
import LibDispatch.Source.Handlers

/-!
# What one step of `dispatch_after_f` and its handlers can do
-/

namespace LibDispatch.After

open Interleaving
open Kevent (Clock)

variable {T Q : Type*} [DecidableEq T] [DecidableEq Q]

inductive Trans (set : Setting T Q) (t : T) (m : Mem T Q) :
    Source.Loc Q → Mem T Q → Source.Loc Q → Prop
  | call {now : ℕ} : m.progress = .start → Trans set t m .idle (dispatchAfterF set m now) .idle
  | next {a : Source.Act Q} {progress : Progress} {n : Source.Mem Q} {l' : Source.Loc Q} :
      m.progress.call = some (a, progress) →
      Source.step set.toSetting t a m.src .idle = some (n, l') →
      Trans set t m .idle { m with src := n, progress } l'
  | asyncFunc : m.progress = .async →
      Trans set t m .idle { m with progress := .asyncFunc, calls := m.calls + 1 } .idle
  | asyncReturn : m.progress = .asyncFunc →
      Trans set t m .idle { m with progress := .finished, returns := m.returns + 1 } .idle
  | go {a : Source.Act Q} {n : Source.Mem Q} {l l' : Source.Loc Q} : l ≠ .idle →
      l.spot ≠ .latchRun → l.spot ≠ .calloutRun →
      Source.step set.toSetting t a m.src l = some (n, l') → Trans set t m l { m with src := n } l'
  | callbackReturn {a : Source.Act Q} {f : Source.Frame Q} {n : Source.Mem Q} {l' : Source.Loc Q} :
      m.callback = .returned →
      Source.step set.toSetting t a m.src (.held f .latchRun) = some (n, l') →
      Trans set t m (.held f .latchRun) { m with src := n, callback := .outside } l'
  | calloutReturn {a : Source.Act Q} {f : Source.Frame Q} {k : ℕ} {n : Source.Mem Q}
      {l' : Source.Loc Q} : m.callout = .returned →
      Source.step set.toSetting t a m.src (.held f (.calloutRun k)) = some (n, l') →
      Trans set t m (.held f (.calloutRun k)) { m with src := n, callout := .outside } l'
  | invoke {tq : Q} {n : Source.Mem Q} {l' : Source.Loc Q} :
      Source.step set.toSetting t (.invoke tq) m.src .idle = some (n, l') →
      Trans set t m .idle { m with src := n } l'
  | setTimer2 {n : Source.Mem Q} {l' : Source.Loc Q} :
      Source.step set.toSetting t .setTimer2 m.src .idle = some (n, l') →
      Trans set t m .idle { m with src := n, timer := setTimer2 set m.timer } l'
  | passed {c : Clock} {now : ℕ} : Trans set t m .idle { m with reads := (c, now) :: m.reads } .idle
  | fire {c : Clock} {now : ℕ} {n : Source.Mem Q} {l' : Source.Loc Q} : due m.timer c now →
      Source.step set.toSetting t (.fire (BitVec.ofNat 64 (m.timer.fire now).2)) m.src .idle =
        some (n, l') →
      Trans set t m .idle
        { m with src := n, reads := (c, now) :: m.reads, timer := (m.timer.fire now).1 } l'
  | callFunc {f : Source.Frame Q} : m.callback = .outside →
      Trans set t m (.held f .latchRun) { m with callback := .func, calls := m.calls + 1 }
        (.held f .latchRun)
  | funcReturn {f : Source.Frame Q} : m.callback = .func →
      Trans set t m (.held f .latchRun) { m with callback := .cancel, returns := m.returns + 1 }
        (.held f .latchRun)
  | free {f : Source.Frame Q} {k : ℕ} : m.callout = .outside →
      Trans set t m (.held f (.calloutRun k)) { m with callout := .release, frees := m.frees + 1 }
        (.held f (.calloutRun k))
  | sourceCancel {n : Source.Mem Q} {l' : Source.Loc Q} : m.callback = .cancel →
      Source.step set.toSetting t .cancel m.src .idle = some (n, l') →
      Trans set t m .idle { m with src := n, callback := .cancelling t } l'
  | release {n : Source.Mem Q} {l' : Source.Loc Q} : m.callout = .release →
      Source.step set.toSetting t .release m.src .idle = some (n, l') →
      Trans set t m .idle
        { m with src := n, callout := .releasing t, releases := m.releases + 1 } l'
  | cancelled : m.callback = .cancelling t →
      Trans set t m .idle { m with callback := .returned } .idle
  | released : m.callout = .releasing t →
      Trans set t m .idle { m with callout := .returned } .idle

variable {set : Setting T Q} {t : T} {m m' : Mem T Q} {l l' : Source.Loc Q}

theorem srcStep_eq_some {a : Source.Act Q} {k : Mem T Q → Mem T Q}
    (h : srcStep set t a m l k = some (m', l')) :
    ∃ n, Source.step set.toSetting t a m.src l = some (n, l') ∧ m' = k { m with src := n } := by
  obtain ⟨⟨n, l₁⟩, hn, heq⟩ := Option.map_eq_some_iff.mp h
  cases heq
  exact ⟨n, hn, rfl⟩

theorem trans_of_go {a : Source.Act Q} (ha : Source.step set.toSetting t a m.src .idle = none)
    (h : go set t a m l = some (m', l')) : Trans set t m l m' l' := by
  unfold go at h
  split at h
  · rw [Option.ite_none_right_eq_some] at h
    obtain ⟨hreturned, h⟩ := h
    obtain ⟨n, hn, rfl⟩ := srcStep_eq_some h
    exact .callbackReturn hreturned hn
  · rw [Option.ite_none_right_eq_some] at h
    obtain ⟨hreturned, h⟩ := h
    obtain ⟨n, hn, rfl⟩ := srcStep_eq_some h
    exact .calloutReturn hreturned hn
  · rename_i hlatch hcallout
    obtain ⟨n, hn, rfl⟩ := srcStep_eq_some h
    refine .go ?_ ?_ ?_ hn
    · rintro rfl
      cases ha.symm.trans hn
    · intro hspot
      cases l with
      | held f p => cases p <;> first | exact hlatch f rfl | cases hspot
      | _ => cases hspot
    · intro hspot
      cases l with
      | held f p => cases p <;> first | exact hcallout f _ rfl | cases hspot
      | _ => cases hspot

theorem trans_of_handler {a : Act Q} (h : handler m l a = some (m', l')) :
    Trans set t m l m' l' := by
  cases a with
  | callFunc =>
      simp only [handler, Option.ite_none_right_eq_some, Option.some.injEq, Prod.mk.injEq] at h
      obtain ⟨⟨hl, hout⟩, rfl, rfl⟩ := h
      split at hl
      · exact .callFunc hout
      · cases hl
  | funcReturn =>
      simp only [handler, Option.ite_none_right_eq_some, Option.some.injEq, Prod.mk.injEq] at h
      obtain ⟨⟨hl, hfunc⟩, rfl, rfl⟩ := h
      split at hl
      · exact .funcReturn hfunc
      · cases hl
  | free =>
      simp only [handler, Option.ite_none_right_eq_some, Option.some.injEq, Prod.mk.injEq] at h
      obtain ⟨⟨hl, hout⟩, rfl, rfl⟩ := h
      split at hl
      · exact .free hout
      · cases hl
  | _ => cases h

theorem trans_of_handlerCall {a : Act Q} (h : handlerCall set t m a = some (m', l')) :
    Trans set t m .idle m' l' := by
  cases a with
  | sourceCancel =>
      simp only [handlerCall, Option.ite_none_right_eq_some] at h
      obtain ⟨n, hn, rfl⟩ := srcStep_eq_some h.2
      exact .sourceCancel h.1 hn
  | release =>
      simp only [handlerCall, Option.ite_none_right_eq_some] at h
      obtain ⟨n, hn, rfl⟩ := srcStep_eq_some h.2
      exact .release h.1 hn
  | handlerReturn =>
      simp only [handlerCall] at h
      split at h
      · cases h
        exact .cancelled ‹_›
      · split at h
        · cases h
          exact .released ‹_›
        · cases h
  | _ => cases h

theorem trans_of_afterCall {a : Act Q} (h : afterCall set t m a = some (m', l')) :
    Trans set t m .idle m' l' := by
  cases a with
  | call now =>
      simp only [afterCall, Option.ite_none_right_eq_some, Option.some.injEq, Prod.mk.injEq] at h
      obtain ⟨⟨-, hstart⟩, rfl, rfl⟩ := h
      exact .call hstart
  | next =>
      simp only [afterCall, Option.ite_none_right_eq_some] at h
      obtain ⟨-, h⟩ := h
      obtain ⟨⟨a, progress⟩, hcall, h⟩ := Option.bind_eq_some_iff.mp h
      obtain ⟨n, hn, rfl⟩ := srcStep_eq_some h
      exact .next hcall hn
  | asyncFunc =>
      simp only [afterCall, Option.ite_none_right_eq_some, Option.some.injEq, Prod.mk.injEq] at h
      obtain ⟨hasync, rfl, rfl⟩ := h
      exact .asyncFunc hasync
  | asyncReturn =>
      simp only [afterCall, Option.ite_none_right_eq_some, Option.some.injEq, Prod.mk.injEq] at h
      obtain ⟨hasync, rfl, rfl⟩ := h
      exact .asyncReturn hasync
  | _ => cases h

theorem trans_of_pass {c : Clock} {now : ℕ} (h : pass set t m c now = some (m', l')) :
    Trans set t m .idle m' l' := by
  unfold pass at h
  simp only at h
  split at h
  · obtain ⟨n, hn, rfl⟩ := srcStep_eq_some h
    exact .fire ‹_› hn
  · simp only [Option.ite_none_right_eq_some, Option.some.injEq, Prod.mk.injEq] at h
    obtain ⟨-, rfl, rfl⟩ := h
    exact .passed

theorem trans_of_step {a : Act Q} (h : step set t a m l = some (m', l')) :
    Trans set t m l m' l' := by
  cases a with
  | go => exact trans_of_go rfl h
  | found => exact trans_of_go rfl h
  | callFunc => exact trans_of_handler (a := .callFunc) h
  | funcReturn => exact trans_of_handler (a := .funcReturn) h
  | free => exact trans_of_handler (a := .free) h
  | call | next | asyncFunc | asyncReturn =>
      simp only [step, Option.ite_none_right_eq_some] at h
      obtain ⟨rfl, h⟩ := h
      exact trans_of_afterCall h
  | invoke tq =>
      simp only [step, Option.ite_none_right_eq_some] at h
      obtain ⟨rfl, h⟩ := h
      obtain ⟨n, hn, rfl⟩ := srcStep_eq_some h
      exact .invoke hn
  | setTimer2 =>
      simp only [step, Option.ite_none_right_eq_some] at h
      obtain ⟨rfl, h⟩ := h
      obtain ⟨n, hn, rfl⟩ := srcStep_eq_some h
      exact .setTimer2 hn
  | pass c now =>
      simp only [step, Option.ite_none_right_eq_some] at h
      obtain ⟨rfl, h⟩ := h
      exact trans_of_pass h
  | sourceCancel | release | handlerReturn =>
      simp only [step, Option.ite_none_right_eq_some] at h
      obtain ⟨rfl, h⟩ := h
      exact trans_of_handlerCall h

theorem src_of_run {C : Pool T (Mem T Q) (Source.Loc Q) → T → Act Q → Prop}
    {s : Pool T (Mem T Q) (Source.Loc Q)} (h : Pool.Runs (step set) C (initial set) s) :
    Pool.Reachable (Source.step set.toSetting) (Source.created set.queue 0 true)
      ⟨s.mem.src, s.loc⟩ := by
  refine h.refines Mem.src id fun t a m l m' l' hs ↦ ?_
  cases trans_of_step hs
  case next hn | go hn | callbackReturn hn | calloutReturn hn | invoke hn | setTimer2 hn | fire hn
      | sourceCancel hn | release hn => exact .inr ⟨_, hn⟩
  case call =>
    left
    unfold dispatchAfterF
    split <;> exact ⟨rfl, rfl⟩
  all_goals exact .inl ⟨rfl, rfl⟩

end LibDispatch.After
