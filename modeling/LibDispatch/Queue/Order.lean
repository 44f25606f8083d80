import LibDispatch.Interleaving.Refinement
import LibDispatch.Queue.Exclusion

/-!
# Synchronous calls do not overtake

The items of a queue are numbered in the order of the exchanges by which they are pushed,
and leave the list in that order.  A synchronous call that takes the slow path waits
behind all items pushed before it.  One that takes the fast path looks at the list only
once, before it takes `dq_running`; meanwhile the thread that drains may have put back an
item that it had in hand.  As long as the list is still empty when a fast path takes
`dq_running`, no call starts before the items that it must not overtake have finished.
-/

namespace LibDispatch.Queue

open Interleaving

variable {T Q : Type*}

/-- The record of a queue: the items pushed so far and how many of them have left the list;
the number of the item that each thread has in hand or executes; the numbers of those on
the list of the root queue and of those that have finished; and how many had been pushed
when the last synchronous call of each thread began. -/
structure Hist (T Q : Type*) where
  pushed : List (Item T Q)
  taken : ℕ
  hand : T → ℕ
  onRoot : List ℕ
  finished : List ℕ
  began : T → ℕ

/-- What a step from one place to another adds to the record.  A worker that takes a
redirected item takes the one with number `k`. -/
def Hist.next [DecidableEq T] (t : T) (k : ℕ) (l l' : Loc T Q) (h : Hist T Q) :
    Option (Hist T Q) :=
  match l with
  | .pushExchange item _ => some { h with pushed := h.pushed ++ [item] }
  | .drainPop .. =>
      some { h with taken := h.taken + 1, hand := Function.update h.hand t h.taken }
  | .drainRun _ | .redirectRun =>
      some (if l'.executing then h else { h with finished := h.hand t :: h.finished })
  | .redirectPush _ => some { h with onRoot := h.hand t :: h.onRoot }
  | .idle =>
      match l' with
      | .redirectRun =>
          if k ∈ h.onRoot then
            some { h with onRoot := h.onRoot.erase k, hand := Function.update h.hand t k }
          else none
      | .barrierTail | .syncTail =>
          some { h with began := Function.update h.began t h.pushed.length }
      | _ => some h
  | _ => some h

def recordedStep [DecidableEq T] [DecidableEq Q] (width : ℕ) :
    Program T (Act Q × ℕ) (Mem T Q × Hist T Q) (Loc T Q) :=
  (step width).record Hist.next

def Hist.empty : Hist T Q where
  pushed := []
  taken := 0
  hand _ := 0
  onRoot := []
  finished := []
  began _ := 0

/-- The list is empty whenever a fast path takes `dq_running`. -/
def FastPathEmpty (s : Pool T (Mem T Q) (Loc T Q)) (t : T) (_ : Act Q) : Prop :=
  TakesFastPath s.mem (s.loc t) → s.mem.items = []

/-- The function of a synchronous call runs: of a barrier (`true`) or of a reader. -/
def Loc.syncRuns : Loc T Q → Option Bool
  | .barrierRun | .barrierSlowRun => some true
  | .syncRun => some false
  | _ => none

/-! ## Places -/

/-- The item that a thread has taken off the list but may put back. -/
def Loc.held : Loc T Q → Option (Item T Q)
  | .drainSuspended d dc | .drainRunning d dc | .drainTarget d dc | .drainBarrier d dc
  | .drainPop d dc => if d.next then none else some dc
  | .outSwap _ dc | .outFront _ dc => some dc
  | _ => none

/-- The thread has an asynchronous item in hand that has left the list. -/
def Loc.keeps : Loc T Q → Bool
  | .drainRun _ | .redirectAdd _ | .redirectRetain _ | .redirectAlloc _ | .redirectPush _
  | .redirectRun | .crash => true
  | _ => false

/-- That item is forwarded to the root queue, or has been. -/
def Loc.forwards : Loc T Q → Bool
  | .redirectAdd _ | .redirectRetain _ | .redirectAlloc _ | .redirectPush _ | .redirectRun
  | .crash => true
  | _ => false

def Loc.pops : Loc T Q → Option (Item T Q)
  | .drainPop _ dc => some dc
  | _ => none

/-- A place at which a thread has nothing to do with the order of the items. -/
structure Loc.Plain (l : Loc T Q) : Prop where
  held : l.held = none
  keeps : l.keeps = false
  forwards : l.forwards = false
  pops : l.pops = none
  call : l.call = none
  syncRuns : l.syncRuns = none

theorem Loc.bit_of_held {l : Loc T Q} {dc : Item T Q} (h : l.held = some dc) : l.bit = 1 := by
  cases l <;> first | rfl | cases h

theorem Loc.bit_of_pops {l : Loc T Q} {dc : Item T Q} (h : l.pops = some dc) : l.bit = 1 := by
  cases l <;> first | rfl | cases h

theorem Loc.carried_of_held {l : Loc T Q} {dc : Item T Q} (h : l.held = some dc) :
    l.carried = some dc := by
  cases l <;> first | exact h | cases h

theorem Loc.keeps_cases {l : Loc T Q} (h : l.keeps) :
    (∃ d, l = .drainRun d) ∨ l.forwards := by
  cases l <;> simp_all [Loc.keeps, Loc.forwards]

theorem Loc.share_of_forwards {l : Loc T Q} (h : l.forwards) : 1 ≤ l.bit + 2 * l.readers := by
  cases l <;> simp_all [Loc.forwards, Loc.bit, Loc.readers]

theorem plain_resumeLoc (m : Mem T Q) : (resumeLoc m).Plain := by
  rcases resumeLoc_cases m with h | h | h <;> rw [h] <;> exact ⟨rfl, rfl, rfl, rfl, rfl, rfl⟩

theorem plain_drainLoop (d : Drain Q) : (drainLoop d : Loc T Q).Plain := by
  rcases drainLoop_cases (T := T) d with h | h <;> rw [h] <;>
    exact ⟨rfl, rfl, rfl, rfl, rfl, rfl⟩

theorem held_drainOut (d : Drain Q) (dc : Item T Q) :
    (drainOut d dc).held = if d.next then none else some dc := by
  rcases drainOut_eq d dc with ⟨ho, hn⟩ | ⟨ho, hn⟩ <;> rw [ho, hn] <;> rfl

theorem held_drainCall (width : ℕ) (d : Drain Q) (dc : Item T Q) :
    (drainCall width d dc).held = none := by
  cases dc <;> simp only [drainCall]
  case async => split <;> rfl
  all_goals rfl

theorem pops_drainCall (width : ℕ) (d : Drain Q) (dc : Item T Q) :
    (drainCall width d dc).pops = none ∧ (drainCall width d dc).syncRuns = none := by
  cases dc <;> simp only [drainCall]
  case async => split <;> exact ⟨rfl, rfl⟩
  all_goals exact ⟨rfl, rfl⟩

/-! ## What a step adds to the record -/

section Recorded

variable [DecidableEq T] [DecidableEq Q]

inductive Recorded (width : ℕ) (t : T) (k : ℕ) (m : Mem T Q) (h : Hist T Q) :
    Loc T Q → Mem T Q → Loc T Q → Hist T Q → Prop
  | quiet {l l' : Loc T Q} {m' : Mem T Q} : m'.items = m.items → m'.redirected = m.redirected →
      l'.held = l.held → l'.keeps = l.keeps → l'.forwards = l.forwards →
      (∀ dc, l'.pops = some dc → width = 1 ∨ dc.isBarrier = false ∨ l.pops = some dc) →
      (∀ c, l'.call = some c → l.call = some c) →
      (∀ c, l'.syncRuns = some c → l.syncRuns = some c) → Recorded width t k m h l m' l' h
  | push {item : Item T Q} {j : After} {m' : Mem T Q} {l' : Loc T Q} :
      m'.items = m.items ++ [item] → m'.redirected = m.redirected → l'.held = none →
      l'.keeps = false → l'.forwards = false → l'.pops = none → l'.call = j.call →
      l'.syncRuns = none →
      Recorded width t k m h (.pushExchange item j) m' l'
        { h with pushed := h.pushed ++ [item] }
  | take {d d' : Drain Q} {dc : Item T Q} {m' : Mem T Q} : m.items = [dc] → m'.items = [] →
      m'.redirected = m.redirected → d'.next = false →
      Recorded width t k m h (.drainTake d) m' (.drainSuspended d' dc) h
  | ready {d : Drain Q} {dc : Item T Q} : m.dqRunning ≤ 1 →
      Recorded width t k m h (.drainBarrier d dc) m (.drainPop d dc) h
  | pop {d : Drain Q} {dc : Item T Q} {m' : Mem T Q} :
      m'.items = (if d.next then m.items.tail else m.items) → m'.redirected = m.redirected →
      Recorded width t k m h (.drainPop d dc) m' (drainCall width d dc)
        { h with taken := h.taken + 1, hand := Function.update h.hand t h.taken }
  | putBack {l l' : Loc T Q} {dc : Item T Q} {m' : Mem T Q} : l.held = some dc →
      l.keeps = false → l.forwards = false → m'.items = dc :: m.items →
      m'.redirected = m.redirected → l'.Plain → Recorded width t k m h l m' l' h
  | finish {l l' : Loc T Q} {m' : Mem T Q} : l.keeps → l.held = none → m'.items = m.items →
      m'.redirected = m.redirected → l'.Plain →
      Recorded width t k m h l m' l' { h with finished := h.hand t :: h.finished }
  | forward {d : Drain Q} {l' : Loc T Q} {m' : Mem T Q} : m'.items = m.items →
      m'.redirected = m.redirected + 1 → l'.Plain →
      Recorded width t k m h (.redirectPush d) m' l' { h with onRoot := h.hand t :: h.onRoot }
  | fetch {m' : Mem T Q} : k ∈ h.onRoot → m'.items = m.items →
      m'.redirected = m.redirected - 1 →
      Recorded width t k m h .idle m' .redirectRun
        { h with onRoot := h.onRoot.erase k, hand := Function.update h.hand t k }
  | begin {l' : Loc T Q} : l'.Plain →
      Recorded width t k m h .idle m l'
        { h with began := Function.update h.began t h.pushed.length }
  | lock {m' : Mem T Q} : m.dqRunning = 0 → m'.items = m.items →
      m'.redirected = m.redirected → Recorded width t k m h .barrierLock m' .barrierRun h
  | add {m' : Mem T Q} : m.dqRunning % 2 ≠ 1 → m'.items = m.items →
      m'.redirected = m.redirected → Recorded width t k m h .syncAdd m' .syncRun h
  | wait {l l' : Loc T Q} {m' : Mem T Q} {c : Bool} : 0 < m.sema t → l.call = some c →
      l.held = none → l.keeps = false → l.forwards = false → l'.syncRuns = some c →
      l'.held = none → l'.keeps = false → l'.forwards = false → l'.pops = none →
      l'.call = none → m'.items = m.items → m'.redirected = m.redirected →
      Recorded width t k m h l m' l' h

variable {width : ℕ} {t : T} {k : ℕ} {m m' : Mem T Q} {l l' : Loc T Q} {h h' : Hist T Q}

omit [DecidableEq Q] in
theorem Recorded.of_plain (hitems : m'.items = m.items) (hred : m'.redirected = m.redirected)
    (hheld : l.held = none) (hkeeps : l.keeps = false) (hforwards : l.forwards = false)
    (hl' : l'.Plain) (hh : h' = h) : Recorded width t k m h l m' l' h' := by
  subst hh
  refine .quiet hitems hred (hl'.held.trans hheld.symm) (hl'.keeps.trans hkeeps.symm)
    (hl'.forwards.trans hforwards.symm) ?_ ?_ ?_
  · simp [hl'.pops]
  · simp [hl'.call]
  · simp [hl'.syncRuns]

omit [DecidableEq Q] in
theorem Recorded.of_after {j : After} (hitems : m'.items = m.items)
    (hred : m'.redirected = m.redirected) (hheld : l.held = none) (hkeeps : l.keeps = false)
    (hforwards : l.forwards = false) (hcall : l.call = j.call) (hh : h' = h) :
    Recorded width t k m h l m' (j.loc t) h' := by
  subst hh
  refine .quiet hitems hred ?_ ?_ ?_ ?_ ?_ ?_
  · rw [hheld]
    cases j <;> rfl
  · rw [hkeeps]
    cases j <;> rfl
  · rw [hforwards]
    cases j <;> rfl
  · cases j <;> simp [After.loc, Loc.pops]
  · rw [hcall]
    cases j <;> simp [After.loc, Loc.call, After.call]
  · cases j <;> simp [After.loc, Loc.syncRuns]

theorem recorded_of_trans (hT : Trans width t m l m' l') (hnext : Hist.next t k l l' h = some h') :
    Recorded width t k m h l m' l' h' := by
  have hsame : some h = some h' → h' = h := fun heq ↦ (Option.some.inj heq).symm
  cases hT
  case exchange | exchangeBehind =>
    cases hnext
    exact .push rfl rfl rfl rfl rfl rfl rfl rfl
  case drainLast hitems => exact hsame hnext ▸ .take hitems rfl rfl rfl
  case drainBarrier hle => exact hsame hnext ▸ .ready hle
  case drainPop =>
    cases hnext
    exact .pop rfl rfl
  case outSwap hitems =>
    exact hsame hnext ▸ .putBack rfl rfl rfl (by rw [hitems]) rfl ⟨rfl, rfl, rfl, rfl, rfl, rfl⟩
  case outFront =>
    exact hsame hnext ▸ .putBack rfl rfl rfl rfl rfl ⟨rfl, rfl, rfl, rfl, rfl, rfl⟩
  case drainRun d =>
    have hexec : (drainLoop d : Loc T Q).executing = false := by
      rcases drainLoop_cases (T := T) d with hl | hl <;> rw [hl] <;> rfl
    simp only [Hist.next, hexec, Bool.false_eq_true, if_false, Option.some.injEq] at hnext
    exact hnext ▸ .finish rfl rfl rfl rfl (plain_drainLoop d)
  case redirectRun =>
    cases hnext
    exact .finish rfl rfl rfl rfl ⟨rfl, rfl, rfl, rfl, rfl, rfl⟩
  case redirectPush d =>
    cases hnext
    exact .forward rfl rfl (plain_drainLoop d)
  case redirect2 =>
    simp only [Hist.next] at hnext
    split at hnext <;> cases hnext
    exact .fetch ‹_› rfl rfl
  case barrierSync | sync =>
    cases hnext
    exact .begin ⟨rfl, rfl, rfl, rfl, rfl, rfl⟩
  case barrierLock hfree => exact hsame hnext ▸ .lock hfree rfl rfl
  case syncAdd heven => exact hsame hnext ▸ .add heven rfl rfl
  case barrierWait hpos | syncWait hpos =>
    exact hsame hnext ▸ .wait hpos rfl rfl rfl rfl rfl rfl rfl rfl rfl rfl rfl rfl
  case suspendInner hexec =>
    obtain rfl : h' = h := by
      refine hsame ?_
      cases l <;> first | exact hnext | cases hexec
    exact .quiet rfl rfl rfl rfl rfl (fun _ hdc ↦ .inr (.inr hdc)) (fun _ hc ↦ hc)
      (fun _ hc ↦ hc)
  case release | pushLink | wakeupSuspended | wakeupEmpty | wakeupMissed | wakeupPush =>
    exact .of_after rfl rfl rfl rfl rfl rfl (hsame hnext)
  case resumeInner | resumeOuter =>
    obtain rfl : h' = h := by
      refine hsame ?_
      rcases resumeLoc_cases m with hl | hl | hl <;> rw [hl] at hnext <;> exact hnext
    exact .of_plain rfl rfl rfl rfl rfl (plain_resumeLoc m) rfl
  case barrierResume => exact .of_plain rfl rfl rfl rfl rfl (plain_resumeLoc m) (hsame hnext)
  case drainSetTarget d _ | slowSignal d _ | slow2Signal d _ =>
    exact .of_plain rfl rfl rfl rfl rfl (plain_drainLoop d) (hsame hnext)
  case drainOut d dc hl =>
    have hrest : (drainOut d dc).keeps = false ∧ (drainOut d dc).forwards = false ∧
        (drainOut d dc).pops = none ∧ (drainOut d dc).call = none ∧
        (drainOut d dc).syncRuns = none := by
      rcases drainOut_eq d dc with ⟨ho, -⟩ | ⟨ho, -⟩ <;> rw [ho] <;>
        exact ⟨rfl, rfl, rfl, rfl, rfl⟩
    obtain ⟨hkeeps, hforwards, hpops, hcall, hruns⟩ := hrest
    rcases hl with ⟨rfl, -⟩ | ⟨rfl, -⟩ | ⟨rfl, -⟩ | ⟨rfl, -⟩ <;>
      exact hsame hnext ▸ .quiet rfl rfl (held_drainOut d dc) hkeeps hforwards
        (by simp [hpops]) (by simp [hcall])
        (by simp [hruns])
  case drainTargetPop hpop =>
    refine hsame hnext ▸ .quiet rfl rfl rfl rfl rfl (fun dc hdc ↦ ?_) nofun nofun
    cases hdc
    exact hpop.imp_right .inl
  case barrierRun | barrierSlowRun | syncRun =>
    exact hsame hnext ▸ .quiet rfl rfl rfl rfl rfl nofun nofun nofun
  all_goals
    exact hsame hnext ▸ .quiet rfl rfl rfl rfl rfl nofun (fun _ hc ↦ hc) (fun _ hc ↦ hc)

end Recorded

/-! ## The list -/

section Listing

variable [DecidableEq T] {width : ℕ} {t : T} {m m' : Mem T Q} {loc : T → Loc T Q} {l' : Loc T Q}
  {items items' pushed : List (Item T Q)} {taken : ℕ}

/-- The items on the list are the pushed ones that have not left it, in their order; the
thread that drains may have the first of them in hand. -/
structure Listed (items pushed : List (Item T Q)) (taken : ℕ) (loc : T → Loc T Q) : Prop where
  taken_le : taken ≤ pushed.length
  free : (∀ u, (loc u).held = none) → pushed.drop taken = items
  held : ∀ u dc, (loc u).held = some dc → pushed.drop taken = dc :: items

/-- The items that have been pushed after a step from the place. -/
def Loc.pushedBy (pushed : List (Item T Q)) : Loc T Q → List (Item T Q)
  | .pushExchange item _ => pushed ++ [item]
  | _ => pushed

def Loc.takenBy (taken : ℕ) : Loc T Q → ℕ
  | .drainPop .. => taken + 1
  | _ => taken

theorem Hist.next_eq {k : ℕ} {l : Loc T Q} {h h' : Hist T Q}
    (hnext : Hist.next t k l l' h = some h') :
    h'.pushed = l.pushedBy h.pushed ∧ h'.taken = l.takenBy h.taken := by
  cases l
  case idle =>
    simp only [Hist.next] at hnext
    split at hnext
    · split at hnext <;> cases hnext
      exact ⟨rfl, rfl⟩
    all_goals
      cases hnext
      exact ⟨rfl, rfl⟩
  case drainRun | redirectRun =>
    simp only [Hist.next, Option.some.injEq] at hnext
    subst hnext
    split <;> exact ⟨rfl, rfl⟩
  all_goals
    cases hnext
    exact ⟨rfl, rfl⟩

theorem Listed.stay (hlist : Listed items pushed taken loc) (hitems : items' = items)
    (hheld : l'.held = (loc t).held) : Listed items' pushed taken (Function.update loc t l') := by
  have hupd : (fun u ↦ (Function.update loc t l' u).held) = fun u ↦ (loc u).held :=
    comp_update_of_eq Loc.held hheld
  obtain ⟨taken_le, free, held⟩ := hlist
  refine ⟨taken_le, fun hfree ↦ ?_, fun u dc hu ↦ ?_⟩
  · rw [hitems]
    exact free fun u ↦ (congrFun hupd u).symm.trans (hfree u)
  · rw [hitems]
    exact held u dc ((congrFun hupd u).symm.trans hu)

theorem Listed.push (hlist : Listed items pushed taken loc) (item : Item T Q)
    (hheld : l'.held = (loc t).held) :
    Listed (items ++ [item]) (pushed ++ [item]) taken (Function.update loc t l') := by
  obtain ⟨taken_le, free, held⟩ := hlist.stay rfl hheld
  refine ⟨taken_le.trans (by simp), fun hfree ↦ ?_, fun u dc hu ↦ ?_⟩
  · rw [List.drop_append_of_le_length taken_le, free hfree]
  · rw [List.drop_append_of_le_length taken_le, held u dc hu]
    rfl

variable [Fintype T]

theorem Accounts.held_eq_none (hacc : Accounts m loc) (ht : (loc t).bit = 1) {u : T}
    (hu : u ≠ t) : (loc u).held = none := by
  rcases hheld : (loc u).held with - | dc
  · rfl
  · exact (hu (hacc.bit_unique u t (Loc.bit_of_held hheld) ht)).elim

theorem Listed.drop_eq (hlist : Listed m.items pushed taken loc) (hacc : Accounts m loc)
    (ht : (loc t).bit = 1) : pushed.drop taken = (loc t).held.toList ++ m.items := by
  rcases hheld : (loc t).held with - | dc
  · refine hlist.free fun u ↦ ?_
    rcases eq_or_ne u t with rfl | hu
    · exact hheld
    · exact hacc.held_eq_none ht hu
  · exact hlist.held t dc hheld

theorem Listed.of_drain (hacc : Accounts m loc) (ht : (loc t).bit = 1)
    (htaken : taken ≤ pushed.length) (hdrop : pushed.drop taken = l'.held.toList ++ items') :
    Listed items' pushed taken (Function.update loc t l') := by
  refine ⟨htaken, fun hfree ↦ ?_, fun u dc hu ↦ ?_⟩
  · have hnone : l'.held = none := by simpa using hfree t
    simpa [hnone] using hdrop
  · rcases eq_or_ne u t with rfl | hut
    · rw [Function.update_self] at hu
      simpa [hu] using hdrop
    · rw [Function.update_of_ne hut, hacc.held_eq_none ht hut] at hu
      cases hu

theorem Listed.putBack (hlist : Listed m.items pushed taken loc) (hacc : Accounts m loc)
    {dc : Item T Q} (hheld : (loc t).held = some dc) (hitems : items' = dc :: m.items)
    (hl' : l'.held = none) : Listed items' pushed taken (Function.update loc t l') := by
  have hbit := Loc.bit_of_held hheld
  refine .of_drain hacc hbit hlist.taken_le ?_
  rw [hlist.drop_eq hacc hbit, hheld, hl', hitems]
  rfl

theorem Listed.drop_of_pop (hlist : Listed m.items pushed taken loc) (hacc : Accounts m loc)
    {d : Drain Q} {dc : Item T Q} (ht : loc t = .drainPop d dc) :
    pushed.drop taken = dc :: (if d.next then m.items.tail else m.items) := by
  have hdrop := hlist.drop_eq hacc (t := t) (by rw [ht]; rfl)
  rw [hdrop, ht]
  cases hn : d.next with
  | true =>
      have hfirst := hacc.first t dc (by rw [ht]; simp [Loc.first, hn])
      obtain ⟨rest, hrest⟩ := List.head?_eq_some_iff.mp hfirst
      simp [Loc.held, hn, hrest]
  | false => simp [Loc.held, hn]

theorem Listed.getElem_of_pop (hlist : Listed m.items pushed taken loc) (hacc : Accounts m loc)
    {d : Drain Q} {dc : Item T Q} (ht : loc t = .drainPop d dc) : pushed[taken]? = some dc := by
  rw [← List.head?_drop, hlist.drop_of_pop hacc ht]
  rfl

theorem Trans.listed [DecidableEq Q] (h : Trans width t m (loc t) m' l') (hacc : Accounts m loc)
    (hlist : Listed m.items pushed taken loc) :
    Listed m'.items ((loc t).pushedBy pushed) ((loc t).takenBy taken)
      (Function.update loc t l') := by
  generalize ht : loc t = l at h ⊢
  have hheld : (loc t).held = l.held := by rw [ht]
  cases h
  case exchange | exchangeBehind => exact hlist.push _ hheld.symm
  case drainLast hitems =>
    refine .of_drain hacc (by rw [ht]; rfl) hlist.taken_le ?_
    have hdrop := hlist.drop_eq hacc (t := t) (by rw [ht]; rfl)
    rw [hheld, hitems] at hdrop
    exact hdrop
  case drainPop =>
    have hdrop := hlist.drop_of_pop hacc ht
    refine .of_drain hacc (by rw [ht]; rfl) ?_ ?_
    · have hlen := congrArg List.length hdrop
      rw [List.length_drop, List.length_cons] at hlen
      simp only [Loc.pushedBy, Loc.takenBy]
      omega
    · have htail := congrArg List.tail hdrop
      rw [List.tail_drop, List.tail_cons] at htail
      rw [held_drainCall]
      exact htail
  case outSwap hitems => exact hlist.putBack hacc hheld (by rw [hitems]) rfl
  case outFront => exact hlist.putBack hacc hheld rfl rfl
  case release k | pushLink k | wakeupSuspended k _ | wakeupEmpty k _ | wakeupMissed k _ |
      wakeupPush k => exact hlist.stay rfl (hheld ▸ by cases k <;> rfl)
  case resumeInner | resumeOuter | barrierResume =>
    exact hlist.stay rfl ((plain_resumeLoc m).held.trans hheld.symm)
  case drainRun d | drainSetTarget d _ | slowSignal d _ | slow2Signal d _ | redirectPush d =>
    exact hlist.stay rfl ((plain_drainLoop d).held.trans hheld.symm)
  case drainOut d dc hl =>
    rcases hl with ⟨rfl, -⟩ | ⟨rfl, -⟩ | ⟨rfl, -⟩ | ⟨rfl, -⟩ <;>
      exact hlist.stay rfl ((held_drainOut d dc).trans hheld.symm)
  case suspendInner hexec =>
    have hsame : l'.pushedBy pushed = pushed ∧ l'.takenBy taken = taken := by
      cases l' <;> first | exact ⟨rfl, rfl⟩ | cases hexec
    rw [hsame.1, hsame.2]
    exact hlist.stay rfl hheld.symm
  all_goals exact hlist.stay rfl hheld.symm

end Listing

/-! ## The items that have left the list -/

section Pending

variable [DecidableEq T] {width : ℕ} {t : T} {m m' : Mem T Q} {loc : T → Loc T Q} {l' : Loc T Q}
  {h h' : Hist T Q} {k : ℕ}

/-- An asynchronous item that has left the list has finished, or waits on the list of the
root queue, or some thread has it in hand. -/
structure Pending (width : ℕ) (m : Mem T Q) (h : Hist T Q) (loc : T → Loc T Q) : Prop where
  onRoot_length : h.onRoot.length = m.redirected
  onRoot : ∀ i ∈ h.onRoot, width ≠ 1 ∧ h.pushed[i]? = some (.async false)
  hand : ∀ u, (loc u).forwards → width ≠ 1 ∧ h.pushed[h.hand u]? = some (.async false)
  cases : ∀ i < h.taken, ∀ b, h.pushed[i]? = some (.async b) →
    i ∈ h.finished ∨ i ∈ h.onRoot ∨ ∃ u, (loc u).keeps ∧ h.hand u = i

theorem Pending.stay (hpend : Pending width m h loc) (hred : m'.redirected = m.redirected)
    (hkeeps : l'.keeps = (loc t).keeps) (hforwards : l'.forwards = (loc t).forwards) (n : T → ℕ) :
    Pending width m' { h with began := n } (Function.update loc t l') := by
  have hk := comp_update_of_eq Loc.keeps hkeeps
  have hf := comp_update_of_eq Loc.forwards hforwards
  obtain ⟨onRoot_length, onRoot, hand, cases⟩ := hpend
  refine ⟨onRoot_length.trans hred.symm, onRoot, fun u hu ↦ hand u ?_, fun i hi b hb ↦ ?_⟩
  · exact (congrFun hf u).symm.trans hu
  · refine (cases i hi b hb).imp_right (Or.imp_right fun ⟨u, hu, hiu⟩ ↦ ⟨u, ?_, hiu⟩)
    exact (congrFun hk u).trans hu

theorem Pending.grab (hkeeps : (loc t).keeps = false) {i : ℕ} {u : T} (hu : (loc u).keeps)
    (hiu : h.hand u = i) (n : ℕ) :
    ∃ u, (Function.update loc t l' u).keeps ∧ Function.update h.hand t n u = i := by
  have hut : u ≠ t := by
    rintro rfl
    rw [hkeeps] at hu
    cases hu
  exact ⟨u, by simpa [hut] using hu, by simpa [hut] using hiu⟩

theorem Pending.drop (t : T) (l' : Loc T Q) (hpend : Pending width m h loc) {i : ℕ}
    (hi : i < h.taken) {b : Bool} (hb : h.pushed[i]? = some (.async b)) :
    i ∈ h.finished ∨ i ∈ h.onRoot ∨ i = h.hand t ∨
      ∃ u, (Function.update loc t l' u).keeps ∧ h.hand u = i := by
  rcases hpend.cases i hi b hb with hfin | hroot | ⟨u, hu, hiu⟩
  · exact .inl hfin
  · exact .inr (.inl hroot)
  · rcases eq_or_ne u t with rfl | hut
    · exact .inr (.inr (.inl hiu.symm))
    · exact .inr (.inr (.inr ⟨u, by simpa [hut] using hu, hiu⟩))

theorem forwards_update (hl' : l'.forwards = false) {u : T}
    (hu : (Function.update loc t l' u).forwards) : (loc u).forwards ∧ u ≠ t := by
  rcases eq_or_ne u t with rfl | hut
  · simp [hl'] at hu
  · exact ⟨by simpa [hut] using hu, hut⟩

omit [DecidableEq T] in
theorem drainCall_forwards {d : Drain Q} {dc : Item T Q} (hl : (drainCall width d dc).forwards) :
    width ≠ 1 ∧ dc = .async false := by
  cases dc <;> simp only [drainCall] at hl
  case async barrier =>
    split at hl
    · cases hl
    · rename_i hnot
      rw [not_or] at hnot
      exact ⟨hnot.1, by simpa using hnot.2⟩
  all_goals cases hl

theorem Pending.pop (hpend : Pending width m h loc) (hred : m'.redirected = m.redirected)
    (hkeeps : (loc t).keeps = false) {d : Drain Q} {dc : Item T Q}
    (hnext : h.pushed[h.taken]? = some dc) :
    Pending width m' { h with taken := h.taken + 1, hand := Function.update h.hand t h.taken }
      (Function.update loc t (drainCall width d dc)) := by
  refine ⟨hpend.onRoot_length.trans hred.symm, hpend.onRoot, fun u hu ↦ ?_, fun i hi b hb ↦ ?_⟩
  · dsimp only
    rcases eq_or_ne u t with rfl | hut
    · rw [Function.update_self] at hu ⊢
      rw [hnext, Option.some.injEq]
      exact drainCall_forwards hu
    · rw [Function.update_of_ne hut] at hu ⊢
      exact hpend.hand u hu
  · rcases Nat.lt_succ_iff_lt_or_eq.mp hi with hlt | rfl
    · refine (hpend.cases i hlt b hb).imp_right (Or.imp_right fun ⟨u, hu, hiu⟩ ↦ ?_)
      exact Pending.grab hkeeps hu hiu _
    · refine .inr (.inr ⟨t, ?_, by simp⟩)
      rw [hnext, Option.some.injEq] at hb
      rw [Function.update_self, hb]
      simp only [drainCall]
      split <;> rfl

variable [Fintype T]

theorem Recorded.pending (hrec : Recorded width t k m h (loc t) m' l' h') (hacc : Accounts m loc)
    (hlist : Listed m.items h.pushed h.taken loc) (hpend : Pending width m h loc) :
    Pending width m' h' (Function.update loc t l') := by
  generalize ht : loc t = l at hrec
  cases hrec with
  | quiet _ hred _ hkeeps hforwards =>
      exact hpend.stay hred (by rw [ht, hkeeps]) (by rw [ht, hforwards]) h.began
  | push hitems hred hheld hkeeps hforwards hpops hcall hruns =>
      have hstay : Pending width m' { h with began := h.began } (Function.update loc t l') :=
        hpend.stay hred (by rw [ht, hkeeps]; rfl) (by rw [ht, hforwards]; rfl) h.began
      obtain ⟨onRoot_length, onRoot, hand, cases⟩ := hstay
      rename_i item j
      have hmore : ∀ {i : ℕ} {x}, h.pushed[i]? = some x → (h.pushed ++ [item])[i]? = some x := by
        intro i x hi
        rw [List.getElem?_append_left (List.getElem?_eq_some_iff.mp hi).1, hi]
      refine ⟨onRoot_length, fun i hi ↦ (onRoot i hi).imp_right hmore,
        fun u hu ↦ (hand u hu).imp_right hmore, fun i hi b hb ↦ cases i hi b ?_⟩
      rwa [List.getElem?_append_left (hi.trans_le hlist.taken_le)] at hb
  | take _ _ hred => exact hpend.stay hred (by rw [ht]; rfl) (by rw [ht]; rfl) h.began
  | ready => exact hpend.stay rfl (by rw [ht]; rfl) (by rw [ht]; rfl) h.began
  | pop hitems hred => exact hpend.pop hred (by rw [ht]; rfl) (hlist.getElem_of_pop hacc ht)
  | putBack _ hkeeps hforwards _ hred hl' =>
      exact hpend.stay hred (by rw [ht, hkeeps, hl'.keeps]) (by rw [ht, hforwards, hl'.forwards])
        h.began
  | finish _ _ _ hred hl' =>
      refine ⟨hpend.onRoot_length.trans hred.symm, hpend.onRoot, fun u hu ↦ ?_, fun i hi b hb ↦ ?_⟩
      · exact hpend.hand u (forwards_update hl'.forwards hu).1
      · rcases hpend.drop t l' hi hb with hfin | hroot | rfl | hhand
        · exact .inl (List.mem_cons_of_mem _ hfin)
        · exact .inr (.inl hroot)
        · exact .inl List.mem_cons_self
        · exact .inr (.inr hhand)
  | forward _ hred hl' =>
      have hown := hpend.hand t (by rw [ht]; rfl)
      refine ⟨by simp [hred, hpend.onRoot_length], ?_, fun u hu ↦ ?_, fun i hi b hb ↦ ?_⟩
      · exact List.forall_mem_cons.mpr ⟨hown, hpend.onRoot⟩
      · exact hpend.hand u (forwards_update hl'.forwards hu).1
      · rcases hpend.drop t l' hi hb with hfin | hroot | rfl | hhand
        · exact .inl hfin
        · exact .inr (.inl (List.mem_cons_of_mem _ hroot))
        · exact .inr (.inl List.mem_cons_self)
        · exact .inr (.inr hhand)
  | fetch hmem _ hred =>
      have hkeeps : (loc t).keeps = false := by rw [ht]; rfl
      refine ⟨?_, fun i hi ↦ hpend.onRoot i (List.mem_of_mem_erase hi), fun u hu ↦ ?_,
        fun i hi b hb ↦ ?_⟩
      · rw [List.length_erase_of_mem hmem, hpend.onRoot_length, hred]
      · dsimp only
        rcases eq_or_ne u t with rfl | hut
        · rw [Function.update_self]
          exact hpend.onRoot k hmem
        · rw [Function.update_of_ne hut] at hu ⊢
          exact hpend.hand u hu
      · rcases hpend.cases i hi b hb with hfin | hroot | ⟨u, hu, hiu⟩
        · exact .inl hfin
        · by_cases hik : i = k
          · exact .inr (.inr ⟨t, by simp [Loc.keeps], by simp [hik]⟩)
          · exact .inr (.inl ((List.mem_erase_of_ne hik).mpr hroot))
        · exact .inr (.inr (Pending.grab hkeeps hu hiu _))
  | begin hl' =>
      exact hpend.stay rfl (by rw [ht, hl'.keeps]; rfl) (by rw [ht, hl'.forwards]; rfl) _
  | lock _ _ hred => exact hpend.stay hred (by rw [ht]; rfl) (by rw [ht]; rfl) h.began
  | add _ _ hred => exact hpend.stay hred (by rw [ht]; rfl) (by rw [ht]; rfl) h.began
  | wait _ _ _ hkeeps hforwards _ _ hkeeps' hforwards' _ _ _ hred =>
      exact hpend.stay hred (by rw [ht, hkeeps, hkeeps']) (by rw [ht, hforwards, hforwards'])
        h.began

end Pending

/-! ## The synchronous calls -/

section Calls

variable {width : ℕ} {t : T} {m m' : Mem T Q} {loc : T → Loc T Q} {l' : Loc T Q}
  {h h' : Hist T Q} {k : ℕ}

/-- Of the first `n` items, the barriers have finished, and if `c` is set all of them. -/
def Hist.Clear (h : Hist T Q) (n : ℕ) (c : Bool) : Prop :=
  ∀ i < n, ∀ b, h.pushed[i]? = some (.async b) → c ∨ b → i ∈ h.finished

/-- The slow path of thread `v` has pushed its item, and it has not left the list. -/
def Hist.Queued (h : Hist T Q) (v : T) (c : Bool) : Prop :=
  ∃ j item, h.began v ≤ j ∧ h.taken ≤ j ∧ h.pushed[j]? = some item ∧ item.slow = some (v, c)

theorem Hist.Clear.mono {n n' : ℕ} {c : Bool} (hclear : h.Clear n c) (hn : n' ≤ n)
    (hpushed : ∀ i < n, h'.pushed[i]? = h.pushed[i]?) (hfin : h.finished ⊆ h'.finished) :
    h'.Clear n' c := by
  intro i hi b hb hcb
  rw [hpushed i (hi.trans_le hn)] at hb
  exact hfin (hclear i (hi.trans_le hn) b hb hcb)

structure Called (width : ℕ) (h : Hist T Q) (loc : T → Loc T Q) : Prop where
  began_le : ∀ v, h.began v ≤ h.pushed.length
  ready : ∀ u dc, (loc u).pops = some dc → width ≠ 1 → dc.isBarrier → h.Clear h.taken true
  waiting : ∀ v c, (loc v).call = some c → h.Queued v c ∨ h.Clear (h.began v) c
  running : ∀ v c, (loc v).syncRuns = some c → h.Clear (h.began v) c

variable [DecidableEq T] [Fintype T]

/-- While a thread other than the one that drains has an item in hand, or an item waits on
the list of the root queue, `dq_running` shows it. -/
theorem Pending.clear_of_running (hpend : Pending width m h loc) (hacc : Accounts m loc)
    (hrun : (m.dqRunning : ℤ) ≤ (loc t).bit) (ht : ∀ d, loc t ≠ .drainRun d)
    (hforwards : (loc t).forwards = false) : h.Clear h.taken true := by
  have hbit := (loc t).bit_eq
  have hle := hacc.share_le_running
  intro i hi b hb _
  rcases hpend.cases i hi b hb with hfin | hroot | ⟨u, hu, -⟩
  · exact hfin
  · have hpos := List.length_pos_of_mem hroot
    have hshare : (loc t).runningShare (m.sema t) + 2 * m.redirected ≤ m.dqRunning := by
      have hsum := Finset.single_le_sum (f := fun v ↦ (loc v).runningShare (m.sema v))
        (fun v _ ↦ by have := (loc v).shares_le (m.sema v); omega) (Finset.mem_univ t)
      have hacc' := hacc.running
      omega
    have hle' := (loc t).shares_le (m.sema t)
    rw [hpend.onRoot_length] at hpos
    omega
  · exfalso
    rcases eq_or_ne u t with rfl | hut
    · rcases Loc.keeps_cases hu with ⟨d, hd⟩ | hfwd
      · exact ht d hd
      · rw [hforwards] at hfwd
        cases hfwd
    · have hpair := Finset.add_le_sum (f := fun v ↦ (loc v).runningShare (m.sema v))
        (fun v _ ↦ by have := (loc v).shares_le (m.sema v); omega) (Finset.mem_univ u)
        (Finset.mem_univ t) hut
      have hacc' := hacc.running
      have hleu := (loc u).shares_le (m.sema u)
      have hlet := (loc t).shares_le (m.sema t)
      have hone : 1 ≤ (loc u).bit + 2 * (loc u).readers := by
        rcases Loc.keeps_cases hu with ⟨d, hd⟩ | hfwd
        · rw [hd]
          simp [Loc.bit, Loc.readers]
        · exact Loc.share_of_forwards hfwd
      have hread := (loc t).readers_nonneg
      omega

/-- Nothing that is left of the list is due before the slow call of thread `v`, once its
semaphore has been signalled. -/
theorem Accounts.not_queued (hacc : Accounts m loc)
    (hlist : Listed m.items h.pushed h.taken loc) {v : T} {c : Bool}
    (hcall : (loc v).call = some c) (hpos : 0 < m.sema v) : ¬ h.Queued v c := by
  rintro ⟨j, item, -, hj, hitem, hslow⟩
  have hmem : item ∈ h.pushed.drop h.taken := by
    refine List.mem_iff_getElem?.mpr ⟨j - h.taken, ?_⟩
    rw [List.getElem?_drop, Nat.add_sub_cancel' hj, hitem]
  have hcalls := hacc.calls c v
  have hlisted := listed_nonneg c v m.items
  have hcarries : 0 ≤ ∑ u, (loc u).carries c v :=
    Finset.sum_nonneg fun u _ ↦ (loc u).carries_nonneg c v
  simp only [Loc.signalled, Loc.waits, hcall, if_true] at hcalls
  have hone : item.waitedBy c v = 1 := by simp [Item.waitedBy, hslow]
  have honList : item ∈ m.items → 1 ≤ listed c v m.items := by
    intro hin
    obtain ⟨xs, ys, hsplit⟩ := List.append_of_mem hin
    have hxs := listed_nonneg c v xs
    have hys := listed_nonneg c v ys
    rw [hsplit, listed_append, listed_cons]
    omega
  by_cases hfree : ∀ u, (loc u).held = none
  · rw [hlist.free hfree] at hmem
    have := honList hmem
    omega
  · obtain ⟨u, hu⟩ := not_forall.mp hfree
    obtain ⟨dc, hdc⟩ := Option.ne_none_iff_exists'.mp hu
    rw [hlist.held u dc hdc, List.mem_cons] at hmem
    rcases hmem with rfl | hin
    · have hle := Finset.single_le_sum (f := fun u ↦ (loc u).carries c v)
        (fun u _ ↦ (loc u).carries_nonneg c v) (Finset.mem_univ u)
      simp only [Loc.carries_of_carried (Loc.carried_of_held hdc), hone] at hle
      omega
    · have := honList hin
      omega

/-- An item that waits for its turn leaves the list after the items it must not overtake
have finished. -/
theorem Called.clear_of_pop (hcalled : Called width h loc) (hpend : Pending width m h loc)
    (hacc : Accounts m loc) {d : Drain Q} {dc : Item T Q} (ht : loc t = .drainPop d dc) {v : T}
    {c : Bool} (hslow : dc.slow = some (v, c)) : h.Clear h.taken c := by
  have hbarrier : c = true → dc.isBarrier := by
    rintro rfl
    cases dc <;> simp_all [Item.slow, Item.isBarrier]
  intro i hi b hb hcb
  have hplain : width ≠ 1 → h.pushed[i]? = some (.async false) → i ∈ h.finished := by
    intro hwidth hfalse
    rw [hb, Option.some.injEq, Item.async.injEq] at hfalse
    have hc : c = true := by simpa [hfalse] using hcb
    exact hcalled.ready t dc (by rw [ht]; rfl) hwidth (hbarrier hc) i hi b hb (.inl rfl)
  rcases hpend.cases i hi b hb with hfin | hroot | ⟨u, hu, hiu⟩
  · exact hfin
  · obtain ⟨hwidth, hfalse⟩ := hpend.onRoot i hroot
    exact hplain hwidth hfalse
  · rcases Loc.keeps_cases hu with ⟨d', hd'⟩ | hfwd
    · obtain rfl := hacc.bit_unique u t (by rw [hd']; rfl) (by rw [ht]; rfl)
      rw [ht] at hd'
      cases hd'
    · obtain ⟨hwidth, hfalse⟩ := hpend.hand u hfwd
      rw [hiu] at hfalse
      exact hplain hwidth hfalse

omit [Fintype T] in
theorem Called.stay (hcalled : Called width h loc)
    (hpops : ∀ dc, l'.pops = some dc →
      width = 1 ∨ dc.isBarrier = false ∨ h.Clear h.taken true)
    (hcall : ∀ c, l'.call = some c → (loc t).call = some c)
    (hruns : ∀ c, l'.syncRuns = some c → h.Clear (h.began t) c) :
    Called width h (Function.update loc t l') := by
  refine ⟨hcalled.began_le, fun u dc hu hwidth hbar ↦ ?_, fun v c hv ↦ ?_, fun v c hv ↦ ?_⟩
  · rcases eq_or_ne u t with rfl | hut
    · rw [Function.update_self] at hu
      rcases hpops dc hu with hone | hnot | hclear
      · exact absurd hone hwidth
      · rw [hnot] at hbar
        cases hbar
      · exact hclear
    · rw [Function.update_of_ne hut] at hu
      exact hcalled.ready u dc hu hwidth hbar
  · rcases eq_or_ne v t with rfl | hvt
    · rw [Function.update_self] at hv
      exact hcalled.waiting v c (hcall c hv)
    · rw [Function.update_of_ne hvt] at hv
      exact hcalled.waiting v c hv
  · rcases eq_or_ne v t with rfl | hvt
    · rw [Function.update_self] at hv
      exact hruns c hv
    · rw [Function.update_of_ne hvt] at hv
      exact hcalled.running v c hv

omit [Fintype T] in
theorem Called.extend (hcalled : Called width h loc) (hl' : l'.pops = none)
    (hcall : l'.call = none) (hruns : l'.syncRuns = none) (hpushed : h'.pushed = h.pushed)
    (hfin : h.finished ⊆ h'.finished) (htaken : h'.taken = h.taken)
    (hbegan : ∀ v, v ≠ t → h'.began v = h.began v) (hown : h'.began t ≤ h.pushed.length) :
    Called width h' (Function.update loc t l') := by
  have hpush : ∀ i : ℕ, h'.pushed[i]? = h.pushed[i]? := fun i ↦ by rw [hpushed]
  refine ⟨fun v ↦ ?_, fun u dc hu hwidth hbar ↦ ?_, fun v c hv ↦ ?_, fun v c hv ↦ ?_⟩
  · rw [hpushed]
    rcases eq_or_ne v t with rfl | hvt
    · exact hown
    · rw [hbegan v hvt]
      exact hcalled.began_le v
  · obtain ⟨-, hu⟩ := eq_some_of_update hl' hu
    exact (hcalled.ready u dc hu hwidth hbar).mono htaken.le (fun i _ ↦ hpush i) hfin
  · obtain ⟨hvt, hv⟩ := eq_some_of_update hcall hv
    refine (hcalled.waiting v c hv).imp ?_ fun hclear ↦
      hclear.mono (hbegan v hvt).le (fun i _ ↦ hpush i) hfin
    rintro ⟨j, item, hj, htj, hitem, hslow⟩
    exact ⟨j, item, (hbegan v hvt).le.trans hj, htaken.le.trans htj, by rw [hpush, hitem], hslow⟩
  · obtain ⟨hvt, hv⟩ := eq_some_of_update hruns hv
    exact (hcalled.running v c hv).mono (hbegan v hvt).le (fun i _ ↦ hpush i) hfin

omit [Fintype T] in
theorem Called.push (hcalled : Called width h loc) (hlist : Listed m.items h.pushed h.taken loc)
    {item : Item T Q}
    (hpops : l'.pops = none) (hcall : ∀ c, l'.call = some c → item.slow = some (t, c))
    (hruns : l'.syncRuns = none) :
    Called width { h with pushed := h.pushed ++ [item] } (Function.update loc t l') := by
  have hpush : ∀ i < h.pushed.length, (h.pushed ++ [item])[i]? = h.pushed[i]? :=
    fun i hi ↦ List.getElem?_append_left hi
  refine ⟨fun v ↦ (hcalled.began_le v).trans (by simp), fun u dc hu hwidth hbar ↦ ?_,
    fun v c hv ↦ ?_, fun v c hv ↦ ?_⟩
  · obtain ⟨-, hu⟩ := eq_some_of_update hpops hu
    exact (hcalled.ready u dc hu hwidth hbar).mono le_rfl
      (fun i hi ↦ hpush i (hi.trans_le hlist.taken_le)) (List.Subset.refl _)
  · rcases eq_or_ne v t with rfl | hvt
    · rw [Function.update_self] at hv
      exact .inl ⟨h.pushed.length, item, hcalled.began_le v, hlist.taken_le, by simp, hcall c hv⟩
    · rw [Function.update_of_ne hvt] at hv
      refine (hcalled.waiting v c hv).imp ?_ fun hclear ↦
        hclear.mono le_rfl (fun i hi ↦ hpush i (hi.trans_le (hcalled.began_le v)))
          (List.Subset.refl _)
      rintro ⟨i, x, hi, hti, hx, hslow⟩
      exact ⟨i, x, hi, hti, by rw [hpush i (List.getElem?_eq_some_iff.mp hx).1, hx], hslow⟩
  · obtain ⟨-, hv⟩ := eq_some_of_update hruns hv
    exact (hcalled.running v c hv).mono le_rfl
      (fun i hi ↦ hpush i (hi.trans_le (hcalled.began_le v))) (List.Subset.refl _)

theorem Called.pop (hcalled : Called width h loc) (hpend : Pending width m h loc)
    (hacc : Accounts m loc) (hlist : Listed m.items h.pushed h.taken loc) {d : Drain Q}
    {dc : Item T Q}
    (ht : loc t = .drainPop d dc) :
    Called width { h with taken := h.taken + 1, hand := Function.update h.hand t h.taken }
      (Function.update loc t (drainCall width d dc)) := by
  have hcall := (drainCall_spec width d dc).1
  obtain ⟨hpops, hruns⟩ := pops_drainCall width d dc
  have hnext := hlist.getElem_of_pop hacc ht
  refine ⟨hcalled.began_le, fun u x hu _ _ ↦ ?_, fun v c hv ↦ ?_, fun v c hv ↦ ?_⟩
  · obtain ⟨hut, hu⟩ := eq_some_of_update hpops hu
    exact absurd (hacc.bit_unique u t (Loc.bit_of_pops hu) (by rw [ht]; rfl)) hut
  · obtain ⟨-, hv⟩ := eq_some_of_update hcall hv
    rcases hcalled.waiting v c hv with ⟨j, item, hj, htj, hitem, hslow⟩ | hclear
    · rcases htj.eq_or_lt with rfl | hlt
      · rw [hnext, Option.some.injEq] at hitem
        rw [← hitem] at hslow
        have hclear := hcalled.clear_of_pop hpend hacc ht hslow
        exact .inr (hclear.mono hj (fun _ _ ↦ rfl) (List.Subset.refl _))
      · exact .inl ⟨j, item, hj, hlt, hitem, hslow⟩
    · exact .inr hclear
  · exact hcalled.running v c (eq_some_of_update hruns hv).2

omit [DecidableEq T] [Fintype T] in
theorem Pending.clear_of_bits (hpend : Pending width m h loc) (hbits : ∀ u, (loc u).bit = 0) :
    h.Clear h.taken false := by
  intro i hi b hb hcb
  obtain rfl : b = true := by simpa using hcb
  -- a barrier in hand is run by a thread that has the low bit
  rcases hpend.cases i hi true hb with hfin | hroot | ⟨u, hu, hiu⟩
  · exact hfin
  · have hfalse := (hpend.onRoot i hroot).2
    rw [hb] at hfalse
    cases hfalse
  · rcases Loc.keeps_cases hu with ⟨d, hd⟩ | hfwd
    · have hbit := hbits u
      rw [hd] at hbit
      cases hbit
    · have hfalse := (hpend.hand u hfwd).2
      rw [hiu, hb] at hfalse
      cases hfalse

omit [DecidableEq T] [Fintype T] in
theorem Listed.taken_eq (hlist : Listed m.items h.pushed h.taken loc) (hitems : m.items = [])
    (hbits : ∀ u, (loc u).bit = 0) : h.taken = h.pushed.length := by
  have hdrop := hlist.free fun u ↦ by
    rcases hheld : (loc u).held with - | dc
    · rfl
    · have hbit := Loc.bit_of_held hheld
      rw [hbits u] at hbit
      cases hbit
  rw [hitems, List.drop_eq_nil_iff] at hdrop
  exact le_antisymm hlist.taken_le hdrop

theorem Recorded.called (hrec : Recorded width t k m h (loc t) m' l' h') (hacc : Accounts m loc)
    (hsound : (loc t).Sound t) (hlist : Listed m.items h.pushed h.taken loc)
    (hpend : Pending width m h loc)
    (hfast : TakesFastPath m (loc t) → m.items = []) (hcalled : Called width h loc) :
    Called width h' (Function.update loc t l') := by
  generalize ht : loc t = l at hrec hfast hsound
  cases hrec with
  | quiet _ _ _ _ _ hpops hcall hruns =>
      refine hcalled.stay (fun dc hdc ↦ ?_) (fun c hc ↦ by rw [ht, hcall c hc])
        fun c hc ↦ hcalled.running t c (by rw [ht, hruns c hc])
      rcases hpops dc hdc with hone | hnot | hsame
      · exact .inl hone
      · exact .inr (.inl hnot)
      · by_cases hwidth : width = 1
        · exact .inl hwidth
        · cases hbar : dc.isBarrier with
          | false => exact .inr (.inl rfl)
          | true => exact .inr (.inr (hcalled.ready t dc (by rw [ht, hsame]) hwidth hbar))
  | @push item j _ _ hitems hred hheld hkeeps hforwards hpops hcall hruns =>
      refine hcalled.push hlist hpops (fun c hc ↦ ?_) hruns
      rw [hcall] at hc
      simpa [Loc.Sound, hc] using hsound
  | take => exact hcalled.stay (by simp [Loc.pops]) (by simp [Loc.call]) (by simp [Loc.syncRuns])
  | ready hrun =>
      refine hcalled.stay (fun dc _ ↦ .inr (.inr ?_)) (by simp [Loc.call]) (by simp [Loc.syncRuns])
      have hle : (m.dqRunning : ℤ) ≤ (loc t).bit := by
        rw [ht]
        exact Int.ofNat_le.mpr hrun
      exact hpend.clear_of_running hacc hle (by rw [ht]; simp) (by rw [ht]; rfl)
  | pop => exact hcalled.pop hpend hacc hlist ht
  | putBack _ _ _ _ _ hl' =>
      exact hcalled.stay (by simp [hl'.pops]) (by simp [hl'.call]) (by simp [hl'.syncRuns])
  | finish _ _ _ _ hl' =>
      exact hcalled.extend hl'.pops hl'.call hl'.syncRuns rfl (List.subset_cons_self _ _) rfl
        (fun _ _ ↦ rfl) (hcalled.began_le t)
  | forward _ _ hl' =>
      exact hcalled.extend hl'.pops hl'.call hl'.syncRuns rfl (List.Subset.refl _) rfl
        (fun _ _ ↦ rfl) (hcalled.began_le t)
  | fetch =>
      exact hcalled.extend rfl rfl rfl rfl (List.Subset.refl _) rfl (fun _ _ ↦ rfl)
        (hcalled.began_le t)
  | begin hl' =>
      refine hcalled.extend hl'.pops hl'.call hl'.syncRuns rfl (List.Subset.refl _) rfl
        (fun v hv ↦ Function.update_of_ne hv _ _) ?_
      simp
  | lock hfree =>
      have hbits := hacc.bit_eq_zero hfree
      have htaken := hlist.taken_eq (hfast (.inl ⟨rfl, hfree⟩)) hbits
      refine hcalled.stay (by simp [Loc.pops]) (by simp [Loc.call]) fun c hc ↦ ?_
      cases hc
      have hclear := hpend.clear_of_running hacc (t := t) (by rw [hfree, hbits t]; rfl)
        (by rw [ht]; simp) (by rw [ht]; rfl)
      exact hclear.mono ((hcalled.began_le t).trans htaken.ge) (fun _ _ ↦ rfl)
        (List.Subset.refl _)
  | add heven =>
      have hbits : ∀ u, (loc u).bit = 0 := fun u ↦
        (loc u).bit_eq.resolve_right fun hbit ↦ heven (hacc.running_odd hbit)
      have htaken := hlist.taken_eq (hfast (.inr ⟨rfl, heven⟩)) hbits
      refine hcalled.stay (by simp [Loc.pops]) (by simp [Loc.call]) fun c hc ↦ ?_
      cases hc
      exact (hpend.clear_of_bits hbits).mono ((hcalled.began_le t).trans htaken.ge)
        (fun _ _ ↦ rfl) (List.Subset.refl _)
  | wait hpos hcall _ _ _ hruns _ _ _ hpops hcall' =>
      refine hcalled.stay (by simp [hpops]) (by simp [hcall']) fun c hc ↦ ?_
      rw [hruns, Option.some.injEq] at hc
      subst hc
      rw [← ht] at hcall
      exact (hcalled.waiting t _ hcall).resolve_left (hacc.not_queued hlist hcall hpos)

end Calls

/-! ## Whole runs -/

section Runs

variable [DecidableEq T] [DecidableEq Q] [Fintype T] {width : ℕ} {tq : Q}
  {s : Pool T (Mem T Q × Hist T Q) (Loc T Q)}

/-- The runs with a record in which the list is empty whenever a fast path takes
`dq_running`. -/
abbrev OrderedRun (width : ℕ) (tq : Q) (s : Pool T (Mem T Q × Hist T Q) (Loc T Q)) : Prop :=
  Pool.Runs (recordedStep width) (fun s t a ↦ FastPathEmpty s.forget t a.1)
    ((created tq).recorded .empty) s

theorem called_of_run (h : OrderedRun width tq s) :
    Listed s.mem.1.items s.mem.2.pushed s.mem.2.taken s.loc ∧ Pending width s.mem.1 s.mem.2 s.loc ∧
      Called width s.mem.2 s.loc := by
  refine h.invariant (I := fun s ↦ Listed s.mem.1.items s.mem.2.pushed s.mem.2.taken s.loc ∧
    Pending width s.mem.1 s.mem.2 s.loc ∧ Called width s.mem.2 s.loc) ?_ ?_
  · refine ⟨⟨le_rfl, fun _ ↦ rfl, nofun⟩, ⟨rfl, nofun, nofun, nofun⟩, ⟨fun _ ↦ le_rfl, nofun, nofun,
      nofun⟩⟩
  · rintro s t a m l hr ⟨hlist, hpend, hcalled⟩ hC hP
    obtain ⟨hstep, hnext⟩ := Program.record_eq_some hP
    obtain ⟨hacc, hsound⟩ := accounts_of_run hr.forget
    have htrans := trans_of_step hstep
    have hrec := recorded_of_trans htrans hnext
    obtain ⟨hpushed, htaken⟩ := Hist.next_eq hnext
    exact ⟨hpushed ▸ htaken ▸ htrans.listed hacc hlist, hrec.pending hacc hlist hpend,
      hrec.called hacc (hsound t) hlist hpend hC hcalled⟩

omit [Fintype T] in
theorem Trans.redirected_pos {t : T} {m m' : Mem T Q} {l l' : Loc T Q}
    (h : Trans width t m l m' l') (hl : l = .idle) (hl' : l' = .redirectRun) :
    0 < m.redirected := by
  cases h
  case redirect2 hpos => exact hpos
  case resumeInner | resumeOuter =>
    rcases resumeLoc_cases m with heq | heq | heq <;> rw [heq] at hl' <;> cases hl'
  case suspendInner =>
    rw [hl] at hl'
    cases hl'
  case drainOut hout =>
    rcases hout with ⟨rfl, -⟩ | ⟨rfl, -⟩ | ⟨rfl, -⟩ | ⟨rfl, -⟩ <;> cases hl
  all_goals first | cases hl' | cases hl

theorem exists_record {s : Pool T (Mem T Q) (Loc T Q)}
    (h : Pool.Runs (step width) FastPathEmpty (created tq) s) :
    ∃ hist, OrderedRun width tq (s.recorded hist) := by
  refine h.exists_record fun s t a m l hr hP ↦ ?_
  by_cases hfetch : s.loc t = .idle ∧ l = .redirectRun
  · have hpos := (trans_of_step hP).redirected_pos hfetch.1 hfetch.2
    rw [← (called_of_run hr).2.1.onRoot_length] at hpos
    obtain ⟨k, hk⟩ := List.exists_mem_of_length_pos hpos
    exact ⟨k, by simp [Hist.next, hfetch.1, hfetch.2, hk]⟩
  · refine ⟨0, ?_⟩
    unfold Hist.next
    split <;> try rfl
    split
    · exact absurd ⟨‹_›, rfl⟩ hfetch
    all_goals rfl

theorem not_overtaking (h : OrderedRun width tq s) {t : T} {y : Bool}
    (hy : (s.loc t).syncRuns = some y) {i : ℕ} (hi : i < s.mem.2.began t) {x : Bool}
    (hx : s.mem.2.pushed[i]? = some (.async x)) (hxy : width = 1 ∨ x ∨ y) :
    i ∈ s.mem.2.finished := by
  have hclear := (called_of_run h).2.2.running t y hy
  refine hclear i hi x hx ?_
  rcases hxy with rfl | hx | hy
  · have hserial := (serial_of_run h.forget).2 t
    refine .inl ?_
    cases hl : s.loc t <;> simp_all [Loc.syncRuns, Pool.forget, Loc.serial]
  · exact .inr hx
  · exact .inl hy

end Runs

instance [DecidableEq T] [DecidableEq Q] (s : Pool T (Mem T Q) (Loc T Q)) (t : T) (a : Act Q) :
    Decidable (FastPathEmpty s t a) :=
  inferInstanceAs (Decidable (_ → _))

/-- A trace in which no worker chooses between redirected items. -/
def choosing (tr : List (T × Act Q)) : List (T × (Act Q × ℕ)) := tr.map fun x ↦ (x.1, (x.2, 0))

/-- Thread 1 pushes an item.  The barrier of thread 0 finds it on the list and waits behind
it; worker 2 runs the item and hands the queue over. -/
def behindTrace : List (Fin 3 × Act (Fin 1)) :=
  [(1, Act.async false)] ++ steps 1 10 ++ [(0, Act.barrierSync)] ++ steps 0 3 ++
    [(2, Act.invoke 0)] ++ steps 2 20 ++ steps 0 1

def behindState : Pool (Fin 3) (Mem (Fin 3) (Fin 1) × Hist (Fin 3) (Fin 1))
    (Loc (Fin 3) (Fin 1)) :=
  (((created 0).recorded .empty).run (recordedStep 1) (fun s t a ↦ FastPathEmpty s.forget t a.1)
    (choosing behindTrace)).get (by decide)

theorem not_overtaking_behind :
    behindState.loc 0 = .barrierSlowRun ∧ 0 ∈ behindState.mem.2.finished :=
  ⟨by decide, not_overtaking (t := 0) (y := true) (x := false)
    (Pool.runs_get _ : Pool.Runs (recordedStep 1) _ ((created 0).recorded .empty) behindState)
      (by decide) (by decide) (by decide) (by decide)⟩

/-- Thread 1 pushes an item; worker 2 takes it off the list.  The queue is suspended, the
barrier of thread 0 finds the list empty, and the worker puts the item back and leaves.
The queue is resumed: the barrier finds it free and runs. -/
def putBackTrace : List (Fin 3 × Act (Fin 1)) :=
  [(1, Act.async false)] ++ steps 1 10 ++ [(2, Act.invoke 0)] ++ steps 2 6 ++ [(1, Act.suspend)] ++
    [(0, Act.barrierSync)] ++ steps 0 1 ++ steps 2 5 ++ [(1, Act.resume false)] ++ steps 0 2

theorem overtaking_putBack :
    ∃ s : Pool (Fin 3) (Mem (Fin 3) (Fin 1) × Hist (Fin 3) (Fin 1)) (Loc (Fin 3) (Fin 1)),
      Pool.Reachable (recordedStep 1) ((created 0).recorded .empty) s ∧
        (s.loc 0).syncRuns = some true ∧ 0 < s.mem.2.began 0 ∧
        s.mem.2.pushed[0]? = some (.async false) ∧ 0 ∉ s.mem.2.finished :=
  ⟨(((created 0).recorded .empty).run (recordedStep 1) (fun _ _ _ ↦ True)
    (choosing putBackTrace)).get (by decide), Pool.runs_get _, by decide, by decide, by decide,
    by decide⟩

end LibDispatch.Queue
