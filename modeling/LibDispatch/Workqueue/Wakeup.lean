import LibDispatch.Workqueue.Items

/-!
# A wakeup that is lost

`manager_workqueue_additem` changes the mask and signals without the mutex under which a worker
looks at the mask for the last time before it waits.  An item that is added between this look
and the wait wakes nobody: it stays in its queue, next to a worker that sleeps, until another
worker returns from its call.  The manager does not help, as one worker counts as idle.
-/

namespace LibDispatch.Workqueue.Scoreboard

open Interleaving

variable {T α : Type*} {cfg : Config} {m m' : Mem T α} {l l' : Loc α} {p p' : Manager} {t u : T}
  {a : Act T α} {i : ℕ} {witem : α}

/-! ## Threads that leave the queues alone -/

/-- The manager neither starts a worker nor stops one. -/
def Manager.content : Manager → Bool
  | .top _ | .timedWait _ | .suspended _ | .testIdle _ | .tick _ | .tickIdle _ => true
  | .rampDown v => v.accumulated = 0
  | _ => false

/-- The thread is not in the library, in the middle of a call, or it is the manager. -/
def Loc.away : Loc α → Bool
  | .outside | .call _ | .resumeClear | .resumePost => true
  | .manager p => p.content
  | _ => false

/-- A call returns, a queue is created, an item is added, or a wait ends by itself. -/
def disturbs : Loc α → Act T α → Bool
  | .call _, _ => true
  | .outside, .create _ | .outside, .add _ _ => true
  | .asleep, .wake early => early
  | _, _ => false

theorem idles_of_away (h : l.away) : l.idles = 0 := by
  cases l
  case manager p => cases p <;> first | rfl | cases h
  all_goals first | rfl | cases h

theorem base_of_away (h : l.away) : l.base = none := by
  cases l <;> first | rfl | cases h

theorem content_of_managerMain (hp : p.content) (hidle : m.idle ≠ 0)
    (hkept : ¬ cfg.workerIdleThreshold < m.idle) (h : managerMain cfg a m p = some (m', p')) :
    p'.content ∧ ∃ sem, m' = { m with sbSem := sem } := by
  cases p <;> simp only [Manager.content, Bool.false_eq_true, decide_eq_true_eq] at hp
  case top v | tick v =>
    cases h
    exact ⟨by split <;> rfl, m.sbSem, rfl⟩
  case timedWait v | suspended v =>
    simp only [managerMain] at h
    (repeat' split at h) <;> cases h <;> exact ⟨rfl, _, rfl⟩
  case testIdle v =>
    simp only [managerMain, if_neg hidle] at h
    cases h
    exact ⟨rfl, m.sbSem, rfl⟩
  case tickIdle v =>
    simp only [managerMain, if_neg hkept] at h
    cases h
    exact ⟨rfl, m.sbSem, rfl⟩
  case rampDown v =>
    have hstop : ¬ 0 < v.accumulated / workerIdleSecondsThreshold := by
      rw [hp]
      decide
    simp only [managerMain, if_neg hstop] at h
    cases h
    exact ⟨rfl, m.sbSem, rfl⟩

variable [DecidableEq T]

theorem away_of_step (hl : l.away) (hidle : m.idle ≠ 0)
    (hkept : ¬ cfg.workerIdleThreshold < m.idle) (hcreated : m.created = 0)
    (hmanagers : m.managers = 0) (ha : disturbs l a = false)
    (h : step cfg t a m l = some (m', l')) :
    l'.away ∧ Quiet m m' ∧ m'.wqlistMtx = m.wqlistMtx := by
  cases l <;> first | cases hl | skip
  case outside =>
    cases a <;> simp only [step, enter, reduceCtorEq] at h
    case create | add => cases ha
    case start => simp [hcreated] at h
    case startManager => simp [hmanagers] at h
    case suspend =>
      split at h <;> cases h
      exact ⟨rfl, quiet_rest .., rfl⟩
    case resume =>
      cases h
      exact ⟨by split <;> rfl, quiet_refl, rfl⟩
  case call => cases ha
  case resumeClear | resumePost =>
    cases h
    exact ⟨rfl, quiet_rest .., rfl⟩
  case manager p =>
    have hother : workerStart a m p = none ∧ workerStop t a m p = none := by
      cases p <;> first | exact ⟨rfl, rfl⟩ | cases hl
    simp only [step, hother, Option.orElse_eq_orElse, Option.orElse_eq_or, Option.or_none] at h
    obtain ⟨⟨m₁, p'⟩, hmain, heq⟩ := Option.map_eq_some_iff.mp h
    cases heq
    obtain ⟨hcontent, sem, rfl⟩ := content_of_managerMain hl hidle hkept hmain
    exact ⟨hcontent, quiet_rest .., rfl⟩

theorem step_asleep (hblocked : u ∈ m.wqlistMtx.blocked)
    (ha : disturbs (.asleep : Loc α) a = false) : step cfg u a m .asleep = none := by
  cases a <;> simp only [step, managerWorkqueueCreate, workerMain, Option.orElse_eq_orElse,
    Option.orElse_eq_or, Option.none_or, Option.map_eq_none_iff]
  case wake early =>
    cases early
    · exact if_neg (by simp [hblocked])
    · cases ha

/-! ## An item that nobody takes -/

/-- There is an item in queue `i`, the worker `u` sleeps, all others are away, and there are
`n` workers. -/
structure Stalled (cfg : Config) (u : T) (i : ℕ) (witem : α) (n : BitVec 32)
    (s : Pool T (Mem T α) (Loc α)) : Prop where
  items : s.mem.list.items i = [some witem]
  loc : s.loc u = .asleep
  blocked : u ∈ s.mem.wqlistMtx.blocked
  others : ∀ v, v ≠ u → (s.loc v).away
  idle : s.mem.idle ≠ 0
  kept : ¬ cfg.workerIdleThreshold < s.mem.idle
  count : s.mem.count = n
  created : s.mem.created = 0
  managers : s.mem.managers = 0

variable {s s' : Pool T (Mem T α) (Loc α)} {n : BitVec 32}

theorem Stalled.step (hs : Stalled cfg u i witem n s) (ha : disturbs (s.loc t) a = false)
    (h : Scoreboard.step cfg t a s.mem (s.loc t) = some (m', l')) :
    Stalled cfg u i witem n ⟨m', Function.update s.loc t l'⟩ := by
  rcases eq_or_ne t u with rfl | htu
  · rw [hs.loc] at h ha
    rw [step_asleep hs.blocked ha] at h
    cases h
  · obtain ⟨haway, hquiet, hmtx⟩ :=
      away_of_step (hs.others t htu) hs.idle hs.kept hs.created hs.managers ha h
    refine ⟨?_, ?_, hmtx ▸ hs.blocked, fun v hv ↦ ?_, hquiet.idle ▸ hs.idle, hquiet.idle ▸ hs.kept,
      hquiet.count ▸ hs.count, hquiet.created ▸ hs.created, hquiet.managers ▸ hs.managers⟩
    · exact hquiet.list ▸ hs.items
    · simpa [htu.symm] using hs.loc
    · rcases eq_or_ne v t with rfl | hvt
      · simpa using haway
      · simpa [hvt] using hs.others v hv

theorem Stalled.run (hs : Stalled cfg u i witem n s)
    (h : Pool.Runs (Scoreboard.step cfg) (fun s v a ↦ disturbs (s.loc v) a = false) s s') :
    Stalled cfg u i witem n s' :=
  h.invariant hs fun _ _ _ _ _ _ hI ha hP ↦ hI.step ha hP

/-! ## The item is added too early -/

theorem alone_op {q q' : Wqlist T α} {o : Op α} {n : Next α} (k : User)
    (h : q.step t o = some (q', n)) :
    Pool.Alone (step cfg) t ({ m with list := q }, .op k o) ({ m with list := q' }, k.next n) :=
  ⟨.go, by simp [step, h]⟩

theorem add_alone (cfg : Config) (hi : m.list.wqlist i = some []) (hfree : m.list.mtx i = none)
    (hidle : m.idle ≠ 0) (hblocked : m.wqlistMtx.blocked = []) (t : T) (witem : α) :
    ∃ q : Wqlist T α, q.items i = [some witem] ∧
      Relation.ReflTransGen (Pool.Alone (step cfg) t) (m, .outside)
        ({ m with list := q }, .outside) := by
  let q₁ : Wqlist T α := { m.list with mtx := Function.update m.list.mtx i (some t) }
  let q₂ : Wqlist T α := { q₁ with wqlistMask := q₁.wqlistMask ||| indexBit i }
  let q₃ : Wqlist T α := q₂.setItems i [some witem]
  have hcall : Pool.Alone (step cfg) t (m, .outside)
      (m, .op .add (.addLock false i (some witem))) := ⟨.add i witem, by simp [step, enter, hi]⟩
  have hlock : m.list.step t (.addLock false i (some witem)) =
      some (q₁, .op (.addEmpty i (some witem))) := by
    simp [Wqlist.step, Wqlist.spinLock, hfree, q₁]
  have hempty : q₁.step t (.addEmpty i (some witem)) =
      some (q₁, .op (.addMask i (some witem))) := by
    simp [Wqlist.step, Wqlist.items, hi, q₁]
  have hmask : q₁.step t (.addMask i (some witem)) = some (q₂, .op (.addInsert i (some witem))) :=
    rfl
  have hinsert : q₂.step t (.addInsert i (some witem)) = some (q₃, .op (.addUnlock i)) := by
    simp [Wqlist.step, Wqlist.items, hi, q₁, q₂, q₃]
  have hunlock : q₃.step t (.addUnlock i) = some (q₃.spinUnlock i, .added) := rfl
  have htest : Pool.Alone (step cfg) t ({ m with list := q₃.spinUnlock i }, .addIdle)
      ({ m with list := q₃.spinUnlock i }, .addSignal) := ⟨.go, by simpa [step] using hidle⟩
  have hsignal : Pool.Alone (step cfg) t ({ m with list := q₃.spinUnlock i }, .addSignal)
      ({ m with list := q₃.spinUnlock i }, .outside) :=
    ⟨.unblock t, by simp [step, Monitor.signal, hblocked]⟩
  refine ⟨q₃.spinUnlock i, by simp [q₃, Wqlist.items, Wqlist.setItems, Wqlist.spinUnlock], ?_⟩
  exact (Relation.ReflTransGen.single hcall).tail (alone_op .add hlock)
    |>.tail (alone_op .add hempty) |>.tail (alone_op .add hmask) |>.tail (alone_op .add hinsert)
    |>.tail (alone_op .add hunlock) |>.tail htest |>.tail hsignal

/-- Worker `u` has found the mask empty and is about to wait.  Nobody waits already, and all
others are away. -/
structure AboutToWait (u : T) (i : ℕ) (s : Pool T (Mem T α) (Loc α)) : Prop where
  loc : s.loc u = .waitBlock
  others : ∀ v, v ≠ u → (s.loc v).away
  queue : s.mem.list.wqlist i = some []
  blocked : s.mem.wqlistMtx.blocked = []
  created : s.mem.created = 0
  managers : s.mem.managers = 0

omit [DecidableEq T] in
theorem AboutToWait.base (hs : AboutToWait u i s) (v : T) : (s.loc v).base = none := by
  rcases eq_or_ne v u with rfl | hv
  · rw [hs.loc]
    rfl
  · exact base_of_away (hs.others v hv)

theorem AboutToWait.mtx (hs : AboutToWait u i s) (h : Pool.Reachable (step cfg) managerInit s) :
    s.mem.list.mtx i = none := by
  refine Option.eq_none_iff_forall_ne_some.mpr fun v hv ↦ ?_
  have hholds := ((consistent_of_run h).guarded i v).mpr hv
  simp [hs.base v, Wqlist.holds] at hholds

theorem AboutToWait.idle [Fintype T] (hs : AboutToWait u i s)
    (h : Pool.Reachable (step cfg) managerInit s) : s.mem.idle = 1 := by
  have htotal : total Loc.idles s.loc = 1 := by
    rw [total, Finset.sum_eq_single u (fun v _ hv ↦ idles_of_away (hs.others v hv))
      fun hu ↦ absurd (Finset.mem_univ u) hu, hs.loc]
    rfl
  rw [(exact_of_run h).idle, htotal, hs.created]
  rfl

/-- An item is added while a worker is about to wait.  The call returns and the worker goes to
sleep, and from then on the item stays in its queue and the worker asleep, and no worker is
started, as long as no call of a worker returns, nothing is added, and no wait ends by itself. -/
theorem lost_wakeup [Fintype T] (hcfg : cfg.workerIdleThreshold ≠ 0)
    (h : Pool.Reachable (step cfg) managerInit s) (hs : AboutToWait u i s)
    (ht : s.loc t = .outside) (witem : α) :
    ∃ s₁, Pool.Runs (step cfg) (fun _ v _ ↦ v = t ∨ v = u) s s₁ ∧ s₁.loc t = .outside ∧
      ∀ s', Pool.Runs (step cfg) (fun s v a ↦ disturbs (s.loc v) a = false) s₁ s' →
        s'.mem.list.items i = [some witem] ∧ s'.loc u = .asleep ∧ s'.mem.created = 0 ∧
          s'.mem.count = s.mem.count := by
  have hidle : s.mem.idle = 1 := hs.idle h
  have hne : s.mem.idle ≠ 0 := by
    rw [hidle]
    decide
  have htu : t ≠ u := by
    rintro rfl
    cases ht.symm.trans hs.loc
  obtain ⟨q, hq, halone⟩ := add_alone cfg hs.queue (hs.mtx h) hne hs.blocked t witem
  have hadd := Pool.Runs.of_alone ht halone
  rw [← ht, Function.update_eq_self] at hadd
  let m₁ : Mem T α := { s.mem with list := q, wqlistMtx := s.mem.wqlistMtx.wait u }
  have hwait : step cfg u .go { s.mem with list := q } (s.loc u) = some (m₁, .asleep) := by
    rw [hs.loc]
    rfl
  have hstalled : Stalled cfg u i witem s.mem.count ⟨m₁, Function.update s.loc u .asleep⟩ := by
    refine ⟨hq, Function.update_self .., List.mem_cons_self, fun v hv ↦ ?_, hne, fun hlt ↦ ?_,
      rfl, hs.created, hs.managers⟩
    · simpa [hv] using hs.others v hv
    · rw [show m₁.idle = 1 from hidle] at hlt
      exact hcfg (BitVec.eq_of_toNat_eq (Nat.lt_one_iff.mp hlt))
  refine ⟨_, (hadd.mono fun _ _ _ hv ↦ .inl hv).step (.inr rfl) (Pool.step_of_program hwait), ?_,
    fun s' hs' ↦ ?_⟩
  · simpa [htu] using ht
  · have hrun := hstalled.run hs'
    exact ⟨hrun.items, hrun.loc, hrun.created, hrun.count⟩

/-- Thread 1 is the manager.  Worker 3 executes an item, and worker 2 is about to wait. -/
def halfIdle : Pool (Fin 4) (Mem (Fin 4) ℕ) (Loc ℕ) :=
  (managerInit.run (step smallConfig) (fun _ _ _ ↦ True)
    (List.flatten [[(0, .create 1)], .replicate 4 (0, .go), [(1, .startManager)],
      .replicate 11 (1, .go), [(0, .add 1 7)], .replicate 6 (0, .go),
        [(0, .unblock 0), (3, .start)],
      .replicate 8 (3, .go), [(2, .start)], .replicate 6 (2, .go)])).get (by decide +kernel)

theorem lost_wakeup_halfIdle : halfIdle.loc 3 = .call (some 7) ∧
    ∃ s₁, Pool.Runs (step smallConfig) (fun _ v _ ↦ v = 0 ∨ v = 2) halfIdle s₁ ∧
      s₁.loc 0 = .outside ∧
      ∀ s', Pool.Runs (step smallConfig) (fun s v a ↦ disturbs (s.loc v) a = false) s₁ s' →
        s'.mem.list.items 1 = [some 8] ∧ s'.loc 2 = .asleep ∧ s'.mem.created = 0 ∧
          s'.mem.count = halfIdle.mem.count := by
  have hs : AboutToWait 2 1 halfIdle := by
    constructor <;> decide +kernel
  exact ⟨by decide +kernel, lost_wakeup (by decide) (Pool.runs_get _).reachable hs
    (by decide +kernel) 8⟩

end LibDispatch.Workqueue.Scoreboard
