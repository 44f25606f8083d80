import LibDispatch.Workqueue.Scoreboard

/-!
# The scoreboard is exact

The three counters of the scoreboard are changed one after the other, by atomic operations of
workers and manager.  Each of them is nevertheless at every moment the number of threads at the
places where they count, with the workers that have been created and do not run yet.
-/

namespace LibDispatch.Workqueue.Scoreboard

open Interleaving

variable {T α : Type*} {cfg : Config} {m m' : Mem T α} {l l' : Loc α}
  {p p' : Manager} {t : T} {a : Act T α}

/-! ## The users of the list -/

/-- Whether a scan skips the items without a function; `none` for an insertion. -/
def skips : Op α → Option Bool
  | .scan skip | .lock skip _ | .first skip _ | .remove skip _ _ | .reset skip _ _
  | .unlock skip _ _ => some skip
  | _ => none

def User.skips : User → Option Bool
  | .loop | .spin => some true
  | .wait => some false
  | .add | .stop _ _ _ => none

/-- The place is one where the list is used as its user does. -/
def Loc.Fits : Loc α → Prop
  | .op k o => Scoreboard.skips o = k.skips
  | _ => True

/-- A scan goes on as a scan and returns, an insertion as an insertion. -/
def Continues (o : Op α) : Next α → Prop
  | .op o' => skips o' = skips o
  | .scanned _ => (skips o).isSome
  | .added => skips o = none

theorem continues_of_step {q q' : Wqlist T α} {o : Op α} {n : Next α}
    (h : q.step t o = some (q', n)) : Continues o n := by
  cases o
  case lock =>
    simp only [Wqlist.step] at h
    split at h
    · cases h
    · obtain ⟨_, -, heq⟩ := Option.map_eq_some_iff.mp h
      cases heq
      rfl
  case addLock stop _ _ =>
    obtain ⟨_, -, heq⟩ := Option.map_eq_some_iff.mp h
    cases heq
    cases stop <;> rfl
  case remove | addEmpty =>
    cases h
    simp only [Continues]
    split <;> rfl
  all_goals
    simp only [Wqlist.step] at h
    (repeat' split at h) <;> cases h <;> rfl

theorem fits_of_base (h : l.base = none) : l.Fits := by
  cases l <;> trivial

theorem Trans.fits (h : Trans cfg t m l m' l') (hl : l.Fits) : l'.Fits := by
  cases h
  case op k o q n hq =>
    have hn := continues_of_step hq
    cases n
    case op o' => exact hn.trans hl
    case scanned witem => cases k <;> cases witem <;> trivial
    case added => cases k <;> trivial
  case scan hk _ _ _ _ => rcases hk with ⟨rfl, rfl⟩ | ⟨rfl, rfl⟩ <;> rfl
  case idle hbase _ _ => exact fits_of_base hbase
  case caller hbase => exact fits_of_base hbase
  all_goals trivial

theorem fits_of_run [DecidableEq T] {C : Pool T (Mem T α) (Loc α) → T → Act T α → Prop}
    {s : Pool T (Mem T α) (Loc α)} (h : Pool.Runs (step cfg) C managerInit s) (t : T) :
    (s.loc t).Fits := by
  refine h.invariant (I := fun s ↦ ∀ t, (s.loc t).Fits) (fun _ ↦ trivial) ?_ t
  intro s t a m l _ hfit _ hP u
  rcases eq_or_ne u t with rfl | hu
  · simpa using (trans_of_step hP).fits (hfit u)
  · simpa [hu] using hfit u

/-! ## Shares -/

def Loc.idles : Loc α → ℤ
  | .manager (.startCount _) | .manager (.startCreate _) | .manager (.failIdle _) => 1
  | .start => 1
  | l => if l.isIdle then 1 else 0

def Loc.counts : Loc α → ℤ
  | .manager (.startCreate _) | .manager (.failIdle _) | .manager (.failCount _) => 1
  | .start | .exitCount | .call _ | .giveIdle => 1
  | l => if l.isIdle then 1 else 0

/-- The thread counts as a worker that has been asked for. -/
def Loc.pends : Loc α → ℤ
  | .start => 1
  | .manager (.startIdle _) | .manager (.startCount _) | .manager (.startCreate _) => 1
  | _ => 0

def Loc.manages : Loc α → ℤ
  | .manager _ | .op (.stop _ _ _) _ => 1
  | _ => 0

def Loc.share (l : Loc α) : ℤ × ℤ × ℤ × ℤ := (l.idles, l.counts, l.pends, l.manages)

theorem share_of_isIdle (h : l.isIdle) : l.share = (1, 1, 0, 0) := by
  cases l
  case op k _ => cases k <;> first | rfl | cases h
  all_goals first | rfl | cases h

theorem share_of_isCaller (h : l.isCaller) : l.share = (0, 0, 0, 0) := by
  cases l
  case op k _ => cases k <;> first | rfl | cases h
  all_goals first | rfl | cases h

theorem share_of_inStart (h : p.inStart = false) :
    (Loc.manager p : Loc α).share = (0, 0, 0, 1) := by
  cases p <;> first | rfl | cases h

theorem counts_of_isIdle (h : l.isIdle) : l.counts = 1 ∧ l.manages = 0 := by
  have hshare := share_of_isIdle h
  simp_all [Loc.share]

theorem counts_of_isCaller (h : l.isCaller) : l.counts = 0 ∧ l.manages = 0 := by
  have hshare := share_of_isCaller h
  simp_all [Loc.share]

theorem counts_of_inStart (h : p.inStart = false) : (Loc.manager p : Loc α).counts = 0 := by
  have hshare := share_of_inStart (α := α) h
  simp_all [Loc.share]

theorem share_next {q q' : Wqlist T α} {k : User} {o : Op α} {n : Next α}
    (hfit : (Loc.op k o).Fits) (h : q.step t o = some (q', n)) :
    (k.next n).share = (Loc.op k o).share := by
  have hn := continues_of_step h
  cases n
  case op o' => cases k <;> rfl
  case scanned witem =>
    have hk : k.skips.isSome := hfit ▸ hn
    cases k <;> cases witem <;> first | rfl | cases hk
  case added =>
    have hk : k.skips = none := hfit ▸ hn
    cases k <;> first | rfl | cases hk

theorem counts_next {q q' : Wqlist T α} {k : User} {o : Op α} {n : Next α}
    (hfit : (Loc.op k o).Fits) (h : q.step t o = some (q', n)) :
    (k.next n).counts = (Loc.op k o).counts ∧ (k.next n).manages = (Loc.op k o).manages := by
  have hshare := share_next hfit h
  simp_all [Loc.share]

/-! ## The counters -/

/-- The counters are the numbers of threads that count.  A worker that could not be created
counts among those that have been asked for, for good. -/
structure Exact [Fintype T] (m : Mem T α) (loc : T → Loc α) : Prop where
  idle : m.idle = BitVec.ofInt 32 (total Loc.idles loc + m.created)
  count : m.count = BitVec.ofInt 32 (total Loc.counts loc + m.created)
  pending : m.pendingThreadCreate = BitVec.ofInt 32 (total Loc.pends loc + m.created + m.failed)
  manager : total Loc.manages loc + m.managers = m.wqlistHasManager.toNat

section Step

variable [Fintype T] [DecidableEq T] {loc : T → Loc α}

/-- One atomic operation on a counter changes it by `d`. -/
inductive Delta (n : BitVec 32) : BitVec 32 → ℤ → Prop
  | none : Delta n n 0
  | inc : Delta n (n + 1) 1
  | dec : Delta n (n - 1) (-1)

omit [Fintype T] [DecidableEq T] in
theorem Delta.eq_ofInt {n n' : BitVec 32} {d x : ℤ} (h : Delta n n' d)
    (hn : n = BitVec.ofInt 32 x) : n' = BitVec.ofInt 32 (x + d) := by
  rw [BitVec.ofInt_add, ← hn]
  cases h
  · simp
  · rfl
  · rw [BitVec.sub_eq_add_neg]
    rfl

omit [Fintype T] [DecidableEq T] in
theorem Delta.of_eq {n n' : BitVec 32} (h : n' = n) : Delta n n' 0 := h ▸ .none

theorem Exact.move {di dc dp : ℤ} (h : Exact m loc) (hi : Delta m.idle m'.idle di)
    (hc : Delta m.count m'.count dc) (hp : Delta m.pendingThreadCreate m'.pendingThreadCreate dp)
    (hdi : l'.idles + m'.created = (loc t).idles + m.created + di)
    (hdc : l'.counts + m'.created = (loc t).counts + m.created + dc)
    (hdp : l'.pends + m'.created + m'.failed = (loc t).pends + m.created + m.failed + dp)
    (hdm : l'.manages + m'.managers + m.wqlistHasManager.toNat =
      (loc t).manages + m.managers + m'.wqlistHasManager.toNat) :
    Exact m' (Function.update loc t l') := by
  constructor
  · rw [hi.eq_ofInt h.idle, total_update]
    congr 1
    omega
  · rw [hc.eq_ofInt h.count, total_update]
    congr 1
    omega
  · rw [hp.eq_ofInt h.pending, total_update]
    congr 1
    omega
  · have := h.manager
    rw [total_update]
    omega

theorem Exact.stay (h : Exact m loc) (hshare : l'.share = (loc t).share)
    (hidle : m'.idle = m.idle) (hcount : m'.count = m.count)
    (hpending : m'.pendingThreadCreate = m.pendingThreadCreate) (hcreated : m'.created = m.created)
    (hmanagers : m'.managers = m.managers) (hfailed : m'.failed = m.failed)
    (hmanager : m'.wqlistHasManager = m.wqlistHasManager) :
    Exact m' (Function.update loc t l') := by
  simp only [Loc.share, Prod.mk.injEq] at hshare
  obtain ⟨hi, hc, hp, hm⟩ := hshare
  refine h.move (.of_eq hidle) (.of_eq hcount) (.of_eq hpending) ?_ ?_ ?_ ?_ <;>
    simp [hi, hc, hp, hm, hcreated, hmanagers, hfailed, hmanager]

theorem ManagerTrans.exact (h : ManagerTrans cfg m p m' p') (ht : loc t = .manager p)
    (hI : Exact m loc) : Exact m' (Function.update loc t (.manager p')) := by
  cases h
  case startPending =>
    refine hI.move .none .none .inc ?_ ?_ ?_ ?_
    all_goals
      simp [ht, Loc.idles, Loc.counts, Loc.pends, Loc.manages, Loc.isIdle]
      try omega
  case startIdle =>
    refine hI.move .inc .none .none ?_ ?_ ?_ ?_
    all_goals
      simp [ht, Loc.idles, Loc.counts, Loc.pends, Loc.manages, Loc.isIdle]
      try omega
  case startCount =>
    refine hI.move .none .inc .none ?_ ?_ ?_ ?_
    all_goals
      simp [ht, Loc.idles, Loc.counts, Loc.pends, Loc.manages, Loc.isIdle]
      try omega
  case failed =>
    refine hI.move .none .none .none ?_ ?_ ?_ ?_
    all_goals
      simp [ht, Loc.idles, Loc.counts, Loc.pends, Loc.manages]
      try omega
  case failIdle =>
    refine hI.move .dec .none .none ?_ ?_ ?_ ?_
    all_goals
      simp [ht, Loc.idles, Loc.counts, Loc.pends, Loc.manages, Loc.isIdle]
      try omega
  case created k =>
    cases k <;> refine hI.move .none .none .none ?_ ?_ ?_ ?_
    all_goals
      simp [ht, Caller.next, Loc.idles, Loc.counts, Loc.pends, Loc.manages, Loc.isIdle]
      try omega
  case failCount k =>
    cases k <;> refine hI.move .none .dec .none ?_ ?_ ?_ ?_
    all_goals simp [ht, Caller.next, Loc.idles, Loc.counts, Loc.pends, Loc.manages, Loc.isIdle]
  case other hp hp' _ =>
    exact hI.stay (by rw [ht, share_of_inStart hp, share_of_inStart hp'])
      rfl rfl rfl rfl rfl rfl rfl
  all_goals exact hI.stay (by rw [ht]; rfl) rfl rfl rfl rfl rfl rfl rfl

theorem Trans.exact (h : Trans cfg t m (loc t) m' l') (hfit : (loc t).Fits) (hI : Exact m loc) :
    Exact m' (Function.update loc t l') := by
  generalize ht : loc t = l at h hfit
  cases h
  case op hq => exact hI.stay (by rw [ht, share_next hfit hq]) rfl rfl rfl rfl rfl rfl rfl
  case stopMtx hp hp' _ =>
    exact hI.stay (by rw [ht, share_of_inStart hp, share_of_inStart hp'])
      rfl rfl rfl rfl rfl rfl rfl
  case stopFind | add | createQueue | call =>
    exact hI.stay (by rw [ht]; rfl) rfl rfl rfl rfl rfl rfl rfl
  case scan hk hidle _ _ hq =>
    refine hI.stay ?_ hq.idle hq.count hq.pendingThreadCreate hq.created hq.managers hq.failed
      hq.wqlistHasManager
    rw [ht, share_of_isIdle hidle]
    rcases hk with ⟨rfl, rfl⟩ | ⟨rfl, rfl⟩ <;> rfl
  case idle hidle _ hq hidle' _ _ _ =>
    exact hI.stay (by rw [ht, share_of_isIdle hidle, share_of_isIdle hidle']) hq.idle hq.count
      hq.pendingThreadCreate hq.created hq.managers hq.failed hq.wqlistHasManager
  case caller hcaller _ hq hcaller' _ =>
    exact hI.stay (by rw [ht, share_of_isCaller hcaller, share_of_isCaller hcaller']) hq.idle
      hq.count hq.pendingThreadCreate hq.created hq.managers hq.failed hq.wqlistHasManager
  case manager p p' hp => exact hp.exact ht hI
  case createManager i hnone =>
    refine hI.move .none .none .none ?_ ?_ ?_ ?_
    all_goals simp [hnone, ht, Loc.idles, Loc.counts, Loc.pends, Loc.manages, Loc.isIdle]
  case begin hpos | beginManager hpos =>
    refine hI.move .none .none .none ?_ ?_ ?_ ?_
    all_goals
      simp [ht, Loc.idles, Loc.counts, Loc.pends, Loc.manages, Loc.isIdle]
      try omega
  case start =>
    refine hI.move .none .none .dec ?_ ?_ ?_ ?_
    all_goals
      simp [ht, Loc.idles, Loc.counts, Loc.pends, Loc.manages, Loc.isIdle]
      try omega
  case exitIdle | takeIdle =>
    refine hI.move .dec .none .none ?_ ?_ ?_ ?_
    all_goals
      simp [ht, Loc.idles, Loc.counts, Loc.pends, Loc.manages, Loc.isIdle]
      try omega
  case exitCount =>
    refine hI.move .none .dec .none ?_ ?_ ?_ ?_
    all_goals
      simp [ht, Loc.idles, Loc.counts, Loc.pends, Loc.manages, Loc.isIdle]
      try omega
  case giveIdle =>
    refine hI.move .inc .none .none ?_ ?_ ?_ ?_
    all_goals
      simp [ht, Loc.idles, Loc.counts, Loc.pends, Loc.manages, Loc.isIdle]
      try omega

theorem exact_of_run {C : Pool T (Mem T α) (Loc α) → T → Act T α → Prop}
    {s : Pool T (Mem T α) (Loc α)} (h : Pool.Runs (step cfg) C managerInit s) :
    Exact s.mem s.loc := by
  refine h.invariant (I := fun s ↦ Exact s.mem s.loc) ?_
    fun s t a m l hr hI _ hP ↦ (trans_of_step hP).exact (fits_of_run hr t) hI
  constructor <;>
    simp [managerInit, total, Loc.idles, Loc.counts, Loc.pends, Loc.manages, Loc.isIdle]

end Step

end LibDispatch.Workqueue.Scoreboard
