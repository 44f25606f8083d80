import LibDispatch.Queue.Steps

/-!
# The accounts of a queue

Each counter of a queue is the sum of what the threads hold of it.  The low bit of
`dq_running` has one holder, and every other unit of it belongs to a reader or to a
redirected item.  The suspend count is made of the suspensions, of one interval for each
barrier that has been handed over, and of the lock.  A thread that waits in a slow path
has one item on the list or in the hands of the thread that drains, or its semaphore has
been signalled.
-/

namespace LibDispatch.Queue

open Interleaving

variable {T Q : Type*}

/-- The slow path in which a thread waits: of a barrier (`true`) or of a reader. -/
def After.call : After → Option Bool
  | .waitBarrier => some true
  | .waitReader => some false
  | .release k => k.call
  | .return | .syncSlow => none

def Loc.call : Loc T Q → Option Bool
  | .pushLink k | .pushRetain k | .pushHead k | .wakeup k | .wakeupProbe k | .wakeupLock k
  | .wakeupRetain k | .wakeupTarget k | .wakeupPush _ k | .release k => k.call
  | .barrierWait => some true
  | .syncWait => some false
  | _ => none

def Item.slow : Item T Q → Option (T × Bool)
  | .barrierSyncSlow caller => some (caller, true)
  | .syncSlow caller => some (caller, false)
  | _ => none

def Loc.carried : Loc T Q → Option (Item T Q)
  | .drainSuspended d dc | .drainRunning d dc | .drainTarget d dc | .drainBarrier d dc
  | .drainPop d dc => if d.next then none else some dc
  | .slowSuspend _ caller | .slowSignal _ caller => some (.barrierSyncSlow caller)
  | .slow2Add _ caller | .slow2Signal _ caller => some (.syncSlow caller)
  | .outSwap _ dc | .outFront _ dc => some dc
  | _ => none

/-- The item that a thread has in hand and that is still the first one of the list. -/
def Loc.first : Loc T Q → Option (Item T Q)
  | .drainSuspended d dc | .drainRunning d dc | .drainTarget d dc | .drainBarrier d dc
  | .drainPop d dc => if d.next then some dc else none
  | _ => none

def Loc.bit : Loc T Q → ℤ
  | .barrierRun | .barrierUnlock | .drainOrig _ | .drainTail _ | .drainTake _
  | .drainSuspended .. | .drainRunning .. | .drainTarget .. | .drainBarrier .. | .drainPop ..
  | .drainRun _ | .drainSetTarget .. | .slowSuspend .. | .slowSignal .. | .slow2Add ..
  | .slow2Signal .. | .redirectAdd _ | .redirectRetain _ | .redirectAlloc _ | .redirectPush _
  | .crash | .outSwap .. | .outFront .. | .outHead _ | .invokeCompare _ | .invokeReload
  | .invokeUnlock _ => 1
  | _ => 0

/-- The readers and redirected items that a thread answers for. -/
def Loc.readers : Loc T Q → ℤ
  | .syncBackOff | .syncRun | .syncLeave | .redirectRun | .redirectLeave | .slow2Signal ..
  | .redirectRetain _ | .redirectAlloc _ | .redirectPush _ | .crash => 1
  | _ => 0

def Loc.lock : Loc T Q → ℤ
  | .wakeupRetain _ | .wakeupTarget _ | .wakeupPush .. | .invokeTarget | .invokeSuspended _
  | .invokeLock _ | .invokePush _ | .invokeSubLock => 1
  | .barrierRun | .barrierUnlock => 0
  | l => l.bit

/-- The barriers that have been handed over by suspending the queue. -/
def Loc.handed : Loc T Q → ℤ
  | .slowSignal .. | .barrierSlowRun | .barrierResume => 1
  | _ => 0

/-! ## Where a function returns to -/

section Returns

variable (m : Mem T Q)

theorem resumeLoc_cases :
    resumeLoc m = .wakeup .return ∨ resumeLoc m = .overResume ∨ resumeLoc m = .idle := by
  unfold resumeLoc
  split
  · exact .inl rfl
  · split
    · exact .inr (.inl rfl)
    · exact .inr (.inr rfl)

end Returns

section Drains

variable (width : ℕ) (d : Drain Q) (dc : Item T Q)

theorem drainLoop_cases :
    (drainLoop d : Loc T Q) = .drainTake d ∨ (drainLoop d : Loc T Q) = .drainTail d := by
  unfold drainLoop
  split
  · exact .inl rfl
  · exact .inr rfl

theorem drainOut_eq : drainOut d dc = .outHead d.tq ∧ d.next = true ∨
    drainOut d dc = .outSwap d.tq dc ∧ d.next = false := by
  unfold drainOut
  cases d.next <;> simp

theorem drainCall_spec : (drainCall width d dc).call = none ∧
    (drainCall width d dc).first = none ∧ (drainCall width d dc).bit = 1 ∧
    (drainCall width d dc).readers = 0 ∧ (drainCall width d dc).lock = 1 ∧
    (drainCall width d dc).handed = 0 ∧
    (drainCall width d dc).carried.bind Item.slow = dc.slow := by
  cases dc <;> simp only [drainCall]
  case async barrier => split <;> exact ⟨rfl, rfl, rfl, rfl, rfl, rfl, rfl⟩
  all_goals exact ⟨rfl, rfl, rfl, rfl, rfl, rfl, rfl⟩

end Drains

/-! ## The slow calls -/

section Calls

variable [DecidableEq T]

/-- One if the item is waited for by thread `v` in the slow path `c`. -/
def Item.waitedBy (c : Bool) (v : T) (item : Item T Q) : ℤ :=
  if item.slow = some (v, c) then 1 else 0

/-- The items on the list that thread `v` waits for. -/
def listed (c : Bool) (v : T) (items : List (Item T Q)) : ℤ :=
  (items.map (Item.waitedBy c v)).sum

/-- The item off the list that thread `v` waits for. -/
def Loc.carries (c : Bool) (v : T) (l : Loc T Q) : ℤ :=
  if l.carried.bind Item.slow = some (v, c) then 1 else 0

@[simp] theorem listed_nil (c : Bool) (v : T) : listed c v ([] : List (Item T Q)) = 0 := rfl

@[simp] theorem listed_cons (c : Bool) (v : T) (item : Item T Q) (items : List (Item T Q)) :
    listed c v (item :: items) = item.waitedBy c v + listed c v items := by
  simp [listed]

@[simp] theorem listed_append (c : Bool) (v : T) (xs ys : List (Item T Q)) :
    listed c v (xs ++ ys) = listed c v xs + listed c v ys := by
  simp [listed]

theorem listed_nonneg (c : Bool) (v : T) (items : List (Item T Q)) : 0 ≤ listed c v items := by
  induction items with
  | nil => rfl
  | cons item items ih =>
      rw [listed_cons]
      have hitem : 0 ≤ item.waitedBy c v := by
        unfold Item.waitedBy
        split <;> omega
      omega

theorem Loc.carries_nonneg (c : Bool) (v : T) (l : Loc T Q) : 0 ≤ l.carries c v := by
  unfold Loc.carries
  split <;> omega

theorem Loc.carries_of_carried {l : Loc T Q} {dc : Item T Q} (h : l.carried = some dc)
    (c : Bool) (v : T) : l.carries c v = dc.waitedBy c v := by
  unfold Loc.carries Item.waitedBy
  rw [h]
  rfl

theorem Loc.carries_of_none {l : Loc T Q} (h : l.carried = none) (c : Bool) (v : T) :
    l.carries c v = 0 := by
  simp [Loc.carries, h]

/-- The tokens of thread `v` for its slow call: an item, or a signal. -/
def Loc.signalled (c : Bool) (l : Loc T Q) (n : ℕ) : ℤ := if l.call = some c then n else 0

def Loc.waits (c : Bool) (l : Loc T Q) : ℤ := if l.call = some c then 1 else 0

end Calls

/-! ## The accounts -/

section Accounts

variable [Fintype T] [DecidableEq T]

/-- What a thread whose semaphore has the value `n` holds of `dq_running`. -/
def Loc.runningShare (l : Loc T Q) (n : ℕ) : ℤ :=
  l.bit + 2 * l.readers + 2 * l.signalled false n

/-- What a thread whose semaphore has the value `n` holds of the suspend count. -/
def Loc.suspendShare (l : Loc T Q) (n : ℕ) : ℤ :=
  l.lock + 2 * l.handed + 2 * l.signalled true n

structure Accounts (m : Mem T Q) (loc : T → Loc T Q) : Prop where
  calls : ∀ c v, listed c v m.items + ∑ u, (loc u).carries c v +
    (loc v).signalled c (m.sema v) = (loc v).waits c
  sema_idle : ∀ v, (loc v).call = none → m.sema v = 0
  first : ∀ u dc, (loc u).first = some dc → m.items.head? = some dc
  bit_unique : ∀ u v, (loc u).bit = 1 → (loc v).bit = 1 → u = v
  running : (m.dqRunning : ℤ) = ∑ u, (loc u).runningShare (m.sema u) + 2 * m.redirected
  suspend : (m.doSuspendCnt : ℤ) =
    ∑ u, (loc u).suspendShare (m.sema u) + m.linked.length + 2 * (m.inner + m.outer)

omit [Fintype T] [DecidableEq T] in
theorem Loc.bit_eq (l : Loc T Q) : l.bit = 0 ∨ l.bit = 1 := by
  cases l <;> simp [Loc.bit]

omit [Fintype T] [DecidableEq T] in
theorem Loc.bit_of_first {l : Loc T Q} {dc : Item T Q} (h : l.first = some dc) : l.bit = 1 := by
  cases l <;> first | rfl | cases h

omit [Fintype T] [DecidableEq T] in
theorem Loc.signalled_nonneg (c : Bool) (l : Loc T Q) (n : ℕ) : 0 ≤ l.signalled c n := by
  unfold Loc.signalled
  split <;> omega

omit [Fintype T] [DecidableEq T] in
theorem Loc.shares_le (l : Loc T Q) (n : ℕ) :
    0 ≤ l.bit + 2 * l.readers ∧ l.bit + 2 * l.readers ≤ l.runningShare n ∧
      0 ≤ l.lock + 2 * l.handed ∧ l.lock + 2 * l.handed ≤ l.suspendShare n := by
  have hf := l.signalled_nonneg false n
  have ht := l.signalled_nonneg true n
  refine ⟨?_, by unfold Loc.runningShare; omega, ?_, by unfold Loc.suspendShare; omega⟩
  · cases l <;> simp [Loc.bit, Loc.readers]
  · cases l <;> simp [Loc.bit, Loc.lock, Loc.handed]

variable {m m' : Mem T Q} {loc : T → Loc T Q} {l' : Loc T Q} {t : T}

theorem Accounts.share_le_running (h : Accounts m loc) (u : T) :
    (loc u).runningShare (m.sema u) ≤ m.dqRunning := by
  have hle := Finset.single_le_sum (f := fun v ↦ (loc v).runningShare (m.sema v))
    (fun v _ ↦ by have := (loc v).shares_le (m.sema v); omega) (Finset.mem_univ u)
  have hrun := h.running
  omega

theorem Accounts.share_le_suspend (h : Accounts m loc) (u : T) :
    (loc u).suspendShare (m.sema u) + m.linked.length + 2 * (m.inner + m.outer) ≤
      m.doSuspendCnt := by
  have hle := Finset.single_le_sum (f := fun v ↦ (loc v).suspendShare (m.sema v))
    (fun v _ ↦ by have := (loc v).shares_le (m.sema v); omega) (Finset.mem_univ u)
  have hsus := h.suspend
  omega

/-- The place of a thread before it pushes says which slow path it will wait in. -/
def Loc.Sound (t : T) : Loc T Q → Prop
  | .pushExchange item k => item.slow = k.call.map (t, ·)
  | _ => True

theorem Accounts.bit_eq_zero (h : Accounts m loc) (hrun : m.dqRunning = 0) (u : T) :
    (loc u).bit = 0 := by
  have hle := h.share_le_running u
  have hshare := (loc u).shares_le (m.sema u)
  have hbit := (loc u).bit_eq
  have hreaders : 0 ≤ (loc u).readers := by cases loc u <;> simp [Loc.readers]
  omega

theorem bit_unique_update (h : Accounts m loc)
    (hbit : l'.bit = (loc t).bit ∨ l'.bit = 0 ∨ m.dqRunning = 0) (u v : T)
    (hu : (Function.update loc t l' u).bit = 1) (hv : (Function.update loc t l' v).bit = 1) :
    u = v := by
  have hbefore : ∀ w, (Function.update loc t l' w).bit = 1 →
      (loc w).bit = 1 ∨ (w = t ∧ m.dqRunning = 0) := by
    intro w hw
    rcases eq_or_ne w t with rfl | hwt
    · rw [Function.update_self] at hw
      rcases hbit with hb | hb | hb
      · exact .inl (by omega)
      · omega
      · exact .inr ⟨rfl, hb⟩
    · exact .inl (by simpa [hwt] using hw)
  rcases hbefore u hu with hu | ⟨rfl, hrun⟩ <;> rcases hbefore v hv with hv | ⟨hvt, hrun'⟩
  · exact h.bit_unique u v hu hv
  · have := h.bit_eq_zero hrun' u
    omega
  · have := h.bit_eq_zero hrun v
    omega
  · exact hvt.symm

theorem first_update (h : Accounts m loc)
    (hfirst : ∀ dc, l'.first = some dc → m'.items.head? = some dc)
    (hhead : (∀ dc, m.items.head? = some dc → m'.items.head? = some dc) ∨ (loc t).bit = 1)
    (u : T) (dc : Item T Q) (hu : (Function.update loc t l' u).first = some dc) :
    m'.items.head? = some dc := by
  rcases eq_or_ne u t with rfl | hut
  · exact hfirst dc (by simpa using hu)
  · rw [Function.update_of_ne hut] at hu
    rcases hhead with hhead | hbit
    · exact hhead dc (h.first u dc hu)
    · exact (hut (h.bit_unique u t (Loc.bit_of_first hu) hbit)).elim

/-- A step of thread `t` that touches no semaphore but its own, which it leaves at `n`. -/
structure Moved (t : T) (m m' : Mem T Q) (l l' : Loc T Q) (n : ℕ) : Prop where
  sema : m'.sema = Function.update m.sema t n
  idle : l'.call = none → n = 0
  own : ∀ c, listed c t m'.items + l'.carries c t + l'.signalled c n - l'.waits c =
    listed c t m.items + l.carries c t + l.signalled c (m.sema t) - l.waits c
  others : ∀ c v, v ≠ t →
    listed c v m'.items + l'.carries c v = listed c v m.items + l.carries c v
  first : ∀ dc, l'.first = some dc → m'.items.head? = some dc
  head : (∀ dc, m.items.head? = some dc → m'.items.head? = some dc) ∨ l.bit = 1
  bit : l'.bit = l.bit ∨ l'.bit = 0 ∨ m.dqRunning = 0
  running : (m'.dqRunning : ℤ) - l'.runningShare n - 2 * m'.redirected =
    m.dqRunning - l.runningShare (m.sema t) - 2 * m.redirected
  suspend : (m'.doSuspendCnt : ℤ) - l'.suspendShare n - m'.linked.length -
      2 * (m'.inner + m'.outer) =
    m.doSuspendCnt - l.suspendShare (m.sema t) - m.linked.length - 2 * (m.inner + m.outer)

theorem Accounts.moved (h : Accounts m loc) {n : ℕ} (hm : Moved t m m' (loc t) l' n) :
    Accounts m' (Function.update loc t l') := by
  refine ⟨fun c v ↦ ?_, fun v hv ↦ ?_, first_update h hm.first hm.head,
    bit_unique_update h hm.bit, ?_, ?_⟩
  · have hcarries := Pool.sum_update (fun _ l ↦ l.carries c v) loc t l'
    have hcalls := h.calls c v
    rw [hcarries, hm.sema]
    rcases eq_or_ne v t with rfl | hvt
    · have hown := hm.own c
      simp only [Function.update_self]
      omega
    · have hothers := hm.others c v hvt
      simp only [Function.update_of_ne hvt]
      omega
  · rw [hm.sema]
    rcases eq_or_ne v t with rfl | hvt
    · simpa using hm.idle (by simpa using hv)
    · simpa [hvt] using h.sema_idle v (by simpa [hvt] using hv)
  · have hsum := Pool.sum_update₂ Loc.runningShare loc m.sema t l' n
    have hrun := h.running
    have hstep := hm.running
    rw [hm.sema, hsum]
    omega
  · have hsum := Pool.sum_update₂ Loc.suspendShare loc m.sema t l' n
    have hsus := h.suspend
    have hstep := hm.suspend
    rw [hm.sema, hsum]
    omega

theorem Accounts.plain (h : Accounts m loc) {l : Loc T Q} (ht : loc t = l)
    (hsema : m'.sema = m.sema) (hcall : l'.call = l.call)
    (hitems : ∀ c v, listed c v m'.items + l'.carries c v = listed c v m.items + l.carries c v)
    (hfirst : ∀ dc, l'.first = some dc → m'.items.head? = some dc)
    (hhead : (∀ dc, m.items.head? = some dc → m'.items.head? = some dc) ∨ l.bit = 1)
    (hbit : l'.bit = l.bit ∨ l'.bit = 0 ∨ m.dqRunning = 0)
    (hrun : (m'.dqRunning : ℤ) - l'.bit - 2 * l'.readers - 2 * m'.redirected =
      m.dqRunning - l.bit - 2 * l.readers - 2 * m.redirected)
    (hsus : (m'.doSuspendCnt : ℤ) - l'.lock - 2 * l'.handed - m'.linked.length -
        2 * (m'.inner + m'.outer) =
      m.doSuspendCnt - l.lock - 2 * l.handed - m.linked.length - 2 * (m.inner + m.outer)) :
    Accounts m' (Function.update loc t l') := by
  subst ht
  have hsig : ∀ c, l'.signalled c (m.sema t) = (loc t).signalled c (m.sema t) ∧
      l'.waits c = (loc t).waits c := fun c ↦ by simp [Loc.signalled, Loc.waits, hcall]
  refine h.moved ⟨by rw [hsema, Function.update_eq_self], fun hl' ↦ ?_, fun c ↦ ?_,
    fun c v _ ↦ hitems c v, hfirst, hhead, hbit, ?_, ?_⟩
  · exact h.sema_idle t (by rw [← hcall, hl'])
  · rw [(hsig c).1, (hsig c).2, hitems c t]
  · unfold Loc.runningShare
    rw [(hsig false).1]
    omega
  · unfold Loc.suspendShare
    rw [(hsig true).1]
    omega

theorem Accounts.count (h : Accounts m loc) {l : Loc T Q} (ht : loc t = l)
    (hitems : m'.items = m.items) (hsema : m'.sema = m.sema) (hcall : l'.call = l.call)
    (hcarried : l'.carried = l.carried) (hfirst : l'.first = l.first)
    (hbit : l'.bit = l.bit ∨ l'.bit = 0 ∨ m.dqRunning = 0)
    (hrun : (m'.dqRunning : ℤ) - l'.bit - 2 * l'.readers - 2 * m'.redirected =
      m.dqRunning - l.bit - 2 * l.readers - 2 * m.redirected)
    (hsus : (m'.doSuspendCnt : ℤ) - l'.lock - 2 * l'.handed - m'.linked.length -
        2 * (m'.inner + m'.outer) =
      m.doSuspendCnt - l.lock - 2 * l.handed - m.linked.length - 2 * (m.inner + m.outer)) :
    Accounts m' (Function.update loc t l') := by
  refine h.plain ht hsema hcall (fun c v ↦ ?_) (fun dc hdc ↦ ?_) (.inl fun dc hdc ↦ ?_) hbit
    hrun hsus
  · unfold Loc.carries
    rw [hitems, hcarried]
  · rw [hitems]
    exact h.first t dc (by rw [ht, ← hfirst, hdc])
  · rw [hitems, hdc]

theorem Accounts.exchange (h : Accounts m loc) {item : Item T Q} {k : After}
    (ht : loc t = .pushExchange item k) (hsound : item.slow = k.call.map (t, ·))
    (hl' : l' = .pushRetain k ∨ l' = .pushLink k) :
    Accounts { m with items := m.items ++ [item] } (Function.update loc t l') := by
  have hzero : m.sema t = 0 := h.sema_idle t (by rw [ht]; rfl)
  have hcall : l'.call = k.call := by rcases hl' with rfl | rfl <;> rfl
  have hsig : ∀ (c : Bool) (l : Loc T Q), l.signalled c 0 = 0 := fun c l ↦ by
    simp [Loc.signalled]
  have hfree : l'.first = none ∧ l'.bit = 0 ∧ l'.runningShare 0 = 0 ∧ l'.suspendShare 0 = 0 ∧
      ∀ c v, l'.carries c v = 0 := by
    rcases hl' with rfl | rfl <;>
      simp [Loc.runningShare, Loc.suspendShare, hsig, Loc.first, Loc.bit, Loc.readers, Loc.lock,
        Loc.handed, Loc.carries, Loc.carried]
  have hfree₀ : (loc t).runningShare 0 = 0 ∧ (loc t).suspendShare 0 = 0 ∧
      (∀ c v, (loc t).carries c v = 0) ∧ ∀ c, (loc t).waits c = 0 := by
    rw [ht]
    simp [Loc.runningShare, Loc.suspendShare, hsig, Loc.bit, Loc.readers, Loc.lock, Loc.handed,
      Loc.carries, Loc.carried, Loc.waits, Loc.call]
  obtain ⟨hfirst, hbit, hrun, hsus, hcarries⟩ := hfree
  obtain ⟨hrun₀, hsus₀, hcarries₀, hwaits₀⟩ := hfree₀
  refine h.moved (n := 0) ⟨?_, fun _ ↦ rfl, fun c ↦ ?_, fun c v hvt ↦ ?_, by simp [hfirst],
    .inl fun dc hdc ↦ ?_, .inr (.inl hbit), ?_, ?_⟩
  · rw [← hzero, Function.update_eq_self]
  · have hitem : item.waitedBy c t = l'.waits c := by
      simp only [Item.waitedBy, Loc.waits, hsound, hcall]
      rcases k.call with - | c' <;> simp
    rw [hzero, hsig, hsig, listed_append, listed_cons, listed_nil, hitem, hcarries, hcarries₀,
      hwaits₀]
    omega
  · have hother : item.waitedBy c v = 0 := by
      simp only [Item.waitedBy, hsound]
      rcases k.call with - | c' <;> simp [hvt.symm]
    rw [listed_append, listed_cons, listed_nil, hother, hcarries, hcarries₀]
    omega
  · obtain ⟨rest, hrest⟩ := List.head?_eq_some_iff.mp hdc
    simp [hrest]
  · rw [hzero, hrun, hrun₀]
  · rw [hzero, hsus, hsus₀]

theorem Accounts.sema_eq_one (h : Accounts m loc) {c : Bool} (ht : (loc t).call = some c)
    (hpos : 0 < m.sema t) : m.sema t = 1 := by
  have hcalls := h.calls c t
  have hlisted := listed_nonneg c t m.items
  have hcarries : 0 ≤ ∑ u, (loc u).carries c t :=
    Finset.sum_nonneg fun u _ ↦ (loc u).carries_nonneg c t
  simp only [Loc.signalled, Loc.waits, ht, if_true] at hcalls
  omega

theorem Accounts.wait (h : Accounts m loc) {c : Bool} (hcall : (loc t).call = some c)
    (hpos : 0 < m.sema t) (hl' : l'.call = none ∧ l'.first = none ∧ l'.bit = 0)
    (hcarries : ∀ c v, l'.carries c v = (loc t).carries c v)
    (hrun : l'.runningShare 0 = (loc t).runningShare 1)
    (hsus : l'.suspendShare 0 = (loc t).suspendShare 1) :
    Accounts { m with sema := Function.update m.sema t (m.sema t - 1) }
      (Function.update loc t l') := by
  have hone := h.sema_eq_one hcall hpos
  obtain ⟨hcall', hfirst, hbit⟩ := hl'
  refine h.moved (n := 0) ⟨by rw [hone], fun _ ↦ rfl, fun c' ↦ ?_, fun c' v _ ↦ ?_,
    by simp [hfirst], .inl fun dc hdc ↦ hdc, .inr (.inl hbit), ?_, ?_⟩
  · rw [hone, hcarries]
    simp [Loc.signalled, Loc.waits, hcall']
  · rw [hcarries]
  · rw [hone, hrun]
  · rw [hone, hsus]

theorem Accounts.call_of_carried (h : Accounts m loc) {c : Bool} {u : T}
    (ht : (loc t).carried.bind Item.slow = some (u, c)) :
    (loc u).call = some c ∧ m.sema u = 0 := by
  have hcalls := h.calls c u
  have hlisted := listed_nonneg c u m.items
  have hle := Finset.single_le_sum (f := fun v ↦ (loc v).carries c u)
    (fun v _ ↦ (loc v).carries_nonneg c u) (Finset.mem_univ t)
  have hone : (loc t).carries c u = 1 := by simp [Loc.carries, ht]
  have hsig := (loc u).signalled_nonneg c (m.sema u)
  have hcall : (loc u).call = some c := by
    by_contra hne
    simp only [Loc.waits, if_neg hne] at hcalls
    omega
  refine ⟨hcall, ?_⟩
  simp only [Loc.signalled, Loc.waits, if_pos hcall] at hcalls
  omega

theorem Accounts.signal (h : Accounts m loc) {c : Bool} {u : T}
    (ht : (loc t).carried.bind Item.slow = some (u, c)) (hcall : (loc t).call = none)
    (hl' : l'.call = none ∧ l'.first = none ∧ l'.bit = (loc t).bit)
    (hcarries : ∀ c v, l'.carries c v = 0)
    (hrun : ∀ n, (loc t).runningShare n = l'.runningShare n + if c then 0 else 2)
    (hsus : ∀ n, (loc t).suspendShare n = l'.suspendShare n + if c then 2 else 0) :
    Accounts { m with sema := Function.update m.sema u (m.sema u + 1) }
      (Function.update loc t l') := by
  obtain ⟨hcallu, hzero⟩ := h.call_of_carried ht
  obtain ⟨hcall', hfirst, hbit⟩ := hl'
  have hut : u ≠ t := by
    rintro rfl
    simp [hcall] at hcallu
  have hsum : ∀ w : Loc T Q → ℕ → ℤ,
      ∑ v, w (Function.update loc t l' v) (Function.update m.sema u (m.sema u + 1) v) =
        ∑ v, w (loc v) (m.sema v) - w (loc t) (m.sema t) + w l' (m.sema t) -
          w (loc u) (m.sema u) + w (loc u) (m.sema u + 1) := by
    intro w
    have hmove := Pool.sum_update₂ w loc m.sema t l' (m.sema t)
    have hsignal := Pool.sum_update₂ w (Function.update loc t l') m.sema u (loc u) (m.sema u + 1)
    rw [Function.update_eq_self] at hmove
    have hstay : Function.update (Function.update loc t l') u (loc u) =
        Function.update loc t l' := by
      rw [← Function.update_of_ne hut l' loc, Function.update_eq_self]
    rw [hstay, Function.update_of_ne hut, hmove] at hsignal
    exact hsignal
  refine ⟨fun c' v ↦ ?_, fun v hv ↦ ?_, first_update h (by simp [hfirst]) (.inl fun _ hdc ↦ hdc),
    bit_unique_update h (.inl hbit), ?_, ?_⟩
  · have hsumc := Pool.sum_update (fun _ l ↦ l.carries c' v) loc t l'
    have hcalls := h.calls c' v
    have hview : (Function.update loc t l' v).waits c' = (loc v).waits c' ∧
        ∀ n, (Function.update loc t l' v).signalled c' n = (loc v).signalled c' n := by
      rcases eq_or_ne v t with rfl | hvt
      · simp [Loc.waits, Loc.signalled, hcall, hcall']
      · simp [hvt]
    rw [hsumc, hview.1, hview.2, hcarries]
    rcases eq_or_ne v u with rfl | hvu
    · simp only [Function.update_self]
      simp only [Loc.signalled, Loc.carries, ht, hcallu, hzero, Option.some.injEq,
        Prod.mk.injEq, true_and] at hcalls ⊢
      by_cases hc : c = c'
      · simp only [if_pos hc] at hcalls ⊢
        omega
      · simp only [if_neg hc] at hcalls ⊢
        omega
    · have hother : (loc t).carries c' v = 0 := by
        simp [Loc.carries, ht, hvu.symm]
      simp only [Function.update_of_ne hvu]
      omega
  · have hvu : v ≠ u := by
      rintro rfl
      rw [Function.update_of_ne hut, hcallu] at hv
      cases hv
    simp only [Function.update_of_ne hvu]
    rcases eq_or_ne v t with rfl | hvt
    · exact h.sema_idle v hcall
    · exact h.sema_idle v (by simpa [hvt] using hv)
  · have hshare : (loc u).runningShare (m.sema u + 1) =
        (loc u).runningShare (m.sema u) + if c then 0 else 2 := by
      simp only [Loc.runningShare, Loc.signalled, hcallu, hzero]
      cases c <;> simp
    have hold := h.running
    simp only [hsum, hrun (m.sema t), hshare]
    omega
  · have hshare : (loc u).suspendShare (m.sema u + 1) =
        (loc u).suspendShare (m.sema u) + if c then 2 else 0 := by
      simp only [Loc.suspendShare, Loc.signalled, hcallu, hzero]
      cases c <;> simp
    have hold := h.suspend
    simp only [hsum, hsus (m.sema t), hshare]
    omega

theorem Accounts.drainLast (h : Accounts m loc) {d d' : Drain Q} {dc : Item T Q}
    (ht : loc t = .drainTake d) (hitems : m.items = [dc]) (hd : d'.next = false) :
    Accounts { m with items := [] } (Function.update loc t (.drainSuspended d' dc)) := by
  have hcarried : (Loc.drainSuspended d' dc).carried = some dc := by simp [Loc.carried, hd]
  refine h.plain ht rfl rfl (fun c v ↦ ?_) (by simp [Loc.first, hd]) (.inr rfl) (.inl rfl) rfl rfl
  rw [Loc.carries_of_carried hcarried, Loc.carries_of_none rfl, hitems]
  simp

theorem Accounts.drainTake (h : Accounts m loc) {d d' : Drain Q} {dc : Item T Q}
    (ht : loc t = .drainTake d) (hhead : m.items.head? = some dc) (hd : d'.next = true) :
    Accounts m (Function.update loc t (.drainSuspended d' dc)) := by
  have hcarried : (Loc.drainSuspended d' dc).carried = none := by simp [Loc.carried, hd]
  refine h.plain ht rfl rfl (fun c v ↦ ?_) (fun dc' hdc ↦ ?_) (.inr rfl) (.inl rfl) rfl rfl
  · rw [Loc.carries_of_none hcarried, Loc.carries_of_none rfl]
  · obtain rfl : dc = dc' := by simpa [Loc.first, hd] using hdc
    exact hhead

theorem Accounts.drainPop {width : ℕ} (h : Accounts m loc) {d : Drain Q} {dc : Item T Q}
    (ht : loc t = .drainPop d dc) :
    Accounts { m with items := if d.next then m.items.tail else m.items }
      (Function.update loc t (drainCall width d dc)) := by
  obtain ⟨hcall, hnone, hbit, hreaders, hlock, hhanded, hslow⟩ := drainCall_spec width d dc
  have hcarries : ∀ c v, (drainCall width d dc).carries c v = dc.waitedBy c v := fun c v ↦ by
    unfold Loc.carries Item.waitedBy
    rw [hslow]
  refine h.plain ht rfl hcall (fun c v ↦ ?_) (by simp [hnone]) (.inr rfl) (.inl hbit)
    (by rw [hbit, hreaders]; rfl) (by rw [hlock, hhanded]; rfl)
  rw [hcarries]
  cases hn : d.next with
  | true =>
      obtain ⟨rest, hrest⟩ := List.head?_eq_some_iff.mp
        (h.first t dc (by rw [ht]; simp [Loc.first, hn]))
      rw [Loc.carries_of_none (by simp [Loc.carried, hn]), hrest, listed_cons]
      simp only [if_true, List.tail_cons]
      omega
  | false =>
      have hcarried : (Loc.drainPop d dc).carried = some dc := by simp [Loc.carried, hn]
      rw [Loc.carries_of_carried hcarried]
      simp

theorem Accounts.putBack (h : Accounts m loc) {dc : Item T Q} (hcarried : (loc t).carried = some dc)
    (hcall : (loc t).call = none) (hbit : (loc t).bit = 1) (hreaders : (loc t).readers = 0)
    (hlock : (loc t).lock = 1) (hhanded : (loc t).handed = 0)
    {tq : Q} (hl' : l' = .outHead tq ∨ l' = .invokeCompare tq) :
    Accounts { m with items := dc :: m.items } (Function.update loc t l') := by
  have hfree : l'.carried = none ∧ l'.call = none ∧ l'.first = none ∧ l'.bit = 1 ∧
      l'.readers = 0 ∧ l'.lock = 1 ∧ l'.handed = 0 := by
    rcases hl' with rfl | rfl <;> exact ⟨rfl, rfl, rfl, rfl, rfl, rfl, rfl⟩
  obtain ⟨hcarried', hcall', hfirst', hbit', hreaders', hlock', hhanded'⟩ := hfree
  refine h.plain rfl rfl (by rw [hcall, hcall']) (fun c v ↦ ?_) (by simp [hfirst']) (.inr hbit)
    (.inl (by rw [hbit, hbit'])) (by rw [hbit, hbit', hreaders, hreaders'])
    (by rw [hlock, hlock', hhanded, hhanded'])
  rw [Loc.carries_of_carried hcarried, Loc.carries_of_none hcarried', listed_cons]
  omega

theorem Accounts.drainOut (h : Accounts m loc) {d : Drain Q} {dc : Item T Q}
    (ht : loc t = .drainSuspended d dc ∨ loc t = .drainRunning d dc ∨
      loc t = .drainTarget d dc ∨ loc t = .drainBarrier d dc) :
    Accounts m (Function.update loc t (drainOut d dc)) := by
  -- the item in hand is still the first one, or it is to go back to the front
  rcases drainOut_eq d dc with ⟨ho, hn⟩ | ⟨ho, hn⟩ <;> rw [ho] <;>
    rcases ht with ht | ht | ht | ht <;>
    refine h.plain ht rfl rfl (fun c v ↦ ?_) (by simp [Loc.first]) (.inr rfl) (.inl rfl) rfl rfl
  all_goals
    unfold Loc.carries
    congr 2
    simp [Loc.carried, hn]

theorem Accounts.waited (h : Accounts m loc) (hpos : 0 < m.sema t)
    (ht : loc t = .barrierWait ∧ l' = .barrierSlowRun ∨ loc t = .syncWait ∧ l' = .syncRun) :
    Accounts { m with sema := Function.update m.sema t (m.sema t - 1) }
      (Function.update loc t l') := by
  rcases ht with ⟨ht, rfl⟩ | ⟨ht, rfl⟩
  · refine h.wait (c := true) (by rw [ht]; rfl) hpos ⟨rfl, rfl, rfl⟩ ?_ ?_ ?_ <;>
      simp [ht, Loc.carries, Loc.carried, Loc.runningShare, Loc.suspendShare, Loc.signalled,
        Loc.bit, Loc.readers, Loc.lock, Loc.handed, Loc.call]
  · refine h.wait (c := false) (by rw [ht]; rfl) hpos ⟨rfl, rfl, rfl⟩ ?_ ?_ ?_ <;>
      simp [ht, Loc.carries, Loc.carried, Loc.runningShare, Loc.suspendShare, Loc.signalled,
        Loc.bit, Loc.readers, Loc.lock, Loc.handed, Loc.call]

theorem Accounts.signalled (h : Accounts m loc) {d : Drain Q} {caller : T}
    (ht : loc t = .slowSignal d caller ∨ loc t = .slow2Signal d caller) :
    Accounts { m with sema := Function.update m.sema caller (m.sema caller + 1) }
      (Function.update loc t (drainLoop d)) := by
  rcases drainLoop_cases (T := T) d with hl | hl <;> rw [hl] <;> rcases ht with ht | ht
  case inl.inl | inr.inl =>
    refine h.signal (c := true) (u := caller) (by rw [ht]; rfl) (by rw [ht]; rfl)
      ⟨rfl, rfl, by rw [ht]; rfl⟩ ?_ ?_ ?_ <;>
      simp [ht, Loc.carries, Loc.carried, Loc.runningShare, Loc.suspendShare, Loc.signalled,
        Loc.bit, Loc.readers, Loc.lock, Loc.handed, Loc.call]
  case inl.inr | inr.inr =>
    refine h.signal (c := false) (u := caller) (by rw [ht]; rfl) (by rw [ht]; rfl)
      ⟨rfl, rfl, by rw [ht]; rfl⟩ ?_ ?_ ?_ <;>
      simp [ht, Loc.carries, Loc.carried, Loc.runningShare, Loc.suspendShare, Loc.signalled,
        Loc.bit, Loc.readers, Loc.lock, Loc.handed, Loc.call]

end Accounts

/-! ## What a step does to the counters -/

section Deltas

variable [DecidableEq T] [DecidableEq Q] {width : ℕ} {m m' : Mem T Q} {t : T} {l l' : Loc T Q}

theorem Trans.bit_eq (h : Trans width t m l m' l') :
    l'.bit = l.bit ∨ l'.bit = 0 ∨ m.dqRunning = 0 := by
  cases h
  case barrierLock hfree | invokeLock hfree => exact .inr (.inr hfree)
  case release k | pushLink k | wakeupSuspended k _ | wakeupEmpty k _ | wakeupMissed k _ |
      wakeupPush k => exact .inr (.inl (by cases k <;> rfl))
  case resumeInner | resumeOuter | barrierResume =>
    exact .inr (.inl (by rcases resumeLoc_cases m with hl | hl | hl <;> rw [hl] <;> rfl))
  case drainRun d | drainSetTarget d _ | slowSignal d _ | slow2Signal d _ | redirectPush d =>
    exact .inl (by rcases drainLoop_cases (T := T) d with hl | hl <;> rw [hl] <;> rfl)
  case drainPop d dc => exact .inl (drainCall_spec width d dc).2.2.1
  case drainOut d dc hl =>
    refine .inl ?_
    rcases drainOut_eq d dc with ⟨ho, -⟩ | ⟨ho, -⟩ <;> rw [ho] <;>
      rcases hl with ⟨rfl, -⟩ | ⟨rfl, -⟩ | ⟨rfl, -⟩ | ⟨rfl, -⟩ <;> rfl
  all_goals first | exact .inl rfl | exact .inr (.inl rfl)

omit [DecidableEq Q] in
theorem not_sema_update {u : T} {n : ℕ} (hn : n ≠ m.sema u)
    (h : Function.update m.sema u n = m.sema) : False :=
  hn (by simpa using congrFun h u)

theorem Trans.running_eq (h : Trans width t m l m' l') (hsema : m'.sema = m.sema)
    (hle : l.bit + 2 * l.readers ≤ m.dqRunning) :
    (m'.dqRunning : ℤ) - l'.bit - 2 * l'.readers - 2 * m'.redirected =
      m.dqRunning - l.bit - 2 * l.readers - 2 * m.redirected := by
  cases h
  case barrierWait hpos | syncWait hpos => exact (not_sema_update (by omega) hsema).elim
  case slowSignal | slow2Signal => exact (not_sema_update (by omega) hsema).elim
  case release k | pushLink k | wakeupSuspended k _ | wakeupEmpty k _ | wakeupMissed k _ |
      wakeupPush k => cases k <;> rfl
  case resumeInner | resumeOuter | barrierResume =>
    rcases resumeLoc_cases m with hl | hl | hl <;> rw [hl] <;> rfl
  case drainRun d | drainSetTarget d _ =>
    rcases drainLoop_cases (T := T) d with hl | hl <;> rw [hl] <;> rfl
  case redirectPush d =>
    rcases drainLoop_cases (T := T) d with hl | hl <;> rw [hl] <;>
      simp only [Loc.bit, Loc.readers] <;> push_cast <;> ring
  case drainPop d dc =>
    obtain ⟨-, -, hbit, hreaders, -⟩ := drainCall_spec width d dc
    rw [hbit, hreaders]
    rfl
  case drainOut d dc hl =>
    rcases drainOut_eq d dc with ⟨ho, -⟩ | ⟨ho, -⟩ <;> rw [ho] <;>
      rcases hl with ⟨rfl, -⟩ | ⟨rfl, -⟩ | ⟨rfl, -⟩ | ⟨rfl, -⟩ <;> rfl
  all_goals try rfl
  all_goals
    simp only [Loc.bit, Loc.readers] at hle ⊢
    omega

theorem Trans.suspend_eq (h : Trans width t m l m' l') (hsema : m'.sema = m.sema)
    (hle : l.lock + 2 * l.handed + m.linked.length + 2 * (m.inner + m.outer) ≤ m.doSuspendCnt) :
    (m'.doSuspendCnt : ℤ) - l'.lock - 2 * l'.handed - m'.linked.length -
        2 * (m'.inner + m'.outer) =
      m.doSuspendCnt - l.lock - 2 * l.handed - m.linked.length - 2 * (m.inner + m.outer) := by
  cases h
  case barrierWait hpos | syncWait hpos => exact (not_sema_update (by omega) hsema).elim
  case slowSignal | slow2Signal => exact (not_sema_update (by omega) hsema).elim
  case release k | pushLink k | wakeupSuspended k _ | wakeupEmpty k _ | wakeupMissed k _ =>
    cases k <;> rfl
  case wakeupPush k =>
    cases k <;> simp only [After.loc, Loc.lock, Loc.bit, Loc.handed, List.length_cons] <;>
      push_cast <;> ring
  case resumeInner | resumeOuter | barrierResume =>
    rcases resumeLoc_cases m with hl | hl | hl <;> rw [hl] <;>
      simp only [Loc.lock, Loc.bit, Loc.handed] at hle ⊢ <;> omega
  case invoke hmem =>
    have hlen := List.length_erase_of_mem hmem
    have hpos := List.length_pos_of_mem hmem
    simp only [Loc.lock, Loc.bit, Loc.handed]
    omega
  case drainRun d | drainSetTarget d _ | redirectPush d =>
    rcases drainLoop_cases (T := T) d with hl | hl <;> rw [hl] <;> rfl
  case drainPop d dc =>
    obtain ⟨-, -, -, -, hlock, hhanded, -⟩ := drainCall_spec width d dc
    rw [hlock, hhanded]
    rfl
  case drainOut d dc hl =>
    rcases drainOut_eq d dc with ⟨ho, -⟩ | ⟨ho, -⟩ <;> rw [ho] <;>
      rcases hl with ⟨rfl, -⟩ | ⟨rfl, -⟩ | ⟨rfl, -⟩ | ⟨rfl, -⟩ <;> rfl
  all_goals try rfl
  all_goals
    simp only [Loc.lock, Loc.bit, Loc.handed, List.length_cons] at hle ⊢
    omega

end Deltas

/-! ## Every step keeps the accounts -/

theorem sound_afterLoc (t : T) (k : After) : (k.loc t : Loc T Q).Sound t := by
  cases k <;> simp [After.loc, Loc.Sound, Item.slow, After.call]

section Preservation

variable [DecidableEq T] [DecidableEq Q] {width : ℕ} {m m' : Mem T Q} {t : T}

theorem Trans.sound {l l' : Loc T Q} (h : Trans width t m l m' l') (hl : l.Sound t) :
    l'.Sound t := by
  cases h
  case resumeInner | resumeOuter | barrierResume =>
    rcases resumeLoc_cases m with h | h | h <;> rw [h] <;> trivial
  case release | pushLink | wakeupSuspended | wakeupEmpty | wakeupMissed | wakeupPush =>
    exact sound_afterLoc t _
  case drainRun d | drainSetTarget d _ | slowSignal d _ | slow2Signal d _ | redirectPush d =>
    rcases drainLoop_cases (T := T) d with h | h <;> rw [h] <;> trivial
  case drainOut d dc _ =>
    rcases drainOut_eq d dc with ⟨h, -⟩ | ⟨h, -⟩ <;> rw [h] <;> trivial
  case drainPop d dc =>
    cases dc <;> simp only [drainCall] <;> try trivial
    split <;> trivial
  all_goals first | exact hl | trivial

variable [Fintype T] {loc : T → Loc T Q} {l' : Loc T Q}

theorem Trans.accounts (h : Trans width t m (loc t) m' l') (hacc : Accounts m loc)
    (hsound : (loc t).Sound t) : Accounts m' (Function.update loc t l') := by
  have hshare := (loc t).shares_le (m.sema t)
  have hrun := hacc.share_le_running t
  have hsus := hacc.share_le_suspend t
  have hbit := h.bit_eq
  have hrunning := fun hsema ↦ h.running_eq hsema (by omega)
  have hsuspend := fun hsema ↦ h.suspend_eq hsema (by omega)
  clear hshare hrun hsus
  generalize ht : loc t = l at h hsound hbit hrunning hsuspend
  cases h
  case exchange => exact hacc.exchange ht hsound (.inl rfl)
  case exchangeBehind => exact hacc.exchange ht hsound (.inr rfl)
  case barrierWait hpos => exact hacc.waited hpos (.inl ⟨ht, rfl⟩)
  case syncWait hpos => exact hacc.waited hpos (.inr ⟨ht, rfl⟩)
  case slowSignal => exact hacc.signalled (.inl ht)
  case slow2Signal => exact hacc.signalled (.inr ht)
  case drainLast hitems => exact hacc.drainLast ht hitems rfl
  case drainTake hitems => exact hacc.drainTake ht (by rw [hitems]; rfl) rfl
  case drainPop => exact hacc.drainPop ht
  case drainOut hl =>
    refine hacc.drainOut ?_
    rcases hl with ⟨rfl, -⟩ | ⟨rfl, -⟩ | ⟨rfl, -⟩ | ⟨rfl, -⟩ <;> simp [ht]
  case outSwap hitems =>
    rw [← hitems]
    exact hacc.putBack (by rw [ht]; rfl) (by rw [ht]; rfl) (by rw [ht]; rfl) (by rw [ht]; rfl)
      (by rw [ht]; rfl) (by rw [ht]; rfl) (.inl rfl)
  case outFront =>
    exact hacc.putBack (by rw [ht]; rfl) (by rw [ht]; rfl) (by rw [ht]; rfl) (by rw [ht]; rfl)
      (by rw [ht]; rfl) (by rw [ht]; rfl) (.inr rfl)
  case release k | pushLink k | wakeupSuspended k _ | wakeupEmpty k _ | wakeupMissed k _ |
      wakeupPush k =>
    cases k <;> exact hacc.count ht rfl rfl rfl rfl rfl hbit (hrunning rfl) (hsuspend rfl)
  case resumeInner | resumeOuter | barrierResume =>
    rcases resumeLoc_cases m with hl | hl | hl <;> rw [hl] at hbit hrunning hsuspend ⊢ <;>
      exact hacc.count ht rfl rfl rfl rfl rfl hbit (hrunning rfl) (hsuspend rfl)
  case drainRun d | drainSetTarget d _ | redirectPush d =>
    rcases drainLoop_cases (T := T) d with hl | hl <;> rw [hl] at hbit hrunning hsuspend ⊢ <;>
      exact hacc.count ht rfl rfl rfl rfl rfl hbit (hrunning rfl) (hsuspend rfl)
  all_goals exact hacc.count ht rfl rfl rfl rfl rfl hbit (hrunning rfl) (hsuspend rfl)

omit [DecidableEq Q] in
theorem accounts_created (tq : Q) :
    Accounts (created tq : Pool T (Mem T Q) (Loc T Q)).mem (created tq).loc := by
  constructor <;> simp [created, Loc.carries, Loc.carried, Loc.signalled, Loc.waits, Loc.call,
    Loc.first, Loc.bit, Loc.runningShare, Loc.suspendShare, Loc.readers, Loc.lock, Loc.handed]

theorem accounts_of_run {C : Pool T (Mem T Q) (Loc T Q) → T → Act Q → Prop} {tq : Q}
    {s : Pool T (Mem T Q) (Loc T Q)} (h : Pool.Runs (step width) C (created tq) s) :
    Accounts s.mem s.loc ∧ ∀ t, (s.loc t).Sound t := by
  have hsound : ∀ {s}, Pool.Runs (step width) C (created tq) s → ∀ t, (s.loc t).Sound t :=
    fun hr ↦ hr.forall_loc (fun _ ↦ trivial) fun _ _ _ _ _ _ hl _ hP ↦ (trans_of_step hP).sound hl
  refine ⟨?_, hsound h⟩
  refine h.invariant (I := fun s ↦ Accounts s.mem s.loc) (accounts_created tq) ?_
  intro s t a m l hr hacc _ hP
  exact (trans_of_step hP).accounts hacc (hsound hr t)

end Preservation

end LibDispatch.Queue
