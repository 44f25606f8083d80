import LibDispatch.Interleaving.Monitor
import LibDispatch.Interleaving.Refinement
import LibDispatch.Lists.Served
import LibDispatch.Workqueue.Mask

/-!
# The list of work queues

The queues that do not overcommit are used without a common mutex.  Each of them has a spin
lock for its items, and the mask of the queues with items is changed by atomic operations
only.  A thread that looks for work reads the mask without any lock, so that it may find the
queue empty, or find there an item that it leaves to others.

The bit of a queue is set before its first item is inserted and reset after its last one has
been removed, both under its spin lock: a queue with items is never missing from the mask.
-/

namespace LibDispatch.Workqueue

open Interleaving Served

/-- The queues that exist, by priority, with their items; their spin locks; the mask.  An item
`none` is one without a function: it asks a worker to exit. -/
structure Wqlist (T α : Type*) where
  wqlist : ℕ → Option (List (Option α))
  mtx : ℕ → Option T
  wqlistMask : Mask

/-- Where a thread stands in `wqlist_scan`, or in the part of `manager_workqueue_additem` and
of `worker_stop` that is under the spin lock, by the statement that is next. -/
inductive Op (α : Type*)
  | scan (skip : Bool)
  | lock (skip : Bool) (i : ℕ)
  | first (skip : Bool) (i : ℕ)
  | remove (skip : Bool) (i : ℕ) (witem : Option α)
  | reset (skip : Bool) (i : ℕ) (witem : Option α)
  | unlock (skip : Bool) (i : ℕ) (witem : Option (Option α))
  | addLock (stop : Bool) (i : ℕ) (witem : Option α)
  | addEmpty (i : ℕ) (witem : Option α)
  | addMask (i : ℕ) (witem : Option α)
  | addInsert (i : ℕ) (witem : Option α)
  | addUnlock (i : ℕ)
  deriving DecidableEq

/-- What comes after a step: the next place, or the end with what `wqlist_scan` returns. -/
inductive Next (α : Type*)
  | op (o : Op α)
  | scanned (witem : Option (Option α))
  | added
  deriving DecidableEq

variable {T α : Type*}

namespace Wqlist

def items (q : Wqlist T α) (i : ℕ) : List (Option α) := (q.wqlist i).getD []

def spinLock (q : Wqlist T α) (t : T) (i : ℕ) : Option (Wqlist T α) :=
  if (q.mtx i).isNone then some { q with mtx := Function.update q.mtx i (some t) } else none

def spinUnlock (q : Wqlist T α) (i : ℕ) : Wqlist T α :=
  { q with mtx := Function.update q.mtx i none }

def setItems (q : Wqlist T α) (i : ℕ) (xs : List (Option α)) : Wqlist T α :=
  { q with wqlist := Function.update q.wqlist i (some xs) }

/-- One step of `wqlist_scan`, or of an insertion.  The loops around the atomic operations end
at once: the value that the operation returns has the bit as the operation has left it. -/
def step (t : T) (q : Wqlist T α) : Op α → Option (Wqlist T α × Next α)
  | .scan skip =>
      match ffs q.wqlistMask with
      | 0 => some (q, .scanned none)
      | i + 1 => some (q, .op (.lock skip i))
  | .lock skip i =>
      match q.wqlist i with
      | none => none
      | some _ => (q.spinLock t i).map fun q' ↦ (q', .op (.first skip i))
  | .first skip i =>
      match q.items i with
      | [] => some (q, .op (.unlock skip i none))
      | witem :: _ =>
          if skip && witem.isNone then some (q, .op (.unlock skip i none))
          else some (q, .op (.remove skip i witem))
  | .remove skip i witem =>
      some (q.setItems i (q.items i).tail,
        .op (if (q.items i).tail.isEmpty then .reset skip i witem else .unlock skip i (some witem)))
  | .reset skip i witem =>
      some ({ q with wqlistMask := q.wqlistMask &&& ~~~ indexBit i },
        .op (.unlock skip i (some witem)))
  | .unlock _ i witem => some (q.spinUnlock i, .scanned witem)
  | .addLock stop i witem =>
      (q.spinLock t i).map fun q' ↦
        -- worker_stop does not look at the queue
        (q', .op (if stop then .addMask i witem else .addEmpty i witem))
  | .addEmpty i witem =>
      some (q, .op (if (q.items i).isEmpty then .addMask i witem else .addInsert i witem))
  | .addMask i witem =>
      some ({ q with wqlistMask := q.wqlistMask ||| indexBit i }, .op (.addInsert i witem))
  | .addInsert i witem => some (q.setItems i (q.items i ++ [witem]), .op (.addUnlock i))
  | .addUnlock i => some (q.spinUnlock i, .added)

/-- `pthread_workqueue_create_np` with `manager_workqueue_create`.  A second queue of one
priority ends the process. -/
def create (q : Wqlist T α) (i : ℕ) : Option (Wqlist T α) :=
  if i < workqNumPrioqueue then
    match q.wqlist i with
    | none => some (q.setItems i [])
    | some _ => none
  else some q

def init : Wqlist T α := ⟨fun _ ↦ none, fun _ ↦ none, 0⟩

end Wqlist

/-! ## Threads that scan and insert -/

namespace Wqlist

/-- What a thread that uses the list does next: it creates a queue, begins a scan or an
insertion, or goes on. -/
inductive Act (α : Type*)
  | create (i : ℕ)
  | scan (skip : Bool)
  | add (stop : Bool) (i : ℕ) (witem : Option α)
  | go
  deriving DecidableEq

def Next.loc : Next α → Option (Op α)
  | .op o => some o
  | _ => none

/-- One step of a thread that uses the list in any way. -/
def use : Program T (Act α) (Wqlist T α) (Option (Op α)) := fun t a q l ↦
  match l, a with
  | none, .create i => (q.create i).map fun q' ↦ (q', none)
  | none, .scan skip => some (q, some (.scan skip))
  | none, .add stop i witem =>
      if (q.wqlist i).isSome then some (q, some (.addLock stop i witem)) else none
  | some o, .go => (q.step t o).map fun r ↦ (r.1, Next.loc r.2)
  | _, _ => none

def unused : Pool T (Wqlist T α) (Option (Op α)) := ⟨init, fun _ ↦ none⟩

inductive Trans (t : T) (q : Wqlist T α) : Option (Op α) → Wqlist T α → Option (Op α) → Prop
  | create {i : ℕ} : i < workqNumPrioqueue → q.wqlist i = none →
      Trans t q none (q.setItems i []) none
  | createRefused : Trans t q none q none
  | beginScan {skip : Bool} : Trans t q none q (some (.scan skip))
  | beginAdd {stop : Bool} {i : ℕ} {witem : Option α} : (q.wqlist i).isSome →
      Trans t q none q (some (.addLock stop i witem))
  | scanNone {skip : Bool} : ffs q.wqlistMask = 0 → Trans t q (some (.scan skip)) q none
  | scan {skip : Bool} {i : ℕ} : ffs q.wqlistMask = i + 1 →
      Trans t q (some (.scan skip)) q (some (.lock skip i))
  | lock {skip : Bool} {i : ℕ} : q.mtx i = none → Trans t q (some (.lock skip i))
      { q with mtx := Function.update q.mtx i (some t) } (some (.first skip i))
  | firstNone {skip : Bool} {i : ℕ} :
      Trans t q (some (.first skip i)) q (some (.unlock skip i none))
  | first {skip : Bool} {i : ℕ} {witem : Option α} : (q.items i).head? = some witem →
      (skip → witem.isSome) →
      Trans t q (some (.first skip i)) q (some (.remove skip i witem))
  | removeLast {skip : Bool} {i : ℕ} {witem : Option α} : (q.items i).tail = [] →
      Trans t q (some (.remove skip i witem)) (q.setItems i []) (some (.reset skip i witem))
  | remove {skip : Bool} {i : ℕ} {witem : Option α} : (q.items i).tail ≠ [] →
      Trans t q (some (.remove skip i witem))
      (q.setItems i (q.items i).tail) (some (.unlock skip i (some witem)))
  | reset {skip : Bool} {i : ℕ} {witem : Option α} : Trans t q (some (.reset skip i witem))
      { q with wqlistMask := q.wqlistMask &&& ~~~ indexBit i } (some (.unlock skip i (some witem)))
  | unlock {skip : Bool} {i : ℕ} {witem : Option (Option α)} :
      Trans t q (some (.unlock skip i witem)) (q.spinUnlock i) none
  | addLock {stop : Bool} {i : ℕ} {witem : Option α} : q.mtx i = none →
      Trans t q (some (.addLock stop i witem))
        { q with mtx := Function.update q.mtx i (some t) }
        (some (if stop then .addMask i witem else .addEmpty i witem))
  | addFirst {i : ℕ} {witem : Option α} : q.items i = [] →
      Trans t q (some (.addEmpty i witem)) q (some (.addMask i witem))
  | addLater {i : ℕ} {witem : Option α} : q.items i ≠ [] →
      Trans t q (some (.addEmpty i witem)) q (some (.addInsert i witem))
  | addMask {i : ℕ} {witem : Option α} : Trans t q (some (.addMask i witem))
      { q with wqlistMask := q.wqlistMask ||| indexBit i } (some (.addInsert i witem))
  | addInsert {i : ℕ} {witem : Option α} : Trans t q (some (.addInsert i witem))
      (q.setItems i (q.items i ++ [witem])) (some (.addUnlock i))
  | addUnlock {i : ℕ} : Trans t q (some (.addUnlock i)) (q.spinUnlock i) none

variable {q q' : Wqlist T α} {l l' : Option (Op α)} {t : T} {a : Act α}

theorem spinLock_eq_some {i : ℕ} (h : q.spinLock t i = some q') :
    q.mtx i = none ∧ q' = { q with mtx := Function.update q.mtx i (some t) } := by
  unfold spinLock at h
  split at h <;> cases h
  exact ⟨Option.isNone_iff_eq_none.mp ‹_›, rfl⟩

theorem trans_of_op {o : Op α} {n : Next α} (h : q.step t o = some (q', n)) :
    Trans t q (some o) q' (Next.loc n) := by
  unfold step at h
  split at h
  case h_1 =>
    split at h <;> cases h
    · exact .scanNone ‹_›
    · exact .scan ‹_›
  case h_2 =>
    split at h
    · cases h
    · obtain ⟨q₁, hq₁, heq⟩ := Option.map_eq_some_iff.mp h
      obtain ⟨hfree, rfl⟩ := spinLock_eq_some hq₁
      cases heq
      exact .lock hfree
  case h_3 =>
    split at h
    · cases h
      exact .firstNone
    · split at h <;> cases h
      · exact .firstNone
      · refine .first (by simp [*]) fun hskip ↦ ?_
        simp_all [Option.isSome_iff_ne_none]
  case h_4 skip i witem =>
    cases h
    rcases hnil : (q.items i).tail with _ | ⟨x, rest⟩
    · exact .removeLast hnil
    · have hne : (q.items i).tail ≠ [] := by simp [hnil]
      have htrans : Trans t q (some (.remove skip i witem)) (q.setItems i (q.items i).tail)
        (some (.unlock skip i (some witem))) := .remove hne
      rw [hnil] at htrans
      exact htrans
  case h_7 =>
    obtain ⟨q₁, hq₁, heq⟩ := Option.map_eq_some_iff.mp h
    obtain ⟨hfree, rfl⟩ := spinLock_eq_some hq₁
    cases heq
    exact .addLock hfree
  case h_8 i witem =>
    cases h
    rcases hnil : q.items i with _ | ⟨x, rest⟩
    · exact .addFirst hnil
    · exact .addLater (by simp [hnil])
  all_goals
    cases h
    constructor

theorem trans_of_use (h : use t a q l = some (q', l')) : Trans t q l q' l' := by
  unfold use at h
  split at h
  · unfold create at h
    split at h
    · split at h <;> cases h
      exact .create ‹_› ‹_›
    · cases h
      exact .createRefused
  · cases h
    exact .beginScan
  · split at h <;> cases h
    exact .beginAdd ‹_›
  · obtain ⟨⟨q₁, n⟩, hq₁, heq⟩ := Option.map_eq_some_iff.mp h
    cases heq
    exact trans_of_op hq₁
  · cases h

/-! ## The spin locks -/

def holds : Option (Op α) → Option ℕ
  | some (.first _ i) | some (.remove _ i _) | some (.reset _ i _) | some (.unlock _ i _) => some i
  | some (.addEmpty i _) | some (.addMask i _) | some (.addInsert i _) | some (.addUnlock i) =>
      some i
  | _ => none

theorem Trans.guard (h : Trans t q l q' l') (i : ℕ) :
    Holds t (q.mtx i) (decide (holds l = some i)) (q'.mtx i) (decide (holds l' = some i)) := by
  cases h
  case lock skip j hfree =>
    rcases eq_or_ne i j with rfl | hij
    · simpa [holds, hfree] using Holds.enter
    · simpa [holds, hij, hij.symm] using Holds.stay
  case addLock stop j witem hfree =>
    rcases eq_or_ne i j with rfl | hij
    · cases stop <;> simpa [holds, hfree] using Holds.enter
    · cases stop <;> simpa [holds, hij, hij.symm] using Holds.stay
  case unlock _ j _ | addUnlock j =>
    rcases eq_or_ne i j with rfl | hij
    · simpa [holds, spinUnlock] using Holds.leave
    · simpa [holds, spinUnlock, hij, hij.symm] using Holds.stay
  all_goals exact .stay

/-! ## The items and the mask -/

/-- The queue that the thread is concerned with. -/
def queue : Option (Op α) → Option ℕ
  | some (.lock _ i) | some (.first _ i) | some (.remove _ i _) | some (.reset _ i _)
  | some (.unlock _ i _) | some (.addLock _ i _) | some (.addEmpty i _) | some (.addMask i _)
  | some (.addInsert i _) | some (.addUnlock i) => some i
  | _ => none

/-- What a thread that holds a spin lock knows about its queue. -/
def Sound (q : Wqlist T α) : Option (Op α) → Prop
  | some (.remove skip i witem) => (q.items i).head? = some witem ∧ (skip → witem.isSome)
  | some (.reset skip i witem) => q.items i = [] ∧ (skip → witem.isSome)
  | some (.unlock skip _ (some witem)) => skip → witem.isSome
  | some (.addInsert i _) => q.wqlistMask.getLsbD i
  | _ => True

/-- The thread has set the bit of a queue in order to insert an item, or is about to reset it. -/
def flips : Option (Op α) → Option ℕ
  | some (.reset _ i _) | some (.addInsert i _) => some i
  | _ => none

/-- A queue with items is in the mask; a queue in the mask has items, or is about to get the
first one, or to be taken out; the queues in use exist. -/
structure Consistent (q : Wqlist T α) (loc : T → Option (Op α)) : Prop where
  guarded : ∀ i, Guarded (fun l ↦ decide (holds l = some i)) loc (q.mtx i)
  sound : ∀ t, Sound q (loc t)
  present : ∀ i, q.items i ≠ [] → q.wqlistMask.getLsbD i
  absent : ∀ i, q.wqlistMask.getLsbD i → q.items i ≠ [] ∨ ∃ t, flips (loc t) = some i
  lt_of_isSome : ∀ i, (q.wqlist i).isSome → i < workqNumPrioqueue
  isSome_of_bit : ∀ i, q.wqlistMask.getLsbD i → (q.wqlist i).isSome
  isSome_of_queue : ∀ t i, queue (loc t) = some i → (q.wqlist i).isSome

theorem queue_of_holds {i : ℕ} (h : holds l = some i) : queue l = some i := by
  revert h
  fun_cases holds l <;> simp [queue]

theorem holds_of_flips {i : ℕ} (h : flips l = some i) : holds l = some i := by
  revert h
  fun_cases flips l <;> simp [holds]

theorem Trans.frame (h : Trans t q l q' l') (hex : ∀ j, holds l = some j → j < 32) {i : ℕ}
    (hi : holds l ≠ some i) :
    q'.items i = q.items i ∧ q'.wqlistMask.getLsbD i = q.wqlistMask.getLsbD i := by
  cases h
  case create j hj hnone =>
    rcases eq_or_ne i j with rfl | hij <;> simp [items, setItems, *]
  case removeLast _ j _ _ | remove _ j _ _ | addInsert j _ =>
    have hij : i ≠ j := fun heq ↦ hi (by rw [heq]; rfl)
    simp [items, setItems, hij]
  case reset _ j witem =>
    have hij : j ≠ i := fun heq ↦ hi (by rw [← heq]; rfl)
    exact ⟨rfl, by rw [getLsbD_clear (hex j rfl)]; simp [hij]⟩
  case addMask j witem =>
    have hij : j ≠ i := fun heq ↦ hi (by rw [← heq]; rfl)
    exact ⟨rfl, by rw [getLsbD_set (hex j rfl)]; simp [hij]⟩
  all_goals exact ⟨rfl, rfl⟩

theorem Trans.isSome_mono (h : Trans t q l q' l') {i : ℕ} (hi : (q.wqlist i).isSome) :
    (q'.wqlist i).isSome := by
  cases h
  case create j _ _ | removeLast j _ _ | remove j _ _ | addInsert j _ =>
    rcases eq_or_ne i j with rfl | hij
    · simp [setItems]
    · simpa [setItems, hij] using hi
  all_goals exact hi

section Step

variable {loc : T → Option (Op α)}

theorem Consistent.lt_of_holds (hI : Consistent q loc) {i : ℕ} (h : holds (loc t) = some i) :
    i < 32 :=
  (hI.lt_of_isSome i (hI.isSome_of_queue t i (queue_of_holds h))).trans (by decide)

theorem Consistent.eq_of_holds (hI : Consistent q loc) {i : ℕ} {u : T}
    (ht : holds (loc t) = some i) (hu : holds (loc u) = some i) : u = t :=
  (hI.guarded i).eq_of_inside (by simpa using ht) (by simpa using hu)

theorem Sound.frame (h : Sound q l) (hf : ∀ i, holds l = some i →
    q'.items i = q.items i ∧ q'.wqlistMask.getLsbD i = q.wqlistMask.getLsbD i) : Sound q' l := by
  rcases l with _ | o
  · trivial
  cases o
  case remove _ i witem => simpa only [Sound, (hf i rfl).1] using h
  case reset _ i witem => simpa only [Sound, (hf i rfl).1] using h
  case unlock _ _ witem => cases witem <;> exact h
  case addInsert i witem => simpa only [Sound, (hf i rfl).2] using h
  all_goals trivial

theorem Trans.sound (h : Trans t q (loc t) q' l') (hI : Consistent q loc) : Sound q' l' := by
  have hS := hI.sound t
  have hlt := fun i ↦ hI.lt_of_holds (t := t) (i := i)
  generalize loc t = l at h hS hlt
  cases h
  case first hhead hskip => exact ⟨hhead, hskip⟩
  case removeLast => exact ⟨by simp [items, setItems], hS.2⟩
  case remove | reset => exact hS.2
  case addLock stop _ _ _ => cases stop <;> trivial
  case addLater i witem hne => exact hI.present i hne
  case addMask i witem =>
    rw [Sound, getLsbD_set (hlt i rfl)]
    simp
  all_goals trivial

theorem Trans.queue (h : Trans t q (loc t) q' l') (hI : Consistent q loc) {i : ℕ}
    (hi : queue l' = some i) : (q.wqlist i).isSome := by
  have hq := hI.isSome_of_queue t i
  generalize loc t = l at h hq
  cases h
  case scan hffs =>
    cases hi
    exact hI.isSome_of_bit _ (ffs_eq_succ hffs).1
  case beginAdd hsome =>
    cases hi
    exact hsome
  case addLock stop _ _ _ => cases stop <;> exact hq hi
  all_goals first | exact hq hi | cases hi

theorem Trans.held (h : Trans t q (loc t) q' l') (hI : Consistent q loc) {i : ℕ}
    (hi : holds (loc t) = some i) :
    (q'.items i ≠ [] → q'.wqlistMask.getLsbD i) ∧
      (q'.wqlistMask.getLsbD i → q'.items i ≠ [] ∨ flips l' = some i) := by
  have hS := hI.sound t
  have hlt := hI.lt_of_holds hi
  have hpresent := hI.present i
  have habsent : q.wqlistMask.getLsbD i → q.items i ≠ [] ∨ flips (loc t) = some i := by
    intro hbit
    refine (hI.absent i hbit).imp_right fun ⟨u, hu⟩ ↦ ?_
    rwa [← hI.eq_of_holds hi (holds_of_flips hu)]
  generalize loc t = l at h hi hS habsent
  cases h <;> cases hi
  case removeLast => simp [items, setItems, flips]
  case remove skip witem hne =>
    have hne' : q.items i ≠ [] := fun hnil ↦ hne (by simp [hnil])
    exact ⟨fun _ ↦ hpresent hne', fun _ ↦ .inl (by simpa [items, setItems] using hne)⟩
  case reset skip witem =>
    simp only [getLsbD_clear hlt]
    exact ⟨fun hne ↦ absurd hS.1 hne, by simp⟩
  case addMask witem =>
    simp only [getLsbD_set hlt]
    exact ⟨by simp, fun _ ↦ .inr rfl⟩
  case addInsert witem => exact ⟨fun _ ↦ hS, fun _ ↦ .inl (by simp [items, setItems])⟩
  case addLater witem hne => exact ⟨hpresent, fun _ ↦ .inl hne⟩
  all_goals exact ⟨hpresent, fun hbit ↦ .inl ((habsent hbit).resolve_right nofun)⟩

theorem Trans.lt_of_isSome (h : Trans t q (loc t) q' l') (hI : Consistent q loc) (i : ℕ)
    (hi : (q'.wqlist i).isSome) : i < workqNumPrioqueue := by
  have hq := hI.isSome_of_queue t i
  generalize loc t = l at h hq
  cases h
  case create j hj _ =>
    rcases eq_or_ne i j with rfl | hij
    · exact hj
    · exact hI.lt_of_isSome i (by simpa [setItems, hij] using hi)
  case removeLast _ j _ _ | remove _ j _ _ | addInsert j _ =>
    rcases eq_or_ne i j with rfl | hij
    · exact hI.lt_of_isSome i (hq rfl)
    · exact hI.lt_of_isSome i (by simpa [setItems, hij] using hi)
  all_goals exact hI.lt_of_isSome i hi

theorem Trans.isSome_of_bit (h : Trans t q (loc t) q' l') (hI : Consistent q loc) (i : ℕ)
    (hbit : q'.wqlistMask.getLsbD i) : (q.wqlist i).isSome := by
  have hq := hI.isSome_of_queue t i
  have hlt := fun j ↦ hI.lt_of_holds (t := t) (i := j)
  generalize loc t = l at h hq hlt
  cases h
  case reset _ j witem =>
    rw [getLsbD_clear (hlt j rfl), Bool.and_eq_true] at hbit
    exact hI.isSome_of_bit i hbit.1
  case addMask j witem =>
    rcases eq_or_ne j i with rfl | hij
    · exact hq rfl
    · exact hI.isSome_of_bit i (by simpa [getLsbD_set (hlt j rfl), hij] using hbit)
  all_goals exact hI.isSome_of_bit i hbit

variable [DecidableEq T]

theorem Trans.consistent (h : Trans t q (loc t) q' l') (hI : Consistent q loc) :
    Consistent q' (Function.update loc t l') := by
  have hframe := fun i ↦ h.frame (fun j hj ↦ hI.lt_of_holds hj) (i := i)
  refine ⟨fun i ↦ (hI.guarded i).step (h.guard i), fun u ↦ ?_, fun i hne ↦ ?_, fun i hbit ↦ ?_,
    h.lt_of_isSome hI, fun i hbit ↦ h.isSome_mono (h.isSome_of_bit hI i hbit), fun u i hu ↦ ?_⟩
  · rcases eq_or_ne u t with rfl | hut
    · simpa using h.sound hI
    · rw [Function.update_of_ne hut]
      exact (hI.sound u).frame fun i hu ↦ hframe i fun ht ↦ hut (hI.eq_of_holds ht hu)
  · by_cases ht : holds (loc t) = some i
    · exact (h.held hI ht).1 hne
    · obtain ⟨hitems, hmask⟩ := hframe i ht
      rw [hmask]
      exact hI.present i (hitems ▸ hne)
  · by_cases ht : holds (loc t) = some i
    · exact ((h.held hI ht).2 hbit).imp_right fun hflips ↦ ⟨t, by simpa using hflips⟩
    · obtain ⟨hitems, hmask⟩ := hframe i ht
      rw [hitems]
      refine (hI.absent i (hmask ▸ hbit)).imp_right fun ⟨u, hu⟩ ↦ ⟨u, ?_⟩
      have hut : u ≠ t := by
        rintro rfl
        exact ht (holds_of_flips hu)
      simpa [hut] using hu
  · refine h.isSome_mono ?_
    rcases eq_or_ne u t with rfl | hut
    · exact h.queue hI (by simpa using hu)
    · exact hI.isSome_of_queue u i (by simpa [hut] using hu)

theorem consistent_of_run {C : Pool T (Wqlist T α) (Option (Op α)) → T → Act α → Prop}
    {s : Pool T (Wqlist T α) (Option (Op α))} (h : Pool.Runs use C unused s) :
    Consistent s.mem s.loc := by
  refine h.invariant (I := fun s ↦ Consistent s.mem s.loc) ?_
    fun s t a m l _ hI _ hP ↦ (trans_of_use hP).consistent hI
  constructor <;> simp [unused, init, Guarded, holds, Sound, items, queue]

end Step

/-! ## Items in order -/

def record : Op α → Log (Option α) → Log (Option α)
  | .addInsert i witem, log => log.add i witem
  | .remove _ i witem, log => log.take i witem
  | _, log => log

def inHand : Op α → Option (Option α)
  | .reset _ _ witem => some witem
  | .unlock _ _ witem => witem
  | _ => none

/-- The item in hand after a step, or returned by it. -/
def Next.inHand : Next α → Option (Option α)
  | .op o => Wqlist.inHand o
  | .scanned witem => witem
  | .added => none

section Order

variable {log : Log (Option α)} {o : Op α} {n : Next α}

theorem items_setItems_self (q : Wqlist T α) (i : ℕ) (xs : List (Option α)) :
    (q.setItems i xs).items i = xs := by
  simp [items, setItems]

theorem items_setItems_of_ne (q : Wqlist T α) {i j : ℕ} (xs : List (Option α)) (hj : j ≠ i) :
    (q.setItems i xs).items j = q.items j := by
  simp [items, setItems, hj]

theorem inOrder_of_step (h : q.step t o = some (q', n)) (hS : Sound q (some o))
    (hI : InOrder log q.items) : InOrder (record o log) q'.items := by
  have htrans := trans_of_op h
  generalize Next.loc n = l' at htrans
  cases htrans
  case addInsert i witem =>
    exact hI.add (items_setItems_self q i _) fun j ↦ items_setItems_of_ne q _
  case removeLast skip i witem hnil =>
    exact hI.take hS.1 (by rw [items_setItems_self, hnil]) fun j ↦ items_setItems_of_ne q _
  case remove skip i witem _ =>
    exact hI.take hS.1 (items_setItems_self q i _) fun j ↦ items_setItems_of_ne q _
  all_goals exact hI

theorem inOrder_of_create {i : ℕ} (h : q.create i = some q') (hI : InOrder log q.items) :
    InOrder log q'.items := by
  unfold create at h
  split at h
  · split at h <;> cases h
    refine hI.congr fun j ↦ ?_
    rcases eq_or_ne j i with rfl | hj <;> simp [items, setItems, *]
  · cases h
    exact hI

theorem inHand_of_step (h : q.step t o = some (q', n)) :
    (∃ skip i witem, o = .remove skip i witem ∧ Next.inHand n = some witem) ∨
      (Next.inHand n = inHand o ∧ ∀ log, (record o log).taken = log.taken) := by
  cases o
  case remove skip i witem =>
    refine .inl ⟨skip, i, witem, rfl, ?_⟩
    cases h
    simp only [Next.inHand]
    split <;> rfl
  case lock =>
    simp only [step] at h
    split at h
    · cases h
    · obtain ⟨_, -, heq⟩ := Option.map_eq_some_iff.mp h
      cases heq
      exact .inr ⟨rfl, fun _ ↦ rfl⟩
  case addLock stop _ _ =>
    obtain ⟨_, -, heq⟩ := Option.map_eq_some_iff.mp h
    cases heq
    cases stop <;> exact .inr ⟨rfl, fun _ ↦ rfl⟩
  case addEmpty =>
    cases h
    refine .inr ⟨?_, fun _ ↦ rfl⟩
    simp only [Next.inHand]
    split <;> rfl
  all_goals
    simp only [step] at h
    (repeat' split at h) <;> cases h <;> exact .inr ⟨rfl, fun _ ↦ rfl⟩

theorem isSome_of_scanned {witem : Option α} (h : q.step t o = some (q', .scanned (some witem))) :
    ∃ skip i, o = .unlock skip i (some witem) := by
  cases o
  case unlock skip i w =>
    cases h
    exact ⟨skip, i, rfl⟩
  case lock =>
    simp only [step] at h
    split at h
    · cases h
    · obtain ⟨_, -, heq⟩ := Option.map_eq_some_iff.mp h
      cases heq
  case addLock =>
    obtain ⟨_, -, heq⟩ := Option.map_eq_some_iff.mp h
    cases heq
  all_goals
    simp only [step] at h
    (repeat' split at h) <;> cases h

end Order

end Wqlist

end LibDispatch.Workqueue
