import Mathlib.Data.List.Nodup
import Mathlib.Logic.Function.Basic
import Mathlib.Tactic.Common

/-!
# Hash tables with chaining

Elements with a key are kept in buckets that are found by a hash of the key.
-/

namespace Buckets

variable {ι α κ : Type*}

def Mem (b : ι → List α) (a : α) : Prop := ∃ i, a ∈ b i

/-- Every element is in the bucket of its key, and no two elements have the same key. -/
structure Wf (hash : κ → ι) (key : α → κ) (b : ι → List α) : Prop where
  hash_eq : ∀ i a, a ∈ b i → hash (key a) = i
  nodup : ∀ i, (b i).Nodup
  unique : ∀ a a', Mem b a → Mem b a' → key a = key a' → a = a'

variable {hash : κ → ι} {key key' : α → κ} {b : ι → List α} {a a' : α} {k : κ}

theorem Wf.mem_iff (h : Wf hash key b) : Mem b a ↔ a ∈ b (hash (key a)) := by
  refine ⟨fun ⟨i, hi⟩ ↦ ?_, fun hi ↦ ⟨_, hi⟩⟩
  rwa [h.hash_eq i a hi]

theorem Wf.congr (h : Wf hash key b) (hkey : ∀ a, Mem b a → key' a = key a) :
    Wf hash key' b where
  hash_eq i a ha := by
    rw [hkey a ⟨i, ha⟩]
    exact h.hash_eq i a ha
  nodup := h.nodup
  unique a a' ha ha' heq := h.unique a a' ha ha' (by rwa [← hkey a ha, ← hkey a' ha'])

section Find

variable [DecidableEq κ]

theorem Wf.find_eq_some (h : Wf hash key b) :
    ((b (hash k)).find? fun a ↦ key a = k) = some a ↔ Mem b a ∧ key a = k := by
  constructor
  · intro hfind
    exact ⟨⟨_, List.mem_of_find?_eq_some hfind⟩, by simpa using List.find?_some hfind⟩
  · rintro ⟨hmem, rfl⟩
    have hsome : ((b (hash (key a))).find? fun a' ↦ key a' = key a).isSome :=
      List.find?_isSome.mpr ⟨a, h.mem_iff.mp hmem, by simp⟩
    obtain ⟨a', ha'⟩ := Option.isSome_iff_exists.mp hsome
    have hkey : key a' = key a := by simpa using List.find?_some ha'
    rw [ha', h.unique a' a ⟨_, List.mem_of_find?_eq_some ha'⟩ hmem hkey]

theorem Wf.find_eq_none (h : Wf hash key b) :
    ((b (hash k)).find? fun a ↦ key a = k) = none ↔ ∀ a, Mem b a → key a ≠ k := by
  constructor
  · rintro hnone a hmem rfl
    rw [h.find_eq_some.mpr ⟨hmem, rfl⟩] at hnone
    cases hnone
  · intro hall
    by_contra hne
    obtain ⟨a, ha⟩ := Option.ne_none_iff_exists'.mp hne
    obtain ⟨hmem, hkey⟩ := h.find_eq_some.mp ha
    exact hall a hmem hkey

end Find

variable [DecidableEq ι]

theorem mem_insert {i : ι} : Mem (Function.update b i (b i ++ [a])) a' ↔ Mem b a' ∨ a' = a := by
  constructor
  · rintro ⟨j, hj⟩
    rcases eq_or_ne j i with rfl | hji
    · rw [Function.update_self, List.mem_append, List.mem_singleton] at hj
      exact hj.imp_left fun hj ↦ ⟨_, hj⟩
    · exact .inl ⟨j, by simpa [hji] using hj⟩
  · rintro (⟨j, hj⟩ | rfl)
    · rcases eq_or_ne j i with rfl | hji
      · exact ⟨j, by simp [hj]⟩
      · exact ⟨j, by simpa [hji] using hj⟩
    · exact ⟨i, by simp⟩

theorem Wf.insert (h : Wf hash key b) (hnew : ∀ a', Mem b a' → key a' ≠ key a) :
    Wf hash key (Function.update b (hash (key a)) (b (hash (key a)) ++ [a])) where
  hash_eq i a' hi := by
    rcases eq_or_ne i (hash (key a)) with rfl | hne
    · rw [Function.update_self, List.mem_append, List.mem_singleton] at hi
      rcases hi with hi | rfl
      · exact h.hash_eq _ _ hi
      · rfl
    · rw [Function.update_of_ne hne] at hi
      exact h.hash_eq i a' hi
  nodup i := by
    rcases eq_or_ne i (hash (key a)) with rfl | hne
    · rw [Function.update_self, List.nodup_append_comm, List.singleton_append, List.nodup_cons]
      exact ⟨fun ha ↦ hnew a ⟨_, ha⟩ rfl, h.nodup _⟩
    · rw [Function.update_of_ne hne]
      exact h.nodup i
  unique a₁ a₂ h₁ h₂ heq := by
    rcases mem_insert.mp h₁ with hm₁ | rfl <;> rcases mem_insert.mp h₂ with hm₂ | rfl
    · exact h.unique a₁ a₂ hm₁ hm₂ heq
    · exact absurd heq (hnew a₁ hm₁)
    · exact absurd heq.symm (hnew a₂ hm₂)
    · rfl

variable [DecidableEq α]

theorem Wf.mem_erase (h : Wf hash key b) :
    Mem (Function.update b (hash (key a)) ((b (hash (key a))).erase a)) a' ↔
      Mem b a' ∧ a' ≠ a := by
  constructor
  · rintro ⟨j, hj⟩
    rcases eq_or_ne j (hash (key a)) with rfl | hne
    · rw [Function.update_self, (h.nodup _).mem_erase_iff] at hj
      exact ⟨⟨_, hj.2⟩, hj.1⟩
    · rw [Function.update_of_ne hne] at hj
      refine ⟨⟨j, hj⟩, ?_⟩
      rintro rfl
      exact hne (h.hash_eq j a' hj).symm
  · rintro ⟨⟨j, hj⟩, hne⟩
    refine ⟨j, ?_⟩
    rcases eq_or_ne j (hash (key a)) with rfl | hja
    · rw [Function.update_self, (h.nodup _).mem_erase_iff]
      exact ⟨hne, hj⟩
    · rwa [Function.update_of_ne hja]

theorem Wf.erase (h : Wf hash key b) :
    Wf hash key (Function.update b (hash (key a)) ((b (hash (key a))).erase a)) where
  hash_eq i a' hi := by
    rcases eq_or_ne i (hash (key a)) with rfl | hne
    · rw [Function.update_self] at hi
      exact h.hash_eq _ _ (List.mem_of_mem_erase hi)
    · rw [Function.update_of_ne hne] at hi
      exact h.hash_eq i a' hi
  nodup i := by
    rcases eq_or_ne i (hash (key a)) with rfl | hne
    · rw [Function.update_self]
      exact (h.nodup _).erase a
    · rw [Function.update_of_ne hne]
      exact h.nodup i
  unique a₁ a₂ h₁ h₂ heq := h.unique a₁ a₂ (h.mem_erase.mp h₁).1 (h.mem_erase.mp h₂).1 heq

end Buckets
