import Mathlib.Data.List.Basic
import Mathlib.Tactic.Common
import Webserv.Foundations.Map

/-!
# Vectors with an index

A vector whose elements are found by a key through an index: `IndexedBy keys index` says that the
index is the inverse of the vector of keys. An element is removed by overwriting it with the last
one (`swapRemove`), which moves in the index, too. The removed key may itself be the last one.
-/

namespace Webserv.IndexedVector

variable {α κ : Type}

/-- Overwrite the element at `i` by the last one, and drop the last one. -/
def swapRemove (assign : α → α → α) (l : List α) (i : ℕ) : Option (List α) :=
  match l[i]?, l.getLast? with
  | some this, some src => some ((l.set i (assign this src)).dropLast)
  | _, _ => none

theorem swapRemove_eq {assign : α → α → α} {l : List α} {i : ℕ} {this src : α}
    (hi : l[i]? = some this) (hlast : l.getLast? = some src) :
    swapRemove assign l i = some ((l.set i (assign this src)).dropLast) := by
  rw [swapRemove, hi, hlast]

/-- The elements after a removal. -/
theorem getElem?_dropLast_set (l : List α) (i j : ℕ) (a : α) :
    ((l.set i a).dropLast)[j]? =
      if j < l.length - 1 then if i = j then some a else l[j]? else none := by
  rw [List.getElem?_dropLast, List.length_set]
  split_ifs with hj hij
  · subst hij
    rw [List.getElem?_set_self (by omega)]
  · rw [List.getElem?_set_ne hij]
  · rfl

/-- An element is left after a removal if it was moved to the slot, or stays where it was. -/
theorem getElem?_dropLast_set_iff {l : List α} {i j : ℕ} {a x : α} :
    ((l.set i a).dropLast)[j]? = some x ↔
      (j = i ∧ i + 1 < l.length ∧ x = a) ∨ (j ≠ i ∧ j + 1 < l.length ∧ l[j]? = some x) := by
  rw [getElem?_dropLast_set]
  constructor
  · intro h
    split_ifs at h with hj hij
    · exact .inl ⟨hij.symm, by omega, (Option.some.inj h).symm⟩
    · exact .inr ⟨Ne.symm hij, by omega, h⟩
  · rintro (⟨rfl, hlt, rfl⟩ | ⟨hji, hlt, h⟩)
    · rw [if_pos (by omega), if_pos rfl]
    · rw [if_pos (by omega), if_neg (Ne.symm hji), h]

variable [DecidableEq κ]

/-- The index is the inverse of the vector of keys. -/
def IndexedBy (keys : List κ) (index : Map κ ℕ) : Prop :=
  ∀ k i, index.lookup k = some i ↔ keys[i]? = some k

theorem IndexedBy.nodup {keys : List κ} {index : Map κ ℕ} (h : IndexedBy keys index) :
    keys.Nodup := by
  rw [List.nodup_iff_getElem?_ne_getElem?]
  intro i j hij hj heq
  have hi : keys[i]? = some keys[i] := List.getElem?_eq_getElem (by omega)
  have h₁ := (h keys[i] i).2 hi
  have h₂ := (h keys[i] j).2 (heq ▸ hi)
  have := Option.some.inj (h₁.symm.trans h₂)
  omega

theorem IndexedBy.mem_iff {keys : List κ} {index : Map κ ℕ} (h : IndexedBy keys index) (k : κ) :
    k ∈ index ↔ k ∈ keys := by
  rw [Finmap.mem_iff, List.mem_iff_getElem?]
  exact exists_congr (h k)

theorem IndexedBy.nil : IndexedBy ([] : List κ) ∅ := by
  intro k i
  simp

/-- Push an element with a new key. -/
theorem IndexedBy.push {keys : List κ} {index : Map κ ℕ} (h : IndexedBy keys index) {k : κ}
    (hk : k ∉ keys) : IndexedBy (keys ++ [k]) (index.insert k keys.length) := by
  intro x j
  rw [Map.lookup_insert_eq]
  split_ifs with hx
  · subst hx
    rw [Option.some.injEq, List.getElem?_append]
    split_ifs with hj
    · refine ⟨fun heq => absurd heq (by omega), fun heq => absurd (List.mem_of_getElem? heq) hk⟩
    · rw [List.getElem?_singleton]
      split_ifs with h0
      · simp
        omega
      · simp
        omega
  · rw [h, List.getElem?_append]
    split_ifs with hj
    · rfl
    · rw [List.getElem?_eq_none (by omega), List.getElem?_singleton]
      split_ifs with h0
      · simp [Ne.symm hx]
      · simp

/-- **Removing the element at `i`**, after the index was pointed from the last key to `i`. -/
theorem IndexedBy.swapRemove {keys : List κ} {index : Map κ ℕ} (h : IndexedBy keys index) {i : ℕ}
    {k last : κ} (hi : keys[i]? = some k) (hlast : keys.getLast? = some last) :
    IndexedBy ((keys.set i last).dropLast) ((index.insert last i).erase k) := by
  have hilt : i < keys.length := (List.getElem?_eq_some_iff.1 hi).1
  have hend : keys[keys.length - 1]? = some last := by rwa [← List.getLast?_eq_getElem?]
  -- a position is determined by its key
  have hpos : ∀ {x : κ} {a b : ℕ}, keys[a]? = some x → keys[b]? = some x → a = b := by
    intro x a b ha hb
    exact Option.some.inj (((h x a).2 ha).symm.trans ((h x b).2 hb))
  intro x j
  rw [Map.lookup_erase_eq, Map.lookup_insert_eq, getElem?_dropLast_set]
  by_cases hxk : x = k
  · subst hxk
    rw [if_pos rfl]
    refine ⟨nofun, fun heq => ?_⟩
    split_ifs at heq with hj hij
    · cases heq
      have := hpos hi hend
      omega
    · exact absurd (hpos hi heq) hij
  rw [if_neg hxk]
  by_cases hxl : x = last
  · subst hxl
    have hne : i ≠ keys.length - 1 := by
      rintro rfl
      exact hxk (Option.some.inj (hend.symm.trans hi))
    rw [if_pos rfl, Option.some.injEq]
    split_ifs with hj hij
    · simp [hij]
    · refine ⟨fun heq => absurd heq hij, fun heq => ?_⟩
      have := hpos heq hend
      omega
    · refine ⟨fun heq => ?_, nofun⟩
      omega
  · rw [if_neg hxl, h]
    split_ifs with hj hij
    · subst hij
      rw [hi, Option.some.injEq, Option.some.injEq]
      exact ⟨fun heq => absurd heq.symm hxk, fun heq => absurd heq.symm hxl⟩
    · rfl
    · refine ⟨fun heq => ?_, nofun⟩
      have hlt := (List.getElem?_eq_some_iff.1 heq).1
      obtain rfl : j = keys.length - 1 := by omega
      exact absurd (Option.some.inj (heq.symm.trans hend)) hxl

end Webserv.IndexedVector
