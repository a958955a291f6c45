import Mathlib.Data.List.Infix
import Mathlib.Data.List.TakeDrop
import Mathlib.Data.Nat.Notation

/-!
# Searching a list for a sub-list

`find needle l` is the position of the first occurrence of `needle` in `l`, and `findLast b l` the
position of the last occurrence of the element `b`. The lemmas say when a search skips a prefix
(`find_skip`), that a match is not disturbed by what follows it (`find_append_right`), and where
the first match of a one- or two-element needle lies in a list written around it
(`find_singleton_append`, `find_pair_append`).
-/

namespace Webserv.Search

variable {α : Type*} [DecidableEq α]

/-- The position of the first occurrence of `needle` in a list. -/
def find (needle : List α) : List α → Option ℕ
  | [] => if needle.isPrefixOf [] then some 0 else none
  | a :: l => if needle.isPrefixOf (a :: l) then some 0 else (find needle l).map (· + 1)

/-- The position of the last occurrence of `b` in a list. -/
def findLast (b : α) (l : List α) : Option ℕ :=
  (find [b] l.reverse).map fun i => l.length - 1 - i

theorem find_of_prefixed {needle l : List α} (h : needle <+: l) : find needle l = some 0 := by
  cases l <;> simp [find, List.isPrefixOf_iff_prefix.2 h]

theorem find_cons_of_not_prefixed {needle l : List α} {a : α} (h : ¬ needle <+: a :: l) :
    find needle (a :: l) = (find needle l).map (· + 1) := by
  rw [find, if_neg (by simpa [ List.isPrefixOf_iff_prefix] using h)]

/-- A prefix of positions without a match can be skipped. -/
theorem find_skip {needle : List α} : ∀ (k : ℕ) {l : List α}, k ≤ l.length →
    (∀ j < k, ¬ needle <+: l.drop j) → find needle l = (find needle (l.drop k)).map (· + k)
  | 0, l, _, _ => by simp
  | k + 1, [], hk, _ => by simp at hk
  | k + 1, a :: l, hk, h => by
    have h0 : ¬ needle <+: a :: l := h 0 (by omega)
    have ih := find_skip k (l := l) (by simpa using hk) fun j hj => h (j + 1) (by omega)
    rw [find_cons_of_not_prefixed h0, ih, List.drop_succ_cons, Option.map_map]
    congr 1

/-- A match is an occurrence, and no earlier position is one. -/
theorem find_eq_some {needle : List α} : ∀ {l : List α} {i : ℕ}, find needle l = some i →
    i ≤ l.length ∧ needle <+: l.drop i ∧ ∀ j < i, ¬ needle <+: l.drop j
  | [], i, h => by
    simp only [find] at h
    split at h
    · rename_i hp
      obtain rfl : 0 = i := by simpa using h
      exact ⟨le_rfl, List.isPrefixOf_iff_prefix.1 hp, fun j hj => absurd hj (by omega)⟩
    · simp at h
  | a :: l, i, h => by
    by_cases hp : needle <+: a :: l
    · rw [find_of_prefixed hp] at h
      obtain rfl : 0 = i := by simpa using h
      exact ⟨by simp, hp, fun j hj => absurd hj (by omega)⟩
    · rw [find_cons_of_not_prefixed hp, Option.map_eq_some_iff] at h
      obtain ⟨i', hi', rfl⟩ := h
      obtain ⟨hle, hocc, hmin⟩ := find_eq_some hi'
      refine ⟨by simpa using hle, by simpa using hocc, fun j hj => ?_⟩
      cases j with
      | zero => simpa using hp
      | succ j => simpa using hmin j (by omega)

/-- A match leaves room for the needle. -/
theorem length_le_of_find {needle l : List α} {i : ℕ} (h : find needle l = some i) :
    i + needle.length ≤ l.length := by
  obtain ⟨hle, hocc, -⟩ := find_eq_some h
  have := hocc.length_le
  rw [List.length_drop] at this
  omega

/-- The first occurrence is the match. -/
theorem find_eq_some_of {needle l : List α} {i : ℕ} (hi : i ≤ l.length) (h : needle <+: l.drop i)
    (hmin : ∀ j < i, ¬ needle <+: l.drop j) : find needle l = some i := by
  rw [find_skip i hi hmin, find_of_prefixed h]
  simp

theorem find_eq_none {needle : List α} : ∀ {l : List α}, find needle l = none →
    ∀ j, ¬ needle <+: l.drop j
  | [], h, j => by
    simp only [find] at h
    split at h
    · simp at h
    · rename_i hp
      simpa [ List.isPrefixOf_iff_prefix] using hp
  | a :: l, h, j => by
    by_cases hp : needle <+: a :: l
    · rw [find_of_prefixed hp] at h
      simp at h
    · rw [find_cons_of_not_prefixed hp, Option.map_eq_none_iff] at h
      cases j with
      | zero => simpa using hp
      | succ j => simpa using find_eq_none h j

/-- What follows a match does not move it. -/
theorem find_append_right {needle l : List α} {i : ℕ} (h : find needle l = some i) (m : List α) :
    find needle (l ++ m) = some i := by
  obtain ⟨hle, hocc, hmin⟩ := find_eq_some h
  have hlen := length_le_of_find h
  refine find_eq_some_of (by simp; omega) ?_ fun j hj hp => hmin j hj ?_
  · rw [List.drop_append_of_le_length hle]
    exact hocc.trans (List.prefix_append _ _)
  · rw [List.drop_append_of_le_length (by omega)] at hp
    exact List.prefix_of_prefix_length_le hp (List.prefix_append _ _)
      (by rw [List.length_drop]; omega)

/-- A match that ends inside a prefix is a match of the prefix. -/
theorem find_take {needle l : List α} {i k : ℕ} (h : find needle l = some i)
    (hk : i + needle.length ≤ k) : find needle (l.take k) = some i := by
  obtain ⟨hle, hocc, hmin⟩ := find_eq_some h
  have hlen := length_le_of_find h
  refine find_eq_some_of (by simp; omega) ?_ fun j hj hp => hmin j hj ?_
  · rw [List.drop_take]
    refine List.prefix_of_prefix_length_le hocc ( List.take_prefix _ _) ?_ |>.trans List.prefix_rfl
    simp only [List.length_take, List.length_drop]
    omega
  · rw [List.drop_take] at hp
    exact hp.trans ( List.take_prefix _ _)

theorem find_singleton_append {b : α} {l : List α} (h : b ∉ l) (m : List α) :
    find [b] (l ++ b :: m) = some l.length := by
  refine find_eq_some_of (by simp) (by simp) fun j hj hp => h ?_
  rw [List.drop_append_of_le_length hj.le, List.drop_eq_getElem_cons hj, List.cons_append,
    List.cons_prefix_cons] at hp
  exact hp.1 ▸ List.getElem_mem hj

/-- A list is cut at the first occurrence of an element. -/
theorem find_singleton_eq_some {b : α} {l : List α} {i : ℕ} (h : find [b] l = some i) :
    ∃ before after, l = before ++ b :: after ∧ b ∉ before ∧ before.length = i := by
  obtain ⟨hle, ⟨after, hafter⟩, hmin⟩ := find_eq_some h
  refine ⟨l.take i, after, ?_, fun hmem => ?_, by rw [List.length_take, Nat.min_eq_left hle]⟩
  · rw [← List.singleton_append, hafter, List.take_append_drop]
  · obtain ⟨j, hj, hget⟩ := List.getElem_of_mem hmem
    rw [List.length_take] at hj
    rw [List.getElem_take] at hget
    refine hmin j (by omega) ?_
    rw [List.drop_eq_getElem_cons (by omega), hget]
    exact List.prefix_append [b] _

theorem notMem_of_find_eq_none {b : α} {l : List α} (h : find [b] l = none) : b ∉ l := by
  intro hmem
  obtain ⟨before, after, rfl⟩ := List.append_of_mem hmem
  refine find_eq_none h before.length ?_
  rw [List.drop_left]
  exact List.prefix_append [b] after

/-- A two-element needle of distinct elements after a list without it. -/
theorem find_pair_append {x y : α} (hxy : x ≠ y) {l : List α} (h : ¬ [x, y] <:+: l) (m : List α) :
    find [x, y] (l ++ x :: y :: m) = some l.length := by
  refine find_eq_some_of (by simp) (by simp) fun j hj hp => ?_
  rw [List.drop_append_of_le_length hj.le, List.drop_eq_getElem_cons hj, List.cons_append,
    List.cons_prefix_cons] at hp
  obtain ⟨hx, hp⟩ := hp
  by_cases hlast : j + 1 < l.length
  · rw [List.drop_eq_getElem_cons hlast, List.cons_append, List.cons_prefix_cons] at hp
    refine h ⟨l.take j, l.drop (j + 2), ?_⟩
    rw [hx, hp.1, List.append_assoc, List.cons_append, List.cons_append, List.nil_append,
      ← List.drop_eq_getElem_cons hlast, ← List.drop_eq_getElem_cons hj, List.take_append_drop]
  · -- the needle would start at the last element of `l` and end at its own first element
    rw [List.drop_of_length_le (by omega), List.nil_append, List.cons_prefix_cons] at hp
    exact hxy hp.1.symm

theorem findLast_append {b : α} (l : List α) {m : List α} (h : b ∉ m) :
    findLast b (l ++ b :: m) = some l.length := by
  rw [findLast, List.reverse_append, List.reverse_cons, List.append_assoc, List.singleton_append,
    find_singleton_append (by simpa using h)]
  simp

end Webserv.Search
