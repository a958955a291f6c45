import Mathlib.Data.List.Basic
import Mathlib.Tactic.Common

/-!
# Sending a list in pieces

A list is cut into pieces of a given size, and of each piece a number of elements gets through. It
gets through as a whole exactly if every piece does (`through_of_whole`, `whole_of_length`).
-/

namespace Webserv.Pieces

variable {α : Type} {size : ℕ} {l : List α} {counts : List ℕ}

/-- What gets through, if the pieces let the given numbers of elements through. -/
def through (size : ℕ) : List α → List ℕ → List α
  | _, [] => []
  | l, n :: counts => (l.take size).take n ++ through size (l.drop size) counts

/-- Every piece gets through as a whole. -/
def Whole (size : ℕ) (l : List α) (counts : List ℕ) : Prop :=
  ∀ j n, counts[j]? = some n → min (l.length - size * j) size ≤ n

theorem whole_cons {n : ℕ} :
    Whole size l (n :: counts) ↔ min l.length size ≤ n ∧ Whole size (l.drop size) counts := by
  have hshift : ∀ j, (l.drop size).length - size * j = l.length - size * (j + 1) := by
    intro j
    rw [List.length_drop, Nat.mul_succ]
    omega
  constructor
  · refine fun h => ⟨h 0 n rfl, fun j m hj => ?_⟩
    rw [hshift]
    exact h (j + 1) m hj
  · rintro ⟨hn, h⟩ j m hj
    cases j with
    | zero =>
      cases hj
      exact hn
    | succ j =>
      rw [← hshift]
      exact h j m hj

theorem Whole.take (h : Whole size l counts) (k : ℕ) : Whole size l (counts.take k) := by
  intro j n hj
  rw [List.getElem?_take] at hj
  split_ifs at hj with hjk
  exact h j n hj

/-- What gets through if every piece does. -/
theorem through_of_whole (h : Whole size l counts) :
    through size l counts = l.take (size * counts.length) := by
  induction counts generalizing l with
  | nil => rw [through, List.length_nil, Nat.mul_zero, List.take_zero]
  | cons n counts ih =>
    obtain ⟨hn, h⟩ := whole_cons.1 h
    have hpiece : (l.take size).take n = l.take size :=
      List.take_of_length_le (by rw [List.length_take, Nat.min_comm]; exact hn)
    rw [through, ih h, hpiece, List.length_cons, Nat.mul_succ, Nat.add_comm, List.take_add]

theorem length_through_le (l : List α) (counts : List ℕ) : (through size l counts).length ≤ l.length := by
  induction counts generalizing l with
  | nil => exact Nat.zero_le _
  | cons n counts ih =>
    have hrest := ih (l.drop size)
    rw [through, List.length_append, List.length_take, List.length_take]
    rw [List.length_drop] at hrest
    omega

/-- If nothing is missing, every piece got through. -/
theorem whole_of_length (h : (through size l counts).length = l.length) : Whole size l counts := by
  induction counts generalizing l with
  | nil => exact nofun
  | cons n counts ih =>
    have hrest := @length_through_le α size (l.drop size) counts
    rw [through, List.length_append, List.length_take, List.length_take] at h
    refine whole_cons.2 ⟨?_, ih (Nat.le_antisymm hrest ?_)⟩
    · rw [List.length_drop] at hrest
      omega
    · rw [List.length_drop] at hrest ⊢
      omega

end Webserv.Pieces
