import Webserv.Foundations.Search

/-!
# Lines

Lines that are separated by a line end of two distinct elements, such as `"\r\n"`. A line is `Free` of line
ends; it may have either element in another place, also at its own end. Joined lines are taken apart again
(`split_join`), and the first blank line after them is where they end (`find_blank`).
-/

namespace Webserv.Lines

open Search

variable {α : Type*} {x y : α}

/-! ## Lists without a line end -/

/-- There is no line end in a list. -/
def Free (x y : α) (l : List α) : Prop := ¬ [x, y] <:+: l

theorem free_nil : Free x y [] := fun h => by simpa using h.length_le

theorem Free.within {l l' : List α} (h : Free x y l) (hpart : l' <:+: l) : Free x y l' :=
  fun h' => h (h'.trans hpart)

theorem Free.take {l : List α} (h : Free x y l) (n : ℕ) : Free x y (l.take n) :=
  h.within ( List.take_prefix n l).isInfix

theorem Free.drop {l : List α} (h : Free x y l) (n : ℕ) : Free x y (l.drop n) :=
  h.within (List.drop_suffix n l).isInfix

/-- Without the second element there is no line end. -/
theorem free_of_notMem {l : List α} (h : y ∉ l) : Free x y l := fun h' => h (h'.subset (by simp))

/-- Without the first element there is none either. -/
theorem free_of_notMem_left {l : List α} (h : x ∉ l) : Free x y l :=
  fun h' => h (h'.subset (by simp))

theorem free_cons {a : α} {l : List α} :
    Free x y (a :: l) ↔ ¬ (a = x ∧ l.head? = some y) ∧ Free x y l := by
  have hpair : [x, y] <+: a :: l ↔ a = x ∧ l.head? = some y := by
    rw [List.cons_prefix_cons]
    cases l with
    | nil => simp
    | cons b l => simp [List.cons_prefix_cons, eq_comm]
  rw [Free, List.infix_cons_iff, not_or, hpair]
  rfl

/-- Two parts make no line end if none is made where they meet. -/
theorem Free.append {l l' : List α} (h : Free x y l) (h' : Free x y l')
    (hmeet : l.getLast? = some x → l'.head? ≠ some y) : Free x y (l ++ l') := by
  induction l with
  | nil => exact h'
  | cons a l ih =>
    obtain ⟨hpair, hfree⟩ := free_cons.1 h
    cases l with
    | nil => exact free_cons.2 ⟨fun ⟨ha, hy⟩ => hmeet (by rw [ha]; rfl) hy, h'⟩
    | cons b l =>
      refine free_cons.2 ⟨hpair, ih hfree fun hlast => hmeet ?_⟩
      rw [List.getLast?_cons_cons]
      exact hlast

/-- Two parts with something between them that has no first element make none. -/
theorem Free.insert {l m l' : List α} (h : Free x y l) (h' : Free x y l') (hne : m ≠ [])
    (hx : x ∉ m) (hy : m.head? ≠ some y) : Free x y (l ++ m ++ l') := by
  refine Free.append (h.append (free_of_notMem_left hx) fun _ => hy) h' fun hlast => ?_
  rw [List.getLast?_append_of_ne_nil _ hne] at hlast
  exact absurd (List.mem_of_getLast? hlast) hx

/-- Nor does a part at the end that has no second element, -/
theorem Free.append_right {l l' : List α} (h : Free x y l) (h' : y ∉ l') : Free x y (l ++ l') :=
  h.append (free_of_notMem h') fun _ hhead => h' (List.mem_of_mem_head? hhead)

/-- and one at the start that has no first element. -/
theorem Free.append_left {l l' : List α} (h : x ∉ l) (h' : Free x y l') : Free x y (l ++ l') :=
  (free_of_notMem_left h).append h' fun hlast => absurd (List.mem_of_getLast? hlast) h

/-! ## Joining and splitting -/

variable [DecidableEq α]

/-- Lines with a line end between each two of them. -/
def join (x y : α) : List (List α) → List α
  | [] => []
  | [line] => line
  | line :: next :: lines => line ++ x :: y :: join x y (next :: lines)

/-- Split a list at its line ends. -/
def split (x y : α) : List α → List (List α)
  | [] => [[]]
  | [a] => [[a]]
  | a :: b :: l =>
    if a = x ∧ b = y then [] :: split x y l
    else
      match split x y (b :: l) with
      | [] => [[a]]
      | line :: lines => (a :: line) :: lines

theorem split_free {line : List α} (h : Free x y line) : split x y line = [line] := by
  induction line with
  | nil => rfl
  | cons a line ih =>
    obtain ⟨hpair, hfree⟩ := free_cons.1 h
    cases line with
    | nil => rfl
    | cons b line =>
      rw [split, if_neg fun hab => hpair ⟨hab.1, by simp [hab.2]⟩, ih hfree]

theorem split_append (hxy : x ≠ y) {line : List α} (h : Free x y line) (rest : List α) :
    split x y (line ++ x :: y :: rest) = line :: split x y rest := by
  induction line with
  | nil => rw [List.nil_append, split, if_pos ⟨rfl, rfl⟩]
  | cons a line ih =>
    obtain ⟨hpair, hfree⟩ := free_cons.1 h
    cases line with
    | nil =>
      have hrest := ih hfree
      rw [List.nil_append] at hrest
      rw [List.cons_append, List.nil_append, split, if_neg fun hab => hxy hab.2, hrest]
    | cons b line =>
      have hrest := ih hfree
      rw [List.cons_append] at hrest
      rw [List.cons_append, List.cons_append, split,
        if_neg fun hab => hpair ⟨hab.1, by simp [hab.2]⟩, hrest]

/-- **Joined lines are taken apart again.** -/
theorem split_join (hxy : x ≠ y) {lines : List (List α)} (hne : lines ≠ [])
    (h : ∀ line ∈ lines, Free x y line) : split x y (join x y lines) = lines := by
  induction lines with
  | nil => exact absurd rfl hne
  | cons line lines ih =>
    obtain ⟨hline, hlines⟩ := List.forall_mem_cons.1 h
    cases lines with
    | nil => exact split_free hline
    | cons next lines => rw [join, split_append hxy hline, ih (List.cons_ne_nil _ _) hlines]

/-! ## Blank lines -/

theorem not_pair_prefixed (hxy : x ≠ y) {line : List α} (h : Free x y line) (rest : List α) {j : ℕ}
    (hj : j < line.length) : ¬ [x, y, x, y] <+: (line ++ x :: y :: rest).drop j := by
  obtain ⟨-, -, hfirst⟩ := find_eq_some (find_pair_append hxy h rest)
  exact fun hblank => hfirst j hj ((List.prefix_append [x, y] [x, y]).trans hblank)

theorem pair_prefixed_join (hxy : x ≠ y) {line : List α} {lines : List (List α)} (h : Free x y line)
    (hne : line ≠ []) (t : List α) : ¬ [x, y] <+: join x y (line :: lines) ++ x :: y :: t := by
  have hstart : ∃ rest, join x y (line :: lines) ++ x :: y :: t = line ++ x :: y :: rest := by
    cases lines with
    | nil => exact ⟨t, rfl⟩
    | cons next lines => exact ⟨_, by rw [join, List.append_assoc]; rfl⟩
  obtain ⟨rest, hrest⟩ := hstart
  obtain ⟨-, -, hfirst⟩ := find_eq_some (find_pair_append hxy h rest)
  rw [hrest]
  exact hfirst 0 (List.length_pos_iff.2 hne)

/-- **The first blank line** after lines that are not empty, but for the first one. -/
theorem find_blank (hxy : x ≠ y) {line : List α} {lines : List (List α)}
    (h : ∀ l ∈ line :: lines, Free x y l) (hne : ∀ l ∈ lines, l ≠ []) (t : List α) :
    find [x, y, x, y] (join x y (line :: lines) ++ x :: y :: x :: y :: t) =
      some (join x y (line :: lines)).length := by
  induction lines generalizing line with
  | nil =>
    have hline := h line List.mem_cons_self
    refine find_eq_some_of (by simp [join]) (by simp [join]) fun j hj => ?_
    exact not_pair_prefixed hxy hline _ hj
  | cons next lines ih =>
    obtain ⟨hline, hlines⟩ := List.forall_mem_cons.1 h
    have hnext := hne next List.mem_cons_self
    have hrest := ih hlines fun l hl => hne l (List.mem_cons_of_mem _ hl)
    have hdrop : ∀ rest : List α, (line ++ x :: y :: rest).drop (line.length + 2) = rest := by simp
    rw [join, List.append_assoc, List.cons_append, List.cons_append,
      find_skip (line.length + 2) (by simp), hdrop, hrest]
    · simp only [Option.map_some, List.length_append, List.length_cons]
      congr 1
      omega
    · -- a match would start in the line, at its line end, or in the middle of that
      intro j hj hblank
      rcases Nat.lt_trichotomy j line.length with hlt | rfl | hgt
      · exact not_pair_prefixed hxy hline _ hlt hblank
      · rw [List.drop_left] at hblank
        simp only [List.cons_prefix_cons, true_and] at hblank
        exact pair_prefixed_join hxy (hlines next List.mem_cons_self) hnext _ hblank
      · obtain rfl : j = line.length + 1 := by omega
        rw [List.drop_append] at hblank
        simp only [List.drop_of_length_le (Nat.le_succ _), List.nil_append, Nat.add_sub_cancel_left,
          List.drop_succ_cons, List.drop_zero, List.cons_prefix_cons] at hblank
        exact hxy hblank.1

end Webserv.Lines
