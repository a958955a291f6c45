import Mathlib.Data.List.Basic
import Mathlib.Data.List.Infix

/-!
# Lexical paths

What a path denotes, if there are no links: the names on the way down to it from the root of the tree.
A name goes down, the name of the parent goes up (and stays at the root), and empty names and the name
of the current directory stay where they are. A relative path starts at the working directory.
-/

namespace LexicalPath

variable {α : Type} [DecidableEq α]

/-- How paths are written. -/
structure Spelling (α : Type) where
  sep : α
  self : List α
  parent : List α
  sep_self : sep ∉ self
  sep_parent : sep ∉ parent
  self_ne : self ≠ []

/-- A place in the tree: the names on the way down to it. -/
abbrev Place (α : Type) := List (List α)

variable (N : Spelling α)

/-- The names in a path that lead somewhere. -/
def names (path : List α) : List (List α) :=
  (path.splitOn N.sep).filter fun name => name ≠ [] ∧ name ≠ N.self

/-- Follow a name. -/
def follow (place : Place α) (name : List α) : Place α :=
  if name = N.parent then place.dropLast else place ++ [name]

/-- Follow names, one after another. -/
def walk (place : Place α) (names : List (List α)) : Place α := names.foldl (follow N) place

/-- Whether a path starts at the root. -/
def IsAbsolute (path : List α) : Prop := path.head? = some N.sep

instance (path : List α) : Decidable (IsAbsolute N path) := inferInstanceAs (Decidable (_ = _))

/-- The place a path denotes, seen from a working directory. -/
def denotes (cwd : Place α) (path : List α) : Place α :=
  walk N (if IsAbsolute N path then [] else cwd) (names N path)

/-- The path of a place. -/
def render (place : Place α) : List α :=
  if place = [] then [N.sep] else place.flatMap fun name => N.sep :: name

/-- A name that goes down. -/
structure IsName (name : List α) : Prop where
  sep_notMem : N.sep ∉ name
  ne_nil : name ≠ []
  ne_self : name ≠ N.self
  ne_parent : name ≠ N.parent

variable {N} {cwd place : Place α} {path path' : List α}

/-! ## Names -/

theorem names_cons_sep (path : List α) : names N (N.sep :: path) = names N path := by
  have hsplit : (N.sep :: path).splitOn N.sep = [] :: path.splitOn N.sep := by
    have hsep : (N.sep == N.sep) = true := by simp
    have h := List.splitOnP_append_cons (p := (· == N.sep)) [] path hsep
    simpa [List.splitOn] using h
  rw [names, hsplit]
  simp [names]

/-- The names of two paths with a separator between them. -/
theorem names_append (path : List α) (h : IsAbsolute N path') :
    names N (path ++ path') = names N path ++ names N path' := by
  obtain ⟨rest, rfl⟩ := List.head?_eq_some_iff.1 h
  have hsplit : (path ++ N.sep :: rest).splitOn N.sep =
      path.splitOn N.sep ++ rest.splitOn N.sep :=
    List.splitOnP_append_cons (p := (· == N.sep)) path rest (by simp)
  rw [names_cons_sep, names, hsplit, List.filter_append]
  rfl

theorem sep_notMem_of_mem_splitOn {name : List α} {sep : α} (h : name ∈ path.splitOn sep) :
    sep ∉ name := by
  induction path generalizing name with
  | nil =>
    rw [List.splitOn_nil, List.mem_singleton] at h
    simp [h]
  | cons a path ih =>
    rw [List.splitOn, List.splitOnP_cons_eq_if_modifyHead] at h
    split_ifs at h with ha
    · rcases List.mem_cons.1 h with rfl | h
      · simp
      · exact ih h
    · cases hsplit : path.splitOnP (· == sep) with
      | nil => simp [hsplit] at h
      | cons first rest =>
        have hall : ∀ name ∈ first :: rest, sep ∉ name := by
          rw [← hsplit]
          exact fun name => ih
        rw [hsplit, List.modifyHead_cons, List.mem_cons] at h
        rcases h with rfl | h
        · have hne : sep ≠ a := fun heq => ha (by simp [heq])
          simpa [hne] using hall first (by simp)
        · exact hall name (by simp [h])

theorem mem_names {name : List α} (h : name ∈ names N path) :
    N.sep ∉ name ∧ name ≠ [] ∧ name ≠ N.self := by
  rw [names, List.mem_filter] at h
  exact ⟨sep_notMem_of_mem_splitOn h.1, by simpa using h.2⟩

/-! ## Places -/

theorem walk_append (place : Place α) (ns ns' : List (List α)) :
    walk N place (ns ++ ns') = walk N (walk N place ns) ns' := List.foldl_append

/-- Names that go down are added to the place. -/
theorem walk_of_ne_parent {ns : List (List α)} (h : ∀ name ∈ ns, name ≠ N.parent) :
    walk N place ns = place ++ ns := by
  induction ns generalizing place with
  | nil => simp [walk]
  | cons name ns ih =>
    have hfirst : follow N place name = place ++ [name] := if_neg (h name (by simp))
    have hrest : walk N (place ++ [name]) ns = place ++ [name] ++ ns :=
      ih fun n hn => h n (by simp [hn])
    rw [walk, List.foldl_cons, hfirst]
    exact hrest.trans (by simp)

/-- A path that goes on after a separator. -/
theorem denotes_append (hne : path ≠ []) (h : IsAbsolute N path') :
    denotes N cwd (path ++ path') = walk N (denotes N cwd path) (names N path') := by
  have habsolute : IsAbsolute N (path ++ path') ↔ IsAbsolute N path := by
    cases path with
    | nil => exact absurd rfl hne
    | cons a path => simp [IsAbsolute]
  simp only [denotes, names_append path h, walk_append, habsolute]

/-- A separator at the end changes nothing. -/
theorem denotes_append_sep (hne : path ≠ []) :
    denotes N cwd (path ++ [N.sep]) = denotes N cwd path := by
  have hnone : names N [N.sep] = [] := by
    rw [names_cons_sep]
    simp [names]
  have habsolute : IsAbsolute N [N.sep] := rfl
  rw [denotes_append hne habsolute, hnone]
  rfl

/-- What is on the way down to a place is made of names. -/
theorem isName_of_mem_walk {ns : List (List α)} (hplace : ∀ name ∈ place, IsName N name)
    (hns : ∀ name ∈ ns, N.sep ∉ name ∧ name ≠ [] ∧ name ≠ N.self) :
    ∀ name ∈ walk N place ns, IsName N name := by
  induction ns generalizing place with
  | nil => exact hplace
  | cons first ns ih =>
    refine ih ?_ fun name hname => hns name (by simp [hname])
    intro name hname
    rw [follow] at hname
    split_ifs at hname with hparent
    · exact hplace name (List.mem_of_mem_dropLast hname)
    · rcases List.mem_append.1 hname with hname | hname
      · exact hplace name hname
      · obtain rfl := List.mem_singleton.1 hname
        obtain ⟨hsep, hne, hself⟩ := hns name (by simp)
        exact ⟨hsep, hne, hself, hparent⟩

theorem isName_of_mem_denotes (hcwd : ∀ name ∈ cwd, IsName N name) :
    ∀ name ∈ denotes N cwd path, IsName N name := by
  refine isName_of_mem_walk ?_ fun name hname => mem_names hname
  split_ifs
  · simp
  · exact hcwd

/-! ## The path of a place -/

omit [DecidableEq α] in
theorem isAbsolute_render (place : Place α) : IsAbsolute N (render N place) := by
  cases place with
  | nil => rfl
  | cons name place => simp [render, IsAbsolute]

theorem names_name {name : List α} (h : IsName N name) : names N (N.sep :: name) = [name] := by
  rw [names_cons_sep, names, List.splitOn_eq_singleton h.sep_notMem]
  simp [h.ne_nil, h.ne_self]

theorem names_flatMap (h : ∀ name ∈ place, IsName N name) :
    names N (place.flatMap fun name => N.sep :: name) = place := by
  induction place using List.reverseRecOn with
  | nil => simp [names]
  | append_singleton place name ih =>
    have hlast : IsName N name := h name (by simp)
    have habsolute : IsAbsolute N (N.sep :: name) := rfl
    rw [List.flatMap_append, List.flatMap_singleton, names_append _ habsolute,
      ih fun n hn => h n (by simp [hn]), names_name hlast]

/-- **The path of a place has its names.** -/
theorem names_render (h : ∀ name ∈ place, IsName N name) : names N (render N place) = place := by
  rw [render]
  split_ifs with hnil
  · subst hnil
    rw [names_cons_sep]
    simp [names]
  · exact names_flatMap h

/-- **The path of a place denotes it.** -/
theorem denotes_render (h : ∀ name ∈ place, IsName N name) :
    denotes N cwd (render N place) = place := by
  rw [denotes, if_pos (isAbsolute_render place), names_render h,
    walk_of_ne_parent fun name hname => (h name hname).ne_parent, List.nil_append]

end LexicalPath
