import Mathlib.Data.List.Infix
import Mathlib.Data.List.TakeWhile

/-!
# Environments of processes

The environment of a process is a list of strings, each a name, a separator and a value; a variable has
the value of the first string that begins with its name and the separator (`getenv`). The strings are
handed over with a terminator, so that the process sees each of them up to the first one (`cString`).
A name may have the separator in it: what such a variable says under a shorter name is `Says`.
-/

namespace Webserv.Environ

variable {α : Type} {nul sep : α} {s t name value : List α}

/-! ## Names -/

theorem isPrefix_iff {entry : List α} :
    name ++ [sep] <+: entry ↔ ∃ value, entry = name ++ sep :: value := by
  constructor
  · rintro ⟨value, rfl⟩
    exact ⟨value, by rw [List.append_assoc, List.singleton_append]⟩
  · rintro ⟨value, rfl⟩
    exact ⟨value, by rw [List.append_assoc, List.singleton_append]⟩

/-- Under which names without a separator a string is found. -/
theorem append_sep_eq_iff {other rest : List α} (h : sep ∉ name) :
    other ++ sep :: rest = name ++ sep :: value ↔
      (other = name ∧ rest = value) ∨
        ∃ more, other = name ++ sep :: more ∧ more ++ sep :: rest = value := by
  induction name generalizing other with
  | nil =>
    cases other with
    | nil => simp
    | cons a other =>
      constructor
      · intro heq
        cases heq
        exact .inr ⟨other, rfl, rfl⟩
      · rintro (⟨hnil, -⟩ | ⟨more, heq, rfl⟩)
        · cases hnil
        · cases heq
          rfl
  | cons b name ih =>
    have hb : sep ≠ b := fun heq => h (heq ▸ List.mem_cons_self)
    have hname : sep ∉ name := fun hmem => h (List.mem_cons_of_mem b hmem)
    cases other with
    | nil =>
      constructor
      · intro heq
        exact absurd (List.cons.inj heq).1 hb
      · rintro (⟨hnil, -⟩ | ⟨more, heq, -⟩)
        · cases hnil
        · cases heq
    | cons a other =>
      simp only [List.cons_append, List.cons.injEq, ih hname]
      constructor
      · rintro ⟨rfl, ⟨rfl, rfl⟩ | ⟨more, rfl, rfl⟩⟩
        · exact .inl ⟨⟨rfl, rfl⟩, rfl⟩
        · exact .inr ⟨more, ⟨rfl, rfl⟩, rfl⟩
      · rintro (⟨⟨rfl, rfl⟩, rfl⟩ | ⟨more, ⟨rfl, rfl⟩, rfl⟩)
        · exact ⟨rfl, .inl ⟨rfl, rfl⟩⟩
        · exact ⟨rfl, .inr ⟨more, rfl, rfl⟩⟩

variable [DecidableEq α]

/-! ## Terminated strings -/

/-- A string as far as it is seen. -/
def cString (nul : α) (s : List α) : List α := s.takeWhile (· ≠ nul)

theorem cString_append (h : nul ∉ s) (t : List α) : cString nul (s ++ t) = s ++ cString nul t :=
  List.takeWhile_append_of_pos fun _ ha => decide_eq_true fun heq => h (heq ▸ ha)

theorem cString_cons_of_ne {a : α} (h : a ≠ nul) (s : List α) :
    cString nul (a :: s) = a :: cString nul s :=
  List.takeWhile_cons_of_pos (decide_eq_true h)

/-- A string without a terminator is seen whole, where it is seen. -/
theorem prefix_cString_iff (h : nul ∉ t) : t <+: cString nul s ↔ t <+: s := by
  refine ⟨fun hprefix => hprefix.trans (List.takeWhile_prefix _), ?_⟩
  rintro ⟨rest, rfl⟩
  rw [cString_append h]
  exact List.prefix_append t _

/-! ## Variables -/

/-- The value of a variable. -/
def getenv (sep : α) : List (List α) → List α → Option (List α)
  | [], _ => none
  | entry :: env, name =>
    if name ++ [sep] <+: entry then some (entry.drop (name.length + 1)) else getenv sep env name

variable {env : List (List α)}

theorem getenv_cons_self (value : List α) (env : List (List α)) :
    getenv sep ((name ++ sep :: value) :: env) name = some value := by
  rw [getenv, if_pos (isPrefix_iff.2 ⟨value, rfl⟩), ← List.drop_drop, List.drop_left]
  rfl

theorem getenv_eq_none (h : ∀ value, name ++ sep :: value ∉ env) : getenv sep env name = none := by
  induction env with
  | nil => rfl
  | cons entry env ih =>
    have hhead : ¬ name ++ [sep] <+: entry := by
      intro hprefix
      obtain ⟨value, rfl⟩ := isPrefix_iff.1 hprefix
      exact h value List.mem_cons_self
    rw [getenv, if_neg hhead]
    exact ih fun value hvalue => h value (List.mem_cons_of_mem entry hvalue)

/-- If the strings of a name agree, their order does not matter. -/
theorem getenv_eq_of_forall (hmem : name ++ sep :: value ∈ env)
    (hall : ∀ value', name ++ sep :: value' ∈ env → value' = value) :
    getenv sep env name = some value := by
  induction env with
  | nil => cases hmem
  | cons entry env ih =>
    by_cases hhead : name ++ [sep] <+: entry
    · obtain ⟨value', rfl⟩ := isPrefix_iff.1 hhead
      rw [getenv_cons_self, hall value' List.mem_cons_self]
    · rw [getenv, if_neg hhead]
      have hne : name ++ sep :: value ≠ entry := fun heq => hhead (isPrefix_iff.2 ⟨value, heq.symm⟩)
      refine ih ((List.mem_cons.1 hmem).resolve_left hne) fun value' hvalue' => ?_
      exact hall value' (List.mem_cons_of_mem entry hvalue')

/-! ## Environments of variables -/

/-- The environment with the given variables. -/
def environ (nul sep : α) (vars : List (List α × List α)) : List (List α) :=
  vars.map fun v => cString nul (v.1 ++ sep :: v.2)

/-- The value that a variable gives to a name: its own, or a part of it and of its name. -/
inductive Says (nul sep : α) : List α × List α → List α → List α → Prop
  | self (name value : List α) : Says nul sep (name, value) name (cString nul value)
  | part (name more value : List α) :
    Says nul sep (name ++ sep :: more, value) name (cString nul (more ++ sep :: value))

variable {vars : List (List α × List α)} {v : List α × List α}

theorem cString_eq_iff (hne : sep ≠ nul) (hsep : sep ∉ name) (hnul : nul ∉ name) :
    cString nul (v.1 ++ sep :: v.2) = name ++ sep :: value ↔ Says nul sep v name value := by
  have hseen : ∀ value', cString nul (name ++ sep :: value') = name ++ sep :: cString nul value' := by
    intro value'
    rw [cString_append hnul, cString_cons_of_ne hne]
  constructor
  · intro heq
    have hnul' : nul ∉ name ++ [sep] := by
      rw [List.mem_append, List.mem_singleton]
      exact not_or.2 ⟨hnul, hne.symm⟩
    have hprefix := (prefix_cString_iff hnul').1 (heq ▸ isPrefix_iff.2 ⟨value, rfl⟩)
    obtain ⟨value', hvalue'⟩ := isPrefix_iff.1 hprefix
    rw [hvalue', hseen] at heq
    obtain rfl : cString nul value' = value := (List.cons.inj (List.append_cancel_left heq)).2
    obtain ⟨other, rest⟩ := v
    rcases (append_sep_eq_iff hsep).1 hvalue' with ⟨rfl, rfl⟩ | ⟨more, rfl, rfl⟩
    · exact .self other rest
    · exact .part name more rest
  · rintro (_ | _)
    · exact hseen _
    · rw [List.append_assoc, List.cons_append]
      exact hseen _

section

variable (hne : sep ≠ nul) (hsep : sep ∉ name) (hnul : nul ∉ name)

include hne hsep hnul

theorem mem_environ_iff :
    name ++ sep :: value ∈ environ nul sep vars ↔ ∃ v ∈ vars, Says nul sep v name value := by
  rw [environ, List.mem_map]
  exact exists_congr fun v => and_congr_right fun _ => cString_eq_iff hne hsep hnul

/-- The first variable is asked first. -/
theorem getenv_environ_cons (h : Says nul sep v name value) (vars : List (List α × List α)) :
    getenv sep (environ nul sep (v :: vars)) name = some value := by
  rw [environ, List.map_cons, (cString_eq_iff hne hsep hnul).2 h, getenv_cons_self]

/-- **If the variables agree on a name, their order does not matter.** -/
theorem getenv_environ_of_forall (hmem : ∃ v ∈ vars, Says nul sep v name value)
    (hall : ∀ v ∈ vars, ∀ value', Says nul sep v name value' → value' = value) :
    getenv sep (environ nul sep vars) name = some value := by
  refine getenv_eq_of_forall ((mem_environ_iff hne hsep hnul).2 hmem) fun value' hvalue' => ?_
  obtain ⟨v, hv, htold⟩ := (mem_environ_iff hne hsep hnul).1 hvalue'
  exact hall v hv value' htold

theorem getenv_environ_eq_none (h : ∀ v ∈ vars, ∀ value, ¬ Says nul sep v name value) :
    getenv sep (environ nul sep vars) name = none := by
  refine getenv_eq_none fun value hvalue => ?_
  obtain ⟨v, hv, htold⟩ := (mem_environ_iff hne hsep hnul).1 hvalue
  exact h v hv value htold

end

theorem says_iff : Says nul sep v name value ↔ (v.1 = name ∧ value = cString nul v.2) ∨
    ∃ more, v.1 = name ++ sep :: more ∧ value = cString nul (more ++ sep :: v.2) := by
  constructor
  · rintro (_ | ⟨_, more, _⟩)
    · exact .inl ⟨rfl, rfl⟩
    · exact .inr ⟨more, rfl, rfl⟩
  · obtain ⟨other, rest⟩ := v
    rintro (⟨rfl, rfl⟩ | ⟨more, rfl, rfl⟩)
    · exact .self other rest
    · exact .part name more rest

/-- A common beginning of names does not matter. -/
theorem says_append_iff {start : List α} :
    Says nul sep (start ++ v.1, v.2) (start ++ name) value ↔ Says nul sep v name value := by
  simp only [says_iff, List.append_assoc, List.append_cancel_left_eq]

end Webserv.Environ
