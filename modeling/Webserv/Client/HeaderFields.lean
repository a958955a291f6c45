import Webserv.Client.Header

/-!
# The fields of a header

`_fillHeaders` reads a field from every line, a name and a value (`field?`), and stores it unless it has
stored one of that name. So it accepts lines that all have a field, with distinct names
(`fillHeaders_accepts`), and the map it leaves has these fields (`lookup_fillHeaders`), in whichever
order the lines come (`fillHeaders_perm`).
-/

namespace Webserv.Client

open Search Utils

/-- The field of a header line, as `_fillHeaders` stores it; `none` if the line is malformed. -/
def field? (line : Bytes) : Option (Bytes × Bytes) :=
  match find (bytes ":") line with
  | none => none
  | some i =>
    if i = 0 then none
    else some (headerKey (line.take i), trim (line.drop (i + 1)) (bytes " \t"))

/-- The fields of the lines that have one. -/
def fieldsOf (lines : List Bytes) : List (Bytes × Bytes) := lines.filterMap field?

/-- A line has the given field: a name before its first colon, which is upper-cased and `-` replaced by
`_`, and a value after it, without the blanks around it. -/
def IsField (line : Bytes) (field : Bytes × Bytes) : Prop :=
  ∃ name rest, line = name ++ ch ':' :: rest ∧ name ≠ [] ∧ ch ':' ∉ name ∧
    field = (headerKey name, trim rest (bytes " \t"))

theorem field?_iff {line : Bytes} {field : Bytes × Bytes} :
    field? line = some field ↔ IsField line field := by
  have hcolon : bytes ":" = [ch ':'] := by decide
  unfold field?
  constructor
  · intro h
    split at h
    · cases h
    · rename_i i hfind
      split_ifs at h with hzero
      cases h
      obtain ⟨hle, ⟨rest, hrest⟩, hfirst⟩ := find_eq_some hfind
      rw [hcolon, List.singleton_append] at hrest
      have hlength := congrArg List.length hrest
      rw [List.length_cons, List.length_drop] at hlength
      refine ⟨line.take i, rest, ?_, ?_, ?_, ?_⟩
      · rw [hrest, List.take_append_drop]
      · rw [← List.length_pos_iff, List.length_take]
        omega
      · intro hmem
        obtain ⟨j, hj, hget⟩ := List.mem_iff_getElem.1 hmem
        rw [List.length_take] at hj
        rw [List.getElem_take] at hget
        refine hfirst j (by omega) ?_
        rw [List.drop_eq_getElem_cons (by omega), hget, hcolon]
        exact List.prefix_append _ _
      · rw [← List.drop_drop, ← hrest, List.drop_one, List.tail_cons]
  · rintro ⟨name, rest, rfl, hne, hname, rfl⟩
    have hfind : find (bytes ":") (name ++ ch ':' :: rest) = some name.length := by
      rw [hcolon]
      exact find_singleton_append hname rest
    rw [hfind]
    dsimp only
    rw [if_neg fun h => hne (List.length_eq_zero_iff.1 h), List.take_left, ← List.drop_drop,
      List.drop_left, List.drop_one, List.tail_cons]

/-- The fields are those of the lines, one for each. -/
theorem forall₂_fieldsOf {lines : List Bytes} (h : ∀ l ∈ lines, (field? l).isSome = true) :
    List.Forall₂ IsField lines (fieldsOf lines) := by
  induction lines with
  | nil => exact .nil
  | cons line lines ih =>
    obtain ⟨hline, hlines⟩ := List.forall_mem_cons.1 h
    obtain ⟨field, hfield⟩ := Option.isSome_iff_exists.1 hline
    have hcons : fieldsOf (line :: lines) = field :: fieldsOf lines := List.filterMap_cons_some hfield
    rw [hcons]
    exact .cons (field?_iff.1 hfield) (ih hlines)

theorem eq_fieldsOf {lines : List Bytes} {fields : List (Bytes × Bytes)}
    (h : List.Forall₂ IsField lines fields) :
    (∀ l ∈ lines, (field? l).isSome = true) ∧ fields = fieldsOf lines := by
  induction h with
  | nil => exact ⟨by simp, rfl⟩
  | @cons line field lines fields hfield _ ih =>
    have hfield' := field?_iff.2 hfield
    refine ⟨List.forall_mem_cons.2 ⟨by rw [hfield']; rfl, ih.1⟩, ?_⟩
    rw [ih.2]
    exact (List.filterMap_cons_some hfield').symm

theorem fillHeaders_cons (line : Bytes) (lines : List Bytes) (headers : Headers) :
    fillHeaders (line :: lines) headers =
      match field? line with
      | none => (false, headers)
      | some field =>
        if field.1 ∈ headers then (false, headers)
        else fillHeaders lines (headers.emplace field.1 field.2) := by
  rw [fillHeaders, field?]
  cases find (bytes ":") line with
  | none => rfl
  | some i =>
    dsimp only
    split_ifs with hzero hmem <;> simp [*]

/-- **What `_fillHeaders` accepts.** -/
theorem fillHeaders_accepts {lines : List Bytes} {headers : Headers} :
    (fillHeaders lines headers).1 = true ↔ (∀ line ∈ lines, (field? line).isSome = true) ∧
      ((fieldsOf lines).map Prod.fst).Nodup ∧ ∀ field ∈ fieldsOf lines, field.1 ∉ headers := by
  induction lines generalizing headers with
  | nil => simp [fillHeaders, fieldsOf]
  | cons line lines ih =>
    rw [fillHeaders_cons, List.forall_mem_cons]
    cases hfield : field? line with
    | none => simp
    | some field =>
      have hcons : fieldsOf (line :: lines) = field :: fieldsOf lines :=
        List.filterMap_cons_some hfield
      dsimp only
      rw [hcons, List.map_cons, List.nodup_cons, List.forall_mem_cons]
      split_ifs with hmem
      · simp [hmem]
      · have hnew : (∀ f ∈ fieldsOf lines, f.1 ∉ headers.emplace field.1 field.2) ↔
            field.1 ∉ (fieldsOf lines).map Prod.fst ∧ ∀ f ∈ fieldsOf lines, f.1 ∉ headers := by
          rw [Map.emplace_of_notMem hmem]
          simp only [Finmap.mem_insert, not_or, List.mem_map, not_exists, not_and]
          exact ⟨fun h => ⟨fun f hf => (h f hf).1, fun f hf => (h f hf).2⟩,
            fun h f hf => ⟨h.1 f hf, h.2 f hf⟩⟩
        rw [ih, hnew]
        simp only [Option.isSome_some, true_and, hmem, not_false_eq_true]
        tauto

/-- **The map that `_fillHeaders` leaves**, if it accepts the lines. -/
theorem lookup_fillHeaders {lines : List Bytes} {headers : Headers}
    (h : (fillHeaders lines headers).1 = true) {key value : Bytes} :
    (fillHeaders lines headers).2.lookup key = some value ↔
      (key, value) ∈ fieldsOf lines ∨ headers.lookup key = some value := by
  induction lines generalizing headers with
  | nil => simp [fillHeaders, fieldsOf]
  | cons line lines ih =>
    rw [fillHeaders_cons] at h ⊢
    cases hfield : field? line with
    | none => simp [hfield] at h
    | some field =>
      rw [hfield] at h
      have hcons : fieldsOf (line :: lines) = field :: fieldsOf lines :=
        List.filterMap_cons_some hfield
      dsimp only at h ⊢
      split_ifs at h ⊢ with hmem
      have hnone : headers.lookup field.1 = none := Finmap.lookup_eq_none.2 hmem
      rw [ih h, hcons, List.mem_cons, Map.emplace_of_notMem hmem, Map.lookup_insert_eq]
      split_ifs with hkey
      · subst hkey
        rw [hnone]
        constructor
        · rintro (hin | hvalue)
          · exact .inl (.inr hin)
          · exact .inl (.inl (Prod.ext rfl (Option.some.inj hvalue).symm))
        · rintro ((heq | hin) | hvalue)
          · exact .inr (by rw [← heq])
          · exact .inl hin
          · cases hvalue
      · constructor
        · rintro (hin | hvalue)
          · exact .inl (.inr hin)
          · exact .inr hvalue
        · rintro ((heq | hin) | hvalue)
          · exact absurd (congrArg Prod.fst heq) hkey
          · exact .inl hin
          · exact .inr hvalue

/-- **The order of the lines does not matter.** -/
theorem fillHeaders_perm {lines lines' : List Bytes} (hperm : lines.Perm lines') (headers : Headers) :
    (fillHeaders lines headers).1 = (fillHeaders lines' headers).1 ∧
      ((fillHeaders lines headers).1 = true →
        (fillHeaders lines headers).2 = (fillHeaders lines' headers).2) := by
  have hfields : (fieldsOf lines).Perm (fieldsOf lines') := hperm.filterMap field?
  have haccepts : (fillHeaders lines headers).1 = (fillHeaders lines' headers).1 := by
    rw [Bool.eq_iff_iff, fillHeaders_accepts, fillHeaders_accepts, (hfields.map _).nodup_iff]
    simp only [hperm.mem_iff, hfields.mem_iff]
  refine ⟨haccepts, fun h => Finmap.ext_lookup fun key => Option.ext fun value => ?_⟩
  rw [lookup_fillHeaders h, lookup_fillHeaders (haccepts ▸ h), hfields.mem_iff]

end Webserv.Client
