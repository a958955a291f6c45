import Mathlib.Data.Finmap

/-!
# Finite maps

An unordered map is a `Finmap` with a constant family of values: it has no order, its keys are
unique, and two maps with the same lookups are equal. `insert` overwrites and `emplace` keeps the
value of a key that is already there.
-/

namespace Webserv

/-- A finite map from `κ` to `ν`. -/
abbrev Map (κ ν : Type) := Finmap fun _ : κ => ν

namespace Map

variable {κ ν : Type} [DecidableEq κ]

/-- Insert a value unless the key is already there. -/
def emplace (k : κ) (v : ν) (m : Map κ ν) : Map κ ν := if k ∈ m then m else m.insert k v

theorem lookup_insert_eq (m : Map κ ν) (k k' : κ) (v : ν) :
    (m.insert k v).lookup k' = if k' = k then some v else m.lookup k' := by
  split
  · rename_i h
    rw [h, Finmap.lookup_insert]
  · rename_i h
    rw [Finmap.lookup_insert_of_ne _ h]

theorem lookup_erase_eq (m : Map κ ν) (k k' : κ) :
    (m.erase k).lookup k' = if k' = k then none else m.lookup k' := by
  split
  · rename_i h
    rw [h, Finmap.lookup_erase]
  · rename_i h
    rw [Finmap.lookup_erase_ne h]

/-- Emplacing a new key inserts it. -/
theorem emplace_of_notMem {m : Map κ ν} {k : κ} (h : k ∉ m) (v : ν) :
    m.emplace k v = m.insert k v := if_neg h

/-- Emplacing an old key does nothing. -/
theorem emplace_of_mem {m : Map κ ν} {k : κ} (h : k ∈ m) (v : ν) : m.emplace k v = m := if_pos h

theorem mem_of_lookup {m : Map κ ν} {k : κ} {v : ν} (h : m.lookup k = some v) : k ∈ m :=
  Finmap.mem_iff.2 ⟨v, h⟩

/-! ## Going through a map -/

/-- The entries of a map, each once, in some order. -/
def Lists (entries : List (κ × ν)) (m : Map κ ν) : Prop :=
  (entries.map Prod.fst).Nodup ∧ ∀ k v, (k, v) ∈ entries ↔ m.lookup k = some v

/-- Every entry of a map comes first in some order. -/
theorem exists_lists {m : Map κ ν} {k : κ} {v : ν} (h : m.lookup k = some v) :
    ∃ entries, Lists ((k, v) :: entries) m := by
  induction m using Finmap.induction_on with
  | H a =>
    have hmem : ∀ k v, (k, v) ∈ a.entries.map (fun e => (e.1, e.2)) ↔ a.lookup k = some v := by
      intro k v
      rw [List.mem_map]
      constructor
      · rintro ⟨⟨k', v'⟩, he, heq⟩
        cases heq
        exact AList.mem_lookup_iff.2 he
      · exact fun hlookup => ⟨⟨k, v⟩, AList.mem_lookup_iff.1 hlookup, rfl⟩
    obtain ⟨before, after, hsplit⟩ := List.append_of_mem ((hmem k v).2 h)
    have hperm : (a.entries.map fun e => (e.1, e.2)).Perm ((k, v) :: (before ++ after)) :=
      hsplit ▸ List.perm_middle
    refine ⟨before ++ after, ?_, fun k' v' => ?_⟩
    · rw [← (hperm.map Prod.fst).nodup_iff, List.map_map]
      exact a.keys_nodup
    · rw [← hperm.mem_iff]
      exact hmem k' v'

end Map

end Webserv
