import Mathlib.Algebra.Order.Ring.Int
import Mathlib.Data.List.DropRight
import Webserv.Foundations.Search

/-!
# Byte strings and `Utils`

A `std::string` is a list of bytes. This module embeds the helpers of `Utils.cpp` and `Utils.tpp`
that the request and response code is written with.
-/

namespace Webserv

open Search

/-- A `std::string`: a sequence of bytes. -/
abbrev Bytes := List UInt8

/-- The byte of a character literal. -/
def ch (c : Char) : UInt8 := UInt8.ofNat c.toNat

/-- The bytes of a string literal. -/
def bytes (s : String) : Bytes := s.toList.map ch

/-- The line end `"\r\n"`. -/
def crlf : Bytes := [13, 10]

/-- `std::to_string` of a number. -/
def decimal (n : ℕ) : Bytes := bytes (toString n)

/-- The number of values of a `size_t`. -/
def sizeModulus : ℕ := 2 ^ 64

namespace Utils

/-- `Utils::startsWith`. -/
def startsWith (haystack needle : Bytes) : Bool := needle.isPrefixOf haystack

/-- `Utils::ltrim`. -/
def ltrim (s t : Bytes) : Bytes := s.dropWhile (t.contains ·)

/-- `Utils::rtrim`. -/
def rtrim (s t : Bytes) : Bytes := s.rdropWhile (t.contains ·)

/-- `Utils::trim`. -/
def trim (s t : Bytes) : Bytes := ltrim (rtrim s t) t

/-- `::toupper` in the C locale. -/
def toupper (b : UInt8) : UInt8 := if ch 'a' ≤ b ∧ b ≤ ch 'z' then b - 32 else b

/-- `Utils::upper`. -/
def upper (str : Bytes) : Bytes := str.map toupper

/-- The loop of `Utils::replaceAll`, from the position `startPos` on. -/
def replaceFrom (needle replacement : Bytes) : ℕ → Bytes → ℕ → Bytes
  | 0, input, _ => input
  | fuel + 1, input, startPos =>
    match find needle (input.drop startPos) with
    | none => input
    | some i =>
      let pos := startPos + i
      replaceFrom needle replacement fuel
        (input.take pos ++ replacement ++ input.drop (pos + needle.length))
        (pos + replacement.length)

/-- `Utils::replaceAll`: every round uses up an occurrence of the needle, so a non-empty needle
occurs at most `input.length` times. -/
def replaceAll (input needle replacement : Bytes) : Bytes :=
  replaceFrom needle replacement (input.length + 1) input 0

/-- The digit loop of `Utils::parseNumber`, with the number read so far. -/
def parseDigits (max : ℕ) : Bytes → ℕ → Bool × ℕ
  | [], number => (true, number)
  | chr :: rest, number =>
    if chr < ch '0' ∨ ch '9' < chr then (false, number)
    else
      let digit := chr.toNat - 48
      if max / 10 < number then (false, number)
      else if max - digit < number * 10 then (false, number * 10)
      else parseDigits max rest (number * 10 + digit)

/-- `Utils::parseNumber`: whether it succeeds, and the number as it leaves it. -/
def parseNumber (str : Bytes) (max : ℕ) : Bool × ℕ :=
  -- Leading zeros are not accepted
  if 2 ≤ str.length ∧ str.head? = some (ch '0') then (false, 0)
  else parseDigits max str 0

/-! ## Reading a number back -/

theorem decimal_eq (n : ℕ) : decimal n = (Nat.toDigits 10 n).map ch := by
  rw [decimal, bytes, Nat.toString_eq_repr, Nat.toList_repr]

theorem parseDigits_digit {max number d : ℕ} (hd : d < 10) (hle : number * 10 + d ≤ max)
    (rest : Bytes) :
    parseDigits max (ch (Nat.digitChar d) :: rest) number =
      parseDigits max rest (number * 10 + d) := by
  have hrange : ∀ d < 10, ¬ (ch (Nat.digitChar d) < ch '0' ∨ ch '9' < ch (Nat.digitChar d)) ∧
      (ch (Nat.digitChar d)).toNat - 48 = d := by decide
  obtain ⟨hdigit, hvalue⟩ := hrange d hd
  rw [parseDigits, if_neg hdigit]
  dsimp only
  rw [hvalue, if_neg (by omega), if_neg (by omega)]

/-- The digits of a number are read back. -/
theorem parseDigits_toDigits {max n : ℕ} (hn : n ≤ max) (rest : Bytes) :
    parseDigits max ((Nat.toDigits 10 n).map ch ++ rest) 0 = parseDigits max rest n := by
  induction n using Nat.strongRecOn generalizing rest with
  | ind n ih =>
  by_cases hlt : n < 10
  · rw [Nat.toDigits_of_lt_base hlt]
    have hdigit := parseDigits_digit hlt (by omega : 0 * 10 + n ≤ max) rest
    simpa using hdigit
  · rw [Nat.toDigits_of_base_le (by decide) (not_lt.1 hlt), List.map_append, List.append_assoc,
      ih (n / 10) (by omega) (by omega)]
    have hdigit := parseDigits_digit (Nat.mod_lt n (by decide : 10 > 0))
      (by omega : n / 10 * 10 + n % 10 ≤ max) rest
    rwa [Nat.div_add_mod'] at hdigit

theorem head_decimal {n : ℕ} (hn : 0 < n) : (decimal n).head? ≠ some (ch '0') := by
  rw [decimal_eq]
  induction n using Nat.strongRecOn with
  | ind n ih =>
  by_cases hlt : n < 10
  · rw [Nat.toDigits_of_lt_base hlt]
    have key : ∀ n < 10, 0 < n → ch (Nat.digitChar n) ≠ ch '0' := by decide
    simpa using key n hlt hn
  · rw [Nat.toDigits_of_base_le (by decide) (not_lt.1 hlt), List.map_append,
      List.head?_append_of_ne_nil _ (by simp [Nat.toDigits_ne_nil])]
    exact ih (n / 10) (by omega) (by omega)

/-- **A positive number that fits is read back** from its decimal digits. -/
theorem parseNumber_decimal {max n : ℕ} (hpos : 0 < n) (hn : n ≤ max) :
    parseNumber (decimal n) max = (true, n) := by
  rw [parseNumber, if_neg fun h => head_decimal hpos h.2, decimal_eq]
  simpa [parseDigits] using parseDigits_toDigits hn []

end Utils

end Webserv
