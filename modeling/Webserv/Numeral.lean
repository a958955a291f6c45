import Webserv.Utils

/-!
# Numerals

What `Utils::parseNumber` accepts: decimal numerals without superfluous leading zeros that denote a
number up to the bound (`IsNumeral`), and the empty string, which it reads as zero
(`parseNumber_iff`). `parseNumber` is a template: in any integer type that can hold the bound it
computes the same, since none of its results leaves the range up to the bound (`parseNumberIn_exact`).
-/

namespace Webserv.Utils

/-- A decimal digit. -/
def IsDigit (b : UInt8) : Prop := ch '0' ≤ b ∧ b ≤ ch '9'

instance (b : UInt8) : Decidable (IsDigit b) := inferInstanceAs (Decidable (_ ∧ _))

theorem IsDigit.ne {b c : UInt8} (hb : IsDigit b) (hc : ¬ IsDigit c) : b ≠ c := fun h => hc (h ▸ hb)

/-- The number that digits denote after those of `n`. -/
def valueFrom (n : ℕ) (digits : Bytes) : ℕ := digits.foldl (fun n b => n * 10 + (b.toNat - 48)) n

/-- One or more digits without a superfluous leading zero, which denote `n`. -/
structure IsNumeral (str : Bytes) (n : ℕ) : Prop where
  nonempty : str ≠ []
  digits : ∀ b ∈ str, IsDigit b
  leading : str.head? = some (ch '0') → str.length = 1
  value : valueFrom 0 str = n

theorem valueFrom_cons (n : ℕ) (b : UInt8) (digits : Bytes) :
    valueFrom n (b :: digits) = valueFrom (n * 10 + (b.toNat - 48)) digits := by
  rw [valueFrom, List.foldl_cons]
  rfl

theorem le_valueFrom (n : ℕ) (digits : Bytes) : n ≤ valueFrom n digits := by
  induction digits generalizing n with
  | nil => exact le_rfl
  | cons b digits ih =>
    calc n ≤ n * 10 + (b.toNat - 48) := by omega
      _ ≤ valueFrom n (b :: digits) := ih _

theorem isDigit_iff {b : UInt8} : IsDigit b ↔ ¬ (b < ch '0' ∨ ch '9' < b) := by
  rw [not_or, UInt8.not_lt, UInt8.not_lt]
  rfl

theorem toNat_sub_le {b : UInt8} (h : IsDigit b) : b.toNat - 48 ≤ 9 := by
  have hle : b.toNat ≤ 57 := UInt8.le_iff_toNat_le.1 h.2
  omega

/-- The digit loop reads digits that denote a number up to the bound, and nothing else. -/
theorem parseDigits_iff {max : ℕ} (hmax : 9 ≤ max) {str : Bytes} {number n : ℕ} (hle : number ≤ max) :
    parseDigits max str number = (true, n) ↔
      (∀ b ∈ str, IsDigit b) ∧ valueFrom number str = n ∧ n ≤ max := by
  induction str generalizing number with
  | nil =>
    rw [parseDigits]
    constructor
    · rintro ⟨⟩
      exact ⟨by simp, rfl, hle⟩
    · rintro ⟨-, rfl, -⟩
      rfl
  | cons b str ih =>
    rw [parseDigits, List.forall_mem_cons, valueFrom_cons]
    by_cases hdigit : IsDigit b
    · have hsub := toNat_sub_le hdigit
      have hbound := le_valueFrom (number * 10 + (b.toNat - 48)) str
      rw [if_neg (isDigit_iff.1 hdigit)]
      dsimp only
      split_ifs with hmul hadd
      · -- the number does not fit after the multiplication
        refine iff_of_false (by simp) ?_
        rintro ⟨-, rfl, hn⟩
        omega
      · refine iff_of_false (by simp) ?_
        rintro ⟨-, rfl, hn⟩
        omega
      · rw [ih (by omega)]
        simp [hdigit]
    · rw [if_pos (by_contra fun h => hdigit (isDigit_iff.2 h))]
      simp [hdigit]

/-- **What `parseNumber` accepts**: numerals of numbers up to the bound, and the empty string. -/
theorem parseNumber_iff {max : ℕ} (hmax : 9 ≤ max) {str : Bytes} {n : ℕ} :
    parseNumber str max = (true, n) ↔ IsNumeral str n ∧ n ≤ max ∨ str = [] ∧ n = 0 := by
  unfold parseNumber
  split_ifs with hzero
  · refine iff_of_false (by simp) ?_
    rintro (⟨hnumeral, -⟩ | ⟨rfl, -⟩)
    · have hone := hnumeral.leading hzero.2
      omega
    · simp at hzero
  · rw [parseDigits_iff hmax (Nat.zero_le _)]
    constructor
    · rintro ⟨hdigits, hvalue, hle⟩
      by_cases hnil : str = []
      · subst hnil
        exact .inr ⟨rfl, hvalue.symm⟩
      · refine .inl ⟨⟨hnil, hdigits, fun hhead => ?_, hvalue⟩, hle⟩
        have hpos := List.length_pos_iff.2 hnil
        by_contra hne
        exact hzero ⟨by omega, hhead⟩
    · rintro (⟨hnumeral, hle⟩ | ⟨rfl, rfl⟩)
      · exact ⟨hnumeral.digits, hnumeral.value, hle⟩
      · exact ⟨by simp, rfl, Nat.zero_le _⟩

theorem parseNumber_fst {max : ℕ} (hmax : 9 ≤ max) {str : Bytes} :
    (parseNumber str max).1 = true ↔ (∃ n, IsNumeral str n ∧ n ≤ max) ∨ str = [] := by
  constructor
  · intro h
    have heq : parseNumber str max = (true, (parseNumber str max).2) := Prod.ext h rfl
    rcases (parseNumber_iff hmax).1 heq with hnumeral | ⟨hnil, -⟩
    · exact .inl ⟨_, hnumeral⟩
    · exact .inr hnil
  · rintro (⟨n, hnumeral⟩ | rfl)
    · rw [(parseNumber_iff hmax).2 (.inl hnumeral)]
    · rfl

/-! ## In an integer type -/

/-- The digit loop of `Utils::parseNumber<T>`, where `wrap` is what `T` makes of the result of an
operation. The results of the operations are returned, too. -/
def parseDigitsIn (wrap : ℤ → ℤ) (max : ℤ) : Bytes → ℤ → (Bool × ℤ) × List ℤ
  | [], number => ((true, number), [])
  | chr :: rest, number =>
    if chr < ch '0' ∨ ch '9' < chr then ((false, number), [])
    else
      let digit : ℤ := chr.toNat - 48
      if max / 10 < number then ((false, number), [])
      else
        let tenfold := number * 10
        let room := max - digit
        if wrap room < wrap tenfold then ((false, wrap tenfold), [tenfold, room])
        else
          let sum := wrap tenfold + digit
          let (result, results) := parseDigitsIn wrap max rest (wrap sum)
          (result, tenfold :: room :: sum :: results)

/-- `Utils::parseNumber<T>`. -/
def parseNumberIn (wrap : ℤ → ℤ) (str : Bytes) (max : ℤ) : (Bool × ℤ) × List ℤ :=
  -- Leading zeros are not accepted
  if 2 ≤ str.length ∧ str.head? = some (ch '0') then ((false, 0), [])
  else parseDigitsIn wrap max str 0

section InType

variable {wrap : ℤ → ℤ} {max : ℕ} (hmax : 9 ≤ max) (hwrap : ∀ x : ℤ, 0 ≤ x → x ≤ max → wrap x = x)

include hmax hwrap

/-- No result of the loop leaves the range, so the type does not matter. -/
theorem parseDigitsIn_eq (str : Bytes) {number : ℕ} (hle : number ≤ max) :
    (∀ r ∈ (parseDigitsIn wrap max str number).2, 0 ≤ r ∧ r ≤ (max : ℤ)) ∧
      (parseDigitsIn wrap max str number).1 =
        ((parseDigits max str number).1, ((parseDigits max str number).2 : ℤ)) := by
  induction str generalizing number with
  | nil => exact ⟨by simp [parseDigitsIn], rfl⟩
  | cons chr rest ih =>
    rw [parseDigitsIn, parseDigits]
    by_cases hdigit : IsDigit chr
    · have hrange := isDigit_iff.1 hdigit
      have h48 : 48 ≤ chr.toNat := UInt8.le_iff_toNat_le.1 hdigit.1
      have h9 := toNat_sub_le hdigit
      rw [if_neg hrange, if_neg hrange]
      dsimp only
      by_cases hdiv : max / 10 < number
      · rw [if_pos (by omega), if_pos hdiv]
        exact ⟨by simp, rfl⟩
      · have htenfold : wrap (number * 10) = number * 10 := hwrap _ (by omega) (by omega)
        have hroom : wrap (max - (chr.toNat - 48)) = max - (chr.toNat - 48) :=
          hwrap _ (by omega) (by omega)
        rw [if_neg (by omega), if_neg hdiv, htenfold, hroom]
        by_cases hsub : max - (chr.toNat - 48) < number * 10
        · rw [if_pos (by omega), if_pos hsub]
          refine ⟨fun r hr => ?_, by push_cast; rfl⟩
          simp only [List.mem_cons, List.not_mem_nil, or_false] at hr
          rcases hr with rfl | rfl <;> omega
        · have hsum : (number * 10 + (chr.toNat - 48) : ℤ) =
              ((number * 10 + (chr.toNat - 48) : ℕ) : ℤ) := by omega
          have hnext : number * 10 + (chr.toNat - 48) ≤ max := by omega
          obtain ⟨hresults, hresult⟩ := ih hnext
          rw [if_neg (by omega), if_neg hsub, hsum, hwrap _ (by omega) (by omega)]
          refine ⟨fun r hr => ?_, hresult⟩
          simp only [List.mem_cons] at hr
          rcases hr with rfl | rfl | rfl | hr
          · omega
          · omega
          · omega
          · exact hresults r hr
    · have hrange := not_not.1 (mt isDigit_iff.2 hdigit)
      rw [if_pos hrange, if_pos hrange]
      exact ⟨by simp, rfl⟩

theorem parseNumberIn_eq (str : Bytes) :
    (∀ r ∈ (parseNumberIn wrap str max).2, 0 ≤ r ∧ r ≤ (max : ℤ)) ∧
      (parseNumberIn wrap str max).1 =
        ((parseNumber str max).1, ((parseNumber str max).2 : ℤ)) := by
  rw [parseNumberIn, parseNumber]
  split_ifs
  · exact ⟨by simp, rfl⟩
  · exact parseDigitsIn_eq hmax hwrap str (Nat.zero_le max)

end InType

/-- Rendering a number in decimal gives its numeral. -/
theorem isNumeral_decimal (n : ℕ) : IsNumeral (decimal n) n := by
  rcases Nat.eq_zero_or_pos n with rfl | hpos
  · exact ⟨by decide, by decide +kernel, by decide, by decide⟩
  · have hread := parseNumber_decimal hpos (le_max_left n 9)
    rcases (parseNumber_iff (le_max_right n 9)).1 hread with ⟨hnumeral, -⟩ | ⟨-, hzero⟩
    · exact hnumeral
    · omega

/-- **`parseNumber` is exact and does not overflow**: in every integer type that holds the numbers up
to the bound, whatever it makes of others, none of the results of its operations leaves their range. It
accepts the numerals of the numbers up to the bound and gives that number, and so it reads back what is
rendered in decimal. -/
theorem parseNumberIn_exact {wrap : ℤ → ℤ} {max : ℕ} (hmax : 9 ≤ max)
    (hwrap : ∀ x : ℤ, 0 ≤ x → x ≤ max → wrap x = x) {str : Bytes} (hne : str ≠ []) :
    (∀ r ∈ (parseNumberIn wrap str max).2, 0 ≤ r ∧ r ≤ (max : ℤ)) ∧
      ((parseNumberIn wrap str max).1.1 = true ↔ ∃ n ≤ max, IsNumeral str n) ∧
      (∀ n ≤ max, IsNumeral str n → (parseNumberIn wrap str max).1 = (true, (n : ℤ))) ∧
      ∀ n ≤ max, (parseNumberIn wrap (decimal n) max).1 = (true, (n : ℤ)) := by
  have hread : ∀ {str : Bytes} {n : ℕ}, n ≤ max → IsNumeral str n →
      (parseNumberIn wrap str max).1 = (true, (n : ℤ)) := by
    intro str n hle hnumeral
    rw [(parseNumberIn_eq hmax hwrap str).2, (parseNumber_iff hmax).2 (.inl ⟨hnumeral, hle⟩)]
  obtain ⟨hresults, hresult⟩ := parseNumberIn_eq hmax hwrap str
  refine ⟨hresults, ?_, fun n => hread, fun n hle => hread hle (isNumeral_decimal n)⟩
  rw [hresult, parseNumber_fst hmax]
  constructor
  · rintro (⟨n, hnumeral, hle⟩ | hnil)
    · exact ⟨n, hle, hnumeral⟩
    · exact absurd hnil hne
  · rintro ⟨n, hle, hnumeral⟩
    exact .inl ⟨n, hnumeral, hle⟩

theorem parseNumberIn_exact_max :
    (parseNumberIn (· % 2 ^ 64) (bytes "18446744073709551615") ((2 ^ 64 - 1 : ℕ) : ℤ)).1 =
      (true, ((2 ^ 64 - 1 : ℕ) : ℤ)) := by
  have hwrap : ∀ x : ℤ, 0 ≤ x → x ≤ ((2 ^ 64 - 1 : ℕ) : ℤ) → x % 2 ^ 64 = x :=
    fun x hnonneg hle => Int.emod_eq_of_lt hnonneg (by omega)
  have hdecimal : decimal (2 ^ 64 - 1) = bytes "18446744073709551615" := by decide +kernel
  have hne : bytes "18446744073709551615" ≠ [] := by decide
  have hread := (parseNumberIn_exact (by decide) hwrap hne).2.2.2 (2 ^ 64 - 1) le_rfl
  rwa [hdecimal] at hread

end Webserv.Utils
