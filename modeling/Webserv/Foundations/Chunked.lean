import Mathlib.Data.List.Basic
import Mathlib.Data.List.Infix
import Mathlib.Data.Nat.Notation
import Mathlib.Logic.Relation
import Mathlib.Tactic.Common

/-!
# Chunked messages

A message is sent in chunks: the size of a chunk as a numeral, a line end, that many elements of
data, a line end. A chunk of size zero, the last one, ends the message, and an empty line follows
it (`IsMessage`).

`Scan` is the grammar of what a receiver can have read at some moment: it relates the elements
read, the data and the sizes found in them, and the phase of the message they end in. Sizes are
kept modulo `w`, as in a receiver that stores them in a machine word; `w = 0` is a receiver with
unbounded numbers. What comes next either waits for more input (`Waits`), or can not be continued
to a message (`Offends`), or takes the scan further (`Scan.exists_scan`).
-/

namespace Webserv.Chunked

/-- How the sizes and the lines of a chunked message are written. -/
structure Coding (α : Type) where
  digit : α → Option ℕ
  base : ℕ
  eol : List α
  base_pos : 0 < base
  eol_ne_nil : eol ≠ []
  /-- A line end does not continue a numeral. -/
  digit_eol : ∀ b ∈ eol.head?, digit b = none

variable {α : Type} (C : Coding α)

/-! ## Numerals -/

/-- The number that digits denote, after the number `n`. -/
def Coding.valueFrom (n : ℕ) (l : List α) : ℕ :=
  l.foldl (fun n b => n * C.base + (C.digit b).getD 0) n

/-- The number that a numeral denotes. -/
def Coding.value (l : List α) : ℕ := C.valueFrom 0 l

/-- A non-empty string of digits. -/
structure Coding.IsNumeral (l : List α) : Prop where
  ne_nil : l ≠ []
  digits : ∀ b ∈ l, (C.digit b).isSome

/-- A list that does not start with a digit. -/
def Coding.NoDigit (l : List α) : Prop := ∀ b ∈ l.head?, C.digit b = none

variable {C}

theorem Coding.noDigit_eol (v : List α) : C.NoDigit (C.eol ++ v) := by
  intro b hb
  rw [List.head?_append_of_ne_nil _ C.eol_ne_nil] at hb
  exact C.digit_eol b hb

/-- Every list is a string of digits, followed by a list that does not start with a digit. -/
theorem Coding.exists_digits (v : List α) :
    ∃ l x, v = l ++ x ∧ (∀ b ∈ l, (C.digit b).isSome) ∧ C.NoDigit x := by
  induction v with
  | nil => exact ⟨[], [], rfl, by simp, by simp [NoDigit]⟩
  | cons a v ih =>
    obtain ⟨l, x, rfl, hl, hx⟩ := ih
    cases ha : C.digit a with
    | none => exact ⟨[], a :: (l ++ x), rfl, by simp, by simpa [NoDigit] using ha⟩
    | some n =>
      refine ⟨a :: l, x, rfl, ?_, hx⟩
      simpa [ha] using hl

theorem Coding.valueFrom_pos {l : List α} {n : ℕ} (hn : 0 < n) : 0 < C.valueFrom n l := by
  induction l generalizing n with
  | nil => exact hn
  | cons b l ih =>
    exact ih (Nat.add_pos_left (Nat.mul_pos hn C.base_pos) _)

/-- A numeral of zeros denotes zero, and no other does. -/
theorem Coding.value_eq_zero_iff {l : List α} (hl : ∀ b ∈ l, (C.digit b).isSome) :
    C.value l = 0 ↔ ∀ b ∈ l, C.digit b = some 0 := by
  unfold value
  induction l with
  | nil => simp [valueFrom]
  | cons b l ih =>
    obtain ⟨d, hd⟩ := Option.isSome_iff_exists.1 (hl b (by simp))
    have hstep : C.valueFrom 0 (b :: l) = C.valueFrom d l := by simp [valueFrom, hd]
    rw [hstep]
    cases d with
    | zero => simpa [hd] using ih fun b' hb' => hl b' (by simp [hb'])
    | succ d =>
      have := C.valueFrom_pos (l := l) (Nat.succ_pos d)
      simp [hd, this.ne']

/-- The digits at the start of a list are determined. -/
theorem Coding.digits_unique {l l' x x' : List α} (hl : ∀ b ∈ l, (C.digit b).isSome)
    (hl' : ∀ b ∈ l', (C.digit b).isSome) (hx : C.NoDigit x) (hx' : C.NoDigit x')
    (h : l ++ x = l' ++ x') : l = l' ∧ x = x' := by
  have htake : ∀ {l x : List α}, (∀ b ∈ l, (C.digit b).isSome) → C.NoDigit x →
      (l ++ x).takeWhile (fun b => (C.digit b).isSome) = l := by
    intro l x hl hx
    rw [List.takeWhile_append_of_pos hl]
    cases x with
    | nil => simp
    | cons b x =>
      have hb : C.digit b = none := hx b (by simp)
      simp [hb]
  have hll : l = l' := by rw [← htake hl hx, ← htake hl' hx', h]
  subst hll
  exact ⟨rfl, List.append_cancel_left h⟩

/-! ## Messages -/

/-- A chunk as it is written. -/
structure Chunk (α : Type) where
  numeral : List α
  data : List α

variable (C)

/-- The numeral is the size of the data, which is not empty. -/
structure Chunk.Valid (c : Chunk α) : Prop where
  isNumeral : C.IsNumeral c.numeral
  value_eq : C.value c.numeral = c.data.length
  ne_nil : c.data ≠ []

/-- The elements that a chunk is sent as. -/
def Chunk.render (c : Chunk α) : List α := c.numeral ++ C.eol ++ c.data ++ C.eol

/-- The elements that a list of chunks is sent as. -/
def renders (cs : List (Chunk α)) : List α := (cs.map (Chunk.render C)).flatten

/-- The data of a list of chunks. -/
def datas (cs : List (Chunk α)) : List α := (cs.map Chunk.data).flatten

/-- One or more zeros. -/
structure IsZeros (l : List α) : Prop where
  ne_nil : l ≠ []
  zeros : ∀ b ∈ l, C.digit b = some 0

/-- `t` is a complete chunked message with the data `d`: chunks, the last chunk of size zero, and
an empty line. -/
def IsMessage (t d : List α) : Prop :=
  ∃ cs zeros, (∀ c ∈ cs, Chunk.Valid C c) ∧ IsZeros C zeros ∧
    t = renders C cs ++ (zeros ++ C.eol) ++ C.eol ∧ d = datas cs

variable {C}

theorem IsZeros.isNumeral {l : List α} (h : IsZeros C l) : C.IsNumeral l :=
  ⟨h.ne_nil, fun b hb => by simp [h.zeros b hb]⟩

theorem IsZeros.value_eq {l : List α} (h : IsZeros C l) : C.value l = 0 :=
  (Coding.value_eq_zero_iff h.isNumeral.digits).2 h.zeros

theorem IsZeros.of_value_eq {l : List α} (hl : C.IsNumeral l) (h : C.value l = 0) : IsZeros C l :=
  ⟨hl.ne_nil, (Coding.value_eq_zero_iff hl.digits).1 h⟩

@[simp] theorem renders_nil : renders C ([] : List (Chunk α)) = [] := rfl

@[simp] theorem datas_nil : datas ([] : List (Chunk α)) = [] := rfl

theorem renders_concat (cs : List (Chunk α)) (c : Chunk α) :
    renders C (cs ++ [c]) = renders C cs ++ c.render C := by
  simp [renders]

theorem datas_concat (cs : List (Chunk α)) (c : Chunk α) :
    datas (cs ++ [c]) = datas cs ++ c.data := by
  simp [datas]

/-! ## What a receiver can have read -/

/-- What a receiver expects next: the size of a chunk, `left` elements of data and a line end, or
the lines after the last chunk. -/
inductive Phase
  | size
  | data (left : ℕ)
  /-- The last chunk was read, and no line after it. -/
  | last
  /-- The last chunk and at least one empty line after it were read. -/
  | blank
  deriving DecidableEq

/-- The last chunk was read. -/
inductive Phase.Ended : Phase → Prop
  | last : Ended .last
  | blank : Ended .blank

attribute [simp] Phase.Ended.last Phase.Ended.blank

@[simp] theorem Phase.not_ended_size : ¬ Phase.size.Ended := nofun

@[simp] theorem Phase.not_ended_data (left : ℕ) : ¬ (Phase.data left).Ended := nofun

variable (C) in
/-- `Scan C w u d sizes ph`: a receiver that has read `u` has found the data `d` and chunks of the
given sizes, and is in phase `ph`. -/
inductive Scan (w : ℕ) : List α → List α → List ℕ → Phase → Prop
  | start : Scan w [] [] [] .size
  | chunk {u d : List α} {sizes : List ℕ} {l : List α} : Scan w u d sizes .size →
      C.IsNumeral l → 0 < C.value l % w →
      Scan w (u ++ (l ++ C.eol)) d (sizes ++ [C.value l]) (.data (C.value l % w))
  | last {u d : List α} {sizes : List ℕ} {l : List α} : Scan w u d sizes .size →
      C.IsNumeral l → C.value l % w = 0 →
      Scan w (u ++ (l ++ C.eol)) d (sizes ++ [C.value l]) .last
  | byte {u d : List α} {sizes : List ℕ} {left : ℕ} (b : α) :
      Scan w u d sizes (.data (left + 1)) → Scan w (u ++ [b]) (d ++ [b]) sizes (.data left)
  | endChunk {u d : List α} {sizes : List ℕ} : Scan w u d sizes (.data 0) →
      Scan w (u ++ C.eol) d sizes .size
  | blank {u d : List α} {sizes : List ℕ} {ph : Phase} : Scan w u d sizes ph → ph.Ended →
      Scan w (u ++ C.eol) d sizes .blank

variable (C) in
/-- More input is needed to tell how `v` goes on. -/
def Waits : Phase → List α → Prop
  | .size, v => ∃ l x, v = l ++ x ∧ (∀ b ∈ l, (C.digit b).isSome) ∧ C.NoDigit x ∧
      (x = [] ∨ l ≠ [] ∧ x.length < C.eol.length)
  | .data (_ + 1), v => v = []
  | .data 0, v | .last, v | .blank, v => v.length < C.eol.length

variable (C) in
/-- Something else than a line end stands where a line end is due. -/
def NotEol (v : List α) : Prop := C.eol.length ≤ v.length ∧ ¬ C.eol <+: v

variable (C) in
/-- No message goes on with `v`. -/
def Offends : Phase → List α → Prop
  | .size, v => ∃ l x, v = l ++ x ∧ (∀ b ∈ l, (C.digit b).isSome) ∧ C.NoDigit x ∧ x ≠ [] ∧
      (l = [] ∨ NotEol C x)
  | .data (_ + 1), _ => False
  | .data 0, v | .last, v | .blank, v => NotEol C v

variable {w : ℕ} {u d : List α} {sizes : List ℕ} {ph : Phase}

/-- Where a line end is due, there is not enough input to tell, or something else, or a line
end. -/
theorem eol_cases (v : List α) :
    v.length < C.eol.length ∨ NotEol C v ∨ ∃ v', v = C.eol ++ v' := by
  by_cases hlen : v.length < C.eol.length
  · exact .inl hlen
  · by_cases hp : C.eol <+: v
    · obtain ⟨v', rfl⟩ := hp
      exact .inr (.inr ⟨v', rfl⟩)
    · exact .inr (.inl ⟨by omega, hp⟩)

/-- **One step of a scan**: the input waits, or offends, or a part of it takes the scan further. -/
theorem Scan.advance (h : Scan C w u d sizes ph) (v : List α) :
    Waits C ph v ∨ Offends C ph v ∨ ∃ p v' d' sizes' ph', v = p ++ v' ∧ p ≠ [] ∧
      Scan C w (u ++ p) (d ++ d') sizes' ph' ∧
      (ph.Ended → ph'.Ended ∧ d' = [] ∧ sizes' = sizes) := by
  cases ph with
  | size =>
    obtain ⟨l, x, rfl, hl, hx⟩ := C.exists_digits v
    by_cases hx0 : x = []
    · exact .inl ⟨l, x, rfl, hl, hx, .inl hx0⟩
    by_cases hl0 : l = []
    · exact .inr (.inl ⟨l, x, rfl, hl, hx, hx0, .inl hl0⟩)
    rcases eol_cases (C := C) x with hlen | hbad | ⟨v', rfl⟩
    · exact .inl ⟨l, x, rfl, hl, hx, .inr ⟨hl0, hlen⟩⟩
    · exact .inr (.inl ⟨l, x, rfl, hl, hx, hx0, .inr hbad⟩)
    · refine .inr (.inr ⟨l ++ C.eol, v', [], sizes ++ [C.value l], ?_⟩)
      rw [List.append_nil, ← List.append_assoc]
      rcases Nat.eq_zero_or_pos (C.value l % w) with h0 | hpos
      · exact ⟨.last, rfl, by simp [hl0], h.last ⟨hl0, hl⟩ h0, nofun⟩
      · exact ⟨_, rfl, by simp [hl0], h.chunk ⟨hl0, hl⟩ hpos, nofun⟩
  | data left =>
    cases left with
    | zero =>
      rcases eol_cases (C := C) v with hlen | hbad | ⟨v', rfl⟩
      · exact .inl hlen
      · exact .inr (.inl hbad)
      · refine .inr (.inr ⟨C.eol, v', [], sizes, .size, rfl, C.eol_ne_nil, ?_, nofun⟩)
        rw [List.append_nil]
        exact h.endChunk
    | succ left =>
      cases v with
      | nil => exact .inl rfl
      | cons b v =>
        exact .inr (.inr ⟨[b], v, [b], sizes, .data left, rfl, by simp, h.byte b,
          nofun⟩)
  | last =>
    rcases eol_cases (C := C) v with hlen | hbad | ⟨v', rfl⟩
    · exact .inl hlen
    · exact .inr (.inl hbad)
    · refine .inr (.inr ⟨C.eol, v', [], sizes, .blank, rfl, C.eol_ne_nil, ?_,
        fun _ => ⟨.blank, rfl, rfl⟩⟩)
      rw [List.append_nil]
      exact h.blank .last
  | blank =>
    rcases eol_cases (C := C) v with hlen | hbad | ⟨v', rfl⟩
    · exact .inl hlen
    · exact .inr (.inl hbad)
    · refine .inr (.inr ⟨C.eol, v', [], sizes, .blank, rfl, C.eol_ne_nil, ?_,
        fun _ => ⟨.blank, rfl, rfl⟩⟩)
      rw [List.append_nil]
      exact h.blank .blank

/-- **Every input can be scanned** up to a point where the rest waits or offends. The data only
grows on the way, and an ended message stays as it is. -/
theorem Scan.exists_scan (h : Scan C w u d sizes ph) (v : List α) :
    ∃ p x d' sizes' ph', v = p ++ x ∧ Scan C w (u ++ p) (d ++ d') sizes' ph' ∧
      (ph.Ended → ph'.Ended ∧ d' = [] ∧ sizes' = sizes) ∧ (Waits C ph' x ∨ Offends C ph' x) := by
  generalize hn : v.length = n
  induction n using Nat.strongRecOn generalizing u d sizes ph v with
  | ind n ih =>
  rcases h.advance v with hw | ho | ⟨p, v', d', sizes', ph', rfl, hp, hs, he⟩
  · exact ⟨[], v, [], sizes, ph, rfl, by simpa using h, fun h => ⟨h, rfl, rfl⟩, .inl hw⟩
  · exact ⟨[], v, [], sizes, ph, rfl, by simpa using h, fun h => ⟨h, rfl, rfl⟩, .inr ho⟩
  · have hlt : v'.length < n := by
      have := List.length_pos_of_ne_nil hp
      simp only [List.length_append] at hn
      omega
    obtain ⟨p', x, d'', sizes'', ph'', rfl, hs', he', hx⟩ := ih _ hlt hs v' rfl
    refine ⟨p ++ p', x, d' ++ d'', sizes'', ph'', by simp, ?_, fun h => ?_, hx⟩
    · simpa only [List.append_assoc] using hs'
    · obtain ⟨hended, rfl, rfl⟩ := he h
      simpa using he' hended

/-- A scan that has ended went through the last chunk, and read empty lines after it. -/
theorem Scan.last_of_ended (h : Scan C w u d sizes ph) (he : ph.Ended) :
    ∃ u' x, u = u' ++ x ∧ Scan C w u' d sizes .last ∧ (ph = .last → x = []) := by
  induction h with
  | start | chunk | byte | endChunk => cases he
  | last hs hl h0 => exact ⟨_, [], (List.append_nil _).symm, hs.last hl h0, fun _ => rfl⟩
  | blank hs hended ih =>
    obtain ⟨u', x, rfl, hs', -⟩ := ih hended
    exact ⟨u', x ++ C.eol, List.append_assoc _ _ _, hs', by simp⟩

/-- What the scanned elements look like, when no size was reduced. -/
def Shape (C : Coding α) (u d : List α) : Phase → Prop
  | .size => ∃ cs, (∀ c ∈ cs, Chunk.Valid C c) ∧ u = renders C cs ∧ d = datas cs
  | .data left => ∃ cs l part, (∀ c ∈ cs, Chunk.Valid C c) ∧ C.IsNumeral l ∧ 0 < C.value l ∧
      C.value l = part.length + left ∧ u = renders C cs ++ (l ++ C.eol) ++ part ∧
      d = datas cs ++ part
  | .last => ∃ cs zeros, (∀ c ∈ cs, Chunk.Valid C c) ∧ IsZeros C zeros ∧
      u = renders C cs ++ (zeros ++ C.eol) ∧ d = datas cs
  | .blank => True

theorem Scan.shape (h : Scan C w u d sizes ph) (hsizes : ∀ n ∈ sizes, n % w = n) :
    Shape C u d ph := by
  induction h with
  | start => exact ⟨[], by simp, rfl, rfl⟩
  | chunk hs hl hpos ih =>
    obtain ⟨cs, hcs, rfl, rfl⟩ := ih fun n hn => hsizes n (by simp [hn])
    rw [hsizes _ (by simp)] at hpos ⊢
    exact ⟨cs, _, [], hcs, hl, hpos, by simp, by simp, by simp⟩
  | last hs hl h0 ih =>
    obtain ⟨cs, hcs, rfl, rfl⟩ := ih fun n hn => hsizes n (by simp [hn])
    rw [hsizes _ (by simp)] at h0
    exact ⟨cs, _, hcs, .of_value_eq hl h0, rfl, rfl⟩
  | byte b hs ih =>
    obtain ⟨cs, l, part, hcs, hl, hpos, hval, rfl, rfl⟩ := ih hsizes
    exact ⟨cs, l, part ++ [b], hcs, hl, hpos, by simp; omega, by simp, by simp⟩
  | endChunk hs ih =>
    obtain ⟨cs, l, part, hcs, hl, hpos, hval, rfl, rfl⟩ := ih hsizes
    have hpart : part ≠ [] := by
      rintro rfl
      simp at hval
      omega
    refine ⟨cs ++ [⟨l, part⟩], ?_, ?_, ?_⟩
    · intro c hc
      rcases List.mem_append.1 hc with hc | hc
      · exact hcs c hc
      · obtain rfl := List.mem_singleton.1 hc
        exact ⟨hl, hval, hpart⟩
    · simp [renders_concat, Chunk.render]
    · simp [datas_concat]
  | blank => trivial

/-- A receiver has found no more data than it has read. -/
theorem Scan.length_le {ph : Phase} (h : Scan C w u d sizes ph) : d.length ≤ u.length := by
  induction h with
  | start => exact le_rfl
  | chunk _ _ _ ih | last _ _ _ ih | endChunk _ ih | blank _ _ ih =>
    rw [List.length_append]
    omega
  | byte b _ ih =>
    rw [List.length_append, List.length_append]
    omega

/-- The data of a chunk is scanned element by element. -/
theorem Scan.bytes {left : ℕ} (part : List α) (h : Scan C w u d sizes (.data (part.length + left))) :
    Scan C w (u ++ part) (d ++ part) sizes (.data left) := by
  induction part generalizing u d with
  | nil => simpa using h
  | cons b part ih =>
    have hb : Scan C w (u ++ [b]) (d ++ [b]) sizes (.data (part.length + left)) := by
      refine Scan.byte b ?_
      have hlen : (b :: part).length + left = part.length + left + 1 := by
        simp only [List.length_cons]
        omega
      rwa [hlen] at h
    simpa using ih hb

/-- Valid chunks can be scanned, if their sizes fit. -/
theorem Scan.of_renders {cs : List (Chunk α)} (hcs : ∀ c ∈ cs, Chunk.Valid C c)
    (hw : ∀ c ∈ cs, c.data.length < w) :
    Scan C w (renders C cs) (datas cs) (cs.map fun c => c.data.length) .size := by
  induction cs using List.reverseRecOn with
  | nil => exact .start
  | append_singleton cs c ih =>
    have hs := ih (fun c hc => hcs c (by simp [hc])) fun c hc => hw c (by simp [hc])
    have hc := hcs c (by simp)
    have hmod : C.value c.numeral % w = c.data.length := by
      rw [hc.value_eq, Nat.mod_eq_of_lt (hw c (by simp))]
    have hpos : 0 < c.data.length := List.length_pos_of_ne_nil hc.ne_nil
    have hchunk := hs.chunk hc.isNumeral (by omega)
    rw [hmod, hc.value_eq] at hchunk
    have hend := Scan.endChunk (Scan.bytes c.data hchunk)
    simpa [renders_concat, datas_concat, Chunk.render] using hend

/-- A complete message can be scanned, if its sizes fit. -/
theorem Scan.of_message {cs : List (Chunk α)} {zeros : List α} (hcs : ∀ c ∈ cs, Chunk.Valid C c)
    (hw : ∀ c ∈ cs, c.data.length < w) (hz : IsZeros C zeros) :
    Scan C w (renders C cs ++ (zeros ++ C.eol) ++ C.eol) (datas cs)
      (cs.map (fun c => c.data.length) ++ [0]) .blank := by
  have hlast := (Scan.of_renders hcs hw).last hz.isNumeral (by simp [hz.value_eq])
  rw [hz.value_eq] at hlast
  exact hlast.blank .last

/-! ## Scanning is deterministic -/

/-- A receiver with its input: what is left of it, the data and sizes found, and the phase. -/
structure Config (α : Type) where
  rest : List α
  data : List α
  sizes : List ℕ
  phase : Phase

variable (C) in
/-- One step of a receiver. -/
inductive Step (w : ℕ) : Config α → Config α → Prop
  | chunk {v d : List α} {sizes : List ℕ} {l : List α} : C.IsNumeral l → 0 < C.value l % w →
      Step w ⟨l ++ (C.eol ++ v), d, sizes, .size⟩
        ⟨v, d, sizes ++ [C.value l], .data (C.value l % w)⟩
  | last {v d : List α} {sizes : List ℕ} {l : List α} : C.IsNumeral l → C.value l % w = 0 →
      Step w ⟨l ++ (C.eol ++ v), d, sizes, .size⟩ ⟨v, d, sizes ++ [C.value l], .last⟩
  | byte {v d : List α} {sizes : List ℕ} {left : ℕ} (b : α) :
      Step w ⟨b :: v, d, sizes, .data (left + 1)⟩ ⟨v, d ++ [b], sizes, .data left⟩
  | endChunk {v d : List α} {sizes : List ℕ} :
      Step w ⟨C.eol ++ v, d, sizes, .data 0⟩ ⟨v, d, sizes, .size⟩
  | blank {v d : List α} {sizes : List ℕ} {ph : Phase} : ph.Ended →
      Step w ⟨C.eol ++ v, d, sizes, ph⟩ ⟨v, d, sizes, .blank⟩

open Relation Relator

/-- A scan is a run of the receiver. -/
theorem Scan.steps (h : Scan C w u d sizes ph) (v : List α) :
    ReflTransGen (Step C w) ⟨u ++ v, [], [], .size⟩ ⟨v, d, sizes, ph⟩ := by
  induction h generalizing v with
  | start => exact .refl
  | chunk hs hl hpos ih =>
    rw [List.append_assoc, List.append_assoc]
    exact (ih _).tail (.chunk hl hpos)
  | last hs hl h0 ih =>
    rw [List.append_assoc, List.append_assoc]
    exact (ih _).tail (.last hl h0)
  | byte b hs ih =>
    rw [List.append_assoc]
    exact (ih _).tail (.byte b)
  | endChunk hs ih =>
    rw [List.append_assoc]
    exact (ih _).tail .endChunk
  | blank hs he ih =>
    rw [List.append_assoc]
    exact (ih _).tail (.blank he)

/-- What a receiver can do in each phase. -/
theorem Step.inv {a b : Config α} (h : Step C w a b) :
    match a.phase with
    | .size => ∃ l v, a.rest = l ++ (C.eol ++ v) ∧ C.IsNumeral l ∧
        b = ⟨v, a.data, a.sizes ++ [C.value l],
          if C.value l % w = 0 then .last else .data (C.value l % w)⟩
    | .data (left + 1) => ∃ x v, a.rest = x :: v ∧ b = ⟨v, a.data ++ [x], a.sizes, .data left⟩
    | .data 0 => ∃ v, a.rest = C.eol ++ v ∧ b = ⟨v, a.data, a.sizes, .size⟩
    | .last | .blank => ∃ v, a.rest = C.eol ++ v ∧ b = ⟨v, a.data, a.sizes, .blank⟩ := by
  cases h with
  | chunk hl hpos => exact ⟨_, _, rfl, hl, by rw [if_neg hpos.ne']⟩
  | last hl h0 => exact ⟨_, _, rfl, hl, by rw [if_pos h0]⟩
  | byte b => exact ⟨_, _, rfl, rfl⟩
  | endChunk => exact ⟨_, rfl, rfl⟩
  | blank he => cases he <;> exact ⟨_, rfl, rfl⟩

theorem Step.rightUnique : RightUnique (Step C w) := by
  intro a b c hb hc
  have hb := hb.inv
  have hc := hc.inv
  obtain ⟨rest, data, sizes, ph⟩ := a
  cases ph with
  | size =>
    obtain ⟨l, v, hrest, hl, rfl⟩ := hb
    obtain ⟨l', v', hrest', hl', rfl⟩ := hc
    obtain ⟨rfl, heol⟩ := Coding.digits_unique hl.digits hl'.digits (C.noDigit_eol v)
      (C.noDigit_eol v') (hrest.symm.trans hrest')
    obtain rfl := List.append_cancel_left heol
    rfl
  | data left =>
    cases left with
    | zero =>
      obtain ⟨v, hrest, rfl⟩ := hb
      obtain ⟨v', hrest', rfl⟩ := hc
      obtain rfl := List.append_cancel_left (hrest.symm.trans hrest')
      rfl
    | succ left =>
      obtain ⟨x, v, hrest, rfl⟩ := hb
      obtain ⟨x', v', hrest', rfl⟩ := hc
      obtain ⟨rfl, rfl⟩ := List.cons.inj (hrest.symm.trans hrest')
      rfl
  | last | blank =>
    obtain ⟨v, hrest, rfl⟩ := hb
    obtain ⟨v', hrest', rfl⟩ := hc
    obtain rfl := List.append_cancel_left (hrest.symm.trans hrest')
    rfl

/-- After the last chunk only empty lines are read. -/
theorem steps_of_last {a b : Config α} (h : ReflTransGen (Step C w) a b) (ha : a.phase = .last) :
    a = b ∨ b.phase = .blank := by
  induction h with
  | refl => exact .inl rfl
  | tail _ hstep ih =>
    have hinv := hstep.inv
    rcases ih with rfl | hblank
    · rw [ha] at hinv
      obtain ⟨v, -, rfl⟩ := hinv
      exact .inr rfl
    · rw [hblank] at hinv
      obtain ⟨v, -, rfl⟩ := hinv
      exact .inr rfl

/-- **The last chunk of an input is determined.** -/
theorem Scan.last_unique {u' d' v v' : List α} {sizes' : List ℕ} (h : Scan C w u d sizes .last)
    (h' : Scan C w u' d' sizes' .last) (heq : u ++ v = u' ++ v') :
    v = v' ∧ d = d' ∧ sizes = sizes' := by
  have hsteps := h.steps v
  have hsteps' := h'.steps v'
  rw [← heq] at hsteps'
  rcases ReflTransGen.total_of_right_unique Step.rightUnique hsteps hsteps' with hle | hle
  · rcases steps_of_last hle rfl with hsame | hblank
    · obtain ⟨hv, hd, hsizes, -⟩ := Config.mk.inj hsame
      exact ⟨hv, hd, hsizes⟩
    · cases hblank
  · rcases steps_of_last hle rfl with hsame | hblank
    · obtain ⟨hv, hd, hsizes, -⟩ := Config.mk.inj hsame
      exact ⟨hv.symm, hd.symm, hsizes.symm⟩
    · cases hblank

end Webserv.Chunked
