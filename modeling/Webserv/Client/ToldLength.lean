import Webserv.Client.Buffering
import Webserv.Client.HeaderUse
import Webserv.Numeral

/-!
# The length that a CGI is told

`_execveChild` passes `content_length` as `CONTENT_LENGTH`, and the CGI is then written `body`. The sizes
of the chunks of a chunked body add up to its length (`sum_sizes`), and of a body with a length as many
bytes are read. But a request that is not a `POST` has no body, and the length that its header tells
stays in `content_length` (`contentLength_iff`).
-/

namespace Webserv.Client

open Exec Search Utils Chunked

/-! ## The header -/

/-- The headers tell no length, or zero. -/
def TellsNothing (headers : Headers) : Prop :=
  ∀ value, headers.lookup (bytes "CONTENT_LENGTH") = some value → value = [] ∨ value = bytes "0"

theorem eq_zero_of_isDigit {b : UInt8} (h : IsDigit b) (hzero : b.toNat - 48 = 0) : b = ch '0' := by
  have hle : 48 ≤ b.toNat := UInt8.le_iff_toNat_le.1 h.1
  have heq : b.toNat = (ch '0').toNat := by
    have h48 : (ch '0').toNat = 48 := by decide
    omega
  exact UInt8.toNat_inj.1 heq

/-- Only the empty string and one digit are read as zero. -/
theorem parseNumber_eq_zero_iff {value : Bytes} {max : ℕ} (hmax : 9 ≤ max)
    (h : (parseNumber value max).1 = true) :
    (parseNumber value max).2 = 0 ↔ value = [] ∨ value = bytes "0" := by
  have heq : parseNumber value max = (true, (parseNumber value max).2) := Prod.ext h rfl
  constructor
  · intro hzero
    rw [hzero] at heq
    rcases (parseNumber_iff hmax).1 heq with ⟨hnumeral, -⟩ | ⟨hnil, -⟩
    · obtain ⟨b, rest, rfl⟩ := List.exists_cons_of_ne_nil hnumeral.nonempty
      have hvalue := hnumeral.value
      rw [valueFrom_cons, Nat.zero_mul, Nat.zero_add] at hvalue
      have hle := le_valueFrom (b.toNat - 48) rest
      have hb := eq_zero_of_isDigit (hnumeral.digits b List.mem_cons_self) (by omega)
      have hlength := hnumeral.leading (by rw [hb]; rfl)
      have hrest : rest = [] := List.length_eq_zero_iff.1 (Nat.succ.inj hlength)
      exact .inr (by rw [hb, hrest]; decide)
    · exact .inl hnil
  · rintro (rfl | rfl)
    · rfl
    · have hnumeral : IsNumeral (bytes "0") 0 :=
        ⟨by decide, by decide +kernel, fun _ => rfl, by decide⟩
      have hdigits : parseNumber (bytes "0") max = (true, 0) :=
        (parseNumber_iff hmax).2 (.inl ⟨hnumeral, Nat.zero_le _⟩)
      rw [hdigits]

/-- The length that the header block of a request leaves. -/
theorem readHeaderBlock_length {c c₁ : Client} (hc : c.IsFresh) {i : ℕ}
    (hi : find crlf c.header = some i) (h : readHeaderBlock c = .ok () c₁) :
    c₁.contentLength = 0 ↔ TellsNothing c₁.headers := by
  obtain ⟨line, lines, hlines⟩ := List.exists_cons_of_ne_nil (getHeaderLines_ne_nil hi)
  rw [readHeaderBlock_eq hlines] at h
  have hkeeps := keeps_parseRequestLine line c
  cases hline : parseRequestLine line c with
  | error e c' =>
    rw [hline] at h
    cases h
  | ok u c' =>
    rw [hline] at h hkeeps
    dsimp only at h
    split_ifs at h
    generalize hfilled : (fillHeaders lines c'.headers).2 = headers at h
    by_cases husable : (c'.withHeaders headers).Usable
    · rw [useHeaders_of_usable husable] at h
      cases h
      have hzero : c'.contentLength = 0 := (congrArg (·.2.2) hkeeps).trans hc.contentLength
      have hheaders : (c'.withHeaders headers).settled.headers = headers :=
        withEncoding_headers (c'.withHeaders headers)
      have hlength : (c'.withHeaders headers).settled.contentLength =
          (c'.withHeaders headers).toldLength := rfl
      rw [hheaders, hlength, toldLength, TellsNothing]
      have hsame : (c'.withHeaders headers).headers = headers := rfl
      rw [hsame]
      cases hlookup : headers.lookup (bytes "CONTENT_LENGTH") with
      | none =>
        have hkept : (c'.withHeaders headers).contentLength = c'.contentLength := rfl
        rw [hkept]
        simp [hzero]
      | some value =>
        dsimp only
        rw [parseNumber_eq_zero_iff (by decide) (husable.length value hlookup).2]
        simp
    · obtain ⟨c₂, herror⟩ := useHeaders_of_not_usable husable
      rw [herror] at h
      cases h

/-- A request that is complete with its header has no body. -/
theorem readHead_told {c c' : Client} (hc : c.IsFresh) {i : ℕ} (hi : find crlf c.header = some i)
    (h : readHead c = .ok () c') (hdone : c'.clientToServerState = .done) :
    c'.body = [] ∧ (c'.contentLength = 0 ↔ TellsNothing c'.headers) ∧
      (c'.requestMethod = .post → c'.contentLength = 0) := by
  have hbody := (readHead_body hi h).1.trans hc.body
  obtain ⟨_, c₁, hblock, hstart⟩ := bind_eq_ok h
  have hlength := readHeaderBlock_length hc hi hblock
  rw [startBody_nil] at hstart
  split_ifs at hstart with hcond
  · cases hstart
    exact ⟨hbody, hlength, fun hpost => (hcond.resolve_left fun hne => hne hpost).1⟩
  · cases hstart
    cases hdone

/-! ## The body -/

variable {c c' : Client}

/-- The sizes of the chunks add up to the data that was found and what is missing of the last one. -/
theorem sum_sizes {u d : Bytes} {sizes : List ℕ} {ph : Phase} (h : HexScan u d sizes ph) :
    sizes.sum % sizeModulus = (d.length + phaseLeft ph) % sizeModulus := by
  induction h with
  | start => rfl
  | @chunk u d sizes l _ _ _ ih =>
    simp only [phaseLeft, Nat.add_zero] at ih
    rw [List.sum_append, List.sum_singleton, Nat.add_mod, ih, phaseLeft, Nat.add_mod_mod, Nat.mod_add_mod]
    simp
  | @last u d sizes l _ _ hzero ih =>
    simp only [phaseLeft, Nat.add_zero] at ih
    rw [List.sum_append, List.sum_singleton, Nat.add_mod, ih, hzero, Nat.add_zero, Nat.mod_mod]
    rfl
  | @byte u d sizes left b _ ih =>
    rw [ih, phaseLeft, phaseLeft, List.length_append, List.length_singleton]
    congr 1
    omega
  | endChunk _ ih => exact ih
  | blank _ hended ih =>
    rw [ih]
    cases hended <;> rfl

/-- A chunked body that is complete has the length that its chunks add up to. -/
theorem feed_chunks_told (hc : c.AtChunks) (hmax : c.clientMaxBodySize < sizeModulus)
    {reads : List Bytes} (h : feed reads c = .ok () c') (hdone : c'.clientToServerState = .done) :
    c'.contentLength = c'.body.length ∧ c'.requestMethod = c.requestMethod := by
  obtain ⟨t₁, t₂, -, hdecode, hle, -⟩ := feed_cases hc (fed_start hc) h
  rw [List.nil_append] at hdecode
  obtain ⟨u, v, d, sizes, ph, -, hscan, ⟨-, c₂, h₂, hstores⟩ | ⟨-, c₂, h₂, -⟩⟩ := decode_cases hc t₁
  · cases h₂.symm.trans hdecode
    have hended : ph.Ended := phaseProgress_done.1 (hstores.progress.symm.trans hdone)
    have hsum := sum_sizes hscan
    have hleft : phaseLeft ph = 0 := by
      cases hended <;> rfl
    rw [hstores.body] at hle
    rw [hleft, Nat.add_zero, Nat.mod_eq_of_lt (hle.trans_lt hmax)] at hsum
    refine ⟨?_, hstores.sameHead.requestMethod⟩
    rw [hstores.contentLength hended, hstores.body, hsum]
  · cases h₂.symm.trans hdecode

/-- Of a body with a length as many bytes are read. -/
theorem feed_length_told (hc : c.AtLength) {reads : List Bytes} (h : feed reads c = .ok () c')
    (hdone : c'.clientToServerState = .done) :
    c'.contentLength = c'.body.length ∧ c'.requestMethod = c.requestMethod := by
  have hread : ∀ t, (c.lengthRead t).clientToServerState = .done →
      (c.lengthRead t).contentLength = (c.lengthRead t).body.length ∧
        (c.lengthRead t).requestMethod = c.requestMethod := by
    intro t ht
    have hle := (lengthRead_done_iff hc t).1 ht
    rw [lengthRead_contentLength, lengthRead_body, List.length_take, Nat.min_eq_left hle,
      lengthRead_of_le hle]
    exact ⟨rfl, rfl⟩
  have hnil := lengthRead_nil hc
  by_cases hle : c.contentLength ≤ c.clientMaxBodySize
  · have hall := feed_length_of_le hc hle [] reads
    rw [hnil, h] at hall
    cases hall
    exact hread _ hdone
  · have hall := feed_length_of_lt hc (not_le.1 hle) (t := []) (Nat.zero_le _) reads
    rw [hnil, h] at hall
    by_cases hsmall : ([] ++ reads.flatten).length ≤ c.clientMaxBodySize
    · cases hall.1 hsmall
      exact hread _ hdone
    · obtain ⟨t', hsame⟩ := hall.2 (not_le.1 hsmall)
      cases hsame

/-! ## A complete request -/

/-- **When the length is that of the body**, whatever the request is and however it is cut: if it is a
`POST`, or its header tells no length or zero. -/
theorem contentLength_iff {clientFd serverFd : ℤ} {serverPort : Bytes} {clientMaxBodySize : ℕ}
    (hmax : clientMaxBodySize < sizeModulus) {reads : List Bytes}
    (h : feed reads (new clientFd serverFd serverPort clientMaxBodySize) = .ok () c)
    (hdone : c.clientToServerState = .done) :
    c.contentLength = c.body.length ↔ c.requestMethod = .post ∨ TellsNothing c.headers := by
  have hfeed := feed_header (c := new clientFd serverFd serverPort clientMaxBodySize) rfl rfl reads
  have hheader : (new clientFd serverFd serverPort clientMaxBodySize).header ++ reads.flatten =
      reads.flatten := rfl
  rw [hheader] at hfeed
  cases hfind : find blankLine reads.flatten with
  | none =>
    rw [hfind] at hfeed
    cases h.symm.trans hfeed
    cases hdone
  | some i =>
    rw [hfind] at hfeed
    obtain ⟨pieces, -, hfeed⟩ := hfeed
    rw [hfeed] at h
    obtain ⟨_, c₀, hread, h⟩ := bind_eq_ok h
    obtain ⟨j, hj⟩ := find_crlf_take hfind
    have hfresh := isFresh_new clientFd serverFd serverPort clientMaxBodySize (reads.flatten.take (i + 2))
    obtain ⟨status, c₁, herror, -⟩ | ⟨c₁, hok, hmax₁, hcases⟩ := readHead_cases hfresh hj
    · cases herror.symm.trans hread
    · cases hok.symm.trans hread
      rcases hcases with ⟨hdone₀, -⟩ | ⟨hpost, hbody⟩
      · obtain ⟨hnil, hzero, hpost⟩ := readHead_told hfresh hj hread hdone₀
        rw [feed_done hdone₀] at h
        cases h
        rw [hnil, List.length_nil, hzero]
        refine ⟨.inr, ?_⟩
        rintro (hmethod | htells)
        · exact hzero.1 (hpost hmethod)
        · exact htells
      · have htold : c.contentLength = c.body.length ∧ c.requestMethod = c₀.requestMethod := by
          rcases hbody with hchunks | hlength
          · exact feed_chunks_told hchunks (hmax₁ ▸ hmax) h hdone
          · exact feed_length_told hlength h hdone
        exact iff_of_true htold.1 (.inl (htold.2.trans hpost))

end Webserv.Client
