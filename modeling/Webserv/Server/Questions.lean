import Webserv.Client.Head
import Webserv.Server.CgiSplit

/-!
# When a request target can be resolved

`_resolveToLocation` asks the file system about the target at every location that it takes to be the
best one so far, and it asks about the components of the path of a CGI. It returns exactly if all that
it asks is answered and no walk along the components ends with an empty path
(`resolveToLocation_isOk_iff`). What it throws is no `ClientException` (`uncaught_resolveToLocation`).
-/

namespace Webserv.Server

open Exec

variable {fs : FileSystem} {requestTarget unsplitPath : Bytes}

/-! ## The path of a CGI -/

/-- What is asked about the path of a CGI is answered, and no path that is found is empty where its
last character is looked at. -/
structure ScriptAnswered (fs : FileSystem) (unsplitPath : Bytes) : Prop where
  component : ∀ k, Walking fs unsplitPath k → EndsComponent unsplitPath k →
    fs.isDirectory (unsplitPath.take k) ≠ none
  path_ne : ¬ IsStop fs unsplitPath [] true
  path : ∀ path, IsStop fs unsplitPath path false → fs.weaklyCanonical path ≠ none
  pathInfo : ∀ path, IsStop fs unsplitPath path false →
    fs.weaklyCanonical (infoOf (unsplitPath.drop path.length)) ≠ none

theorem exists_orFilesystemError {α : Type} {answer : Option α} (h : answer ≠ none) :
    ∃ a, answer = some a ∧ orFilesystemError answer = .ok a := by
  obtain ⟨a, rfl⟩ := Option.ne_none_iff_exists'.1 h
  exact ⟨a, rfl, rfl⟩

/-- Between a position and the end of its component no component ends. -/
theorem not_endsComponent {j k : ℕ} (hk : k ≤ unsplitPath.length) (hle : k ≤ j)
    (hlt : j < nextSeparator unsplitPath k) : ¬ EndsComponent unsplitPath j := by
  obtain ⟨-, hle', hinside, -⟩ := nextSeparator_spec hk
  obtain ⟨hslash, hquestion⟩ := hinside j hle hlt
  rintro (h | h | ⟨h, -⟩)
  · exact hslash h
  · exact hquestion h
  · omega

/-- At the end of a component the loop asks. -/
theorem endsComponent_nextSeparator {k : ℕ} (hlt : k < unsplitPath.length) :
    EndsComponent unsplitPath (nextSeparator unsplitPath k) := by
  obtain ⟨hle, hle', hinside, hsep⟩ := nextSeparator_spec hlt.le
  rcases hle'.lt_or_eq with hlt' | heq
  · exact (hsep hlt').elim .inl fun h => .inr (.inl h)
  · refine .inr (.inr ⟨heq, fun hlast => ?_⟩)
    rw [List.getLast?_eq_getElem?] at hlast
    exact (hinside (unsplitPath.length - 1) (by omega) (by omega)).1 hlast

theorem Walking.nextSeparator {k : ℕ} (h : Walking fs unsplitPath k) :
    Walking fs unsplitPath (nextSeparator unsplitPath k) := by
  obtain ⟨-, hle', -, -⟩ := nextSeparator_spec h.le
  refine ⟨hle', fun j hj hends => ?_⟩
  rcases lt_or_ge j k with hlt | hge
  · exact h.before j hlt hends
  · exact absurd hends (not_endsComponent h.le hge hj)

/-- The loop goes on behind a directory. -/
theorem Walking.succ {k : ℕ} (h : Walking fs unsplitPath k) (hlt : k < unsplitPath.length)
    (hdirectory : fs.isDirectory (unsplitPath.take k) = some true)
    (hslash : unsplitPath[k]? = some (ch '/')) : Walking fs unsplitPath (k + 1) := by
  refine ⟨hlt, fun j hj hends => ?_⟩
  rcases Nat.lt_succ_iff_lt_or_eq.1 hj with hlt' | rfl
  · exact h.before j hlt' hends
  · exact ⟨hdirectory, hslash⟩

/-- **The walk returns if what it asks is answered.** -/
theorem walkCgiPath_isOk_iff {rounds k : ℕ} {found : Bytes × Bool}
    (hrounds : unsplitPath.length < rounds + k) (hwalking : Walking fs unsplitPath k)
    (hstart : k < unsplitPath.length ∨ unsplitPath.getLast? = some (ch '/')) :
    (∃ result, walkCgiPath fs unsplitPath rounds k found = .ok result) ↔
      ∀ j, k ≤ j → Walking fs unsplitPath j → EndsComponent unsplitPath j →
        fs.isDirectory (unsplitPath.take j) ≠ none := by
  induction rounds generalizing k found with
  | zero =>
    have hle := hwalking.le
    omega
  | succ rounds ih =>
    rw [walkCgiPath]
    split_ifs with hlt
    · obtain ⟨hle, hle', -, -⟩ := nextSeparator_spec hwalking.le
      have hends := endsComponent_nextSeparator hlt
      have hwalking' := hwalking.nextSeparator
      have hfirst : ∀ j, k ≤ j → EndsComponent unsplitPath j → nextSeparator unsplitPath k ≤ j :=
        fun j hj hends' => not_lt.1 fun hlt' => not_endsComponent hwalking.le hj hlt' hends'
      generalize nextSeparator unsplitPath k = m at hle hle' hends hwalking' hfirst
      dsimp only
      cases hanswer : fs.isDirectory (unsplitPath.take m) with
      | none =>
        refine iff_of_false ?_ fun h => h m hle hwalking' hends hanswer
        rintro ⟨result, h⟩
        cases h
      | some targetIsDirectory =>
        rw [orFilesystemError, except_ok_bind]
        split_ifs with hstop
        · refine iff_of_true ⟨_, rfl⟩ fun j hj hwalkingj hendsj => ?_
          rcases (hfirst j hj hendsj).lt_or_eq with hlt' | rfl
          · -- the walk has not gone on
            obtain ⟨hdirectory, hslash⟩ := hwalkingj.before m hlt' hends
            rw [hdirectory] at hanswer
            cases hanswer
            rcases hstop with hfalse | hend | hquestion
            · cases hfalse
            · exact absurd hwalkingj.le (by omega)
            · rw [hslash] at hquestion
              exact absurd hquestion (by decide)
          · rw [hanswer]
            exact Option.some_ne_none _
        · obtain ⟨htrue, hend, hquestion⟩ : targetIsDirectory = true ∧ m < unsplitPath.length ∧
              unsplitPath[m]? ≠ some (ch '?') := by
            simpa using hstop
          have hslash : unsplitPath[m]? = some (ch '/') := by
            rcases hends with h | h | ⟨h, -⟩
            · exact h
            · exact absurd h hquestion
            · omega
          rw [htrue] at hanswer
          rw [ih (by omega) (hwalking'.succ hend hanswer hslash) ?_]
          · constructor
            · intro h j hj hwalkingj hendsj
              rcases (hfirst j hj hendsj).lt_or_eq with hlt' | rfl
              · exact h j hlt' hwalkingj hendsj
              · rw [hanswer]
                exact Option.some_ne_none _
            · exact fun h j hj => h j (by omega)
          · rcases Nat.lt_or_ge (m + 1) unsplitPath.length with hlt' | hge
            · exact .inl hlt'
            · refine .inr ?_
              rw [List.getLast?_eq_getElem?, show unsplitPath.length - 1 = m by omega]
              exact hslash
    · have heq : k = unsplitPath.length := le_antisymm hwalking.le (not_lt.1 hlt)
      refine iff_of_true ⟨found, rfl⟩ fun j hj hwalkingj hendsj => ?_
      obtain rfl : j = unsplitPath.length := le_antisymm hwalkingj.le (heq ▸ hj)
      have hlast := hstart.resolve_left hlt
      rcases hendsj with h | h | ⟨-, h⟩
      · rw [List.getElem?_eq_none le_rfl] at h
        cases h
      · rw [List.getElem?_eq_none le_rfl] at h
        cases h
      · exact absurd hlast h

/-- The CGI branch sets the path, and what is behind it. -/
theorem resolveCgi_ok {root : Bytes} {resolved resolved' : ResolvedLocation}
    (h : resolveCgi fs root requestTarget resolved = .ok resolved') :
    ∃ path pathInfo queryString, resolved' = { resolved with
      path := path, pathInfo := pathInfo, queryString := queryString } := by
  simp only [resolveCgi] at h
  obtain ⟨⟨path, targetIsDirectory⟩, -, h⟩ := except_bind_eq_ok h
  split at h
  · obtain ⟨last, -, h⟩ := except_bind_eq_ok h
    obtain ⟨last', -, h⟩ := except_bind_eq_ok h
    split at h
    · cases h
      exact ⟨path ++ [ch '/'], resolved.pathInfo, resolved.queryString, rfl⟩
    · cases h
      exact ⟨path, resolved.pathInfo, resolved.queryString, rfl⟩
  · obtain ⟨canonicalPath, -, h⟩ := except_bind_eq_ok h
    obtain ⟨canonicalPathInfo, -, h⟩ := except_bind_eq_ok h
    cases h
    exact ⟨_, _, _, rfl⟩

/-- **The path of a CGI is found if what is asked about it is answered.** -/
theorem resolveCgi_isOk_iff {root : Bytes} {resolved : ResolvedLocation} (hne : requestTarget ≠ []) :
    (∃ resolved', resolveCgi fs root requestTarget resolved = .ok resolved') ↔
      ScriptAnswered fs (root ++ requestTarget) := by
  have hpos : 0 < (root ++ requestTarget).length :=
    List.length_pos_iff.2 fun h => hne (List.append_eq_nil_iff.1 h).2
  have hwalking : Walking fs (root ++ requestTarget) 0 := ⟨Nat.zero_le _, by simp⟩
  have hwalk : (∃ result, walkCgiPath fs (root ++ requestTarget) ((root ++ requestTarget).length + 1) 0
        ([], true) = .ok result) ↔
      ∀ k, 0 ≤ k → Walking fs (root ++ requestTarget) k → EndsComponent (root ++ requestTarget) k →
        fs.isDirectory ((root ++ requestTarget).take k) ≠ none :=
    walkCgiPath_isOk_iff (Nat.lt_succ_self _) hwalking (.inl hpos)
  constructor
  · rintro ⟨resolved', h⟩
    rw [resolveCgi] at h
    dsimp only at h
    obtain ⟨⟨path, targetIsDirectory⟩, hfound, h⟩ := except_bind_eq_ok h
    have hstop : IsStop fs (root ++ requestTarget) path targetIsDirectory :=
      walkCgiPath_stop (Nat.lt_succ_self _) hwalking (.inl hpos) hfound
    have hsame : ∀ {path' : Bytes} {targetIsDirectory' : Bool},
        IsStop fs (root ++ requestTarget) path' targetIsDirectory' →
          path = path' ∧ targetIsDirectory = targetIsDirectory' := by
      intro path' targetIsDirectory' hstop'
      obtain rfl := hstop.unique hstop'
      exact ⟨rfl, Option.some.inj (hstop.isDirectory.symm.trans hstop'.isDirectory)⟩
    refine ⟨fun k => hwalk.1 ⟨_, hfound⟩ k (Nat.zero_le k), fun hnil => ?_, fun path' hstop' => ?_,
      fun path' hstop' => ?_⟩
    · obtain ⟨rfl, rfl⟩ := hsame hnil
      cases h
    · obtain ⟨rfl, rfl⟩ := hsame hstop'
      intro hnone
      simp only [Bool.false_eq_true, if_false, hnone] at h
      cases h
    · obtain ⟨rfl, rfl⟩ := hsame hstop'
      intro hnone
      obtain ⟨canonicalPath, -, h⟩ := except_bind_eq_ok h
      obtain ⟨canonicalPathInfo, hinfo, -⟩ := except_bind_eq_ok h
      have hinfo' : orFilesystemError (fs.weaklyCanonical
          (infoOf ((root ++ requestTarget).drop path.length))) = .ok canonicalPathInfo := hinfo
      rw [hnone] at hinfo'
      cases hinfo'
  · intro h
    obtain ⟨⟨path, targetIsDirectory⟩, hfound⟩ := hwalk.2 fun k _ => h.component k
    have hstop : IsStop fs (root ++ requestTarget) path targetIsDirectory :=
      walkCgiPath_stop (Nat.lt_succ_self _) hwalking (.inl hpos) hfound
    rw [resolveCgi_eq hfound]
    · cases targetIsDirectory with
      | true =>
        rw [splitAt]
        split_ifs <;> exact ⟨_, rfl⟩
      | false =>
        obtain ⟨canonicalPath, -, hpath⟩ := exists_orFilesystemError (h.path path hstop)
        obtain ⟨canonicalPathInfo, -, hinfo⟩ := exists_orFilesystemError (h.pathInfo path hstop)
        rw [splitAt, canonicalise, if_neg Bool.false_ne_true]
        simp only [hpath, hinfo, except_ok_bind]
        exact ⟨_, rfl⟩
    · rintro rfl
      refine ⟨?_, List.length_pos_iff.1 hpos⟩
      rintro rfl
      exact h.path_ne hstop

/-! ## The locations -/

/-- The loop takes a location: its uri matches, and is longer than those of all that it has taken
before. -/
def Taken (requestTarget : Bytes) (longestUriLength : ℕ) (locations : List LocationDirective)
    (location : LocationDirective) : Prop :=
  ∃ before after, locations = before ++ location :: after ∧ location.uri <+: requestTarget ∧
    longestUriLength < location.uri.length ∧
    ∀ other ∈ before, other.uri <+: requestTarget → other.uri.length < location.uri.length

theorem taken_cons {longestUriLength : ℕ} {first location : LocationDirective}
    {locations : List LocationDirective} (hfirst : first.uri <+: requestTarget →
      first.uri.length ≤ longestUriLength) :
    Taken requestTarget longestUriLength (first :: locations) location ↔
      Taken requestTarget longestUriLength locations location := by
  constructor
  · rintro ⟨before, after, heq, hmatch, hlonger, hbefore⟩
    cases before with
    | nil =>
      cases heq
      exact absurd (hfirst hmatch) (by omega)
    | cons other before =>
      cases heq
      exact ⟨before, after, rfl, hmatch, hlonger, fun other hother =>
        hbefore other (List.mem_cons_of_mem _ hother)⟩
  · rintro ⟨before, after, rfl, hmatch, hlonger, hbefore⟩
    refine ⟨first :: before, after, rfl, hmatch, hlonger, fun other hother hother' => ?_⟩
    rcases List.mem_cons.1 hother with rfl | hother
    · exact (hfirst hother').trans_lt hlonger
    · exact hbefore other hother hother'

theorem taken_cons_of_longer {longestUriLength : ℕ} {first location : LocationDirective}
    {locations : List LocationDirective} (hmatch : first.uri <+: requestTarget)
    (hlonger : longestUriLength < first.uri.length) :
    Taken requestTarget longestUriLength (first :: locations) location ↔
      location = first ∨ Taken requestTarget first.uri.length locations location := by
  constructor
  · rintro ⟨before, after, heq, hmatch', hlonger', hbefore⟩
    cases before with
    | nil =>
      cases heq
      exact .inl rfl
    | cons other before =>
      cases heq
      exact .inr ⟨before, after, rfl, hmatch', hbefore first List.mem_cons_self hmatch,
        fun other hother => hbefore other (List.mem_cons_of_mem _ hother)⟩
  · rintro (rfl | ⟨before, after, rfl, hmatch', hlonger', hbefore⟩)
    · exact ⟨[], locations, rfl, hmatch, hlonger, by simp⟩
    · refine ⟨first :: before, after, rfl, hmatch', hlonger.trans hlonger', fun other hother hother' => ?_⟩
      rcases List.mem_cons.1 hother with rfl | hother
      · exact hlonger'
      · exact hbefore other hother hother'

/-- The loop returns if every location that it takes can be resolved. -/
theorem resolveFrom_isOk_iff {locations : List LocationDirective} {longestUriLength : ℕ}
    {resolved : ResolvedLocation} :
    (∃ resolved', resolveFrom fs requestTarget locations longestUriLength resolved = .ok resolved') ↔
      ∀ location, Taken requestTarget longestUriLength locations location →
        ∃ resolved', resolveLocation fs requestTarget location {} = .ok resolved' := by
  induction locations generalizing longestUriLength resolved with
  | nil =>
    refine iff_of_true ⟨resolved, rfl⟩ ?_
    rintro location ⟨before, after, heq, -⟩
    simp at heq
  | cons first locations ih =>
    rw [resolveFrom]
    split_ifs with hfirst
    · simp only [taken_cons_of_longer (startsWith_iff.1 hfirst.1) hfirst.2, forall_eq_or_imp,
        ← @ih _ resolved]
      rw [resolveLocation_congr fs requestTarget first resolved {}]
      cases hlocation : resolveLocation fs requestTarget first {} with
      | error e =>
        refine iff_of_false ?_ fun h => ?_
        · rintro ⟨_, h⟩
          cases h
        · obtain ⟨_, h⟩ := h.1
          cases h
      | ok found =>
        rw [except_ok_bind, ih, ih]
        simp
    · have hshort : first.uri <+: requestTarget → first.uri.length ≤ longestUriLength :=
        fun hmatch => not_lt.1 fun hlt => hfirst ⟨startsWith_iff.2 hmatch, hlt⟩
      simp only [taken_cons hshort]
      exact ih

/-- What is asked to resolve a target is answered. -/
structure Resolvable (fs : FileSystem) (requestTarget : Bytes) (locations : List LocationDirective) :
    Prop where
  target : ∀ location, Taken requestTarget 0 locations location → fs.weaklyCanonical requestTarget ≠ none
  script : ∀ location, Taken requestTarget 0 locations location → location.redirect = [] →
    location.cgiExecvePath ≠ [] → ScriptAnswered fs (location.root ++ requestTarget)

theorem resolveLocation_isOk_iff {location : LocationDirective} (hne : requestTarget ≠ []) :
    (∃ resolved, resolveLocation fs requestTarget location {} = .ok resolved) ↔
      fs.weaklyCanonical requestTarget ≠ none ∧ (location.redirect = [] → location.cgiExecvePath ≠ [] →
        ScriptAnswered fs (location.root ++ requestTarget)) := by
  simp only [resolveLocation]
  cases hcanonical : fs.weaklyCanonical requestTarget with
  | none =>
    refine iff_of_false ?_ fun h => h.1 rfl
    rintro ⟨_, h⟩
    cases h
  | some canonical =>
    rw [orFilesystemError, except_ok_bind]
    by_cases hredirect : location.redirect = []
    · rw [if_neg (by simp [hredirect])]
      by_cases hcgi : location.cgiExecvePath = []
      · rw [if_neg (by simp [hcgi])]
        split_ifs <;> simp [hcgi]
      · rw [if_pos (by simpa using hcgi), resolveCgi_isOk_iff hne]
        simp [hredirect, hcgi]
    · rw [if_pos (by simpa using hredirect)]
      simp [hredirect]

/-- **A target can be resolved exactly if what is asked about it is answered.** -/
theorem resolveToLocation_isOk_iff {locations : List LocationDirective} :
    (∃ resolved, resolveToLocation fs requestTarget locations = .ok resolved) ↔
      Resolvable fs requestTarget locations := by
  rw [resolveToLocation, resolveFrom_isOk_iff]
  have hne : ∀ {location}, Taken requestTarget 0 locations location → requestTarget ≠ [] := by
    rintro location ⟨_, _, -, hmatch, hlonger, -⟩ rfl
    rw [List.prefix_nil.1 hmatch] at hlonger
    exact absurd hlonger (lt_irrefl 0)
  constructor
  · intro h
    exact ⟨fun location htaken => ((resolveLocation_isOk_iff (hne htaken)).1 (h location htaken)).1,
      fun location htaken => ((resolveLocation_isOk_iff (hne htaken)).1 (h location htaken)).2⟩
  · intro h location htaken
    exact (resolveLocation_isOk_iff (hne htaken)).2 ⟨h.target location htaken, h.script location htaken⟩

/-! ## What is thrown -/

/-- What a function throws is no `ClientException`. -/
def Uncaught {α : Type} (a : Except Fault α) : Prop := ∀ e, a = .error e → ¬ Client.IsClientException e

theorem Uncaught.ok {α : Type} (a : α) : Uncaught (.ok a) := nofun

theorem Uncaught.bind {α β : Type} {a : Except Fault α} {next : α → Except Fault β} (ha : Uncaught a)
    (hnext : ∀ v, Uncaught (next v)) : Uncaught (a >>= next) := by
  cases a with
  | ok v => exact hnext v
  | error e =>
    intro e' h
    cases h
    exact ha e rfl

theorem Uncaught.ite {α : Type} {p : Prop} [Decidable p] {a b : Except Fault α} (ha : Uncaught a)
    (hb : Uncaught b) : Uncaught (if p then a else b) := by
  split_ifs
  · exact ha
  · exact hb

theorem uncaught_orFilesystemError {α : Type} (answer : Option α) :
    Uncaught (orFilesystemError answer) := by
  cases answer with
  | some a => exact .ok a
  | none =>
    rintro _ ⟨⟩ ⟨_, h⟩
    cases h

theorem uncaught_back (s : Bytes) : Uncaught (back s) := by
  unfold back
  cases s.getLast? with
  | some b => exact .ok b
  | none =>
    rintro _ ⟨⟩ ⟨_, h⟩
    cases h

theorem uncaught_walkCgiPath (rounds k : ℕ) (found : Bytes × Bool) :
    Uncaught (walkCgiPath fs unsplitPath rounds k found) := by
  induction rounds generalizing k found with
  | zero => exact .ok found
  | succ rounds ih =>
    exact .ite (.bind (uncaught_orFilesystemError _) fun _ => .ite (.ok _) (ih _ _)) (.ok found)

theorem uncaught_resolveCgi (root : Bytes) (resolved : ResolvedLocation) :
    Uncaught (resolveCgi fs root requestTarget resolved) := by
  refine .bind (uncaught_walkCgiPath _ _ _) fun ⟨path, targetIsDirectory⟩ => .ite ?_ ?_
  · refine .bind (uncaught_back _) fun _ => .bind ?_ fun _ => .ite (.ok _) (.ok _)
    exact uncaught_back _
  · exact .bind (uncaught_orFilesystemError _) fun _ => .bind (uncaught_orFilesystemError _) fun _ => .ok _

theorem uncaught_resolveLocation (location : LocationDirective) (resolved : ResolvedLocation) :
    Uncaught (resolveLocation fs requestTarget location resolved) :=
  .bind (uncaught_orFilesystemError _) fun _ =>
    .ite (.ok _) (.ite (uncaught_resolveCgi _ _) (.ite (.ok _) (.ok _)))

theorem uncaught_resolveFrom (locations : List LocationDirective) (longestUriLength : ℕ)
    (resolved : ResolvedLocation) :
    Uncaught (resolveFrom fs requestTarget locations longestUriLength resolved) := by
  induction locations generalizing longestUriLength resolved with
  | nil => exact .ok resolved
  | cons location locations ih =>
    exact .ite (.bind (uncaught_resolveLocation location resolved) fun _ => ih _ _) (ih _ _)

theorem uncaught_resolveToLocation (fs : FileSystem) (requestTarget : Bytes)
    (locations : List LocationDirective) : Uncaught (resolveToLocation fs requestTarget locations) :=
  uncaught_resolveFrom locations 0 {}

end Webserv.Server
