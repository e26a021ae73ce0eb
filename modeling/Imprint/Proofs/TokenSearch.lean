import Imprint.Proofs.TokenGrammar
/-! # Finding tokens again

A replacement looks for its token by its letters alone.  Whether something is a token is decided by these letters:
what stands behind a closing delimiter makes no difference, and what stands in front of an opening one makes none
either, if no opening delimiter begins inside of another.  So a scanner would have stopped at an earlier place with
the letters of its first token, although it has passed over delimiters that are never closed. -/
set_option autoImplicit false
namespace Imprint

/-! ## First occurrences behind a text that is passed over -/

namespace Text

variable {needle opening before after text : List Char} {offset : Nat}

/-- A text of which no end is a beginning too, so that it does not begin inside of itself. -/
def Unbordered (opening : List Char) : Prop :=
  ∀ shift < opening.length, 0 < shift → ¬ opening.drop shift <+: opening

instance : DecidablePred Unbordered := fun opening =>
  inferInstanceAs (Decidable (∀ shift < opening.length, 0 < shift → ¬ opening.drop shift <+: opening))

theorem Unbordered.apart (unbordered : Unbordered opening) {shift : Nat} (inside : shift < opening.length)
    (moved : 0 < shift) (after : List Char) : ¬ opening <+: (opening ++ after).drop shift := by
  intro again
  have rest : opening.drop shift <+: (opening ++ after).drop shift := by
    rw [List.drop_append_of_le_length (Nat.le_of_lt inside)]
    exact List.prefix_append _ _
  have shorter : (opening.drop shift).length ≤ opening.length := by
    rw [List.length_drop]
    exact Nat.sub_le _ _
  exact unbordered shift inside moved (List.prefix_of_prefix_length_le rest again shorter)

/-- What begins with a text is not found in front of it. -/
theorem FirstAt.extend (first : FirstAt opening text offset) (starts : opening <+: needle)
    (here : needle <+: text.drop offset) : FirstAt needle text offset :=
  ⟨here, fun earlier inFront occurs => first.first earlier inFront (starts.trans occurs)⟩

/-- What begins with an unbordered text is first behind an occurrence of it, if it is first there in what follows
and does not begin at the occurrence itself. -/
theorem FirstAt.passed (unbordered : Unbordered opening) (starts : opening <+: needle)
    (next : FirstAt opening (before ++ opening ++ after) before.length) (elsewhere : ¬ needle <+: opening ++ after)
    (found : FirstAt needle after offset) :
    FirstAt needle (before ++ opening ++ after) ((before ++ opening).length + offset) := by
  refine ⟨?_, fun earlier inFront occurs => ?_⟩
  · rw [List.drop_length_add_append]
    exact found.here
  · -- An earlier occurrence is in front of the one that is passed, at it, inside of it, or behind it.
    rcases Nat.lt_trichotomy earlier before.length with sooner | rfl | later
    · exact next.first earlier sooner (starts.trans occurs)
    · rw [List.append_assoc, List.drop_left] at occurs
      exact elsewhere occurs
    · obtain ⟨shift, rfl⟩ := Nat.exists_eq_add_of_le (Nat.le_of_lt later)
      rw [List.append_assoc, List.drop_length_add_append] at occurs
      by_cases inside : shift < opening.length
      · exact unbordered.apart inside (by omega) after (starts.trans occurs)
      · obtain ⟨further, rfl⟩ := Nat.exists_eq_add_of_le (Nat.le_of_not_lt inside)
        rw [List.drop_length_add_append] at occurs
        rw [List.length_append] at inFront
        exact found.first further (by omega) occurs

end Text

namespace Expression.Scanner
open Text

variable {scanner : Scanner} {letters before after body behind : List Char} {passed : Nat}
  {found : List (Nat × List Char)}

/-! ## Tokens by themselves -/

theorem opening_isPrefix_enclosed (scanner : Scanner) (body : List Char) :
    scanner.opening <+: scanner.enclosed body :=
  ⟨body ++ scanner.closing, (List.append_assoc _ _ _).symm⟩

theorem Closes.opening_append (closes : scanner.Closes after body behind) :
    scanner.opening ++ after = scanner.enclosed body ++ behind := by
  rw [closes.split, enclosed, List.append_assoc, List.append_assoc, List.append_assoc]

/-- What stands behind a closing delimiter makes no difference for the body in front of it. -/
theorem Closes.inFrontOf (closes : scanner.Closes letters body behind) (further : List Char) :
    scanner.Closes (body ++ scanner.closing ++ further) body further where
  split := rfl
  isBody := by
    have isBody := closes.isBody
    unfold IsBody at isBody ⊢
    cases mode : scanner.brackets? with
    | some brackets =>
      rw [mode] at isBody
      exact isBody
    | none =>
      rw [mode] at isBody
      intro shorter rest split
      -- A closing delimiter that ends sooner lies within the part that both texts share.
      refine Nat.le_of_not_lt fun sooner => ?_
      have start : shorter ++ scanner.closing <+: body ++ scanner.closing :=
        List.prefix_of_prefix_length_le ⟨rest, split.symm⟩ (List.prefix_append _ _) (by
          simp only [List.length_append]
          omega)
      obtain ⟨between, same⟩ := start
      have long := isBody shorter (between ++ behind) (by rw [closes.split, ← same, List.append_assoc])
      omega

/-- Where a token occurs, its body closes again. -/
theorem Closes.of_enclosed_isPrefix (closes : scanner.Closes letters body behind)
    (occurs : scanner.enclosed body <+: scanner.opening ++ after) : ∃ further, scanner.Closes after body further := by
  obtain ⟨further, same⟩ := occurs
  have split : after = body ++ scanner.closing ++ further := by
    simpa [enclosed] using same.symm
  rw [split]
  exact ⟨further, closes.inFrontOf further⟩

theorem Closes.tokens_enclosed (opens : scanner.opening ≠ []) (closes : scanner.Closes letters body behind) :
    scanner.tokens (scanner.enclosed body) = [scanner.enclosed body] := by
  have start : FirstAt scanner.opening ([] ++ scanner.opening ++ (body ++ scanner.closing ++ [])) 0 :=
    (firstAt_of_start (List.prefix_append _ _)).mpr rfl
  have nothing : scanner.Scans [] [] := .done fun inside => opens (List.infix_nil.mp inside)
  have scans : scanner.Scans (scanner.enclosed body) [body] := by
    simpa [enclosed] using Scans.token start (closes.inFrontOf []) nothing
  exact scans.tokensWithin opens _ (Nat.lt_succ_self _)

theorem Scans.closes {bodies : List (List Char)} (scans : scanner.Scans letters bodies) :
    ∀ body ∈ bodies, ∃ after behind, scanner.Closes after body behind := by
  induction scans with
  | done none => exact fun _ member => absurd member List.not_mem_nil
  | token next closes rest hypothesis => exact List.forall_mem_cons.mpr ⟨⟨_, _, closes⟩, hypothesis⟩
  | skipped next unclosed rest hypothesis => exact hypothesis

/-- A token is the only token of its own text. -/
theorem tokens_of_mem_tokens (opens : scanner.opening ≠ []) {token : List Char}
    (member : token ∈ scanner.tokens letters) : scanner.tokens token = [token] := by
  obtain ⟨bodies, scans⟩ := exists_scans opens letters
  rw [tokens, scans.tokensWithin opens _ (Nat.lt_succ_self _)] at member
  obtain ⟨body, isBody, rfl⟩ := List.mem_map.mp member
  obtain ⟨after, behind, closes⟩ := scans.closes body isBody
  exact closes.tokens_enclosed opens

/-! ## Tokens in their places -/

/-- The tokens of a text, each with the offset at which the scanner stands when it finds it; `passed` letters stand
in front of the text. -/
def findsWithin (scanner : Scanner) : Nat → Nat → List Char → List (Nat × List Char)
  | 0, _, _ => []
  | fuel + 1, passed, letters =>
      match find? scanner.opening letters with
      | none => []
      | some offset =>
          let start := letters.drop offset
          let body := start.drop scanner.opening.length
          match scanner.tokenEnd body with
          | none => scanner.findsWithin fuel (passed + offset + scanner.opening.length) body
          | some size =>
              (passed + offset, start.take (scanner.opening.length + size)) ::
                scanner.findsWithin fuel (passed + offset + scanner.opening.length + size) (body.drop size)

/-- The tokens of a text with the offsets at which they are found. -/
def finds (scanner : Scanner) (letters : List Char) : List (Nat × List Char) :=
  scanner.findsWithin (letters.length + 1) 0 letters

theorem map_snd_findsWithin (scanner : Scanner) : ∀ (fuel passed : Nat) (letters : List Char),
    (scanner.findsWithin fuel passed letters).map Prod.snd = scanner.tokensWithin fuel letters := by
  intro fuel
  induction fuel with
  | zero => exact fun _ _ => rfl
  | succ fuel hypothesis =>
    intro passed letters
    rw [findsWithin, tokensWithin]
    cases find? scanner.opening letters with
    | none => rfl
    | some offset =>
      dsimp only
      cases scanner.tokenEnd ((letters.drop offset).drop scanner.opening.length) with
      | none => exact hypothesis _ _
      | some size => exact congrArg (_ :: ·) (hypothesis _ _)

/-! One step for each delimiter that the scanner comes to. -/

theorem findsWithin_token (next : FirstAt scanner.opening (before ++ scanner.opening ++ after) before.length)
    (closes : scanner.Closes after body behind) (fuel passed : Nat) :
    scanner.findsWithin (fuel + 1) passed (before ++ scanner.opening ++ after) =
      (passed + before.length, scanner.enclosed body) ::
        scanner.findsWithin fuel (passed + (before ++ scanner.enclosed body).length) behind := by
  have ends := tokenEnd_eq_some_iff.mpr ⟨body, behind, closes, rfl⟩
  rw [findsWithin, find?_eq_some_iff.mpr next]
  simp only [List.append_assoc, List.drop_left, ends]
  rw [closes.split, ← List.length_append, List.take_length_add_append, List.take_left, List.drop_left]
  simp [enclosed, Nat.add_assoc]

theorem findsWithin_skipped (next : FirstAt scanner.opening (before ++ scanner.opening ++ after) before.length)
    (unclosed : ∀ body behind, ¬ scanner.Closes after body behind) (fuel passed : Nat) :
    scanner.findsWithin (fuel + 1) passed (before ++ scanner.opening ++ after) =
      scanner.findsWithin fuel (passed + (before ++ scanner.opening).length) after := by
  rw [findsWithin, find?_eq_some_iff.mpr next]
  simp only [List.append_assoc, List.drop_left, tokenEnd_eq_none_iff.mpr unclosed, List.length_append, Nat.add_assoc]

/-- Tokens that have been found where they stand, with `passed` letters in front of the text.  Each of them stands
where its letters occur first behind the token in front of it. -/
inductive Located (scanner : Scanner) : Nat → List Char → List (Nat × List Char) → Prop where
  | none {passed : Nat} {letters : List Char} : Located scanner passed letters []
  | found {passed : Nat} {before after body behind : List Char} {others : List (Nat × List Char)}
      (closes : scanner.Closes after body behind)
      (first : FirstAt (scanner.enclosed body) (before ++ scanner.opening ++ after) before.length)
      (later : Located scanner (passed + (before ++ scanner.enclosed body).length) behind others) :
      Located scanner passed (before ++ scanner.opening ++ after)
        ((passed + before.length, scanner.enclosed body) :: others)

/-- An opening delimiter that is never closed hides no token: another one with the same letters would close it. -/
theorem Located.skipped (unbordered : Unbordered scanner.opening)
    (next : FirstAt scanner.opening (before ++ scanner.opening ++ after) before.length)
    (unclosed : ∀ body behind, ¬ scanner.Closes after body behind)
    (located : scanner.Located (passed + (before ++ scanner.opening).length) after found) :
    scanner.Located passed (before ++ scanner.opening ++ after) found := by
  cases located with
  | none => exact .none
  | @found _ gap rest body behind others closes first later =>
    have elsewhere : ¬ scanner.enclosed body <+: scanner.opening ++ (gap ++ scanner.opening ++ rest) := by
      intro occurs
      obtain ⟨further, closesHere⟩ := closes.of_enclosed_isPrefix occurs
      exact unclosed body further closesHere
    have moved := next.passed unbordered (opening_isPrefix_enclosed scanner body) elsewhere first
    -- The gap in front of the token grows by the delimiter that is passed over.
    have again : scanner.Located passed (before ++ scanner.opening ++ gap ++ scanner.opening ++ rest)
        ((passed + (before ++ scanner.opening ++ gap).length, scanner.enclosed body) :: others) :=
      .found closes (by simpa [Nat.add_assoc] using moved) (by simpa [Nat.add_assoc] using later)
    simpa [Nat.add_assoc] using again

/-- Where no opening delimiter begins inside of another, every token stands where its letters occur first behind the
token in front of it. -/
theorem Scans.located {bodies : List (List Char)} (unbordered : Unbordered scanner.opening)
    (scans : scanner.Scans letters bodies) :
    ∀ fuel passed, scanner.Located passed letters (scanner.findsWithin fuel passed letters) := by
  induction scans with
  | @done letters none =>
    intro fuel passed
    cases fuel with
    | zero => exact .none
    | succ fuel =>
      rw [← isSome_find?_iff, Option.not_isSome_iff_eq_none] at none
      rw [findsWithin, none]
      exact .none
  | @token before after body behind bodies next closes rest hypothesis =>
    intro fuel passed
    cases fuel with
    | zero => exact .none
    | succ fuel =>
      rw [findsWithin_token next closes]
      have here : scanner.enclosed body <+: (before ++ scanner.opening ++ after).drop before.length := by
        rw [List.append_assoc, List.drop_left, closes.opening_append]
        exact List.prefix_append _ _
      exact .found closes (next.extend (opening_isPrefix_enclosed scanner body) here) (hypothesis fuel _)
  | @skipped before after bodies next unclosed rest hypothesis =>
    intro fuel passed
    cases fuel with
    | zero => exact .none
    | succ fuel =>
      rw [findsWithin_skipped next unclosed]
      exact (hypothesis fuel _).skipped unbordered next unclosed

/-- Where one opening delimiter begins inside of another, one that is never closed hides an earlier place. -/
example :
    finds ⟨"\x7b\x7b".toList, "\x7d".toList⟩ "\x7b\x7b\x7bx\x7d \x7b\x7bx\x7d".toList =
        [(6, "\x7b\x7bx\x7d".toList)] ∧
      find? "\x7b\x7bx\x7d".toList "\x7b\x7b\x7bx\x7d \x7b\x7bx\x7d".toList = some 1 := by decide

/-- Tokens stand at the offsets that they are found at. -/
theorem Located.isPrefix (located : scanner.Located passed letters found) :
    ∀ place token, (place, token) ∈ found → passed ≤ place ∧ token <+: letters.drop (place - passed) := by
  induction located with
  | none => exact fun _ _ member => absurd member List.not_mem_nil
  | @found passed before after body behind others closes first later hypothesis =>
    intro place token member
    rcases List.mem_cons.mp member with isFirst | isLater
    · cases isFirst
      rw [Nat.add_sub_cancel_left]
      exact ⟨Nat.le_add_right _ _, first.here⟩
    · obtain ⟨farther, starts⟩ := hypothesis place token isLater
      obtain ⟨offset, rfl⟩ := Nat.exists_eq_add_of_le farther
      rw [Nat.add_sub_cancel_left] at starts
      rw [Nat.add_assoc, Nat.add_sub_cancel_left, List.append_assoc, closes.opening_append, ← List.append_assoc,
        List.drop_length_add_append]
      exact ⟨Nat.le_add_right _ _, starts⟩

/-- Of the usual delimiters, each token is the only one of its own text, and the first token of a text is found
again where the scanner has found it: this is the first place at which its letters occur. -/
theorem tokens_found_again (standard : scanner = values ∨ scanner = directives) (letters : List Char) :
    (∀ token ∈ scanner.tokens letters, scanner.tokens token = [token]) ∧
    (scanner.finds letters).map Prod.snd = scanner.tokens letters ∧
    (∀ place token, (place, token) ∈ scanner.finds letters → token <+: letters.drop place) ∧
    ∀ place token others, scanner.finds letters = (place, token) :: others → find? token letters = some place := by
  have unbordered : Unbordered scanner.opening ∧ scanner.opening ≠ [] := by
    rcases standard with rfl | rfl <;> decide
  obtain ⟨bodies, scans⟩ := exists_scans unbordered.2 letters
  have located : scanner.Located 0 letters (scanner.finds letters) := scans.located unbordered.1 _ 0
  refine ⟨fun token => tokens_of_mem_tokens unbordered.2, scanner.map_snd_findsWithin _ 0 letters,
    fun place token member => (located.isPrefix place token member).2, fun place token others isFirst => ?_⟩
  rw [isFirst] at located
  cases located with
  | found closes first later =>
    rw [Nat.zero_add]
    exact find?_eq_some_iff.mpr first

/-- A token behind opening delimiters that a bracket and a quote keep open, and the same token once more. -/
theorem tokens_found_again_unclosed :
    (values = values ∨ values = directives) ∧
    values.tokens "$\x7ba\x7d".toList = ["$\x7ba\x7d".toList] ∧
    find? "$\x7ba\x7d".toList "\x7b '$\x7b \x7b $\x7b' $\x7ba\x7d $\x7ba\x7d".toList = some 12 := by
  have found : values.finds "\x7b '$\x7b \x7b $\x7b' $\x7ba\x7d $\x7ba\x7d".toList =
      [(12, "$\x7ba\x7d".toList), (17, "$\x7ba\x7d".toList)] := by decide
  obtain ⟨alone, -, -, again⟩ :=
    tokens_found_again (.inl rfl) "\x7b '$\x7b \x7b $\x7b' $\x7ba\x7d $\x7ba\x7d".toList
  exact ⟨.inl rfl, alone _ (by decide), again _ _ _ found⟩

end Expression.Scanner

end Imprint
