import Imprint.Expression.Scanner
import Imprint.Proofs.ReplacedText
/-! # Tokens and the grammar of their bodies

Between brackets the body of a token is a word of a small grammar: plain letters, quoted texts, and bodies that
stand in brackets themselves.  Between other delimiters it is the shortest text in front of a closing one.  A
scanner that goes from one opening delimiter to the next finds the tokens of this grammar and no others. -/
set_option autoImplicit false
namespace Imprint.Expression.Scanner
open Text

/-! ## Bodies -/

/-- Whether a letter begins and ends quoted texts. -/
def IsQuote (letter : Char) : Prop :=
  letter = '"' ∨ letter = '\''

/-- What stands behind an opening quote, up to and with the quote that closes it. -/
inductive Quoted (quote : Char) : List Char → Prop where
  | close : Quoted quote [quote]
  /-- A backslash escapes any letter. -/
  | escaped {letter : Char} {rest : List Char} (ending : Quoted quote rest) : Quoted quote ('\\' :: letter :: rest)
  | plain {letter : Char} {rest : List Char} (unescaped : letter ≠ '\\') (inner : letter ≠ quote)
      (ending : Quoted quote rest) : Quoted quote (letter :: rest)

/-- Texts in which brackets match. -/
inductive Balanced (left right : Char) : List Char → Prop where
  | empty : Balanced left right []
  | plain {letter : Char} {rest : List Char} (unquoted : ¬ IsQuote letter) (notLeft : letter ≠ left)
      (notRight : letter ≠ right) (others : Balanced left right rest) : Balanced left right (letter :: rest)
  | quoted {quote : Char} {inner rest : List Char} (opens : IsQuote quote) (closes : Quoted quote inner)
      (others : Balanced left right rest) : Balanced left right (quote :: (inner ++ rest))
  | bracketed {inner rest : List Char} (inside : Balanced left right inner) (others : Balanced left right rest) :
      Balanced left right (left :: (inner ++ right :: rest))

section Brackets

variable {left right quote letter : Char} {rest inner body letters : List Char} {depth size : Nat}

theorem matching_unquoted (pair : matchingBracket? left = some right) :
    ¬ IsQuote left ∧ ¬ IsQuote right ∧ right ≠ left := by
  unfold matchingBracket? at pair
  split at pair
  · cases pair
    simp [IsQuote]
  · cases pair
    simp [IsQuote]
  · cases pair
    simp [IsQuote]
  · cases pair

/-! One step of the scan for each kind of letter. -/

theorem outside_quote (opens : IsQuote quote) :
    closeBracket.outside left right depth (quote :: rest) =
      (closeBracket.inside left right quote depth rest).map (· + 1) := by
  have quotes : (quote = '"' || quote = '\'') = true := by simpa [IsQuote] using opens
  rw [closeBracket.outside.eq_def]
  dsimp only
  rw [if_pos quotes]

theorem outside_left (unquoted : ¬ IsQuote left) :
    closeBracket.outside left right depth (left :: rest) =
      (closeBracket.outside left right (depth + 1) rest).map (· + 1) := by
  have plain : ¬ (left = '"' || left = '\'') = true := by simpa [IsQuote] using unquoted
  rw [closeBracket.outside.eq_def]
  dsimp only
  rw [if_neg plain, if_pos rfl]

theorem outside_right (unquoted : ¬ IsQuote right) (apart : right ≠ left) :
    closeBracket.outside left right (depth + 1) (right :: rest) =
      (closeBracket.outside left right depth rest).map (· + 1) := by
  have plain : ¬ (right = '"' || right = '\'') = true := by simpa [IsQuote] using unquoted
  rw [closeBracket.outside, if_neg plain, if_neg apart, if_pos rfl]

theorem outside_last (unquoted : ¬ IsQuote right) (apart : right ≠ left) :
    closeBracket.outside left right 0 (right :: rest) = some 1 := by
  have plain : ¬ (right = '"' || right = '\'') = true := by simpa [IsQuote] using unquoted
  rw [closeBracket.outside, if_neg plain, if_neg apart, if_pos rfl]

theorem outside_plain (unquoted : ¬ IsQuote letter) (notLeft : letter ≠ left) (notRight : letter ≠ right) :
    closeBracket.outside left right depth (letter :: rest) =
      (closeBracket.outside left right depth rest).map (· + 1) := by
  have plain : ¬ (letter = '"' || letter = '\'') = true := by simpa [IsQuote] using unquoted
  rw [closeBracket.outside.eq_def]
  dsimp only
  rw [if_neg plain, if_neg notLeft, if_neg notRight]

theorem inside_close (opens : IsQuote quote) :
    closeBracket.inside left right quote depth (quote :: rest) =
      (closeBracket.outside left right depth rest).map (· + 1) := by
  cases opens with
  | inl isDouble =>
    subst isDouble
    simp [closeBracket.inside]
  | inr isSingle =>
    subst isSingle
    simp [closeBracket.inside]

theorem inside_plain (unescaped : letter ≠ '\\') (inner : letter ≠ quote) :
    closeBracket.inside left right quote depth (letter :: rest) =
      (closeBracket.inside left right quote depth rest).map (· + 1) := by
  rw [closeBracket.inside, if_neg inner]
  · simp [unescaped]
  · simp [unescaped]

/-! ### What the grammar allows is passed over -/

theorem Quoted.skipped (quoted : Quoted quote inner) (opens : IsQuote quote) (behind : List Char) :
    closeBracket.inside left right quote depth (inner ++ behind) =
      (closeBracket.outside left right depth behind).map (· + inner.length) := by
  induction quoted with
  | close => simp [inside_close opens]
  | escaped ending hypothesis =>
    rw [List.cons_append, List.cons_append, closeBracket.inside, hypothesis, Option.map_map]
    rfl
  | plain unescaped inner ending hypothesis =>
    rw [List.cons_append, inside_plain unescaped inner, hypothesis, Option.map_map]
    rfl

theorem Balanced.skipped (balanced : Balanced left right body) (pair : matchingBracket? left = some right) :
    ∀ (depth : Nat) (behind : List Char), closeBracket.outside left right depth (body ++ behind) =
      (closeBracket.outside left right depth behind).map (· + body.length) := by
  obtain ⟨unquotedLeft, unquotedRight, apart⟩ := matching_unquoted pair
  induction balanced with
  | empty => simp
  | plain unquoted notLeft notRight others hypothesis =>
    intro depth behind
    rw [List.cons_append, outside_plain unquoted notLeft notRight, hypothesis, Option.map_map]
    rfl
  | @quoted quote inner rest opens closes others hypothesis =>
    intro depth behind
    rw [List.cons_append, outside_quote opens, List.append_assoc, closes.skipped opens, hypothesis, Option.map_map,
      Option.map_map]
    congr 1
    funext size
    simp only [Function.comp_apply, List.length_cons, List.length_append]
    omega
  | @bracketed inner rest inside others hypothesisInside hypothesis =>
    intro depth behind
    rw [List.cons_append, outside_left unquotedLeft, List.append_assoc, hypothesisInside, List.cons_append,
      outside_right unquotedRight apart, hypothesis, Option.map_map, Option.map_map, Option.map_map]
    congr 1
    funext size
    simp only [Function.comp_apply, List.length_cons, List.length_append]
    omega

/-! ### What is passed over is allowed by the grammar -/

/-- Texts that close a number of open brackets and one more, and end with the last of them. -/
inductive Closing (left right : Char) : Nat → List Char → Prop where
  | last {body : List Char} (balanced : Balanced left right body) : Closing left right 0 (body ++ [right])
  | next {depth : Nat} {body rest : List Char} (balanced : Balanced left right body)
      (others : Closing left right depth rest) : Closing left right (depth + 1) (body ++ right :: rest)

/-- What keeps brackets matched can be put in front. -/
theorem Closing.extend (closing : Closing left right depth rest) (front : List Char)
    (keeps : ∀ body, Balanced left right body → Balanced left right (front ++ body)) :
    Closing left right depth (front ++ rest) := by
  cases closing with
  | last balanced =>
    rw [← List.append_assoc]
    exact .last (keeps _ balanced)
  | next balanced others =>
    rw [← List.append_assoc]
    exact .next (keeps _ balanced) others

/-- The scan has found a text that closes the open brackets. -/
def ClosesWithin (left right : Char) (depth : Nat) (letters : List Char) (size : Nat) : Prop :=
  ∃ closed behind, letters = closed ++ behind ∧ size = closed.length ∧ Closing left right depth closed

theorem ClosesWithin.extend (closes : ClosesWithin left right depth rest size) (front : List Char)
    (keeps : ∀ body, Balanced left right body → Balanced left right (front ++ body)) :
    ClosesWithin left right depth (front ++ rest) (size + front.length) := by
  obtain ⟨closed, behind, rfl, rfl, closing⟩ := closes
  refine ⟨front ++ closed, behind, by simp, ?_, closing.extend front keeps⟩
  simp only [List.length_append]
  omega

/-- Inside of quotes, the scan has found the closing quote and then a text that closes the open brackets. -/
def UnquotesWithin (left right quote : Char) (depth : Nat) (letters : List Char) (size : Nat) : Prop :=
  ∃ inner rest further, letters = inner ++ rest ∧ Quoted quote inner ∧ size = inner.length + further ∧
    ClosesWithin left right depth rest further

theorem scan_sound (pair : matchingBracket? left = some right) :
    (∀ depth letters, ∀ size, closeBracket.outside left right depth letters = some size →
      ClosesWithin left right depth letters size) ∧
    ∀ quote depth letters, IsQuote quote → ∀ size, closeBracket.inside left right quote depth letters = some size →
      UnquotesWithin left right quote depth letters size := by
  obtain ⟨unquotedLeft, unquotedRight, apart⟩ := matching_unquoted pair
  -- The two scans call each other, so the induction is on both, with a case for each kind of letter.
  refine closeBracket.outside.mutual_induct left right _ _ ?ends ?quote ?left ?last ?next ?plain
    ?unclosed ?unfinished ?escaped ?close ?inner
  case ends =>
    intro depth size scanned
    rw [closeBracket.outside] at scanned
    cases scanned
  case quote =>
    intro depth quote rest isQuote hypothesis size scanned
    have opens : IsQuote quote := by simpa [IsQuote] using isQuote
    rw [outside_quote opens] at scanned
    obtain ⟨further, found, rfl⟩ := Option.map_eq_some_iff.mp scanned
    obtain ⟨inner, others, size, rfl, quoted, rfl, closes⟩ := hypothesis opens further found
    have extended := closes.extend (quote :: inner) fun body => .quoted opens quoted
    simpa [Nat.add_comm, Nat.add_assoc, Nat.add_left_comm] using extended
  case left =>
    intro depth rest _ hypothesis size scanned
    rw [outside_left unquotedLeft] at scanned
    obtain ⟨further, found, rfl⟩ := Option.map_eq_some_iff.mp scanned
    obtain ⟨closed, behind, rfl, rfl, closing⟩ := hypothesis further found
    cases closing with
    | @next _ body others balanced closing =>
      have extended := closing.extend (left :: (body ++ [right])) fun others more => by
        simpa using Balanced.bracketed balanced more
      refine ⟨left :: (body ++ right :: others), behind, by simp, by simp, ?_⟩
      simpa using extended
  case last =>
    intro rest _ _ size scanned
    rw [outside_last unquotedRight apart] at scanned
    cases scanned
    exact ⟨[right], rest, rfl, rfl, .last .empty⟩
  case next =>
    intro rest depth _ _ hypothesis size scanned
    rw [outside_right unquotedRight apart] at scanned
    obtain ⟨further, found, rfl⟩ := Option.map_eq_some_iff.mp scanned
    obtain ⟨closed, behind, rfl, rfl, closing⟩ := hypothesis further found
    exact ⟨right :: closed, behind, rfl, rfl, .next .empty closing⟩
  case plain =>
    intro depth letter rest isPlain notLeft notRight hypothesis size scanned
    have unquoted : ¬ IsQuote letter := by simpa [IsQuote] using isPlain
    rw [outside_plain unquoted notLeft notRight] at scanned
    obtain ⟨further, found, rfl⟩ := Option.map_eq_some_iff.mp scanned
    exact (hypothesis further found).extend [letter] fun body => .plain unquoted notLeft notRight
  case unclosed =>
    intro quote depth opens size scanned
    rw [closeBracket.inside] at scanned
    cases scanned
  case unfinished =>
    intro quote depth opens size scanned
    rw [closeBracket.inside] at scanned
    cases scanned
  case escaped =>
    intro quote depth letter rest hypothesis opens size scanned
    rw [closeBracket.inside] at scanned
    obtain ⟨further, found, rfl⟩ := Option.map_eq_some_iff.mp scanned
    obtain ⟨inner, others, size, rfl, quoted, rfl, closes⟩ := hypothesis opens further found
    refine ⟨'\\' :: letter :: inner, others, size, rfl, .escaped quoted, ?_, closes⟩
    simp only [List.length_cons]
    omega
  case close =>
    intro depth quote rest _ _ hypothesis opens size scanned
    rw [inside_close opens] at scanned
    obtain ⟨further, found, rfl⟩ := Option.map_eq_some_iff.mp scanned
    exact ⟨[quote], rest, further, rfl, .close, Nat.add_comm _ _, hypothesis further found⟩
  case inner =>
    intro quote depth letter rest notLast notPair notQuote hypothesis opens size scanned
    have unescaped : letter ≠ '\\' := by
      intro same
      cases rest with
      | nil => exact notLast same rfl
      | cons head others => exact notPair head others same rfl
    rw [inside_plain unescaped notQuote] at scanned
    obtain ⟨further, found, rfl⟩ := Option.map_eq_some_iff.mp scanned
    obtain ⟨inner, others, size, rfl, quoted, rfl, closes⟩ := hypothesis opens further found
    refine ⟨letter :: inner, others, size, rfl, .plain unescaped notQuote quoted, ?_, closes⟩
    simp only [List.length_cons]
    omega

theorem closeBracket_eq_some_iff (pair : matchingBracket? left = some right) :
    closeBracket left right 0 letters = some size ↔
      ∃ body behind, letters = body ++ right :: behind ∧ Balanced left right body ∧ size = body.length + 1 := by
  constructor
  · intro found
    obtain ⟨closed, behind, rfl, rfl, closing⟩ := (scan_sound pair).1 0 letters size found
    cases closing with
    | @last body balanced => exact ⟨body, behind, by simp, balanced, by simp⟩
  · intro grammar
    obtain ⟨body, behind, rfl, balanced, rfl⟩ := grammar
    obtain ⟨-, unquotedRight, apart⟩ := matching_unquoted pair
    show closeBracket.outside left right 0 _ = _
    rw [balanced.skipped pair, outside_last unquotedRight apart, Option.map_some, Nat.add_comm]

end Brackets

/-! ## Tokens -/

variable {scanner : Scanner} {letters body other behind behind' : List Char} {size : Nat}

/-- Brackets are matched if the closing delimiter is the bracket that matches the last letter of the opening one. -/
theorem brackets?_eq_some_iff {left right : Char} : scanner.brackets? = some (left, right) ↔
    scanner.opening.getLast? = some left ∧ matchingBracket? left = some right ∧ scanner.closing = [right] := by
  unfold brackets?
  cases scanner.opening.getLast? with
  | none => simp
  | some last =>
    cases pair : matchingBracket? last with
    | none =>
      simp only [Option.bind_eq_bind, Option.bind_some, Option.bind_none, pair, Option.some.injEq]
      constructor
      · intro impossible
        cases impossible
      · intro impossible
        obtain ⟨rfl, found, -⟩ := impossible
        rw [pair] at found
        cases found
    | some match_ =>
      simp only [Option.bind_eq_bind, Option.bind_some, pair, Option.some.injEq]
      constructor
      · intro found
        split at found
        · rename_i closes
          cases found
          exact ⟨rfl, pair, closes⟩
        · cases found
      · intro found
        obtain ⟨rfl, found, closes⟩ := found
        rw [pair] at found
        cases found
        rw [if_pos closes]

/-- What may stand between the delimiters of a token: brackets match where they are the delimiters, and otherwise
no shorter text stands in front of a closing delimiter. -/
def IsBody (scanner : Scanner) (letters body : List Char) : Prop :=
  match scanner.brackets? with
  | some (left, right) => Balanced left right body
  | none => ∀ shorter behind, letters = shorter ++ scanner.closing ++ behind → body.length ≤ shorter.length

/-- A text behind an opening delimiter that begins with a body and a closing delimiter. -/
structure Closes (scanner : Scanner) (letters body behind : List Char) : Prop where
  split : letters = body ++ scanner.closing ++ behind
  isBody : scanner.IsBody letters body

/-- The end of a token is found exactly if the text begins with a body and a closing delimiter. -/
theorem tokenEnd_eq_some_iff : scanner.tokenEnd letters = some size ↔
    ∃ body behind, scanner.Closes letters body behind ∧ size = body.length + scanner.closing.length := by
  unfold tokenEnd
  cases mode : scanner.brackets? with
  | some brackets =>
    obtain ⟨left, right⟩ := brackets
    obtain ⟨-, pair, closing⟩ := brackets?_eq_some_iff.mp mode
    dsimp only
    rw [closeBracket_eq_some_iff pair]
    constructor
    · intro found
      obtain ⟨body, behind, split, balanced, rfl⟩ := found
      exact ⟨body, behind, ⟨by simp [split, closing], by simpa [IsBody, mode] using balanced⟩, by simp [closing]⟩
    · intro found
      obtain ⟨body, behind, ⟨split, isBody⟩, rfl⟩ := found
      rw [IsBody, mode] at isBody
      exact ⟨body, behind, by simp [split, closing], isBody, by simp [closing]⟩
  | none =>
    dsimp only
    rw [Option.map_eq_some_iff]
    constructor
    · intro found
      obtain ⟨offset, found, rfl⟩ := found
      have first := (find?_eq_some_iff.mp found).first
      obtain ⟨body, behind, rfl, rfl⟩ := find?_split found
      refine ⟨body, behind, ⟨rfl, ?_⟩, rfl⟩
      rw [IsBody, mode]
      intro shorter rest split
      refine Nat.le_of_not_lt fun before => first shorter.length before ?_
      simp [split]
    · intro found
      obtain ⟨body, behind, ⟨split, isBody⟩, rfl⟩ := found
      rw [IsBody, mode] at isBody
      refine ⟨body.length, find?_eq_some_iff.mpr ⟨by simp [split], ?_⟩, rfl⟩
      intro earlier before occurs
      obtain ⟨behind, here⟩ := occurs
      have fits : earlier ≤ letters.length := by
        have whole := congrArg List.length split
        simp only [List.length_append] at whole
        omega
      have shorter := isBody (letters.take earlier) behind (by rw [List.append_assoc, here, List.take_append_drop])
      rw [List.length_take_of_le fits] at shorter
      omega

theorem tokenEnd_eq_none_iff :
    scanner.tokenEnd letters = none ↔ ∀ body behind, ¬ scanner.Closes letters body behind := by
  rw [Option.eq_none_iff_forall_ne_some]
  constructor
  · intro unclosed body behind closes
    exact unclosed _ (tokenEnd_eq_some_iff.mpr ⟨body, behind, closes, rfl⟩)
  · intro unclosed size found
    obtain ⟨body, behind, closes, -⟩ := tokenEnd_eq_some_iff.mp found
    exact unclosed body behind closes

/-- A text begins with one body at most. -/
theorem Closes.unique (first : scanner.Closes letters body behind) (second : scanner.Closes letters other behind') :
    body = other ∧ behind = behind' := by
  have foundFirst := tokenEnd_eq_some_iff.mpr ⟨body, behind, first, rfl⟩
  have foundSecond := tokenEnd_eq_some_iff.mpr ⟨other, behind', second, rfl⟩
  have sizes := Option.some.inj (foundFirst.symm.trans foundSecond)
  have same := first.split.symm.trans second.split
  simp only [List.append_assoc] at same
  obtain ⟨sameBody, rest⟩ := List.append_inj same (by omega)
  exact ⟨sameBody, List.append_cancel_left rest⟩

/-- A token with a body. -/
def enclosed (scanner : Scanner) (body : List Char) : List Char :=
  scanner.opening ++ body ++ scanner.closing

/-- Going through a text from left to right, from one opening delimiter to the next, with the bodies of the tokens
on the way.  Behind a token the text goes on, and an opening delimiter that is never closed is passed over. -/
inductive Scans (scanner : Scanner) : List Char → List (List Char) → Prop where
  | done {letters : List Char} (none : ¬ scanner.opening <:+: letters) : Scans scanner letters []
  | token {before after body behind : List Char} {bodies : List (List Char)}
      (next : FirstAt scanner.opening (before ++ scanner.opening ++ after) before.length)
      (closes : scanner.Closes after body behind) (rest : Scans scanner behind bodies) :
      Scans scanner (before ++ scanner.opening ++ after) (body :: bodies)
  | skipped {before after : List Char} {bodies : List (List Char)}
      (next : FirstAt scanner.opening (before ++ scanner.opening ++ after) before.length)
      (unclosed : ∀ body behind, ¬ scanner.Closes after body behind) (rest : Scans scanner after bodies) :
      Scans scanner (before ++ scanner.opening ++ after) bodies

theorem Scans.tokensWithin {bodies : List (List Char)} (opens : scanner.opening ≠ [])
    (scans : scanner.Scans letters bodies) : ∀ fuel, letters.length < fuel →
      scanner.tokensWithin fuel letters = bodies.map scanner.enclosed := by
  have size : 0 < scanner.opening.length := List.length_pos_iff.mpr opens
  induction scans with
  | done none =>
    intro fuel enough
    cases fuel with
    | zero => rfl
    | succ fuel =>
      rw [← isSome_find?_iff, Option.not_isSome_iff_eq_none] at none
      rw [Scanner.tokensWithin, none]
      rfl
  | @token before after body behind bodies next closes rest hypothesis =>
    intro fuel enough
    cases fuel with
    | zero => omega
    | succ fuel =>
      have ends := tokenEnd_eq_some_iff.mpr ⟨body, behind, closes, rfl⟩
      simp only [closes.split, List.length_append] at enough
      rw [Scanner.tokensWithin, find?_eq_some_iff.mpr next]
      simp only [List.append_assoc, List.drop_left, ends]
      rw [closes.split, ← List.length_append, List.take_length_add_append, List.take_left, List.drop_left,
        hypothesis fuel (by omega), List.map_cons, enclosed, List.append_assoc]
  | @skipped before after bodies next unclosed rest hypothesis =>
    intro fuel enough
    cases fuel with
    | zero => omega
    | succ fuel =>
      have ends := tokenEnd_eq_none_iff.mpr unclosed
      simp only [List.length_append] at enough
      rw [Scanner.tokensWithin, find?_eq_some_iff.mpr next]
      simp only [List.append_assoc, List.drop_left, ends]
      exact hypothesis fuel (by omega)

/-- Every text can be gone through, since each step leaves a shorter one. -/
theorem exists_scans (opens : scanner.opening ≠ []) (letters : List Char) :
    ∃ bodies, scanner.Scans letters bodies := by
  induction bound : letters.length using Nat.strongRecOn generalizing letters with
  | ind length hypothesis =>
    cases found : find? scanner.opening letters with
    | none =>
      refine ⟨[], .done ?_⟩
      rw [← isSome_find?_iff, found]
      simp
    | some offset =>
      have next := find?_eq_some_iff.mp found
      obtain ⟨before, after, rfl, rfl⟩ := find?_split found
      have size : 0 < scanner.opening.length := List.length_pos_iff.mpr opens
      simp only [List.length_append] at bound
      by_cases closed : ∃ body behind, scanner.Closes after body behind
      · obtain ⟨body, behind, closes⟩ := closed
        have shorter := congrArg List.length closes.split
        simp only [List.length_append] at shorter
        obtain ⟨bodies, rest⟩ := hypothesis behind.length (by omega) behind rfl
        exact ⟨body :: bodies, .token next closes rest⟩
      · obtain ⟨bodies, rest⟩ := hypothesis after.length (by omega) after rfl
        exact ⟨bodies, .skipped next (fun body behind closes => closed ⟨body, behind, closes⟩) rest⟩

theorem strip_enclosed (scanner : Scanner) (body : List Char) :
    scanner.strip (scanner.enclosed body) = trim body := by
  have starts : scanner.opening.isPrefixOf (scanner.enclosed body) = true :=
    List.isPrefixOf_iff_prefix.mpr ⟨body ++ scanner.closing, by simp [enclosed]⟩
  have ends : scanner.closing.isSuffixOf (scanner.enclosed body) = true :=
    List.isSuffixOf_iff_suffix.mpr ⟨scanner.opening ++ body, rfl⟩
  have size : (scanner.enclosed body).length - scanner.closing.length = (scanner.opening ++ body).length := by
    simp only [enclosed, List.length_append]
    omega
  have inner : slice (scanner.enclosed body) scanner.opening.length (scanner.opening ++ body).length = body := by
    rw [slice, enclosed, List.take_left, List.drop_left]
  rw [strip, if_pos (by rw [starts, ends]; rfl), size, inner]

/-- The tokens of a text are those of the grammar: there is one way to go through the text from one opening
delimiter to the next, and what is found are the bodies on this way between their delimiters.  A text begins with
one body at most, and the expression of a token is its body without the blanks around it. -/
theorem tokens_grammatical {opening closing : String} (made : make opening closing = .ok scanner)
    (letters : List Char) :
    (∃ bodies, scanner.Scans letters bodies ∧ (∀ others, scanner.Scans letters others → others = bodies) ∧
      scanner.tokens letters = bodies.map scanner.enclosed ∧
      (scanner.tokens letters).map scanner.strip = bodies.map trim) ∧
    ∀ after body behind other behind', scanner.Closes after body behind → scanner.Closes after other behind' →
      body = other ∧ behind = behind' := by
  have opens : scanner.opening ≠ [] := by
    unfold make at made
    split at made
    · cases made
    · rename_i filled
      cases made
      simp only [Bool.or_eq_true, not_or] at filled
      simpa using filled.1
  have found {bodies : List (List Char)} (scans : scanner.Scans letters bodies) :
      scanner.tokens letters = bodies.map scanner.enclosed :=
    scans.tokensWithin opens _ (Nat.lt_succ_self _)
  obtain ⟨bodies, scans⟩ := exists_scans opens letters
  refine ⟨⟨bodies, scans, fun others scansOthers => ?_, found scans, ?_⟩, fun _ _ _ _ _ => Closes.unique⟩
  · have injective (first second : List Char) (same : scanner.enclosed first = scanner.enclosed second) :
        first = second := by
      simpa [enclosed] using same
    exact (List.map_inj_right injective).mp ((found scansOthers).symm.trans (found scans))
  · rw [found scans, List.map_map]
    exact List.map_congr_left fun body _ => scanner.strip_enclosed body

/-- A token with a bracket in a quoted text, with brackets inside, and an opening delimiter that is never closed. -/
theorem tokens_grammatical_quoted :
    make "$\x7b" "\x7d" = .ok values ∧ ∃ bodies, values.Scans "a $\x7b \x7b'\\'\x7d': 1\x7d \x7d $\x7bb".toList bodies ∧
      bodies.map trim = ["\x7b'\\'\x7d': 1\x7d".toList] := by
  have made : make "$\x7b" "\x7d" = .ok values := rfl
  obtain ⟨⟨bodies, scans, -, -, stripped⟩, -⟩ := tokens_grammatical made "a $\x7b \x7b'\\'\x7d': 1\x7d \x7d $\x7bb".toList
  exact ⟨made, bodies, scans, stripped.symm.trans (by decide)⟩

end Imprint.Expression.Scanner
