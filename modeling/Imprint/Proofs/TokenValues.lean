import Imprint.Proofs.ReplacedText
import Imprint.Proofs.ValuesInPlace
/-! # Values in the places of their tokens

The tokens of a paragraph are found once, before the first of them is replaced.  Each replacement looks for its
token in the text as it is by then, so it may come upon what an earlier token has left, or upon a value.  If no
token is found in front of its own place, every value stands where its token was. -/
set_option autoImplicit false
namespace Imprint
open Imprint.Action Xml Document Node

/-! ## Texts -/

namespace Text

variable {old text : List Char}

theorem splitOn_filled (separator : List Char) (limit : Nat) (text : List Char) :
    splitOn separator limit text ≠ [] := by
  cases limit with
  | zero => exact List.cons_ne_nil _ _
  | succ limit =>
    rw [splitOn]
    split <;> exact List.cons_ne_nil _ _

theorem joinWith_cons (separator first : List Char) {pieces : List (List Char)} (filled : pieces ≠ []) :
    joinWith separator (first :: pieces) = first ++ separator ++ joinWith separator pieces := by
  cases pieces with
  | nil => exact absurd rfl filled
  | cons second pieces => rfl

theorem replace_none (filled : old ≠ []) (new text : List Char) : replace old new 0 text = text := by
  simp [replace, filled, splitOn, joinWith]

/-- The first occurrence is replaced, and then those behind it. -/
theorem replace_found {start : Nat} (filled : old ≠ []) (found : find? old text = some start) (new : List Char)
    (limit : Nat) : replace old new (limit + 1) text =
      text.take start ++ new ++ replace old new limit (text.drop (start + old.length)) := by
  simp only [replace, List.isEmpty_iff, filled, if_false, splitOn, found]
  exact joinWith_cons new _ (splitOn_filled _ _ _)

theorem replace_unfound (filled : old ≠ []) (unfound : find? old text = none) (new : List Char) (limit : Nat) :
    replace old new limit text = text := by
  cases limit <;> simp [replace, filled, splitOn, unfound, joinWith]

theorem replace_once {start : Nat} (filled : old ≠ []) (occurs : FirstAt old text start) (new : List Char) :
    replace old new 1 text = text.take start ++ new ++ text.drop (start + old.length) := by
  rw [replace_found filled (find?_eq_some_iff.mpr occurs), replace_none filled]

theorem replace_missing (filled : old ≠ []) (missing : ¬ old <:+: text) (new : List Char) (limit : Nat) :
    replace old new limit text = text := by
  refine replace_unfound filled ?_ new limit
  rw [← Option.not_isSome_iff_eq_none, isSome_find?_iff]
  exact missing

theorem mem_replace_once {new : List Char} {letter : Char} (filled : old ≠ [])
    (member : letter ∈ replace old new 1 text) : letter ∈ text ∨ letter ∈ new := by
  by_cases occurs : old <:+: text
  · obtain ⟨start, found⟩ := Option.isSome_iff_exists.mp (isSome_find?_iff.mpr occurs)
    rw [replace_once filled (find?_eq_some_iff.mp found), List.mem_append, List.mem_append] at member
    rcases member with (before | inside) | behind
    · exact .inl (List.mem_of_mem_take before)
    · exact .inr inside
    · exact .inl (List.mem_of_mem_drop behind)
  · rw [replace_missing filled occurs] at member
    exact .inl member

end Text

/-- A token of a text, what is put in its place, if anything is, and the gap behind it. -/
structure Turn where
  token : List Char
  placed : Option (List Char)
  gap : List Char

namespace Turn

/-- What stands for a token afterwards. -/
def value (turn : Turn) : List Char :=
  turn.placed.getD turn.token

/-- A token and what is put in its place. -/
def change (turn : Turn) : List Char × Option (List Char) :=
  (turn.token, turn.placed)

/-- A text of gaps, with something for each token between two of them. -/
def woven (shown : Turn → List Char) (before : List Char) (turns : List Turn) : List Char :=
  before ++ turns.flatMap fun turn => shown turn ++ turn.gap

theorem woven_append (shown : Turn → List Char) (first before : List Char) (turns : List Turn) :
    woven shown (first ++ before) turns = first ++ woven shown before turns :=
  List.append_assoc _ _ _

theorem woven_cons (shown : Turn → List Char) (before : List Char) (turn : Turn) (rest : List Turn) :
    woven shown before (turn :: rest) = woven shown (before ++ shown turn ++ turn.gap) rest := by
  simp [woven]

/-- When it is its turn, no token that is replaced is found in front of its own place. -/
def Undisturbed : List Char → List Turn → Prop
  | _, [] => True
  | before, turn :: rest =>
      (turn.placed.isSome = true → Text.FirstAt turn.token (woven token before (turn :: rest)) before.length) ∧
        Undisturbed (before ++ turn.value ++ turn.gap) rest

end Turn

/-- A text after its tokens have been gone through: where something is put in the place of a token, it is put
where the token first occurs by then. -/
def replacedInTurn : List (List Char × Option (List Char)) → List Char → List Char
  | [], text => text
  | (token, placed) :: rest, text =>
      replacedInTurn rest (placed.elim text fun letters => Text.replace token letters 1 text)

/-- If no token is found in front of its own place, everything is put where its token was. -/
theorem Turn.Undisturbed.replacedInTurn {turns : List Turn} (filled : ∀ turn ∈ turns, turn.token ≠ []) :
    ∀ {before : List Char}, Undisturbed before turns →
      replacedInTurn (turns.map change) (woven token before turns) = woven value before turns := by
  induction turns with
  | nil => exact fun _ => rfl
  | cons turn rest hypothesis =>
    rintro before ⟨first, undisturbed⟩
    have placed : turn.placed.elim (woven token before (turn :: rest))
        (fun letters => Text.replace turn.token letters 1 (woven token before (turn :: rest))) =
          woven token (before ++ turn.value ++ turn.gap) rest := by
      unfold Turn.value
      cases isPlaced : turn.placed with
      | none => exact woven_cons token before turn rest
      | some letters =>
        rw [isPlaced] at first
        have occurs := first rfl
        show Text.replace _ _ _ _ = _
        rw [Text.replace_once (filled turn List.mem_cons_self) occurs]
        simp [woven]
    rw [List.map_cons, change, Imprint.replacedInTurn, placed,
      hypothesis (fun other member => filled other (List.mem_cons_of_mem _ member)) undisturbed, woven_cons]

/-- A value is put into an earlier token that is left. -/
example : replacedInTurn [("$\x7bf('$\x7bb\x7d')\x7d".toList, none), ("$\x7bb\x7d".toList, some "x".toList)]
    "$\x7bf('$\x7bb\x7d')\x7d $\x7bb\x7d".toList = "$\x7bf('x')\x7d $\x7bb\x7d".toList := by decide

/-! ## Tokens -/

namespace Expression.Scanner

variable {scanner : Scanner}

/-- A text with tokens is made of them and of gaps. -/
theorem tokensWithin_woven (scanner : Scanner) : ∀ (fuel : Nat) (letters : List Char)
    (changes : List (List Char × Option (List Char))), changes.map Prod.fst = scanner.tokensWithin fuel letters →
      ∃ before turns, turns.map Turn.change = changes ∧ letters = Turn.woven Turn.token before turns := by
  have nothing (letters : List Char) (changes : List (List Char × Option (List Char)))
      (none : changes.map Prod.fst = []) :
      ∃ before turns, turns.map Turn.change = changes ∧ letters = Turn.woven Turn.token before turns :=
    ⟨letters, [], (List.map_eq_nil_iff.mp none).symm, (List.append_nil letters).symm⟩
  intro fuel
  induction fuel with
  | zero => exact nothing
  | succ fuel hypothesis =>
    intro letters changes scanned
    rw [tokensWithin] at scanned
    cases found : Text.find? scanner.opening letters with
    | none =>
      rw [found] at scanned
      exact nothing letters changes scanned
    | some offset =>
      rw [found] at scanned
      obtain ⟨gap, body, rfl, rfl⟩ := Text.find?_split found
      simp only [List.append_assoc, List.drop_left] at scanned
      cases closed : scanner.tokenEnd body with
      | none =>
        rw [closed] at scanned
        -- A delimiter that is never closed belongs to the gap in front of the next token.
        obtain ⟨before, turns, same, rest⟩ := hypothesis body changes scanned
        refine ⟨gap ++ scanner.opening ++ before, turns, same, ?_⟩
        rw [Turn.woven_append, ← rest]
      | some size =>
        rw [closed] at scanned
        obtain ⟨⟨token, placed⟩, others, rfl, isToken, later⟩ := List.map_eq_cons_iff.mp scanned
        obtain ⟨before, turns, same, rest⟩ := hypothesis (body.drop size) others later
        refine ⟨gap, ⟨token, placed, before⟩ :: turns, by rw [List.map_cons, same]; rfl, ?_⟩
        dsimp only at isToken
        rw [List.take_length_add_append] at isToken
        rw [Turn.woven_cons, Turn.woven_append, ← rest, isToken]
        simp

theorem opening_isPrefix_of_mem (fuel : Nat) : ∀ {letters token : List Char},
    token ∈ scanner.tokensWithin fuel letters → scanner.opening <+: token := by
  induction fuel with
  | zero => exact fun member => absurd member List.not_mem_nil
  | succ fuel hypothesis =>
    intro letters token member
    rw [tokensWithin] at member
    cases found : Text.find? scanner.opening letters with
    | none =>
      rw [found] at member
      exact absurd member List.not_mem_nil
    | some offset =>
      rw [found] at member
      obtain ⟨body, start⟩ := (Text.find?_eq_some_iff.mp found).here
      dsimp only at member
      rw [← start, List.drop_left] at member
      cases closed : scanner.tokenEnd body with
      | none =>
        rw [closed] at member
        exact hypothesis member
      | some size =>
        rw [closed] at member
        rcases List.mem_cons.mp member with rfl | member
        · rw [List.take_length_add_append]
          exact List.prefix_append _ _
        · exact hypothesis member

end Expression.Scanner

/-- Where the tokens of a text have been found, they are those of a scanner, or there are none. -/
theorem Delimiters.tokens_scanned {delimiters : Delimiters} {letters : List Char} {tokens : List (List Char)}
    {store after : Store} (found : runOn (delimiters.tokens letters) store = (.ok tokens, after)) :
    after = store ∧ ∃ (scanner : Expression.Scanner) (fuel : Nat), tokens = scanner.tokensWithin fuel letters ∧
      (delimiters.opening ≠ .text "" → scanner.opening ≠ []) := by
  have none (isNone : tokens = []) : ∃ (scanner : Expression.Scanner) (fuel : Nat),
      tokens = scanner.tokensWithin fuel letters ∧ (delimiters.opening ≠ .text "" → scanner.opening ≠ []) :=
    ⟨.values, 0, isNone, fun _ => List.cons_ne_nil _ _⟩
  unfold Delimiters.tokens at found
  split at found
  · cases found
    exact ⟨rfl, none rfl⟩
  · split at found
    · rename_i opening closing isOpening isClosing
      cases found
      refine ⟨rfl, ⟨opening.toList, closing.toList⟩, letters.length + 1, rfl, fun filled empty => filled ?_⟩
      rw [isOpening, String.toList_eq_nil_iff.mp empty]
    · cases found
      exact ⟨rfl, none rfl⟩
    · cases found
      exact ⟨rfl, none rfl⟩
    · split at found
      · cases found
      · cases found
        exact ⟨rfl, none rfl⟩
    · cases found

namespace Delimiters

variable {delimiters : Delimiters} {letters : List Char} {tokens : List (List Char)} {store after : Store}

theorem tokens_filled (opens : delimiters.opening ≠ .text "")
    (found : runOn (delimiters.tokens letters) store = (.ok tokens, after)) : ∀ token ∈ tokens, token ≠ [] := by
  obtain ⟨-, scanner, fuel, isTokens, isFilled⟩ := tokens_scanned found
  intro token member empty
  have starts := Expression.Scanner.opening_isPrefix_of_mem fuel (isTokens ▸ member)
  rw [empty, List.prefix_nil] at starts
  exact isFilled opens starts

/-- The tokens of a text with gaps around them.  If no token that is replaced is found in front of its own place,
what is put in the places of the tokens stands between the same gaps. -/
theorem tokens_woven (opens : delimiters.opening ≠ .text "")
    (found : runOn (delimiters.tokens letters) store = (.ok tokens, after))
    {changes : List (List Char × Option (List Char))} (same : changes.map Prod.fst = tokens) :
    ∃ before turns, turns.map Turn.change = changes ∧ letters = Turn.woven Turn.token before turns ∧
      (Turn.Undisturbed before turns → replacedInTurn changes letters = Turn.woven Turn.value before turns) := by
  have filled := tokens_filled opens found
  obtain ⟨-, scanner, fuel, isTokens, -⟩ := tokens_scanned found
  obtain ⟨before, turns, isChange, woven⟩ := scanner.tokensWithin_woven fuel letters changes (same.trans isTokens)
  refine ⟨before, turns, isChange, woven, fun undisturbed => ?_⟩
  rw [woven, ← isChange]
  refine undisturbed.replacedInTurn fun turn member => filled turn.token ?_
  rw [← same, ← isChange, List.map_map]
  exact List.mem_map_of_mem (f := Prod.fst ∘ Turn.change) member

end Delimiters

/-! ## Content -/

namespace Document

theorem toRun_isRun {content : Value} {properties run : Option Node} {store after : Store}
    (made : runOn (toRun content properties) store = (.ok run, after)) : ∀ node ∈ run, isRun node = true := by
  have ofText {letters : List Char} {store : Store} (made : runOn (do
      return some (← runOfText letters properties) : Heap (Option Node)) store = (.ok run, after)) :
      ∀ node ∈ run, isRun node = true := by
    obtain ⟨written, middle, writes, rest⟩ := bind_ok made
    cases rest
    unfold runOfText at writes
    split at writes
    · cases writes
      rintro node ⟨⟩
      rfl
    · cases writes
  unfold toRun at made
  split at made
  · cases made
    exact fun _ member => absurd member (Option.not_mem_none _)
  · exact ofText made
  · rename_i node
    split at made
    · rename_i direct
      cases made
      rintro node ⟨⟩
      exact (hasTag_copied _ _).trans direct
    · cases made
      rintro node ⟨⟩
      rfl
  · obtain ⟨letters, middle, -, rest⟩ := bind_ok made
    exact ofText rest

/-- A text that comes back whole when it is written into a run. -/
def Kept (letters : List Char) : Prop :=
  ∀ letter ∈ letters, isKept letter = true

theorem Kept.rewritten {letters part : List Char} (kept : Kept letters) (among : part ⊆ letters) :
    rewritten part = part :=
  rewritten_of_kept fun letter member => kept letter (among member)

theorem Kept.replace {letters token new : List Char} (kept : Kept letters) (keptNew : Kept new) (filled : token ≠ []) :
    Kept (Text.replace token new 1 letters) := fun letter member =>
  (Text.mem_replace_once filled member).elim (kept letter) (keptNew letter)

/-- In a text that comes back whole a replacement takes the place of the first occurrence and of nothing else. -/
theorem paragraphText_replaceText {paragraph : Node} {wanted : List Char} {replacement : Option Node}
    (filled : wanted ≠ []) (kept : Kept (paragraphText paragraph)) (direct : ∀ node ∈ replacement, isRun node = true) :
    paragraphText ((replaceText? paragraph (.ofParagraph paragraph) wanted replacement).getD paragraph) =
      Text.replace wanted (textOfRun replacement) 1 (paragraphText paragraph) := by
  cases replaced : replaceText? paragraph (.ofParagraph paragraph) wanted replacement with
  | none =>
    have missing : ¬ wanted <:+: paragraphText paragraph := fun occurs => by
      have made := (isSome_replaceText_iff paragraph wanted replacement).mpr ⟨filled, occurs⟩
      rw [replaced] at made
      cases made
    exact (Text.replace_missing filled missing _ 1).symm
  | some changed =>
    obtain ⟨start, first, last, isMatch, text⟩ := replaceText_splices direct replaced
    have part (start stop : Nat) : Text.slice (paragraphText paragraph) start stop ⊆ paragraphText paragraph :=
      fun _ member => List.mem_of_mem_take (List.mem_of_mem_drop member)
    rw [Text.replace_once filled isMatch.occurs, Option.getD_some, text, spliced, kept.rewritten (part _ _),
      kept.rewritten (part _ _), Text.take_append_slice _ isMatch.begins.1, List.append_assoc,
      Text.slice_append_drop _ isMatch.ends.2]

end Document

namespace Replacer

theorem replaceIn_text (replacer : Replacer) {paragraph changed : Node} {wanted : List Char} {content : Value}
    {store after : Store} (filled : wanted ≠ []) (kept : Kept (paragraphText paragraph))
    (accepted : runOn (replacer.replaceIn paragraph wanted content) store = (.ok changed, after)) :
    ∃ run, runOn (toRun content none) store = (.ok run, after) ∧
      paragraphText changed = Text.replace wanted (textOfRun run) 1 (paragraphText paragraph) := by
  have proper := areProperties_style replacer.style paragraph wanted
  obtain ⟨run, middle, made, rest⟩ := bind_ok accepted
  obtain ⟨first, second, last, same, plain, outcome⟩ := toRun_same proper areProperties_none content store
  rw [made] at same
  cases same
  cases outcome with
  | @value _ right related =>
    cases rest
    have sameText : textOfRun right = textOfRun run := by
      rw [← flatten_runTexts_run (toRun_isRun plain), ← flatten_runTexts_run (toRun_isRun made), related.texts]
    exact ⟨right, plain, sameText ▸ paragraphText_replaceText filled kept (toRun_isRun made)⟩

/-- What the policies put in the place of a token after an attempt to evaluate it, if anything. -/
def contentFor (replacer : Replacer) : Engine.Outcome → Heap (Option Value)
  | .resolved .null =>
      if replacer.replaceNull then return some (← replacer.renderers.default.render replacer.nullDefault)
      else return none
  | .resolved value => return some (← (replacer.renderers.ofValue value).render value)
  | .unresolved .. =>
      if replacer.leaveEmpty then return some .null
      else if replacer.replaceUnresolved then return some replacer.unresolvedDefault
      else return none

/-- The text that is put in the place of a token after an attempt to evaluate it, if anything is. -/
def textFor (replacer : Replacer) (outcome : Engine.Outcome) : Heap (Option (List Char)) := do
  match ← replacer.contentFor outcome with
  | none => return none
  | some content => return some (textOfRun (← toRun content none))

theorem textFor_none {replacer : Replacer} {outcome : Engine.Outcome} {store after : Store}
    (asked : runOn (replacer.contentFor outcome) store = (.ok none, after)) :
    runOn (replacer.textFor outcome) store = (.ok none, after) := by
  unfold textFor
  rw [runOn_bind, asked]
  rfl

theorem textFor_some {replacer : Replacer} {outcome : Engine.Outcome} {content : Value} {run : Option Node}
    {store middle after : Store} (asked : runOn (replacer.contentFor outcome) store = (.ok (some content), middle))
    (made : runOn (toRun content none) middle = (.ok run, after)) :
    runOn (replacer.textFor outcome) store = (.ok (some (textOfRun run)), after) := by
  unfold textFor
  rw [runOn_bind, asked]
  dsimp only
  rw [runOn_bind, made]
  rfl

end Replacer
/-! ## The turn of a token -/

namespace Engine

/-- The text of a paragraph at some point of a run, and how far the run has come by then. -/
structure Worded (start : List Event) (paragraph : Nat) (letters : List Char) (machine : Machine World) : Prop where
  since : ∃ new, machine.outer.events = new ++ start
  wellFormed : machine.outer.forest.WellFormed
  shown : ∃ node, machine.outer.forest.find? paragraph = some node ∧ paragraphText node = letters

variable {start : List Event} {paragraph : Nat} {letters token : List Char} {replacer : Replacer}
  {source : Nat → Engine Context} {machine final : Machine World}

theorem Worded.reported {after : World} (worded : Worded start paragraph letters machine)
    (reports : Reports machine.outer after) (store : Store) : Worded start paragraph letters ⟨store, after⟩ where
  since := reports.events ▸ worded.since
  wellFormed := reports.forest ▸ worded.wellFormed
  shown := reports.forest ▸ worded.shown

theorem Worded.noted (worded : Worded start paragraph letters machine) (event : Event) :
    Worded start paragraph letters { machine with outer := machine.outer.noting event } where
  since := by
    obtain ⟨new, since⟩ := worded.since
    exact ⟨event :: new, congrArg (event :: ·) since⟩
  wellFormed := worded.wellFormed
  shown := worded.shown

theorem worded_free : StoreFree (Worded start paragraph letters) :=
  fun _ store worded => worded.reported (.refl _) store

theorem say_worded (message : List Char) : Keeps (Worded start paragraph letters) (say message) :=
  fun _ worded => ⟨worded.since, worded.wellFormed, worded.shown⟩

/-- The text of a paragraph stays as it is unless a directive is called. -/
theorem worded_frame : Frame fun machine => Called start machine ∨ Worded start paragraph letters machine :=
  called_or_frame worded_free (fun _ worded => worded.since)
    fun machine _ worded reports => worded.reported reports machine.store

theorem replace_worded {content : Value} (filled : token ≠ []) (kept : Kept letters)
    (worded : Worded start paragraph letters machine)
    (replaces : runOn (replace replacer paragraph token content) machine = (.ok (), final)) :
    ∃ run, runOn (toRun content none) machine.store = (.ok run, final.store) ∧
      Worded start paragraph (Text.replace token (textOfRun run) 1 letters) final := by
  obtain ⟨node, found, rfl⟩ := worded.shown
  rw [runOn_replace found] at replaces
  cases reached : runOn (replacer.replaceIn node token content) machine.store with
  | mk outcome store =>
    rw [reached] at replaces
    cases outcome with
    | error fault => cases replaces
    | ok changed =>
      cases replaces
      obtain ⟨run, made, text⟩ := replacer.replaceIn_text filled kept reached
      have mayCut : Replacer.MayCut (fun _ => True) node := fun _ _ _ => trivial
      have revised := replacer.replaceIn_changed mayCut token content reached
      have edited := @Forest.WellFormed.edit_edited _ worded.wellFormed (fun _ => True) paragraph (fun _ => changed)
        node found revised.head revised.revised trivial
      obtain ⟨new, foundNew, copied⟩ := @Forest.WellFormed.edit_find? _ worded.wellFormed (fun _ => True) paragraph
        (fun _ => changed) node found revised.head revised.revised trivial
      refine ⟨run, made, worded.since, edited.wellFormed, new, foundNew, ?_⟩
      rw [← text, ← flatten_runTexts, ← flatten_runTexts changed, runTexts_of_copied copied]

/-- What became of the text of a paragraph when a token was settled: what the policies ask to be put in the place
of the token has been put there. -/
def Places (replacer : Replacer) (outcome : Outcome) (store : Store) (start : List Event) (paragraph : Nat)
    (letters token : List Char) (final : Machine World) : Prop :=
  ∃ placed after, runOn (replacer.textFor outcome) store = (.ok placed, after) ∧
    Worded start paragraph (placed.elim letters fun new => Text.replace token new 1 letters) final

variable {outcome : Outcome}

theorem replace_places {content : Value} {store : Store} (filled : token ≠ []) (kept : Kept letters)
    (asked : runOn (replacer.contentFor outcome) store = (.ok (some content), machine.store))
    (worded : Worded start paragraph letters machine)
    (replaces : runOn (replace replacer paragraph token content) machine = (.ok (), final)) :
    Places replacer outcome store start paragraph letters token final := by
  obtain ⟨run, made, put⟩ := replace_worded filled kept worded replaces
  exact ⟨_, _, Replacer.textFor_some asked made, put⟩

theorem replaceValue_places {renderer : Renderer} {value : Value} (filled : token ≠ []) (kept : Kept letters)
    (asked : replacer.contentFor outcome = do return some (← renderer.render value))
    (worded : Worded start paragraph letters machine)
    (replaces : runOn (replaceValue replacer paragraph token renderer value) machine = (.ok (), final)) :
    Places replacer outcome machine.store start paragraph letters token final := by
  unfold replaceValue at replaces
  obtain ⟨content, rendered, renders, replaces⟩ := bind_ok replaces
  obtain ⟨_, replaced, replaces, tells⟩ := bind_ok replaces
  rw [runOn_lift] at renders
  obtain ⟨rendering, rfl⟩ := Prod.mk.inj renders
  have asked : runOn (replacer.contentFor outcome) machine.store =
      (.ok (some content), (runOn (renderer.render value) machine.store).2) := by
    have rendered : runOn (renderer.render value) machine.store =
        (.ok content, (runOn (renderer.render value) machine.store).2) := Prod.ext rendering rfl
    rw [asked, runOn_bind, rendered]
    rfl
  obtain ⟨placed, after, same, put⟩ := replace_places filled kept asked (worded_free _ _ worded) replaces
  refine ⟨placed, after, same, ?_⟩
  split at tells
  · exact (Keeps.bind (.lift worded_free _) fun _ => say_worded _).leads replaced put () final tells
  · cases tells
    exact put

theorem settleToken_places (filled : token ≠ []) (kept : Kept letters)
    (worded : Worded start paragraph letters machine)
    (settles : runOn (settleToken replacer paragraph token outcome) machine = (.ok (), final)) :
    Places replacer outcome machine.store start paragraph letters token final := by
  cases outcome with
  | resolved value =>
    unfold settleToken replaceResolved at settles
    cases value with
    | null =>
      cases replaces : replacer.replaceNull with
      | true =>
        rw [replaces] at settles
        refine replaceValue_places filled kept ?_ worded settles
        rw [Replacer.contentFor, replaces]
        rfl
      | false =>
        rw [replaces, if_neg Bool.false_ne_true] at settles
        have asked : runOn (replacer.contentFor (.resolved .null)) machine.store = (.ok none, machine.store) := by
          rw [Replacer.contentFor, replaces]
          rfl
        refine ⟨none, machine.store, Replacer.textFor_none asked, ?_⟩
        dsimp only at settles
        split at settles
        · exact (say_worded _).leads machine worded () final settles
        · cases settles
          exact worded
    | _ => exact replaceValue_places filled kept rfl worded settles
  | unresolved expression reason =>
    obtain ⟨_, recorded, records, settles⟩ := bind_ok settles
    obtain ⟨after, records', reports, -⟩ := recordError_reports expression reason "value expression" machine
    rw [records'] at records
    cases records
    have worded := worded.reported reports machine.store
    unfold replaceUnresolved at settles
    split at settles
    · rename_i empties
      refine replace_places filled kept ?_ worded settles
      rw [Replacer.contentFor, empties]
      rfl
    · rename_i fills
      split at settles
      · rename_i replaces
        refine replace_places filled kept ?_ worded settles
        rw [Replacer.contentFor, if_neg fills, replaces]
        rfl
      · rename_i stays
        cases settles
        refine ⟨none, machine.store, Replacer.textFor_none ?_, worded⟩
        rw [Replacer.contentFor, if_neg fills, if_neg stays]
        rfl

/-- The text that is put in the place of a token of a paragraph, if any is. -/
def placedText (replacer : Replacer) (source : Nat → Engine Context) (paragraph : Nat) (token : List Char)
    (machine : Machine World) : Option (List Char) :=
  match runOn (attemptToken replacer source paragraph token) machine with
  | (.ok outcome, after) => (runOn (replacer.textFor outcome) after.store).1.toOption.join
  | (.error _, _) => none

/-- The texts that are put in the places of tokens of a paragraph when they are gone through. -/
def placedTexts (replacer : Replacer) (source : Nat → Engine Context) (paragraph : Nat) :
    List (List Char) → Machine World → List (List Char × Option (List Char))
  | [], _ => []
  | token :: rest, machine => (token, placedText replacer source paragraph token machine) ::
      placedTexts replacer source paragraph rest (runOn (replaceToken replacer source paragraph token) machine).2

theorem placedTexts_tokens (tokens : List (List Char)) : ∀ machine : Machine World,
    (placedTexts replacer source paragraph tokens machine).map Prod.fst = tokens := by
  induction tokens with
  | nil => exact fun _ => rfl
  | cons token rest hypothesis => exact fun machine => congrArg (token :: ·) (hypothesis _)

/-- The tokens of a paragraph, and the texts that are put in their places if its values are replaced now. -/
def placedInText (replacer : Replacer) (source : Nat → Engine Context) (paragraph : Nat) (machine : Machine World) :
    List (List Char × Option (List Char)) :=
  let marked := (runOn (changeSession fun session =>
    { session with resolved := addOnce paragraph session.resolved }) machine).2
  match runOn (replacer.delimiters.tokens (paragraphText
      ((marked.outer.forest.find? paragraph).getD (.mk paragraph (.comment "") "" [] "")))) marked.store with
  | (.ok tokens, store) => placedTexts replacer source paragraph tokens { marked with store }
  | (.error _, _) => []

section Sources

variable (sources : ∀ condition : Machine World → Prop, StoreFree condition → ∀ number, Keeps condition (source number))
include sources

theorem replaceToken_worded (filled : token ≠ []) (kept : Kept letters)
    (worded : Worded start paragraph letters machine)
    (replaces : runOn (replaceToken replacer source paragraph token) machine = (.ok (), final)) :
    Called start final ∨ Worded start paragraph ((placedText replacer source paragraph token machine).elim letters
      fun new => Text.replace token new 1 letters) final := by
  rw [replaceToken_eq] at replaces
  obtain ⟨outcome, attempted, attempts, settles⟩ := bind_ok replaces
  have attending := worded_frame.attemptToken_keeps replacer (sources _ worded_frame.free paragraph) token
    (fun _ _ holds => holds.imp (fun called => called.later [_] rfl) fun worded => worded.noted _) machine (.inr worded)
  rw [attempts] at attending
  -- A directive may edit anything, so nothing is said about the text once one has been called.
  rcases attending with called | worded
  · have edits : EditsAt paragraph (Called start) := fun _ _ _ called _ _ => called
    exact .inl ((called_frame.settleToken_keeps edits replacer token outcome).leads attempted called () final settles)
  · obtain ⟨placed, after, same, put⟩ := settleToken_places filled kept worded settles
    refine .inr ?_
    rw [placedText, attempts]
    dsimp only
    rw [same]
    exact put

theorem replaceTokens_worded (tokens : List (List Char)) (filled : ∀ token ∈ tokens, token ≠ []) :
    ∀ {letters : List Char} {machine final : Machine World}, Kept letters →
      (∀ token new, (token, some new) ∈ placedTexts replacer source paragraph tokens machine → Kept new) →
      Worded start paragraph letters machine →
      runOn (tokens.forM (replaceToken replacer source paragraph)) machine = (.ok (), final) →
      Called start final ∨ Worded start paragraph
        (replacedInTurn (placedTexts replacer source paragraph tokens machine) letters) final := by
  induction tokens with
  | nil =>
    intro letters machine final _ _ worded run
    cases run
    exact .inr worded
  | cons token rest hypothesis =>
    intro letters machine final kept keptNew worded run
    obtain ⟨_, middle, replaces, run⟩ := bind_ok run
    have isFilled := filled token List.mem_cons_self
    rcases replaceToken_worded sources isFilled kept worded replaces with called | worded
    · have edits : EditsAt paragraph (Called start) := fun _ _ _ called _ _ => called
      have remembers := Keeps.forM fun other (_ : other ∈ rest) => called_frame.replaceToken_keeps edits replacer
        (sources _ called_frame.free paragraph) other fun _ _ (called : Called start _) => called.later [_] rfl
      exact .inl (remembers.leads middle called () final run)
    · rw [placedTexts, replaces] at keptNew
      rw [placedTexts, replaces, replacedInTurn]
      refine hypothesis (fun other member => filled other (List.mem_cons_of_mem _ member)) ?_
        (fun other new member => keptNew other new (List.mem_cons_of_mem _ member)) worded run
      cases placed : placedText replacer source paragraph token machine with
      | none => exact kept
      | some new => exact kept.replace (keptNew token new (by rw [placed]; exact List.mem_cons_self)) isFilled

/-- The replacement of its values makes of the text of a paragraph what comes of replacing each token in turn
where it first occurs by then, unless a directive is called.  If no token is found in front of its own place,
every value stands where its token was, and every token that is left stays there. -/
theorem resolveParagraph_text (noBreaks : replacer.NoBreaks) (opens : replacer.delimiters.opening ≠ .text "")
    {found : Node} (wellFormed : machine.outer.forest.WellFormed)
    (present : machine.outer.forest.find? paragraph = some found) (kept : Kept (paragraphText found))
    (keptNew : ∀ token new, (token, some new) ∈ placedInText replacer source paragraph machine → Kept new)
    (run : runOn (resolveParagraph replacer source paragraph) machine = (.ok (), final)) :
    Called machine.outer.events final ∨ ∃ after, final.outer.forest.find? paragraph = some after ∧
      paragraphText after = replacedInTurn (placedInText replacer source paragraph machine) (paragraphText found) ∧
      ∃ before turns, turns.map Turn.change = placedInText replacer source paragraph machine ∧
        paragraphText found = Turn.woven Turn.token before turns ∧
        (Turn.Undisturbed before turns → paragraphText after = Turn.woven Turn.value before turns) := by
  obtain ⟨tokens, scanned, replaced, judged, scans, replaces, rfl⟩ := resolveParagraph_ok noBreaks run
  rw [placedInText, scans] at keptNew ⊢
  dsimp only [runOn_changeSession] at scans keptNew ⊢
  rw [present, Option.getD_some] at scans
  obtain ⟨rfl, -⟩ := Delimiters.tokens_scanned scans
  have worded : Worded machine.outer.events paragraph (paragraphText found) machine :=
    ⟨⟨[], rfl⟩, wellFormed, found, present, rfl⟩
  rcases replaceTokens_worded sources tokens (Delimiters.tokens_filled opens scans) kept keptNew
    ⟨worded.since, worded.wellFormed, worded.shown⟩ replaces with called | ⟨-, -, after, isAfter, text⟩
  · exact .inl called
  · obtain ⟨before, turns, same, woven, whole⟩ := Delimiters.tokens_woven opens scans (placedTexts_tokens tokens _)
    exact .inr ⟨after, isAfter, text, before, turns, same, woven, fun undisturbed => text.trans (whole undisturbed)⟩

end Sources

end Engine

end Imprint
