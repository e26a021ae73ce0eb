import Imprint.Proofs.TokenValues
import Mathlib.Data.List.Infix

/-! # Line breaks in the places of a placeholder

A line break reads as the letter that ends a line.  So replacing a placeholder by line breaks shortens the text, or
takes a letter out of it, unless the placeholder is this letter: then a text that has it never loses it.

The loop looks for the placeholder from the start of the text each time.  A placeholder without line ends does not
reach over a break, nor does it occur in front of one, so the breaks stand where one pass over the text puts them. -/
set_option autoImplicit false
namespace Imprint
open Xml Document Node

/-! ## Occurrences one at a time -/

namespace Text

variable {old front rest text : List Char} {letter : Char}

/-- A text does not reach over a letter that it does not have. -/
theorem prefix_across (front : List Char) (apart : letter ∉ old) : old <+: front ++ [letter] ++ rest ↔ old <+: front := by
  constructor
  · intro starts
    rcases List.prefix_or_prefix_of_prefix starts (List.prefix_append _ _) with within | beyond
    · rcases List.prefix_concat_iff.mp within with same | within
      · exact absurd (same ▸ List.mem_append_right _ List.mem_cons_self) apart
      · exact within
    · exact absurd (beyond.subset (List.mem_append_right _ List.mem_cons_self)) apart
  · intro starts
    rw [List.append_assoc]
    exact starts.trans (List.prefix_append _ _)

/-- What does not occur in front of a letter that it does not have is found behind it. -/
theorem find?_across (rest : List Char) (filled : old ≠ []) (apart : letter ∉ old) (missing : ¬ old <:+: front) :
    find? old (front ++ [letter] ++ rest) = (find? old rest).map ((front ++ [letter]).length + ·) := by
  induction front with
  | nil =>
    have later : ¬ old <+: letter :: rest := fun starts =>
      filled (List.prefix_nil.mp ((prefix_across [] apart).mp starts))
    simp [find?, later, Nat.add_comm]
  | cons first front hypothesis =>
    rw [List.infix_cons_iff, not_or] at missing
    have later : ¬ old <+: first :: (front ++ [letter] ++ rest) := fun starts =>
      missing.1 ((prefix_across (first :: front) apart).mp starts)
    simp only [List.cons_append, find?, List.isPrefixOf_iff_prefix, later, if_false, hypothesis missing.2,
      Option.map_map, List.length_cons]
    congr 1
    funext offset
    exact Nat.add_right_comm _ _ _

/-- A part that does not have a text stays as it is, up to a letter that the text does not have. -/
theorem replace_across (filled : old ≠ []) (apart : letter ∉ old) (missing : ¬ old <:+: front) (new : List Char)
    (limit : Nat) : replace old new limit (front ++ [letter] ++ rest) =
      front ++ [letter] ++ replace old new limit rest := by
  cases limit with
  | zero => simp only [replace_none filled]
  | succ limit =>
    have found := find?_across rest filled apart missing
    cases behind : find? old rest with
    | none =>
      rw [behind] at found
      rw [replace_unfound filled found, replace_unfound filled behind]
    | some offset =>
      rw [behind] at found
      rw [replace_found filled found, replace_found filled behind, List.take_length_add_append, Nat.add_assoc,
        List.drop_length_add_append]
      simp only [List.append_assoc]

theorem FirstAt.not_before {start : Nat} (occurs : FirstAt old text start) (filled : old ≠ []) :
    ¬ old <:+: text.take start := by
  rintro ⟨before, after, whole⟩
  have long : before.length + old.length + after.length ≤ start := by
    have length := congrArg List.length whole
    rw [List.length_append, List.length_append, List.length_take] at length
    omega
  have earlier : before.length < start := by
    have := List.length_pos_iff.mpr filled
    omega
  have split : before ++ (old ++ (after ++ text.drop start)) = text := by
    rw [← List.append_assoc, ← List.append_assoc, whole, List.take_append_drop]
  refine occurs.first _ earlier ⟨after ++ text.drop start, ?_⟩
  have behind : (before ++ (old ++ (after ++ text.drop start))).drop before.length = _ := List.drop_left
  exact behind.symm.trans (congrArg _ split)

/-- Replacing some occurrences by a letter that they do not have can be done one at a time, each time from the
start of the text. -/
theorem replace_succ (filled : old ≠ []) (apart : letter ∉ old) (limit : Nat) (text : List Char) :
    replace old [letter] limit (replace old [letter] 1 text) = replace old [letter] (limit + 1) text := by
  cases found : find? old text with
  | none => simp only [replace_unfound filled found]
  | some start =>
    have missing := (find?_eq_some_iff.mp found).not_before filled
    rw [replace_found filled found, replace_found filled found, replace_none filled,
      replace_across filled apart missing]

/-- A text has no more occurrences to replace than it has letters. -/
theorem replace_enough (filled : old ≠ []) (new : List Char) : ∀ {limit other : Nat} {text : List Char},
    text.length ≤ limit → text.length ≤ other → replace old new limit text = replace old new other text := by
  intro limit
  induction limit with
  | zero =>
    intro other text enough _
    cases List.length_eq_zero_iff.mp (Nat.le_zero.mp enough)
    have unfound : find? old [] = none := by simp [find?, filled]
    rw [replace_unfound filled unfound, replace_unfound filled unfound]
  | succ limit hypothesis =>
    intro other text enough others
    cases found : find? old text with
    | none => rw [replace_unfound filled found, replace_unfound filled found]
    | some start =>
      have size := List.length_pos_iff.mpr filled
      have within := (find?_eq_some_iff.mp found).here.length_le
      rw [List.length_drop] at within
      obtain ⟨others', rfl⟩ := Nat.exists_eq_succ_of_ne_zero (by omega : other ≠ 0)
      rw [replace_found filled found, replace_found filled found]
      exact congrArg _ (hypothesis (by rw [List.length_drop]; omega) (by rw [List.length_drop]; omega))

end Text

namespace Replacer

variable {replacer : Replacer} {wanted : List Char} {paragraph broken : Node}

/-- A line break is made exactly if the placeholder has letters and occurs. -/
theorem isSome_breakLine_iff (replacer : Replacer) (wanted : List Char) (paragraph : Node) :
    (replacer.breakLine? wanted paragraph).isSome = true ↔ wanted ≠ [] ∧ wanted <:+: paragraphText paragraph :=
  isSome_replaceText_iff paragraph wanted _

theorem isRun_breakRun (replacer : Replacer) (wanted : List Char) (paragraph : Node) :
    ∀ node ∈ some (createBreakRun (replacer.style.properties paragraph wanted)), isRun node = true := by
  intro node member
  cases member
  rfl

theorem textOfRun_breakRun :
    textOfRun (some (createBreakRun (replacer.style.properties paragraph wanted))) = ['\n'] :=
  runText_createBreakRun (areProperties_style replacer.style paragraph wanted)

/-- What one line break does to a text: it stands in the place of the placeholder, and of the rest of the text letters
may be lost. -/
theorem breakLine_text (found : replacer.breakLine? wanted paragraph = some broken) :
    ∃ before after front back, paragraphText paragraph = before ++ wanted ++ after ∧
      paragraphText broken = front ++ ['\n'] ++ back ∧ front.Sublist before ∧ back.Sublist after := by
  obtain ⟨start, first, last, isMatch, text⟩ := replaceText_splices (isRun_breakRun replacer wanted paragraph) found
  obtain ⟨tail, whole⟩ := isMatch.occurs.here
  have behind : (paragraphText paragraph).drop (start + wanted.length) = tail := by
    rw [← List.drop_drop, ← whole, List.drop_left]
  have isFront : ((paragraphText paragraph).take first.start ++
      rewritten (Text.slice (paragraphText paragraph) first.start start)).Sublist
        ((paragraphText paragraph).take start) := by
    rw [← Text.take_append_slice _ isMatch.begins.1]
    exact (List.Sublist.refl _).append List.filter_sublist
  have isBack : (rewritten (Text.slice (paragraphText paragraph) (start + wanted.length) last.stop) ++
      (paragraphText paragraph).drop last.stop).Sublist tail := by
    rw [← behind, ← Text.slice_append_drop _ isMatch.ends.2]
    exact List.filter_sublist.append (List.Sublist.refl _)
  refine ⟨(paragraphText paragraph).take start, tail, _, _, ?_, ?_, isFront, isBack⟩
  · rw [List.append_assoc, whole, List.take_append_drop]
  · rw [text, spliced, textOfRun_breakRun, List.append_assoc]

/-- A loop whose steps make a text smaller comes to an end. -/
theorem exists_breaks (measure : List Char → Nat) (smaller : ∀ paragraph broken,
    replacer.breakLine? wanted paragraph = some broken → measure (paragraphText broken) < measure (paragraphText paragraph))
    (paragraph : Node) : ∃ final, Breaks replacer wanted paragraph final := by
  generalize size : measure (paragraphText paragraph) = count
  induction count using Nat.strongRecOn generalizing paragraph with
  | ind count hypothesis =>
    cases found : replacer.breakLine? wanted paragraph with
    | none => exact ⟨paragraph, .ends found⟩
    | some broken =>
      obtain ⟨final, rest⟩ := hypothesis _ (size ▸ smaller paragraph broken found) broken rfl
      exact ⟨final, .breaks found rest⟩

/-- A placeholder of several letters is longer than the line break in its place. -/
theorem exists_breaks_long (long : 2 ≤ wanted.length) (paragraph : Node) :
    ∃ final, Breaks replacer wanted paragraph final := by
  apply exists_breaks List.length
  intro paragraph broken found
  obtain ⟨before, after, front, back, old, new, isFront, isBack⟩ := breakLine_text found
  have fronts := isFront.length_le
  have backs := isBack.length_le
  simp only [old, new, List.length_append, List.length_singleton]
  omega

/-- A placeholder of one letter other than the one that a line break reads as occurs once less each time. -/
theorem exists_breaks_letter {letter : Char} (other : letter ≠ '\n') (paragraph : Node) :
    ∃ final, Breaks replacer [letter] paragraph final := by
  apply exists_breaks (List.count letter)
  intro paragraph broken found
  obtain ⟨before, after, front, back, old, new, isFront, isBack⟩ := breakLine_text found
  have fronts := isFront.count_le letter
  have backs := isBack.count_le letter
  have none : List.count letter ['\n'] = 0 := by simp [Ne.symm other]
  simp only [old, new, List.count_append, none, List.count_singleton_self]
  omega

/-- A text that ends a line somewhere does so after any number of line breaks in the places of its line ends. -/
theorem Breaks.no_line_end {final : Node} (breaks : Breaks replacer ['\n'] paragraph final) :
    '\n' ∉ paragraphText paragraph := by
  induction breaks with
  | @ends paragraph missing =>
    intro member
    have found := (isSome_breakLine_iff replacer ['\n'] paragraph).mpr
      ⟨List.cons_ne_nil _ _, (List.singleton_infix_iff _ _).mpr member⟩
    rw [missing] at found
    cases found
  | breaks found _ hypothesis =>
    obtain ⟨_, _, _, _, -, new, -, -⟩ := breakLine_text found
    exact absurd (by simp [new]) hypothesis

/-- What the loop ends with does not have the placeholder. -/
theorem Breaks.without {final : Node} (filled : wanted ≠ []) (breaks : Breaks replacer wanted paragraph final) :
    ¬ wanted <:+: paragraphText final := by
  induction breaks with
  | @ends paragraph missing =>
    intro occurs
    have found := (isSome_breakLine_iff replacer wanted paragraph).mpr ⟨filled, occurs⟩
    rw [missing] at found
    cases found
  | breaks _ _ hypothesis => exact hypothesis

/-- In a text that comes back whole a line break stands in the place of the first placeholder. -/
theorem breakLine_once (filled : wanted ≠ []) (kept : Kept (paragraphText paragraph))
    (found : replacer.breakLine? wanted paragraph = some broken) :
    paragraphText broken = Text.replace wanted ['\n'] 1 (paragraphText paragraph) := by
  have text := paragraphText_replaceText filled kept (isRun_breakRun replacer wanted paragraph)
  rw [textOfRun_breakRun] at text
  rw [breakLine?] at found
  rwa [found] at text

/-- The line breaks stand where one pass from left to right puts them. -/
theorem Breaks.text {final : Node} (filled : wanted ≠ []) (apart : '\n' ∉ wanted)
    (breaks : Breaks replacer wanted paragraph final) (kept : Kept (paragraphText paragraph)) :
    paragraphText final = Text.replace wanted ['\n'] (paragraphText paragraph).length (paragraphText paragraph) := by
  induction breaks with
  | ends missing => exact (Text.replace_missing filled ((Breaks.ends missing).without filled) _ _).symm
  | @breaks paragraph broken final found _ hypothesis =>
    have once := breakLine_once filled kept found
    have keptBreak : Kept ['\n'] := isKept_of_writable (by decide) (by decide)
    have rest := hypothesis (once ▸ kept.replace keptBreak filled)
    -- What is left to replace after the first break has no more letters than this.
    let limit := max (paragraphText paragraph).length (paragraphText broken).length
    calc paragraphText final
        = Text.replace wanted ['\n'] limit (paragraphText broken) := by
          rw [rest, Text.replace_enough filled _ (Nat.le_refl _) (Nat.le_max_right _ _)]
      _ = Text.replace wanted ['\n'] (limit + 1) (paragraphText paragraph) := by
          rw [once, Text.replace_succ filled apart]
      _ = _ := Text.replace_enough filled _ (Nat.le_succ_of_le (Nat.le_max_left _ _)) (Nat.le_refl _)

/-- Replacing a placeholder by line breaks comes to an end, and then the placeholder does not occur any more, unless
the placeholder is a line end itself and occurs at the beginning. -/
theorem breakLines_ends (replacer : Replacer) {wanted : List Char} (filled : wanted ≠ []) (paragraph : Node) :
    ((replacer.breakLines wanted paragraph).isSome = true ↔
      ¬ (wanted = ['\n'] ∧ '\n' ∈ paragraphText paragraph)) ∧
    ∀ final, replacer.breakLines wanted paragraph = some final → ¬ wanted <:+: paragraphText final := by
  constructor
  · simp only [Option.isSome_iff_exists, breakLines_eq_some_iff]
    constructor
    · rintro ⟨final, breaks⟩ ⟨rfl, member⟩
      exact breaks.no_line_end member
    · intro apart
      cases wanted with
      | nil => exact absurd rfl filled
      | cons letter rest =>
        cases rest with
        | cons second rest => exact exists_breaks_long (by simp) paragraph
        | nil =>
          by_cases lineEnd : letter = '\n'
          · -- The placeholder is a line end that does not occur: the loop has nothing to do.
            subst lineEnd
            refine ⟨paragraph, .ends ?_⟩
            rw [← Option.not_isSome_iff_eq_none, isSome_breakLine_iff]
            rintro ⟨-, occurs⟩
            exact apart ⟨rfl, (List.singleton_infix_iff _ _).mp occurs⟩
          · exact exists_breaks_letter lineEnd paragraph
  · intro final reached
    exact (breakLines_eq_some_iff.mp reached).without filled

end Replacer

open Imprint.Action

/-- A replacer puts a paragraph without the placeholder into the place of a paragraph, or goes on without end. -/
theorem Engine.replaceLineBreaks_ends {replacer : Replacer} {wanted : String}
    (placeholder : replacer.lineBreak = .text wanted) (filled : wanted.toList ≠ []) {machine : Machine World}
    {paragraph : Nat} {found : Node} (present : machine.outer.forest.find? paragraph = some found) :
    if wanted.toList = ['\n'] ∧ '\n' ∈ paragraphText found then
      runOn (replaceLineBreaks replacer paragraph) machine = (.error .endless, machine)
    else ∃ final, ¬ wanted.toList <:+: paragraphText final ∧ runOn (replaceLineBreaks replacer paragraph) machine =
      runOn (changeForest fun forest => forest.edit paragraph fun _ => final) machine := by
  obtain ⟨ends, without⟩ := replacer.breakLines_ends filled found
  unfold replaceLineBreaks
  rw [placeholder]
  dsimp only
  rw [runOn_bind, runOn_node present]
  dsimp only
  cases reached : replacer.breakLines wanted.toList found with
  | none =>
    rw [reached] at ends
    rw [if_pos (by simpa using ends)]
    rfl
  | some final =>
    rw [reached] at ends
    rw [if_neg (ends.mp rfl)]
    exact ⟨final, without final reached, rfl⟩

/-- Line breaks in the places of a placeholder that has no line end give the text that one pass over the text from
left to right gives, wherever the placeholder occurs and whatever runs it is spread over.  The text is one that a
document accepts, without carriage returns. -/
theorem Engine.replaceLineBreaks_text {replacer : Replacer} {wanted : String}
    (placeholder : replacer.lineBreak = .text wanted) (filled : wanted.toList ≠ []) (apart : '\n' ∉ wanted.toList)
    {machine : Machine World} (wellFormed : machine.outer.forest.WellFormed) {paragraph : Nat} {found : Node}
    (present : machine.outer.forest.find? paragraph = some found) (plain : '\r' ∉ paragraphText found)
    (writable : Text.isWritable (paragraphText found) = true) :
    ∃ after final, runOn (replaceLineBreaks replacer paragraph) machine = (.ok (), after) ∧
      after.outer.forest.find? paragraph = some final ∧
      paragraphText final =
        Text.replace wanted.toList ['\n'] (paragraphText found).length (paragraphText found) := by
  have ends : (replacer.breakLines wanted.toList found).isSome = true :=
    (replacer.breakLines_ends filled found).1.mpr fun ⟨same, _⟩ => apart (same ▸ List.mem_cons_self)
  obtain ⟨broken, reached⟩ := Option.isSome_iff_exists.mp ends
  have text := (Replacer.breakLines_eq_some_iff.mp reached).text filled apart (isKept_of_writable plain writable)
  have changed : Replacer.Changed (fun _ => True) found broken :=
    Replacer.breakLines_changed (fun _ _ _ => trivial) reached
  obtain ⟨final, isFinal, copied⟩ := @Forest.WellFormed.edit_find? _ wellFormed (fun _ => True) paragraph
    (fun _ => broken) found present changed.head changed.revised trivial
  have reads : paragraphText final = paragraphText broken := by
    rw [← flatten_runTexts, ← flatten_runTexts broken, runTexts_of_copied copied]
  refine ⟨{ machine with outer := { machine.outer with
    forest := machine.outer.forest.edit paragraph fun _ => broken } }, final, ?_, isFinal, reads.trans text⟩
  unfold replaceLineBreaks
  rw [placeholder]
  dsimp only
  rw [runOn_bind, runOn_node present]
  dsimp only
  rw [reached]
  rfl

/-- A placeholder that is spread over runs, stands twice in a row and overlaps what is left behind it. -/
def barred : Machine World :=
  ⟨.empty, World.ofPackage ⟨Node.ofTag Tag.body [createParagraph ["x|".toList, "||".toList, "||y".toList]], [], [],
    none, false⟩ [] []⟩

theorem Engine.replaceLineBreaks_text_barred :
    let replacer := { Replacer.standard with lineBreak := .text "||" }
    let found := (barred.outer.forest.find? 2).get (by decide +kernel)
    "||".toList ≠ [] ∧ '\n' ∉ "||".toList ∧ barred.outer.forest.WellFormed ∧
      barred.outer.forest.find? 2 = some found ∧ '\r' ∉ paragraphText found ∧
      Text.isWritable (paragraphText found) = true ∧ paragraphText found = "x|||||y".toList ∧
      ∃ after final, runOn (replaceLineBreaks replacer 2) barred = (.ok (), after) ∧
        after.outer.forest.find? 2 = some final ∧ paragraphText final = "x\n\n|y".toList := by
  intro replacer found
  have placeholder : replacer.lineBreak = .text "||" := rfl
  have filled : "||".toList ≠ [] := by decide
  have apart : '\n' ∉ "||".toList := by decide
  have wellFormed : barred.outer.forest.WellFormed := ⟨by decide +kernel, by decide +kernel⟩
  have present : barred.outer.forest.find? 2 = some found := (Option.some_get _).symm
  have plain : '\r' ∉ paragraphText found := by decide +kernel
  have writable : Text.isWritable (paragraphText found) = true := by decide +kernel
  have text : paragraphText found = "x|||||y".toList := by decide +kernel
  have replaced := replaceLineBreaks_text placeholder filled apart wellFormed present plain writable
  rw [text] at replaced
  exact ⟨filled, apart, wellFormed, present, plain, writable, text, replaced⟩

end Imprint
