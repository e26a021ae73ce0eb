import Imprint.Proofs.TextAlignment
/-! # The text of a paragraph after a replacement

A replacement takes the place of the first occurrence of a text.  What the match leaves of the run that it
begins in, and of the one that it ends in, is written anew and loses its carriage returns; the rest of the
text stays. -/
set_option autoImplicit false
namespace Imprint

/-! ## First occurrences -/

namespace Text

/-- A text occurs in another one at an offset, and nowhere in front of it. -/
structure FirstAt (needle text : List Char) (offset : Nat) : Prop where
  here : needle <+: text.drop offset
  first : ∀ earlier < offset, ¬ needle <+: text.drop earlier

theorem firstAt_of_start {needle text : List Char} {offset : Nat} (starts : needle <+: text) :
    FirstAt needle text offset ↔ offset = 0 := by
  constructor
  · intro occurs
    cases offset with
    | zero => rfl
    | succ behind => exact absurd starts (occurs.first 0 (Nat.succ_pos behind))
  · rintro rfl
    exact ⟨starts, fun _ impossible => absurd impossible (Nat.not_lt_zero _)⟩

theorem firstAt_cons_iff {needle rest : List Char} {letter : Char} {offset : Nat}
    (later : ¬ needle <+: letter :: rest) :
    FirstAt needle (letter :: rest) offset ↔ ∃ behind, FirstAt needle rest behind ∧ offset = behind + 1 := by
  constructor
  · rintro ⟨here, first⟩
    cases offset with
    | zero => exact absurd here later
    | succ behind =>
      exact ⟨behind, ⟨here, fun earlier before => first (earlier + 1) (Nat.succ_lt_succ before)⟩, rfl⟩
  · rintro ⟨behind, ⟨here, first⟩, rfl⟩
    refine ⟨here, fun earlier before => ?_⟩
    cases earlier with
    | zero => exact later
    | succ earlier => exact first earlier (Nat.lt_of_succ_lt_succ before)

theorem find?_eq_some_iff {needle text : List Char} {offset : Nat} :
    find? needle text = some offset ↔ FirstAt needle text offset := by
  induction text generalizing offset with
  | nil =>
    simp only [find?, List.isEmpty_iff]
    split
    · rename_i empty
      rw [firstAt_of_start (empty ▸ List.nil_prefix), Option.some.injEq, eq_comm]
    · rename_i filled
      refine ⟨fun impossible => (by cases impossible), fun occurs => ?_⟩
      have empty := occurs.here
      rw [List.drop_nil, List.prefix_nil] at empty
      exact absurd empty filled
  | cons letter rest hypothesis =>
    simp only [find?, List.isPrefixOf_iff_prefix]
    split
    · rename_i starts
      rw [firstAt_of_start starts, Option.some.injEq, eq_comm]
    · rename_i later
      rw [firstAt_cons_iff later, Option.map_eq_some_iff]
      constructor
      · rintro ⟨behind, found, rfl⟩
        exact ⟨behind, hypothesis.mp found, rfl⟩
      · rintro ⟨behind, occurs, rfl⟩
        exact ⟨behind, hypothesis.mpr occurs, rfl⟩

/-- What is found stands between two pieces of the text. -/
theorem find?_split {needle text : List Char} {offset : Nat} (found : find? needle text = some offset) :
    ∃ before after, text = before ++ needle ++ after ∧ before.length = offset := by
  obtain ⟨after, here⟩ := (find?_eq_some_iff.mp found).here
  have fits := Document.find?_bound found
  refine ⟨text.take offset, after, ?_, List.length_take_of_le (by omega)⟩
  rw [List.append_assoc, here, List.take_append_drop]

/-- A text is found exactly if it is a part of the other one. -/
theorem isSome_find?_iff {needle text : List Char} : (find? needle text).isSome = true ↔ needle <:+: text := by
  induction text with
  | nil =>
    simp only [find?, List.isEmpty_iff, List.infix_nil]
    split
    · rename_i empty
      simp [empty]
    · rename_i filled
      simp [filled]
  | cons letter rest hypothesis =>
    simp only [find?, List.isPrefixOf_iff_prefix, List.infix_cons_iff]
    split
    · rename_i starts
      simp [starts]
    · rename_i later
      rw [Option.isSome_map, hypothesis]
      simp [later]

/-! ## Pieces -/

theorem take_append_slice (text : List Char) {start stop : Nat} (order : start ≤ stop) :
    text.take start ++ slice text start stop = text.take stop := by
  have front : text.take start = (text.take stop).take start := by
    rw [List.take_take, Nat.min_eq_left order]
  rw [slice, front, List.take_append_drop]

theorem slice_append_drop (text : List Char) {start stop : Nat} (order : start ≤ stop) :
    slice text start stop ++ text.drop stop = text.drop start := by
  have behind : text.drop stop = (text.drop start).drop (stop - start) := by
    rw [List.drop_drop, Nat.add_sub_cancel' order]
  rw [slice, List.drop_take, behind, List.take_append_drop]

end Text

namespace Document
open Xml

/-! ## Cuts at offsets -/

theorem spansFrom_start {texts : List (List Char)} : ∀ {offset : Nat} {span : Span},
    span ∈ spansFrom offset texts → offset ≤ span.start := by
  induction texts with
  | nil => exact fun member => absurd member List.not_mem_nil
  | cons letters rest hypothesis =>
    intro offset span member
    rcases List.mem_cons.mp member with rfl | member
    · exact Nat.le_refl _
    · have behind := hypothesis member
      omega

/-- What is cut off in front of an offset: the texts of the spans in front of the one that the offset lies in,
and the beginning of that one, written anew. -/
theorem cutBefore_span (texts : List (List Char)) : ∀ offset start : Nat, offset ≤ start →
    start < offset + texts.flatten.length →
      ∃ span ∈ spansFrom offset texts, (span.start ≤ start ∧ start < span.stop) ∧
        (cutBefore (start - offset) texts).flatten = texts.flatten.take (span.start - offset) ++
          rewritten (Text.slice texts.flatten (span.start - offset) (start - offset)) := by
  induction texts with
  | nil =>
    intro offset start low high
    simp only [List.flatten_nil, List.length_nil] at high
    omega
  | cons letters rest hypothesis =>
    intro offset start low high
    simp only [List.flatten_cons, List.length_append] at high
    -- Either the offset lies in this span, or all of the span is in front of it.
    by_cases here : start < offset + letters.length
    · refine ⟨⟨offset, offset + letters.length⟩, List.mem_cons_self, ⟨low, here⟩, ?_⟩
      have inside : start - offset ≤ letters.length := by omega
      rw [cutBefore, if_neg (by omega), Nat.sub_self]
      simp [Text.slice, List.take_append_of_le_length inside]
    · obtain ⟨span, member, begins, cut⟩ :=
        hypothesis (offset + letters.length) start (by omega) (by omega)
      refine ⟨span, List.mem_cons_of_mem _ member, begins, ?_⟩
      have behind := spansFrom_start member
      have past : start - offset - letters.length = start - (offset + letters.length) := by omega
      have whole : span.start - offset = letters.length + (span.start - (offset + letters.length)) := by omega
      have size : start - offset = letters.length + (start - (offset + letters.length)) := by omega
      rw [cutBefore, if_pos (by omega), past, List.flatten_cons, cut, List.flatten_cons, whole, size,
        Text.slice, Text.slice, List.take_length_add_append, List.take_length_add_append,
        List.drop_length_add_append, List.append_assoc]

/-- What is cut off behind an offset: the end of the span that the offset closes or lies in, written anew, and
the texts of the spans behind that one. -/
theorem cutAfter_span (texts : List (List Char)) : ∀ offset stop : Nat, offset < stop →
    stop ≤ offset + texts.flatten.length →
      ∃ span ∈ spansFrom offset texts, (span.start < stop ∧ stop ≤ span.stop) ∧
        (cutAfter (stop - offset) texts).flatten =
          rewritten (Text.slice texts.flatten (stop - offset) (span.stop - offset)) ++
            texts.flatten.drop (span.stop - offset) := by
  induction texts with
  | nil =>
    intro offset stop low high
    simp only [List.flatten_nil, List.length_nil] at high
    omega
  | cons letters rest hypothesis =>
    intro offset stop low high
    simp only [List.flatten_cons, List.length_append] at high
    have positive : stop - offset ≠ 0 := by omega
    by_cases here : stop ≤ offset + letters.length
    · refine ⟨⟨offset, offset + letters.length⟩, List.mem_cons_self, ⟨low, here⟩, ?_⟩
      have size : offset + letters.length - offset = letters.length := by omega
      have part : Text.slice (letters :: rest).flatten (stop - offset) letters.length =
          letters.drop (stop - offset) := by
        simp [Text.slice]
      dsimp only
      rw [size, part, cutAfter, if_neg positive, List.flatten_cons, List.drop_left]
      by_cases closes : letters.length ≤ stop - offset
      · have whole : stop - offset - letters.length = 0 := by omega
        rw [if_pos closes, whole, cutAfter_zero, List.drop_eq_nil_of_le closes]
        rfl
      · rw [if_neg closes, List.flatten_cons]
    · obtain ⟨span, member, ends, cut⟩ :=
        hypothesis (offset + letters.length) stop (by omega) (by omega)
      refine ⟨span, List.mem_cons_of_mem _ member, ends, ?_⟩
      have past : stop - offset - letters.length = stop - (offset + letters.length) := by omega
      have whole : span.stop - offset = letters.length + (span.stop - (offset + letters.length)) := by omega
      have size : stop - offset = letters.length + (stop - (offset + letters.length)) := by omega
      rw [cutAfter, if_neg positive, if_pos (by omega), past, cut, List.flatten_cons, whole, size, Text.slice,
        Text.slice, List.take_length_add_append, List.drop_length_add_append, List.drop_length_add_append]

theorem spansFrom_dense_subset (texts : List (List Char)) : ∀ offset : Nat,
    spansFrom offset (dense texts) ⊆ spansFrom offset texts := by
  induction texts with
  | nil => exact fun _ => List.Subset.refl _
  | cons letters rest hypothesis =>
    intro offset
    cases letters with
    | nil => exact List.subset_cons_of_subset _ (hypothesis offset)
    | cons letter others => exact List.cons_subset_cons _ (hypothesis _)

/-! ## Replacements -/

/-- Where a text first occurs in a paragraph: the offset, and the spans that the match begins and ends in. -/
structure Match (paragraph : Node) (wanted : List Char) (start : Nat) (first last : Span) : Prop where
  occurs : Text.FirstAt wanted (paragraphText paragraph) start
  isFirst : first ∈ (Reading.ofParagraph paragraph).spans
  isLast : last ∈ (Reading.ofParagraph paragraph).spans
  begins : first.start ≤ start ∧ start < first.stop
  ends : last.start < start + wanted.length ∧ start + wanted.length ≤ last.stop

/-- A text with a new one in the place of what lies between two offsets.  What is left of the spans that they
lie in is passed through `clean`. -/
def spliced (clean : List Char → List Char) (text : List Char) (first last : Span) (start stop : Nat)
    (new : List Char) : List Char :=
  text.take first.start ++ clean (Text.slice text first.start start) ++ new ++
    clean (Text.slice text stop last.stop) ++ text.drop last.stop

/-- The text of a run, or of none. -/
def textOfRun (run : Option Node) : List Char :=
  (run.map runText).getD []

theorem flatten_runTexts_run {run : Option Node} (direct : ∀ node ∈ run, isRun node = true) :
    (runTexts run.toList).flatten = textOfRun run := by
  cases run with
  | none => rfl
  | some node =>
    rw [Option.toList_some, runTexts_run (direct node rfl), flatten_without_empty]
    simp [textOfRun]

variable {paragraph changed : Node} {wanted : List Char} {replacement : Option Node}

theorem isSome_replaceText_iff (paragraph : Node) (wanted : List Char) (replacement : Option Node) :
    (replaceText? paragraph (.ofParagraph paragraph) wanted replacement).isSome = true ↔
      wanted ≠ [] ∧ wanted <:+: paragraphText paragraph := by
  by_cases empty : wanted = []
  · subst empty
    simp [replaceText?]
  · rw [← Text.isSome_find?_iff]
    cases found : Text.find? wanted (paragraphText paragraph) with
    | none =>
      rw [replaceText_missing found replacement]
      simp
    | some start =>
      obtain ⟨children, replaced, -⟩ := replaceText_texts empty found replacement
      rw [replaced]
      simp [empty]

/-- What a replacement makes of the text of a paragraph: what is left of the runs that the match begins and
ends in is written anew. -/
theorem replaceText_splices (direct : ∀ node ∈ replacement, isRun node = true)
    (replaced : replaceText? paragraph (.ofParagraph paragraph) wanted replacement = some changed) :
    ∃ start first last, Match paragraph wanted start first last ∧ paragraphText changed =
      spliced rewritten (paragraphText paragraph) first last start (start + wanted.length) (textOfRun replacement) := by
  obtain ⟨filled, occurs⟩ := (isSome_replaceText_iff paragraph wanted replacement).mp (by rw [replaced]; rfl)
  obtain ⟨start, found⟩ := Option.isSome_iff_exists.mp (Text.isSome_find?_iff.mpr occurs)
  obtain ⟨children, replaces, texts⟩ := replaceText_texts filled found replacement
  obtain rfl : paragraph.withChildren children = changed := Option.some.inj (replaces.symm.trans replaced)
  have fits := find?_bound found
  have size : 0 < wanted.length := List.length_pos_iff.mpr filled
  have whole := flatten_runTexts paragraph
  have known {span : Span} (member : span ∈ spansFrom 0 (runTexts paragraph.children)) :
      span ∈ (Reading.ofParagraph paragraph).spans :=
    spansFrom_dense_subset ((runs paragraph).map runText) 0 member
  obtain ⟨first, isFirst, begins, before⟩ :=
    cutBefore_span (runTexts paragraph.children) 0 start (Nat.zero_le _) (by rw [whole]; omega)
  obtain ⟨last, isLast, ends, after⟩ :=
    cutAfter_span (runTexts paragraph.children) 0 (start + wanted.length) (by omega) (by rw [whole]; omega)
  simp only [Nat.sub_zero, whole] at before after
  refine ⟨start, first, last,
    ⟨Text.find?_eq_some_iff.mp found, known isFirst, known isLast, begins, ends⟩, ?_⟩
  calc paragraphText (paragraph.withChildren children)
      = (runTexts children).flatten := (flatten_runTexts (paragraph.withChildren children)).symm
    _ = (cutBefore start (runTexts paragraph.children)).flatten ++ (runTexts replacement.toList).flatten ++
          (cutAfter (start + wanted.length) (runTexts paragraph.children)).flatten := by
        rw [texts, flatten_dense, List.flatten_append, List.flatten_append]
    _ = _ := by
        rw [before, after, flatten_runTexts_run direct, spliced]
        simp only [List.append_assoc]

/-- A text without its carriage returns. -/
def withoutReturns (letters : List Char) : List Char :=
  letters.filter (· != '\r')

/-- A part of a text that a document can hold loses nothing but carriage returns when it is written anew. -/
theorem rewritten_slice {letters : List Char} (writable : Text.isWritable letters = true) (start stop : Nat) :
    rewritten (Text.slice letters start stop) = withoutReturns (Text.slice letters start stop) := by
  refine List.filter_congr fun letter member => ?_
  have accepted : Text.isWritableChar letter = true :=
    List.all_eq_true.mp writable letter (List.mem_of_mem_take (List.mem_of_mem_drop member))
  simp only [Text.isWritableChar, Bool.and_eq_true, Bool.not_eq_true'] at accepted
  simp [isKept, accepted.1.1]

/-- A replacement is made exactly if the text has letters and occurs in the paragraph.  Then it takes the place
of the first occurrence: in front of it and behind it the text is as before, but for carriage returns in what
is left of the runs that the match begins and ends in. -/
theorem replaceText_text (paragraph : Node) (wanted : List Char) (replacement : Option Node)
    (direct : ∀ node ∈ replacement, isRun node = true)
    (writable : Text.isWritable (paragraphText paragraph) = true) :
    ((replaceText? paragraph (.ofParagraph paragraph) wanted replacement).isSome = true ↔
      wanted ≠ [] ∧ wanted <:+: paragraphText paragraph) ∧
    ∀ changed, replaceText? paragraph (.ofParagraph paragraph) wanted replacement = some changed →
      ∃ start first last, Match paragraph wanted start first last ∧
        paragraphText changed = spliced withoutReturns (paragraphText paragraph) first last start
          (start + wanted.length) (textOfRun replacement) := by
  refine ⟨isSome_replaceText_iff paragraph wanted replacement, fun changed replaced => ?_⟩
  obtain ⟨start, first, last, isMatch, text⟩ := replaceText_splices direct replaced
  rw [spliced, rewritten_slice writable, rewritten_slice writable] at text
  exact ⟨start, first, last, isMatch, text⟩

/-- A token over three runs, one of them empty, with a range marker between them and carriage returns in what is
left of the first and the last one. -/
def acrossRuns : Node :=
  Node.ofTag Tag.paragraph [rawRun "a\rb$\x7b", createRun [] none, Node.ofTag Tag.rangeStart [],
    rawRun "x\x7dc\rd", rawRun "e\rf"]
where
  rawRun (letters : String) : Node :=
    Node.ofTag Tag.run [.mk 0 (.element Tag.text_ []) letters [] ""]

theorem replaceText_text_acrossRuns :
    let value := createRun "v".toList none
    isRun value = true ∧ Text.isWritable (paragraphText acrossRuns) = true ∧
      ∃ changed, replaceText? acrossRuns (.ofParagraph acrossRuns) "$\x7bx\x7d".toList (some value) = some changed ∧
        paragraphText changed = "abvcde\rf".toList ∧
        ∃ start first last, Match acrossRuns "$\x7bx\x7d".toList start first last := by
  intro value
  have direct : ∀ node ∈ some value, isRun node = true := by decide
  have writable : Text.isWritable (paragraphText acrossRuns) = true := by decide
  obtain ⟨-, text⟩ := replaceText_text acrossRuns "$\x7bx\x7d".toList (some value) direct writable
  refine ⟨by decide, writable, _, rfl, by decide, ?_⟩
  obtain ⟨start, first, last, isMatch, -⟩ := text _ rfl
  exact ⟨start, first, last, isMatch⟩

end Document
end Imprint
