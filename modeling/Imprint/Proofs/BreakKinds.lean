import Imprint.Proofs.ReplacedChildren
/-! # The kinds of line breaks after a replacement

A line feed in the text of a paragraph may be a page break or a column break, which its attributes tell.  Breaks in
runs that a match has no part in keep their attributes.  What a match leaves of the runs that it begins and ends
in is written anew from its letters, and a break that is written has no attributes. -/
set_option autoImplicit false
namespace Imprint.Document
open Xml Node

/-- The attributes of a line break; nothing else that stands for text has a kind. -/
def kindOf (child : Node) : List (Tag × String) :=
  match child.label with
  | .element tag attributes => if tag = Tag.lineBreak then attributes else []
  | _ => []

/-- A letter with the kind of the break that it is read off. -/
abbrev Glyph := Char × List (Tag × String)

/-- Letters that are read off nothing with a kind. -/
def plain (letters : List Char) : List Glyph :=
  letters.map fun letter => (letter, [])

/-- The letters that a child of a run stands for. -/
def childGlyphs (child : Node) : List Glyph :=
  ((childText? child).getD []).map fun letter => (letter, kindOf child)

/-- The letters of some children of a run. -/
def childrenGlyphs (children : List Node) : List Glyph :=
  children.flatMap childGlyphs

/-- The letters of the runs among some nodes. -/
def glyphsAmong (nodes : List Node) : List Glyph :=
  (nodes.filter isRun).flatMap fun run => childrenGlyphs run.children

/-- The letters of a paragraph. -/
def glyphs (paragraph : Node) : List Glyph :=
  glyphsAmong paragraph.children

/-! ## Letters of children -/

theorem childrenGlyphs_append (first second : List Node) :
    childrenGlyphs (first ++ second) = childrenGlyphs first ++ childrenGlyphs second := by
  simp [childrenGlyphs]

theorem childrenGlyphs_text (children : List Node) :
    (childrenGlyphs children).map Prod.fst = childrenText children := by
  simp [childrenGlyphs, childrenText, childGlyphs, List.map_flatMap, Function.comp_def]

/-- Children without a kind have the letters of their text. -/
theorem childrenGlyphs_plain {children : List Node} (kindless : ∀ child ∈ children, kindOf child = []) :
    childrenGlyphs children = plain (childrenText children) := by
  rw [childrenGlyphs, plain, childrenText, List.map_flatMap]
  exact List.flatMap_congr fun child member => by rw [childGlyphs, kindless child member]

theorem childrenGlyphs_silent {children : List Node} (silent : ∀ child ∈ children, isTextual child = false) :
    childrenGlyphs children = [] := by
  rw [← List.map_eq_nil_iff (f := Prod.fst), childrenGlyphs_text]
  exact childrenText_eq_nil silent

theorem Written.kindless {child : Node} (written : Written child) : kindOf child = [] := by
  cases written <;> rfl

theorem childrenGlyphs_written (letters : List Char) :
    childrenGlyphs (textElements letters) = plain (rewritten letters) := by
  rw [childrenGlyphs_plain fun child member => (textElements_written letters child member).kindless,
    childrenText_textElements]

theorem childrenGlyphs_setRunText (run : Node) (letters : List Char) :
    childrenGlyphs (setRunText run letters).children = plain (rewritten letters) := by
  have silent {nodes : List Node} (among : nodes ⊆ silentChildren run) : childrenGlyphs nodes = [] :=
    childrenGlyphs_silent fun child member => by simpa using (List.mem_filter.mp (among member)).2
  show childrenGlyphs ((silentChildren run).take _ ++ textElements letters ++ (silentChildren run).drop _) = _
  rw [childrenGlyphs_append, childrenGlyphs_append, silent (List.take_subset _ _), silent (List.drop_subset _ _),
    childrenGlyphs_written, List.nil_append, List.append_nil]

theorem childrenGlyphs_createRun {properties : Option Node} (proper : AreProperties properties) (letters : List Char) :
    childrenGlyphs (createRun letters properties).children = plain (rewritten letters) := by
  show childrenGlyphs (properties.toList.map copied ++ textElements letters) = _
  have silent : childrenGlyphs (properties.toList.map copied) = [] := by
    rw [← List.map_eq_nil_iff (f := Prod.fst), childrenGlyphs_text, childrenText_properties proper]
  rw [childrenGlyphs_append, silent, childrenGlyphs_written, List.nil_append]

/-! ## Letters of runs -/

section Runs

variable {run : Node} {replacement : List Node}

theorem glyphsAmong_append (first second : List Node) :
    glyphsAmong (first ++ second) = glyphsAmong first ++ glyphsAmong second := by
  simp [glyphsAmong]

theorem glyphsAmong_run (direct : isRun run = true) (rest : List Node) :
    glyphsAmong (run :: rest) = childrenGlyphs run.children ++ glyphsAmong rest := by
  simp [glyphsAmong, direct]

theorem glyphsAmong_others (nodes : List Node) : glyphsAmong (nodes.filter fun child => !isRun child) = [] := by
  simp [glyphsAmong, List.filter_filter]

theorem glyphsAmong_text (nodes : List Node) : (glyphsAmong nodes).map Prod.fst = textAmong nodes := by
  rw [glyphsAmong, textAmong, List.map_flatMap]
  exact List.flatMap_congr fun run _ => childrenGlyphs_text run.children

theorem length_glyphsAmong (nodes : List Node) : (glyphsAmong nodes).length = (textAmong nodes).length := by
  rw [← glyphsAmong_text, List.length_map]

/-- What is left of a run after a cut has plain letters. -/
theorem glyphsAmong_left (direct : isRun run = true) (letters : List Char) :
    glyphsAmong (if letters.isEmpty then [] else [setRunText run letters]) = plain (rewritten letters) := by
  split
  next empty =>
    rw [List.isEmpty_iff.mp empty]
    rfl
  next =>
    have isRun : isRun (setRunText run letters) = true := direct
    rw [glyphsAmong_run isRun, childrenGlyphs_setRunText]
    exact List.append_nil _

theorem glyphsAmong_cutFirst (direct : isRun run = true) (start : Nat) :
    glyphsAmong (cutFirst replacement start run) =
      plain (rewritten ((runText run).take start)) ++ glyphsAmong replacement := by
  have split : cutFirst replacement start run =
      (if ((runText run).take start).isEmpty then [] else [setRunText run ((runText run).take start)]) ++
        replacement := by
    dsimp only [cutFirst]
    split
    · rfl
    · rfl
  rw [split, glyphsAmong_append, glyphsAmong_left direct]

theorem glyphsAmong_cutLast (direct : isRun run = true) (stop : Nat) :
    glyphsAmong (cutLast stop run) = plain (rewritten ((runText run).drop stop)) :=
  glyphsAmong_left direct _

theorem glyphsAmong_splitRun (direct : isRun run = true) (start stop : Nat) :
    glyphsAmong (splitRun replacement start stop run) = plain (rewritten ((runText run).take start)) ++
      glyphsAmong replacement ++ plain (rewritten ((runText run).drop stop)) := by
  have front := glyphsAmong_left direct ((runText run).take start)
  have back := glyphsAmong_left direct ((runText run).drop stop)
  have rest : glyphsAmong [createRun ((runText run).drop stop) (runProperties run)] =
      plain (rewritten ((runText run).drop stop)) := by
    have proper : AreProperties (runProperties run) := areProperties_child run
    rw [glyphsAmong_run rfl, childrenGlyphs_createRun proper]
    exact List.append_nil _
  dsimp only [splitRun]
  cases isBefore : ((runText run).take start).isEmpty with
  | true =>
    rw [isBefore, if_pos rfl] at front
    cases isAfter : ((runText run).drop stop).isEmpty with
    | true =>
      rw [isAfter, if_pos rfl] at back
      rw [← front, ← back]
      simp [glyphsAmong]
    | false =>
      rw [isAfter, if_neg Bool.false_ne_true] at back
      rw [← front, ← back, ← glyphsAmong_append, ← glyphsAmong_append, List.nil_append]
  | false =>
    rw [isBefore, if_neg Bool.false_ne_true] at front
    cases isAfter : ((runText run).drop stop).isEmpty with
    | true =>
      rw [isAfter, if_pos rfl] at back
      rw [← front, ← back, ← glyphsAmong_append, ← glyphsAmong_append, List.append_nil, List.singleton_append]
    | false =>
      rw [← front, ← rest, ← glyphsAmong_append, ← glyphsAmong_append, List.append_assoc, List.singleton_append]

end Runs

/-! ## Letters of a paragraph -/

section Cuts

variable {start stop : Nat} {children changed front back : List Node} {run : Node}

/-- The part of the text that a run behind some nodes has. -/
def spanBehind (front : List Node) (run : Node) : Span :=
  ⟨(textAmong front).length, (textAmong front).length + (runText run).length⟩

theorem spansFrom_append (first second : List (List Char)) : ∀ offset,
    spansFrom offset (first ++ second) = spansFrom offset first ++ spansFrom (offset + first.flatten.length) second := by
  induction first with
  | nil => intro offset; simp [spansFrom]
  | cons letters rest hypothesis =>
    intro offset
    have offsets : offset + letters.length + rest.flatten.length = offset + (letters :: rest).flatten.length := by
      rw [List.flatten_cons, List.length_append]
      omega
    simp only [List.cons_append, spansFrom, hypothesis, offsets]

theorem spanBehind_mem (direct : isRun run = true) (front back : List Node) :
    spanBehind front run ∈ spansFrom 0 (((front ++ run :: back).filter isRun).map runText) := by
  have size : ((front.filter isRun).map runText).flatten.length = (textAmong front).length := by
    rw [textAmong, List.flatMap_def]
  rw [List.filter_append, List.filter_cons_of_pos direct, List.map_append, List.map_cons, spansFrom_append, size]
  apply List.mem_append_right
  simp [spansFrom, spanBehind]

theorem take_glyphs (front : List Node) (run : Node) (back : List Node) :
    (glyphsAmong (front ++ run :: back)).take (spanBehind front run).start = glyphsAmong front := by
  rw [glyphsAmong_append]
  exact List.take_left' (length_glyphsAmong front)

theorem drop_glyphs (direct : isRun run = true) (front back : List Node) :
    (glyphsAmong (front ++ run :: back)).drop (spanBehind front run).stop = glyphsAmong back := by
  have size : (glyphsAmong (front ++ [run])).length = (spanBehind front run).stop := by
    rw [length_glyphsAmong, textAmong_append, textAmong_run direct, List.length_append, List.length_append]
    rfl
  rw [List.append_cons, glyphsAmong_append]
  exact List.drop_left' size

theorem slice_front (direct : isRun run = true) (back : List Node) (begins : (textAmong front).length ≤ start)
    (ends : start ≤ (textAmong front).length + (runText run).length) :
    Text.slice (textAmong (front ++ run :: back)) (spanBehind front run).start start =
      (runText run).take (start - (textAmong front).length) := by
  obtain ⟨size, rfl⟩ := Nat.exists_eq_add_of_le begins
  rw [textAmong_append, textAmong_run direct, Text.slice, List.take_length_add_append, spanBehind, List.drop_left,
    Nat.add_sub_cancel_left, List.take_append_of_le_length (by omega)]

theorem slice_back (direct : isRun run = true) (back : List Node) (begins : (textAmong front).length ≤ stop) :
    Text.slice (textAmong (front ++ run :: back)) stop (spanBehind front run).stop =
      (runText run).drop (stop - (textAmong front).length) := by
  obtain ⟨size, rfl⟩ := Nat.exists_eq_add_of_le begins
  rw [textAmong_append, textAmong_run direct, Text.slice, spanBehind, List.take_length_add_append, List.take_left,
    List.drop_length_add_append, Nat.add_sub_cancel_left]

/-- The letters of some nodes with new ones in the place of what lies between two offsets; what is left of the spans
that the offsets lie in is written anew and has no kinds. -/
def splicedGlyphs (nodes : List Node) (first last : Span) (start stop : Nat) (new : List Glyph) : List Glyph :=
  (glyphsAmong nodes).take first.start ++ plain (rewritten (Text.slice (textAmong nodes) first.start start)) ++ new ++
    plain (rewritten (Text.slice (textAmong nodes) stop last.stop)) ++ (glyphsAmong nodes).drop last.stop

theorem Cut.splices {replacement : List Node} (cut : Cut start stop replacement children changed)
    (order : start < stop) :
    ∃ first ∈ spansFrom 0 ((children.filter isRun).map runText),
      ∃ last ∈ spansFrom 0 ((children.filter isRun).map runText),
        (first.start ≤ start ∧ start < first.stop) ∧ (last.start < stop ∧ stop ≤ last.stop) ∧
          glyphsAmong changed = splicedGlyphs children first last start stop (glyphsAmong replacement) := by
  cases cut with
  | @within front back run direct begins ends =>
    refine ⟨spanBehind front run, spanBehind_mem direct front back, spanBehind front run,
      spanBehind_mem direct front back, begins, ⟨Nat.lt_of_le_of_lt begins.1 order, ends⟩, ?_⟩
    rw [splicedGlyphs, take_glyphs, drop_glyphs direct, slice_front direct back begins.1 (Nat.le_of_lt begins.2),
      slice_back direct back (by omega), glyphsAmong_append, glyphsAmong_append, glyphsAmong_splitRun direct]
    simp only [List.append_assoc]
  | @across front middle back first last offset directFirst directLast here begins ends =>
    have size : (textAmong (front ++ [first])).length = (textAmong front).length + (runText first).length := by
      rw [textAmong_append, textAmong_run directFirst, List.length_append, List.length_append]
      rfl
    have regroup : front ++ first :: (middle ++ last :: back) = (front ++ first :: middle) ++ last :: back := by simp
    subst here
    have inside : start < (spanBehind front first).stop := by
      rw [size] at begins
      exact begins.2
    refine ⟨spanBehind front first, spanBehind_mem directFirst front _, spanBehind (front ++ first :: middle) last, ?_,
      ⟨begins.1, inside⟩, ends, ?_⟩
    · rw [regroup]
      exact spanBehind_mem directLast _ back
    · rw [splicedGlyphs, take_glyphs, slice_front directFirst _ begins.1 (by omega), regroup, drop_glyphs directLast,
        slice_back directLast back (Nat.le_of_lt ends.1)]
      simp only [glyphsAmong_append, glyphsAmong_cutFirst directFirst, glyphsAmong_others,
        glyphsAmong_cutLast directLast, List.nil_append, List.append_assoc]

end Cuts

/-! ## Breaks of a paragraph -/

/-- The kinds of the line breaks among some letters. -/
def breaks (letters : List Glyph) : List (List (Tag × String)) :=
  (letters.filter fun letter => letter.1 == '\n').map Prod.snd

theorem breaks_append (first second : List Glyph) : breaks (first ++ second) = breaks first ++ breaks second := by
  simp [breaks]

/-- Letters that are written anew have as many line breaks as before, none of them with a kind. -/
theorem breaks_rewritten (letters : List Char) :
    breaks (plain (rewritten letters)) = List.replicate (letters.count '\n') [] := by
  have feeds : (rewritten letters).filter (· == '\n') = letters.filter (· == '\n') := by
    rw [rewritten, List.filter_filter]
    refine List.filter_congr fun letter _ => ?_
    by_cases feed : letter = '\n'
    · subst feed
      rfl
    · rw [beq_eq_false_iff_ne.mpr feed, Bool.false_and]
  rw [breaks, plain, List.filter_map, List.map_map]
  show ((rewritten letters).filter (· == '\n')).map (fun _ => []) = _
  rw [feeds, List.map_const', List.count_eq_length_filter]

variable {paragraph changed : Node} {wanted : List Char} {replacement : Option Node}

/-- A replacement keeps the kinds of all breaks in runs that the match has no part in.  The letters that it leaves
of the runs that the match begins and ends in are written anew: their breaks become plain line breaks. -/
theorem replaceText_glyphs
    (replaced : replaceText? paragraph (.ofParagraph paragraph) wanted replacement = some changed) :
    ∃ start first last, Match paragraph wanted start first last ∧ glyphs changed =
      splicedGlyphs paragraph.children first last start (start + wanted.length) (glyphsAmong replacement.toList) := by
  have filled := ((isSome_replaceText_iff paragraph wanted replacement).mp (by rw [replaced]; rfl)).1
  obtain ⟨start, children, occurs, rfl, cut⟩ := replaceText_cuts replaced
  have size : 0 < wanted.length := List.length_pos_iff.mpr filled
  obtain ⟨first, isFirst, last, isLast, begins, ends, same⟩ := cut.splices (by omega)
  exact ⟨start, first, last, ⟨occurs, isFirst, isLast, begins, ends⟩, same⟩

/-- The line breaks in front of a replacement are the ones in front of the run that the match begins in, with their
kinds, and those of this run that the match leaves, without; and likewise behind it. -/
theorem replaceText_breaks
    (replaced : replaceText? paragraph (.ofParagraph paragraph) wanted replacement = some changed) :
    ∃ start first last before after, Match paragraph wanted start first last ∧
      glyphs changed = before ++ glyphsAmong replacement.toList ++ after ∧
      breaks before = breaks ((glyphs paragraph).take first.start) ++
        List.replicate ((Text.slice (paragraphText paragraph) first.start start).count '\n') [] ∧
      breaks after = List.replicate
          ((Text.slice (paragraphText paragraph) (start + wanted.length) last.stop).count '\n') [] ++
        breaks ((glyphs paragraph).drop last.stop) := by
  obtain ⟨start, first, last, isMatch, same⟩ := replaceText_glyphs replaced
  rw [splicedGlyphs, List.append_assoc _ (plain _) (List.drop _ _)] at same
  refine ⟨start, first, last, _, _, isMatch, same, ?_, ?_⟩
  · rw [breaks_append, breaks_rewritten]
    rfl
  · rw [breaks_append, breaks_rewritten]
    rfl

end Imprint.Document
