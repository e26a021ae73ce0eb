import Imprint.Proofs.Action
import Imprint.Proofs.ReplacementEdits
import Imprint.Stamping.Replacement

/-! # Content in the place of a text

The run that content becomes has a text that does not depend on its properties.  So putting content into
two paragraphs with aligned texts fails for both in the same way, or leaves aligned texts. -/
set_option autoImplicit false
namespace Imprint
open Imprint.Action Xml Document Node

/-- Two possible runs with the same text, both made of new nodes. -/
structure SameRun (left right : Option Node) : Prop where
  newLeft : Unkeyed left.toList
  newRight : Unkeyed right.toList
  texts : runTexts left.toList = runTexts right.toList

/-- Two outcomes that are the same fault, or both satisfy a relation. -/
inductive SameOutcome {α β : Type} (relation : α → β → Prop) : Except Fault α → Except Fault β → Prop where
  | fault (fault : Fault) : SameOutcome relation (.error fault) (.error fault)
  | value {left : α} {right : β} (related : relation left right) :
      SameOutcome relation (.ok left) (.ok right)

theorem sameRun_created {left right : Option Node} (properLeft : AreProperties left)
    (properRight : AreProperties right) (letters : List Char) :
    SameRun (some (createRun letters left)) (some (createRun letters right)) where
  newLeft := unkeyed_createRun letters left
  newRight := unkeyed_createRun letters right
  texts := by
    show runTexts [_] = runTexts [_]
    rw [runTexts_createRun properLeft, runTexts_createRun properRight]

theorem sameRun_around {left right : Option Node} (properLeft : AreProperties left)
    (properRight : AreProperties right) {children : List Node} (new : Unkeyed children) :
    SameRun (some ((createRun [] left).withChildren ((createRun [] left).children ++ children)))
      (some ((createRun [] right).withChildren ((createRun [] right).children ++ children))) where
  newLeft := unkeyed_ofTag _
    (((unkeyed_properties left).append (unkeyed_textElements [])).append new)
  newRight := unkeyed_ofTag _
    (((unkeyed_properties right).append (unkeyed_textElements [])).append new)
  texts := by
    have text {properties : Option Node} (proper : AreProperties properties) :
        runTexts [(createRun [] properties).withChildren
          ((createRun [] properties).children ++ children)] = dense [childrenText children] := by
      rw [runTexts_run rfl, runText_withChildren, childrenText_append]
      have own : childrenText (createRun [] properties).children = [] := runText_createRun proper []
      rw [own]
      rfl
    show runTexts [_] = runTexts [_]
    rw [text properLeft, text properRight]

section Runs

variable {left right : Option Node} (properLeft : AreProperties left)
  (properRight : AreProperties right)
include properLeft properRight

theorem runOfText_same (letters : List Char) (store : Store) :
    ∃ first second after, runOn (runOfText letters left) store = (first, after) ∧
      runOn (runOfText letters right) store = (second, after) ∧
      SameOutcome (fun left right => SameRun (some left) (some right)) first second := by
  unfold runOfText
  cases requireWritable letters with
  | error fault => exact ⟨_, _, store, rfl, rfl, .fault fault⟩
  | ok _ => exact ⟨_, _, store, rfl, rfl, .value (sameRun_created properLeft properRight letters)⟩

/-- Whatever the properties are, content becomes runs with the same text, or none, or the same fault. -/
theorem toRun_same (content : Value) (store : Store) :
    ∃ first second after, runOn (toRun content left) store = (first, after) ∧
      runOn (toRun content right) store = (second, after) ∧ SameOutcome SameRun first second := by
  have ofText (letters : List Char) (store : Store) :
      ∃ first second after,
        runOn (do return some (← runOfText letters left)) store = (first, after) ∧
        runOn (do return some (← runOfText letters right)) store = (second, after) ∧
        SameOutcome SameRun first second := by
    obtain ⟨first, second, after, leftRun, rightRun, same⟩ :=
      runOfText_same properLeft properRight letters store
    rw [runOn_bind, runOn_bind, leftRun, rightRun]
    cases same with
    | fault fault => exact ⟨_, _, after, rfl, rfl, .fault fault⟩
    | value related => exact ⟨_, _, after, rfl, rfl, .value related⟩
  unfold toRun
  split
  · refine ⟨_, _, store, rfl, rfl, .value ⟨?_, ?_, rfl⟩⟩
    · exact unkeyed_nil
    · exact unkeyed_nil
  · exact ofText _ store
  · rename_i node
    split
    · refine ⟨_, _, store, rfl, rfl, .value ⟨?_, ?_, rfl⟩⟩
      · exact unkeyed_copied node
      · exact unkeyed_copied node
    · exact ⟨_, _, store, rfl, rfl,
        .value (sameRun_around properLeft properRight (unkeyed_copied node))⟩
  · rw [runOn_bind, runOn_bind]
    cases reached : runOn content.plain store with
    | mk outcome middle =>
      cases outcome with
      | error fault => exact ⟨_, _, middle, rfl, rfl, .fault fault⟩
      | ok letters => exact ofText letters middle

end Runs

theorem areProperties_none : AreProperties none := by
  intro node member
  cases member

theorem areProperties_style (style : ReplacementStyle) (paragraph : Node) (wanted : List Char) :
    AreProperties (style.properties paragraph wanted) := by
  cases style with
  | paragraph =>
    show AreProperties ((paragraph.child? Tag.paragraphProperties).bind _)
    cases paragraph.child? Tag.paragraphProperties with
    | none => exact areProperties_none
    | some properties => exact areProperties_child properties
  | token =>
    show AreProperties (propertiesAt paragraph wanted)
    unfold propertiesAt
    dsimp only
    split
    · exact areProperties_none
    · split
      · exact areProperties_none
      · rename_i index _ _ _
        cases (runs paragraph)[index]? with
        | none => exact areProperties_none
        | some run => exact areProperties_child run

namespace Replacer

/-- What became of a paragraph: another one with its head and with revised children. -/
structure Changed (touched : Nat → Prop) (paragraph changed : Node) : Prop where
  head : changed.head = paragraph.head
  revised : Revised touched paragraph.children changed.children

theorem Changed.refl (touched : Nat → Prop) (paragraph : Node) : Changed touched paragraph paragraph :=
  ⟨rfl, .refl _⟩

/-- A replacement in a paragraph may go into its runs. -/
def MayCut (touched : Nat → Prop) (paragraph : Node) : Prop :=
  ∀ node ∈ paragraph.children, isRun node = true → touched node.key

theorem changed_replaceText {touched : Nat → Prop} {start paragraph : Node} {wanted : List Char}
    {replacement : Option Node} (new : Unkeyed replacement.toList) (may : MayCut touched start)
    (before : Changed touched start paragraph) {changed : Node}
    (replaced : replaceText? paragraph (Reading.ofParagraph paragraph) wanted replacement =
      some changed) : Changed touched start changed := by
  obtain ⟨head, revised⟩ := revised_replaceText new before.revised may replaced
  exact ⟨head.trans before.head, revised⟩

/-- Putting content into a paragraph changes it, and leaves the rest of the values alone but for what the
content computes. -/
theorem replaceIn_changed {touched : Nat → Prop} (replacer : Replacer) {paragraph : Node}
    (may : MayCut touched paragraph) (wanted : List Char) (content : Value) {store after : Store}
    {changed : Node}
    (accepted : runOn (replacer.replaceIn paragraph wanted content) store = (.ok changed, after)) :
    Changed touched paragraph changed := by
  have proper := areProperties_style replacer.style paragraph wanted
  obtain ⟨run, middle, made, rest⟩ := bind_ok accepted
  obtain ⟨first, second, last, same, -, outcome⟩ := toRun_same proper proper content store
  rw [made] at same
  cases same
  cases outcome with
  | value related =>
    cases rest
    cases replaced : replaceText? paragraph (Reading.ofParagraph paragraph) wanted run with
    | none => exact .refl _ _
    | some other => exact changed_replaceText related.newLeft may (.refl _ _) replaced

/-- On two paragraphs with aligned texts, putting content into them fails for the same reason or leaves
them aligned. -/
theorem replaceIn_same (replacer : Replacer) {left right : Node} (same : SameText left right)
    (wanted : List Char) (content : Value) (store : Store) :
    ∃ first second after, runOn (replacer.replaceIn left wanted content) store = (first, after) ∧
      runOn (replacer.replaceIn right wanted content) store = (second, after) ∧
      SameOutcome SameText first second := by
  have properLeft := areProperties_style replacer.style left wanted
  have properRight := areProperties_style replacer.style right wanted
  obtain ⟨first, second, middle, leftRun, rightRun, outcome⟩ :=
    toRun_same properLeft properRight content store
  unfold replaceIn
  rw [runOn_bind, runOn_bind, leftRun, rightRun]
  cases outcome with
  | fault fault => exact ⟨_, _, middle, rfl, rfl, .fault fault⟩
  | @value leftRun rightRun related =>
    refine ⟨_, _, middle, rfl, rfl, .value ?_⟩
    rcases same.replaceText wanted related.texts with ⟨leftNone, rightNone⟩ |
      ⟨leftChildren, rightChildren, leftSome, rightSome, aligned⟩
    · rw [leftNone, rightNone]
      exact same
    · rw [leftSome, rightSome]
      exact aligned

theorem runText_createBreakRun {properties : Option Node} (proper : AreProperties properties) :
    runText (createBreakRun properties) = ['\n'] := by
  show childrenText (properties.toList.map Node.copied ++ [Node.ofTag Tag.lineBreak []]) = _
  rw [childrenText_append, childrenText_properties proper]
  rfl

theorem sameRun_break {left right : Option Node} (properLeft : AreProperties left)
    (properRight : AreProperties right) :
    SameRun (some (createBreakRun left)) (some (createBreakRun right)) where
  newLeft := unkeyed_createBreakRun left
  newRight := unkeyed_createBreakRun right
  texts := by
    show runTexts [_] = runTexts [_]
    rw [runTexts_run rfl, runTexts_run rfl, runText_createBreakRun properLeft, runText_createBreakRun properRight]

/-- A paragraph becomes another one by line breaks in the places of a text, one after the other. -/
inductive Breaks (replacer : Replacer) (wanted : List Char) : Node → Node → Prop where
  | ends {paragraph : Node} (missing : replacer.breakLine? wanted paragraph = none) :
      Breaks replacer wanted paragraph paragraph
  | breaks {paragraph broken final : Node} (found : replacer.breakLine? wanted paragraph = some broken)
      (rest : Breaks replacer wanted broken final) : Breaks replacer wanted paragraph final

/-- The loop has a result exactly if finitely many line breaks lead to it. -/
theorem breakLines_eq_some_iff {replacer : Replacer} {wanted : List Char} {paragraph final : Node} :
    replacer.breakLines wanted paragraph = some final ↔ Breaks replacer wanted paragraph final := by
  constructor
  · refine breakLines.partial_correctness replacer wanted (Breaks replacer wanted) ?_ paragraph final
    intro next hypothesis paragraph final reached
    split at reached
    · rename_i missing
      cases reached
      exact .ends missing
    · rename_i broken found
      exact .breaks found (hypothesis broken final reached)
  · intro breaks
    induction breaks with
    | ends missing => rw [breakLines, missing]
    | breaks found _ hypothesis =>
      rw [breakLines, found]
      exact hypothesis

theorem Breaks.changed {touched : Nat → Prop} {replacer : Replacer} {start : Node} (may : MayCut touched start)
    {wanted : List Char} {paragraph final : Node} (breaks : Breaks replacer wanted paragraph final) :
    Changed touched start paragraph → Changed touched start final := by
  induction breaks with
  | ends => exact id
  | @breaks paragraph _ _ found _ hypothesis =>
    have new : Unkeyed (some (createBreakRun (replacer.style.properties paragraph wanted))).toList :=
      unkeyed_createBreakRun _
    exact fun before => hypothesis (changed_replaceText new may before found)

/-- Line breaks are found in the same places of two aligned texts, and keep them aligned. -/
theorem Breaks.same {replacer : Replacer} {wanted : List Char} {left final : Node}
    (breaks : Breaks replacer wanted left final) :
    ∀ right, SameText left right → ∃ other, Breaks replacer wanted right other ∧ SameText final other := by
  have step (left right : Node) (same : SameText left right) := same.replaceText wanted
    (sameRun_break (areProperties_style replacer.style left wanted)
      (areProperties_style replacer.style right wanted)).texts
  induction breaks with
  | @ends left missing =>
    intro right same
    obtain ⟨-, missing'⟩ | ⟨_, _, found, -, -⟩ := step left right same
    · exact ⟨right, .ends missing', same⟩
    · rw [breakLine?, found] at missing
      cases missing
  | @breaks left broken final found _ hypothesis =>
    intro right same
    obtain ⟨missing, -⟩ | ⟨_, _, found', foundRight, aligned⟩ := step left right same
    · rw [breakLine?, missing] at found
      cases found
    · rw [breakLine?, found'] at found
      cases found
      obtain ⟨other, rest, last⟩ := hypothesis _ aligned
      exact ⟨other, .breaks foundRight rest, last⟩

theorem breakLines_changed {touched : Nat → Prop} {replacer : Replacer} {paragraph : Node}
    (may : MayCut touched paragraph) {wanted : List Char} {final : Node}
    (reached : replacer.breakLines wanted paragraph = some final) : Changed touched paragraph final :=
  (breakLines_eq_some_iff.mp reached).changed may (.refl _ _)

/-- Line breaks in the places of a placeholder come to an end in both of two aligned texts, which stay aligned,
or in none. -/
theorem breakLines_same (replacer : Replacer) (wanted : List Char) {left right : Node} (same : SameText left right) :
    (replacer.breakLines wanted left = none ∧ replacer.breakLines wanted right = none) ∨
      ∃ first second, replacer.breakLines wanted left = some first ∧
        replacer.breakLines wanted right = some second ∧ SameText first second := by
  cases reached : replacer.breakLines wanted left with
  | some first =>
    obtain ⟨second, breaks, aligned⟩ := (breakLines_eq_some_iff.mp reached).same right same
    exact .inr ⟨first, second, rfl, breakLines_eq_some_iff.mpr breaks, aligned⟩
  | none =>
    cases reachedRight : replacer.breakLines wanted right with
    | none => exact .inl ⟨rfl, rfl⟩
    | some second =>
      obtain ⟨first, breaks, -⟩ := (breakLines_eq_some_iff.mp reachedRight).same left same.symm
      rw [breakLines_eq_some_iff.mpr breaks] at reached
      cases reached

end Replacer

/-! ## Paragraphs without keys -/

theorem childText?_copied (child : Node) : childText? child.copied = childText? child := by
  cases child
  rfl

theorem childrenText_copiedAll (children : List Node) :
    childrenText (copiedAll children) = childrenText children := by
  induction children with
  | nil => rfl
  | cons child rest hypothesis =>
    have first (child : Node) (rest : List Node) :
        childrenText (child :: rest) = (childText? child).getD [] ++ childrenText rest := rfl
    rw [copiedAll, first, first, hypothesis, childText?_copied]

theorem runTexts_copiedAll (nodes : List Node) : runTexts (copiedAll nodes) = runTexts nodes := by
  induction nodes with
  | nil => rfl
  | cons node rest hypothesis =>
    rw [copiedAll, runTexts_cons, runTexts_cons node, hypothesis]
    congr 1
    have direct : isRun node.copied = isRun node := hasTag_copied _ _
    cases run : isRun node with
    | false => rw [runTexts_other run, runTexts_other (direct.trans run)]
    | true =>
      have text : runText node.copied = runText node := by
        cases node with
        | mk own label lead inner tail => exact childrenText_copiedAll inner
      rw [runTexts_run run, runTexts_run (direct.trans run), text]

/-- Texts do not depend on keys. -/
theorem runTexts_of_copied {first second : Node} (same : first.copied = second.copied) :
    runTexts first.children = runTexts second.children := by
  cases first with
  | mk own label lead inner tail =>
    cases second with
    | mk own' label' lead' inner' tail' =>
      simp only [copied, Node.mk.injEq] at same
      show runTexts inner = runTexts inner'
      rw [← runTexts_copiedAll inner, same.2.2.2.1, runTexts_copiedAll]

/-! ## Texts after an edit elsewhere -/

/-- The text of a run can be read off its outline. -/
theorem runText_of_outline {first second : Node} (same : first.outline = second.outline) :
    runText first = runText second := by
  have read (run : Node) : runText run = (run.children.map head).flatMap fun child =>
      (childText? (.mk child.key child.label child.lead [] child.tail)).getD [] := by
    rw [List.flatMap_map]
    exact congrArg (List.flatMap · run.children) (funext fun child => by cases child; rfl)
  have heads : first.children.map head = second.children.map head := congrArg Prod.snd same
  rw [read, read, heads]

theorem isRun_of_head {first second : Node} (same : first.head = second.head) : isRun first = isRun second := by
  have labels : first.label = second.label := congrArg Head.label same
  unfold isRun hasTag tag?
  rw [labels]

theorem runTexts_of_outlines {first second : List Node} (heads : first.map head = second.map head)
    (outlines : ∀ node ∈ first, ∀ other ∈ second, node.head = other.head → node.outline = other.outline) :
    runTexts first = runTexts second := by
  induction first generalizing second with
  | nil =>
    rw [List.map_nil, eq_comm, List.map_eq_nil_iff] at heads
    rw [heads]
  | cons node rest hypothesis =>
    cases second with
    | nil => cases heads
    | cons other others =>
      obtain ⟨here, later⟩ := List.cons.inj heads
      have same := hypothesis later fun node member other among =>
        outlines node (List.mem_cons_of_mem _ member) other (List.mem_cons_of_mem _ among)
      rw [runTexts_cons, runTexts_cons other, same]
      congr 1
      have outline := outlines node List.mem_cons_self other List.mem_cons_self here
      cases direct : isRun node with
      | false => rw [runTexts_other direct, runTexts_other ((isRun_of_head here).symm.trans direct)]
      | true =>
        rw [runTexts_run direct, runTexts_run ((isRun_of_head here).symm.trans direct), runText_of_outline outline]

/-- An edit that goes neither into a paragraph nor into a child of it leaves the children and the texts of its runs
as they are. -/
theorem Xml.Forest.Edited.runTexts {touched : Nat → Prop} {before after : Forest}
    (edited : Forest.Edited touched before after) {paragraph : Node} (member : paragraph ∈ before.nodes)
    (free : ¬ touched paragraph.key) (freeBelow : ∀ child ∈ paragraph.children, ¬ touched child.key) :
    ∃ found, after.find? paragraph.key = some found ∧ found.children.map key = paragraph.children.map key ∧
      runTexts found.children = runTexts paragraph.children := by
  obtain ⟨found, place, head, outline⟩ := edited.found paragraph member
  have same := outline free
  have heads : found.children.map Node.head = paragraph.children.map Node.head := congrArg Prod.snd same
  refine ⟨found, edited.wellFormed.find?_iff.mpr ⟨place, congrArg Head.key head⟩, (Forest.children_of_outline same).2,
    runTexts_of_outlines heads fun child direct origin among sameHead => ?_⟩
  obtain ⟨last, lastPlace, lastHead, lastOutline⟩ := edited.found origin (child_mem_allBelow member among)
  obtain rfl : child = last := edited.wellFormed.eq_of_key_eq (child_mem_allBelow place direct) lastPlace
    (congrArg Head.key (sameHead.trans lastHead.symm))
  exact lastOutline (freeBelow origin among)

end Imprint
