import Imprint.Document.Paragraph

/-! # Texts of rewritten runs

Writing a text into a run loses carriage returns and stray control characters and nothing else.  The
texts of the runs among some nodes, without empty ones, are all that later searches and cuts see. -/
set_option autoImplicit false
namespace Imprint.Document
open Xml

/-- Whether a letter comes back when a text with it is written into a run. -/
def isKept (letter : Char) : Bool :=
  letter != '\r' && !Text.isStrayControl letter

/-- What comes back of a text that is written into a run. -/
def rewritten (letters : List Char) : List Char :=
  letters.filter isKept

theorem rewritten_append (first second : List Char) :
    rewritten (first ++ second) = rewritten first ++ rewritten second := by
  simp [rewritten]

/-- A text without carriage returns that a document can hold comes back whole. -/
theorem isKept_of_writable {letters : List Char} (plain : '\r' ∉ letters)
    (writable : Text.isWritable letters = true) : ∀ letter ∈ letters, isKept letter = true := by
  intro letter member
  have different : letter ≠ '\r' := fun same => plain (same ▸ member)
  have accepted : Text.isWritableChar letter = true := List.all_eq_true.mp writable letter member
  simp only [Text.isWritableChar, Bool.and_eq_true] at accepted
  simp [isKept, different, accepted.1.1]

/-- The text of the children of a run. -/
def childrenText (children : List Node) : List Char :=
  children.flatMap fun child => (childText? child).getD []

theorem runText_withChildren (run : Node) (children : List Node) :
    runText (run.withChildren children) = childrenText children := rfl

theorem childrenText_append (first second : List Node) :
    childrenText (first ++ second) = childrenText first ++ childrenText second := by
  simp [childrenText]

/-- Children that stand for no text have none. -/
theorem childrenText_eq_nil {children : List Node}
    (silent : ∀ child ∈ children, isTextual child = false) : childrenText children = [] := by
  refine List.flatMap_eq_nil_iff.mpr fun child member => ?_
  have none := silent child member
  cases text : childText? child with
  | none => rfl
  | some letters => simp [isTextual, text] at none

theorem childrenText_flushText (collected : List Char) :
    childrenText (flushText collected) = Text.sanitize collected.reverse := by
  unfold flushText
  split
  · rename_i empty
    rw [List.isEmpty_iff.mp empty]
    rfl
  · simp [childrenText, textElement, childText?, Node.tag?, Node.label, Node.lead]

theorem sanitize_eq_rewritten {letters : List Char} (plain : '\r' ∉ letters) :
    Text.sanitize letters = rewritten letters := by
  refine List.filter_congr fun letter member => ?_
  have different : letter ≠ '\r' := fun same => plain (same ▸ member)
  simp [isKept, different]

theorem childrenText_textElementsFrom (letters : List Char) :
    ∀ collected : List Char, '\r' ∉ collected →
      childrenText (textElementsFrom collected letters) =
        rewritten (collected.reverse ++ letters) := by
  have flushed (collected : List Char) (plain : '\r' ∉ collected) :
      childrenText (flushText collected) = rewritten collected.reverse := by
    rw [childrenText_flushText]
    exact sanitize_eq_rewritten (by simpa using plain)
  induction letters with
  | nil =>
    intro collected plain
    simpa [textElementsFrom] using flushed collected plain
  | cons letter rest hypothesis =>
    intro collected plain
    have next := hypothesis [] (by simp)
    simp only [List.reverse_nil, List.nil_append] at next
    unfold textElementsFrom
    by_cases tab : letter = '\t'
    · rw [if_pos tab, childrenText_append, flushed collected plain, rewritten_append, tab,
        ← List.singleton_append, childrenText_append, next]
      rfl
    by_cases feed : letter = '\n'
    · rw [if_neg tab, if_pos feed, childrenText_append, flushed collected plain, rewritten_append,
        feed, ← List.singleton_append, childrenText_append, next]
      rfl
    by_cases carriage : letter = '\r'
    · rw [if_neg tab, if_neg feed, if_pos carriage, hypothesis collected plain]
      simp [rewritten, carriage, isKept]
    · rw [if_neg tab, if_neg feed, if_neg carriage, hypothesis (letter :: collected)]
      · simp
      · simp [plain, Ne.symm carriage]

theorem childrenText_textElements (letters : List Char) :
    childrenText (textElements letters) = rewritten letters := by
  show childrenText (textElementsFrom [] letters) = _
  simpa using childrenText_textElementsFrom letters [] (by simp)

theorem runText_setRunText (run : Node) (letters : List Char) :
    runText (setRunText run letters) = rewritten letters := by
  have silent (child : Node) (member : child ∈ run.children.filter fun child => !isTextual child) :
      isTextual child = false := by
    simpa using (List.mem_filter.mp member).2
  unfold setRunText
  simp only [runText_withChildren, childrenText_append, childrenText_textElements]
  rw [childrenText_eq_nil fun child member => silent child (List.mem_of_mem_take member),
    childrenText_eq_nil fun child member => silent child (List.mem_of_mem_drop member)]
  simp

/-- Nothing, or properties of a run. -/
def AreProperties (properties : Option Node) : Prop :=
  ∀ node ∈ properties, node.hasTag Tag.runProperties = true

theorem areProperties_child (node : Node) : AreProperties (node.child? Tag.runProperties) := by
  intro found member
  exact List.find?_some (Option.mem_def.mp member)

@[simp] theorem tag_copied (node : Node) : node.copied.tag? = node.tag? := by
  cases node
  rfl

@[simp] theorem hasTag_copied (tag : Tag) (node : Node) : node.copied.hasTag tag = node.hasTag tag := by
  simp [Node.hasTag]

/-- Run properties stand for no text. -/
theorem isTextual_properties {node : Node} (named : node.hasTag Tag.runProperties = true) :
    isTextual node = false := by
  have tag : node.tag? = some Tag.runProperties := by simpa [Node.hasTag] using named
  simp [isTextual, childText?, tag, Tag.runProperties, Tag.text_, Tag.tabulator, Tag.lineBreak, Tag.carriageReturn,
    Tag.word]

theorem childrenText_properties {properties : Option Node} (proper : AreProperties properties) :
    childrenText (properties.toList.map Node.copied) = [] := by
  refine childrenText_eq_nil fun child member => ?_
  obtain ⟨original, found, rfl⟩ := List.mem_map.mp member
  exact isTextual_properties (by simpa using proper original (by simpa using found))

theorem runText_createRun {properties : Option Node} (proper : AreProperties properties)
    (letters : List Char) : runText (createRun letters properties) = rewritten letters := by
  show childrenText (properties.toList.map Node.copied ++ textElements letters) = _
  rw [childrenText_append, childrenText_properties proper, childrenText_textElements]
  rfl

/-! ## Runs among nodes -/

/-- The texts of the runs among some nodes, without empty ones. -/
def runTexts (nodes : List Node) : List (List Char) :=
  ((nodes.filter isRun).map runText).filter fun letters => !letters.isEmpty

@[simp] theorem runTexts_nil : runTexts [] = [] := rfl

theorem runTexts_append (first second : List Node) :
    runTexts (first ++ second) = runTexts first ++ runTexts second := by
  simp [runTexts]

theorem runTexts_cons (node : Node) (rest : List Node) :
    runTexts (node :: rest) = runTexts [node] ++ runTexts rest :=
  runTexts_append [node] rest

theorem runTexts_other {node : Node} (other : isRun node = false) : runTexts [node] = [] := by
  simp [runTexts, other]

theorem runTexts_run {run : Node} (isRun : isRun run = true) :
    runTexts [run] = [runText run].filter fun letters => !letters.isEmpty := by
  simp [runTexts, isRun]

theorem flatten_without_empty (texts : List (List Char)) :
    (texts.filter fun letters => !letters.isEmpty).flatten = texts.flatten := by
  induction texts with
  | nil => rfl
  | cons letters rest hypothesis =>
    cases letters with
    | nil => simpa using hypothesis
    | cons letter others => simpa using hypothesis

theorem flatten_runTexts (paragraph : Node) :
    (runTexts paragraph.children).flatten = paragraphText paragraph := by
  rw [runTexts, flatten_without_empty]
  simp [paragraphText, runs, List.flatMap]

end Imprint.Document
