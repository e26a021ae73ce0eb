import Imprint.Proofs.ReplacedChildren
import Mathlib.Data.List.Chain

/-! # The text of a run, set and read again

The text of a run is written as text elements, tabs and line breaks in the place of the old ones, and read off
all of them again.  What is read is the text without the letters that no document can hold. -/
set_option autoImplicit false
namespace Imprint.Document
open Xml Node

/-- A text without carriage returns and without the control characters other than tab and line feed. -/
def cleaned (letters : List Char) : List Char :=
  letters.filter fun letter => decide (0x20 ≤ letter.toNat) || letter == '\t' || letter == '\n'

/-- Not both of two neighbours are text elements. -/
def Parting (first second : Node) : Prop :=
  first.hasTag Tag.text_ = true → second.hasTag Tag.text_ = false

/-- A text element holds no tab and no line feed. -/
def Unbroken (child : Node) : Prop :=
  child.hasTag Tag.text_ = true → '\t' ∉ child.lead.toList ∧ '\n' ∉ child.lead.toList

/-- What stands in front of the text of a run: the children in front of the first one that stands for text, or
else the properties. -/
inductive InFront (run : Node) : List Node → Prop where
  | text {front behind : List Node} {first : Node} (place : run.children = front ++ first :: behind)
      (silent : ∀ child ∈ front, isTextual child = false) (textual : isTextual first = true) : InFront run front
  | bare {front : List Node} (silent : ∀ child ∈ run.children, isTextual child = false)
      (length : front.length = if (runProperties run).isSome then 1 else 0) : InFront run front

/-- A run whose text was set: it reads as the text, and what stands for the text is in one place among the other
children, which have not changed. -/
structure Lettered (run : Node) (letters : List Char) (after : Node) : Prop where
  head : after.head = run.head
  text : runText after = cleaned letters
  placed : ∃ front new back, after.children = front ++ new ++ back ∧ front ++ back = silentChildren run ∧
    (∀ child ∈ new, isTextual child = true) ∧ InFront run front
  unbroken : ∀ child ∈ after.children, Unbroken child
  apart : after.children.IsChain Parting

/-! ## The letters that are kept -/

theorem isKept_eq (letter : Char) :
    isKept letter = (decide (0x20 ≤ letter.toNat) || letter == '\t' || letter == '\n') := by
  by_cases control : letter.toNat < 0x20
  · have low : decide (0x20 ≤ letter.toNat) = false := decide_eq_false (by omega)
    by_cases carriage : letter = '\r'
    · subst carriage
      rfl
    · have different : (letter == '\r') = false := beq_eq_false_iff_ne.mpr carriage
      simp [isKept, Text.isStrayControl, control, low, different, bne]
  · have high : decide (0x20 ≤ letter.toNat) = true := decide_eq_true (by omega)
    have other : letter ≠ '\r' := by
      rintro rfl
      exact control (by decide)
    simp [isKept, Text.isStrayControl, control, high, other]

theorem rewritten_eq_cleaned (letters : List Char) : rewritten letters = cleaned letters :=
  List.filter_congr fun letter _ => isKept_eq letter

/-- Every text without the two letters that are refused can be written. -/
theorem requireWritable_ok {letters : List Char}
    (accepted : ∀ letter ∈ letters, letter.toNat ≠ 0xfffe ∧ letter.toNat ≠ 0xffff) :
    requireWritable letters = .ok () := by
  have writable : canWrite letters = true := by
    unfold canWrite Text.isWritable Text.sanitize
    rw [List.all_eq_true]
    intro letter member
    obtain ⟨original, plain⟩ := List.mem_filter.mp member
    simp [Text.isWritableChar, plain, accepted letter original]
  rw [requireWritable, if_pos writable]

/-! ## The elements of a text -/

section Elements

theorem Written.unbroken {child : Node} (written : Written child) : Unbroken child := by
  intro named
  cases written with
  | text unbroken =>
    simp only [textElement, lead, String.toList_ofList]
    constructor
    · exact fun among => unbroken.1 (List.mem_of_mem_filter among)
    · exact fun among => unbroken.2 (List.mem_of_mem_filter among)
  | tabulator => cases named
  | lineBreak => cases named

theorem parting_of_other {first second : Node} (other : second.hasTag Tag.text_ = false) : Parting first second :=
  fun _ => other

theorem chain_of_others {nodes : List Node} (others : ∀ child ∈ nodes, child.hasTag Tag.text_ = false) :
    nodes.IsChain Parting := by
  induction nodes with
  | nil => exact .nil
  | cons node rest hypothesis =>
    rw [List.forall_mem_cons] at others
    refine List.isChain_cons.mpr ⟨fun second first => ?_, hypothesis others.2⟩
    exact parting_of_other (others.2 second (List.mem_of_mem_head? first))

theorem textElementsFrom_apart (letters : List Char) : ∀ collected : List Char,
    (textElementsFrom collected letters).IsChain Parting := by
  have flushed (collected : List Char) : (flushText collected).IsChain Parting := by
    unfold flushText
    split
    · exact .nil
    · exact .singleton _
  induction letters with
  | nil => exact flushed
  | cons letter rest hypothesis =>
    intro collected
    have marked (tag : Tag) (other : (Node.ofTag tag []).hasTag Tag.text_ = false) :
        (flushText collected ++ Node.ofTag tag [] :: textElementsFrom [] rest).IsChain Parting := by
      refine List.isChain_append.mpr ⟨flushed collected, ?_, ?_⟩
      · refine List.isChain_cons.mpr ⟨fun second _ named => ?_, hypothesis []⟩
        rw [other] at named
        cases named
      · intro last _ first isFirst
        obtain rfl := Option.some.inj isFirst
        exact parting_of_other other
    unfold textElementsFrom
    split
    next => exact marked Tag.tabulator (by decide)
    next =>
      split
      next => exact marked Tag.lineBreak (by decide)
      next =>
        split
        next => exact hypothesis collected
        next => exact hypothesis (letter :: collected)

end Elements

/-! ## The text of a run -/

section Runs

variable {run : Node}

theorem text_textual {child : Node} (named : child.hasTag Tag.text_ = true) : isTextual child = true := by
  have tag : child.tag? = some Tag.text_ := by simpa [hasTag] using named
  simp [isTextual, childText?, tag]

theorem not_text {child : Node} (silent : isTextual child = false) : child.hasTag Tag.text_ = false := by
  cases named : child.hasTag Tag.text_ with
  | false => rfl
  | true => simp [text_textual named] at silent

theorem silent_silentChildren : ∀ child ∈ silentChildren run, isTextual child = false := by
  intro child member
  simpa using (List.mem_filter.mp member).2

/-- The place of the text among the other children of a run. -/
theorem inFront_take (run : Node) : InFront run ((silentChildren run).take (textPosition run)) := by
  cases first : run.children.findIdx? isTextual with
  | some position =>
    obtain ⟨inside, textual, before⟩ := List.findIdx?_eq_some_iff_getElem.mp first
    have silent : ∀ child ∈ run.children.take position, isTextual child = false := by
      intro child member
      obtain ⟨index, bound, rfl⟩ := List.mem_iff_getElem.mp member
      rw [List.getElem_take]
      exact Bool.eq_false_iff.mpr (before index (Nat.lt_of_lt_of_le bound (List.length_take_le _ _)))
    have place : run.children =
        run.children.take position ++ run.children[position] :: run.children.drop (position + 1) := by
      rw [List.getElem_cons_drop, List.take_append_drop]
    have whole : (silentChildren run).take position = run.children.take position := by
      have kept : (run.children.take position).filter (fun child => !isTextual child) = run.children.take position :=
        List.filter_eq_self.mpr fun child member => by simp [silent child member]
      rw [silentChildren, ← List.take_append_drop position run.children, List.filter_append, kept]
      simp [Nat.le_of_lt inside]
    rw [textPosition, first]
    dsimp only
    rw [whole]
    exact InFront.text place silent textual
  | none =>
    have silent : ∀ child ∈ run.children, isTextual child = false := List.findIdx?_eq_none_iff.mp first
    have whole : silentChildren run = run.children :=
      List.filter_eq_self.mpr fun child member => by simp [silent child member]
    apply InFront.bare silent
    rw [textPosition, first, whole, runProperties]
    cases properties : run.child? Tag.runProperties with
    | none => rfl
    | some found =>
      have filled := List.length_pos_of_mem (List.mem_of_find?_eq_some properties)
      exact List.length_take_of_le filled

/-- Elements of a text between children that stand for none stay apart. -/
theorem spliced_apart {front new back : List Node} (before : ∀ child ∈ front, isTextual child = false)
    (after : ∀ child ∈ back, isTextual child = false) (apart : new.IsChain Parting) :
    (front ++ new ++ back).IsChain Parting := by
  have others {nodes : List Node} (silent : ∀ child ∈ nodes, isTextual child = false) :
      ∀ child ∈ nodes, child.hasTag Tag.text_ = false := fun child member => not_text (silent child member)
  refine List.isChain_append.mpr ⟨List.isChain_append.mpr ⟨chain_of_others (others before), apart, ?_⟩,
    chain_of_others (others after), ?_⟩
  · intro last isLast first _ named
    rw [others before last (List.mem_of_getLast? isLast)] at named
    cases named
  · intro last _ first isFirst
    exact parting_of_other (others after first (List.mem_of_mem_head? isFirst))

theorem setRunText_lettered (run : Node) (letters : List Char) : Lettered run letters (setRunText run letters) where
  head := rfl
  text := (runText_setRunText run letters).trans (rewritten_eq_cleaned letters)
  placed := ⟨_, _, _, rfl, List.take_append_drop _ _, fun child member =>
    (textElements_written letters child member).textual, inFront_take run⟩
  unbroken := by
    have plain {nodes : List Node} (among : nodes ⊆ silentChildren run) : ∀ child ∈ nodes, Unbroken child := by
      intro child member named
      rw [not_text (silent_silentChildren child (among member))] at named
      cases named
    show ∀ child ∈ (silentChildren run).take _ ++ textElements letters ++ (silentChildren run).drop _, _
    rw [List.forall_mem_append, List.forall_mem_append]
    exact ⟨⟨plain (List.take_subset _ _), fun child member => (textElements_written letters child member).unbroken⟩,
      plain (List.drop_subset _ _)⟩
  apart :=
    spliced_apart (fun child member => silent_silentChildren child (List.mem_of_mem_take member))
      (fun child member => silent_silentChildren child (List.mem_of_mem_drop member))
      (textElementsFrom_apart letters [])

/-- A text without the two refused letters can be set on every run and reads back cleaned, and so does a new run
with it. -/
theorem setRunText_reads (run : Node) {letters : List Char}
    (accepted : ∀ letter ∈ letters, letter.toNat ≠ 0xfffe ∧ letter.toNat ≠ 0xffff) :
    requireWritable letters = .ok () ∧ Lettered run letters (setRunText run letters) ∧
      ∀ properties, AreProperties properties → runText (createRun letters properties) = cleaned letters := by
  refine ⟨requireWritable_ok accepted, setRunText_lettered run letters, fun properties proper => ?_⟩
  rw [runText_createRun proper, rewritten_eq_cleaned]

/-- A run with properties, a picture between two texts, and a control character in the new text. -/
theorem setRunText_reads_pictured :
    ∃ run, (setRunText run "a\tb\r\x01\n".toList).children.map tag? = [some Tag.runProperties,
        some Tag.text_, some Tag.tabulator, some Tag.text_, some Tag.lineBreak, some (Tag.word "drawing")] ∧
      Lettered run "a\tb\r\x01\n".toList (setRunText run "a\tb\r\x01\n".toList) := by
  let run := ofTag Tag.run [ofTag Tag.runProperties [], ofTag Tag.carriageReturn [], ofTag (Tag.word "drawing") [],
    ofTag Tag.tabulator []]
  exact ⟨run, by decide, (setRunText_reads run (by simp)).2.1⟩

end Runs

end Imprint.Document
