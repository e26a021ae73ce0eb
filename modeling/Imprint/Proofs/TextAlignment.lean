import Imprint.Proofs.TextCuts
/-! # Texts that are cut differently

Two lists of texts are aligned if they spell the same and differ only in how stretches are cut that
would come back whole from being written anew.  A text that would not, like the content of a node that
was put in as it is, stands on both sides as one piece.  Cutting and joining keep the alignment. -/
set_option autoImplicit false
namespace Imprint.Document
open Xml

inductive Aligned : List (List Char) → List (List Char) → Prop where
  | nil : Aligned [] []
  | fixed {left right : List (List Char)} (letters : List Char) (rest : Aligned left right) :
      Aligned (letters :: left) (letters :: right)
  | loose {left right : List (List Char)} (before after : List (List Char))
      (same : before.flatten = after.flatten)
      (kept : ∀ letter ∈ before.flatten, isKept letter = true) (rest : Aligned left right) :
      Aligned (before ++ left) (after ++ right)

/-- A text of letters that come back is not changed by being written anew. -/
theorem rewritten_of_kept {letters : List Char} (kept : ∀ letter ∈ letters, isKept letter = true) :
    rewritten letters = letters :=
  List.filter_eq_self.mpr kept

theorem flatten_dense (texts : List (List Char)) : (dense texts).flatten = texts.flatten :=
  flatten_without_empty texts

namespace Aligned

variable {left right : List (List Char)}

theorem refl (texts : List (List Char)) : Aligned texts texts := by
  induction texts with
  | nil => exact .nil
  | cons letters rest hypothesis => exact .fixed letters hypothesis

/-- Texts of letters that come back are aligned as soon as they spell the same. -/
theorem ofKept (same : left.flatten = right.flatten)
    (kept : ∀ letter ∈ left.flatten, isKept letter = true) : Aligned left right := by
  simpa using Aligned.loose left right same kept .nil

theorem flatten_eq (aligned : Aligned left right) : left.flatten = right.flatten := by
  induction aligned with
  | nil => rfl
  | fixed letters rest hypothesis => simp [hypothesis]
  | loose before after same kept rest hypothesis => simp [same, hypothesis]

theorem symm (aligned : Aligned left right) : Aligned right left := by
  induction aligned with
  | nil => exact .nil
  | fixed letters rest hypothesis => exact .fixed letters hypothesis
  | loose before after same kept rest hypothesis => exact .loose after before same.symm (same ▸ kept) hypothesis

theorem append {left' right' : List (List Char)} (first : Aligned left right)
    (second : Aligned left' right') : Aligned (left ++ left') (right ++ right') := by
  induction first with
  | nil => exact second
  | fixed letters rest hypothesis => exact .fixed letters hypothesis
  | loose before after same kept rest hypothesis =>
    rw [List.append_assoc, List.append_assoc]
    exact .loose before after same kept hypothesis

protected theorem dense (aligned : Aligned left right) :
    Aligned (dense left) (dense right) := by
  induction aligned with
  | nil => exact .nil
  | @fixed left right letters rest hypothesis =>
    rw [dense_cons letters left, dense_cons letters right]
    exact (Aligned.refl _).append hypothesis
  | loose before after same kept rest hypothesis =>
    rw [dense_append, dense_append]
    refine .loose _ _ ?_ ?_ hypothesis
    · rw [flatten_dense, flatten_dense, same]
    · rwa [flatten_dense]

end Aligned

/-! ## Cutting -/

theorem cutBefore_append (size : Nat) (first second : List (List Char)) :
    first.flatten.length ≤ size →
      cutBefore size (first ++ second) =
        first ++ cutBefore (size - first.flatten.length) second := by
  induction first generalizing size with
  | nil => intro short; rfl
  | cons letters rest hypothesis =>
    intro short
    simp only [List.flatten_cons, List.length_append] at short
    have next := hypothesis (size - letters.length) (by omega)
    have amount : size - letters.length - rest.flatten.length =
        size - (letters :: rest).flatten.length := by
      simp only [List.flatten_cons, List.length_append]
      omega
    rw [List.cons_append, cutBefore, if_pos (by omega : letters.length ≤ size), next, amount]
    rfl

theorem cutBefore_within (size : Nat) (first second : List (List Char))
    (kept : ∀ letter ∈ first.flatten, isKept letter = true) : size < first.flatten.length →
      (cutBefore size (first ++ second)).flatten = first.flatten.take size := by
  induction first generalizing size with
  | nil => intro short; simp at short
  | cons letters rest hypothesis =>
    intro short
    simp only [List.flatten_cons, List.length_append] at short
    rw [List.cons_append, cutBefore]
    split
    · rename_i fits
      have keptRest : ∀ letter ∈ rest.flatten, isKept letter = true := fun letter member =>
        kept letter (by simp only [List.flatten_cons]; exact List.mem_append_right _ member)
      rw [List.flatten_cons, hypothesis (size - letters.length) keptRest (by omega),
        List.flatten_cons, List.take_append, List.take_of_length_le fits]
    · rename_i longer
      have keptTake : ∀ letter ∈ letters.take size, isKept letter = true := fun letter member =>
        kept letter (by
          simp only [List.flatten_cons]
          exact List.mem_append_left _ (List.mem_of_mem_take member))
      have none : size - letters.length = 0 := by omega
      rw [rewritten_of_kept keptTake]
      simp only [List.flatten_cons, List.flatten_nil, List.append_nil, List.take_append, none,
        List.take_zero]

theorem cutAfter_append (first second : List (List Char)) : ∀ size : Nat,
    first.flatten.length ≤ size →
      dense (cutAfter size (first ++ second)) =
        dense (cutAfter (size - first.flatten.length) second) := by
  induction first with
  | nil => intro size short; rfl
  | cons letters rest hypothesis =>
    intro size short
    simp only [List.flatten_cons, List.length_append] at short
    have amount : size - letters.length - rest.flatten.length =
        size - (letters :: rest).flatten.length := by
      simp only [List.flatten_cons, List.length_append]
      omega
    have next := hypothesis (size - letters.length) (by omega)
    rw [amount] at next
    rw [← next, List.cons_append, cutAfter]
    split
    · rename_i none
      obtain rfl : letters = [] := List.eq_nil_of_length_eq_zero (by omega)
      rw [none, dense_cons, Nat.zero_sub, cutAfter_zero]
      rfl
    · rw [if_pos (by omega : letters.length ≤ size)]

theorem cutAfter_within (first second : List (List Char))
    (kept : ∀ letter ∈ first.flatten, isKept letter = true) : ∀ size : Nat,
    size < first.flatten.length → ∃ rest, cutAfter size (first ++ second) = rest ++ second ∧
      rest.flatten = first.flatten.drop size := by
  induction first with
  | nil => intro size short; simp at short
  | cons letters rest hypothesis =>
    intro size short
    simp only [List.flatten_cons, List.length_append] at short
    have keptRest : ∀ letter ∈ rest.flatten, isKept letter = true := fun letter member =>
      kept letter (by simp only [List.flatten_cons]; exact List.mem_append_right _ member)
    rw [List.cons_append, cutAfter]
    split
    · rename_i none
      exact ⟨letters :: rest, rfl, by simp [none]⟩
    · split
      · rename_i fits
        obtain ⟨others, found, same⟩ := hypothesis keptRest (size - letters.length) (by omega)
        refine ⟨others, found, ?_⟩
        rw [same, List.flatten_cons, List.drop_append, List.drop_eq_nil_of_le fits, List.nil_append]
      · have keptDrop : ∀ letter ∈ letters.drop size, isKept letter = true := fun letter member =>
          kept letter (by
            simp only [List.flatten_cons]
            exact List.mem_append_left _ (List.mem_of_mem_drop member))
        refine ⟨rewritten (letters.drop size) :: rest, rfl, ?_⟩
        have none : size - letters.length = 0 := by omega
        rw [rewritten_of_kept keptDrop, List.flatten_cons, List.flatten_cons, List.drop_append, none,
          List.drop_zero]

namespace Aligned

variable {left right : List (List Char)}

protected theorem cutBefore (aligned : Aligned left right) : ∀ size : Nat,
    Aligned (dense (cutBefore size left)) (dense (cutBefore size right)) := by
  induction aligned with
  | nil => intro size; exact .nil
  | @fixed left right letters rest hypothesis =>
    intro size
    rw [cutBefore, cutBefore]
    split
    · rw [dense_cons letters, dense_cons letters (cutBefore _ right)]
      exact (Aligned.refl _).append (hypothesis _)
    · exact Aligned.refl _
  | @loose left right before after same kept rest hypothesis =>
    intro size
    by_cases whole : before.flatten.length ≤ size
    · rw [cutBefore_append size before left whole,
        cutBefore_append size after right (same ▸ whole), same, dense_append, dense_append]
      exact (Aligned.ofKept same kept).dense.append (hypothesis _)
    · have inside : size < before.flatten.length := Nat.lt_of_not_le whole
      have leftText := cutBefore_within size before left kept inside
      have rightText := cutBefore_within size after right (same ▸ kept) (same ▸ inside)
      refine (Aligned.ofKept ?_ ?_).dense
      · rw [leftText, rightText, same]
      · intro letter member
        rw [leftText] at member
        exact kept letter (List.mem_of_mem_take member)

protected theorem cutAfter (aligned : Aligned left right) : ∀ size : Nat,
    Aligned (dense (cutAfter size left)) (dense (cutAfter size right)) := by
  induction aligned with
  | nil => intro size; exact .nil
  | @fixed left right letters rest hypothesis =>
    intro size
    have whole : Aligned (letters :: left) (letters :: right) := .fixed letters rest
    rw [cutAfter, cutAfter]
    split
    · exact whole.dense
    · split
      · exact hypothesis _
      · exact (Aligned.fixed _ rest).dense
  | @loose left right before after same kept rest hypothesis =>
    intro size
    by_cases whole : before.flatten.length ≤ size
    · rw [cutAfter_append before left size whole, cutAfter_append after right size (same ▸ whole),
        same]
      exact hypothesis _
    · have inside : size < before.flatten.length := Nat.lt_of_not_le whole
      obtain ⟨leftRest, leftCut, leftText⟩ := cutAfter_within before left kept size inside
      obtain ⟨rightRest, rightCut, rightText⟩ :=
        cutAfter_within after right (same ▸ kept) size (same ▸ inside)
      rw [leftCut, rightCut]
      refine (Aligned.loose _ _ ?_ ?_ rest).dense
      · rw [leftText, rightText, same]
      · intro letter member
        rw [leftText] at member
        exact kept letter (List.mem_of_mem_drop member)

end Aligned

/-! ## Paragraphs -/

/-- Two nodes have aligned texts. -/
def SameText (left right : Node) : Prop :=
  Aligned (runTexts left.children) (runTexts right.children)

namespace SameText

variable {left right : Node}

theorem paragraphText_eq (same : SameText left right) :
    paragraphText left = paragraphText right := by
  rw [← flatten_runTexts, ← flatten_runTexts]
  exact same.flatten_eq

/-- Paragraphs with one text that a document can hold, without carriage returns, are aligned however
they are cut into runs. -/
theorem ofText (same : paragraphText left = paragraphText right)
    (plain : '\r' ∉ paragraphText left) (writable : Text.isWritable (paragraphText left) = true) :
    SameText left right := by
  refine Aligned.ofKept ?_ ?_
  · rw [flatten_runTexts, flatten_runTexts, same]
  · rw [flatten_runTexts]
    exact isKept_of_writable plain writable

/-- A replacement is found on both sides or on none, and keeps the texts aligned. -/
theorem replaceText (same : SameText left right) (wanted : List Char)
    {replacement other : Option Node}
    (replaced : runTexts replacement.toList = runTexts other.toList) :
    (replaceText? left (Reading.ofParagraph left) wanted replacement = none ∧
        replaceText? right (Reading.ofParagraph right) wanted other = none) ∨
      ∃ leftChildren rightChildren,
        replaceText? left (Reading.ofParagraph left) wanted replacement =
            some (left.withChildren leftChildren) ∧
          replaceText? right (Reading.ofParagraph right) wanted other =
            some (right.withChildren rightChildren) ∧
          SameText (left.withChildren leftChildren) (right.withChildren rightChildren) := by
  by_cases filled : wanted = []
  · subst filled
    exact .inl ⟨rfl, rfl⟩
  cases found : Text.find? wanted (paragraphText left) with
  | none =>
    have foundRight : Text.find? wanted (paragraphText right) = none :=
      same.paragraphText_eq ▸ found
    exact .inl ⟨replaceText_missing found _, replaceText_missing foundRight _⟩
  | some start =>
    have foundRight : Text.find? wanted (paragraphText right) = some start :=
      same.paragraphText_eq ▸ found
    obtain ⟨leftChildren, leftDone, leftTexts⟩ := replaceText_texts filled found replacement
    obtain ⟨rightChildren, rightDone, rightTexts⟩ := replaceText_texts filled foundRight other
    refine .inr ⟨leftChildren, rightChildren, leftDone, rightDone, ?_⟩
    show Aligned (runTexts leftChildren) (runTexts rightChildren)
    rw [leftTexts, rightTexts, replaced]
    simp only [dense_append]
    exact ((same.cutBefore start).append (Aligned.refl _)).append (same.cutAfter _)

end SameText

end Imprint.Document
