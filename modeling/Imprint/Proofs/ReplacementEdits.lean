import Imprint.Proofs.Forest
import Imprint.Proofs.TextAlignment
/-! # Replacements as edits of trees

Replacing texts of a paragraph drops runs, goes into runs, and adds nodes without keys; nothing else in
the paragraph changes. -/
set_option autoImplicit false
namespace Imprint.Document
open Xml Node

theorem unkeyed_nil : Unkeyed [] := by
  intro number member
  simp [keysOf] at member

theorem unkeyed_ofTag (tag : Tag) {children : List Node} (below : Unkeyed children) :
    Unkeyed [Node.ofTag tag children] := by
  intro number member
  rw [keysOf_cons] at member
  rcases List.mem_cons.mp member with here | member
  · exact here
  · rcases List.mem_append.mp member with inside | outside
    · exact below number inside
    · exact unkeyed_nil number outside

theorem unkeyed_flushText (collected : List Char) : Unkeyed (flushText collected) := by
  unfold flushText
  split
  · exact unkeyed_nil
  · intro number member
    simp only [textElement, keysOf_cons, Node.key, Node.children] at member
    simpa [keysOf] using member

theorem unkeyed_textElementsFrom (letters : List Char) :
    ∀ collected : List Char, Unkeyed (textElementsFrom collected letters) := by
  induction letters with
  | nil => exact unkeyed_flushText
  | cons letter rest hypothesis =>
    intro collected
    have marked (tag : Tag) :
        Unkeyed (flushText collected ++ Node.ofTag tag [] :: textElementsFrom [] rest) :=
      (unkeyed_flushText collected).append
        (Unkeyed.cons_iff.mpr ⟨unkeyed_ofTag tag unkeyed_nil, hypothesis []⟩)
    unfold textElementsFrom
    split_ifs
    · exact marked _
    · exact marked _
    · exact hypothesis collected
    · exact hypothesis _

theorem unkeyed_textElements (letters : List Char) : Unkeyed (textElements letters) :=
  unkeyed_textElementsFrom letters []

theorem unkeyed_properties (properties : Option Node) :
    Unkeyed (properties.toList.map Node.copied) := by
  cases properties with
  | none => exact unkeyed_nil
  | some node => exact unkeyed_copied node

theorem unkeyed_createRun (letters : List Char) (properties : Option Node) :
    Unkeyed [createRun letters properties] :=
  unkeyed_ofTag _ ((unkeyed_properties properties).append (unkeyed_textElements letters))

theorem unkeyed_createBreakRun (properties : Option Node) :
    Unkeyed [createBreakRun properties] :=
  unkeyed_ofTag _ ((unkeyed_properties properties).append (unkeyed_ofTag _ unkeyed_nil))

section Revisions

variable {touched : Nat → Prop}

/-- Writing a text into a run revises its children. -/
theorem revised_setRunText {children : List Node} (run : Node)
    (revised : Revised touched children run.children) (letters : List Char) :
    Revised touched children (setRunText run letters).children :=
  (revised.filter _).insert (unkeyed_textElements letters) _

/-- Taking the text out of a run revises its children. -/
theorem revised_withoutText (run : Node) :
    Revised touched run.children (withoutText run).children :=
  (Revised.refl run.children).filter _

/-- What may come out of cutting a run: new nodes around the run as it was, or with another text, or
without it. -/
inductive CutOut (run : Node) : List Node → Prop where
  | gone {pieces : List Node} (new : Unkeyed pieces) : CutOut run pieces
  | kept : CutOut run [run]
  | written {before after : List Node} (letters : List Char) (newBefore : Unkeyed before)
      (newAfter : Unkeyed after) : CutOut run (before ++ setRunText run letters :: after)

theorem cutOut_cutRun (affected : List (Nat × Span)) {replacement : List Node}
    (new : Unkeyed replacement) (start stop place : Nat) (run : Node) :
    CutOut run (cutRun affected replacement start stop place run) := by
  have writtenFirst (letters : List Char) {after : List Node} (newAfter : Unkeyed after) :
      CutOut run (setRunText run letters :: after) := by
    show CutOut run ([] ++ setRunText run letters :: after)
    exact .written letters unkeyed_nil newAfter
  have writtenLast (letters : List Char) {before : List Node} (newBefore : Unkeyed before) :
      CutOut run (before ++ [setRunText run letters]) :=
    .written letters newBefore unkeyed_nil
  have split (start stop : Nat) : CutOut run (splitRun replacement start stop run) := by
    dsimp only [splitRun]
    split
    · exact .gone new
    · exact writtenLast _ new
    · exact writtenFirst _ new
    · exact writtenFirst _ (new.append (unkeyed_createRun _ _))
  have first (start : Nat) : CutOut run (cutFirst replacement start run) := by
    dsimp only [cutFirst]
    split
    · exact .gone new
    · exact writtenFirst _ new
  have last (stop : Nat) : CutOut run (cutLast stop run) := by
    dsimp only [cutLast]
    split
    · exact .gone unkeyed_nil
    · exact writtenLast _ unkeyed_nil
  unfold cutRun
  split
  · split
    · exact split _ _
    · exact .kept
  · split
    · split_ifs
      · exact first _
      · exact last _
      · exact .gone unkeyed_nil
      · exact .kept
    · exact .kept
  · exact .kept

theorem unkeyed_withChildren {node : Node} {children : List Node} (node_ : Unkeyed [node])
    (below : Unkeyed children) : Unkeyed [node.withChildren children] := by
  intro number member
  rw [keysOf_cons, key_withChildren, children_withChildren] at member
  rcases List.mem_cons.mp member with here | member
  · exact node_ number (by rw [here, keysOf_cons]; exact List.mem_cons_self)
  · rcases List.mem_append.mp member with inside | outside
    · exact below number inside
    · exact unkeyed_nil number outside

theorem unkeyed_setRunText {run : Node} (unkeyed : Unkeyed [run]) (letters : List Char) :
    Unkeyed [setRunText run letters] := by
  have below : Unkeyed run.children := by
    intro number member
    refine unkeyed number ?_
    rw [keysOf_cons]
    exact List.mem_cons_of_mem _ (List.mem_append_left _ member)
  have start : Revised (fun _ => False) [] run.children := by
    simpa using Revised.addAll below .nil
  refine unkeyed_withChildren unkeyed fun number member => ?_
  rcases (revised_setRunText run start letters).keys_subset number member with old | zero
  · simp [keysOf] at old
  · exact zero

/-- What comes out of cutting a run that is new, and of what stands behind it. -/
theorem CutOut.revised_new {run : Node} {pieces old new : List Node} (out : CutOut run pieces)
    (unkeyed : Unkeyed [run]) (rest : Revised touched old new) :
    Revised touched old (pieces ++ new) := by
  cases out with
  | gone free => exact rest.addAll free
  | kept => exact .add run unkeyed rest
  | written letters newBefore newAfter =>
    rw [List.append_assoc, List.cons_append]
    exact Revised.addAll newBefore
      (.add _ (unkeyed_setRunText unkeyed letters) (rest.addAll newAfter))

/-- What comes out of cutting a run that stood for an old one, and of what stands behind it. -/
theorem CutOut.revised_old {node run : Node} {pieces old new : List Node} (out : CutOut run pieces)
    (may : touched node.key) (same : ∃ children, run = node.withChildren children ∧
      Revised touched node.children children) (rest : Revised touched old new) :
    Revised touched (node :: old) (pieces ++ new) := by
  obtain ⟨children, rfl, below⟩ := same
  cases out with
  | gone free => exact .drop node (rest.addAll free)
  | kept => exact .inside node may below rest
  | written letters newBefore newAfter =>
    rw [List.append_assoc, List.cons_append]
    have written := revised_setRunText (node.withChildren children) below letters
    exact Revised.addAll newBefore (.inside node may written (rest.addAll newAfter))

/-- Cutting runs of revised children revises the children. -/
theorem revised_replaceRuns {change : Nat → Node → List Node}
    (cuts : ∀ place run, CutOut run (change place run)) {old new : List Node}
    (revised : Revised touched old new) :
    (∀ node ∈ old, isRun node = true → touched node.key) → ∀ place : Nat,
      Revised touched old (replaceRuns change place new) := by
  induction revised with
  | nil => intro may place; exact .nil
  | keep node rest hypothesis =>
    intro may place
    have next := hypothesis fun other member => may other (List.mem_cons_of_mem _ member)
    unfold replaceRuns
    split
    · rename_i direct
      exact (cuts place node).revised_old (may node List.mem_cons_self direct)
        ⟨node.children, by simp, .refl _⟩ (next _)
    · exact .keep node (next _)
  | drop node rest hypothesis =>
    intro may place
    exact .drop node (hypothesis (fun other member => may other (List.mem_cons_of_mem _ member)) place)
  | add node unkeyed rest hypothesis =>
    intro may place
    unfold replaceRuns
    split
    · exact (cuts place node).revised_new unkeyed (hypothesis may _)
    · exact .add node unkeyed (hypothesis may _)
  | inside node mayHere below rest inner hypothesis =>
    intro may place
    have next := hypothesis fun other member => may other (List.mem_cons_of_mem _ member)
    unfold replaceRuns
    split
    · exact (cuts place _).revised_old mayHere ⟨_, rfl, below⟩ (next _)
    · exact .inside node mayHere below (next _)

/-- Replacing a text in a paragraph with revised children revises the children. -/
theorem revised_replaceText {children : List Node} {paragraph changed : Node} {reading : Reading}
    {wanted : List Char} {replacement : Option Node} (new : Unkeyed replacement.toList)
    (revised : Revised touched children paragraph.children)
    (may : ∀ node ∈ children, isRun node = true → touched node.key)
    (replaced : replaceText? paragraph reading wanted replacement = some changed) :
    changed.head = paragraph.head ∧ Revised touched children changed.children := by
  unfold replaceText? at replaced
  split at replaced
  · cases replaced
  · split at replaced
    · cases replaced
    · dsimp only at replaced
      split at replaced
      · cases replaced
      · cases replaced
        exact ⟨rfl, revised_replaceRuns (cutOut_cutRun _ new _ _) revised may 0⟩

end Revisions

end Imprint.Document
