import Imprint.Proofs.DisplayConditions
import Mathlib.Data.List.Nodup

/-! # What conditions leave in a cell

A cell that holds paragraphs keeps one of them, whichever are removed and in whatever order.  It is only the number of
its paragraphs that is looked at, though: a table in front of its last paragraph ends the cell if that one is removed
while another paragraph is left. -/
set_option autoImplicit false
namespace Imprint
open Imprint.Action Xml Document Node Forest

namespace Xml.Node

/-- The elements directly in a node. -/
def elements (node : Node) : List Node :=
  node.children.filter isElement

/-- Whether the last element directly in a node is a paragraph. -/
def EndsWithParagraph (node : Node) : Prop :=
  node.elements.getLast?.any (hasTag Tag.paragraph) = true

instance : DecidablePred EndsWithParagraph := fun node =>
  inferInstanceAs (Decidable (node.elements.getLast?.any (hasTag Tag.paragraph) = true))

theorem endsWithParagraph_iff {node : Node} : node.EndsWithParagraph ↔
    ∃ last, node.elements.getLast? = some last ∧ last.hasTag Tag.paragraph = true :=
  Option.any_eq_true _ _

/-- Whether a node directly holds a paragraph that is not gone. -/
def KeepsParagraph (gone : List Nat) (node : Node) : Prop :=
  ∃ child ∈ node.children, child.hasTag Tag.paragraph = true ∧ child.key ∉ gone

theorem elements_pruned (gone : List Nat) (node : Node) : (node.pruned gone).elements =
    (node.elements.filter fun child => !gone.contains child.key).map (pruned gone) := by
  have same : isElement ∘ pruned gone = isElement := by
    funext child
    have label : (child.pruned gone).label = child.label := congrArg Head.label (head_pruned child)
    simp only [Function.comp_apply, isElement, tag?, label]
  rw [elements, children_pruned_eq, List.filter_map, same, elements, List.filter_filter, List.filter_filter]
  exact congrArg _ (List.filter_congr fun child _ => Bool.and_comm _ _)

theorem KeepsParagraph.mem_elements {gone : List Nat} {node : Node} (keeps : node.KeepsParagraph gone) :
    ∃ child ∈ (node.pruned gone).elements, child.hasTag Tag.paragraph = true := by
  obtain ⟨child, direct, isParagraph, stays⟩ := keeps
  have isStill : (child.pruned gone).hasTag Tag.paragraph = true := (hasTag_pruned child _).trans isParagraph
  exact ⟨child.pruned gone, List.mem_filter.mpr ⟨mem_children_pruned.mpr ⟨child, direct, stays, rfl⟩,
    isElement_of_hasTag isStill⟩, isStill⟩

/-- The last element is still the last one if it is not gone. -/
theorem EndsWithParagraph.pruned_of_last {gone : List Nat} {node last : Node}
    (isLast : node.elements.getLast? = some last) (isParagraph : last.hasTag Tag.paragraph = true)
    (stays : last.key ∉ gone) : (node.pruned gone).EndsWithParagraph := by
  refine endsWithParagraph_iff.mpr ⟨last.pruned gone, ?_, (hasTag_pruned last _).trans isParagraph⟩
  obtain ⟨front, split⟩ := List.getLast?_eq_some_iff.mp isLast
  rw [elements_pruned, split, List.filter_append, List.map_append]
  simp [stays]

/-- A node with a paragraph ends with one if only paragraphs come behind a paragraph. -/
theorem endsWithParagraph_of_pairwise {node child : Node} (member : child ∈ node.elements)
    (isParagraph : child.hasTag Tag.paragraph = true)
    (behind : node.elements.Pairwise fun earlier later =>
      earlier.hasTag Tag.paragraph = true → later.hasTag Tag.paragraph = true) : node.EndsWithParagraph := by
  obtain ⟨front, last, split⟩ : ∃ front last, node.elements = front ++ [last] :=
    ⟨_, _, (List.dropLast_append_getLast (List.ne_nil_of_mem member)).symm⟩
  refine endsWithParagraph_iff.mpr ⟨last, by rw [split, List.getLast?_concat], ?_⟩
  rw [split] at member behind
  rcases List.mem_append.mp member with early | same
  · exact (List.pairwise_append.mp behind).2.2 child early last (List.mem_singleton_self last) isParagraph
  · exact List.mem_singleton.mp same ▸ isParagraph

end Xml.Node

namespace Xml.Forest

section Cells

variable {forest : Forest} {gone : List Nat} {cell : Node}

/-- What is in a cell is not in a paragraph. -/
theorem WellFormed.not_in_paragraph (wellFormed : forest.WellFormed) (inForest : cell ∈ forest.nodes)
    (isCell : cell.hasTag Tag.cell = true) {child : Node} (direct : child ∈ cell.children) {paragraph : Node}
    (alsoInForest : paragraph ∈ forest.nodes) (isParagraph : paragraph.hasTag Tag.paragraph = true) :
    child.key ∉ paragraph.children.map key := by
  intro held
  obtain rfl := parent_unique wellFormed.unique inForest alsoInForest (List.mem_map.mpr ⟨child, direct, rfl⟩) held
  exact absurd (tag_unique isCell isParagraph) (by decide)

/-- A turn takes nothing out of a cell but the paragraph whose turn it is. -/
theorem WellFormed.not_mem_struckBy (wellFormed : forest.WellFormed) (inForest : cell ∈ forest.nodes)
    (isCell : cell.hasTag Tag.cell = true) {paragraph : Nat} (isParagraph : forest.Tagged Tag.paragraph paragraph)
    {child : Node} (direct : child ∈ cell.children) (other : child.key ≠ paragraph) :
    child.key ∉ forest.struckBy gone paragraph := by
  intro struck
  rcases mem_struckBy struck with same | ⟨node, alsoInForest, rfl, last, held, same⟩
  · exact other same
  · exact wellFormed.not_in_paragraph inForest isCell direct alsoInForest
      (wellFormed.hasTag_of_tagged alsoInForest isParagraph) (List.mem_map.mpr ⟨last, held, same⟩)

/-- A cell that has more than one paragraph left has another one than a certain paragraph. -/
theorem WellFormed.another_paragraph (wellFormed : forest.WellFormed) (inForest : cell ∈ forest.nodes)
    (isCell : cell.hasTag Tag.cell = true) {paragraph : Node} (direct : paragraph ∈ cell.children)
    (isParagraph : paragraph.hasTag Tag.paragraph = true) (stays : paragraph.key ∉ gone)
    (more : isOnlyParagraphOfCell (cell.pruned gone) = false) :
    ∃ child ∈ cell.children, child.hasTag Tag.paragraph = true ∧ child.key ∉ gone ∧ child.key ≠ paragraph.key := by
  by_contra alone
  push Not at alone
  have unique := children_nodup wellFormed.unique inForest
  have same : hasTag Tag.paragraph ∘ pruned gone = hasTag Tag.paragraph :=
    funext fun child => hasTag_pruned child _
  have only : cell.children.filter (fun child => hasTag Tag.paragraph child && !gone.contains child.key) = [paragraph] := by
    refine List.perm_singleton.mp
      ((List.perm_ext_iff_of_nodup ((unique.of_map key).filter _) (List.nodup_singleton _)).mpr fun child => ?_)
    simp only [List.mem_filter, List.mem_singleton, Bool.and_eq_true, Bool.not_eq_true', ← Bool.not_eq_true,
      List.contains_iff_mem]
    constructor
    · rintro ⟨held, isAnother, remains⟩
      exact List.inj_on_of_nodup_map unique held direct (alone child held isAnother remains)
    · rintro rfl
      exact ⟨direct, isParagraph, stays⟩
  have count : ((cell.pruned gone).children.filter (hasTag Tag.paragraph)).length = 1 := by
    rw [children_pruned_eq, List.filter_map, same, List.filter_filter, only]
    rfl
  rw [isOnlyParagraphOfCell, hasTag_pruned, isCell, count] at more
  cases more

/-- A turn leaves a paragraph in every cell that has one. -/
theorem WellFormed.struckBy_keeps (wellFormed : forest.WellFormed) (inForest : cell ∈ forest.nodes)
    (isCell : cell.hasTag Tag.cell = true) {paragraph : Nat} (tagged : forest.Tagged Tag.paragraph paragraph)
    (keeps : cell.KeepsParagraph gone) : cell.KeepsParagraph (gone ++ forest.struckBy gone paragraph) := by
  have left {child : Node} (direct : child ∈ cell.children) (isParagraph : child.hasTag Tag.paragraph = true)
      (stays : child.key ∉ gone) (spared : child.key ∉ forest.struckBy gone paragraph) :
      cell.KeepsParagraph (gone ++ forest.struckBy gone paragraph) :=
    ⟨child, direct, isParagraph, fun isGone => (List.mem_append.mp isGone).elim stays spared⟩
  obtain ⟨child, direct, isParagraph, stays⟩ := keeps
  by_cases same : child.key = paragraph
  · subst same
    cases more : isOnlyParagraphOfCell (cell.pruned gone) with
    | false =>
      obtain ⟨another, held, isAnother, remains, other⟩ :=
        wellFormed.another_paragraph inForest isCell direct isParagraph stays more
      exact left held isAnother remains (wellFormed.not_mem_struckBy inForest isCell tagged held other)
    | true =>
      -- The only paragraph is emptied.
      refine left direct isParagraph stays fun struck => ?_
      have member := child_mem_allBelow inForest direct
      rw [struckBy, wellFormed.parent?_iff.mpr ⟨inForest, List.mem_map.mpr ⟨child, direct, rfl⟩⟩,
        wellFormed.find?_key member] at struck
      dsimp only at struck
      rw [if_pos more] at struck
      exact wellFormed.not_in_paragraph inForest isCell direct member isParagraph
        (List.map_subset _ List.filter_sublist.subset struck)
  · exact left direct isParagraph stays (wellFormed.not_mem_struckBy inForest isCell tagged direct same)

/-- The turns of some paragraphs leave a paragraph in every cell that has one. -/
theorem WellFormed.takenInTurn_keeps (wellFormed : forest.WellFormed) (inForest : cell ∈ forest.nodes)
    (isCell : cell.hasTag Tag.cell = true) (paragraphs : List Nat) : ∀ {gone : List Nat},
    (∀ paragraph ∈ paragraphs, forest.Tagged Tag.paragraph paragraph) → cell.KeepsParagraph gone →
    cell.KeepsParagraph (takenInTurn forest.struckBy gone paragraphs) := by
  induction paragraphs with
  | nil => exact fun _ keeps => keeps
  | cons paragraph rest hypothesis =>
    intro gone tagged keeps
    exact hypothesis (fun later member => tagged later (List.mem_cons_of_mem _ member))
      (wellFormed.struckBy_keeps inForest isCell (tagged paragraph List.mem_cons_self) keeps)

end Cells

end Xml.Forest

namespace Collected

variable {forest : Forest} {paragraphs rows tables : List Nat} {cell child : Node}

/-- The rows and tables that have been collected are no paragraphs. -/
theorem not_removed (collected : Collected forest paragraphs rows tables) (wellFormed : forest.WellFormed)
    {number : Nat} (isParagraph : forest.Tagged Tag.paragraph number) : number ∉ rows ++ tables := by
  intro member
  rcases List.mem_append.mp member with isRow | isTable
  · exact absurd (wellFormed.tagged_unique isParagraph (collected.areRows number isRow)) (by decide)
  · exact absurd (wellFormed.tagged_unique isParagraph (collected.areTables number isTable)) (by decide)

/-- A paragraph of a cell is not gone if it has not been collected. -/
theorem not_struckOut (collected : Collected forest paragraphs rows tables) (wellFormed : forest.WellFormed)
    (inForest : cell ∈ forest.nodes) (isCell : cell.hasTag Tag.cell = true) (direct : child ∈ cell.children)
    (isParagraph : child.hasTag Tag.paragraph = true) (other : child.key ∉ paragraphs) :
    child.key ∉ forest.struckOut paragraphs rows tables := by
  intro struck
  rcases List.mem_append.mp struck with inTurn | removed
  · rcases mem_takenInTurn paragraphs inTurn with impossible | ⟨paragraph, among, _, taken⟩
    · cases impossible
    · exact wellFormed.not_mem_struckBy inForest isCell (collected.areParagraphs paragraph among) direct
        (fun same => other (same ▸ among)) taken
  · exact collected.not_removed wellFormed ⟨child, child_mem_allBelow inForest direct, rfl, isParagraph⟩ removed

/-- A cell with a paragraph keeps one. -/
theorem keeps (collected : Collected forest paragraphs rows tables) (wellFormed : forest.WellFormed)
    (inForest : cell ∈ forest.nodes) (isCell : cell.hasTag Tag.cell = true) (direct : child ∈ cell.children)
    (isParagraph : child.hasTag Tag.paragraph = true) :
    cell.KeepsParagraph (forest.struckOut paragraphs rows tables) := by
  obtain ⟨last, held, isLast, stays⟩ := wellFormed.takenInTurn_keeps inForest isCell paragraphs
    collected.areParagraphs ⟨child, direct, isParagraph, List.not_mem_nil⟩
  refine ⟨last, held, isLast, fun struck => ?_⟩
  rcases List.mem_append.mp struck with inTurn | removed
  · exact stays inTurn
  · exact collected.not_removed wellFormed ⟨last, child_mem_allBelow inForest held, rfl, isLast⟩ removed

end Collected

namespace Engine

section Cells

variable {place : Nat} {machine final : Machine World} {handler : Handler}

/-- However a handler of conditions has been called, when what was recorded has been removed without a fault every cell
is as before without what is gone, and has a paragraph if it had one.  If it ended with a paragraph it does so again,
provided that this one was not to be removed or that no other element came behind a paragraph of the cell. -/
theorem commitHandler_cells (asked : Asked place machine)
    (present : machine.outer.handlers[place]? = some handler) (wellFormed : machine.outer.forest.WellFormed)
    {settings : RepeatSettings} (accepted : runOn (commitHandler settings handler) machine = (.ok (), final)) :
    ∃ paragraphs rows tables, handler.duty = .display paragraphs rows tables ∧
      ∀ cell ∈ machine.outer.forest.nodes, cell.hasTag Tag.cell = true → ∃ kept,
        kept = cell.pruned (machine.outer.forest.struckOut paragraphs rows tables) ∧
        final.outer.forest.find? cell.key = some kept ∧
        ((∃ child ∈ cell.elements, child.hasTag Tag.paragraph = true) →
          ∃ child ∈ kept.elements, child.hasTag Tag.paragraph = true) ∧
        (cell.EndsWithParagraph →
          (∀ last ∈ cell.elements.getLast?, last.key ∉ paragraphs) ∨ (cell.elements.Pairwise fun earlier later =>
            earlier.hasTag Tag.paragraph = true → later.hasTag Tag.paragraph = true) →
          kept.EndsWithParagraph) := by
  obtain ⟨other, paragraphs, rows, tables, alsoPresent, duty, collected⟩ := asked.collected
  obtain rfl := Option.some.inj (present.symm.trans alsoPresent)
  unfold commitHandler at accepted
  rw [duty] at accepted
  obtain ⟨forest, diagnostics, run, stripped⟩ :=
    commitDisplay_done wellFormed (commitDisplay_there wellFormed accepted) handler
  dsimp only at accepted
  rw [run] at accepted
  cases accepted
  refine ⟨paragraphs, rows, tables, duty, fun cell inForest isCell => ⟨_, rfl, ?_, ?_, ?_⟩⟩
  · exact stripped.find?_some wellFormed (wellFormed.find?_key inForest)
  · rintro ⟨child, among, isParagraph⟩
    exact (collected.keeps wellFormed inForest isCell (List.mem_of_mem_filter among) isParagraph).mem_elements
  · intro ends guarded
    obtain ⟨last, isLast, isParagraph⟩ := endsWithParagraph_iff.mp ends
    have direct := List.mem_of_mem_filter (List.mem_of_getLast? isLast)
    rcases guarded with other | behind
    · exact .pruned_of_last isLast isParagraph
        (collected.not_struckOut wellFormed inForest isCell direct isParagraph (other last isLast))
    · obtain ⟨child, among, stillParagraph⟩ :=
        (collected.keeps wellFormed inForest isCell direct isParagraph).mem_elements
      refine endsWithParagraph_of_pairwise among stillParagraph ?_
      rw [elements_pruned, List.pairwise_map]
      simp only [hasTag_pruned]
      exact behind.filter _

end Cells

/-- With a table between its two paragraphs, a cell that loses the last one has a paragraph left, but ends with the
table. -/
example :
    let cell := Node.ofTag Tag.cell [createParagraph ["a".toList], Node.ofTag Tag.table [], createParagraph ["b".toList]]
    let forest := (Package.openIn ⟨Node.ofTag Tag.body [cell], [], [], none, false⟩ .empty).2
    forest.struckOut [7] [] [] = [7] ∧ ∃ cell ∈ forest.find? 2, cell.EndsWithParagraph ∧
      (∃ child ∈ (cell.pruned [7]).elements, child.hasTag Tag.paragraph = true) ∧
      ¬ (cell.pruned [7]).EndsWithParagraph := by
  refine ⟨by decide +kernel, (Forest.find? _ 2).get (by decide +kernel), Option.get_mem _, ?_⟩
  decide +kernel

end Engine
end Imprint
