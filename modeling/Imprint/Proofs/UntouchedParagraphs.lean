import Imprint.Proofs.PendingComments
import Imprint.Proofs.RunAccounting
import Imprint.Proofs.SparedContent
/-! # Paragraphs that a run is not about

A paragraph stays where it is, and as it is, if no directive is called for it, its text holds no directive that
is evaluated and no value that is replaced, it is not repeated, and nothing that it lies in is taken out.  Only
rows, tables and what comments leave is taken out of it, and of paragraphs in it nothing is said. -/
set_option autoImplicit false
namespace Imprint
open Imprint.Action Xml Document Node

/-- The paragraph in whose text a directive was evaluated with success. -/
def Event.inline? : Event → Option Nat
  | .directive ⟨some paragraph, none, none⟩ _ _ true => some paragraph
  | _ => none

/-- The paragraphs that were repeated. -/
def Event.templates : Event → List Nat
  | .repeated pending _ => pending.templates
  | _ => []

/-- The elements other than paragraphs that directives, or the deletion of comments, may take out. -/
def removableTags : List Tag :=
  [Tag.row, Tag.table, Tag.run, Tag.rangeStart, Tag.rangeEnd, Tag.reference]

/-- A paragraph of a template that a stamping run is not about, and where no element around it with one of some
names is taken out. -/
structure Bystander (around : List Tag) (stamper : Stamper) (data : Value) (start final : Machine World)
    (paragraph : Nat) : Prop where
  isParagraph : paragraph ∈ paragraphsBelow start.outer.forest start.outer.template.roots
  outermost : ∀ node ∈ start.outer.forest.nodes, paragraph ∈ keysOf node.children → node.hasTag Tag.paragraph = false
  uncalled : paragraph ∉ calledFor none final.outer.events
  noDirective : ∀ event ∈ final.outer.events, event.inline? ≠ some paragraph
  leavesValues : Engine.leavesStamped stamper data start paragraph = true
  unrepeated : ∀ event ∈ final.outer.events, paragraph ∉ event.templates
  inPlace : ∀ node ∈ start.outer.forest.nodes, paragraph ∈ keysOf node.children →
    (∃ tag ∈ around, node.hasTag tag = true) → (start.outer.forest.parent? node.key).isSome →
    (final.outer.forest.parent? node.key).isSome

instance (around : List Tag) (stamper : Stamper) (data : Value) (start final : Machine World) (paragraph : Nat) :
    Decidable (Bystander around stamper data start final paragraph) :=
  decidable_of_iff (paragraph ∈ paragraphsBelow start.outer.forest start.outer.template.roots ∧
      (∀ node ∈ start.outer.forest.nodes, paragraph ∈ keysOf node.children → node.hasTag Tag.paragraph = false) ∧
      paragraph ∉ calledFor none final.outer.events ∧ (∀ event ∈ final.outer.events, event.inline? ≠ some paragraph) ∧
      Engine.leavesStamped stamper data start paragraph = true ∧
      (∀ event ∈ final.outer.events, paragraph ∉ event.templates) ∧
      ∀ node ∈ start.outer.forest.nodes, paragraph ∈ keysOf node.children →
        (∃ tag ∈ around, node.hasTag tag = true) → (start.outer.forest.parent? node.key).isSome →
        (final.outer.forest.parent? node.key).isSome)
    ⟨fun ⟨first, second, third, fourth, fifth, sixth, last⟩ => ⟨first, second, third, fourth, fifth, sixth, last⟩,
      fun ⟨first, second, third, fourth, fifth, sixth, last⟩ => ⟨first, second, third, fourth, fifth, sixth, last⟩⟩

/-- A paragraph that no directive is evaluated for has none in its text, and none is called for it. -/
theorem Bystander.of_unbound {events : List Event} {paragraph : Nat}
    (unbound : ∀ event ∈ events, event.bound? ≠ some paragraph) :
    paragraph ∉ calledFor none events ∧ ∀ event ∈ events, event.inline? ≠ some paragraph := by
  refine ⟨fun called => ?_, fun event member inline => unbound event member ?_⟩
  · rcases mem_calledFor called with impossible | ⟨event, member, isBound⟩
    · cases impossible
    · exact unbound event member isBound
  · unfold Event.inline? at inline
    split at inline
    · exact inline
    · cases inline

/-- A node is still in a template, under the same parent.  Paragraphs in it aside, it is as it was, but for rows
and tables, markers and references of comments that were deleted, and runs that held nothing else. -/
def Stays (start final : World) (node : Node) : Prop :=
  (final.forest.parent? node.key).map Node.key = (start.forest.parent? node.key).map Node.key ∧
    ∃ found ∈ allBelow (sections final.forest final.template.roots), ∃ gone,
      (∀ number ∈ gone, start.forest.Tagged Tag.row number ∨ start.forest.Tagged Tag.table number ∨
        Trace start.forest (fun _ => False) (fun id => .deleted id ∈ final.events) number) ∧
        found.bare = node.bare.pruned gone

theorem removable_paragraph {node : Node} (isParagraph : node.hasTag Tag.paragraph = true) :
    ¬ ∃ tag ∈ removableTags, node.hasTag tag = true := by
  rintro ⟨tag, among, isTag⟩
  rw [← tag_unique isParagraph isTag] at among
  revert among
  decide

/-- What may be taken out of a section is removable, or is a paragraph that was asked for. -/
theorem Taken.removable {start : World} {events : List Event} {node : Node} (opened : start.forest.WellFormed)
    (inSection : node ∈ allBelow (sections start.forest start.template.roots))
    (taken : Taken start.forest (Engine.Erasable start events) events node.key) :
    (∃ tag ∈ removableTags, node.hasTag tag = true) ∨ node.hasTag Tag.paragraph = true ∧
      (node.key ∈ calledFor none events ∨ ∃ event ∈ events, node.key ∈ event.templates) := by
  have inStart := sections_subset _ _ inSection
  rcases taken with trace | row | table | ⟨paragraph, called | ⟨pending, new, noted, template⟩⟩
  · left
    generalize same : node.key = number at trace
    cases trace with
    | apart outside => exact absurd (same ▸ List.mem_map.mpr ⟨node, inSection, rfl⟩) outside
    | @marker _ tag _ isOther kind _ isTrace =>
      rw [opened.eq_of_key_eq inStart isOther same]
      refine ⟨tag, ?_, (Bool.and_eq_true_iff.mp isTrace).1⟩
      simp only [removableTags, List.mem_cons] at kind ⊢
      tauto
    | run isOther isARun =>
      rw [opened.eq_of_key_eq inStart isOther same]
      exact ⟨Tag.run, by decide, isARun⟩
  · exact .inl ⟨Tag.row, by decide, opened.hasTag_of_tagged inStart row⟩
  · exact .inl ⟨Tag.table, by decide, opened.hasTag_of_tagged inStart table⟩
  · exact .inr ⟨opened.hasTag_of_tagged inStart paragraph, .inl called⟩
  · exact .inr ⟨opened.hasTag_of_tagged inStart paragraph, .inr ⟨_, noted, template⟩⟩

/-- The parent of a node of a section is in that section. -/
theorem sections_parent {template : Template} {forest : Forest} (opened : Opened template forest) {node parent : Node}
    (inSection : node ∈ allBelow (sections forest template.roots)) (isParent : forest.parent? node.key = some parent) :
    parent ∈ allBelow (sections forest template.roots) ∧ node ∈ parent.children := by
  obtain ⟨inForest, held⟩ := Forest.mem_of_parent? isParent
  rcases exists_parent inSection with isSection | ⟨holder, place, direct⟩
  · obtain ⟨root, isRoot, isFound⟩ := List.mem_filterMap.mp isSection
    obtain ⟨tree, outermost, foundToo⟩ := opened.find? isRoot
    obtain rfl := Option.some.inj (isFound.symm.trans foundToo)
    rw [opened.wellFormed.root_parent? outermost] at isParent
    cases isParent
  · obtain rfl : holder = parent := parent_unique opened.wellFormed.unique (sections_subset _ _ place) inForest
      (List.mem_map.mpr ⟨node, direct, rfl⟩) held
    exact ⟨place, direct⟩

namespace Bystander

variable {around : List Tag} {stamper : Stamper} {data : Value} {start final : Machine World} {paragraph : Node}

section Place

variable (bystander : Bystander around stamper data start final paragraph.key)
  (opened : start.outer.forest.WellFormed) (inStart : paragraph ∈ start.outer.forest.nodes)
include bystander opened

include inStart in
theorem inSection : paragraph ∈ allBelow (sections start.outer.forest start.outer.template.roots) ∧
    paragraph.hasTag Tag.paragraph = true := by
  have among := bystander.isParagraph
  rw [paragraphsBelow_eq] at among
  obtain ⟨node, member, same⟩ := List.mem_map.mp among
  obtain ⟨inSection, isParagraph⟩ := List.mem_filter.mp member
  obtain rfl := opened.eq_of_key_eq (sections_subset _ _ inSection) inStart same
  exact ⟨inSection, isParagraph⟩

include inStart in
/-- Such a paragraph is not rewritten. -/
theorem free : ¬ start.outer.forest.TextOf
    (Touched (Engine.leavesStamped stamper data start · = false) final.outer.events) paragraph.key := by
  rintro ⟨owner, isOwner, -, touched, same | ⟨child, direct, isARun, same⟩⟩
  · rw [← same] at touched
    rcases touched with valued | called | ⟨expression, values, evaluated⟩
    · rw [bystander.leavesValues] at valued
      cases valued
    · exact bystander.uncalled called
    · exact bystander.noDirective _ evaluated rfl
  · obtain rfl : child = paragraph := opened.eq_of_key_eq (child_mem_allBelow isOwner direct) inStart same
    rw [isRun_paragraph (bystander.inSection opened inStart).2] at isARun
    cases isARun

/-- The nodes that such a paragraph lies in are not rewritten. -/
theorem free_around {paragraphs : Nat → Prop} {node : Node} (isNode : node ∈ start.outer.forest.nodes)
    (within : paragraph ∈ allBelow node.children) : ¬ start.outer.forest.TextOf paragraphs node.key := by
  have noParagraph {holder : Node} (isHolder : holder ∈ start.outer.forest.nodes)
      (holds : paragraph ∈ allBelow holder.children) : holder.hasTag Tag.paragraph = false :=
    bystander.outermost holder isHolder (List.mem_map.mpr ⟨paragraph, holds, rfl⟩)
  rintro ⟨owner, isOwner, isParagraph, -, same | ⟨child, direct, -, same⟩⟩
  · obtain rfl := opened.eq_of_key_eq isNode isOwner same
    rw [noParagraph isNode within] at isParagraph
    cases isParagraph
  · obtain rfl : child = node := opened.eq_of_key_eq (child_mem_allBelow isOwner direct) isNode same
    rw [noParagraph isOwner (allBelow_trans (mem_allBelow_of_mem direct) within)] at isParagraph
    cases isParagraph

end Place

section Sparing

variable (bystander : Bystander removableTags stamper data start final paragraph.key)
  (opened : Opened start.outer.template start.outer.forest) (isNode : paragraph ∈ start.outer.forest.nodes)
  (sparing : Forest.Sparing start.outer.forest.fresh
    (start.outer.forest.TextOf (Touched (Engine.leavesStamped stamper data start · = false) final.outer.events))
    (Taken start.outer.forest (Engine.Erasable start.outer final.outer.events) final.outer.events)
    start.outer.forest final.outer.forest)
include bystander opened isNode sparing

/-- What such a paragraph lies in, and the paragraph itself, is not taken out. -/
theorem located {node child : Node} (inSection : node ∈ allBelow (sections start.outer.forest start.outer.template.roots))
    (direct : child ∈ node.children) (reaches : paragraph ∈ child.selfAndBelow) :
    final.outer.forest.parent? child.key ≠ none := by
  have inStart := sections_subset _ _ inSection
  have inStartToo := child_mem_allBelow inStart direct
  have hasParent : start.outer.forest.parent? child.key = some node :=
    opened.wellFormed.parent?_iff.mpr ⟨inStart, List.mem_map.mpr ⟨child, direct, rfl⟩⟩
  by_contra isGone
  have taken : Taken start.outer.forest (Engine.Erasable start.outer final.outer.events) final.outer.events child.key := by
    by_contra keeps
    obtain ⟨found, inAfter, head, held⟩ := sparing.stays opened.wellFormed (Nat.le_refl _) inStart direct
      (bystander.free_around opened.wellFormed inStart (selfAndBelow_subset direct reaches)) keeps
    exact (sparing.held_iff opened.wellFormed inStart inAfter head direct).mp held isGone
  have either := taken.removable opened.wellFormed (child_mem_allBelow inSection direct)
  rw [selfAndBelow_eq, List.mem_cons] at reaches
  rcases reaches with rfl | deeper
  · rcases either with removable | ⟨-, called | ⟨event, noted, template⟩⟩
    · exact removable_paragraph (bystander.inSection opened.wellFormed isNode).2 removable
    · exact bystander.uncalled called
    · exact bystander.unrepeated event noted template
  · have inChild : paragraph.key ∈ keysOf child.children := List.mem_map.mpr ⟨paragraph, deeper, rfl⟩
    rcases either with removable | ⟨isParagraph, -⟩
    · have stays := bystander.inPlace child inStartToo inChild removable (by rw [hasParent]; rfl)
      rw [isGone] at stays
      cases stays
    · rw [bystander.outermost child inStartToo inChild] at isParagraph
      cases isParagraph

/-- Such a paragraph is still in a section. -/
theorem inSections (sameRoots : final.outer.template.roots = start.outer.template.roots) :
    paragraph.key ∈ keysOf (sections final.outer.forest final.outer.template.roots) := by
  refine path_induction (motive := fun node =>
    node.key ∈ keysOf (sections final.outer.forest final.outer.template.roots)) _ ?_ ?_
      (bystander.inSection opened.wellFormed isNode).1
  · intro node isSection _
    obtain ⟨root, isRoot, found⟩ := List.mem_filterMap.mp isSection
    obtain ⟨-, rfl⟩ := Forest.mem_of_find? found
    have wasRoot := opened.sections _ isRoot
    obtain ⟨tree, outermost, same⟩ := sparing.roots _ (wasRoot.lt_fresh opened.wellFormed) wasRoot
    have isFound : final.outer.forest.find? node.key = some tree :=
      sparing.wellFormed.find?_iff.mpr ⟨mem_allBelow_of_mem outermost, same⟩
    refine List.mem_map.mpr ⟨tree, mem_allBelow_of_mem ?_, same⟩
    exact List.mem_filterMap.mpr ⟨node.key, sameRoots ▸ isRoot, isFound⟩
  · intro node inSection _ placed child direct reaches
    obtain ⟨found, place, same⟩ := List.mem_map.mp placed
    have inStart := sections_subset _ _ inSection
    have inAfter := sections_subset _ _ place
    have head := sparing.head_eq inStart inAfter same
    have held := (sparing.held_iff opened.wellFormed inStart inAfter head direct).mpr
      (bystander.located opened isNode sparing inSection direct reaches)
    obtain ⟨last, inFound, sameChild⟩ := List.mem_map.mp held
    exact List.mem_map.mpr ⟨last, child_mem_allBelow place inFound, sameChild⟩

/-- Such a paragraph stays. -/
theorem stays (sameRoots : final.outer.template.roots = start.outer.template.roots) :
    Stays start.outer final.outer paragraph := by
  obtain ⟨place, -⟩ := bystander.inSection opened.wellFormed isNode
  have free := bystander.free opened.wellFormed isNode
  obtain ⟨found, inSections, same⟩ := List.mem_map.mp (bystander.inSections opened isNode sparing sameRoots)
  refine ⟨?_, found, inSections, (keysOf paragraph.bare.children).filter fun number =>
    (final.outer.forest.parent? number).isNone, fun number member => ?_, ?_⟩
  · cases hasParent : start.outer.forest.parent? paragraph.key with
    | none => rw [sparing.apart (opened.wellFormed.key_lt isNode) hasParent]
    | some parent =>
      obtain ⟨inSection, direct⟩ := sections_parent opened place hasParent
      have located := bystander.located opened isNode sparing inSection direct (mem_selfAndBelow_self _)
      obtain ⟨holder, isHolder⟩ := Option.ne_none_iff_exists'.mp located
      rw [isHolder]
      exact congrArg some (sparing.parent_key opened.wellFormed (sections_subset _ _ inSection) direct isHolder)
  · obtain ⟨below, isGone⟩ := List.mem_filter.mp member
    obtain ⟨taken, child, inside, rfl, noParagraph⟩ := sparing.bare_removed opened.wellFormed [paragraph] paragraph
      List.mem_cons_self isNode free number below (Option.isNone_iff_eq_none.mp isGone)
    rcases taken with trace | row | table | ⟨isParagraph, -⟩
    · refine .inr (.inr (trace.inside (sections_subset _ _) opened.wellFormed (fun _ member outside => outside member) ?_))
      exact List.mem_map.mpr ⟨child, allBelow_trans place inside, rfl⟩
    · exact .inl row
    · exact .inr (.inl table)
    · rw [opened.wellFormed.hasTag_of_tagged (allBelow_trans isNode inside) isParagraph] at noParagraph
      cases noParagraph
  · refine sparing.bare_eq opened.wellFormed [paragraph] paragraph List.mem_cons_self isNode free found
      (sections_subset _ _ inSections) same fun number below => ?_
    rw [List.mem_filter, Option.isNone_iff_eq_none]
    exact and_iff_right below

end Sparing

end Bystander
namespace Engine

/-- A paragraph that a stamping run is not about stays in the template, and such paragraphs of one parent stay
in their order. -/
theorem stamp_leaves_bystanders {package : Package} {registrations : List Handler} {additional : Expression.Scope}
    {values : Store} {stamper : Stamper} {data : Value} {start final : Machine World}
    (isStart : start = ⟨values, World.ofPackage package (registered registrations) additional⟩)
    (standard : ∀ handler ∈ registrations, handler ∈ Handler.standard) (noBreaks : stamper.replacer.NoBreaks)
    (run : runOn (stamp stamper data) start = (.ok (), final)) :
    (∀ paragraph ∈ start.outer.forest.nodes, Bystander removableTags stamper data start final paragraph.key →
        Stays start.outer final.outer paragraph) ∧
      ∀ parent ∈ start.outer.forest.nodes, ∀ kept : List Nat, kept.Sublist (parent.children.map Node.key) →
        (∀ number ∈ kept, Bystander removableTags stamper data start final number) →
        ∃ found ∈ final.outer.forest.nodes, found.key = parent.key ∧ kept.Sublist (found.children.map Node.key) := by
  have opened : Opened start.outer.template start.outer.forest :=
    isStart ▸ World.ofPackage_opened package (registered registrations) additional
  obtain ⟨filled, attended, sameForest, sameEvents⟩ := stamp_attended isStart standard noBreaks run
  have sparing := attended.sparing
  rw [sameForest, sameEvents] at sparing
  have sameRoots := (stamp_restores stamper data opened ⟨rfl, rfl, isStart ▸ Prepared.fresh, rfl⟩).2.2.2
  rw [run] at sameRoots
  refine ⟨fun paragraph isNode bystander => bystander.stays opened isNode sparing sameRoots,
    fun parent inStart kept isPart about => ?_⟩
  have inside {child : Node} (direct : child ∈ parent.children) (member : child.key ∈ kept) :
      parent ∈ allBelow (sections start.outer.forest start.outer.template.roots) := by
    have isNode := child_mem_allBelow inStart direct
    have isParent := opened.wellFormed.parent?_iff.mpr ⟨inStart, List.mem_map.mpr ⟨child, direct, rfl⟩⟩
    exact (sections_parent opened ((about _ member).inSection opened.wellFormed isNode).1 isParent).1
  cases kept with
  | nil =>
    obtain ⟨found, inAfter, head, -⟩ := sparing.found parent inStart
    exact ⟨found, inAfter, congrArg Head.key head, List.nil_sublist _⟩
  | cons first rest =>
    obtain ⟨child, direct, same⟩ := List.mem_map.mp (isPart.subset List.mem_cons_self)
    have bystander := same ▸ about first List.mem_cons_self
    obtain ⟨found, inAfter, head, order⟩ := sparing.kept_sublist opened.wellFormed inStart
      (bystander.free_around opened.wellFormed inStart (mem_allBelow_of_mem direct)) isPart fun number member => by
        obtain ⟨other, alsoDirect, rfl⟩ := List.mem_map.mp (isPart.subset member)
        exact (about _ member).located opened (child_mem_allBelow inStart alsoDirect) sparing (inside alsoDirect member)
          alsoDirect (mem_selfAndBelow_self _)
    exact ⟨found, inAfter, congrArg Head.key head, order⟩

theorem unprocessed_eq (package : Package) :
    unprocessed package = ⟨⟨#[], 0⟩, World.ofPackage package (registered Handler.standard) []⟩ := rfl

/-- The comment of a paragraph that is removed ends in the next one. -/
def endingLate : Package :=
  ⟨Node.ofTag Tag.body [Node.ofTag Tag.paragraph [ofComment Tag.rangeStart [], createRun "a".toList none],
      Node.ofTag Tag.paragraph [createRun "b".toList none, ofComment Tag.rangeEnd [],
        Node.ofTag Tag.run [ofComment Tag.reference []]]], [], [],
    some (Node.ofTag Tag.comments [ofComment Tag.comment [createParagraph ["display_paragraph_if(false)".toList]]]), false⟩

/-- The next paragraph stays, without the marker and the run that the comment has left in it. -/
theorem stamp_leaves_bystanders_ending :
    (runOn (stamp .plain .null) (unprocessed endingLate)).1 = .ok () ∧
      ∃ paragraph ∈ (unprocessed endingLate).outer.forest.nodes, paragraph.key = 6 ∧
        Bystander removableTags .plain .null (unprocessed endingLate)
          (runOn (stamp .plain .null) (unprocessed endingLate)).2 paragraph.key ∧
        Stays (unprocessed endingLate).outer (runOn (stamp .plain .null) (unprocessed endingLate)).2.outer paragraph := by
  have accepted : (runOn (stamp .plain .null) (unprocessed endingLate)).1 = .ok () := by decide +kernel
  have bystander : Bystander removableTags .plain .null (unprocessed endingLate)
      (runOn (stamp .plain .null) (unprocessed endingLate)).2 6 := by decide +kernel
  obtain ⟨paragraph, isNode, same⟩ :
      ∃ paragraph ∈ (unprocessed endingLate).outer.forest.nodes, paragraph.key = 6 := by decide +kernel
  have noBreaks : Stamper.plain.replacer.NoBreaks := fun _ => rfl
  rw [← same] at bystander
  have stays := (stamp_leaves_bystanders (unprocessed_eq endingLate) (fun _ member => member) noBreaks
    (runOn_ends accepted)).1 paragraph isNode bystander
  exact ⟨accepted, paragraph, isNode, same, bystander, stays⟩

/-- A paragraph with a comment around its only run. -/
def ofRemark (id letters : String) : Node :=
  Node.ofTag Tag.paragraph [ofNumbered id Tag.rangeStart [], createRun letters.toList none, ofNumbered id Tag.rangeEnd [],
    Node.ofTag Tag.run [ofNumbered id Tag.reference []]]

/-- A paragraph that holds another one and a table, and a paragraph in a marker. -/
def enclosing : Package :=
  ⟨Node.ofTag Tag.body [
      Node.ofTag Tag.paragraph [createRun "a".toList none, ofRemark "0" "b",
        Node.ofTag Tag.table [Node.ofTag Tag.row [Node.ofTag Tag.cell [ofRemark "1" "c"]]]],
      ofNumbered "2" Tag.rangeStart [createParagraph ["d".toList]], ofRemark "2" "e"], [], [],
    some (Node.ofTag Tag.comments [
      ofNumbered "0" Tag.comment [createParagraph ["display_paragraph_if(false)".toList]],
      ofNumbered "1" Tag.comment [createParagraph ["display_table_if(false)".toList]],
      ofNumbered "2" Tag.comment [createParagraph ["display_paragraph_if(true)".toList]]]), false⟩

/-- Directives take out what a paragraph holds without being evaluated for it, and a marker goes with the paragraph
in it. -/
theorem stamp_takes_from_bystanders :
    (runOn (stamp .plain .null) (unprocessed enclosing)).1 = .ok () ∧
      (Bystander removableTags .plain .null (unprocessed enclosing)
          (runOn (stamp .plain .null) (unprocessed enclosing)).2 2 ∧
        (∀ event ∈ (runOn (stamp .plain .null) (unprocessed enclosing)).2.outer.events, event.bound? ≠ some 2) ∧
        ((unprocessed enclosing).outer.forest.find? 2).map (·.children.map Node.tag?) =
          some [some Tag.run, some Tag.paragraph, some Tag.table] ∧
        ((runOn (stamp .plain .null) (unprocessed enclosing)).2.outer.forest.find? 2).map (·.children.map Node.tag?) =
          some [some Tag.run]) ∧
      Bystander [Tag.row, Tag.table] .plain .null (unprocessed enclosing)
          (runOn (stamp .plain .null) (unprocessed enclosing)).2 23 ∧
        (∀ event ∈ (runOn (stamp .plain .null) (unprocessed enclosing)).2.outer.events, event.bound? ≠ some 23) ∧
        23 ∉ keysOf (sections (runOn (stamp .plain .null) (unprocessed enclosing)).2.outer.forest
          (runOn (stamp .plain .null) (unprocessed enclosing)).2.outer.template.roots) := by
  refine ⟨?_, ⟨?_, ?_, ?_, ?_⟩, ?_, ?_, ?_⟩
  all_goals decide +kernel

end Engine

end Imprint
