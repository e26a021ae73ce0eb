import Imprint.Proofs.CellConditions
import Imprint.Proofs.PendingRequests
/-! # Cells that keep a paragraph

No condition takes the last paragraph out of a cell, and a repetition puts its copies beside the templates that it
takes out.  So a cell is left without paragraphs only by a repetition that has made nothing. -/
set_option autoImplicit false
namespace Imprint
open Imprint.Action Xml Document Node

namespace Xml.Forest

/-- Whether a key is that of a cell which directly holds a paragraph. -/
def Stocked (forest : Forest) (cell : Nat) : Prop :=
  ∃ node ∈ forest.nodes, node.key = cell ∧ node.hasTag Tag.cell = true ∧
    ∃ child ∈ node.children, child.hasTag Tag.paragraph = true

section Stocked

variable {before after forest : Forest} {place : Nat → List Nat} {cell : Nat}

theorem Grown.tagged (grown : Grown place before after) {tag : Tag} {number : Nat}
    (isTagged : before.Tagged tag number) : after.Tagged tag number := by
  obtain ⟨node, member, rfl, isTag⟩ := isTagged
  obtain ⟨found, inAfter, head, -⟩ := grown.found node member
  exact ⟨found, inAfter, congrArg Head.key head, (hasTag_of_head head tag).trans isTag⟩

/-- A cell holds a paragraph that has been placed for one of its children. -/
theorem Grown.stocked (grown : Grown place before after) {node child : Node} (inBefore : node ∈ before.nodes)
    (isCell : node.hasTag Tag.cell = true) (direct : child ∈ node.children) {number : Nat}
    (placed : number ∈ place child.key) (isParagraph : after.Tagged Tag.paragraph number) : after.Stocked node.key := by
  obtain ⟨found, inAfter, head, children⟩ := grown.found node inBefore
  have held : number ∈ found.children.map key := by
    rw [children]
    exact List.mem_flatMap.mpr ⟨child.key, List.mem_map.mpr ⟨child, direct, rfl⟩, placed⟩
  obtain ⟨now, isChild, rfl⟩ := List.mem_map.mp held
  exact ⟨found, inAfter, congrArg Head.key head, (hasTag_of_head head _).trans isCell, now, isChild,
    grown.wellFormed.hasTag_of_tagged (child_mem_allBelow inAfter isChild) isParagraph⟩

/-- An edit that does not touch a cell leaves it its paragraphs. -/
theorem Stocked.edited {touched : Nat → Prop} (stocked : before.Stocked cell) (edited : Edited touched before after)
    (free : ¬ touched cell) : after.Stocked cell := by
  obtain ⟨node, inBefore, rfl, isCell, child, direct, isParagraph⟩ := stocked
  obtain ⟨found, inAfter, head, outline⟩ := edited.found node inBefore
  have heads : found.children.map Node.head = node.children.map Node.head := congrArg Prod.snd (outline free)
  have held : child.head ∈ found.children.map Node.head := heads ▸ List.mem_map.mpr ⟨child, direct, rfl⟩
  obtain ⟨now, isChild, same⟩ := List.mem_map.mp held
  exact ⟨found, inAfter, congrArg Head.key head, (hasTag_of_head head _).trans isCell, now, isChild,
    (hasTag_of_head same _).trans isParagraph⟩

/-- Where nothing but certain nodes is removed, a cell keeps a paragraph that is none of them. -/
theorem Stocked.spared {bound : Nat} {rewritten removed : Nat → Prop} (stocked : before.Stocked cell)
    (wellFormed : before.WellFormed) (sparing : Sparing bound rewritten removed before after)
    (small : before.fresh ≤ bound) (free : ¬ rewritten cell)
    (keeps : ∀ number, before.Tagged Tag.paragraph number → ¬ removed number) : after.Stocked cell := by
  obtain ⟨node, inBefore, rfl, isCell, child, direct, isParagraph⟩ := stocked
  have isTagged : before.Tagged Tag.paragraph child.key := ⟨child, child_mem_allBelow inBefore direct, rfl, isParagraph⟩
  obtain ⟨found, inAfter, head, held⟩ := sparing.stays wellFormed small inBefore direct free (keeps _ isTagged)
  obtain ⟨now, isChild, same⟩ := List.mem_map.mp held
  exact ⟨found, inAfter, congrArg Head.key head, (hasTag_of_head head _).trans isCell, now, isChild,
    sparing.wellFormed.hasTag_of_tagged (child_mem_allBelow inAfter isChild) (same ▸ sparing.tagged isTagged)⟩

/-- Taking out a node leaves a cell every other paragraph. -/
theorem WellFormed.detach_stocked (wellFormed : forest.WellFormed) {node child : Node} (inForest : node ∈ forest.nodes)
    (isCell : node.hasTag Tag.cell = true) (direct : child ∈ node.children)
    (isParagraph : child.hasTag Tag.paragraph = true) {number : Nat} (other : child.key ≠ number) :
    (forest.detach number).Stocked node.key := by
  have grown := wellFormed.detach_grown number
  have stays : child.key ∈ if child.key = number then [] else [child.key] := by
    rw [if_neg other]
    exact List.mem_singleton_self _
  exact grown.stocked inForest isCell direct stays
    (grown.tagged ⟨child, child_mem_allBelow inForest direct, rfl, isParagraph⟩)

/-- A paragraph that is taken out is not the only one of its cell. -/
theorem Stocked.removed (stocked : forest.Stocked cell) (wellFormed : forest.WellFormed) {paragraph : Nat} {parent : Node}
    (located : forest.parent? paragraph = some parent) (more : isOnlyParagraphOfCell parent = false) :
    (forest.detach paragraph).Stocked cell := by
  obtain ⟨node, inForest, rfl, isCell, child, direct, isParagraph⟩ := stocked
  by_cases same : child.key = paragraph
  · subst same
    obtain rfl : node = parent := by
      rw [wellFormed.parent?_iff.mpr ⟨inForest, List.mem_map.mpr ⟨child, direct, rfl⟩⟩] at located
      exact Option.some.inj located
    have whole : node.pruned [] = node := expand_nothing node
    obtain ⟨last, isLast, lastParagraph, -, other⟩ := wellFormed.another_paragraph inForest isCell direct isParagraph
      List.not_mem_nil (whole.symm ▸ more)
    exact wellFormed.detach_stocked inForest isCell isLast lastParagraph other
  · exact wellFormed.detach_stocked inForest isCell direct isParagraph same

/-- Rows and tables are no paragraphs. -/
theorem Stocked.taken (stocked : forest.Stocked cell) (wellFormed : forest.WellFormed) {element : Nat}
    (isTagged : forest.Tagged Tag.row element ∨ forest.Tagged Tag.table element) : (forest.detach element).Stocked cell := by
  obtain ⟨node, inForest, rfl, isCell, child, direct, isParagraph⟩ := stocked
  refine wellFormed.detach_stocked inForest isCell direct isParagraph ?_
  rintro rfl
  have member := child_mem_allBelow inForest direct
  rcases isTagged with row | table
  · exact absurd (tag_unique isParagraph (wellFormed.hasTag_of_tagged member row)) (by decide)
  · exact absurd (tag_unique isParagraph (wellFormed.hasTag_of_tagged member table)) (by decide)

end Stocked

end Xml.Forest

namespace Engine

section Repetition

variable {settings : RepeatSettings} {handler : Handler} {repetition : PendingRepeat} {machine final : Machine World}
  (wellFormed : machine.outer.forest.WellFormed)
  (templates : ∀ template ∈ repetition.templates, machine.outer.forest.Tagged Tag.paragraph template)
  (run : runOn (commitRepeat settings handler repetition) machine = (.ok (), final))
  (uncalled : ¬ Called machine.outer.events final)
include wellFormed templates run uncalled

/-- A repetition that is carried out places the paragraphs that it makes, and does nothing else to the nodes that there
were. -/
theorem commitRepeat_grown : ∃ new, .repeated repetition new ∈ final.outer.events ∧
    (∀ copy ∈ new, copy ∉ repetition.templates ∧ final.outer.forest.Tagged Tag.paragraph copy) ∧
    Forest.Grown (repetition.place new) machine.outer.forest final.outer.forest := by
  obtain ⟨located, new, middle, diagnostics, makes, rfl⟩ := commitRepeat_ok run
  obtain ⟨container, isContainer⟩ := Option.isSome_iff_exists.mp located
  obtain ⟨inForest, anchored⟩ := Forest.mem_of_parent? isContainer
  obtain ⟨child, direct, isAnchor⟩ := List.mem_map.mp anchored
  have anchor := child_mem_allBelow inForest direct
  have positive : 0 < machine.outer.forest.fresh :=
    Nat.lt_of_le_of_lt (Nat.zero_le _) (wellFormed.key_lt anchor)
  let sources (number : Nat) : Node := (machine.outer.forest.find? number).getD container
  have found {node : Node} (member : node ∈ machine.outer.forest.nodes) :
      machine.outer.forest.find? node.key = some (sources node.key) := by
    simp only [sources, wellFormed.find?_key member, Option.getD_some]
  have spec := @repetitionOf_spec settings handler sources machine wellFormed repetition (isAnchor ▸ found anchor)
    fun template member => by
      obtain ⟨node, inNodes, rfl, -⟩ := templates template member
      exact found inNodes
  rw [makes] at spec
  obtain ⟨-, trees, rfl, grafted, -⟩ := spec fun called => uncalled (called.later [_] rfl)
  have isNew {tree : Node} (member : tree ∈ trees) : machine.outer.forest.fresh ≤ tree.key :=
    grafted.fresh tree.key (List.mem_map.mpr ⟨tree, mem_allBelow_of_mem member, rfl⟩)
  have placed := Forest.placed grafted.grown.wellFormed grafted.added grafted.unique
    (fun inside => absurd (grafted.fresh _ inside) (Nat.not_le.mpr (isAnchor ▸ wellFormed.key_lt anchor)))
    (grafted.grown.parent?_isSome located (by simp))
  refine ⟨trees.map key, List.mem_cons_self, fun copy member => ⟨fun isTemplate => ?_, ?_⟩,
    (grafted.grown.trans placed).congr fun number _ => ?_⟩
  · obtain ⟨tree, isTree, rfl⟩ := List.mem_map.mp member
    obtain ⟨node, inNodes, same, -⟩ := templates _ isTemplate
    exact absurd (wellFormed.key_lt inNodes) (Nat.not_lt.mpr (same ▸ isNew isTree))
  · have isParagraph := repetitionOf_paragraphs settings handler wellFormed positive templates makes copy member
    exact placed.tagged isParagraph
  · rw [List.flatMap_singleton]

/-- A repetition of paragraphs of a cell leaves a paragraph in it, unless it has made nothing. -/
theorem commitRepeat_stocked {roots : List Nat} (grouped : repetition.Grouped roots machine.outer.forest) {cell : Nat}
    (stocked : machine.outer.forest.Stocked cell) :
    final.outer.forest.Stocked cell ∨ (.repeated repetition [] ∈ final.outer.events ∧
      ∃ node ∈ machine.outer.forest.nodes, node.key = cell ∧
        ∃ template ∈ repetition.templates, template ∈ node.children.map key) := by
  obtain ⟨new, noted, copies, grown⟩ := commitRepeat_grown wellFormed templates run uncalled
  obtain ⟨node, inForest, rfl, isCell, child, direct, isParagraph⟩ := stocked
  have held : child.key ∈ node.children.map key := List.mem_map.mpr ⟨child, direct, rfl⟩
  have isTagged : machine.outer.forest.Tagged Tag.paragraph child.key :=
    ⟨child, child_mem_allBelow inForest direct, rfl, isParagraph⟩
  by_cases isTemplate : child.key ∈ repetition.templates
  · cases new with
    | nil => exact .inr ⟨noted, node, inForest, rfl, child.key, isTemplate, held⟩
    | cons copy rest =>
      -- The copies have been put into the cell, since the anchor is in it.
      obtain ⟨located, -⟩ := commitRepeat_ok run
      obtain ⟨container, isContainer⟩ := Option.isSome_iff_exists.mp located
      obtain ⟨inForestToo, anchored⟩ := Forest.mem_of_parent? isContainer
      obtain rfl : container = node := wellFormed.eq_of_key_eq inForestToo inForest
        (grouped.beside child.key isTemplate node inForest held container inForestToo anchored)
      obtain ⟨last, isLast, isAnchor⟩ := List.mem_map.mp anchored
      obtain ⟨other, nowParagraph⟩ := copies copy List.mem_cons_self
      refine .inl (grown.stocked inForest isCell isLast ?_ nowParagraph)
      rw [isAnchor]
      exact PendingRepeat.mem_place_of_new List.mem_cons_self other
  · exact .inl (grown.stocked inForest isCell direct (PendingRepeat.mem_place_of_old isTemplate) (grown.tagged isTagged))

end Repetition

/-! ## Commits -/

/-- Whether a repetition of paragraphs of a cell has made nothing. -/
def Emptied (forest : Forest) (cell : Nat) (events : List Event) : Prop :=
  ∃ repetition, .repeated repetition [] ∈ events ∧ ∃ node ∈ forest.nodes, node.key = cell ∧
    ∃ template ∈ repetition.templates, template ∈ node.children.map key

section Commits

variable {start : Forest} {walked : World} {machine final : Machine World} {cell : Nat}

theorem Emptied.later {forest : Forest} {events : List Event} (emptied : Emptied forest cell events) (more : List Event) :
    Emptied forest cell (more ++ events) := by
  obtain ⟨repetition, noted, among⟩ := emptied
  exact ⟨repetition, List.mem_append_right _ noted, among⟩

/-- An edit that does not touch a cell leaves it its children. -/
theorem Emptied.origin {touched : Nat → Prop} {before after : Forest} {events : List Event}
    (emptied : Emptied after cell events) (edited : Forest.Edited touched before after) (free : ¬ touched cell)
    (stocked : before.Stocked cell) : Emptied before cell events := by
  obtain ⟨repetition, noted, now, inAfter, same, template, among, held⟩ := emptied
  obtain ⟨node, inBefore, rfl, -⟩ := stocked
  obtain ⟨found, inForest, head, outline⟩ := edited.found node inBefore
  obtain ⟨sameKey, keys⟩ := Forest.children_of_outline (outline free)
  obtain rfl := edited.wellFormed.eq_of_key_eq inForest inAfter (sameKey.trans same.symm)
  exact ⟨repetition, noted, node, inBefore, rfl, template, among, keys ▸ held⟩

/-- As long as no directive is called, commits leave a paragraph in a cell, unless a repetition makes nothing. -/
theorem stocked_upheld (poised : Poised walked) (settings : RepeatSettings) (cell : Nat) :
    Upheld start walked settings fun world =>
      world.forest.Stocked cell ∨ Emptied walked.forest cell world.events where
  said _ _ := id
  committed _ place := Or.imp_right fun emptied => emptied.later [.committed place]
  repeats handler _ _ repetition machine final awaits underway holds run uncalled := by
    rcases holds with stocked | emptied
    · rcases commitRepeat_stocked underway.pursuing.attached.wellFormed (underway.templates awaits) run
        (fun called => uncalled (underway.called called)) (underway.grouped poised awaits) stocked with
        stocked | ⟨noted, node, inForest, rfl, template, among, held⟩
      · exact .inl stocked
      · obtain ⟨handler, member, pending, duty, isPending⟩ := awaits
        have small := ((poised.grouped handler member pending duty repetition isPending).old template among).1
        obtain ⟨child, direct, rfl⟩ := List.mem_map.mp held
        obtain ⟨origin, inWalked, same, heldBefore⟩ :=
          underway.pursuing.attached.children node inForest child direct small
        exact .inr ⟨repetition, noted, origin, inWalked, same, child.key, among, heldBefore⟩
    · have carries : Keeps (Carrying machine.outer) (commitRepeat settings handler repetition) :=
        carrying_frame.commitRepeat_keeps settings trivial trivial fun _ _ => trivial
      have carrying := carries machine ⟨rfl, .refl _⟩
      rw [run] at carrying
      obtain ⟨during, events, -⟩ := carrying.events
      exact .inr (events ▸ emptied.later during)
  emptied machine paragraph underway isParagraph := by
    refine Or.imp_left fun stocked => ?_
    have wellFormed := underway.pursuing.attached.wellFormed
    obtain ⟨node, inForest, rfl, isTag⟩ := isParagraph
    have edited : Forest.Edited (· = node.key) machine.outer.forest (machine.outer.forest.edit node.key emptied) :=
      wellFormed.edit_edited (wellFormed.find?_key inForest) rfl ((Revised.refl node.children).filter _) rfl
    refine stocked.edited edited ?_
    rintro rfl
    obtain ⟨other, inForestToo, same, isCell, -⟩ := stocked
    obtain rfl := wellFormed.eq_of_key_eq inForestToo inForest same
    exact absurd (tag_unique isCell isTag) (by decide)
  removed machine paragraph parent underway located more :=
    Or.imp_left fun stocked => stocked.removed underway.pursuing.attached.wellFormed located more
  taken machine element underway isTagged :=
    Or.imp_left fun stocked => stocked.taken underway.pursuing.attached.wellFormed isTagged

end Commits

/-! ## Stamping -/

/-- What is deleted with comments is no paragraph. -/
theorem eraseComments_stocked {forest : Forest} (wellFormed : forest.WellFormed) (template : Template)
    (comments : List Comment) (elements : ∀ comment ∈ comments, ∀ element, comment.element = some element →
      forest.Tagged Tag.comment element) {cell : Nat} (stocked : forest.Stocked cell) :
    (comments.foldl (eraseComment template) forest).Stocked cell := by
  have erases (rest : List Comment) (among : rest ⊆ comments) : ∀ {now : Forest},
      Erasing forest (fun _ => False) (Trace forest (forest.Tagged Tag.comment) fun _ => True)
        (forest.Tagged Tag.comment) (fun _ => True) forest now →
      Erasing forest (fun _ => False) (Trace forest (forest.Tagged Tag.comment) fun _ => True)
        (forest.Tagged Tag.comment) (fun _ => True) forest (rest.foldl (eraseComment template) now) := by
    induction rest with
    | nil => exact fun erasing => erasing
    | cons comment rest hypothesis =>
      intro now erasing
      refine hypothesis (fun _ member => among (List.mem_cons_of_mem _ member))
        (erasing.eraseComment template trivial fun element isElement _ => ?_)
      exact elements comment (among List.mem_cons_self) element isElement
  have erasing := erases comments (List.Subset.refl _)
    ⟨wellFormed, fun _ trace => trace, fun _ _ => .inr, .refl wellFormed, .refl wellFormed⟩
  refine stocked.spared wellFormed erasing.sparing (Nat.le_refl _) ?_ fun number isParagraph trace => ?_
  · rintro ⟨_, _, _, impossible, _⟩
    exact impossible
  · cases trace with
    | apart isComment => exact absurd (wellFormed.tagged_unique isParagraph isComment) (by decide)
    | @marker node tag id member kind _ isTrace =>
      obtain rfl := tag_unique (wellFormed.hasTag_of_tagged member isParagraph) (Bool.and_eq_true_iff.mp isTrace).1
      revert kind
      decide
    | run member isARun =>
      rw [isRun_paragraph (wellFormed.hasTag_of_tagged member isParagraph)] at isARun
      cases isARun

section Stamp

variable {package : Package} {registrations : List Handler} {additional : Expression.Scope} {values : Store}
  {stamper : Stamper} {data : Value} {start final : Machine World}

/-- A walk leaves cells alone. -/
theorem Inline.not_cell {world : World} (wellFormed : world.forest.WellFormed) {number : Nat}
    (isCell : world.forest.Tagged Tag.cell number) : ¬ world.Inline number := by
  obtain ⟨node, inForest, rfl, tag⟩ := isCell
  rintro (new | ⟨other, inSection, same, kind⟩)
  · exact absurd (wellFormed.key_lt inForest) (Nat.not_lt.mpr new)
  · obtain rfl := wellFormed.eq_of_key_eq (sections_subset _ _ inSection) inForest same
    rcases kind with isParagraph | isARun
    · exact absurd (tag_unique tag isParagraph) (by decide)
    · exact absurd (tag_unique tag isARun) (by decide)

theorem Directing.stocked {read : World} {walked committed directed : Machine World}
    (directing : Directing stamper data start read walked committed directed) {cell : Nat}
    (stocked : start.outer.forest.Stocked cell) :
    Called walked.outer.events committed ∨ directed.outer.forest.Stocked cell ∨
      Emptied start.outer.forest cell committed.outer.events := by
  obtain ⟨-, loaded, impending, commits, -, -, -, erased, -, -⟩ := directing
  have loads : Forest.Edited (fun _ => False) start.outer.forest read.forest := loaded.edited _
  have isRead : read.forest.Stocked cell := stocked.edited loads id
  have untouched : ¬ read.Inline cell := by
    obtain ⟨node, inForest, rfl, isCell, -⟩ := isRead
    exact Inline.not_cell loads.wellFormed ⟨node, inForest, rfl, isCell⟩
  have isWalked : walked.outer.forest.Stocked cell := isRead.edited impending.edited untouched
  rcases commitHandlers_upholds (stocked_upheld impending.poised stamper.dispatcher.settings cell) loaded.extended.positive
    impending.opened.positive walked (.inr ⟨impending.underway, .inl isWalked⟩) () committed commits with
    called | ⟨underway, still | emptied⟩
  · exact .inl called
  · refine .inr (.inl ?_)
    rw [erased]
    exact eraseComments_stocked underway.pursuing.attached.wellFormed _ _ (fun comment member element isElement =>
      underway.attended.sparing.tagged (impending.used comment member element isElement)) still
  · exact .inr (.inr ((emptied.origin impending.edited untouched isRead).origin loads id stocked))

/-- The replacement of values leaves cells alone, unless it calls a directive. -/
theorem resolveDocument_stocked {replacer : Replacer} {machine : Machine World}
    (opened : Opened machine.outer.template machine.outer.forest) {source : Nat → Engine Context}
    (sources : ∀ condition : Machine World → Prop, StoreFree condition → ∀ number, Keeps condition (source number))
    {cell : Nat} (stocked : machine.outer.forest.Stocked cell) :
    Called machine.outer.events (runOn (resolveDocument replacer source) machine).2 ∨
      (runOn (resolveDocument replacer source) machine).2.outer.forest.Stocked cell := by
  refine (@resolveDocument_scans replacer machine opened source sources).imp_right fun scanned => ?_
  refine stocked.edited scanned.edited ?_
  obtain ⟨node, inForest, rfl, isCell, -⟩ := stocked
  rintro (new | ⟨paragraph, present, among, same | ⟨run, direct, isARun, same⟩⟩)
  · exact absurd (opened.wellFormed.key_lt inForest) (Nat.not_lt.mpr new)
  · have isParagraph := opened.wellFormed.hasTag_of_tagged present (tagged_paragraphsBelow _ _ paragraph.key among)
    obtain rfl := opened.wellFormed.eq_of_key_eq inForest present same
    exact absurd (tag_unique isCell isParagraph) (by decide)
  · obtain rfl := opened.wellFormed.eq_of_key_eq (child_mem_allBelow present direct) inForest same
    exact absurd (tag_unique isCell isARun) (by decide)

/-- When a template has been stamped, every cell that held a paragraph holds one, unless a directive was called after
the document had been gone through, or a repetition of paragraphs of the cell has made nothing. -/
theorem stamp_stocks (isStart : start = ⟨values, World.ofPackage package (registered registrations) additional⟩)
    (standard : ∀ handler ∈ registrations, handler ∈ Handler.standard)
    (run : runOn (stamp stamper data) start = (.ok (), final)) :
    ∃ walked later, runOn (prepareAndWalk stamper data) start = (.ok (), walked) ∧
      final.outer.events = later ++ walked.outer.events ∧
      ∀ cell, start.outer.forest.Stocked cell → final.outer.forest.Stocked cell ∨
        (∃ handler method, .called handler method ∈ later) ∨ Emptied start.outer.forest cell later := by
  have opened : Opened start.outer.template start.outer.forest :=
    isStart ▸ World.ofPackage_opened package (registered registrations) additional
  obtain ⟨read, store, part, prepares, -⟩ := prepare_reads stamper opened
  rw [stamp_eq_resetting, runOn_bind, prepares] at run
  obtain ⟨filled, journal, fills, rfl⟩ := resetting_ok run
  obtain ⟨_, directed, directs, resolves⟩ := bind_ok fills
  obtain ⟨read, walked, committed, directing⟩ := stamp_directing isStart standard (by rw [prepares]; exact directs)
  have sources : ∀ condition : Machine World → Prop, StoreFree condition → ∀ number : Nat,
      Keeps condition (dataContext stamper data) :=
    fun condition free _ => Keeps.bind (.lift free _) fun _ => .pure _
  obtain ⟨deleting, deletes, -⟩ := directing.events
  obtain ⟨during, events, -⟩ := @resolveDocument_offers stamper.replacer directed directing.opened _ sources
  obtain ⟨committing, commits⟩ := directing.committing
  rw [resolves] at events
  have whole : filled.outer.events = (during ++ (deleting ++ committing)) ++ walked.outer.events := by
    rw [events, deletes, commits]
    simp only [List.append_assoc]
  refine ⟨walked, _, directing.walks, whole, fun cell stocked => ?_⟩
  rcases directing.stocked stocked with called | still | emptied
  · obtain ⟨new, handler, method, since, member⟩ := called
    obtain rfl : committing = new := List.append_cancel_right (commits.symm.trans since)
    exact .inr (.inl ⟨handler, method, List.mem_append_right _ (List.mem_append_right _ member)⟩)
  · have resolved := @resolveDocument_stocked stamper.replacer directed directing.opened _ sources cell still
    rw [resolves] at resolved
    refine resolved.elim (fun called => ?_) .inl
    obtain ⟨new, handler, method, since, member⟩ := called
    obtain rfl : during = new := List.append_cancel_right (events.symm.trans since)
    exact .inr (.inl ⟨handler, method, List.mem_append_left _ member⟩)
  · obtain ⟨repetition, noted, among⟩ := emptied
    rw [commits] at noted
    have inCommits := (List.mem_append.mp noted).resolve_right (directing.impending.unrepeated repetition [])
    exact .inr (.inr ⟨repetition, List.mem_append_right _ (List.mem_append_right _ inCommits), among⟩)

end Stamp

/-- A cell with a paragraph that is repeated over some items. -/
def celled (items : String) : Package :=
  ⟨Node.ofTag Tag.body [Node.ofTag Tag.cell
    [createParagraph [("#\x7brepeat_paragraph(" ++ items ++ ")\x7d").toList]]], [], [], none, false⟩

/-- Repeated over two items, the only paragraph of a cell is there twice; repeated over none, the cell is empty. -/
example :
    let cells (items : String) : List (List (Option Tag)) :=
      let final := (runOn (stamp .plain .null) ⟨⟨#[], 0⟩, World.ofPackage (celled items) Handler.standard []⟩).2
      (final.outer.forest.nodes.filter (·.hasTag Tag.cell)).map fun cell => cell.children.map Node.tag?
    cells "[1, 2]" = [[some Tag.paragraph, some Tag.paragraph]] ∧ cells "[]" = [[]] := by
  decide +kernel

end Engine
end Imprint
