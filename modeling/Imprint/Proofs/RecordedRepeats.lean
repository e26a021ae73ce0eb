import Imprint.Proofs.CommentRanges
import Imprint.Proofs.SiblingOrder
/-! # What repetitions are recorded

Repetitions are recorded in the order in which the paragraphs of the document come.  The templates of one go from
its anchor on without a gap.  So if a later one has a template in common with it, then also its anchor. -/
set_option autoImplicit false
namespace Imprint
open Imprint.Action Xml Document Node

section Lists

variable {α : Type} {first second : α} {items front back : List α}

/-- What stands in front of something in a prefix is in it as well. -/
theorem mem_front (unique : (front ++ back).Nodup) (pair : [first, second].Sublist (front ++ back))
    (inFront : second ∈ front) : first ∈ front := by
  obtain ⟨taken, left, split, inTaken, inLeft⟩ := List.sublist_append_iff.mp pair
  cases taken with
  | nil =>
    have inBack : second ∈ back := inLeft.subset (by rw [← List.nil_append left, ← split]; simp)
    exact absurd inBack (List.disjoint_of_nodup_append unique inFront)
  | cons one rest =>
    obtain ⟨rfl, -⟩ := List.cons_eq_cons.mp split
    exact inTaken.subset List.mem_cons_self

/-- Two different things cannot stand in front of each other. -/
theorem not_swapped (unique : items.Nodup) (pair : [first, second].Sublist items) :
    ¬ [second, first].Sublist items := by
  intro swapped
  obtain ⟨before, after, rfl⟩ := List.append_of_mem (pair.subset List.mem_cons_self)
  rw [List.append_cons] at unique swapped
  have early : second ∈ before ++ [first] := mem_front unique swapped (by simp)
  have apart : [first, second].Nodup := (List.append_cons before first after ▸ unique).sublist pair
  have inBefore : second ∈ before := by
    refine (List.mem_append.mp early).resolve_right fun same => ?_
    simp [List.mem_singleton.mp same] at apart
  have again : first ∈ before := mem_front (List.append_cons before first after ▸ unique) pair inBefore
  exact (List.nodup_append.mp (List.nodup_append.mp unique).1).2.2 first again first (by simp) rfl

end Lists

/-! ## Ranges -/

namespace Document

section Contiguous

variable {paragraph first second : Node} {children front siblings found : List Node}

theorem Covers.contiguous {range : CommentRange} (covers : Covers paragraph siblings range) :
    ∃ found, range.elements = paragraph :: found ∧ found <+: siblings.filter isElement := by
  cases covers with
  | unnamed => exact ⟨[], rfl, List.nil_prefix⟩
  | within holds => exact ⟨[], rfl, List.nil_prefix⟩
  | beyond open_ reaches => exact ⟨_, rfl, reaches.contiguous⟩

/-- An element in front of one that a range covers is covered as well, unless it is in front of all of the range. -/
theorem covered_between (unique : children.Nodup) (place : children = front ++ paragraph :: siblings)
    (contiguous : found <+: siblings.filter isElement) (isElement : first.isElement = true)
    (covered : second ∈ found) (pair : [first, second].Sublist children) :
    first ∈ front ∨ first ∈ paragraph :: found := by
  obtain ⟨rest, split⟩ := contiguous
  have isElementToo : second.isElement = true :=
    (List.mem_filter.mp (split ▸ List.mem_append_left rest covered)).2
  have elements : children.filter Node.isElement =
      (front ++ [paragraph]).filter Node.isElement ++ found ++ rest := by
    rw [place, List.append_assoc _ found rest, split, ← List.filter_append, List.append_assoc]
    rfl
  have kept := pair.filter Node.isElement
  rw [List.filter_cons_of_pos isElement, List.filter_cons_of_pos isElementToo, List.filter_nil, elements] at kept
  have inFront := mem_front (elements ▸ unique.filter Node.isElement) kept (List.mem_append_right _ covered)
  rcases List.mem_append.mp inFront with early | inFound
  · rcases List.mem_append.mp (List.mem_of_mem_filter early) with inFront | here
    · exact .inl inFront
    · exact .inr (List.mem_singleton.mp here ▸ List.mem_cons_self)
  · exact .inr (List.mem_cons_of_mem _ inFound)

end Contiguous

end Document

/-- Some paragraphs of a container from one on, without a gap between them. -/
structure Stretch (forest : Forest) (anchor : Nat) (templates : List Nat) : Prop where
  old : ∀ template ∈ templates, template < forest.fresh
  behind : ∀ template ∈ templates, template = anchor ∨ forest.Precedes anchor template
  closed : ∀ paragraph, forest.Tagged Tag.paragraph paragraph → ∀ template ∈ templates,
    forest.Precedes paragraph template → paragraph ∈ templates ∨ forest.Precedes paragraph anchor

section Stretch

variable {forest : Forest} (wellFormed : forest.WellFormed) {node : Node} {found : List Node}
include wellFormed

/-- A paragraph on its own is a stretch. -/
theorem stretch_alone (present : node ∈ forest.nodes) : Stretch forest node.key [node.key] where
  old := by simpa using wellFormed.key_lt present
  behind := by simp
  closed paragraph _ template member order := .inr (List.mem_singleton.mp member ▸ order)

/-- A paragraph with the elements behind it up to some place is a stretch. -/
theorem stretch_among {parent : Node} {front siblings : List Node} (inForest : parent ∈ forest.nodes)
    (place : parent.children = front ++ node :: siblings) (isParagraph : node.hasTag Tag.paragraph = true)
    (contiguous : found <+: siblings.filter isElement) :
    Stretch forest node.key (((node :: found).filter (Node.hasTag Tag.paragraph)).map key) := by
  have covered : ∀ other ∈ found, other ∈ siblings := fun other member =>
    List.mem_of_mem_filter (contiguous.subset member)
  have isChild : ∀ other ∈ node :: found, other ∈ parent.children := by
    intro other member
    rw [place]
    exact List.mem_append_right _ ((List.mem_cons.mp member).elim (fun here => here ▸ List.mem_cons_self)
      fun later => List.mem_cons_of_mem _ (covered other later))
  have present {other : Node} (direct : other ∈ parent.children) : other ∈ forest.nodes :=
    child_mem_allBelow inForest direct
  refine ⟨fun template member => ?_, fun template member => ?_, fun paragraph isTagged template member order => ?_⟩
  · obtain ⟨other, among, rfl⟩ := List.mem_map.mp member
    exact wellFormed.key_lt (present (isChild other (List.mem_of_mem_filter among)))
  · obtain ⟨other, among, rfl⟩ := List.mem_map.mp member
    refine (List.mem_cons.mp (List.mem_of_mem_filter among)).imp (congrArg key) fun later => ?_
    have behind : [node, other].Sublist (node :: siblings) :=
      (List.singleton_sublist.mpr (covered other later)).cons_cons node
    refine ⟨parent, inForest, ?_⟩
    rw [place]
    exact (behind.trans (List.sublist_append_right _ _)).map key
  · obtain ⟨other, among, rfl⟩ := List.mem_map.mp member
    rcases List.mem_cons.mp (List.mem_of_mem_filter among) with rfl | later
    · exact .inr order
    · obtain ⟨holder, inForestToo, pair⟩ := order
      have direct := isChild other (List.mem_cons_of_mem _ later)
      obtain rfl : holder = parent := parent_unique wellFormed.unique inForestToo inForest
        (pair.subset (by simp)) (List.mem_map.mpr ⟨other, direct, rfl⟩)
      obtain ⟨first, second, order, rfl, same⟩ := exists_pair pair
      have directFirst : first ∈ holder.children := order.subset (by simp)
      obtain rfl : second = other :=
        wellFormed.eq_of_key_eq (present (order.subset (by simp))) (present direct) same
      have tagged := wellFormed.hasTag_of_tagged (present directFirst) isTagged
      have unique : holder.children.Nodup := (children_nodup wellFormed.unique inForest).of_map
      rcases covered_between unique place contiguous (isElement_of_hasTag tagged) later order with early | inside
      · right
        refine ⟨holder, inForest, ?_⟩
        have behind : [first, node].Sublist (front ++ node :: siblings) :=
          (List.singleton_sublist.mpr early).append (List.singleton_sublist.mpr List.mem_cons_self)
        rw [place]
        exact behind.map key
      · exact .inl (List.mem_map.mpr ⟨first, List.mem_filter.mpr ⟨inside, tagged⟩, rfl⟩)

/-- The paragraphs of a range have no gap between them. -/
theorem commentRange_stretch {anchor : Nat} (isParagraph : forest.Tagged Tag.paragraph anchor) (given : Option String) :
    Stretch forest anchor ((commentRange forest anchor given).paragraphs.map key) := by
  obtain ⟨node, present, rfl, tag⟩ := isParagraph
  obtain ⟨siblings, behind, -, covers, -⟩ := commentRange_covers wellFormed present given
  obtain ⟨found, elements, contiguous⟩ := covers.contiguous
  rw [CommentRange.paragraphs, elements]
  cases behind with
  | root =>
    obtain rfl : found = [] := List.prefix_nil.mp contiguous
    rw [List.filter_cons_of_pos tag]
    exact stretch_alone wellFormed present
  | child isParent place => exact stretch_among wellFormed (Forest.mem_of_parent? isParent).1 place tag contiguous

end Stretch

/-! ## The order of a walk -/

/-- Paragraphs of a forest that stand next to each other are in the order in which a list has them. -/
structure Arranged (paragraphs : List Nat) (forest : Forest) : Prop where
  wellFormed : forest.WellFormed
  unique : paragraphs.Nodup
  tagged : ∀ paragraph ∈ paragraphs, forest.Tagged Tag.paragraph paragraph
  order : ∀ first ∈ paragraphs, ∀ second ∈ paragraphs, forest.Precedes first second →
    [first, second].Sublist paragraphs

theorem Arranged.lt_fresh {paragraphs : List Nat} {forest : Forest} (arranged : Arranged paragraphs forest) :
    ∀ paragraph ∈ paragraphs, paragraph < forest.fresh := by
  intro paragraph member
  obtain ⟨node, present, rfl, -⟩ := arranged.tagged paragraph member
  exact arranged.wellFormed.key_lt present

theorem Arranged.step {paragraphs : List Nat} {before after : Forest} {bound : Nat}
    (arranged : Arranged paragraphs before) (small : ∀ paragraph ∈ paragraphs, paragraph < bound)
    (ordered : Forest.Ordered bound before after) : Arranged paragraphs after where
  wellFormed := ordered.wellFormed
  unique := arranged.unique
  tagged paragraph member := ordered.tagged (arranged.tagged paragraph member)
  order first member second memberToo order := arranged.order first member second memberToo
    (ordered.precedes first (small first member) second (small second memberToo) order)

/-- The paragraphs of a document that is opened are in the order in which a walk comes to them. -/
theorem arranged_paragraphs {template : Template} {forest : Forest} (opened : Opened template forest) :
    Arranged (paragraphsBelow forest template.roots) forest where
  wellFormed := opened.wellFormed
  unique := paragraphs_nodup opened
  tagged := tagged_paragraphsBelow forest template.roots
  order first member second memberToo order := by
    obtain ⟨parent, inForest, pair⟩ := order
    obtain ⟨one, other, kept, rfl, rfl⟩ := exists_pair pair
    have isParagraph {node : Node} (direct : node ∈ [one, other])
        (among : node.key ∈ paragraphsBelow forest template.roots) :
        node ∈ allBelow (sections forest template.roots) ∧ node.hasTag Tag.paragraph = true := by
      rw [paragraphsBelow_eq] at among
      obtain ⟨found, isFound, same⟩ := List.mem_map.mp among
      obtain ⟨inSection, tag⟩ := List.mem_filter.mp isFound
      obtain rfl := opened.wellFormed.eq_of_key_eq (sections_subset _ _ inSection)
        (child_mem_allBelow inForest (kept.subset direct)) same
      exact ⟨inSection, tag⟩
    obtain ⟨inSection, tag⟩ := isParagraph (by simp) member
    obtain ⟨-, tagToo⟩ := isParagraph (by simp) memberToo
    have held : one ∈ parent.children := kept.subset (by simp)
    have parentInside : parent ∈ allBelow (sections forest template.roots) := by
      rcases exists_parent inSection with outermost | ⟨holder, inside, direct⟩
      · obtain ⟨root, isRoot, found⟩ := List.mem_filterMap.mp outermost
        obtain ⟨tree, isTree, same⟩ := opened.find? isRoot
        obtain rfl := Option.some.inj (found.symm.trans same)
        have rootless := opened.wellFormed.root_parent? isTree
        rw [opened.wellFormed.parent?_iff.mpr ⟨inForest, List.mem_map.mpr ⟨one, held, rfl⟩⟩] at rootless
        cases rootless
      · rwa [← parent_unique opened.wellFormed.unique (sections_subset _ _ inside) inForest
          (List.mem_map.mpr ⟨one, direct, rfl⟩) (List.mem_map.mpr ⟨one, held, rfl⟩)]
    rw [paragraphsBelow_eq]
    have below := (kept.trans (sublist_allBelow parent.children)).trans (allBelow_children_sublist parentInside)
    have paragraphs := below.filter (Node.hasTag Tag.paragraph)
    rw [List.filter_cons_of_pos tag, List.filter_cons_of_pos tagToo] at paragraphs
    exact paragraphs.map key

/-! ## What a handler has been asked for -/

/-- A repetition whose templates are in line: none of its templates comes before its anchor, and none of the
paragraphs between its anchor and one of its templates has been left out. -/
structure InLine (bound : Nat) (paragraphs : List Nat) (forest : Forest) (repetition : PendingRepeat) : Prop where
  old : ∀ template ∈ repetition.templates, template < bound
  behind : ∀ template ∈ repetition.templates, template ∈ paragraphs →
    template = repetition.anchor ∨ [repetition.anchor, template].Sublist paragraphs
  closed : ∀ paragraph ∈ paragraphs, ∀ template ∈ repetition.templates, forest.Precedes paragraph template →
    paragraph ∈ repetition.templates ∨ [paragraph, repetition.anchor].Sublist paragraphs

/-- The anchor of a later repetition is a template of an earlier one, or they have no templates in common. -/
def PendingRepeat.Clear (earlier later : PendingRepeat) : Prop :=
  later.anchor ∈ earlier.templates ∨ earlier.templates.Disjoint later.templates

/-- What a handler has been asked for in a walk that has come past some paragraphs.  The last of them is what the
handler is bound to; the repetition at it, if there is one, may be asked for again. -/
structure Lined (bound : Nat) (paragraphs passed : List Nat) (forest : Forest) (anchor : Anchor)
    (pending : List PendingRepeat) : Prop where
  known : passed <+: paragraphs
  last : ∀ paragraph, anchor.paragraph = some paragraph → ∃ front, passed = front ++ [paragraph]
  anchors : (pending.map PendingRepeat.anchor).Sublist passed
  settled : ∀ repetition ∈ pending, anchor.paragraph ≠ some repetition.anchor →
    InLine bound paragraphs forest repetition
  clear : pending.Pairwise PendingRepeat.Clear

section Lined

variable {bound : Nat} {paragraphs passed templates : List Nat} {forest after : Forest} {anchor : Anchor}
  {pending : List PendingRepeat} {repetition : PendingRepeat}

theorem Stretch.inLine (stretch : Stretch forest repetition.anchor repetition.templates)
    (arranged : Arranged paragraphs forest) (isParagraph : repetition.anchor ∈ paragraphs) :
    InLine forest.fresh paragraphs forest repetition where
  old := stretch.old
  behind template member among :=
    (stretch.behind template member).imp_right (arranged.order _ isParagraph template among)
  closed paragraph among template member order :=
    (stretch.closed paragraph (arranged.tagged paragraph among) template member order).imp_right
      (arranged.order paragraph among _ isParagraph)

theorem InLine.step {more : Nat} (inLine : InLine bound paragraphs forest repetition)
    (small : ∀ paragraph ∈ paragraphs, paragraph < bound) (ordered : Forest.Ordered bound forest after)
    (grows : bound ≤ more) : InLine more paragraphs after repetition where
  old template member := Nat.lt_of_lt_of_le (inLine.old template member) grows
  behind := inLine.behind
  closed paragraph among template member order := inLine.closed paragraph among template member
    (ordered.precedes paragraph (small paragraph among) template (inLine.old template member) order)

/-- A later repetition is clear of one that is in line. -/
theorem InLine.clear (inLine : InLine bound paragraphs forest repetition) (unique : paragraphs.Nodup)
    {later : PendingRepeat} (stretch : Stretch forest later.anchor later.templates)
    (order : [repetition.anchor, later.anchor].Sublist paragraphs) : repetition.Clear later := by
  refine or_iff_not_imp_left.mpr fun outside template member memberToo => ?_
  rcases stretch.behind template memberToo with rfl | precedes
  · exact outside member
  · rcases inLine.closed later.anchor (order.subset (by simp)) template member precedes with inside | swapped
    · exact outside inside
    · exact not_swapped unique order swapped

/-- Only the last repetition can be the one at the last paragraph. -/
theorem setPending_last {front : List Nat} {new : PendingRepeat} (fresh : new.anchor ∉ front)
    (anchors : (pending.map PendingRepeat.anchor).Sublist (front ++ [new.anchor])) :
    ∃ rest, setPending new pending = rest ++ [new] ∧ (rest.map PendingRepeat.anchor).Sublist front ∧
      (pending = rest ∨ ∃ old, pending = rest ++ [old]) := by
  have absent (rest tail : List PendingRepeat) (others : (rest.map PendingRepeat.anchor).Sublist front) :
      setPending new (rest ++ tail) = rest ++ setPending new tail := by
    induction rest with
    | nil => rfl
    | cons first rest hypothesis =>
      rw [List.map_cons] at others
      have different : first.anchor ≠ new.anchor := fun same => fresh (same ▸ others.subset List.mem_cons_self)
      rw [List.cons_append, setPending, if_neg different, hypothesis ((List.sublist_cons_self _ _).trans others)]
      rfl
  obtain ⟨early, late, split, inFront, isLast⟩ := List.sublist_append_iff.mp anchors
  obtain ⟨rest, tail, rfl, rfl, rfl⟩ := List.map_eq_append_iff.mp split
  cases tail with
  | nil =>
    refine ⟨rest, ?_, inFront, .inl (List.append_nil rest)⟩
    rw [absent rest [] inFront]
    rfl
  | cons old others =>
    have one := isLast.length_le
    simp only [List.map_cons, List.length_cons, List.length_map, List.length_nil] at one
    obtain rfl : others = [] := List.eq_nil_of_length_eq_zero (by omega)
    have same : old.anchor = new.anchor := by simpa using isLast
    refine ⟨rest, ?_, inFront, .inr ⟨old, rfl⟩⟩
    rw [absent rest [old] inFront, setPending, if_pos same]

/-- A handler is asked to repeat the paragraph that it is bound to. -/
theorem Lined.ask (lined : Lined bound paragraphs passed forest anchor pending) (unique : paragraphs.Nodup)
    (isBound : anchor.paragraph = some repetition.anchor)
    (stretch : Stretch forest repetition.anchor repetition.templates) :
    Lined bound paragraphs passed forest anchor (setPending repetition pending) ∧
      pending.dropLast <+: setPending repetition pending := by
  obtain ⟨front, rfl⟩ := lined.last _ isBound
  have once : (front ++ [repetition.anchor]).Nodup := unique.sublist lined.known.sublist
  have fresh : repetition.anchor ∉ front := fun member =>
    (List.nodup_append.mp once).2.2 _ member _ (List.mem_singleton_self _) rfl
  obtain ⟨rest, placed, inFront, old⟩ := setPending_last fresh lined.anchors
  have among : rest <+: pending := by
    rcases old with rfl | ⟨last, rfl⟩
    · exact List.prefix_rfl
    · exact List.prefix_append _ _
  have front_ : ∀ other ∈ rest, other.anchor ∈ front := fun other member =>
    inFront.subset (List.mem_map.mpr ⟨other, member, rfl⟩)
  have settled : ∀ other ∈ rest, InLine bound paragraphs forest other := fun other member =>
    lined.settled other (among.subset member) fun same =>
      fresh (Option.some.inj (isBound.symm.trans same) ▸ front_ other member)
  rw [placed]
  refine ⟨⟨lined.known, lined.last, ?_, ?_, ?_⟩, ?_⟩
  · rw [List.map_append]
    exact inFront.append (List.Sublist.refl _)
  · intro other member different
    rcases List.mem_append.mp member with early | last
    · exact settled other early
    · rw [List.mem_singleton.mp last] at different
      exact absurd isBound different
  · refine List.pairwise_append.mpr ⟨lined.clear.sublist among.sublist, List.pairwise_singleton _ _, ?_⟩
    intro other member later isLater
    obtain rfl := List.mem_singleton.mp isLater
    have order : [other.anchor, later.anchor].Sublist (front ++ [later.anchor]) :=
      (List.singleton_sublist.mpr (front_ other member)).append (List.Sublist.refl _)
    exact (settled other member).clear unique stretch (order.trans lined.known.sublist)
  · rcases old with rfl | ⟨last, rfl⟩
    · exact (List.dropLast_prefix _).trans (List.prefix_append _ _)
    · rw [List.dropLast_concat]
      exact List.prefix_append _ _

theorem Lined.step {more : Nat} (lined : Lined bound paragraphs passed forest anchor pending)
    (small : ∀ paragraph ∈ paragraphs, paragraph < bound) (ordered : Forest.Ordered bound forest after)
    (grows : bound ≤ more) : Lined more paragraphs passed after anchor pending where
  known := lined.known
  last := lined.last
  anchors := lined.anchors
  settled repetition member different := (lined.settled repetition member different).step small ordered grows
  clear := lined.clear

end Lined

/-! ## The walk -/

/-- What handlers have been asked for by a walk that has come past some paragraphs. -/
structure Recorded (paragraphs reached : List Nat) (world : World) : Prop where
  arranged : Arranged paragraphs world.forest
  lined : ∀ handler ∈ world.handlers, ∀ pending, handler.duty = .repeatParagraphs pending → ∃ passed,
    passed <+: reached ∧ Lined world.forest.fresh paragraphs passed world.forest handler.anchor pending
  inLine : ∀ handler ∈ world.handlers, ∀ pending, handler.duty = .repeatParagraphs pending →
    ∀ repetition ∈ pending, InLine world.forest.fresh paragraphs world.forest repetition

namespace Recorded

variable {paragraphs reached more : List Nat} {world after : World}

theorem mono (recorded : Recorded paragraphs reached world) (further : reached <+: more) :
    Recorded paragraphs more world where
  arranged := recorded.arranged
  lined handler member pending duty := by
    obtain ⟨passed, known, lined⟩ := recorded.lined handler member pending duty
    exact ⟨passed, known.trans further, lined⟩
  inLine := recorded.inLine

theorem step (recorded : Recorded paragraphs reached world)
    (ordered : Forest.Ordered world.forest.fresh world.forest after.forest)
    (handlers : after.handlers = world.handlers) : Recorded paragraphs reached after where
  arranged := recorded.arranged.step recorded.arranged.lt_fresh ordered
  lined handler member pending duty := by
    obtain ⟨passed, known, lined⟩ := recorded.lined handler (handlers ▸ member) pending duty
    exact ⟨passed, known, lined.step recorded.arranged.lt_fresh ordered ordered.fresh⟩
  inLine handler member pending duty repetition among :=
    (recorded.inLine handler (handlers ▸ member) pending duty repetition among).step recorded.arranged.lt_fresh
      ordered ordered.fresh

theorem same (recorded : Recorded paragraphs reached world) (forest : after.forest = world.forest)
    (handlers : after.handlers = world.handlers) : Recorded paragraphs reached after :=
  recorded.step (by rw [forest]; exact .refl recorded.arranged.wellFormed) handlers

/-- Binding all handlers to the paragraph that the walk has come to. -/
theorem bound {front : List Nat} {paragraph : Nat} (recorded : Recorded paragraphs (front ++ [paragraph]) world)
    (known : front ++ [paragraph] <+: paragraphs) {anchor : Anchor} (isBound : anchor.paragraph = some paragraph) :
    Recorded paragraphs (front ++ [paragraph]) (Engine.World.bound world anchor) where
  arranged := recorded.arranged
  lined handler member pending duty := by
    obtain ⟨old, isOld, rfl⟩ := List.mem_map.mp member
    obtain ⟨passed, among, lined⟩ := recorded.lined old isOld pending duty
    refine ⟨_, List.prefix_rfl, known, fun other isOther => ⟨front, ?_⟩, lined.anchors.trans among.sublist, ?_,
      lined.clear⟩
    · rw [Option.some.inj (isBound.symm.trans isOther)]
    · exact fun repetition isPending _ => recorded.inLine old isOld pending duty repetition isPending
  inLine handler member pending duty := by
    obtain ⟨old, isOld, rfl⟩ := List.mem_map.mp member
    exact recorded.inLine old isOld pending duty

/-- What a handler that is asked to repeat its paragraph is asked for. -/
theorem asked (recorded : Recorded paragraphs reached world) {index : Nat} {handler : Handler} {duty : Duty}
    (present : world.handlers[index]? = some handler) (asks : Asks world.forest handler.anchor handler.duty duty) :
    Recorded paragraphs reached { world with
      handlers := world.handlers.modify index fun other => { other with duty } } := by
  have isHandler := List.mem_of_getElem? present
  have each (now : Handler) (member : now ∈ world.handlers.modify index fun other => { other with duty })
      (pending : List PendingRepeat) (isDuty : now.duty = .repeatParagraphs pending) :
      (∃ passed, passed <+: reached ∧ Lined world.forest.fresh paragraphs passed world.forest now.anchor pending) ∧
        ∀ repetition ∈ pending, InLine world.forest.fresh paragraphs world.forest repetition := by
    rcases mem_modify member with old | ⟨old, found, rfl⟩
    · exact ⟨recorded.lined now old pending isDuty, recorded.inLine now old pending isDuty⟩
    · obtain rfl := Option.some.inj (found.symm.trans present)
      obtain ⟨interface, anchor, inSession, before⟩ := old
      dsimp only at asks isDuty isHandler
      cases asks with
      | @repetition paragraph before items isBound =>
        obtain ⟨passed, known, lined⟩ := recorded.lined _ isHandler before rfl
        obtain ⟨front, rfl⟩ := lined.last paragraph isBound
        have isParagraph : paragraph ∈ paragraphs := lined.known.subset (by simp)
        have stretch := commentRange_stretch recorded.arranged.wellFormed
          (recorded.arranged.tagged paragraph isParagraph) (anchor.comment.map (·.id))
        obtain ⟨next, -⟩ := @Lined.ask _ _ _ _ _ _ ⟨paragraph, items, _⟩ lined recorded.arranged.unique isBound stretch
        cases isDuty
        refine ⟨⟨_, known, next⟩, fun repetition among => ?_⟩
        rcases mem_setPending among with rfl | old
        · exact Stretch.inLine stretch recorded.arranged isParagraph
        · exact recorded.inLine _ isHandler before rfl repetition old
      | paragraph => cases isDuty
      | row => cases isDuty
      | table => cases isDuty
      | record => cases isDuty
  exact ⟨recorded.arranged, fun now member pending isDuty => (each now member pending isDuty).1,
    fun now member pending isDuty => (each now member pending isDuty).2⟩

end Recorded

namespace Engine

variable {paragraphs reached front : List Nat} {dispatcher : Dispatcher} {builder : ProxyBuilder} {paragraph : Nat}

theorem recorded_proof (index : Nat) :
    StepProof index fun machine => Recorded paragraphs reached machine.outer where
  free _ _ recorded := recorded
  step machine after recorded step := by
    have edits {number : Nat} {change : Node → Node} (head : ∀ node, (change node).head = node.head)
        (revised : ∀ node, Revised (fun _ => True) node.children (change node).children) :
        Recorded paragraphs reached { machine.outer with forest := machine.outer.forest.edit number change } := by
      cases found : machine.outer.forest.find? number with
      | none =>
        rw [edit_missing found]
        exact recorded
      | some node =>
        refine recorded.step ?_ rfl
        exact recorded.arranged.wellFormed.edit_ordered found (head node) (revised node) (Nat.le_refl _)
    cases step with
    | asked present asks => exact recorded.asked present asks
    | written present duty bound letters =>
      exact edits (fun _ => rfl) fun node => revised_setRunText node (.refl _) letters
    | blanked present duty bound => exact edits (fun _ => rfl) fun node => revised_withoutText node
    | told entry => exact recorded.same rfl rfl

theorem recorded_frame : Frame fun machine => Recorded paragraphs reached machine.outer where
  free := (recorded_proof 0).free
  called index := (recorded_proof index).callDirective_keeps fun _ _ recorded => recorded.same rfl rfl
  reports _ _ recorded reports := recorded.same reports.forest reports.handlers

theorem recorded_edits : EditsAt paragraph fun machine => Recorded paragraphs reached machine.outer := by
  intro machine node changed recorded found revised
  have outcome := revised (fun _ => True) fun _ _ _ => trivial
  refine recorded.step ?_ rfl
  exact recorded.arranged.wellFormed.edit_ordered found outcome.head outcome.revised (Nat.le_refl _)

section Visit

variable (known : front ++ [paragraph] <+: paragraphs)
include known

theorem evaluateDirective_recorded (expression : String) (run : Option Nat) (comment : Option Comment) :
    Keeps (fun machine => Recorded paragraphs (front ++ [paragraph]) machine.outer)
      (evaluateDirective dispatcher builder expression ⟨some paragraph, run, comment⟩) := fun _ recorded =>
  recorded_frame.evaluateDirective_keeps dispatcher builder (fun _ _ _ recorded => recorded.same rfl rfl)
    (recorded.bound known rfl)

theorem runComment_recorded (run : Option Nat) (id : Option String) :
    Keeps (fun machine => Recorded paragraphs (front ++ [paragraph]) machine.outer)
      (runComment dispatcher builder paragraph run id) := by
  have reads : Keeps (fun machine => Recorded paragraphs (front ++ [paragraph]) machine.outer) (pendingComment id) := by
    refine Keeps.bind (fun _ recorded => recorded) fun world => ?_
    split
    · exact .pure _
    · exact .pure _
  refine Keeps.bind reads fun found => ?_
  cases found with
  | none => exact .pure _
  | some comment =>
    refine Keeps.bind (evaluateDirective_recorded known _ _ _) fun succeeded => ?_
    cases succeeded with
    | true => exact fun _ recorded => recorded.same rfl rfl
    | false => exact .pure _

theorem visitRun_recorded (run : Nat) :
    Keeps (fun machine => Recorded paragraphs (front ++ [paragraph]) machine.outer)
      (visitRun dispatcher builder run paragraph) :=
  Keeps.bind (fun _ recorded => recorded) fun _ => runComment_recorded known _ _

theorem visitParagraph_recorded : Keeps (fun machine => Recorded paragraphs (front ++ [paragraph]) machine.outer)
    (visitParagraph dispatcher builder paragraph) := by
  refine Keeps.bind (fun _ recorded => recorded) fun forest => Keeps.bind (runComment_recorded known _ _) fun _ => ?_
  refine Keeps.bind (fun _ recorded => recorded) fun node => Keeps.bind (.lift recorded_frame.free _) fun tokens => ?_
  refine .forM fun token _ => Keeps.bind (evaluateDirective_recorded known _ _ _) fun succeeded => ?_
  cases succeeded with
  | true => exact replace_keeps recorded_frame.free recorded_edits dispatcher.replacer token .null
  | false => exact .pure _

end Visit

/-- A walk goes on from what it has recorded at the paragraphs before. -/
theorem visitParagraphs_recorded (rest : List Nat) : ∀ {done : List Nat} {machine final : Machine World},
    done ++ rest = paragraphs → Recorded paragraphs done machine.outer →
    runOn (visitParagraphs forest (visitParagraph dispatcher builder) (visitRun dispatcher builder) rest) machine =
      (.ok (), final) → Recorded paragraphs paragraphs final.outer := by
  induction rest with
  | nil =>
    intro done machine final whole recorded run
    cases run
    exact recorded.mono (whole ▸ List.prefix_append _ _)
  | cons paragraph rest hypothesis =>
    intro done machine final whole recorded run
    rw [List.append_cons] at whole
    have known : done ++ [paragraph] <+: paragraphs := whole ▸ List.prefix_append _ _
    have reached : Recorded paragraphs (done ++ [paragraph]) machine.outer := recorded.mono (List.prefix_append _ _)
    obtain ⟨_, _, reads, run⟩ := bind_ok run
    cases reads
    obtain ⟨_, middle, visitsRuns, run⟩ := bind_ok run
    have afterRuns := Keeps.forM (fun run (_ : run ∈ runsOf machine.outer.forest paragraph) =>
      @visitRun_recorded _ _ dispatcher builder _ known run) machine reached
    rw [visitsRuns] at afterRuns
    obtain ⟨_, last, visits, run⟩ := bind_ok run
    have after := @visitParagraph_recorded _ _ dispatcher builder _ known middle afterRuns
    rw [visits] at after
    exact hypothesis whole after run

/-- What a walk through a document has recorded when it has come to its end. -/
theorem evaluateDirectives_recorded {machine final : Machine World}
    (opened : Opened machine.outer.template machine.outer.forest)
    (idle : ∀ handler ∈ machine.outer.handlers, handler.anchor.paragraph = none ∧ handler.duty.keys = [])
    (run : runOn (evaluateDirectives dispatcher builder) machine = (.ok (), final)) :
    Recorded (paragraphsBelow machine.outer.forest machine.outer.template.roots)
      (paragraphsBelow machine.outer.forest machine.outer.template.roots) final.outer := by
  have nothing {handler : Handler} (member : handler ∈ machine.outer.handlers) {pending : List PendingRepeat}
      (duty : handler.duty = .repeatParagraphs pending) : pending = [] := by
    have none := (idle handler member).2
    rw [duty] at none
    cases pending with
    | nil => rfl
    | cons first rest => cases none
  have start : Recorded (paragraphsBelow machine.outer.forest machine.outer.template.roots) [] machine.outer := by
    refine ⟨arranged_paragraphs opened, fun handler member pending duty => ?_, fun handler member pending duty => ?_⟩
    · rw [nothing member duty]
      refine ⟨[], List.prefix_rfl, List.nil_prefix, fun paragraph isBound => ?_, List.Sublist.slnil, by simp, .nil⟩
      rw [(idle handler member).1] at isBound
      cases isBound
    · rw [nothing member duty]
      simp
  exact visitParagraphs_recorded _ (List.nil_append _) start run

end Engine
end Imprint
