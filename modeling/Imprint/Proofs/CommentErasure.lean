import Imprint.Proofs.DetachedNodes
/-! # What deleting a comment erases

A comment is deleted by taking nodes out of their parents: its markers and references, or the runs that
only hold such references, and the element that it was read from.  What is said about one step is stable
under all later ones, since nothing is put back. -/
set_option autoImplicit false
namespace Imprint
open Imprint.Action Xml Document Node

/-! ## Forests that lose nodes -/

namespace Xml.Forest

/-- One forest comes out of another in which nodes have only been taken out of their parents. -/
structure Thinned (before after : Forest) : Prop where
  wellFormed : after.WellFormed
  fresh : after.fresh = before.fresh
  roots : ∀ root, before.IsRoot root → after.IsRoot root
  origin : ∀ found ∈ after.nodes, ∃ node ∈ before.nodes, node.head = found.head ∧
    ∀ child ∈ found.children, ∃ other ∈ node.children, other.head = child.head

section Thinned

variable {before middle after forest : Forest}

theorem Thinned.refl (wellFormed : forest.WellFormed) : Thinned forest forest where
  wellFormed := wellFormed
  fresh := rfl
  roots _ isRoot := isRoot
  origin found member := ⟨found, member, rfl, fun child direct => ⟨child, direct, rfl⟩⟩

theorem Thinned.trans (first : Thinned before middle) (second : Thinned middle after) :
    Thinned before after where
  wellFormed := second.wellFormed
  fresh := second.fresh.trans first.fresh
  roots root isRoot := second.roots root (first.roots root isRoot)
  origin found member := by
    obtain ⟨node, inMiddle, head, children⟩ := second.origin found member
    obtain ⟨last, inBefore, lastHead, lastChildren⟩ := first.origin node inMiddle
    refine ⟨last, inBefore, lastHead.trans head, fun child direct => ?_⟩
    obtain ⟨other, inNode, sameOther⟩ := children child direct
    obtain ⟨origin, inLast, sameOrigin⟩ := lastChildren other inNode
    exact ⟨origin, inLast, sameOrigin.trans sameOther⟩

theorem WellFormed.detach_thinned (wellFormed : forest.WellFormed) (number : Nat) :
    Thinned forest (forest.detach number) := by
  have grown := wellFormed.detach_grown number
  have noMore := Nat.le_of_eq (detach_fresh forest number)
  refine ⟨grown.wellFormed, detach_fresh forest number, fun root isRoot => detach_roots isRoot, ?_⟩
  intro found member
  obtain ⟨node, inForest, head, children⟩ := grown.origin noMore member
  refine ⟨node, inForest, head.symm, fun child direct => ?_⟩
  have held : child.key ∈ found.children.map key := List.mem_map.mpr ⟨child, direct, rfl⟩
  rw [children, flatMap_without] at held
  obtain ⟨other, inNode, sameKey⟩ := List.mem_map.mp (List.mem_filter.mp held).1
  obtain ⟨origin, alsoInForest, sameHead, -⟩ :=
    grown.origin noMore (child_mem_allBelow member direct)
  have same : other = origin := wellFormed.eq_of_key_eq (child_mem_allBelow inForest inNode) alsoInForest
    (sameKey.trans (congrArg Head.key sameHead))
  exact ⟨other, inNode, same ▸ sameHead.symm⟩

theorem detachAll_thinned (numbers : List Nat) : ∀ {forest : Forest}, forest.WellFormed →
    Thinned forest (numbers.foldl detach forest) := by
  induction numbers with
  | nil => exact fun wellFormed => .refl wellFormed
  | cons number rest hypothesis =>
    intro forest wellFormed
    have first := wellFormed.detach_thinned number
    exact first.trans (hypothesis first.wellFormed)

theorem Thinned.loosened {bound : Nat} (thinned : Thinned before after) : Loosened bound before after where
  wellFormed := thinned.wellFormed
  fresh := Nat.le_of_eq thinned.fresh.symm
  roots root _ isRoot := thinned.roots root isRoot
  children found member child direct _ := by
    obtain ⟨node, inBefore, head, children⟩ := thinned.origin found member
    obtain ⟨other, inNode, same⟩ := children child direct
    exact ⟨node, inBefore, congrArg Head.key head,
      List.mem_map.mpr ⟨other, inNode, congrArg Head.key same⟩⟩

/-- What has no parent does not get one. -/
theorem Thinned.apart (thinned : Thinned before after) {number : Nat} (apart : before.parent? number = none) :
    after.parent? number = none := by
  have loosened : Loosened (number + 1) before after := thinned.loosened
  exact loosened.apart (Nat.lt_succ_self number) apart

/-- Every parent was the parent before. -/
theorem Thinned.parent (thinned : Thinned before after) (wellFormed : before.WellFormed) {number : Nat}
    {parent : Node} (located : after.parent? number = some parent) :
    ∃ node, before.parent? number = some node ∧ node.head = parent.head ∧
      ∀ child ∈ parent.children, ∃ other ∈ node.children, other.head = child.head := by
  obtain ⟨inAfter, held⟩ := mem_of_parent? located
  obtain ⟨child, direct, rfl⟩ := List.mem_map.mp held
  obtain ⟨node, inBefore, head, children⟩ := thinned.origin parent inAfter
  obtain ⟨other, inNode, same⟩ := children child direct
  refine ⟨node, wellFormed.parent?_iff.mpr ⟨inBefore, ?_⟩, head, children⟩
  exact List.mem_map.mpr ⟨other, inNode, congrArg Head.key same⟩

/-- Below nodes there is nothing that was not there before. -/
theorem Thinned.below (thinned : Thinned before after) (wellFormed : before.WellFormed) (nodes : List Node) :
    allBelow nodes ⊆ after.nodes → ∀ others : List Node, allBelow others ⊆ before.nodes →
    (∀ node ∈ nodes, node.key ∈ others.map key) → keysOf nodes ⊆ keysOf others := by
  induction nodes using nodes_induction with
  | nil => exact fun _ _ _ _ => List.nil_subset _
  | cons own label lead inner tail rest below beside =>
    intro inAfter others inBefore known
    have here : Node.mk own label lead inner tail ∈ after.nodes :=
      inAfter (mem_allBelow_of_mem List.mem_cons_self)
    obtain ⟨other, among, sameKey⟩ := List.mem_map.mp (known _ List.mem_cons_self)
    have otherInBefore : other ∈ before.nodes := inBefore (mem_allBelow_of_mem among)
    obtain ⟨node, inForest, head, children⟩ := thinned.origin _ here
    obtain rfl : node = other := wellFormed.eq_of_key_eq inForest otherInBefore
      ((congrArg Head.key head).trans sameKey.symm)
    have inside : keysOf inner ⊆ keysOf node.children := by
      refine below (fun child place => allBelow_trans here place) node.children
        (fun child place => allBelow_trans otherInBefore place) fun child direct => ?_
      obtain ⟨origin, inNode, same⟩ := children child direct
      exact List.mem_map.mpr ⟨origin, inNode, congrArg Head.key same⟩
    have behind : keysOf rest ⊆ keysOf others := by
      refine beside (fun node place => inAfter ?_) others inBefore fun node member =>
        known node (List.mem_cons_of_mem _ member)
      rw [allBelow_cons]
      exact List.mem_cons_of_mem _ (List.mem_append_right _ place)
    have whole : keysOf node.children ⊆ keysOf others := by
      intro number member
      obtain ⟨child, place, rfl⟩ := List.mem_map.mp member
      exact List.mem_map.mpr ⟨child, allBelow_trans (mem_allBelow_of_mem among) place, rfl⟩
    rw [keysOf_cons]
    refine List.cons_subset.mpr ⟨?_, List.append_subset.mpr ⟨fun number member => whole (inside member), behind⟩⟩
    exact List.mem_map.mpr ⟨node, mem_allBelow_of_mem among, sameKey⟩

end Thinned

end Xml.Forest

open Forest

/-! ## Markers and references -/

namespace Document

variable {before after forest : Forest} {root number : Nat} {id : String} {tag : Tag}

theorem mem_tracesOf : number ∈ tracesOf forest root id tag ↔
    ∃ tree, forest.find? root = some tree ∧ ∃ node ∈ tree.selfAndBelow, node.key = number ∧
      isTraceOf id tag node = true := by
  unfold tracesOf
  cases forest.find? root with
  | none => simp
  | some tree =>
    simp only [List.mem_map, List.mem_filter, Option.some.injEq, exists_eq_left']
    constructor
    · rintro ⟨node, ⟨place, trace⟩, same⟩
      exact ⟨node, place, same, trace⟩
    · rintro ⟨node, place, same, trace⟩
      exact ⟨node, ⟨place, trace⟩, same⟩

theorem isTraceOf_head {first second : Node} (same : first.head = second.head) :
    isTraceOf id tag first = isTraceOf id tag second := by
  rw [isTraceOf, isTraceOf, hasTag_of_head same, identifier?_of_head same]

/-- No section gets a new trace. -/
theorem tracesOf_thinned (thinned : Thinned before after) (wellFormed : before.WellFormed)
    (member : number ∈ tracesOf after root id tag) : number ∈ tracesOf before root id tag := by
  obtain ⟨tree, isTree, node, place, rfl, trace⟩ := mem_tracesOf.mp member
  obtain ⟨inAfter, rfl⟩ := thinned.wellFormed.find?_iff.mp isTree
  obtain ⟨old, inBefore, head, -⟩ := thinned.origin tree inAfter
  have sameKey : old.key = tree.key := congrArg Head.key head
  have inside : allBelow [tree] ⊆ after.nodes := below_subset inAfter
  have insideOld : allBelow [old] ⊆ before.nodes := below_subset inBefore
  have known : node.key ∈ keysOf [old] := by
    refine thinned.below wellFormed [tree] inside [old] insideOld (by simp [sameKey]) ?_
    exact List.mem_map.mpr ⟨node, by rwa [allBelow_singleton], rfl⟩
  obtain ⟨other, placeOld, same⟩ := List.mem_map.mp known
  obtain ⟨origin, alsoInBefore, sameHead, -⟩ :=
    thinned.origin node (inside (by rwa [allBelow_singleton]))
  obtain rfl : origin = other := wellFormed.eq_of_key_eq alsoInBefore (insideOld placeOld)
    ((congrArg Head.key sameHead).trans same.symm)
  refine mem_tracesOf.mpr ⟨old, wellFormed.find?_iff.mpr ⟨inBefore, sameKey⟩, origin, ?_, same, ?_⟩
  · rwa [allBelow_singleton] at placeOld
  · rwa [isTraceOf_head sameHead]

theorem holdsOnlyReferences_thinned {run old : Node} (head : old.head = run.head)
    (children : ∀ child ∈ run.children, ∃ other ∈ old.children, other.head = child.head)
    (only : holdsOnlyReferences old = true) : holdsOnlyReferences run = true := by
  simp only [holdsOnlyReferences, Bool.and_eq_true, List.all_eq_true] at only ⊢
  refine ⟨by rw [← hasTag_of_head head]; exact only.1, fun child direct => ?_⟩
  obtain ⟨other, inOld, same⟩ := children child direct
  rw [← hasTag_of_head same, ← hasTag_of_head same]
  exact only.2 other inOld

/-- A trace has been erased from the document.  It has no parent, or else it is a reference in a run that
only holds references and has no parent. -/
def Erased (tag : Tag) (forest : Forest) (number : Nat) : Prop :=
  forest.parent? number = none ∨ (tag = Tag.reference ∧ ∃ run, forest.parent? number = some run ∧
    holdsOnlyReferences run = true ∧ forest.parent? run.key = none)

/-- Taking a run that only holds references out of its parent erases the references. -/
theorem erased_of_run (thinned : Thinned before after) (wellFormed : before.WellFormed) {run : Node}
    (located : before.parent? number = some run) (only : holdsOnlyReferences run = true)
    (apart : after.parent? run.key = none) : Erased Tag.reference after number := by
  cases locatedAfter : after.parent? number with
  | none => exact .inl locatedAfter
  | some now =>
    obtain ⟨old, isOld, head, children⟩ := thinned.parent wellFormed locatedAfter
    obtain rfl := Option.some.inj (isOld.symm.trans located)
    have sameKey : old.key = now.key := congrArg Head.key head
    exact .inr ⟨rfl, now, locatedAfter, holdsOnlyReferences_thinned head children only, sameKey ▸ apart⟩

theorem Erased.thinned (erased : Erased tag before number) (thinned : Thinned before after)
    (wellFormed : before.WellFormed) : Erased tag after number := by
  rcases erased with apart | ⟨rfl, run, located, only, apart⟩
  · exact .inl (thinned.apart apart)
  · exact erased_of_run thinned wellFormed located only (thinned.apart apart)

theorem eraseReference_thinned (wellFormed : forest.WellFormed) (reference : Nat) :
    Thinned forest (eraseReference forest reference) := by
  unfold eraseReference
  split
  · exact .refl wellFormed
  · exact wellFormed.detach_thinned _

theorem eraseReference_erased (wellFormed : forest.WellFormed) (reference : Nat) :
    Erased Tag.reference (eraseReference forest reference) reference := by
  unfold eraseReference
  cases located : forest.parent? reference with
  | none => exact .inl located
  | some run =>
    dsimp only
    cases only : holdsOnlyReferences run with
    | true =>
      exact erased_of_run (wellFormed.detach_thinned run.key) wellFormed located only
        (detach_apart wellFormed run.key)
    | false => exact .inl (detach_apart wellFormed reference)

theorem eraseReferences (references : List Nat) : ∀ {forest : Forest}, forest.WellFormed →
    Thinned forest (references.foldl eraseReference forest) ∧
      ∀ reference ∈ references, Erased Tag.reference (references.foldl eraseReference forest) reference := by
  induction references with
  | nil => exact fun wellFormed => ⟨.refl wellFormed, fun _ member => absurd member List.not_mem_nil⟩
  | cons first rest hypothesis =>
    intro forest wellFormed
    have step := eraseReference_thinned wellFormed first
    obtain ⟨others, erased⟩ := hypothesis step.wellFormed
    refine ⟨step.trans others, fun reference member => ?_⟩
    rcases List.mem_cons.mp member with rfl | member
    · exact (eraseReference_erased wellFormed reference).thinned others step.wellFormed
    · exact erased reference member

/-- All traces of a comment in a section have been erased. -/
def Cleared (id : String) (forest : Forest) (root : Nat) : Prop :=
  ∀ tag ∈ [Tag.rangeStart, Tag.rangeEnd, Tag.reference], ∀ number ∈ tracesOf forest root id tag,
    Erased tag forest number

theorem Cleared.thinned (cleared : Cleared id before root) (thinned : Thinned before after)
    (wellFormed : before.WellFormed) : Cleared id after root := by
  intro tag isTag number member
  exact (cleared tag isTag number (tracesOf_thinned thinned wellFormed member)).thinned thinned wellFormed

/-- The traces of a comment in a section are erased in three stages. -/
theorem eraseTraces_stages (id : String) (forest : Forest) (root : Nat) : ∃ first second,
    first = (tracesOf forest root id Tag.rangeStart).foldl Forest.detach forest ∧
    second = (tracesOf first root id Tag.rangeEnd).foldl Forest.detach first ∧
    eraseTraces id forest root = (tracesOf second root id Tag.reference).foldl eraseReference second :=
  ⟨_, _, rfl, rfl, rfl⟩

theorem eraseTraces_clears (id : String) (wellFormed : forest.WellFormed) (root : Nat) :
    Thinned forest (eraseTraces id forest root) ∧ Cleared id (eraseTraces id forest root) root := by
  obtain ⟨first, second, isFirst, isSecond, whole⟩ := eraseTraces_stages id forest root
  have toFirst : Thinned forest first := isFirst ▸ detachAll_thinned _ wellFormed
  have toSecond : Thinned first second := isSecond ▸ detachAll_thinned _ toFirst.wellFormed
  obtain ⟨toThird, erased⟩ :=
    eraseReferences (tracesOf second root id Tag.reference) toSecond.wellFormed
  rw [whole]
  refine ⟨toFirst.trans (toSecond.trans toThird), fun tag isTag number member => ?_⟩
  have inSecond := tracesOf_thinned toThird toSecond.wellFormed member
  have inFirst := tracesOf_thinned toSecond toFirst.wellFormed inSecond
  have inForest := tracesOf_thinned toFirst wellFormed inFirst
  simp only [List.mem_cons, List.not_mem_nil, or_false] at isTag
  rcases isTag with rfl | rfl | rfl
  · have apart : first.parent? number = none := isFirst ▸ detachAll_apart wellFormed inForest
    exact .inl (toThird.apart (toSecond.apart apart))
  · have apart : second.parent? number = none := isSecond ▸ detachAll_apart toFirst.wellFormed inFirst
    exact .inl (toThird.apart apart)
  · exact erased number inSecond

/-- Erasing the traces of a comment in some sections. -/
theorem eraseAllTraces_clears (id : String) (roots : List Nat) : ∀ {forest : Forest}, forest.WellFormed →
    Thinned forest (roots.foldl (eraseTraces id) forest) ∧
      ∀ root ∈ roots, Cleared id (roots.foldl (eraseTraces id) forest) root := by
  induction roots with
  | nil => exact fun wellFormed => ⟨.refl wellFormed, fun _ member => absurd member List.not_mem_nil⟩
  | cons first rest hypothesis =>
    intro forest wellFormed
    obtain ⟨step, cleared⟩ := eraseTraces_clears id wellFormed first
    obtain ⟨others, clearedOthers⟩ := hypothesis step.wellFormed
    refine ⟨step.trans others, fun root member => ?_⟩
    rcases List.mem_cons.mp member with rfl | member
    · exact cleared.thinned others step.wellFormed
    · exact clearedOthers root member

/-- Where traces of a comment have been erased, the only ones left are the root of the section, and
references directly below it if it is a run that only holds references. -/
theorem Cleared.left (cleared : Cleared id forest root) (wellFormed : forest.WellFormed) {tree node : Node}
    (found : forest.find? root = some tree) (place : node ∈ tree.selfAndBelow)
    (isTag : tag ∈ [Tag.rangeStart, Tag.rangeEnd, Tag.reference]) (trace : isTraceOf id tag node = true) :
    node = tree ∨ (tag = Tag.reference ∧ holdsOnlyReferences tree = true ∧ node ∈ tree.children) := by
  obtain ⟨inForest, -⟩ := mem_of_find? found
  have erased := cleared tag isTag node.key (mem_tracesOf.mpr ⟨tree, found, node, place, rfl, trace⟩)
  have parents {inner : Node} (below : inner ∈ allBelow [tree]) :
      inner = tree ∨ ∃ parent ∈ allBelow [tree], inner ∈ parent.children ∧
        forest.parent? inner.key = some parent := by
    rcases exists_parent below with outermost | ⟨parent, inTree, direct⟩
    · exact .inl (List.mem_singleton.mp outermost)
    · refine .inr ⟨parent, inTree, direct, wellFormed.parent?_iff.mpr ⟨below_subset inForest inTree, ?_⟩⟩
      exact List.mem_map.mpr ⟨inner, direct, rfl⟩
  rcases parents (by rwa [allBelow_singleton]) with same | ⟨run, inTree, direct, located⟩
  · exact .inl same
  · rw [Erased, located] at erased
    obtain ⟨isReference, other, isOther, only, apart⟩ := erased.resolve_left (by simp)
    obtain rfl := Option.some.inj isOther
    rcases parents inTree with rfl | ⟨parent, -, -, above⟩
    · exact .inr ⟨isReference, only, direct⟩
    · rw [apart] at above
      cases above

end Document

/-! ## Trees without some of their nodes -/

namespace Xml.Node

/-- A tree without some of the nodes below its root, and without what is below them. -/
def pruned (gone : List Nat) (node : Node) : Node := expand (fun _ => []) gone node

section Pruned

variable {gone : List Nat}

@[simp] theorem head_pruned (node : Node) : (node.pruned gone).head = node.head := head_expand node

@[simp] theorem key_pruned (node : Node) : (node.pruned gone).key = node.key :=
  congrArg Head.key (head_pruned node)

mutual

theorem expand_expand (more : List Nat) : (node : Node) →
    expand (fun _ => []) more (expand (fun _ => []) gone node) = expand (fun _ => []) (gone ++ more) node
  | .mk key label lead children tail => by
      rw [expand, expand, expand, expandAll_expandAll more children]

theorem expandAll_expandAll (more : List Nat) : (nodes : List Node) →
    expandAll (fun _ => []) more (expandAll (fun _ => []) gone nodes) =
      expandAll (fun _ => []) (gone ++ more) nodes
  | [] => by rw [expandAll, expandAll, expandAll]
  | node :: rest => by
      have sameKey : (expand (fun _ => []) gone node).key = node.key :=
        congrArg Head.key (head_expand node)
      by_cases here : node.key ∈ gone
      · simp [expandAll, here, expandAll_expandAll more rest]
      · simp [expandAll, here, sameKey, expand_expand more node, expandAll_expandAll more rest]

end

theorem pruned_pruned (more : List Nat) (node : Node) :
    (node.pruned gone).pruned more = node.pruned (gone ++ more) := expand_expand more node

theorem expandAll_keys (nodes : List Node) :
    ∀ number ∈ keysOf (expandAll (fun _ => []) gone nodes), number ∈ keysOf nodes ∧ number ∉ gone := by
  induction nodes using nodes_induction with
  | nil => simp [expandAll, keysOf]
  | cons own label lead inner tail rest below beside =>
    intro number member
    rw [expandAll, List.nil_append, keysOf_append, List.mem_append] at member
    rw [keysOf_cons, List.mem_cons, List.mem_append]
    rcases member with member | member
    · split at member
      · cases member
      · rename_i stays
        rw [List.contains_iff_mem] at stays
        rw [expand, keysOf_cons, List.mem_cons, List.mem_append] at member
        rcases member with rfl | member | member
        · exact ⟨.inl rfl, stays⟩
        · exact ⟨.inr (.inl (below number member).1), (below number member).2⟩
        · cases member
    · exact ⟨.inr (.inr (beside number member).1), (beside number member).2⟩

theorem expandAll_absent {nodes : List Node} (absent : ∀ number ∈ gone, number ∉ keysOf nodes) :
    expandAll (fun _ => []) gone nodes = nodes := by
  induction nodes using nodes_induction with
  | nil => rw [expandAll]
  | cons own label lead inner tail rest below beside =>
    have apart (number : Nat) (member : number ∈ gone) :
        number ≠ own ∧ number ∉ keysOf inner ∧ number ∉ keysOf rest := by
      have outside := absent number member
      rw [keysOf_cons, List.mem_cons, List.mem_append, not_or, not_or] at outside
      exact outside
    have stays : own ∉ gone := fun member => (apart own member).1 rfl
    rw [expandAll, expand, below fun number member => (apart number member).2.1,
      beside fun number member => (apart number member).2.2]
    simp [key, stays]

theorem pruned_absent {node : Node} (absent : ∀ number ∈ gone, number ∉ keysOf node.children) :
    node.pruned gone = node := by
  cases node with
  | mk own label lead inner tail =>
    have same : expandAll (fun _ => []) gone inner = inner := expandAll_absent absent
    rw [pruned, expand, same]

/-- A node that is neither above nor below what is taken out stays as it is. -/
theorem expandAll_mem {nodes : List Node} {kept : Node} (member : kept ∈ allBelow nodes)
    (above : ∀ holder ∈ allBelow nodes, holder.key ∈ gone → kept.key ∉ keysOf [holder])
    (below : ∀ number ∈ gone, number ∉ keysOf kept.children) :
    kept ∈ allBelow (expandAll (fun _ => []) gone nodes) := by
  induction nodes using nodes_induction with
  | nil => cases member
  | cons own label lead inner tail rest inside beside =>
    obtain ⟨node, isNode⟩ : ∃ node, node = Node.mk own label lead inner tail := ⟨_, rfl⟩
    have here : node ∈ allBelow (node :: rest) := mem_allBelow_of_mem List.mem_cons_self
    rw [← isNode] at member above ⊢
    have stays (within : kept ∈ allBelow [node]) : node.key ∉ gone := fun hit =>
      above node here hit (List.mem_map.mpr ⟨kept, within, rfl⟩)
    rw [expandAll, List.nil_append, allBelow_append, List.mem_append]
    rw [← List.singleton_append, allBelow_append, List.mem_append] at member
    rcases member with member | member
    · rw [if_neg (by rw [List.contains_iff_mem]; exact stays member)]
      left
      rw [allBelow_singleton, selfAndBelow_eq, List.mem_cons] at member ⊢
      rcases member with rfl | member
      · exact .inl (pruned_absent below).symm
      · rw [children_expand]
        subst isNode
        exact .inr (inside member fun holder place => above holder (allBelow_trans here place))
    · refine .inr (beside member fun holder place => above holder ?_)
      rw [allBelow_cons]
      exact List.mem_cons_of_mem _ (List.mem_append_right _ place)

end Pruned

end Xml.Node

/-! ## The tree of comments -/

section Comments

variable {forest : Forest} {tree : Node}

/-- What is taken out of its parent is taken out of the tree that it is in. -/
theorem Xml.Forest.WellFormed.detach_pruned (wellFormed : forest.WellFormed) (outermost : tree ∈ forest.trees)
    (number : Nat) : tree.pruned [number] ∈ (forest.detach number).trees := by
  have grown : Grown (placeOf (fun _ => []) [number]) forest (forest.detach number) :=
    (wellFormed.detach_grown number).congr fun other _ => by simp [placeOf]
  have inForest : tree.pruned [number] ∈ (forest.detach number).nodes :=
    grown.expand_mem (mem_allBelow_of_mem outermost) fun _ _ _ impossible => absurd impossible List.not_mem_nil
  have isRoot : (forest.detach number).IsRoot tree.key := detach_roots ⟨tree, outermost, rfl⟩
  obtain ⟨last, isTree, same⟩ := isRoot
  have isLast := grown.wellFormed.eq_of_key_eq (mem_allBelow_of_mem isTree) inForest
    (same.trans (key_pruned tree).symm)
  rwa [isLast] at isTree

theorem Xml.Forest.WellFormed.detach_outside (wellFormed : forest.WellFormed) (outermost : tree ∈ forest.trees)
    {number : Nat} (outside : number ∉ keysOf [tree]) : tree ∈ (forest.detach number).trees := by
  have kept := wellFormed.detach_pruned outermost number
  rwa [pruned_absent fun other member => ?_] at kept
  rw [List.mem_singleton.mp member]
  intro inside
  rw [keysOf_cons, List.mem_cons, List.mem_append, not_or, not_or] at outside
  exact outside.2.1 inside

theorem detachAll_outside (numbers : List Nat) : ∀ {forest : Forest}, forest.WellFormed →
    tree ∈ forest.trees → (∀ number ∈ numbers, number ∉ keysOf [tree]) →
    tree ∈ (numbers.foldl Forest.detach forest).trees := by
  induction numbers with
  | nil => exact fun _ outermost _ => outermost
  | cons number rest hypothesis =>
    intro forest wellFormed outermost outside
    exact hypothesis (wellFormed.detach_thinned number).wellFormed
      (wellFormed.detach_outside outermost (outside number List.mem_cons_self))
      fun other member => outside other (List.mem_cons_of_mem _ member)

theorem eraseReferences_outside (references : List Nat) : ∀ {forest : Forest}, forest.WellFormed →
    tree ∈ forest.trees → (∀ reference ∈ references, reference ∉ keysOf [tree]) →
    tree ∈ (references.foldl eraseReference forest).trees := by
  induction references with
  | nil => exact fun _ outermost _ => outermost
  | cons reference rest hypothesis =>
    intro forest wellFormed outermost outside
    refine hypothesis (eraseReference_thinned wellFormed reference).wellFormed ?_
      fun other member => outside other (List.mem_cons_of_mem _ member)
    have own := outside reference List.mem_cons_self
    unfold eraseReference
    split
    · exact outermost
    · rename_i run located
      refine wellFormed.detach_outside outermost ?_
      split
      · intro inside
        obtain ⟨inForest, held⟩ := mem_of_parent? located
        obtain ⟨child, direct, rfl⟩ := List.mem_map.mp held
        exact own (wellFormed.child_mem_tree outermost inForest direct inside)
      · exact own

/-- Erasing the traces in a section leaves all other trees alone. -/
theorem eraseTraces_outside (id : String) (wellFormed : forest.WellFormed) (outermost : tree ∈ forest.trees)
    {root : Nat} (isRoot : forest.IsRoot root) (other : root ≠ tree.key) :
    tree ∈ (eraseTraces id forest root).trees := by
  have outside {forest : Forest} (wellFormed : forest.WellFormed) (outermost : tree ∈ forest.trees)
      (isRoot : forest.IsRoot root) (tag : Tag) :
      ∀ number ∈ tracesOf forest root id tag, number ∉ keysOf [tree] := by
    intro number member inside
    obtain ⟨part, found, node, place, rfl, -⟩ := mem_tracesOf.mp member
    obtain ⟨isTree, outermostToo, rfl⟩ := isRoot
    rw [wellFormed.find?_key (mem_allBelow_of_mem outermostToo)] at found
    obtain rfl := Option.some.inj found
    have inPart : node.key ∈ keysOf [isTree] :=
      List.mem_map.mpr ⟨node, by rwa [allBelow_singleton], rfl⟩
    exact other (congrArg key (wellFormed.tree_unique outermostToo outermost inPart inside))
  obtain ⟨first, second, isFirst, isSecond, whole⟩ := eraseTraces_stages id forest root
  have toFirst : Thinned forest first := isFirst ▸ detachAll_thinned _ wellFormed
  have inFirst : tree ∈ first.trees :=
    isFirst ▸ detachAll_outside _ wellFormed outermost (outside wellFormed outermost isRoot _)
  have isRootFirst := toFirst.roots root isRoot
  have toSecond : Thinned first second := isSecond ▸ detachAll_thinned _ toFirst.wellFormed
  have inSecond : tree ∈ second.trees :=
    isSecond ▸ detachAll_outside _ toFirst.wellFormed inFirst (outside toFirst.wellFormed inFirst isRootFirst _)
  have isRootSecond := toSecond.roots root isRootFirst
  rw [whole]
  exact eraseReferences_outside _ toSecond.wellFormed inSecond
    (outside toSecond.wellFormed inSecond isRootSecond _)

theorem eraseAllTraces_outside (id : String) (roots : List Nat) : ∀ {forest : Forest}, forest.WellFormed →
    tree ∈ forest.trees → (∀ root ∈ roots, forest.IsRoot root ∧ root ≠ tree.key) →
    tree ∈ (roots.foldl (eraseTraces id) forest).trees := by
  induction roots with
  | nil => exact fun _ outermost _ => outermost
  | cons root rest hypothesis =>
    intro forest wellFormed outermost others
    obtain ⟨isRoot, other⟩ := others root List.mem_cons_self
    obtain ⟨step, -⟩ := eraseTraces_clears id wellFormed root
    refine hypothesis step.wellFormed (eraseTraces_outside id wellFormed outermost isRoot other)
      fun last member => ?_
    obtain ⟨isLast, different⟩ := others last (List.mem_cons_of_mem _ member)
    exact ⟨step.roots last isLast, different⟩

end Comments

/-! ## Comments one after the other -/

/-- The forest without a comment. -/
def eraseComment (template : Template) (forest : Forest) (comment : Comment) : Forest :=
  let erased := template.roots.foldl (eraseTraces comment.id) forest
  match comment.element with
  | none => erased
  | some element => erased.detach element

section EraseComment

variable (template : Template) {forest : Forest} {tree : Node}

theorem eraseComment_clears (wellFormed : forest.WellFormed) (comment : Comment) :
    Thinned forest (eraseComment template forest comment) ∧
      ∀ root ∈ template.roots, Cleared comment.id (eraseComment template forest comment) root := by
  obtain ⟨erases, cleared⟩ := eraseAllTraces_clears comment.id template.roots wellFormed
  unfold eraseComment
  dsimp only
  cases comment.element with
  | none => exact ⟨erases, cleared⟩
  | some element =>
    have last := erases.wellFormed.detach_thinned element
    exact ⟨erases.trans last, fun root member => (cleared root member).thinned last erases.wellFormed⟩

theorem eraseComments_clear (comments : List Comment) : ∀ {forest : Forest}, forest.WellFormed →
    Thinned forest (comments.foldl (eraseComment template) forest) ∧
      ∀ comment ∈ comments, ∀ root ∈ template.roots,
        Cleared comment.id (comments.foldl (eraseComment template) forest) root := by
  induction comments with
  | nil => exact fun wellFormed => ⟨.refl wellFormed, fun _ member => absurd member List.not_mem_nil⟩
  | cons first rest hypothesis =>
    intro forest wellFormed
    obtain ⟨step, cleared⟩ := eraseComment_clears template wellFormed first
    obtain ⟨others, clearedOthers⟩ := hypothesis step.wellFormed
    refine ⟨step.trans others, fun comment member root isRoot => ?_⟩
    rcases List.mem_cons.mp member with rfl | member
    · exact (cleared root isRoot).thinned others step.wellFormed
    · exact clearedOthers comment member root isRoot

/-- A comment is deleted from a tree outside of the sections by taking out its element. -/
theorem eraseComment_tree (wellFormed : forest.WellFormed) (outermost : tree ∈ forest.trees)
    (others : ∀ root ∈ template.roots, forest.IsRoot root ∧ root ≠ tree.key) (comment : Comment) :
    tree.pruned comment.element.toList ∈ (eraseComment template forest comment).trees := by
  obtain ⟨erases, -⟩ := eraseAllTraces_clears comment.id template.roots wellFormed
  have remains := eraseAllTraces_outside comment.id template.roots wellFormed outermost others
  unfold eraseComment
  dsimp only
  cases comment.element with
  | none => rwa [Option.toList_none, pruned_absent fun _ impossible => absurd impossible List.not_mem_nil]
  | some element => exact erases.wellFormed.detach_pruned remains element

theorem eraseComments_tree (comments : List Comment) : ∀ {forest : Forest} {tree : Node}, forest.WellFormed →
    tree ∈ forest.trees → (∀ root ∈ template.roots, forest.IsRoot root ∧ root ≠ tree.key) →
    tree.pruned (comments.filterMap Comment.element) ∈ (comments.foldl (eraseComment template) forest).trees := by
  induction comments with
  | nil =>
    intro forest tree _ outermost _
    rwa [List.filterMap_nil, pruned_absent fun _ impossible => absurd impossible List.not_mem_nil]
  | cons first rest hypothesis =>
    intro forest tree wellFormed outermost others
    obtain ⟨step, -⟩ := eraseComment_clears template wellFormed first
    have later := hypothesis step.wellFormed (eraseComment_tree template wellFormed outermost others first)
      fun root member => ⟨step.roots root (others root member).1, by
        rw [key_pruned]
        exact (others root member).2⟩
    rw [pruned_pruned] at later
    have split : (first :: rest).filterMap Comment.element =
        first.element.toList ++ rest.filterMap Comment.element := by
      cases element : first.element with
      | none => simp [element]
      | some number => simp [element]
    rwa [split]

/-- The store of comments notices whenever something has been taken out of a tree that is no section. -/
theorem delete_erases (store : CommentStore) (wellFormed : forest.WellFormed) (comment : Comment) :
    (store.delete forest template comment).2 = eraseComment template forest comment ∧
      (store.delete forest template comment).1.root = store.root ∧
      ((store.delete forest template comment).1.dirty = false → store.dirty = false ∧
        ∀ tree ∈ forest.trees, (∀ root ∈ template.roots, forest.IsRoot root ∧ root ≠ tree.key) →
          tree.pruned comment.element.toList = tree) := by
  unfold CommentStore.delete eraseComment
  dsimp only
  cases comment.element with
  | none =>
    exact ⟨rfl, rfl, fun clean => ⟨clean, fun tree _ _ =>
      pruned_absent fun _ impossible => absurd impossible List.not_mem_nil⟩⟩
  | some element =>
    dsimp only
    cases located : (template.roots.foldl (eraseTraces comment.id) forest).parent? element with
    | some parent =>
      refine ⟨rfl, rfl, ?_⟩
      rintro ⟨⟩
    | none =>
      refine ⟨?_, rfl, fun clean => ⟨clean, fun tree outermost others => pruned_absent fun number member inside => ?_⟩⟩
      · simp only [Forest.detach, located]
      · obtain rfl := List.mem_singleton.mp member
        obtain ⟨node, place, rfl⟩ := List.mem_map.mp inside
        have inForest := mem_allBelow_of_mem
          (eraseAllTraces_outside comment.id template.roots wellFormed outermost others)
        obtain ⟨parent, isParent, direct⟩ : ∃ parent ∈ allBelow _, node ∈ parent.children := by
          rcases exists_parent place with direct | ⟨parent, below, direct⟩
          · exact ⟨tree, inForest, direct⟩
          · exact ⟨parent, allBelow_trans inForest below, direct⟩
        rw [parent?_eq, List.find?_eq_none] at located
        exact located parent isParent
          ((holds_iff node.key parent).mpr (List.mem_map.mpr ⟨node, direct, rfl⟩))

end EraseComment

end Imprint
