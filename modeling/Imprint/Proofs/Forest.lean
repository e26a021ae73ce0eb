import Imprint.Proofs.ChildRevision
import Imprint.Xml.Forest

/-! # Forests whose keys are pairwise different

Everything that edits a document keeps the keys of its forest apart from each other.  What an edit does to
the rest of the forest is said once, for any edit, by the keys it may touch. -/
set_option autoImplicit false
namespace Imprint.Xml.Forest
open Node

/-- The nodes of a forest, in document order. -/
def nodes (forest : Forest) : List Node := allBelow forest.trees

/-- The keys of a forest. -/
def keys (forest : Forest) : List Nat := keysOf forest.trees

/-- The keys of a forest are positive, below the next unused one, and pairwise different. -/
structure WellFormed (forest : Forest) : Prop where
  unique : forest.keys.Nodup
  bounded : ∀ number ∈ forest.keys, 0 < number ∧ number < forest.fresh

theorem key_mem_keys {forest : Forest} {node : Node} (member : node ∈ forest.nodes) :
    node.key ∈ forest.keys :=
  List.mem_map.mpr ⟨node, member, rfl⟩

theorem mem_keys {forest : Forest} {number : Nat} :
    number ∈ forest.keys ↔ ∃ node ∈ forest.nodes, node.key = number :=
  List.mem_map

theorem findSome?_allBelow (test : Node → Bool) (trees : List Node) :
    trees.findSome? (fun tree => tree.selfAndBelow.find? test) = (allBelow trees).find? test := by
  induction trees with
  | nil => simp
  | cons tree rest hypothesis =>
    rw [List.findSome?_cons, allBelow, List.find?_append, hypothesis]
    cases tree.selfAndBelow.find? test <;> rfl

theorem find?_eq (forest : Forest) (number : Nat) :
    forest.find? number = forest.nodes.find? fun candidate => candidate.key == number :=
  findSome?_allBelow _ forest.trees

theorem parent?_eq (forest : Forest) (number : Nat) :
    forest.parent? number = forest.nodes.find? (holds number) :=
  findSome?_allBelow _ forest.trees

theorem mem_of_find? {forest : Forest} {number : Nat} {node : Node}
    (found : forest.find? number = some node) : node ∈ forest.nodes ∧ node.key = number := by
  rw [find?_eq] at found
  exact ⟨List.mem_of_find?_eq_some found, by simpa using List.find?_some found⟩

theorem mem_of_parent? {forest : Forest} {number : Nat} {parent : Node}
    (found : forest.parent? number = some parent) :
    parent ∈ forest.nodes ∧ number ∈ parent.children.map key := by
  rw [parent?_eq] at found
  exact ⟨List.mem_of_find?_eq_some found, (holds_iff number parent).mp (List.find?_some found)⟩

namespace WellFormed

variable {forest : Forest} (wellFormed : forest.WellFormed)
include wellFormed

theorem eq_of_key_eq {first second : Node} (memberFirst : first ∈ forest.nodes)
    (memberSecond : second ∈ forest.nodes) (same : first.key = second.key) : first = second :=
  Node.eq_of_key_eq wellFormed.unique memberFirst memberSecond same

theorem find?_iff {number : Nat} {node : Node} :
    forest.find? number = some node ↔ node ∈ forest.nodes ∧ node.key = number := by
  rw [find?_eq]
  exact find?_eq_some_iff wellFormed.unique

theorem find?_key {node : Node} (member : node ∈ forest.nodes) :
    forest.find? node.key = some node :=
  wellFormed.find?_iff.mpr ⟨member, rfl⟩

theorem parent?_iff {number : Nat} {parent : Node} :
    forest.parent? number = some parent ↔
      parent ∈ forest.nodes ∧ number ∈ parent.children.map key := by
  constructor
  · exact mem_of_parent?
  · rintro ⟨member, held⟩
    rw [parent?_eq]
    cases found : forest.nodes.find? (holds number) with
    | none =>
      have missing := List.find?_eq_none.mp found parent member
      exact absurd ((holds_iff number parent).mpr held) missing
    | some other =>
      have otherHolds := (holds_iff number other).mp (List.find?_some found)
      have otherMember := List.mem_of_find?_eq_some found
      rw [parent_unique wellFormed.unique otherMember member otherHolds held]

theorem key_pos {node : Node} (member : node ∈ forest.nodes) : 0 < node.key :=
  (wellFormed.bounded _ (key_mem_keys member)).1

theorem key_lt {node : Node} (member : node ∈ forest.nodes) : node.key < forest.fresh :=
  (wellFormed.bounded _ (key_mem_keys member)).2

theorem zero_not_mem : 0 ∉ forest.keys := fun member =>
  Nat.lt_irrefl 0 (wellFormed.bounded 0 member).1

theorem root_parent? {tree : Node} (member : tree ∈ forest.trees) :
    forest.parent? tree.key = none := by
  cases found : forest.parent? tree.key with
  | none => rfl
  | some parent =>
    obtain ⟨place, held⟩ := mem_of_parent? found
    exact absurd held (not_held_of_outermost wellFormed.unique
      (List.mem_map.mpr ⟨tree, member, rfl⟩) place)

end WellFormed

/-- Trees of a forest share no key. -/
theorem WellFormed.tree_unique {forest : Forest} (wellFormed : forest.WellFormed) {first second : Node}
    (inForest : first ∈ forest.trees) (alsoInForest : second ∈ forest.trees) {number : Nat}
    (inFirst : number ∈ keysOf [first]) (inSecond : number ∈ keysOf [second]) : first = second := by
  obtain ⟨before, after, trees⟩ := List.append_of_mem inForest
  have unique : (keysOf forest.trees).Nodup := wellFormed.unique
  rw [trees, keysOf_append, ← List.singleton_append, keysOf_append, List.nodup_append,
    List.nodup_append] at unique
  rw [trees, List.mem_append, List.mem_cons] at alsoInForest
  rcases alsoInForest with early | same | late
  · have clash := unique.2.2 number (keysOf_subset early inSecond) number
      (List.mem_append_left _ inFirst)
    exact absurd rfl clash
  · exact same.symm
  · have clash := unique.2.1.2.2 number inFirst number (keysOf_subset late inSecond)
    exact absurd rfl clash

/-- What counts is how often a key comes up: at most once, and only if it has been given out. -/
theorem wellFormed_iff_count (forest : Forest) :
    forest.WellFormed ↔ ∀ number, forest.keys.count number ≤
      if 0 < number ∧ number < forest.fresh then 1 else 0 := by
  constructor
  · intro wellFormed number
    split
    · exact List.nodup_iff_count_le_one.mp wellFormed.unique number
    · rename_i outside
      refine Nat.le_of_eq (List.count_eq_zero.mpr fun member => ?_)
      exact outside (wellFormed.bounded number member)
  · intro counts
    refine ⟨List.nodup_iff_count_le_one.mpr fun number => ?_, fun number member => ?_⟩
    · have bound := counts number
      split at bound <;> omega
    · have positive := List.count_pos_iff.mpr member
      have bound := counts number
      by_contra outside
      rw [if_neg outside] at bound
      omega

theorem allBelow_updateAll_eq (forest : Forest) (number : Nat) (change : Node → Node) :
    (forest.update number change).nodes = allBelow (updateAll number change forest.trees) := by
  rw [updateAll_eq_map]
  rfl

/-- One forest comes out of another by edits that keep every node: those that may be touched keep their
heads, all others their outlines, and no node gets a child that is not new. -/
structure Edited (touched : Nat → Prop) (before after : Forest) : Prop where
  wellFormed : after.WellFormed
  fresh : before.fresh ≤ after.fresh
  found : ∀ node ∈ before.nodes, ∃ found ∈ after.nodes, StandsFor touched found node
  trees : ∀ tree ∈ before.trees, (∀ number ∈ keysOf [tree], ¬ touched number) → tree ∈ after.trees
  roots : ∀ tree ∈ before.trees, ∃ root ∈ after.trees, root.head = tree.head
  old : ∀ number ∈ after.keys, number < before.fresh → number ∈ before.keys
  children : ∀ found ∈ after.nodes, ∀ child ∈ found.children, child.key < before.fresh →
    ∃ node ∈ before.nodes, node.key = found.key ∧ child.key ∈ node.children.map key

namespace Edited

variable {touched other : Nat → Prop} {before middle after : Forest}

theorem refl (wellFormed : before.WellFormed) : Edited touched before before where
  wellFormed := wellFormed
  fresh := Nat.le_refl _
  found node member := ⟨node, member, .refl _ _⟩
  trees _ member _ := member
  roots tree member := ⟨tree, member, rfl⟩
  old _ member _ := member
  children found member child direct _ := ⟨found, member, rfl, List.mem_map.mpr ⟨child, direct, rfl⟩⟩

theorem mono (implies : ∀ number, touched number → other number)
    (edited : Edited touched before after) : Edited other before after where
  wellFormed := edited.wellFormed
  fresh := edited.fresh
  found node member := by
    obtain ⟨found, place, head, outline⟩ := edited.found node member
    exact ⟨found, place, head, fun free => outline fun may => free (implies _ may)⟩
  trees tree member free :=
    edited.trees tree member fun _ inside hit => free _ inside (implies _ hit)
  roots := edited.roots
  old := edited.old
  children := edited.children

theorem trans (first : Edited touched before middle) (second : Edited touched middle after) :
    Edited touched before after where
  wellFormed := second.wellFormed
  fresh := Nat.le_trans first.fresh second.fresh
  found node member := by
    obtain ⟨found, place, head, outline⟩ := first.found node member
    obtain ⟨last, lastPlace, lastHead, lastOutline⟩ := second.found found place
    have same : found.key = node.key := congrArg Head.key head
    refine ⟨last, lastPlace, lastHead.trans head, fun free => ?_⟩
    rw [lastOutline (same ▸ free), outline free]
  trees tree member free := second.trees tree (first.trees tree member free) free
  roots tree member := by
    obtain ⟨root, place, head⟩ := first.roots tree member
    obtain ⟨last, lastPlace, lastHead⟩ := second.roots root place
    exact ⟨last, lastPlace, lastHead.trans head⟩
  old number member small :=
    first.old number (second.old number member (Nat.lt_of_lt_of_le small first.fresh)) small
  children found member child direct small := by
    obtain ⟨node, place, same, held⟩ := second.children found member child direct
      (Nat.lt_of_lt_of_le small first.fresh)
    obtain ⟨inner, direct, sameChild⟩ := List.mem_map.mp held
    obtain ⟨origin, originPlace, originSame, originHeld⟩ :=
      first.children node place inner direct (sameChild ▸ small)
    exact ⟨origin, originPlace, originSame.trans same, sameChild ▸ originHeld⟩

end Edited

/-! ## Edits -/

/-- The nodes of a forest before and after a node is exchanged for another one with the same head. -/
theorem WellFormed.update_nodes {forest : Forest} (wellFormed : forest.WellFormed) {node new : Node}
    (member : node ∈ forest.nodes) (change : Node → Node) (changed : change node = new)
    (kept : new.head = node.head) :
    ∃ before before' after, forest.nodes = before ++ node.selfAndBelow ++ after ∧
      (forest.update node.key change).nodes = before' ++ new.selfAndBelow ++ after ∧
      before'.map outline = before.map outline := by
  rw [allBelow_updateAll_eq]
  exact updateAll_split changed kept wellFormed.unique member

/-- Trees in which a key does not occur are not changed when its node is exchanged; all others keep
their heads. -/
theorem update_trees {forest : Forest} {number : Nat} {change : Node → Node} {tree : Node}
    (member : tree ∈ forest.trees) (absent : number ∉ keysOf [tree]) :
    tree ∈ (forest.update number change).trees := by
  have same : Node.update number change tree = tree :=
    update_absent change tree (by simpa [keysOf, allBelow_singleton] using absent)
  exact List.mem_map.mpr ⟨tree, member, same⟩

theorem map_key_eq_of_outline {first second : List Node}
    (same : first.map outline = second.map outline) : first.map key = second.map key := by
  have keys (nodes : List Node) : nodes.map key = (nodes.map outline).map fun view => view.1.key := by
    rw [List.map_map]
    rfl
  rw [keys first, keys second, same]

theorem exists_outline {first second : List Node} (same : first.map outline = second.map outline)
    {node : Node} (member : node ∈ second) : ∃ found ∈ first, found.outline = node.outline := by
  have view : node.outline ∈ first.map outline := same ▸ List.mem_map.mpr ⟨node, member, rfl⟩
  obtain ⟨found, place, equal⟩ := List.mem_map.mp view
  exact ⟨found, place, equal⟩

theorem children_of_outline {first second : Node} (same : first.outline = second.outline) :
    first.key = second.key ∧ first.children.map key = second.children.map key := by
  have heads : first.children.map head = second.children.map head := congrArg Prod.snd same
  have keys (node : Node) : node.children.map key = (node.children.map head).map Head.key := by
    rw [List.map_map]
    rfl
  exact ⟨congrArg (fun view => view.1.key) same, by rw [keys, keys, heads]⟩

/-- What an edit leaves of the node and puts aside, if everything in it is accounted for. -/
structure Replaced (touched : Nat → Prop) (fresh : Nat) (node new : Node) (missing : List Node)
    (next : Nat) : Prop where
  head : new.head = node.head
  advance : fresh ≤ next
  count : ∀ wanted, 0 < wanted →
    (keysOf [new]).count wanted + (keysOf missing).count wanted =
      (keysOf [node]).count wanted + (if fresh ≤ wanted ∧ wanted < next then 1 else 0)
  keyed : 0 ∉ keysOf [new]
  found : ∀ other ∈ node.selfAndBelow, ∃ found ∈ new.selfAndBelow ++ allBelow missing,
    StandsFor touched found other
  children : ∀ found ∈ new.selfAndBelow, ∀ child ∈ found.children, child.key < fresh →
    ∃ other ∈ node.selfAndBelow, other.key = found.key ∧ child.key ∈ other.children.map key

/-! What numbering makes of the children that an edit leaves: old nodes stand for themselves, and hold what they held. -/

section Numbered

variable {touched : Nat → Prop} {fresh : Nat} {node changed : Node}

theorem numberAll_stands (fresh : Nat) (keyedBelow : 0 ∉ keysOf node.children) {other found : Node}
    (member : other ∈ allBelow node.children) (place : found ∈ allBelow changed.children)
    (stands : StandsFor touched found other) :
    ∃ last ∈ allBelow (numberAll changed.children fresh).1, StandsFor touched last other := by
  obtain ⟨head, outline⟩ := stands
  have keyed : found.key ≠ 0 := by
    rw [show found.key = other.key from congrArg Head.key head]
    exact fun zero => keyedBelow (zero ▸ List.mem_map.mpr ⟨other, member, rfl⟩)
  obtain ⟨last, lastPlace, lastHead, lastOutline⟩ := numberAll_outline changed.children fresh found place keyed
  refine ⟨last, lastPlace, lastHead.trans head, fun free => ?_⟩
  -- Where the edit has not gone into, no child is new.
  have keyedChildren : 0 ∉ found.children.map key := by
    rw [(children_of_outline (outline free)).2]
    intro zero
    obtain ⟨child, direct, isZero⟩ := List.mem_map.mp zero
    exact keyedBelow (isZero ▸ List.mem_map.mpr ⟨child, child_mem_allBelow member direct, rfl⟩)
  rw [lastOutline keyedChildren, outline free]

variable (positive : 0 < fresh) (revised : Revised touched node.children changed.children) {found child : Node}
include positive revised

theorem numberAll_outermost_old (direct : child ∈ (numberAll changed.children fresh).1) (small : child.key < fresh) :
    child.key ∈ node.children.map key := by
  have old := (numberAll_outermost changed.children fresh child direct).resolve_right (by omega)
  obtain ⟨inner, isInner, same⟩ := List.mem_map.mp old
  have keyed := numberAll_key_ne_zero positive (mem_allBelow_of_mem direct)
  exact same ▸ revised.outermost inner isInner (same ▸ keyed)

theorem numberAll_children_old (keyedBelow : 0 ∉ keysOf node.children)
    (member : found ∈ allBelow (numberAll changed.children fresh).1) (direct : child ∈ found.children)
    (small : child.key < fresh) :
    ∃ other ∈ allBelow node.children, other.key = found.key ∧ child.key ∈ other.children.map key := by
  obtain ⟨origin, place, same, children⟩ := numberAll_origin changed.children fresh found member
  have held := (children child direct).resolve_right (by omega)
  obtain ⟨inner, isInner, sameInner⟩ := List.mem_map.mp held
  have keyed := numberAll_key_ne_zero positive (child_mem_allBelow member direct)
  obtain ⟨other, otherPlace, otherSame, otherHeld⟩ := revised.children origin place inner isInner (sameInner ▸ keyed)
  have otherKeyed : other.key ≠ 0 := fun zero =>
    keyedBelow (zero ▸ List.mem_map.mpr ⟨other, otherPlace, rfl⟩)
  refine ⟨other, otherPlace, ?_, sameInner ▸ otherHeld⟩
  rcases same with same | zero
  · exact otherSame.trans same.symm
  · exact absurd (otherSame.trans zero) otherKeyed

end Numbered

theorem replaced_of_revised {touched : Nat → Prop} {fresh : Nat} {node changed : Node}
    (positive : 0 < fresh) (unique : (keysOf [node]).Nodup)
    (bounded : ∀ number ∈ keysOf [node], 0 < number ∧ number < fresh)
    (kept : changed.head = node.head) (revised : Revised touched node.children changed.children)
    (may : touched node.key) :
    Replaced touched fresh node (changed.number fresh).1
      (node.missingFrom ((changed.number fresh).1.selfAndBelow.map key)) (changed.number fresh).2 := by
  have ownKeys : keysOf [node] = node.key :: keysOf node.children := by simp [keysOf, allBelow_cons]
  rw [ownKeys] at unique bounded
  obtain ⟨ownApart, uniqueBelow⟩ := List.nodup_cons.mp unique
  have ownPositive : node.key ≠ 0 := Nat.pos_iff_ne_zero.mp (bounded node.key List.mem_cons_self).1
  have sameKey : changed.key = node.key := congrArg Head.key kept
  have keyedBelow : 0 ∉ keysOf node.children := fun member =>
    Nat.lt_irrefl 0 (bounded 0 (List.mem_cons_of_mem _ member)).1
  -- The edited node keeps its key; its children are numbered.
  rw [number_keyed (sameKey ▸ ownPositive)]
  obtain ⟨numbered, isNumbered⟩ : ∃ numbered, (numberAll changed.children fresh).1 = numbered := ⟨_, rfl⟩
  obtain ⟨filledKeys, next⟩ := numberAll_keys changed.children fresh
  rw [isNumbered] at filledKeys ⊢
  have keptKeys : (changed.withChildren numbered).selfAndBelow.map key = node.key :: keysOf numbered := by
    rw [selfAndBelow_eq, List.map_cons, key_withChildren, sameKey, children_withChildren]
    rfl
  rw [keptKeys, missingFrom_kept List.mem_cons_self]
  have accounted := revised.accounted (node.key :: keysOf numbered) uniqueBelow keyedBelow fun number member => by
    obtain ⟨keyed, small⟩ := bounded number (List.mem_cons_of_mem _ member)
    rw [List.mem_cons, filledKeys, mem_filled_iff keyed small]
    exact or_iff_right fun same => ownApart (same ▸ member)
  refine ⟨?_, ?_, fun wanted keyed => ?_, ?_, fun other member => ?_, fun found member child direct small => ?_⟩
  · rw [head_withChildren, kept]
  · omega
  · have counted := accounted.count wanted keyed
    have filledCount := count_filled (keysOf changed.children) keyed fresh
    rw [← filledKeys, ← next] at filledCount
    simp only [keysOf_cons, key_withChildren, children_withChildren, sameKey, List.count_cons,
      List.count_append]
    omega
  · rw [keysOf_cons, key_withChildren, children_withChildren, sameKey, filledKeys]
    simp only [List.mem_cons, List.mem_append, not_or]
    exact ⟨Ne.symm ownPositive, zero_not_mem_filled positive, by simp [keysOf]⟩
  · rw [selfAndBelow_eq] at member
    rw [selfAndBelow_eq, children_withChildren]
    rcases List.mem_cons.mp member with rfl | member
    · exact ⟨changed.withChildren numbered, by simp, by rw [head_withChildren, kept],
        fun free => absurd may free⟩
    · obtain ⟨found, place, stands⟩ := accounted.found other member
      rcases List.mem_append.mp place with place | place
      · obtain ⟨last, lastPlace, lastStands⟩ := numberAll_stands fresh keyedBelow member place stands
        exact ⟨last, by simp [isNumbered ▸ lastPlace], lastStands⟩
      · exact ⟨found, by simp [place], stands⟩
  · rw [selfAndBelow_eq, children_withChildren] at member
    rcases List.mem_cons.mp member with rfl | member
    · rw [children_withChildren, ← isNumbered] at direct
      exact ⟨node, mem_selfAndBelow_self node, by rw [key_withChildren, sameKey],
        numberAll_outermost_old positive revised direct small⟩
    · obtain ⟨origin, place, held⟩ :=
        numberAll_children_old positive revised keyedBelow (isNumbered ▸ member) direct small
      exact ⟨origin, by rw [selfAndBelow_eq]; exact List.mem_cons_of_mem _ place, held⟩

/-- How an edit exchanges a node for another one with the same head: nodes in front of it come to hold the other one
where they held it, and the pieces that are not in it any more are put aside. -/
structure Exchanged (forest : Forest) (node new : Node) (pieces : List Node) (after : Forest) : Prop where
  head : new.head = node.head
  trees : after.trees = (forest.update node.key fun _ => new).trees ++ pieces
  missing : allBelow pieces ⊆ node.selfAndBelow
  nodes : ∃ before before' rest, forest.nodes = before ++ node.selfAndBelow ++ rest ∧
    after.nodes = before' ++ new.selfAndBelow ++ rest ++ allBelow pieces ∧ before'.map outline = before.map outline

theorem WellFormed.edit_exchanged {forest : Forest} (wellFormed : forest.WellFormed) {node : Node}
    (member : node ∈ forest.nodes) {change : Node → Node} (kept : (change node).head = node.head) :
    Exchanged forest node ((change node).number forest.fresh).1
      (node.missingFrom (((change node).number forest.fresh).1.selfAndBelow.map key)) (forest.edit node.key change) ∧
      (forest.edit node.key change).fresh = ((change node).number forest.fresh).2 := by
  obtain ⟨new, isNew⟩ : ∃ new, ((change node).number forest.fresh).1 = new := ⟨_, rfl⟩
  have keyed : (change node).key ≠ 0 := by
    rw [show (change node).key = node.key from congrArg Head.key kept]
    exact Nat.pos_iff_ne_zero.mp (wellFormed.key_pos member)
  have head : new.head = node.head := by
    rw [← isNew, number_keyed keyed, head_withChildren, kept]
  have edited : forest.edit node.key change =
      ⟨(forest.update node.key fun _ => new).trees ++ node.missingFrom (new.selfAndBelow.map key),
        ((change node).number forest.fresh).2⟩ := by
    simp only [edit, wellFormed.find?_key member, isNew]
    rfl
  obtain ⟨before, before', rest, nodes, nodes', outlines⟩ := wellFormed.update_nodes member (fun _ => new) rfl head
  rw [isNew, edited]
  refine ⟨⟨head, rfl, fun found missing => ?_, before, before', rest, nodes, ?_, outlines⟩, rfl⟩
  · rw [← allBelow_singleton]
    exact missingFromAll_subset (new.selfAndBelow.map key) [node] (by simpa [missingFromAll] using missing)
  · rw [← nodes', Forest.nodes, allBelow_append]
    rfl

/-- What is there after the exchange was there before, or is part of the new node. -/
theorem Exchanged.origin {forest after : Forest} {node new : Node} {pieces : List Node}
    (exchanged : Exchanged forest node new pieces after) {found : Node} (member : found ∈ after.nodes) :
    found ∈ new.selfAndBelow ∨ ∃ origin ∈ forest.nodes, found.outline = origin.outline := by
  obtain ⟨before, before', rest, nodes, nodes', outlines⟩ := exchanged.nodes
  rw [nodes'] at member
  simp only [List.mem_append] at member
  rcases member with ((early | inside) | late) | missing
  · obtain ⟨origin, isOrigin, outline⟩ := exists_outline outlines.symm early
    exact .inr ⟨origin, by rw [nodes]; simp [isOrigin], outline.symm⟩
  · exact .inl inside
  · exact .inr ⟨found, by rw [nodes]; simp [late], rfl⟩
  · exact .inr ⟨found, by rw [nodes]; simp [exchanged.missing missing], rfl⟩

theorem Exchanged.new_mem {forest after : Forest} {node new : Node} {pieces : List Node}
    (exchanged : Exchanged forest node new pieces after) : new ∈ after.nodes := by
  obtain ⟨_, _, _, -, nodes, -⟩ := exchanged.nodes
  rw [nodes]
  simp [mem_selfAndBelow_self]

section Exchanged

variable {touched : Nat → Prop} {forest after : Forest} {node new : Node} {pieces : List Node} {next : Nat}
  (exchanged : Exchanged forest node new pieces after) (replaced : Replaced touched forest.fresh node new pieces next)
include exchanged replaced

theorem Exchanged.count (wanted : Nat) (positive : 0 < wanted) : after.keys.count wanted =
    forest.keys.count wanted + (if forest.fresh ≤ wanted ∧ wanted < next then 1 else 0) := by
  obtain ⟨before, before', rest, nodes, nodes', outlines⟩ := exchanged.nodes
  have here := replaced.count wanted positive
  have keysBefore : forest.keys = before.map key ++ keysOf [node] ++ rest.map key := by
    rw [Forest.keys, keysOf, keysOf, allBelow_singleton, ← List.map_append, ← List.map_append, ← nodes]
    rfl
  have keysAfter : after.keys = before'.map key ++ keysOf [new] ++ rest.map key ++ keysOf pieces := by
    rw [Forest.keys, keysOf, keysOf, keysOf, allBelow_singleton, ← List.map_append, ← List.map_append,
      ← List.map_append, ← nodes']
    rfl
  rw [keysBefore, keysAfter, map_key_eq_of_outline outlines]
  simp only [List.count_append]
  omega

theorem Exchanged.stands {other : Node} (member : other ∈ forest.nodes) :
    ∃ found ∈ after.nodes, StandsFor touched found other := by
  obtain ⟨before, before', rest, nodes, nodes', outlines⟩ := exchanged.nodes
  rw [nodes] at member
  rw [nodes']
  simp only [List.mem_append] at member ⊢
  rcases member with (early | inside) | late
  · obtain ⟨last, lastPlace, outline⟩ := exists_outline outlines early
    exact ⟨last, by tauto, congrArg Prod.fst outline, fun _ => outline⟩
  · obtain ⟨last, lastPlace, same⟩ := replaced.found other inside
    rcases List.mem_append.mp lastPlace with lastPlace | lastPlace
    · exact ⟨last, by tauto, same⟩
    · exact ⟨last, by tauto, same⟩
  · exact ⟨other, by tauto, .refl _ _⟩

variable (wellFormed : forest.WellFormed) (member : node ∈ forest.nodes)
include wellFormed

theorem Exchanged.zero_not_mem : 0 ∉ after.keys := by
  intro zero
  obtain ⟨found, place, isZero⟩ := mem_keys.mp zero
  rcases exchanged.origin place with inside | ⟨origin, isOrigin, outline⟩
  · exact replaced.keyed (List.mem_map.mpr ⟨found, by rwa [allBelow_singleton], isZero⟩)
  · refine wellFormed.zero_not_mem (mem_keys.mpr ⟨origin, isOrigin, ?_⟩)
    rw [← (children_of_outline outline).1, isZero]

theorem Exchanged.after_wellFormed (fresh : after.fresh = next) : after.WellFormed := by
  rw [wellFormed_iff_count]
  intro wanted
  rcases Nat.eq_zero_or_pos wanted with rfl | positive
  · rw [List.count_eq_zero.mpr (exchanged.zero_not_mem replaced wellFormed)]
    exact Nat.zero_le _
  · have old := (wellFormed_iff_count forest).mp wellFormed wanted
    have advance := replaced.advance
    rw [exchanged.count replaced wanted positive, fresh]
    split_ifs at old ⊢ <;> omega

theorem Exchanged.old {number : Nat} (inside : number ∈ after.keys) (small : number < forest.fresh) :
    number ∈ forest.keys := by
  have positive : 0 < number := Nat.pos_of_ne_zero fun zero =>
    exchanged.zero_not_mem replaced wellFormed (zero ▸ inside)
  have occurs := List.count_pos_iff.mpr inside
  rw [exchanged.count replaced number positive, if_neg (by omega)] at occurs
  exact List.count_pos_iff.mp (by omega)

include member

omit replaced in
theorem Exchanged.root {tree : Node} (place : tree ∈ forest.trees) : ∃ root ∈ after.trees, root.head = tree.head := by
  rw [exchanged.trees]
  refine ⟨Node.update node.key (fun _ => new) tree,
    List.mem_append_left _ (List.mem_map.mpr ⟨tree, place, rfl⟩), head_update fun same => ?_⟩
  rw [exchanged.head, wellFormed.eq_of_key_eq (mem_allBelow_of_mem place) member same]

omit wellFormed in
theorem Exchanged.children {found child : Node} (place : found ∈ after.nodes) (direct : child ∈ found.children)
    (small : child.key < forest.fresh) :
    ∃ origin ∈ forest.nodes, origin.key = found.key ∧ child.key ∈ origin.children.map key := by
  have held : child.key ∈ found.children.map key := List.mem_map.mpr ⟨child, direct, rfl⟩
  rcases exchanged.origin place with inside | ⟨origin, isOrigin, outline⟩
  · obtain ⟨origin, isOrigin, same⟩ := replaced.children found inside child direct small
    exact ⟨origin, below_subset member (by rwa [allBelow_singleton]), same⟩
  · obtain ⟨sameKey, sameChildren⟩ := children_of_outline outline
    exact ⟨origin, isOrigin, sameKey.symm, sameChildren ▸ held⟩

end Exchanged

/-- An edit of a node whose children are revised touches no more than the node itself, the nodes that the
revision goes into, and nodes that are new. -/
theorem WellFormed.edit_edited {forest : Forest} (wellFormed : forest.WellFormed) {touched : Nat → Prop}
    {number : Nat} {change : Node → Node} {node : Node} (found : forest.find? number = some node)
    (kept : (change node).head = node.head)
    (revised : Revised touched node.children (change node).children)
    (may : touched number) : Edited touched forest (forest.edit number change) := by
  obtain ⟨member, rfl⟩ := wellFormed.find?_iff.mp found
  obtain ⟨exchanged, fresh⟩ := wellFormed.edit_exchanged member kept
  have bounded : ∀ number ∈ keysOf [node], 0 < number ∧ number < forest.fresh := by
    intro number inside
    obtain ⟨other, place, rfl⟩ := List.mem_map.mp inside
    exact wellFormed.bounded _ (key_mem_keys (below_subset member place))
  have unique : (keysOf [node]).Nodup := by
    obtain ⟨before, -, rest, nodes, -⟩ := exchanged.nodes
    have whole : (forest.nodes.map key).Nodup := wellFormed.unique
    rw [nodes, List.map_append, List.map_append] at whole
    rw [keysOf, allBelow_singleton]
    exact whole.of_append_left.of_append_right
  have positive : 0 < forest.fresh := Nat.lt_of_le_of_lt (Nat.zero_le _) (wellFormed.key_lt member)
  have replaced := replaced_of_revised positive unique bounded kept revised may
  refine ⟨exchanged.after_wellFormed replaced wellFormed fresh, fresh ▸ replaced.advance,
    fun _ place => exchanged.stands replaced place, fun tree place free => ?_,
    fun _ place => exchanged.root wellFormed member place, fun _ => exchanged.old replaced wellFormed,
    fun _ place _ direct => exchanged.children replaced member place direct⟩
  rw [exchanged.trees]
  exact List.mem_append_left _ (update_trees place fun inside => free _ inside may)

/-- After an edit the node is what the change made of it, with keys for what is new. -/
theorem WellFormed.edit_find? {forest : Forest} (wellFormed : forest.WellFormed)
    {touched : Nat → Prop} {number : Nat} {change : Node → Node} {node : Node}
    (found : forest.find? number = some node) (kept : (change node).head = node.head)
    (revised : Revised touched node.children (change node).children) (may : touched number) :
    ∃ new, (forest.edit number change).find? number = some new ∧
      new.copied = (change node).copied := by
  have edited := wellFormed.edit_edited found kept revised may
  obtain ⟨member, rfl⟩ := wellFormed.find?_iff.mp found
  obtain ⟨exchanged, -⟩ := wellFormed.edit_exchanged member kept
  exact ⟨((change node).number forest.fresh).1,
    edited.wellFormed.find?_iff.mpr ⟨exchanged.new_mem, congrArg Head.key exchanged.head⟩,
    copied_number (change node) forest.fresh⟩

end Imprint.Xml.Forest
