import Imprint.Proofs.CommentErasure
/-! # Nodes that are spared

An edit may rewrite what certain nodes hold, and take certain nodes out of their parents.  All other nodes
keep their children in their order, and get no new ones but paragraphs. -/
set_option autoImplicit false
namespace Imprint
open Xml Document Node

namespace Xml.Forest

/-- Whether a key is that of a node with a tag. -/
def Tagged (forest : Forest) (tag : Tag) (number : Nat) : Prop :=
  ∃ node ∈ forest.nodes, node.key = number ∧ node.hasTag tag = true

theorem WellFormed.hasTag_of_tagged {forest : Forest} (wellFormed : forest.WellFormed) {node : Node} {tag : Tag}
    (member : node ∈ forest.nodes) (isTagged : forest.Tagged tag node.key) : node.hasTag tag = true := by
  obtain ⟨other, inForest, same, isTag⟩ := isTagged
  rwa [← wellFormed.eq_of_key_eq inForest member same]

/-- What is left of the children of a node: those with keys below a bound are in their old order, the missing
ones may be removed, and those that are new are paragraphs. -/
structure Spared (bound : Nat) (removed : Nat → Prop) (node found : Node) : Prop where
  order : ((found.children.map key).filter (· < bound)).Sublist ((node.children.map key).filter (· < bound))
  missing : ∀ number ∈ node.children.map key, number < bound → number ∉ found.children.map key → removed number
  new : ∀ child ∈ found.children, bound ≤ child.key → child.hasTag Tag.paragraph = true ∨
    ∃ other ∈ node.children, other.head = child.head

namespace Spared

variable {bound : Nat} {removed other : Nat → Prop} {node middle found : Node}

theorem mono (implies : ∀ number < bound, removed number → other number) (spared : Spared bound removed node found) :
    Spared bound other node found where
  order := spared.order
  missing number held small absent := implies number small (spared.missing number held small absent)
  new := spared.new

theorem trans (first : Spared bound removed node middle) (second : Spared bound removed middle found) :
    Spared bound removed node found where
  order := second.order.trans first.order
  missing number held small absent := by
    by_cases remains : number ∈ middle.children.map key
    · exact second.missing number remains small absent
    · exact first.missing number held small remains
  new child direct isNew := by
    rcases second.new child direct isNew with isParagraph | ⟨other, inMiddle, same⟩
    · exact .inl isParagraph
    · have sameKey : other.key = child.key := congrArg Head.key same
      rcases first.new other inMiddle (sameKey ▸ isNew) with isParagraph | ⟨last, inNode, sameLast⟩
      · exact .inl (hasTag_of_head same _ ▸ isParagraph)
      · exact .inr ⟨last, inNode, sameLast.trans same⟩

theorem of_heads (same : found.children.map head = node.children.map head) : Spared bound removed node found where
  order := by
    have keys (nodes : List Node) : nodes.map key = (nodes.map head).map Head.key := by
      rw [List.map_map]
      rfl
    rw [keys, keys node.children, same]
  missing number held _ absent := by
    obtain ⟨child, direct, rfl⟩ := List.mem_map.mp held
    have isHead : child.head ∈ found.children.map head := same ▸ List.mem_map.mpr ⟨child, direct, rfl⟩
    obtain ⟨other, inFound, sameHead⟩ := List.mem_map.mp isHead
    exact absurd (List.mem_map.mpr ⟨other, inFound, congrArg Head.key sameHead⟩) absent
  new child direct _ := by
    have isHead : child.head ∈ node.children.map head := same ▸ List.mem_map.mpr ⟨child, direct, rfl⟩
    obtain ⟨other, inNode, sameHead⟩ := List.mem_map.mp isHead
    exact .inr ⟨other, inNode, sameHead⟩

end Spared

/-- One forest comes out of another in which every node keeps its head.  Nodes with keys below a bound are
spared unless they may be rewritten, and have kept their parents or lost them. -/
structure Sparing (bound : Nat) (rewritten removed : Nat → Prop) (before after : Forest) : Prop
    extends Loosened bound before after where
  old : ∀ number ∈ after.keys, number < bound → number ∈ before.keys
  found : ∀ node ∈ before.nodes, ∃ found ∈ after.nodes, found.head = node.head ∧
    (node.key < bound → ¬ rewritten node.key → Spared bound removed node found)

namespace Sparing

variable {bound : Nat} {rewritten removed more others : Nat → Prop} {before middle after : Forest}

theorem refl (wellFormed : before.WellFormed) : Sparing bound rewritten removed before before where
  toLoosened := .refl wellFormed
  old _ member _ := member
  found node member := ⟨node, member, rfl, fun _ _ => .of_heads rfl⟩

theorem mono (rewrites : ∀ number < bound, rewritten number → more number)
    (removes : ∀ number < bound, removed number → others number)
    (sparing : Sparing bound rewritten removed before after) : Sparing bound more others before after where
  toLoosened := sparing.toLoosened
  old := sparing.old
  found node member := by
    obtain ⟨found, inAfter, head, spared⟩ := sparing.found node member
    exact ⟨found, inAfter, head, fun small free =>
      (spared small fun may => free (rewrites _ small may)).mono removes⟩

theorem trans (first : Sparing bound rewritten removed before middle)
    (second : Sparing bound rewritten removed middle after) : Sparing bound rewritten removed before after where
  toLoosened := first.toLoosened.trans second.toLoosened
  old number member small := first.old number (second.old number member small) small
  found node member := by
    obtain ⟨found, inMiddle, head, spared⟩ := first.found node member
    obtain ⟨last, inAfter, lastHead, lastSpared⟩ := second.found found inMiddle
    have same : found.key = node.key := congrArg Head.key head
    exact ⟨last, inAfter, lastHead.trans head, fun small free =>
      (spared small free).trans (lastSpared (same ▸ small) (same ▸ free))⟩

/-- A tagged node keeps its tag. -/
theorem tagged (sparing : Sparing bound rewritten removed before after) {tag : Tag} {number : Nat}
    (isTagged : before.Tagged tag number) : after.Tagged tag number := by
  obtain ⟨node, member, rfl, isTag⟩ := isTagged
  obtain ⟨found, inAfter, head, -⟩ := sparing.found node member
  exact ⟨found, inAfter, congrArg Head.key head, (hasTag_of_head head tag).trans isTag⟩

/-- A node with a key below the bound is one from before. -/
theorem origin (sparing : Sparing bound rewritten removed before after) {found : Node} (member : found ∈ after.nodes)
    (small : found.key < bound) : ∃ node ∈ before.nodes, found.head = node.head ∧
      (¬ rewritten node.key → Spared bound removed node found) := by
  obtain ⟨node, inBefore, same⟩ := mem_keys.mp (sparing.old _ (key_mem_keys member) small)
  obtain ⟨other, inAfter, head, spared⟩ := sparing.found node inBefore
  obtain rfl : other = found :=
    sparing.wellFormed.eq_of_key_eq inAfter member ((congrArg Head.key head).trans same)
  exact ⟨node, inBefore, head, spared (same ▸ small)⟩

theorem tagged_origin (sparing : Sparing bound rewritten removed before after) {tag : Tag} {number : Nat}
    (isTagged : after.Tagged tag number) (small : number < bound) : before.Tagged tag number := by
  obtain ⟨found, inAfter, rfl, isTag⟩ := isTagged
  obtain ⟨node, member, head, -⟩ := sparing.origin inAfter small
  exact ⟨node, member, (congrArg Head.key head).symm, (hasTag_of_head head tag).symm.trans isTag⟩

/-- A node that is missing from its parent may be removed, unless its parent may be rewritten. -/
theorem stays (sparing : Sparing bound rewritten removed before after) (wellFormed : before.WellFormed)
    (small : before.fresh ≤ bound) {parent child : Node} (inForest : parent ∈ before.nodes)
    (direct : child ∈ parent.children) (free : ¬ rewritten parent.key) (keeps : ¬ removed child.key) :
    ∃ found ∈ after.nodes, found.head = parent.head ∧ child.key ∈ found.children.map key := by
  obtain ⟨found, inAfter, head, spared⟩ := sparing.found parent inForest
  have below (node : Node) (member : node ∈ before.nodes) : node.key < bound :=
    Nat.lt_of_lt_of_le (wellFormed.key_lt member) small
  refine ⟨found, inAfter, head, ?_⟩
  by_contra absent
  exact keeps ((spared (below parent inForest) free).missing _ (List.mem_map.mpr ⟨child, direct, rfl⟩)
    (below child (child_mem_allBelow inForest direct)) absent)

end Sparing

/-! ## Edits that spare -/

section Edits

variable {bound : Nat} {rewritten removed : Nat → Prop} {before after forest : Forest}

theorem Edited.sparing {touched : Nat → Prop} (edited : Edited touched before after) (small : bound ≤ before.fresh)
    (rewrites : ∀ number < bound, touched number → rewritten number) :
    Sparing bound rewritten removed before after where
  toLoosened := edited.loosened small
  old number member below := edited.old number member (Nat.lt_of_lt_of_le below small)
  found node member := by
    obtain ⟨found, inAfter, head, outline⟩ := edited.found node member
    refine ⟨found, inAfter, head, fun below free => .of_heads ?_⟩
    exact congrArg Prod.snd (outline fun touches => free (rewrites _ below touches))

/-- Taking out a node that may be removed, unless its parent may be rewritten. -/
theorem WellFormed.detach_sparing (wellFormed : forest.WellFormed) {number : Nat}
    (may : number < bound → ∀ parent ∈ forest.nodes, number ∈ parent.children.map key → parent.key < bound →
      ¬ rewritten parent.key → removed number) :
    Sparing bound rewritten removed forest (forest.detach number) where
  toLoosened := wellFormed.detach_loosened number
  old other member _ := by
    obtain ⟨found, inAfter, rfl⟩ := mem_keys.mp member
    obtain ⟨node, inForest, head, -⟩ := (wellFormed.detach_thinned number).origin found inAfter
    exact mem_keys.mpr ⟨node, inForest, congrArg Head.key head⟩
  found node member := by
    obtain ⟨found, inAfter, head, children⟩ := (wellFormed.detach_grown number).found node member
    rw [flatMap_without] at children
    refine ⟨found, inAfter, head, fun small free => ⟨?_, fun other held below absent => ?_, fun child direct _ => ?_⟩⟩
    · rw [children]
      exact List.filter_sublist.filter _
    · rw [children, List.mem_filter, not_and, bne_iff_ne, ne_eq, not_not] at absent
      obtain rfl := absent held
      exact may below node member held small free
    · obtain ⟨origin, inForest, same, heads⟩ := (wellFormed.detach_thinned number).origin found inAfter
      obtain rfl : origin = node := wellFormed.eq_of_key_eq inForest member
        (congrArg Head.key (same.trans head))
      exact .inr (heads child direct)

/-- Keys below a bound do not notice a larger one in front of one of them. -/
theorem filter_flatMap_before (anchor : Nat) {root : Nat} (large : ¬ root < bound) (keys : List Nat) :
    (keys.flatMap fun other => if other = anchor then [root, anchor] else [other]).filter (· < bound) =
      keys.filter (· < bound) := by
  induction keys with
  | nil => rfl
  | cons first rest hypothesis =>
    rw [List.flatMap_cons, List.filter_append, hypothesis, List.filter_cons]
    by_cases here : first = anchor
    · subst here
      by_cases small : first < bound
      · simp [small, large]
      · simp [small, large]
    · by_cases small : first < bound
      · simp [here, small]
      · simp [here, small]

/-- Moving a new paragraph in front of another node. -/
theorem WellFormed.moveBefore_sparing (wellFormed : forest.WellFormed) {number : Nat} (isNew : bound ≤ number)
    (isParagraph : forest.Tagged Tag.paragraph number) (anchor : Nat) :
    Sparing bound rewritten removed forest (forest.moveBefore number anchor) := by
  have loosened : Loosened bound forest (forest.moveBefore number anchor) :=
    wellFormed.moveBefore_loosened isNew anchor
  rcases wellFormed.moveBefore_detached number anchor with
    same | ⟨tree, outermost, rfl, outside, located, same⟩
  · rw [same]
    exact .refl wellFormed
  · obtain ⟨free, isFree⟩ : ∃ free, free = forest.detach tree.key := ⟨_, rfl⟩
    have freed : Sparing bound rewritten removed forest free := by
      rw [isFree]
      exact wellFormed.detach_sparing fun small => absurd small (Nat.not_lt.mpr isNew)
    rw [← isFree] at same outermost located
    have grown := freed.wellFormed.moveBefore_grown outermost outside located
    have moved : Loosened bound free (free.moveBefore tree.key anchor) := freed.wellFormed.moveBefore_loosened isNew anchor
    have tagged : tree.hasTag Tag.paragraph = true := by
      obtain ⟨found, inFree, sameKey, isTag⟩ := freed.tagged isParagraph
      rwa [← freed.wellFormed.eq_of_key_eq inFree (mem_allBelow_of_mem outermost) sameKey]
    refine same ▸ freed.trans ⟨moved, fun other member small => ?_, fun node member => ?_⟩
    · refine grown.old other member ?_
      rw [← moveBefore_fresh free tree.key anchor]
      exact (moved.wellFormed.bounded other member).2
    · obtain ⟨found, inAfter, head, children⟩ := grown.found node member
      have place (other : Nat) : other ∈ found.children.map key ↔
          other ∈ node.children.map key ∨ (other = tree.key ∧ anchor ∈ node.children.map key) := by
        rw [children, List.mem_flatMap]
        constructor
        · rintro ⟨held, direct, placed⟩
          split at placed
          · rename_i here
            subst here
            rcases List.mem_cons.mp placed with rfl | placed
            · exact .inr ⟨rfl, direct⟩
            · exact .inl (List.mem_singleton.mp placed ▸ direct)
          · exact .inl (List.mem_singleton.mp placed ▸ direct)
        · rintro (direct | ⟨rfl, direct⟩)
          · refine ⟨other, direct, ?_⟩
            split
            · rename_i here
              exact List.mem_cons_of_mem _ (List.mem_singleton.mpr here)
            · exact List.mem_singleton_self other
          · exact ⟨anchor, direct, by simp⟩
      refine ⟨found, inAfter, head, fun _ _ => ⟨?_, fun other held _ absent => ?_, fun child direct _ => ?_⟩⟩
      · rw [children, filter_flatMap_before anchor (Nat.not_lt.mpr isNew)]
      · exact absurd ((place other).mpr (.inl held)) absent
      · rcases (place child.key).mp (List.mem_map.mpr ⟨child, direct, rfl⟩) with held | ⟨isMoved, -⟩
        · obtain ⟨other, inNode, sameKey⟩ := List.mem_map.mp held
          obtain ⟨last, inLast, sameHead, -⟩ := grown.found other (child_mem_allBelow member inNode)
          obtain rfl : last = child := grown.wellFormed.eq_of_key_eq inLast
            (child_mem_allBelow inAfter direct) ((congrArg Head.key sameHead).trans sameKey)
          exact .inr ⟨other, inNode, sameHead.symm⟩
        · obtain ⟨last, inLast, sameHead, -⟩ := grown.found tree (mem_allBelow_of_mem outermost)
          obtain rfl : last = child := grown.wellFormed.eq_of_key_eq inLast
            (child_mem_allBelow inAfter direct) ((congrArg Head.key sameHead).trans isMoved.symm)
          exact .inl ((hasTag_of_head sameHead _).trans tagged)

end Edits

end Xml.Forest

namespace Document
open Forest

theorem tagged_paragraphsBelow (forest : Forest) (roots : List Nat) :
    ∀ paragraph ∈ paragraphsBelow forest roots, forest.Tagged Tag.paragraph paragraph := by
  intro paragraph member
  rw [paragraphsBelow_eq] at member
  obtain ⟨node, isParagraph, rfl⟩ := List.mem_map.mp member
  obtain ⟨inSection, tag⟩ := List.mem_filter.mp isParagraph
  exact ⟨node, sections_subset forest roots inSection, rfl, tag⟩

end Document
end Imprint
