import Imprint.Proofs.CommentErasure
/-! # Forests without some of their nodes

Taking nodes out of their parents leaves every tree as it was but for what was taken out.  What is found under a key
afterwards, and where, can be told from the forest before and from the keys of the nodes that are gone. -/
set_option autoImplicit false
namespace Imprint.Xml
open Node

namespace Node

variable {gone : List Nat}

theorem flatMap_placeOf (gone keys : List Nat) :
    keys.flatMap (Forest.placeOf (fun _ => []) gone) = keys.filter fun number => !gone.contains number := by
  induction keys with
  | nil => rfl
  | cons number rest hypothesis =>
    rw [List.flatMap_cons, hypothesis, List.filter_cons, Forest.placeOf, List.map_nil, List.nil_append]
    cases gone.contains number <;> rfl

theorem children_pruned (node : Node) : (node.pruned gone).children = Forest.expandAll (fun _ => []) gone node.children :=
  Forest.children_expand node

theorem keys_children_pruned (node : Node) :
    (node.pruned gone).children.map key = (node.children.map key).filter fun number => !gone.contains number := by
  rw [children_pruned, Forest.keys_expandAll, flatMap_placeOf]

/-- The children of a tree without some nodes are those of the tree that are not gone, without the nodes below. -/
theorem children_pruned_eq (node : Node) : (node.pruned gone).children =
    (node.children.filter fun child => !gone.contains child.key).map (pruned gone) := by
  rw [children_pruned]
  induction node.children with
  | nil => rw [Forest.expandAll]; rfl
  | cons child rest hypothesis =>
    rw [Forest.expandAll, hypothesis, List.filter_cons, List.nil_append]
    cases gone.contains child.key <;> rfl

theorem mem_children_pruned {node found : Node} : found ∈ (node.pruned gone).children ↔
    ∃ child ∈ node.children, child.key ∉ gone ∧ child.pruned gone = found := by
  simp only [children_pruned_eq, List.mem_map, List.mem_filter, Bool.not_eq_true', ← Bool.not_eq_true,
    List.contains_iff_mem, and_assoc]

/-- The children that are gone or dropped are the same ones, whatever is gone before the others are dropped. -/
theorem mem_dropped_pruned {node : Node} {keep : Node → Bool} (same : ∀ child, keep (child.pruned gone) = keep child)
    {number : Nat} : number ∈ gone ++ ((node.pruned gone).children.filter fun child => !keep child).map key ↔
      number ∈ gone ++ (node.children.filter fun child => !keep child).map key := by
  simp only [List.mem_append, List.mem_map, List.mem_filter, mem_children_pruned]
  constructor
  · rintro (isGone | ⟨_, ⟨⟨child, direct, -, rfl⟩, dropped⟩, rfl⟩)
    · exact .inl isGone
    · exact .inr ⟨child, ⟨direct, same child ▸ dropped⟩, (key_pruned child).symm⟩
  · rintro (isGone | ⟨child, ⟨direct, dropped⟩, rfl⟩)
    · exact .inl isGone
    · by_cases isGone : child.key ∈ gone
      · exact .inl isGone
      · exact .inr ⟨_, ⟨⟨child, direct, isGone, rfl⟩, (same child).symm ▸ dropped⟩, key_pruned child⟩

theorem hasTag_pruned (node : Node) (tag : Tag) : (node.pruned gone).hasTag tag = node.hasTag tag :=
  hasTag_of_head (head_pruned node) tag

end Node

namespace Forest

/-- One forest comes out of another in which certain nodes have been taken out of their parents. -/
structure Stripped (gone : List Nat) (before after : Forest) : Prop where
  grown : Grown (placeOf (fun _ => []) gone) before after
  fresh : after.fresh = before.fresh

namespace Stripped

variable {gone more : List Nat} {before middle after forest : Forest}

theorem wellFormed (stripped : Stripped gone before after) : after.WellFormed :=
  stripped.grown.wellFormed

theorem refl (wellFormed : forest.WellFormed) : Stripped [] forest forest where
  grown := (Grown.refl wellFormed).congr fun _ _ => rfl
  fresh := rfl

theorem congr (stripped : Stripped gone before after)
    (same : ∀ number ∈ before.keys, number ∈ gone ↔ number ∈ more) : Stripped more before after where
  grown := stripped.grown.congr fun number inBefore => by
    simp only [placeOf, List.contains_iff_mem, same number inBefore]
  fresh := stripped.fresh

theorem trans (first : Stripped gone before middle) (second : Stripped more middle after) :
    Stripped (gone ++ more) before after where
  grown := (first.grown.trans second.grown).congr fun number _ => by
    by_cases early : number ∈ gone
    · simp [placeOf, early]
    · simp [placeOf, early]
  fresh := second.fresh.trans first.fresh

theorem detach (wellFormed : forest.WellFormed) (number : Nat) : Stripped [number] forest (forest.detach number) where
  grown := (wellFormed.detach_grown number).congr fun other _ => by simp [placeOf]
  fresh := detach_fresh forest number

theorem pruned_mem (stripped : Stripped gone before after) {node : Node} (member : node ∈ before.nodes) :
    node.pruned gone ∈ after.nodes :=
  stripped.grown.expand_mem member fun _ _ _ impossible => absurd impossible List.not_mem_nil

theorem origin (stripped : Stripped gone before after) {found : Node} (member : found ∈ after.nodes) :
    ∃ node ∈ before.nodes, found = node.pruned gone := by
  obtain ⟨node, inBefore, head, -⟩ := stripped.grown.origin (Nat.le_of_eq stripped.fresh) member
  exact ⟨node, inBefore, stripped.wellFormed.eq_of_key_eq member (stripped.pruned_mem inBefore)
    ((congrArg Head.key head).trans (key_pruned node).symm)⟩

/-- Every node is still there, without what is gone. -/
theorem find? (stripped : Stripped gone before after) (wellFormed : before.WellFormed) (number : Nat) :
    after.find? number = (before.find? number).map (pruned gone) := by
  cases found : before.find? number with
  | some node =>
    obtain ⟨member, rfl⟩ := wellFormed.find?_iff.mp found
    exact stripped.wellFormed.find?_iff.mpr ⟨stripped.pruned_mem member, key_pruned node⟩
  | none =>
    cases foundAfter : after.find? number with
    | none => rfl
    | some last =>
      obtain ⟨inAfter, rfl⟩ := mem_of_find? foundAfter
      obtain ⟨node, member, rfl⟩ := stripped.origin inAfter
      rw [key_pruned, wellFormed.find?_key member] at found
      cases found

/-- What is gone has no parent, and everything else has the one that it had. -/
theorem parent? (stripped : Stripped gone before after) (wellFormed : before.WellFormed) (number : Nat) :
    after.parent? number = if number ∈ gone then none else (before.parent? number).map (pruned gone) := by
  have held_iff (parent : Node) :
      number ∈ (parent.pruned gone).children.map key ↔ number ∈ parent.children.map key ∧ number ∉ gone := by
    rw [keys_children_pruned, List.mem_filter, Bool.not_eq_true', ← Bool.not_eq_true, List.contains_iff_mem]
  cases located : after.parent? number with
  | some parent =>
    obtain ⟨inAfter, held⟩ := mem_of_parent? located
    obtain ⟨node, inBefore, rfl⟩ := stripped.origin inAfter
    obtain ⟨heldBefore, stays⟩ := (held_iff node).mp held
    rw [if_neg stays, wellFormed.parent?_iff.mpr ⟨inBefore, heldBefore⟩]
    rfl
  | none =>
    by_cases isGone : number ∈ gone
    · rw [if_pos isGone]
    · rw [if_neg isGone]
      cases locatedBefore : before.parent? number with
      | none => rfl
      | some parent =>
        obtain ⟨inBefore, held⟩ := mem_of_parent? locatedBefore
        rw [stripped.wellFormed.parent?_iff.mpr ⟨stripped.pruned_mem inBefore, (held_iff parent).mpr ⟨held, isGone⟩⟩]
          at located
        cases located

theorem find?_some (stripped : Stripped gone before after) (wellFormed : before.WellFormed) {number : Nat} {node : Node}
    (found : before.find? number = some node) : after.find? number = some (node.pruned gone) := by
  rw [stripped.find? wellFormed, found, Option.map_some]

theorem parent?_some (stripped : Stripped gone before after) (wellFormed : before.WellFormed) {number : Nat}
    {parent : Node} (stays : number ∉ gone) (located : before.parent? number = some parent) :
    after.parent? number = some (parent.pruned gone) := by
  rw [stripped.parent? wellFormed, if_neg stays, located, Option.map_some]

theorem parent?_isSome (stripped : Stripped gone before after) (wellFormed : before.WellFormed) (number : Nat) :
    (after.parent? number).isSome = true ↔ (before.parent? number).isSome = true ∧ number ∉ gone := by
  rw [stripped.parent? wellFormed]
  split
  · simp [*]
  · simp [*]

end Stripped

/-! ## Dropping children -/

section Dropping

variable {forest : Forest} {number : Nat} {node : Node}

/-- An edit that adds no new nodes gives out no keys, and leaves what the change makes of the node. -/
theorem WellFormed.edit_keyed (wellFormed : forest.WellFormed) (found : forest.find? number = some node)
    (change : Node → Node) (kept : (change node).head = node.head) (keyed : 0 ∉ keysOf [change node]) :
    (forest.edit number change).fresh = forest.fresh ∧ change node ∈ (forest.edit number change).nodes := by
  obtain ⟨member, rfl⟩ := wellFormed.find?_iff.mp found
  have numbered : (change node).number forest.fresh = (change node, forest.fresh) := by
    have all := numberAll_keyed [change node] forest.fresh keyed
    simp only [numberAll, Prod.mk.injEq, List.cons.injEq, and_true] at all
    exact Prod.ext all.1 all.2
  obtain ⟨exchanged, fresh⟩ := wellFormed.edit_exchanged member kept
  rw [numbered] at exchanged fresh
  exact ⟨fresh, exchanged.new_mem⟩

/-- An edit that drops children of a node takes these out, and nothing else. -/
theorem WellFormed.edit_filter (wellFormed : forest.WellFormed) (found : forest.find? number = some node)
    (keep : Node → Bool) : Stripped ((node.children.filter fun child => !keep child).map key) forest
      (forest.edit number fun node => node.withChildren (node.children.filter keep)) := by
  obtain ⟨member, rfl⟩ := wellFormed.find?_iff.mp found
  have keyed : 0 ∉ keysOf [node.withChildren (node.children.filter keep)] := by
    intro zero
    obtain ⟨other, place, isZero⟩ := List.mem_map.mp zero
    refine wellFormed.zero_not_mem (mem_keys.mpr ?_)
    rw [allBelow_singleton, selfAndBelow_eq, children_withChildren] at place
    rcases List.mem_cons.mp place with rfl | below
    · exact ⟨node, member, isZero⟩
    · refine ⟨other, below_subset member ?_, isZero⟩
      rw [allBelow_singleton, selfAndBelow_eq]
      exact List.mem_cons_of_mem _ (allBelow_mono List.filter_sublist.subset below)
  have edited : Edited (· = node.key) forest
      (forest.edit node.key fun node => node.withChildren (node.children.filter keep)) :=
    wellFormed.edit_edited found rfl ((Revised.refl node.children).filter keep) rfl
  obtain ⟨fresh, inAfter⟩ := wellFormed.edit_keyed found
    (fun node => node.withChildren (node.children.filter keep)) rfl keyed
  have unique := children_nodup wellFormed.unique member
  refine ⟨⟨edited.wellFormed, edited.fresh, fun other inBefore => ?_, edited.old⟩, fresh⟩
  rw [flatMap_placeOf]
  by_cases here : other.key = node.key
  · obtain rfl := wellFormed.eq_of_key_eq inBefore member here
    refine ⟨_, inAfter, rfl, ?_⟩
    rw [children_withChildren, List.filter_map]
    refine congrArg _ (List.filter_congr fun child direct => ?_)
    have dropped : child.key ∈ (other.children.filter fun child => !keep child).map key ↔ keep child = false := by
      constructor
      · intro isDropped
        obtain ⟨last, among, same⟩ := List.mem_map.mp isDropped
        obtain ⟨alsoDirect, notKept⟩ := List.mem_filter.mp among
        rw [← List.inj_on_of_nodup_map unique alsoDirect direct same]
        exact Bool.not_eq_true' _ ▸ notKept
      · exact fun notKept => List.mem_map.mpr ⟨child, List.mem_filter.mpr ⟨direct, by rw [notKept]; rfl⟩, rfl⟩
    rw [Function.comp_apply, Bool.eq_iff_iff, Bool.not_eq_true', ← Bool.not_eq_true, List.contains_iff_mem, dropped,
      Bool.not_eq_false]
  · obtain ⟨found, place, head, outline⟩ := edited.found other inBefore
    refine ⟨found, place, head, ?_⟩
    rw [(children_of_outline (outline here)).2, List.filter_eq_self.mpr fun child held => ?_]
    rw [Bool.not_eq_true', ← Bool.not_eq_true, List.contains_iff_mem]
    intro dropped
    obtain ⟨last, isDropped, rfl⟩ := List.mem_map.mp dropped
    exact here (congrArg key (parent_unique wellFormed.unique inBefore member held
      (List.mem_map.mpr ⟨last, List.mem_of_mem_filter isDropped, rfl⟩)))

end Dropping

end Forest
end Imprint.Xml
