import Imprint.Proofs.DetachedNodes
import Imprint.Proofs.SparedNodes
/-! # The order of siblings

Whatever edits a document, two nodes that were there before stand next to each other only in the order they had.
They may be taken away from each other, but they never change places. -/
set_option autoImplicit false
namespace Imprint.Xml
open Node

namespace Node

variable {touched : Nat → Prop} {old new : List Node} {first second bound : Nat}

/-- Two keys that pass a test are in the order of all that pass it. -/
theorem pair_sublist {test : Nat → Bool} {keys others : List Nat} (order : (keys.filter test).Sublist others)
    (passes : test first = true) (passesToo : test second = true) (pair : [first, second].Sublist keys) :
    [first, second].Sublist others := by
  have kept := pair.filter test
  rw [List.filter_cons_of_pos passes, List.filter_cons_of_pos passesToo, List.filter_nil] at kept
  exact kept.trans order

theorem exists_pair {nodes : List Node} (pair : [first, second].Sublist (nodes.map key)) :
    ∃ one other, [one, other].Sublist nodes ∧ one.key = first ∧ other.key = second := by
  obtain ⟨kept, isKept, keys⟩ := List.sublist_map_iff.mp pair
  obtain ⟨one, others, rfl, sameOne, rest⟩ := List.map_eq_cons_iff.mp keys.symm
  obtain ⟨other, nothing, rfl, sameOther, none⟩ := List.map_eq_cons_iff.mp rest
  obtain rfl := List.map_eq_nil_iff.mp none
  exact ⟨one, other, isKept, sameOne, sameOther⟩

/-- The outermost nodes that have keys are in their old order after an edit. -/
theorem Revised.outermost_order (revised : Revised touched old new) :
    ((new.map key).filter (· != 0)).Sublist (old.map key) := by
  induction revised with
  | nil => exact List.Sublist.slnil
  | keep node rest hypothesis =>
    rw [List.map_cons, List.map_cons, List.filter_cons]
    split
    · exact hypothesis.cons_cons _
    · exact hypothesis.cons _
  | drop node rest hypothesis => exact hypothesis.cons _
  | add node unkeyed rest hypothesis =>
    have zero : node.key = 0 := unkeyed _ (by simp [keysOf, allBelow_cons])
    rwa [List.map_cons, zero, List.filter_cons_of_neg (by simp)]
  | inside node may below rest inner hypothesis =>
    rw [List.map_cons, List.map_cons, key_withChildren, List.filter_cons]
    split
    · exact hypothesis.cons_cons _
    · exact hypothesis.cons _

/-- Two children of a node after an edit were children of one node before, in the same order. -/
theorem Revised.children_order (revised : Revised touched old new) (keyed : first ≠ 0) (keyedToo : second ≠ 0) :
    ∀ found ∈ allBelow new, [first, second].Sublist (found.children.map key) →
      ∃ node ∈ allBelow old, [first, second].Sublist (node.children.map key) := by
  induction revised with
  | nil => intro found member; simp at member
  | keep node rest hypothesis =>
    intro found member pair
    rw [allBelow_cons, List.mem_cons, List.mem_append] at member
    rcases member with here | inside | outside
    · exact ⟨found, by simp [allBelow_cons, here], pair⟩
    · exact ⟨found, by simp [allBelow_cons, inside], pair⟩
    · obtain ⟨origin, place, order⟩ := hypothesis found outside pair
      exact ⟨origin, by simp [allBelow_cons, place], order⟩
  | drop node rest hypothesis =>
    intro found member pair
    obtain ⟨origin, place, order⟩ := hypothesis found member pair
    exact ⟨origin, by simp [allBelow_cons, place], order⟩
  | @add old new node unkeyed rest hypothesis =>
    intro found member pair
    have split : allBelow (node :: new) = allBelow [node] ++ allBelow new := allBelow_append [node] new
    rw [split] at member
    rcases List.mem_append.mp member with inside | outside
    · obtain ⟨child, direct, same⟩ := List.mem_map.mp (pair.subset List.mem_cons_self)
      exact absurd (unkeyed first (List.mem_map.mpr ⟨child, child_mem_allBelow inside direct, same⟩)) keyed
    · exact hypothesis found outside pair
  | inside node may below rest inner hypothesis =>
    intro found member pair
    rw [allBelow_cons, children_withChildren, List.mem_cons, List.mem_append] at member
    rcases member with rfl | inside | outside
    · refine ⟨node, by simp [allBelow_cons], ?_⟩
      exact pair_sublist below.outermost_order (by simpa using keyed) (by simpa using keyedToo) pair
    · obtain ⟨origin, place, order⟩ := inner found inside pair
      exact ⟨origin, by simp [allBelow_cons, place], order⟩
    · obtain ⟨origin, place, order⟩ := hypothesis found outside pair
      exact ⟨origin, by simp [allBelow_cons, place], order⟩

/-- The outermost nodes that had keys are in their old order when the others have been numbered. -/
theorem numberAll_outermost_order (nodes : List Node) : ∀ fresh, bound ≤ fresh →
    (((numberAll nodes fresh).1.map key).filter (· < bound)).Sublist (nodes.map key) := by
  induction nodes with
  | nil => exact fun fresh _ => List.Sublist.slnil
  | cons node rest hypothesis =>
    intro fresh large
    cases node with
    | mk own label lead inner tail =>
      obtain ⟨given, next, isGiven⟩ : ∃ given next, (if own = 0 then (fresh, fresh + 1) else (own, fresh)) =
          (given, next) := ⟨_, _, rfl⟩
      have kept : (given = own ∨ bound ≤ given) ∧ bound ≤ next := by
        split_ifs at isGiven <;> cases isGiven <;> omega
      have others := hypothesis (numberAll inner next).2 (by rw [(numberAll_keys inner next).2]; omega)
      simp only [numberAll, number, isGiven, List.map_cons, Node.key]
      rw [List.filter_cons]
      split
      next small =>
        rw [kept.1.resolve_right (by simpa using small)]
        exact others.cons_cons own
      next => exact others.cons own

/-- Two children of a numbered node are in the order that they had before. -/
theorem numberAll_children_order (small : first < bound) (smallToo : second < bound) (nodes : List Node) :
    ∀ fresh, bound ≤ fresh → ∀ numbered ∈ allBelow (numberAll nodes fresh).1,
      [first, second].Sublist (numbered.children.map key) →
        ∃ node ∈ allBelow nodes, [first, second].Sublist (node.children.map key) := by
  induction nodes using nodes_induction with
  | nil => intro fresh large numbered member; simp [numberAll] at member
  | cons own label lead inner tail rest below beside =>
    intro fresh large numbered member pair
    obtain ⟨given, next, isGiven⟩ : ∃ given next, (if own = 0 then (fresh, fresh + 1) else (own, fresh)) =
        (given, next) := ⟨_, _, rfl⟩
    have advance : bound ≤ next := by
      split_ifs at isGiven <;> cases isGiven <;> omega
    simp only [numberAll, allBelow_cons, number, isGiven, List.mem_cons, List.mem_append] at member
    rcases member with rfl | inside | outside
    · refine ⟨mk own label lead inner tail, by simp [allBelow_cons], ?_⟩
      exact pair_sublist (numberAll_outermost_order inner next advance) (by simpa using small)
        (by simpa using smallToo) pair
    · obtain ⟨node, place, order⟩ := below next advance numbered inside pair
      exact ⟨node, by simp [allBelow_cons, Node.children, place], order⟩
    · have further : bound ≤ (numberAll inner next).2 := by
        rw [(numberAll_keys inner next).2]
        omega
      obtain ⟨node, place, order⟩ := beside _ further numbered outside pair
      exact ⟨node, by simp [allBelow_cons, place], order⟩

theorem sublist_allBelow (nodes : List Node) : nodes.Sublist (allBelow nodes) := by
  induction nodes with
  | nil => simp
  | cons node rest hypothesis =>
    rw [allBelow_cons]
    exact (hypothesis.trans (List.sublist_append_right _ _)).cons_cons node

theorem allBelow_children_sublist {node : Node} {nodes : List Node} :
    node ∈ allBelow nodes → (allBelow node.children).Sublist (allBelow nodes) := by
  induction nodes using nodes_induction with
  | nil => intro member; simp at member
  | cons own label lead inner tail rest below beside =>
    intro member
    rw [allBelow_cons, List.mem_cons, List.mem_append] at member
    rw [allBelow_cons]
    rcases member with rfl | inside | outside
    · exact (List.sublist_append_left _ _).cons _
    · exact ((below inside).trans (List.sublist_append_left _ _)).cons _
    · exact ((beside outside).trans (List.sublist_append_right _ _)).cons _

end Node

namespace Forest

/-- Two nodes are children of the same one, the first of them in front of the second. -/
def Precedes (forest : Forest) (first second : Nat) : Prop :=
  ∃ parent ∈ forest.nodes, [first, second].Sublist (parent.children.map key)

/-- One forest comes out of another in which every node keeps its head, and no two nodes with keys below a bound
have got into a new order. -/
structure Ordered (bound : Nat) (before after : Forest) : Prop where
  wellFormed : after.WellFormed
  fresh : before.fresh ≤ after.fresh
  heads : ∀ node ∈ before.nodes, ∃ found ∈ after.nodes, found.head = node.head
  precedes : ∀ first < bound, ∀ second < bound, after.Precedes first second → before.Precedes first second

section Ordered

variable {bound : Nat} {before middle after forest : Forest}

theorem Ordered.refl (wellFormed : before.WellFormed) : Ordered bound before before where
  wellFormed := wellFormed
  fresh := Nat.le_refl _
  heads node member := ⟨node, member, rfl⟩
  precedes _ _ _ _ order := order

theorem Ordered.trans (first : Ordered bound before middle) (second : Ordered bound middle after) :
    Ordered bound before after where
  wellFormed := second.wellFormed
  fresh := Nat.le_trans first.fresh second.fresh
  heads node member := by
    obtain ⟨found, inMiddle, head⟩ := first.heads node member
    obtain ⟨last, inAfter, lastHead⟩ := second.heads found inMiddle
    exact ⟨last, inAfter, lastHead.trans head⟩
  precedes one small other smallToo order :=
    first.precedes one small other smallToo (second.precedes one small other smallToo order)

theorem Ordered.tagged (ordered : Ordered bound before after) {tag : Tag} {number : Nat}
    (isTagged : before.Tagged tag number) : after.Tagged tag number := by
  obtain ⟨node, member, rfl, isTag⟩ := isTagged
  obtain ⟨found, inAfter, head⟩ := ordered.heads node member
  exact ⟨found, inAfter, congrArg Head.key head, (hasTag_of_head head tag).trans isTag⟩

theorem Edited.heads {touched : Nat → Prop} (edited : Edited touched before after) :
    ∀ node ∈ before.nodes, ∃ found ∈ after.nodes, found.head = node.head := by
  intro node member
  obtain ⟨found, inAfter, head, -⟩ := edited.found node member
  exact ⟨found, inAfter, head⟩

theorem Grown.heads {place : Nat → List Nat} (grown : Grown place before after) :
    ∀ node ∈ before.nodes, ∃ found ∈ after.nodes, found.head = node.head := by
  intro node member
  obtain ⟨found, inAfter, head, -⟩ := grown.found node member
  exact ⟨found, inAfter, head⟩

/-- Where no node is touched, only nodes with new keys are added. -/
theorem Edited.ordered (edited : Edited (fun _ => False) before after) (old : bound ≤ before.fresh) :
    Ordered bound before after where
  wellFormed := edited.wellFormed
  fresh := edited.fresh
  heads := edited.heads
  precedes := by
    rintro first small second - ⟨parent, inAfter, pair⟩
    obtain ⟨child, direct, rfl⟩ := List.mem_map.mp (pair.subset List.mem_cons_self)
    obtain ⟨node, inBefore, same, -⟩ := edited.children parent inAfter child direct (Nat.lt_of_lt_of_le small old)
    obtain ⟨found, foundInAfter, -, outline⟩ := edited.found node inBefore
    obtain ⟨sameKey, sameChildren⟩ := children_of_outline (outline id)
    obtain rfl : found = parent := edited.wellFormed.eq_of_key_eq foundInAfter inAfter (sameKey.trans same)
    exact ⟨node, inBefore, sameChildren ▸ pair⟩

/-- An edit leaves children in their order. -/
theorem WellFormed.edit_ordered (wellFormed : forest.WellFormed) {touched : Nat → Prop} {number : Nat}
    {change : Node → Node} {node : Node} (found : forest.find? number = some node)
    (kept : (change node).head = node.head) (revised : Revised touched node.children (change node).children)
    (old : bound ≤ forest.fresh) : Ordered bound forest (forest.edit number change) := by
  have edited := wellFormed.edit_edited found kept (revised.mono fun _ _ => trivial) trivial
  obtain ⟨member, rfl⟩ := wellFormed.find?_iff.mp found
  refine ⟨edited.wellFormed, edited.fresh, edited.heads, ?_⟩
  rintro first small second smallToo ⟨parent, place, pair⟩
  have keyed : ∀ number ∈ [first, second], number ≠ 0 := by
    intro number among
    obtain ⟨child, direct, rfl⟩ := List.mem_map.mp (pair.subset among)
    exact Nat.pos_iff_ne_zero.mp (edited.wellFormed.key_pos (child_mem_allBelow place direct))
  have keyedFirst := keyed first (by simp)
  have keyedSecond := keyed second (by simp)
  rcases (wellFormed.edit_exchanged member kept).1.origin place with inside | ⟨origin, isOrigin, outline⟩
  · -- Numbering keeps the order in the changed node, and the change keeps the order there was before it.
    have numbered : parent ∈ allBelow (numberAll [change node] forest.fresh).1 := by
      simpa [numberAll, allBelow_singleton] using inside
    obtain ⟨origin, isOrigin, order⟩ := numberAll_children_order (Nat.lt_of_lt_of_le small old)
      (Nat.lt_of_lt_of_le smallToo old) [change node] forest.fresh (Nat.le_refl _) parent numbered pair
    rw [allBelow_singleton, selfAndBelow_eq, List.mem_cons] at isOrigin
    rcases isOrigin with rfl | below
    · refine ⟨node, member, ?_⟩
      exact pair_sublist revised.outermost_order (by simpa using keyedFirst) (by simpa using keyedSecond) order
    · obtain ⟨last, isLast, held⟩ := revised.children_order keyedFirst keyedSecond origin below order
      exact ⟨last, allBelow_trans member isLast, held⟩
  · exact ⟨origin, isOrigin, (children_of_outline outline).2 ▸ pair⟩

theorem WellFormed.detach_ordered (wellFormed : forest.WellFormed) (number : Nat) :
    Ordered bound forest (forest.detach number) := by
  have grown := wellFormed.detach_grown number
  refine ⟨grown.wellFormed, grown.fresh, grown.heads, ?_⟩
  rintro first - second - ⟨parent, inAfter, pair⟩
  obtain ⟨origin, inForest, -, children⟩ := grown.origin (Nat.le_of_eq (detach_fresh forest number)) inAfter
  rw [children, flatMap_without] at pair
  exact ⟨origin, inForest, pair.trans List.filter_sublist⟩

/-- What is moved is new, and all others stay in their order. -/
theorem WellFormed.moveBefore_ordered (wellFormed : forest.WellFormed) {number : Nat} (new : bound ≤ number)
    (anchor : Nat) : Ordered bound forest (forest.moveBefore number anchor) := by
  rcases wellFormed.moveBefore_detached number anchor with
    same | ⟨node, outermost, rfl, outside, located, same⟩
  · rw [same]
    exact .refl wellFormed
  · have freed : Ordered bound forest (forest.detach node.key) := wellFormed.detach_ordered node.key
    have grown := freed.wellFormed.moveBefore_grown outermost outside located
    refine freed.trans ?_
    rw [same]
    refine ⟨grown.wellFormed, grown.fresh, grown.heads, ?_⟩
    rintro first small second smallToo ⟨parent, inAfter, pair⟩
    obtain ⟨origin, inForest, -, children⟩ := grown.origin (Nat.le_of_eq (moveBefore_fresh _ _ _)) inAfter
    have order : ((parent.children.map key).filter (· < bound)).Sublist (origin.children.map key) := by
      rw [children, filter_flatMap_before anchor (Nat.not_lt.mpr new)]
      exact List.filter_sublist
    exact ⟨origin, inForest, pair_sublist order (by simpa using small) (by simpa using smallToo) pair⟩

end Ordered

end Forest
end Imprint.Xml
