import Imprint.Proofs.Forest
/-! # Growing forests

Planting, moving and detaching keep every node with its head.  What becomes of the children of a node is
read off child by child: some new ones in front, and the child itself unless it is taken out. -/
set_option autoImplicit false
namespace Imprint.Xml.Forest
open Node

/-- One forest comes out of another in which every node keeps its head, and has what `place` makes of
each of its children. -/
structure Grown (place : Nat → List Nat) (before after : Forest) : Prop where
  wellFormed : after.WellFormed
  fresh : before.fresh ≤ after.fresh
  found : ∀ node ∈ before.nodes, ∃ found ∈ after.nodes, found.head = node.head ∧
    found.children.map key = (node.children.map key).flatMap place
  old : ∀ number ∈ after.keys, number < before.fresh → number ∈ before.keys

namespace Grown

variable {place other : Nat → List Nat} {before middle after : Forest}

theorem flatMap_singleton (keys : List Nat) : (keys.flatMap fun number => [number]) = keys := by
  induction keys with
  | nil => rfl
  | cons number rest hypothesis => simp [hypothesis]

theorem flatMap_eq_self {keys : List Nat} {place : Nat → List Nat}
    (same : ∀ number ∈ keys, place number = [number]) : keys.flatMap place = keys := by
  induction keys with
  | nil => rfl
  | cons number rest hypothesis =>
    rw [List.flatMap_cons, same number List.mem_cons_self,
      hypothesis fun other member => same other (List.mem_cons_of_mem _ member)]
    rfl

theorem refl (wellFormed : before.WellFormed) : Grown (fun number => [number]) before before where
  wellFormed := wellFormed
  fresh := Nat.le_refl _
  found node member := ⟨node, member, rfl, (flatMap_singleton _).symm⟩
  old _ member _ := member

theorem congr (grown : Grown place before after)
    (same : ∀ number ∈ before.keys, place number = other number) : Grown other before after where
  wellFormed := grown.wellFormed
  fresh := grown.fresh
  found node member := by
    obtain ⟨found, inAfter, head, children⟩ := grown.found node member
    refine ⟨found, inAfter, head, ?_⟩
    rw [children]
    refine List.flatMap_congr fun number held => same number ?_
    obtain ⟨child, direct, rfl⟩ := List.mem_map.mp held
    exact key_mem_keys (child_mem_allBelow member direct)
  old := grown.old

theorem trans (first : Grown place before middle) (second : Grown other middle after) :
    Grown (fun number => (place number).flatMap other) before after where
  wellFormed := second.wellFormed
  fresh := Nat.le_trans first.fresh second.fresh
  found node member := by
    obtain ⟨found, inMiddle, head, children⟩ := first.found node member
    obtain ⟨last, inAfter, lastHead, lastChildren⟩ := second.found found inMiddle
    refine ⟨last, inAfter, lastHead.trans head, ?_⟩
    rw [lastChildren, children, List.flatMap_assoc]
  old number member small :=
    first.old number (second.old number member (Nat.lt_of_lt_of_le small first.fresh)) small

end Grown

/-- Every node of a forest that only got its children placed comes from one that had them. -/
theorem Grown.origin {place : Nat → List Nat} {before after : Forest} (grown : Grown place before after)
    (noMore : after.fresh ≤ before.fresh) {found : Node} (member : found ∈ after.nodes) :
    ∃ origin ∈ before.nodes, found.head = origin.head ∧
      found.children.map key = (origin.children.map key).flatMap place := by
  have known := grown.old found.key (key_mem_keys member)
    (Nat.lt_of_lt_of_le (grown.wellFormed.key_lt member) noMore)
  obtain ⟨origin, inBefore, same⟩ := mem_keys.mp known
  obtain ⟨other, inAfter, head, children⟩ := grown.found origin inBefore
  have sameKey : other.key = found.key := (congrArg Head.key head).trans same
  obtain rfl := grown.wellFormed.eq_of_key_eq inAfter member sameKey
  exact ⟨origin, inBefore, head, children⟩

/-! ## Trees -/

mutual

/-- A tree with copies in front of some of its nodes, and without others. -/
def expand (copies : Nat → List Node) (gone : List Nat) : Node → Node
  | .mk key label lead children tail => .mk key label lead (expandAll copies gone children) tail

/-- Nodes with copies in front of some of them, and without others. -/
def expandAll (copies : Nat → List Node) (gone : List Nat) : List Node → List Node
  | [] => []
  | node :: rest =>
      copies node.key ++ (if gone.contains node.key then [] else [expand copies gone node]) ++
        expandAll copies gone rest

end

/-- The keys in the place of a key. -/
def placeOf (copies : Nat → List Node) (gone : List Nat) (number : Nat) : List Nat :=
  (copies number).map key ++ if gone.contains number then [] else [number]

section Expand

variable {copies : Nat → List Node} {gone : List Nat}

@[simp] theorem head_expand (node : Node) : (expand copies gone node).head = node.head := by
  cases node
  rw [expand]
  rfl

theorem children_expand (node : Node) :
    (expand copies gone node).children = expandAll copies gone node.children := by
  cases node
  rw [expand]
  rfl

theorem keys_expandAll (nodes : List Node) :
    (expandAll copies gone nodes).map key = (nodes.map key).flatMap (placeOf copies gone) := by
  induction nodes with
  | nil =>
    rw [expandAll]
    rfl
  | cons node rest hypothesis =>
    have sameKey : (expand copies gone node).key = node.key := congrArg Head.key (head_expand node)
    rw [expandAll, List.map_append, List.map_append, hypothesis, List.map_cons, List.flatMap_cons,
      placeOf]
    split
    · rfl
    · rw [List.map_cons, sameKey]
      rfl

mutual

theorem expand_nothing : (node : Node) → expand (fun _ => []) [] node = node
  | .mk key label lead children tail => by rw [expand, expandAll_nothing children]

theorem expandAll_nothing : (nodes : List Node) → expandAll (fun _ => []) [] nodes = nodes
  | [] => by rw [expandAll]
  | node :: rest => by
      rw [expandAll, expand_nothing node, expandAll_nothing rest]
      rfl

end

mutual

/-- Apart from keys, a tree depends on no more of the copies than what they hold. -/
theorem copied_expand {other : Nat → List Node} {missing : List Nat}
    (same : ∀ number, (copies number).map copied = (other number).map copied)
    (alike : ∀ number, number ∈ gone ↔ number ∈ missing) : (node : Node) →
    (expand copies gone node).copied = (expand other missing node).copied
  | .mk key label lead children tail => by
      rw [expand, expand, copied, copied, copied_expandAll same alike children]

theorem copied_expandAll {other : Nat → List Node} {missing : List Nat}
    (same : ∀ number, (copies number).map copied = (other number).map copied)
    (alike : ∀ number, number ∈ gone ↔ number ∈ missing) : (nodes : List Node) →
    copiedAll (expandAll copies gone nodes) = copiedAll (expandAll other missing nodes)
  | [] => by rw [expandAll, expandAll]
  | node :: rest => by
      have here : gone.contains node.key = missing.contains node.key := by
        rw [Bool.eq_iff_iff, List.contains_iff_mem, List.contains_iff_mem]
        exact alike node.key
      have others := copied_expandAll same alike rest
      rw [copiedAll_eq_map] at others ⊢
      rw [copiedAll_eq_map] at others ⊢
      rw [expandAll, expandAll, here]
      simp only [List.map_append, same node.key, others]
      split
      · rfl
      · rw [List.map_singleton, List.map_singleton, copied_expand same alike node]

end

theorem eq_of_keys_eq {forest : Forest} (wellFormed : forest.WellFormed) {first second : List Node}
    (inFirst : ∀ node ∈ first, node ∈ forest.nodes) (inSecond : ∀ node ∈ second, node ∈ forest.nodes)
    (same : first.map key = second.map key) : first = second := by
  induction first generalizing second with
  | nil => exact (List.map_eq_nil_iff.mp same.symm).symm
  | cons node rest hypothesis =>
    cases second with
    | nil => cases same
    | cons other others =>
      rw [List.map_cons, List.map_cons, List.cons.injEq] at same
      rw [wellFormed.eq_of_key_eq (inFirst _ List.mem_cons_self) (inSecond _ List.mem_cons_self)
        same.1, hypothesis (fun node member => inFirst node (List.mem_cons_of_mem _ member))
        (fun node member => inSecond node (List.mem_cons_of_mem _ member)) same.2]

theorem expandAll_mem {forest : Forest} {nodes : List Node}
    (copied : ∀ node ∈ nodes, ∀ copy ∈ copies node.key, copy ∈ forest.nodes)
    (expanded : ∀ node ∈ nodes, expand copies gone node ∈ forest.nodes) :
    ∀ node ∈ expandAll copies gone nodes, node ∈ forest.nodes := by
  induction nodes with
  | nil =>
    intro node member
    rw [expandAll] at member
    cases member
  | cons first others hypothesis =>
    intro node member
    rw [expandAll, List.mem_append, List.mem_append] at member
    rcases member with (member | member) | member
    · exact copied first List.mem_cons_self node member
    · split at member
      · cases member
      · rw [List.mem_singleton.mp member]
        exact expanded first List.mem_cons_self
    · exact hypothesis (fun other among => copied other (List.mem_cons_of_mem _ among))
        (fun other among => expanded other (List.mem_cons_of_mem _ among)) node member

/-- A tree is known as soon as it is known what became of each of its nodes. -/
theorem expand_mem_nodes {forest : Forest} (wellFormed : forest.WellFormed) (nodes : List Node) :
    (∀ node ∈ allBelow nodes, ∃ found ∈ forest.nodes, found.head = node.head ∧
      found.children.map key = (node.children.map key).flatMap (placeOf copies gone)) →
    (∀ node ∈ allBelow nodes, ∀ child ∈ node.children, ∀ copy ∈ copies child.key,
      copy ∈ forest.nodes) →
    ∀ node ∈ nodes, expand copies gone node ∈ forest.nodes := by
  -- From the leaves upwards: nodes in one forest with the same keys are the same, so what became of a node holds
  -- what became of its children.
  induction nodes using nodes_induction with
  | nil => intro _ _ node member; cases member
  | cons own label lead inner tail rest below beside =>
    intro found copied
    have here : Node.mk own label lead inner tail ∈ allBelow (Node.mk own label lead inner tail :: rest) :=
      mem_allBelow_of_mem List.mem_cons_self
    have inBelow : allBelow inner ⊆ allBelow (Node.mk own label lead inner tail :: rest) := allBelow_trans here
    have inBeside : allBelow rest ⊆ allBelow (Node.mk own label lead inner tail :: rest) :=
      allBelow_mono (List.subset_cons_self _ _)
    have inner_mem := below (fun node member => found node (inBelow member))
      fun node member => copied node (inBelow member)
    intro node member
    rcases List.mem_cons.mp member with rfl | member
    · obtain ⟨last, inForest, head, children⟩ := found _ here
      have sameChildren : last.children = expandAll copies gone inner := by
        refine eq_of_keys_eq wellFormed (fun child direct => child_mem_allBelow inForest direct)
          (expandAll_mem (copied _ here) inner_mem) ?_
        rw [children, keys_expandAll]
        rfl
      have same : expand copies gone (Node.mk own label lead inner tail) = last := by
        rw [expand, ← sameChildren]
        cases last
        cases head
        rfl
      rw [same]
      exact inForest
    · exact beside (fun node member => found node (inBeside member))
        (fun node member => copied node (inBeside member)) node member

end Expand

/-- A tree that comes out of one that grew. -/
theorem Grown.expand_mem {copies : Nat → List Node} {gone : List Nat} {before after : Forest}
    (grown : Grown (placeOf copies gone) before after) {node : Node} (member : node ∈ before.nodes)
    (copied : ∀ child ∈ allBelow node.children, ∀ copy ∈ copies child.key, copy ∈ after.nodes) :
    expand copies gone node ∈ after.nodes := by
  have inside : allBelow [node] ⊆ before.nodes := below_subset member
  refine expand_mem_nodes grown.wellFormed [node] (fun other place => grown.found other (inside place))
    (fun other place child direct => copied child ?_) node List.mem_cons_self
  rw [allBelow_singleton, selfAndBelow_eq] at place
  rcases List.mem_cons.mp place with rfl | place
  · exact mem_allBelow_of_mem direct
  · exact child_mem_allBelow place direct

/-- A node stays as it is, with everything below it, if nothing there is placed elsewhere. -/
theorem Grown.mem_nodes {place : Nat → List Nat} {before after : Forest} (grown : Grown place before after)
    {node : Node} (member : node ∈ before.nodes)
    (same : ∀ number ∈ keysOf node.children, place number = [number]) : node ∈ after.nodes := by
  have inside : allBelow [node] ⊆ before.nodes := below_subset member
  have placed : expand (fun _ => []) [] node ∈ after.nodes := by
    refine expand_mem_nodes grown.wellFormed [node] (fun other placed => ?_)
      (fun _ _ _ _ copy hit => absurd hit List.not_mem_nil) node List.mem_cons_self
    obtain ⟨found, inAfter, head, children⟩ := grown.found other (inside placed)
    refine ⟨found, inAfter, head, ?_⟩
    rw [children]
    refine List.flatMap_congr fun number held => ?_
    obtain ⟨child, direct, rfl⟩ := List.mem_map.mp held
    refine same _ (List.mem_map.mpr ⟨child, ?_, rfl⟩)
    rw [allBelow_singleton, selfAndBelow_eq] at placed
    rcases List.mem_cons.mp placed with rfl | placed
    · exact mem_allBelow_of_mem direct
    · exact child_mem_allBelow placed direct
  rwa [expand_nothing] at placed

/-! ## Planting -/

/-- What planting a tree adds to a forest: a copy of the tree with new keys. -/
structure Planted (tree : Node) (before : Forest) (copy : Node) (after : Forest) : Prop where
  trees : after.trees = before.trees ++ [copy]
  copied : copy.copied = tree.copied
  fresh : ∀ number ∈ keysOf [copy], before.fresh ≤ number ∧ number < after.fresh
  wellFormed : after.WellFormed
  advance : before.fresh ≤ after.fresh

theorem WellFormed.plant {forest : Forest} (wellFormed : forest.WellFormed) (positive : 0 < forest.fresh)
    (tree : Node) : ∃ copy after, forest.plant tree = (copy.key, after) ∧
      Planted tree forest copy after := by
  obtain ⟨copy, next, numbered⟩ : ∃ copy next, tree.copied.number forest.fresh = (copy, next) :=
    ⟨_, _, rfl⟩
  have one : numberAll [tree.copied] forest.fresh = ([copy], next) := by
    simp only [numberAll, numbered]
  obtain ⟨keys, amount⟩ := numberAll_keys [tree.copied] forest.fresh
  rw [one] at keys amount
  dsimp only at keys amount
  have unkeyed : ∀ number ∈ keysOf [tree.copied], number = 0 := unkeyed_copied tree
  have count (wanted : Nat) (keyed : 0 < wanted) : (keysOf [copy]).count wanted =
      if forest.fresh ≤ wanted ∧ wanted < next then 1 else 0 := by
    have absent : (keysOf [tree.copied]).count wanted = 0 :=
      List.count_eq_zero.mpr fun member => Nat.ne_of_gt keyed (unkeyed _ member)
    rw [keys, count_filled _ keyed, absent, ← amount, Nat.zero_add]
  have fresh : ∀ number ∈ keysOf [copy], forest.fresh ≤ number ∧ number < next := by
    intro number member
    rw [keys] at member
    rcases mem_filled member with ⟨old, nonzero⟩ | new
    · exact absurd (unkeyed _ old) nonzero
    · exact ⟨new.1, by rw [amount]; exact new.2⟩
  refine ⟨copy, ⟨forest.trees ++ [copy], next⟩, ?_, ⟨rfl, ?_, fresh, ?_, ?_⟩⟩
  · simp only [Forest.plant, numbered]
  · have same := copied_number tree.copied forest.fresh
    rw [numbered] at same
    exact same.trans (copied_copied tree)
  · rw [wellFormed_iff_count]
    intro wanted
    have old := (wellFormed_iff_count forest).mp wellFormed wanted
    have advance : forest.fresh ≤ next := by rw [amount]; exact Nat.le_add_right _ _
    have split : (Forest.mk (forest.trees ++ [copy]) next).keys.count wanted =
        forest.keys.count wanted + (keysOf [copy]).count wanted := by
      rw [Forest.keys, keysOf_append, List.count_append]
      rfl
    rw [split]
    rcases Nat.eq_zero_or_pos wanted with rfl | keyed
    · have none : (keysOf [copy]).count 0 = 0 :=
        List.count_eq_zero.mpr fun member => absurd (fresh 0 member).1 (by omega)
      rw [none]
      split_ifs at old ⊢ <;> omega
    · rw [count wanted keyed]
      show _ ≤ if 0 < wanted ∧ wanted < next then 1 else 0
      split_ifs at old ⊢ <;> omega
  · show forest.fresh ≤ next
    rw [amount]
    exact Nat.le_add_right _ _

namespace Planted

variable {tree copy : Node} {before after : Forest}

theorem nodes (planted : Planted tree before copy after) :
    after.nodes = before.nodes ++ copy.selfAndBelow := by
  rw [Forest.nodes, planted.trees, allBelow_append, allBelow_singleton]
  rfl

theorem copy_mem (planted : Planted tree before copy after) : copy ∈ after.nodes := by
  rw [planted.nodes]
  exact List.mem_append_right _ (mem_selfAndBelow_self copy)

theorem key_fresh (planted : Planted tree before copy after) : before.fresh ≤ copy.key :=
  (planted.fresh _ (by rw [keysOf_cons]; exact List.mem_cons_self)).1

theorem grown (planted : Planted tree before copy after) :
    Grown (fun number => [number]) before after where
  wellFormed := planted.wellFormed
  fresh := planted.advance
  found node member := by
    refine ⟨node, ?_, rfl, (Grown.flatMap_singleton _).symm⟩
    rw [planted.nodes]
    exact List.mem_append_left _ member
  old number member small := by
    obtain ⟨node, place, rfl⟩ := mem_keys.mp member
    rw [planted.nodes] at place
    rcases List.mem_append.mp place with place | place
    · exact key_mem_keys place
    · have new := planted.fresh node.key
        (List.mem_map.mpr ⟨node, by rwa [allBelow_singleton], rfl⟩)
      omega

end Planted

/-! ## Grafting -/

/-- Some trees with new keys were added to a forest, and every node is still there with its children. -/
structure Grafted (before : Forest) (new : List Node) (after : Forest) : Prop where
  grown : Grown (fun number => [number]) before after
  kept : ∀ tree ∈ before.trees, tree ∈ after.trees
  added : ∀ tree ∈ new, tree ∈ after.trees
  fresh : ∀ number ∈ keysOf new, before.fresh ≤ number
  unique : (new.map key).Nodup

theorem Grafted.refl {forest : Forest} (wellFormed : forest.WellFormed) : Grafted forest [] forest where
  grown := .refl wellFormed
  kept _ member := member
  added _ member := absurd member List.not_mem_nil
  fresh _ member := absurd member List.not_mem_nil
  unique := List.nodup_nil

theorem Grafted.append {before middle after : Forest} {first second : List Node}
    (one : Grafted before first middle) (two : Grafted middle second after) :
    Grafted before (first ++ second) after where
  grown := (one.grown.trans two.grown).congr fun _ _ => rfl
  kept tree member := two.kept tree (one.kept tree member)
  added tree member := by
    rcases List.mem_append.mp member with member | member
    · exact two.kept tree (one.added tree member)
    · exact two.added tree member
  fresh number member := by
    rw [keysOf_append] at member
    rcases List.mem_append.mp member with member | member
    · exact one.fresh number member
    · exact Nat.le_trans one.grown.fresh (two.fresh number member)
  unique := by
    rw [List.map_append]
    refine List.nodup_append.mpr ⟨one.unique, two.unique, fun number inFirst other inSecond same => ?_⟩
    obtain ⟨tree, member, rfl⟩ := List.mem_map.mp inFirst
    obtain ⟨later, laterMember, rfl⟩ := List.mem_map.mp inSecond
    have old := one.grown.wellFormed.key_lt (mem_allBelow_of_mem (one.added tree member))
    have new := two.fresh later.key
      (List.mem_map.mpr ⟨later, mem_allBelow_of_mem laterMember, rfl⟩)
    omega

/-- Every node that was there is still the same. -/
theorem Grafted.find? {before after : Forest} {new : List Node} (grafted : Grafted before new after)
    (wellFormed : before.WellFormed) {number : Nat} {node : Node}
    (found : before.find? number = some node) : after.find? number = some node := by
  obtain ⟨member, same⟩ := wellFormed.find?_iff.mp found
  exact grafted.grown.wellFormed.find?_iff.mpr ⟨grafted.grown.mem_nodes member fun _ _ => rfl, same⟩

/-- Nothing old comes below the copy in an edit, since old nodes keep their parents. -/
theorem Planted.new_below {tree copy : Node} {before planted after : Forest}
    (isPlanted : Planted tree before copy planted) (wellFormed : before.WellFormed)
    (edited : Edited (before.fresh ≤ ·) planted after) (nodes : List Node) :
    (∀ node ∈ nodes, node ∈ after.nodes ∧ before.fresh ≤ node.key) →
      ∀ number ∈ keysOf nodes, before.fresh ≤ number := by
  induction nodes using nodes_induction with
  | nil => intro _ number member; simp [keysOf] at member
  | cons own label lead inner tail rest below beside =>
    intro each number member
    rw [keysOf_cons, List.mem_cons, List.mem_append] at member
    obtain ⟨here, new⟩ := each _ List.mem_cons_self
    rcases member with rfl | member | member
    · exact new
    · refine below (fun child direct => ⟨child_mem_allBelow here direct, ?_⟩) number member
      by_contra small
      have old : child.key < planted.fresh := Nat.lt_of_lt_of_le (Nat.not_le.mp small) isPlanted.advance
      obtain ⟨origin, inForest, same, held⟩ := edited.children _ here child direct old
      obtain ⟨other, inOrigin, sameChild⟩ := List.mem_map.mp held
      rw [isPlanted.nodes] at inForest
      rcases List.mem_append.mp inForest with inForest | inForest
      · have bound := wellFormed.key_lt inForest
        omega
      · rw [← allBelow_singleton] at inForest
        have bound := isPlanted.fresh other.key
          (List.mem_map.mpr ⟨other, child_mem_allBelow inForest inOrigin, rfl⟩)
        omega
    · exact beside (fun node member => each node (List.mem_cons_of_mem _ member)) number member

/-- A planted copy that is edited, and nothing else. -/
theorem Planted.grafted {tree copy : Node} {before planted after : Forest}
    (isPlanted : Planted tree before copy planted) (wellFormed : before.WellFormed)
    (edited : Edited (before.fresh ≤ ·) planted after) :
    ∃ changed, changed.key = copy.key ∧ after.find? copy.key = some changed ∧
      Grafted before [changed] after := by
  obtain ⟨changed, outermost, head⟩ := edited.roots copy (by rw [isPlanted.trees]; simp)
  have sameKey : changed.key = copy.key := congrArg Head.key head
  have inAfter : changed ∈ after.nodes := mem_allBelow_of_mem outermost
  refine ⟨changed, sameKey, sameKey ▸ edited.wellFormed.find?_key inAfter, ⟨?_, fun other member => ?_,
    fun other member => ?_, ?_, by simp⟩⟩
  · refine ⟨edited.wellFormed, Nat.le_trans isPlanted.advance edited.fresh, fun node member => ?_,
      fun number member small => ?_⟩
    · have inPlanted : node ∈ planted.nodes := by
        rw [isPlanted.nodes]
        exact List.mem_append_left _ member
      obtain ⟨found, place, head, outline⟩ := edited.found node inPlanted
      have free : ¬ before.fresh ≤ node.key := Nat.not_le.mpr (wellFormed.key_lt member)
      refine ⟨found, place, head, ?_⟩
      rw [Grown.flatMap_singleton]
      exact (children_of_outline (outline free)).2
    · have old := edited.old number member (Nat.lt_of_lt_of_le small isPlanted.advance)
      exact isPlanted.grown.old number old small
  · have treePlanted : other ∈ planted.trees := by
      rw [isPlanted.trees]
      exact List.mem_append_left _ member
    refine edited.trees other treePlanted fun number inside new => ?_
    obtain ⟨node, place, rfl⟩ := List.mem_map.mp inside
    rw [allBelow_singleton] at place
    exact absurd (wellFormed.key_lt (selfAndBelow_subset member place)) (Nat.not_lt.mpr new)
  · rw [List.mem_singleton.mp member]
    exact outermost
  · refine isPlanted.new_below wellFormed edited [changed] fun node member => ?_
    rw [List.mem_singleton.mp member]
    exact ⟨inAfter, sameKey ▸ isPlanted.key_fresh⟩

/-! ## Other children -/

/-- What giving a node other children does to a forest. -/
structure Rewired (parent : Node) (children : List Node) (before after : Forest) : Prop where
  count : ∀ number, after.keys.count number + (keysOf parent.children).count number =
    before.keys.count number + (keysOf children).count number
  found : ∀ node ∈ before.nodes, node.key ≠ parent.key → node ∈ allBelow parent.children ∨
    ∃ found ∈ after.nodes, found.outline = node.outline
  parent : parent.withChildren children ∈ after.nodes
  below : allBelow children ⊆ after.nodes
  fresh : after.fresh = before.fresh

theorem WellFormed.rewired {forest : Forest} (wellFormed : forest.WellFormed) {parent : Node}
    (member : parent ∈ forest.nodes) {change : Node → Node} {children : List Node}
    (changed : change parent = parent.withChildren children) :
    Rewired parent children forest (forest.update parent.key change) := by
  obtain ⟨before, before', after, nodes, nodes', outlines⟩ :=
    wellFormed.update_nodes member change changed rfl
  rw [selfAndBelow_eq] at nodes nodes'
  refine ⟨fun number => ?_, fun node place different => ?_, ?_, fun node place => ?_, rfl⟩
  · have keysBefore : forest.keys =
        before.map key ++ (parent.key :: keysOf parent.children) ++ after.map key := by
      rw [Forest.keys, keysOf]
      show forest.nodes.map key = _
      rw [nodes]
      simp [keysOf]
    have keysAfter : (forest.update parent.key change).keys =
        before.map key ++ (parent.key :: keysOf children) ++ after.map key := by
      rw [Forest.keys, keysOf, ← map_key_eq_of_outline outlines]
      show (forest.update parent.key change).nodes.map key = _
      rw [nodes']
      simp [keysOf]
    rw [keysBefore, keysAfter]
    simp only [List.count_append, List.count_cons]
    omega
  · rw [nodes] at place
    simp only [List.mem_append, List.mem_cons] at place
    rcases place with (place | rfl | place) | place
    · obtain ⟨found, inAfter, outline⟩ := exists_outline outlines place
      exact .inr ⟨found, by rw [nodes']; simp [inAfter], outline⟩
    · exact absurd rfl different
    · exact .inl place
    · exact .inr ⟨node, by rw [nodes']; simp [place], rfl⟩
  · rw [nodes']
    simp
  · rw [nodes']
    simp only [List.mem_append, List.mem_cons]
    exact .inl (.inr (.inr place))

/-! ## Detaching -/

theorem flatMap_without (number : Nat) (keys : List Nat) :
    (keys.flatMap fun other => if other = number then [] else [other]) =
      keys.filter (· != number) := by
  induction keys with
  | nil => rfl
  | cons other rest hypothesis =>
    rw [List.flatMap_cons, hypothesis, List.filter_cons]
    by_cases same : other = number
    · simp [same]
    · simp [same]

theorem exists_child {number : Nat} {parent : Node} (held : number ∈ parent.children.map key) :
    ∃ first child rest, parent.children = first ++ child :: rest ∧ child.key = number := by
  obtain ⟨child, direct, same⟩ := List.mem_map.mp held
  obtain ⟨first, rest, split⟩ := List.append_of_mem direct
  exact ⟨first, child, rest, split, same⟩

theorem filter_absent {number : Nat} {nodes : List Node} (absent : number ∉ nodes.map key) :
    nodes.filter (fun other => other.key != number) = nodes := by
  rw [List.filter_eq_self]
  intro other member
  exact bne_iff_ne.mpr fun same => absent (List.mem_map.mpr ⟨other, member, same⟩)

/-- Where every key comes up as often as before, nothing is left to be shown of growth but what became of each node. -/
theorem WellFormed.grown_of_count {before after : Forest} {place : Nat → List Nat} (wellFormed : before.WellFormed)
    (count : ∀ number, after.keys.count number = before.keys.count number) (fresh : after.fresh = before.fresh)
    (found : ∀ node ∈ before.nodes, ∃ found ∈ after.nodes, found.head = node.head ∧
      found.children.map key = (node.children.map key).flatMap place) : Grown place before after where
  wellFormed := by
    rw [wellFormed_iff_count]
    intro number
    rw [count, fresh]
    exact (wellFormed_iff_count before).mp wellFormed number
  fresh := Nat.le_of_eq fresh.symm
  found := found
  old number member _ := List.count_pos_iff.mp (count number ▸ List.count_pos_iff.mpr member)

section Rearranging

variable {forest : Forest} (wellFormed : forest.WellFormed) {parent : Node} (inForest : parent ∈ forest.nodes)
  {number : Nat} (held : number ∈ parent.children.map key)
include wellFormed inForest held

/-- Whatever is put in the place of a child, other nodes than its parent do not notice. -/
theorem WellFormed.flatMap_elsewhere {node : Node} (member : node ∈ forest.nodes) (elsewhere : node.key ≠ parent.key)
    (instead : List Nat) : (node.children.map key).flatMap
      (fun other => if other = number then instead else [other]) = node.children.map key := by
  refine Grown.flatMap_eq_self fun other inside => if_neg ?_
  rintro rfl
  exact elsewhere (congrArg key (parent_unique wellFormed.unique member inForest inside held))

/-- What a node loses by taking out a child is the child with all that is below it. -/
theorem WellFormed.without_child : ∃ first child rest, parent.children = first ++ child :: rest ∧
    child.key = number ∧ forest.find? number = some child ∧
    Node.without number parent = parent.withChildren (first ++ rest) := by
  obtain ⟨first, child, rest, split, sameKey⟩ := exists_child held
  have childMember : child ∈ forest.nodes := child_mem_allBelow inForest (by rw [split]; simp)
  have unique := children_nodup wellFormed.unique inForest
  rw [split, List.map_append, List.map_cons, List.nodup_append, List.nodup_cons, sameKey] at unique
  have absentFirst : number ∉ first.map key := fun member => unique.2.2 _ member _ List.mem_cons_self rfl
  refine ⟨first, child, rest, split, sameKey, wellFormed.find?_iff.mpr ⟨childMember, sameKey⟩, ?_⟩
  rw [Node.without, split, List.filter_append, List.filter_cons, filter_absent absentFirst,
    filter_absent unique.2.1.1]
  simp [sameKey]

end Rearranging

/-- A node that has a parent is taken out with everything below it, which is kept as a tree of its own. -/
theorem WellFormed.detach_child {forest : Forest} (wellFormed : forest.WellFormed) {number : Nat} {parent : Node}
    (located : forest.parent? number = some parent) :
    Grown (fun other => if other = number then [] else [other]) forest (forest.detach number) := by
  obtain ⟨inForest, held⟩ := mem_of_parent? located
  obtain ⟨first, child, rest, split, -, found, without⟩ := wellFormed.without_child inForest held
  have rewired := wellFormed.rewired inForest without
  have detached : forest.detach number = (forest.update parent.key (Node.without number)).keep [child] := by
    simp only [detach, located, found]
  have nodes : (forest.detach number).nodes =
      (forest.update parent.key (Node.without number)).nodes ++ child.selfAndBelow := by
    rw [detached, Forest.nodes, keep, allBelow_append, allBelow_singleton]
    rfl
  have count (wanted : Nat) : (forest.detach number).keys.count wanted = forest.keys.count wanted := by
    have keys : (forest.detach number).keys =
        (forest.update parent.key (Node.without number)).keys ++ keysOf [child] := by
      rw [detached, Forest.keys, keep, keysOf_append]
      rfl
    have changed := rewired.count wanted
    have children : keysOf parent.children = keysOf first ++ (keysOf [child] ++ keysOf rest) := by
      rw [split, keysOf_append, ← List.singleton_append, keysOf_append]
    rw [children, keysOf_append] at changed
    rw [keys]
    simp only [List.count_append] at changed ⊢
    omega
  have fresh : (forest.detach number).fresh = forest.fresh := by
    rw [detached]
    exact rewired.fresh
  refine wellFormed.grown_of_count count fresh fun node member => ?_
  rw [nodes]
  by_cases here : node.key = parent.key
  · obtain rfl : node = parent := wellFormed.eq_of_key_eq member inForest here
    refine ⟨node.withChildren (first ++ rest), List.mem_append_left _ rewired.parent, rfl, ?_⟩
    rw [flatMap_without, ← without]
    simp [Node.without, List.filter_map]
    rfl
  · rw [wellFormed.flatMap_elsewhere inForest held member here]
    rcases rewired.found node member here with below | ⟨found, inAfter, outline⟩
    · refine ⟨node, List.mem_append.mpr ?_, rfl, rfl⟩
      rw [split, allBelow_append, ← List.singleton_append, allBelow_append, allBelow_singleton] at below
      simp only [List.mem_append] at below
      rcases below with below | below | below
      · exact .inl (rewired.below (by rw [allBelow_append]; exact List.mem_append_left _ below))
      · exact .inr below
      · exact .inl (rewired.below (by rw [allBelow_append]; exact List.mem_append_right _ below))
    · exact ⟨found, List.mem_append_left _ inAfter, congrArg Prod.fst outline, (children_of_outline outline).2⟩

/-- Taking a node out of its parent; a root stays where it is. -/
theorem WellFormed.detach_grown {forest : Forest} (wellFormed : forest.WellFormed) (number : Nat) :
    Grown (fun other => if other = number then [] else [other]) forest (forest.detach number) := by
  cases located : forest.parent? number with
  | none =>
    have same : forest.detach number = forest := by
      simp only [detach, located]
    rw [same]
    refine wellFormed.grown_of_count (fun _ => rfl) rfl fun node member => ⟨node, member, rfl, ?_⟩
    refine (Grown.flatMap_eq_self fun other held => if_neg ?_).symm
    rintro rfl
    rw [wellFormed.parent?_iff.mpr ⟨member, held⟩] at located
    cases located
  | some parent => exact wellFormed.detach_child located

theorem detach_fresh (forest : Forest) (number : Nat) : (forest.detach number).fresh = forest.fresh := by
  unfold detach
  split
  · rfl
  · rfl

theorem WellFormed.detach_root {forest : Forest} (wellFormed : forest.WellFormed) {tree : Node}
    (outermost : tree ∈ forest.trees) : forest.detach tree.key = forest := by
  simp only [detach, wellFormed.root_parent? outermost]

/-- What has been taken out of its parent is a tree of its own. -/
theorem WellFormed.detach_outermost {forest : Forest} (wellFormed : forest.WellFormed) {number : Nat}
    {node : Node} (found : (forest.detach number).find? number = some node) :
    node ∈ (forest.detach number).trees := by
  have grown := wellFormed.detach_grown number
  obtain ⟨member, rfl⟩ := grown.wellFormed.find?_iff.mp found
  refine (exists_parent member).resolve_right ?_
  rintro ⟨parent, inForest, direct⟩
  obtain ⟨origin, -, -, children⟩ := grown.origin (Nat.le_of_eq (detach_fresh forest node.key)) inForest
  have held : node.key ∈ parent.children.map key := List.mem_map.mpr ⟨node, direct, rfl⟩
  rw [children, flatMap_without, List.mem_filter] at held
  exact absurd rfl (bne_iff_ne.mp held.2)

/-! ## Moving -/

theorem insertBefore_split {anchor : Nat} (new : List Node) {first rest : List Node} {child : Node}
    (absent : anchor ∉ first.map key) (here : child.key = anchor) :
    Node.insertBefore anchor new (first ++ child :: rest) = first ++ (new ++ child :: rest) := by
  induction first with
  | nil => simp [Node.insertBefore, here]
  | cons node others hypothesis =>
    rw [List.map_cons, List.mem_cons, not_or] at absent
    rw [List.cons_append, Node.insertBefore, if_neg (Ne.symm absent.1), hypothesis absent.2]
    rfl

theorem flatMap_before (anchor root : Nat) {first rest : List Nat}
    (unique : (first ++ anchor :: rest).Nodup) :
    ((first ++ anchor :: rest).flatMap fun other => if other = anchor then [root, anchor] else [other]) =
      first ++ (root :: anchor :: rest) := by
  rw [List.nodup_append, List.nodup_cons] at unique
  have notFirst : ∀ other ∈ first,
      (if other = anchor then [root, anchor] else [other]) = [other] := fun other member =>
    if_neg (unique.2.2 other member anchor List.mem_cons_self)
  have notRest : ∀ other ∈ rest,
      (if other = anchor then [root, anchor] else [other]) = [other] := by
    intro other member
    refine if_neg ?_
    rintro rfl
    exact unique.2.1.1 member
  rw [List.flatMap_append, List.flatMap_cons, if_pos rfl, Grown.flatMap_eq_self notFirst,
    Grown.flatMap_eq_self notRest]
  rfl

theorem moveBefore_fresh (forest : Forest) (number anchor : Nat) :
    (forest.moveBefore number anchor).fresh = forest.fresh := by
  unfold moveBefore
  dsimp only
  split
  · exact detach_fresh forest number
  · rfl

/-- A forest is made up of one of its trees, and of what remains without it. -/
structure Remains (forest : Forest) (tree : Node) (remaining : Forest) : Prop where
  wellFormed : remaining.WellFormed
  fresh : remaining.fresh = forest.fresh
  nodes : ∀ node, node ∈ forest.nodes ↔ node ∈ remaining.nodes ∨ node ∈ tree.selfAndBelow
  count : ∀ number, forest.keys.count number = remaining.keys.count number + (keysOf [tree]).count number

theorem WellFormed.remains {forest : Forest} (wellFormed : forest.WellFormed) {tree : Node}
    (outermost : tree ∈ forest.trees) :
    Remains forest tree { forest with trees := forest.trees.filter fun other => other.key != tree.key } := by
  obtain ⟨earlier, later, trees⟩ := List.append_of_mem outermost
  have uniqueRoots : (forest.trees.map key).Nodup :=
    ((keys_perm forest.trees).nodup_iff.mp wellFormed.unique).of_append_left
  rw [trees, List.map_append, List.map_cons, List.nodup_append, List.nodup_cons] at uniqueRoots
  have absentEarlier : tree.key ∉ earlier.map key := fun member =>
    uniqueRoots.2.2 _ member _ List.mem_cons_self rfl
  have remainingTrees : (forest.trees.filter fun other => other.key != tree.key) = earlier ++ later := by
    rw [trees, List.filter_append, List.filter_cons, filter_absent absentEarlier,
      filter_absent uniqueRoots.2.1.1]
    simp
  rw [remainingTrees]
  have count (number : Nat) : forest.keys.count number =
      (keysOf (earlier ++ later)).count number + (keysOf [tree]).count number := by
    have whole : forest.keys = keysOf earlier ++ (keysOf [tree] ++ keysOf later) := by
      rw [Forest.keys, trees, keysOf_append, ← List.singleton_append, keysOf_append]
    rw [whole, keysOf_append]
    simp only [List.count_append]
    omega
  refine ⟨?_, rfl, fun node => ?_, count⟩
  · rw [wellFormed_iff_count]
    intro number
    have whole := (wellFormed_iff_count forest).mp wellFormed number
    rw [count] at whole
    exact Nat.le_trans (Nat.le_add_right _ _) whole
  · have whole : forest.nodes = allBelow earlier ++ (tree.selfAndBelow ++ allBelow later) := by
      rw [Forest.nodes, trees, allBelow_append, ← List.singleton_append, allBelow_append,
        allBelow_singleton]
    rw [whole, Forest.nodes, allBelow_append]
    simp only [List.mem_append]
    tauto

/-- Moving a root in front of a node that is elsewhere and has a parent. -/
theorem WellFormed.moveBefore_grown {forest : Forest} (wellFormed : forest.WellFormed) {tree : Node}
    (outermost : tree ∈ forest.trees) {anchor : Nat} (outside : anchor ∉ keysOf [tree])
    (located : (forest.parent? anchor).isSome = true) :
    Grown (fun other => if other = anchor then [tree.key, anchor] else [other]) forest
      (forest.moveBefore tree.key anchor) := by
  obtain ⟨parent, located⟩ := Option.isSome_iff_exists.mp located
  obtain ⟨inForest, held⟩ := mem_of_parent? located
  obtain ⟨first, child, rest, split, sameKey⟩ := exists_child held
  have found : forest.find? tree.key = some tree := wellFormed.find?_key (mem_allBelow_of_mem outermost)
  -- The anchor gets a new neighbour in the forest without the tree.
  have remains := wellFormed.remains outermost
  obtain ⟨remaining, isRemaining⟩ : ∃ remaining : Forest, remaining =
      { forest with trees := forest.trees.filter fun other => other.key != tree.key } := ⟨_, rfl⟩
  rw [← isRemaining] at remains
  have parentRemains : parent ∈ remaining.nodes := by
    refine ((remains.nodes parent).mp inForest).resolve_right fun inside => outside ?_
    rw [← allBelow_singleton] at inside
    obtain ⟨anchored, direct, same⟩ := List.mem_map.mp held
    exact List.mem_map.mpr ⟨anchored, child_mem_allBelow inside direct, same⟩
  have stillLocated : remaining.parent? anchor = some parent :=
    remains.wellFormed.parent?_iff.mpr ⟨parentRemains, held⟩
  have moved : forest.moveBefore tree.key anchor = remaining.update parent.key
      fun node => node.withChildren (Node.insertBefore anchor [tree] node.children) := by
    rw [isRemaining] at stillLocated ⊢
    simp only [moveBefore, wellFormed.detach_root outermost, found, stillLocated]
  have uniqueChildren := children_nodup wellFormed.unique inForest
  rw [split, List.map_append, List.map_cons, sameKey] at uniqueChildren
  have absent : anchor ∉ first.map key := fun member =>
    (List.nodup_append.mp uniqueChildren).2.2 _ member _ List.mem_cons_self rfl
  have inserted : parent.withChildren (Node.insertBefore anchor [tree] parent.children) =
      parent.withChildren (first ++ ([tree] ++ child :: rest)) := by
    rw [split, insertBefore_split [tree] absent sameKey]
  have rewired : Rewired parent (first ++ ([tree] ++ child :: rest)) remaining (remaining.update parent.key
      fun node => node.withChildren (Node.insertBefore anchor [tree] node.children)) :=
    remains.wellFormed.rewired parentRemains inserted
  rw [← moved] at rewired
  have count (number : Nat) : (forest.moveBefore tree.key anchor).keys.count number = forest.keys.count number := by
    have changed := rewired.count number
    rw [split, keysOf_append, keysOf_append, keysOf_append] at changed
    rw [remains.count]
    simp only [List.count_append] at changed ⊢
    omega
  refine wellFormed.grown_of_count count (rewired.fresh.trans remains.fresh) fun node member => ?_
  by_cases here : node.key = parent.key
  · obtain rfl : node = parent := wellFormed.eq_of_key_eq member inForest here
    refine ⟨_, rewired.parent, rfl, ?_⟩
    rw [split, List.map_append, List.map_cons, sameKey, flatMap_before _ _ uniqueChildren]
    simp [sameKey]
  · rw [wellFormed.flatMap_elsewhere inForest held member here]
    have newBelow : allBelow (first ++ ([tree] ++ child :: rest)) =
        allBelow first ++ (tree.selfAndBelow ++ allBelow (child :: rest)) := by
      rw [allBelow_append, allBelow_append, allBelow_singleton]
    rcases (remains.nodes node).mp member with stays | inTree
    · rcases rewired.found node stays here with below | ⟨found, inAfter, outline⟩
      · refine ⟨node, rewired.below ?_, rfl, rfl⟩
        rw [split, allBelow_append] at below
        rw [newBelow]
        simp only [List.mem_append] at below ⊢
        tauto
      · exact ⟨found, inAfter, congrArg Prod.fst outline, (children_of_outline outline).2⟩
    · refine ⟨node, rewired.below ?_, rfl, rfl⟩
      rw [newBelow]
      exact List.mem_append_right _ (List.mem_append_left _ inTree)

/-- Other roots stay as they are unless the anchor is below them. -/
theorem WellFormed.moveBefore_trees {forest : Forest} (wellFormed : forest.WellFormed)
    {moved tree : Node} {anchor : Nat} (isRoot : moved ∈ forest.trees) (outermost : tree ∈ forest.trees)
    (other : tree.key ≠ moved.key) (outside : anchor ∉ keysOf [tree]) :
    tree ∈ (forest.moveBefore moved.key anchor).trees := by
  unfold moveBefore
  rw [wellFormed.detach_root isRoot]
  dsimp only
  split
  · rename_i node parent found located
    obtain ⟨remains, held⟩ := mem_of_parent? located
    have inForest : parent ∈ forest.nodes := allBelow_mono (List.filter_sublist.subset) remains
    refine update_trees (List.mem_filter.mpr ⟨outermost, by simpa using other⟩) fun inside => ?_
    obtain ⟨below, inTree, same⟩ := List.mem_map.mp inside
    have inNodes : below ∈ forest.nodes := by
      rw [allBelow_singleton] at inTree
      exact selfAndBelow_subset outermost inTree
    obtain rfl : below = parent := wellFormed.eq_of_key_eq inNodes inForest same
    obtain ⟨child, direct, rfl⟩ := List.mem_map.mp held
    exact outside (List.mem_map.mpr ⟨child, child_mem_allBelow inTree direct, rfl⟩)
  · exact outermost

/-- A node that stays in its place still has a parent. -/
theorem Grown.parent?_isSome {place : Nat → List Nat} {before after : Forest}
    (grown : Grown place before after) {number : Nat} (located : (before.parent? number).isSome = true)
    (stays : number ∈ place number) : (after.parent? number).isSome = true := by
  obtain ⟨parent, located⟩ := Option.isSome_iff_exists.mp located
  obtain ⟨member, held⟩ := mem_of_parent? located
  obtain ⟨found, inAfter, -, children⟩ := grown.found parent member
  have kept : number ∈ found.children.map key := by
    rw [children]
    exact List.mem_flatMap.mpr ⟨number, held, stays⟩
  rw [grown.wellFormed.parent?_iff.mpr ⟨inAfter, kept⟩]
  rfl

/-- Moving several roots in front of a node puts them there in their order. -/
theorem moveAllBefore_grown {anchor : Nat} (trees : List Node) : ∀ {forest : Forest},
    forest.WellFormed → (∀ tree ∈ trees, tree ∈ forest.trees) → (trees.map key).Nodup →
    anchor ∉ keysOf trees → (forest.parent? anchor).isSome = true →
    Grown (fun other => if other = anchor then trees.map key ++ [anchor] else [other]) forest
      ((trees.map key).foldl (fun forest root => forest.moveBefore root anchor) forest) := by
  induction trees with
  | nil =>
    intro forest wellFormed _ _ _ _
    refine (Grown.refl wellFormed).congr fun other _ => ?_
    split
    · rename_i same
      rw [same]
      rfl
    · rfl
  | cons tree rest hypothesis =>
    intro forest wellFormed outermost unique outside located
    rw [List.map_cons, List.nodup_cons] at unique
    have outsideTree : anchor ∉ keysOf [tree] := fun inside =>
      outside (keysOf_subset List.mem_cons_self inside)
    have outsideRest : anchor ∉ keysOf rest := fun inside => outside (by
      rw [← List.singleton_append, keysOf_append]
      exact List.mem_append_right _ inside)
    have moved := wellFormed.moveBefore_grown (outermost tree List.mem_cons_self) outsideTree located
    have stillThere (other : Node) (member : other ∈ rest) :
        other ∈ (forest.moveBefore tree.key anchor).trees := by
      refine wellFormed.moveBefore_trees (outermost tree List.mem_cons_self)
        (outermost other (List.mem_cons_of_mem _ member)) ?_ ?_
      · intro same
        exact unique.1 (same ▸ List.mem_map.mpr ⟨other, member, rfl⟩)
      · exact fun inside => outsideRest (keysOf_subset member inside)
    have locatedAfter := moved.parent?_isSome located (by simp)
    have others := hypothesis moved.wellFormed stillThere unique.2 outsideRest locatedAfter
    refine (moved.trans others).congr fun other _ => ?_
    by_cases here : other = anchor
    · have different : tree.key ≠ anchor := by
        rintro rfl
        exact outsideTree (by rw [keysOf_cons]; exact List.mem_cons_self)
      simp [here, different]
    · simp [here]

/-- Taking several nodes out of their parents. -/
theorem detachAll_grown (numbers : List Nat) : ∀ {forest : Forest}, forest.WellFormed →
    Grown (fun other => if other ∈ numbers then [] else [other]) forest
      (numbers.foldl Forest.detach forest) := by
  induction numbers with
  | nil =>
    intro forest wellFormed
    exact (Grown.refl wellFormed).congr fun other _ => (if_neg List.not_mem_nil).symm
  | cons number rest hypothesis =>
    intro forest wellFormed
    have first := wellFormed.detach_grown number
    refine (first.trans (hypothesis first.wellFormed)).congr fun other _ => ?_
    by_cases here : other = number
    · simp [here]
    · simp [here]

theorem detachAll_fresh (numbers : List Nat) (forest : Forest) :
    (numbers.foldl detach forest).fresh = forest.fresh := by
  induction numbers generalizing forest with
  | nil => rfl
  | cons number rest hypothesis => rw [List.foldl_cons, hypothesis, detach_fresh]

/-- What has been taken out has no parent. -/
theorem detachAll_apart {forest : Forest} (wellFormed : forest.WellFormed) {numbers : List Nat} {number : Nat}
    (member : number ∈ numbers) : (numbers.foldl detach forest).parent? number = none := by
  have grown := detachAll_grown numbers wellFormed
  rw [parent?_eq, List.find?_eq_none]
  intro parent inForest held
  obtain ⟨origin, -, -, children⟩ := grown.origin (Nat.le_of_eq (detachAll_fresh numbers forest)) inForest
  have placed := (holds_iff number parent).mp held
  rw [children] at placed
  obtain ⟨other, -, stays⟩ := List.mem_flatMap.mp placed
  split at stays
  · cases stays
  · rename_i absent
    obtain rfl := List.mem_singleton.mp stays
    exact absent member

theorem detach_apart {forest : Forest} (wellFormed : forest.WellFormed) (number : Nat) :
    (forest.detach number).parent? number = none :=
  detachAll_apart wellFormed (List.mem_singleton_self number)

end Imprint.Xml.Forest
