import Imprint.Proofs.DirectiveCalls
import Imprint.Proofs.Frames
/-! # Trees that directives cannot reach

A handler is asked for paragraphs near the one it is bound to: that paragraph, its siblings, or a row or
table around it.  None of them is in a tree that the paragraph is not in.  So a tree outside of all
sections is out of reach for every directive. -/
set_option autoImplicit false
namespace Imprint
open Imprint.Action Xml Document Node

namespace Xml.Forest

variable {forest : Forest} (wellFormed : forest.WellFormed) {tree : Node} (member : tree ∈ forest.trees)

include wellFormed member

/-- A node with a key from a tree is in the tree. -/
theorem WellFormed.mem_tree {node : Node} (inForest : node ∈ forest.nodes)
    (inside : node.key ∈ keysOf [tree]) : node ∈ tree.selfAndBelow := by
  obtain ⟨other, place, same⟩ := List.mem_map.mp inside
  rw [allBelow_singleton] at place
  have otherInForest : other ∈ forest.nodes := selfAndBelow_subset member place
  rwa [← wellFormed.eq_of_key_eq otherInForest inForest same]

theorem WellFormed.parent_mem_tree {parent child : Node} (inForest : parent ∈ forest.nodes)
    (direct : child ∈ parent.children) (inside : child.key ∈ keysOf [tree]) :
    parent.key ∈ keysOf [tree] := by
  have childInForest := child_mem_allBelow inForest direct
  have place := wellFormed.mem_tree member childInForest inside
  rw [← allBelow_singleton] at place
  rcases exists_parent place with root | ⟨other, inTree, held⟩
  · obtain rfl := List.mem_singleton.mp root
    have rootless := wellFormed.root_parent? member
    rw [wellFormed.parent?_iff.mpr ⟨inForest, List.mem_map.mpr ⟨child, direct, rfl⟩⟩] at rootless
    cases rootless
  · have otherInForest : other ∈ forest.nodes := by
      rw [allBelow_singleton] at inTree
      exact selfAndBelow_subset member inTree
    have same := Node.parent_unique wellFormed.unique inForest otherInForest
      (List.mem_map.mpr ⟨child, direct, rfl⟩) (List.mem_map.mpr ⟨child, held, rfl⟩)
    rw [same]
    exact List.mem_map.mpr ⟨other, inTree, rfl⟩

theorem WellFormed.child_mem_tree {parent child : Node} (inForest : parent ∈ forest.nodes)
    (direct : child ∈ parent.children) (inside : parent.key ∈ keysOf [tree]) :
    child.key ∈ keysOf [tree] := by
  have place := wellFormed.mem_tree member inForest inside
  rw [← allBelow_singleton] at place
  exact List.mem_map.mpr ⟨child, child_mem_allBelow place direct, rfl⟩

/-- A sibling of a node outside of a tree is outside as well. -/
theorem WellFormed.sibling_outside {number : Nat} {parent sibling : Node}
    (outside : number ∉ keysOf [tree]) (isParent : forest.parent? number = some parent)
    (direct : sibling ∈ parent.children) : sibling.key ∉ keysOf [tree] := by
  intro inside
  obtain ⟨inForest, held⟩ := wellFormed.parent?_iff.mp isParent
  obtain ⟨child, directChild, rfl⟩ := List.mem_map.mp held
  exact outside (wellFormed.child_mem_tree member inForest directChild
    (wellFormed.parent_mem_tree member inForest direct inside))

end Xml.Forest

/-! ## Ancestors -/

namespace Xml.Forest

mutual

theorem ancestorsIn?_mem {number : Nat} : {node : Node} → {found : List Node} →
    ancestorsIn? number node = some found → number ∈ keysOf [node] ∧
      ∀ ancestor ∈ found, ancestor ∈ node.selfAndBelow ∧ number ∈ keysOf ancestor.children
  | .mk own label lead children tail, found => by
      intro reached
      rw [ancestorsIn?] at reached
      split at reached
      · rename_i here
        obtain rfl := Option.some.inj reached
        exact ⟨by simp [keysOf, allBelow_cons, Node.key, here], by simp⟩
      · obtain ⟨above, inner, rfl⟩ := Option.map_eq_some_iff.mp reached
        obtain ⟨inside, others⟩ := ancestorsInAll?_mem inner
        have below : number ∈ keysOf children := inside
        refine ⟨?_, fun ancestor member => ?_⟩
        · rw [keysOf_cons]
          exact List.mem_cons_of_mem _ (List.mem_append_left _ below)
        · rcases List.mem_append.mp member with member | member
          · obtain ⟨place, held⟩ := others ancestor member
            refine ⟨?_, held⟩
            rw [selfAndBelow_eq]
            exact List.mem_cons_of_mem _ place
          · obtain rfl := List.mem_singleton.mp member
            exact ⟨mem_selfAndBelow_self _, below⟩

theorem ancestorsInAll?_mem {number : Nat} : {nodes found : List Node} →
    ancestorsInAll? number nodes = some found → number ∈ keysOf nodes ∧
      ∀ ancestor ∈ found, ancestor ∈ allBelow nodes ∧ number ∈ keysOf ancestor.children
  | [], found => by
      intro reached
      cases reached
  | node :: rest, found => by
      intro reached
      rw [ancestorsInAll?] at reached
      split at reached
      · rename_i above here
        obtain rfl := Option.some.inj reached
        obtain ⟨inside, others⟩ := ancestorsIn?_mem here
        refine ⟨keysOf_subset List.mem_cons_self inside, fun ancestor member => ?_⟩
        exact ⟨selfAndBelow_subset List.mem_cons_self (others ancestor member).1,
          (others ancestor member).2⟩
      · obtain ⟨inside, others⟩ := ancestorsInAll?_mem reached
        refine ⟨?_, fun ancestor member => ?_⟩
        · rw [keysOf_cons]
          exact List.mem_cons_of_mem _ (List.mem_append_right _ inside)
        · refine ⟨?_, (others ancestor member).2⟩
          rw [allBelow_cons]
          exact List.mem_cons_of_mem _ (List.mem_append_right _ (others ancestor member).1)

end

theorem mem_ancestors {forest : Forest} {number : Nat} {ancestor : Node}
    (member : ancestor ∈ forest.ancestors number) :
    ancestor ∈ forest.nodes ∧ number ∈ keysOf ancestor.children := by
  unfold ancestors at member
  cases reached : ancestorsInAll? number forest.trees with
  | none =>
    rw [reached] at member
    cases member
  | some found =>
    rw [reached] at member
    exact (ancestorsInAll?_mem reached).2 ancestor member

end Xml.Forest

/-! ## What a handler is asked for -/

/-- The keys that a handler is bound to or has been asked for. -/
def Anchor.keys (anchor : Anchor) : List Nat :=
  anchor.paragraph.toList ++ anchor.run.toList

@[inherit_doc Anchor.keys]
def Duty.keys : Duty → List Nat
  | .repeatParagraphs pending => pending.flatMap fun repetition => repetition.anchor :: repetition.templates
  | .display paragraphs rows tables => paragraphs ++ rows ++ tables
  | .replaceWord => []
  | .record recorder => recorder.targets

/-- A handler that is bound to nothing in some trees, and has been asked for nothing in them. -/
structure Outside (trees : List Node) (handler : Handler) : Prop where
  anchor : ∀ number ∈ handler.anchor.keys, number ∉ keysOf trees
  duty : ∀ number ∈ handler.duty.keys, number ∉ keysOf trees

theorem mem_addOnce {number other : Nat} {numbers : List Nat} :
    other ∈ addOnce number numbers ↔ other = number ∨ other ∈ numbers := by
  unfold addOnce
  split
  · rename_i present
    rw [List.contains_iff_mem] at present
    constructor
    · exact .inr
    · rintro (rfl | member)
      · exact present
      · exact member
  · rw [List.mem_append, List.mem_singleton, or_comm]

theorem mem_setPending {new repetition : PendingRepeat} {pending : List PendingRepeat}
    (member : repetition ∈ setPending new pending) : repetition = new ∨ repetition ∈ pending := by
  induction pending with
  | nil => exact .inl (List.mem_singleton.mp member)
  | cons first rest hypothesis =>
    rw [setPending] at member
    split at member
    · rcases List.mem_cons.mp member with rfl | member
      · exact .inl rfl
      · exact .inr (List.mem_cons_of_mem _ member)
    · rcases List.mem_cons.mp member with rfl | member
      · exact .inr List.mem_cons_self
      · exact (hypothesis member).imp_right (List.mem_cons_of_mem _)

theorem mem_keysOf {number : Nat} {trees : List Node} :
    number ∈ keysOf trees ↔ ∃ tree ∈ trees, number ∈ keysOf [tree] := by
  induction trees with
  | nil => simp [keysOf]
  | cons tree rest hypothesis =>
    rw [← List.singleton_append, keysOf_append, List.mem_append, hypothesis]
    simp

theorem scanRange_subset (id : String) (siblings : List Node) : (scanRange id siblings).1 ⊆ siblings := by
  induction siblings with
  | nil => simp [scanRange]
  | cons sibling rest hypothesis =>
    intro element member
    rw [scanRange] at member
    split at member
    · cases member
    · split at member
      · split at member
        · exact List.mem_singleton.mp member ▸ List.mem_cons_self
        · rcases List.mem_cons.mp member with rfl | member
          · exact List.mem_cons_self
          · exact List.mem_cons_of_mem _ (hypothesis member)
      · exact List.mem_cons_of_mem _ (hypothesis member)

/-- The elements of a range are the paragraph that it starts at and siblings of it. -/
theorem mem_commentRange {forest : Forest} {paragraph : Nat} {id : Option String} {element : Node}
    (member : element ∈ (commentRange forest paragraph id).elements) :
    ∃ node, forest.find? paragraph = some node ∧ (element = node ∨
      ∃ parent, forest.parent? paragraph = some parent ∧ element ∈ parent.children) := by
  unfold commentRange at member
  cases found : forest.find? paragraph with
  | none =>
    rw [found] at member
    cases member
  | some node =>
    rw [found] at member
    refine ⟨node, rfl, ?_⟩
    dsimp only [rangeFrom] at member
    split at member
    · exact .inl (List.mem_singleton.mp member)
    · split at member
      · exact .inl (List.mem_singleton.mp member)
      · split at member
        · exact .inl (List.mem_singleton.mp member)
        · rename_i behind located
          obtain ⟨parent, isParent, rfl⟩ := Option.map_eq_some_iff.mp located
          refine (List.mem_cons.mp member).imp_right fun scanned => ⟨parent, isParent, ?_⟩
          exact (List.dropWhile_sublist _).mem (List.mem_of_mem_drop (scanRange_subset _ _ scanned))

/-- Some trees of a forest that no handler is bound to or has been asked for. -/
structure Sheltered (trees : List Node) (world : World) : Prop where
  wellFormed : world.forest.WellFormed
  present : ∀ tree ∈ trees, tree ∈ world.forest.trees
  outside : ∀ handler ∈ world.handlers, Outside trees handler

namespace Sheltered

variable {trees : List Node} {world : World} (sheltered : Sheltered trees world)
include sheltered

theorem sibling {number : Nat} {parent sibling : Node} (outside : number ∉ keysOf trees)
    (isParent : world.forest.parent? number = some parent) (direct : sibling ∈ parent.children) :
    sibling.key ∉ keysOf trees := by
  intro inside
  obtain ⟨tree, member, place⟩ := mem_keysOf.mp inside
  refine sheltered.wellFormed.sibling_outside (sheltered.present tree member) ?_ isParent direct place
  exact fun here => outside (mem_keysOf.mpr ⟨tree, member, here⟩)

theorem ancestor {number : Nat} {ancestor : Node} (outside : number ∉ keysOf trees)
    (member : ancestor ∈ world.forest.ancestors number) : ancestor.key ∉ keysOf trees := by
  intro inside
  obtain ⟨tree, isTree, place⟩ := mem_keysOf.mp inside
  obtain ⟨inForest, below⟩ := Forest.mem_ancestors member
  refine outside (mem_keysOf.mpr ⟨tree, isTree, ?_⟩)
  have inTree := sheltered.wellFormed.mem_tree (sheltered.present tree isTree) inForest place
  rw [← allBelow_singleton] at inTree
  obtain ⟨node, held, rfl⟩ := List.mem_map.mp below
  exact List.mem_map.mpr ⟨node, allBelow_trans inTree held, rfl⟩

/-- The paragraphs of a range that starts outside of the trees are outside. -/
theorem range {paragraph : Nat} (outside : paragraph ∉ keysOf trees) (id : Option String) :
    ∀ element ∈ (commentRange world.forest paragraph id).paragraphs, element.key ∉ keysOf trees := by
  intro element member
  obtain ⟨node, found, rfl | ⟨parent, isParent, direct⟩⟩ := mem_commentRange (List.mem_of_mem_filter member)
  · rwa [(Forest.mem_of_find? found).2]
  · exact sheltered.sibling outside isParent direct

/-- What is asked for from outside of the trees is outside. -/
theorem asks {anchor : Anchor} {before after : Duty} (bound : ∀ number ∈ anchor.keys, number ∉ keysOf trees)
    (asked : ∀ number ∈ before.keys, number ∉ keysOf trees)
    (asks : Asks world.forest anchor before after) : ∀ number ∈ after.keys, number ∉ keysOf trees := by
  have ofParagraph {paragraph : Nat} (isBound : anchor.paragraph = some paragraph) :
      paragraph ∉ keysOf trees := bound paragraph (by simp [Anchor.keys, isBound])
  have around {tag : Tag} {paragraph found : Nat} (isBound : anchor.paragraph = some paragraph)
      (around : enclosing world.forest tag paragraph = some found) : found ∉ keysOf trees := by
    obtain ⟨ancestor, isAncestor, rfl⟩ := Option.map_eq_some_iff.mp around
    exact sheltered.ancestor (ofParagraph isBound) (List.mem_of_find?_eq_some isAncestor)
  intro number member
  cases asks with
  | repetition pending items isBound =>
    obtain ⟨repetition, inPending, isKey⟩ := List.mem_flatMap.mp member
    rcases mem_setPending inPending with rfl | old
    · rcases List.mem_cons.mp isKey with rfl | isKey
      · exact ofParagraph isBound
      · obtain ⟨element, inRange, rfl⟩ := List.mem_map.mp isKey
        exact sheltered.range (ofParagraph isBound) _ element inRange
    · exact asked number (List.mem_flatMap.mpr ⟨repetition, old, isKey⟩)
  | paragraph paragraphs rows tables isBound =>
    simp only [Duty.keys, List.mem_append, mem_addOnce] at member asked
    rcases member with ((rfl | member) | member) | member
    · exact ofParagraph isBound
    · exact asked number (.inl (.inl member))
    · exact asked number (.inl (.inr member))
    · exact asked number (.inr member)
  | row paragraphs rows tables isBound isAround =>
    simp only [Duty.keys, List.mem_append, mem_addOnce] at member asked
    rcases member with (member | rfl | member) | member
    · exact asked number (.inl (.inl member))
    · exact around isBound isAround
    · exact asked number (.inl (.inr member))
    · exact asked number (.inr member)
  | table paragraphs rows tables isBound isAround =>
    simp only [Duty.keys, List.mem_append, mem_addOnce] at member asked
    rcases member with (member | member) | rfl | member
    · exact asked number (.inl (.inl member))
    · exact asked number (.inl (.inr member))
    · exact around isBound isAround
    · exact asked number (.inr member)
  | record recorder isBound =>
    rcases mem_addOnce.mp member with rfl | old
    · exact ofParagraph isBound
    · exact asked number old

end Sheltered

end Imprint
