import Imprint.Xml.Node

set_option autoImplicit false

/-!
# Live trees

A forest holds the trees of a document while it is edited: the roots of its parts, and the pieces
that were taken out of them, which stay readable.  Nodes are addressed by their keys, and every node
that enters the forest gets a key of its own.
-/

namespace Imprint.Xml

/-- Trees with pairwise different keys, all below `fresh`. -/
structure Forest where
  trees : List Node
  fresh : Nat
deriving Inhabited

namespace Forest

/-- The forest without trees. -/
def empty : Forest := ⟨[], 1⟩

/-- The node with a key. -/
def find? (forest : Forest) (key : Nat) : Option Node :=
  forest.trees.findSome? fun tree => tree.find? key

/-- The parent of the node with a key. -/
def parent? (forest : Forest) (key : Nat) : Option Node :=
  forest.trees.findSome? fun tree => tree.parentOf? key

/-- Adds a tree; its nodes get new keys, and the key of its root is returned. -/
def plant (forest : Forest) (tree : Node) : Nat × Forest :=
  let (tree, fresh) := tree.copied.number forest.fresh
  (tree.key, ⟨forest.trees ++ [tree], fresh⟩)

/-- Replaces the node with a key by what a function makes of it.  New nodes in it get keys, and nodes
that are not in it any more stay readable. -/
def edit (forest : Forest) (key : Nat) (change : Node → Node) : Forest :=
  match forest.find? key with
  | none => forest
  | some node =>
      let (changed, fresh) := (change node).number forest.fresh
      let kept := changed.selfAndBelow.map Node.key
      ⟨forest.trees.map (Node.update key fun _ => changed) ++ node.missingFrom kept, fresh⟩

/-- Replaces the node with a key by what a function makes of it. -/
def update (forest : Forest) (key : Nat) (change : Node → Node) : Forest :=
  { forest with trees := forest.trees.map (Node.update key change) }

/-- Keeps pieces that were taken out of a tree. -/
def keep (forest : Forest) (pieces : List Node) : Forest :=
  { forest with trees := forest.trees ++ pieces }

/-- Takes the node with a key out of its parent.  A root stays where it is. -/
def detach (forest : Forest) (key : Nat) : Forest :=
  match forest.parent? key, forest.find? key with
  | some parent, some node => (forest.update parent.key (Node.without key)).keep [node]
  | _, _ => forest

/-- Moves a node with everything below it in front of another one that has a parent. -/
def moveBefore (forest : Forest) (number anchor : Nat) : Forest :=
  let free := forest.detach number
  let rest := { free with trees := free.trees.filter fun tree => tree.key != number }
  match free.find? number, rest.parent? anchor with
  | some node, some parent =>
      rest.update parent.key fun parent =>
        parent.withChildren (Node.insertBefore anchor [node] parent.children)
  | _, _ => forest

/-- Whether a node is a root or lies below one of some roots. -/
def reaches (forest : Forest) (roots : List Nat) (key : Nat) : Bool :=
  roots.any fun root =>
    match forest.find? root with
    | some tree => (tree.find? key).isSome
    | none => false

mutual

/-- Ancestors of the node with a key inside a tree, nearest first. -/
def ancestorsIn? (key : Nat) : Node → Option (List Node)
  | .mk own label lead children tail =>
      if own = key then some []
      else (ancestorsInAll? key children).map (· ++ [.mk own label lead children tail])

/-- Ancestors of the node with a key inside some trees. -/
def ancestorsInAll? (key : Nat) : List Node → Option (List Node)
  | [] => none
  | node :: rest =>
      match ancestorsIn? key node with
      | some found => some found
      | none => ancestorsInAll? key rest

end

/-- Ancestors of the node with a key, nearest first. -/
def ancestors (forest : Forest) (key : Nat) : List Node :=
  (ancestorsInAll? key forest.trees).getD []

end Forest

end Imprint.Xml
