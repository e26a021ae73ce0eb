import Imprint.Xml.Tag

set_option autoImplicit false

/-!
# Document trees

A node is an element, a comment or a processing instruction.  Text is kept with the nodes around it:
`lead` is the text in front of the first child and `tail` the text that follows the node itself, so
that a node which is moved or removed takes the text behind it along.  The `key` tells nodes of one
document apart and has no other meaning.
-/

namespace Imprint.Xml

/-- What a node is, apart from its content. -/
inductive Label where
  | element (tag : Tag) (attributes : List (Tag × String))
  | comment (text : String)
  | instruction (target text : String)
deriving DecidableEq, Repr, Inhabited

/-- A node with its content and the text behind it. -/
inductive Node where
  | mk (key : Nat) (label : Label) (lead : String) (children : List Node) (tail : String)
deriving Repr, Inhabited

namespace Node

def key : Node → Nat
  | mk key _ _ _ _ => key

def label : Node → Label
  | mk _ label _ _ _ => label

def lead : Node → String
  | mk _ _ lead _ _ => lead

def children : Node → List Node
  | mk _ _ _ children _ => children

def tail : Node → String
  | mk _ _ _ _ tail => tail

def withChildren (node : Node) (children : List Node) : Node :=
  mk node.key node.label node.lead children node.tail

def withTail (node : Node) (tail : String) : Node :=
  mk node.key node.label node.lead node.children tail

def withKey (node : Node) (key : Nat) : Node :=
  mk key node.label node.lead node.children node.tail

/-- The name of an element; other nodes have none. -/
def tag? (node : Node) : Option Tag :=
  match node.label with
  | .element tag _ => some tag
  | _ => none

/-- Whether a node is an element of a name. -/
def hasTag (tag : Tag) (node : Node) : Bool :=
  node.tag? == some tag

/-- Whether a node is an element. -/
def isElement (node : Node) : Bool :=
  node.tag?.isSome

/-- The value of an attribute. -/
def attribute? (name : Tag) (node : Node) : Option String :=
  match node.label with
  | .element _ attributes => (attributes.find? fun entry => entry.1 == name).map (·.2)
  | _ => none

/-- The first child element of a name. -/
def child? (tag : Tag) (node : Node) : Option Node :=
  node.children.find? (hasTag tag)

/-- An element without attributes, text and identity. -/
def ofTag (tag : Tag) (children : List Node) : Node :=
  mk 0 (.element tag []) "" children ""

mutual

/-- The node and everything below it, in document order. -/
def selfAndBelow : Node → List Node
  | mk key label lead children tail => mk key label lead children tail :: allBelow children

/-- Some nodes and everything below them, in document order. -/
def allBelow : List Node → List Node
  | [] => []
  | node :: rest => selfAndBelow node ++ allBelow rest

end

/-- All elements of a name at or below a node, in document order. -/
def withTag (tag : Tag) (node : Node) : List Node :=
  node.selfAndBelow.filter (hasTag tag)

mutual

/-- A copy of a node without keys. -/
def copied : Node → Node
  | mk _ label lead children tail => mk 0 label lead (copiedAll children) tail

/-- Copies of some nodes without keys. -/
def copiedAll : List Node → List Node
  | [] => []
  | node :: rest => copied node :: copiedAll rest

end

mutual

/-- Gives keys to the nodes that have none, counted from `fresh` in document order; the second
component is the next unused key. -/
def number : Node → Nat → Node × Nat
  | mk key label lead children tail, fresh =>
      let (key, next) := if key = 0 then (fresh, fresh + 1) else (key, fresh)
      let (children, last) := numberAll children next
      (mk key label lead children tail, last)

/-- Gives keys to the nodes among some that have none. -/
def numberAll : List Node → Nat → List Node × Nat
  | [], fresh => ([], fresh)
  | node :: rest, fresh =>
      let (node, next) := number node fresh
      let (rest, last) := numberAll rest next
      (node :: rest, last)

end

mutual

/-- Replaces the node with a key by what a function makes of it. -/
def update (key : Nat) (change : Node → Node) : Node → Node
  | mk own label lead children tail =>
      if own = key then change (mk own label lead children tail)
      else mk own label lead (updateAll key change children) tail

/-- Replaces the node with a key among some nodes and everything below them. -/
def updateAll (key : Nat) (change : Node → Node) : List Node → List Node
  | [] => []
  | node :: rest => update key change node :: updateAll key change rest

end

mutual

/-- The outermost pieces of a node whose keys are not among some. -/
def missingFrom (kept : List Nat) : Node → List Node
  | mk key label lead children tail =>
      if kept.contains key then missingFromAll kept children
      else [mk key label lead children tail]

/-- The outermost pieces of some nodes whose keys are not among some. -/
def missingFromAll (kept : List Nat) : List Node → List Node
  | [] => []
  | node :: rest => missingFrom kept node ++ missingFromAll kept rest

end

/-- Whether one of the children of a node has a key. -/
def holds (key : Nat) (node : Node) : Bool :=
  node.children.any fun child => child.key == key

/-- The node with a key at or below a node. -/
def find? (key : Nat) (node : Node) : Option Node :=
  node.selfAndBelow.find? fun candidate => candidate.key == key

/-- The parent of the node with a key. -/
def parentOf? (key : Nat) (node : Node) : Option Node :=
  node.selfAndBelow.find? (holds key)

/-- The children of a node without one of them. -/
def without (key : Nat) (node : Node) : Node :=
  node.withChildren (node.children.filter fun child => child.key != key)

/-- Puts nodes in front of the one with a key. -/
def insertBefore (key : Nat) (new : List Node) : List Node → List Node
  | [] => []
  | node :: rest =>
      if node.key = key then new ++ node :: rest else node :: insertBefore key new rest

/-- Puts nodes behind the one with a key. -/
def insertAfter (key : Nat) (new : List Node) : List Node → List Node
  | [] => []
  | node :: rest =>
      if node.key = key then node :: new ++ rest else node :: insertAfter key new rest

/-- The child directly in front of the one with a key. -/
def before? (key : Nat) : List Node → Option Node
  | first :: second :: rest =>
      if second.key = key then some first else before? key (second :: rest)
  | _ => none

/-- The child directly behind the one with a key. -/
def after? (key : Nat) : List Node → Option Node
  | first :: second :: rest =>
      if first.key = key then some second else after? key (second :: rest)
  | _ => none

/-- The children behind the one with a key. -/
def following (key : Nat) (nodes : List Node) : List Node :=
  (nodes.dropWhile fun node => node.key != key).drop 1

/-- The node reached by a path of child positions. -/
def at? : List Nat → Node → Option Node
  | [], node => some node
  | position :: rest, node =>
      match node.children[position]? with
      | some child => at? rest child
      | none => none

end Node

end Imprint.Xml
