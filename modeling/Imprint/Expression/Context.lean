import Imprint.Value.Member

set_option autoImplicit false

/-!
# Where names come from

The names of an expression are looked up in its context and then among the names that every
expression can use.  A context is a plain mapping, or a proxy that shows capabilities in front of a
data root: the keys of a mapping, or the public attributes of anything else.
-/

namespace Imprint

/-- A data root with capabilities in front of it. -/
structure Proxy where
  root : Value
  capabilities : List (String × Value)
deriving Inhabited

namespace Proxy

/-- The value of a name in the data root; fields that turn out not to be there have none. -/
def rootValue? (proxy : Proxy) (name : String) : Heap (Option Value) := do
  match proxy.root with
  | .null => return none
  | .dict cell => Value.lookup (.text name) (← Heap.entries cell)
  | root => if "_".isPrefixOf name then return none else root.attribute? name

/-- The value of a name: capabilities come first. -/
def find? (proxy : Proxy) (name : String) : Heap (Option Value) := do
  match proxy.capabilities.lookup name with
  | some capability => return some capability
  | none => proxy.rootValue? name

/-- Whether a name has a value; a field that fails like a missing key has none. -/
def has (proxy : Proxy) (name : String) : Heap Bool := do
  try return (← proxy.find? name).isSome
  catch fault =>
    match fault with
    | .error .key _ => return false
    | other => throw other

end Proxy

/-- Where an expression finds its names. -/
inductive Context where
  | mapping (value : Value)
  | proxy (proxy : Proxy)
deriving Inhabited

namespace Context

/-- The value of a name in a context. -/
def find? (context : Context) (name : String) : Heap (Option Value) := do
  match context with
  | .mapping value =>
      if ← value.contains (.text name) then value.item? (.text name) else return none
  | .proxy source => if ← source.has name then source.find? name else return none

end Context

namespace Expression

/-- The functions that every expression can use. -/
def builtins : List (String × Value) :=
  [("range", .range), ("dict", .dict), ("lipsum", .lipsum), ("cycler", .cycler),
    ("joiner", .joiner), ("namespace", .bundle)].map fun (name, builtin) =>
      (name, .function (.builtin builtin))

/-- The values of names as they are when the evaluation starts. -/
abbrev Scope : Type := List (String × Value)

/-- Looks up names, each once: in the context, then among the additional ones, then among the
builtins.  The expression's reference to itself is not looked up. -/
def lookUp (context : Context) (additional : Scope) : List String → Scope → Heap Scope
  | [], found => return found
  | name :: rest, found => do
      if name = "self" || (found.lookup name).isSome then
        lookUp context additional rest found
      else
        match ← context.find? name with
        | some value => lookUp context additional rest ((name, value) :: found)
        | none =>
            match (additional ++ builtins).lookup name with
            | some value => lookUp context additional rest ((name, value) :: found)
            | none => lookUp context additional rest found

end Expression

end Imprint
