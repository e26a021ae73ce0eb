import Imprint.Expression.Context

set_option autoImplicit false

/-!
# Capabilities

An interface names the methods that an implementation makes available to expressions.  A builder
collects implementations; building checks that every interface names methods, that its
implementation has all of them, and that no two implementations claim the same name.
-/

namespace Imprint

/-- A capability interface: its name and the methods it declares, its own first and then those of the
interfaces it extends. -/
structure Interface where
  name : String
  methods : List String
deriving DecidableEq, Repr, Inhabited

/-- What a capability is registered under; a value is not a proper interface. -/
inductive InterfaceRef where
  | interface (interface : Interface)
  | value (value : Value)
deriving Inhabited

/-- What tells implementations apart. -/
inductive ImplementationId where
  | named (name : String)
  | handler (index : Nat)
deriving DecidableEq, Repr, Inhabited

/-- An implementation: its class name and what can be read from it. -/
structure Implementation where
  identity : ImplementationId
  className : String
  members : List (String × Value)
deriving Inhabited

/-! ## Methods of interfaces -/

/-- An interface as it is declared.  Names of functions among the declared names count as methods. -/
structure Declaration where
  name : String
  extends_ : List String
  methods : List String
deriving DecidableEq, Repr, Inhabited

/-- Whether a name is first in some orders and nowhere later in any. -/
def isFree (orders : List (List String)) (name : String) : Bool :=
  orders.all fun order => !(order.drop 1).contains name

/-- Merges orders into one that respects all of them; the number bounds its length. -/
def mergeOrders : Nat → List (List String) → List String
  | 0, _ => []
  | fuel + 1, orders =>
      let orders := orders.filter fun order => !order.isEmpty
      match (orders.filterMap List.head?).find? (isFree orders) with
      | none => []
      | some name =>
          name :: mergeOrders fuel (orders.map fun order =>
            if order.head? = some name then order.drop 1 else order)

/-- The order in which an interface and those it extends are looked at; the number bounds the depth. -/
def lookupOrder (declarations : List Declaration) : Nat → String → List String
  | 0, _ => []
  | fuel + 1, name =>
      match declarations.find? fun declaration => declaration.name == name with
      | none => []
      | some declaration =>
          let orders := declaration.extends_.map (lookupOrder declarations fuel)
          let size := (orders.map List.length).sum + declaration.extends_.length
          name :: mergeOrders (size + 1) (orders ++ [declaration.extends_])

/-- The public methods of an interface, each once. -/
def interfaceMethods (declarations : List Declaration) (name : String) : List String :=
  let order := lookupOrder declarations (declarations.length + 1) name
  (order.flatMap fun name =>
    match declarations.find? fun declaration => declaration.name == name with
    | some declaration => declaration.methods.filter fun method => !"_".isPrefixOf method
    | none => []).eraseDups

/-! ## Building proxies -/

/-- A data root and the implementations registered so far. -/
structure ProxyBuilder where
  root : Value
  interfaces : List (InterfaceRef × Implementation)
deriving Inhabited

namespace ProxyBuilder

/-- A builder without capabilities. -/
def ofRoot (root : Value) : ProxyBuilder := ⟨root, []⟩

/-- Whether two references are to the same interface. -/
def isSameReference (left right : InterfaceRef) : Heap Bool := do
  match left, right with
  | .interface left, .interface right => return left.name == right.name
  | .value left, .value right => do
      if Value.same left right then return true else left.isEqual right
  | _, _ => return false

/-- Puts an implementation in the place of an earlier one for the same interface, or at the end. -/
def insert (interface : InterfaceRef) (implementation : Implementation) :
    List (InterfaceRef × Implementation) → Heap (List (InterfaceRef × Implementation))
  | [] => return [(interface, implementation)]
  | (other, old) :: rest => do
      if ← isSameReference other interface then return (other, implementation) :: rest
      else return (other, old) :: (← insert interface implementation rest)

/-- Registers an implementation. -/
def withInterface (builder : ProxyBuilder) (interface : InterfaceRef)
    (implementation : Implementation) : Heap ProxyBuilder := do
  match interface with
  | .value value => Value.requireKey value
  | .interface _ => pure ()
  return { builder with interfaces := ← insert interface implementation builder.interfaces }

/-- A builder with the same capabilities and another root; the null value keeps the root. -/
def copy (builder : ProxyBuilder) (root : Value) : ProxyBuilder :=
  match root with
  | .null => builder
  | root => { builder with root }

/-- The interface that a reference stands for. -/
def interfaceOf (reference : InterfaceRef) : Heap Interface := do
  match reference with
  | .interface interface => return interface
  | .value value => throw (.composition (String.ofList
      ("Capability interface must be a class, got ".toList ++ (← value.shown))))

/-- Capabilities while they are collected. -/
structure Collected where
  methods : List (String × Value)
  owners : List (String × Interface × ImplementationId)
deriving Inhabited

/-- Sets the value of a name, in place of an earlier one or at the end. -/
def setMethod (name : String) (value : Value) : List (String × Value) → List (String × Value)
  | [] => [(name, value)]
  | (other, old) :: rest =>
      if other = name then (other, value) :: rest else (other, old) :: setMethod name value rest

/-- Adds a method of an implementation. -/
def addMethod (interface : Interface) (implementation : Implementation) (collected : Collected)
    (name : String) : Heap Collected := do
  match (implementation.members.lookup name).filter Value.isCallable with
  | none => throw (.composition (implementation.className ++ " does not implement " ++
      interface.name ++ "." ++ name ++ "()"))
  | some bound =>
      match collected.owners.lookup name with
      | some (owner, identity) =>
          if identity != implementation.identity then
            throw (.composition ("Method '" ++ name ++ "' is claimed by both " ++ owner.name ++
              " and " ++ interface.name))
      | none => pure ()
      return ⟨setMethod name bound collected.methods,
        (name, interface, implementation.identity) :: collected.owners⟩

/-- Adds all methods of an implementation. -/
def addImplementation (collected : Collected) (entry : InterfaceRef × Implementation) :
    Heap Collected := do
  let interface ← interfaceOf entry.1
  if interface.methods.isEmpty then
    throw (.composition
      ("Capability interface " ++ interface.name ++ " declares no public methods"))
  interface.methods.foldlM (addMethod interface entry.2) collected

/-- Builds a proxy, if the capabilities fit together. -/
def build (builder : ProxyBuilder) : Heap Proxy := do
  let collected ← builder.interfaces.foldlM addImplementation ⟨[], []⟩
  return ⟨builder.root, collected.methods⟩

end ProxyBuilder

namespace Proxy

/-- The value of a key: of a name, or of any other key of a mapping root. -/
def findKey? (proxy : Proxy) (key : Value) : Heap (Option Value) := do
  match key with
  | .text name => proxy.find? name
  | other => do
      Value.requireKey other
      match proxy.root with
      | .dict cell => Value.lookup other (← Heap.entries cell)
      | _ => return none

/-- The value of a key that must have one. -/
def get (proxy : Proxy) (key : Value) : Heap Value := do
  match ← proxy.findKey? key with
  | some value => return value
  | none => throw (.error .key (String.ofList (← key.shown)))

/-- Whether a key has a value; a field that fails like a missing key has none. -/
def hasKey (proxy : Proxy) (key : Value) : Heap Bool := do
  try return (← proxy.findKey? key).isSome
  catch fault =>
    match fault with
    | .error .key _ => return false
    | other => throw other

/-- Sorts names by their characters. -/
def sortNames (names : List String) : List String :=
  names.mergeSort fun left right =>
    Value.compareLetters left.toList right.toList != .gt

/-- The names that the data root offers. -/
def rootNames (proxy : Proxy) : Heap (List String) := do
  match proxy.root with
  | .null => return []
  | .dict cell =>
      return (← Heap.entries cell).filterMap fun entry =>
        match entry.1 with
        | .text name => some name
        | _ => none
  | root => return sortNames ((Value.publicMembers root).filter fun name => !"_".isPrefixOf name)

/-- All names: capabilities first, each once. -/
def names (proxy : Proxy) : Heap (List String) := do
  return (proxy.capabilities.map (·.1) ++ (← proxy.rootNames)).eraseDups

/-- How many names there are. -/
def size (proxy : Proxy) : Heap Nat := do
  return (← proxy.names).length

/-- The recognisable form of a proxy. -/
def shown (proxy : Proxy) : Heap (List Char) := do
  let names := (sortNames (proxy.capabilities.map (·.1))).map fun name => Text.quoted name.toList
  return "ContextProxy(root=".toList ++ (← proxy.root.shown) ++ ", capabilities=[".toList ++
    Text.joinWith [',', ' '] names ++ [']', ')']

end Proxy

end Imprint
