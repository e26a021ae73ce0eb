import Imprint.Expression.Context
import Imprint.Expression.Fold

set_option autoImplicit false

/-!
# Evaluation

A term is evaluated from left to right; of a conditional only one branch, and of a conjunction,
disjunction or comparison only as much as decides it.  An undefined value may be passed around and
tested, but it is never handed to what is called.

What is outside of the values, the directives that an expression may call, is reached through
`invoke`; it works on a state of its own, `σ`.
-/

namespace Imprint

/-- The values of an evaluation and what is outside of them. -/
structure Machine (σ : Type) where
  store : Store
  outer : σ

/-- Computations that may reach outside of the values.  A fault keeps all changes made so far. -/
abbrev Action (σ α : Type) : Type := ExceptT Fault (StateM (Machine σ)) α

/-- A computation on values alone. -/
def Action.ofHeap {σ α : Type} (computation : Heap α) : Action σ α :=
  ExceptT.mk fun machine =>
    let (result, store) := (ExceptT.run computation).run machine.store
    (result, { machine with store })

instance {σ : Type} : MonadLift (ExceptT Fault (StateM Store)) (ExceptT Fault (StateM (Machine σ))) where
  monadLift computation := Action.ofHeap computation

namespace Expression

/-- What surrounds the evaluation of a term: the values of its names, and the directives. -/
structure Surroundings (σ : Type) where
  scope : Scope
  invoke : Nat → String → Arguments → Action σ Value

/-- A value that is handed to a call has to be defined. -/
def requireArguments : List Value → Heap Unit
  | [] => return ()
  | .undefined _ missing :: _ => throw (.undefined missing)
  | _ :: rest => requireArguments rest

/-- Arguments that the language keeps for itself. -/
def isInternalArgument (name : String) : Bool :=
  name == "_block_vars" || name == "_loop_vars"

/-- Applies what can be called to arguments, unless it calls other functions in turn. -/
def applyDirectly {σ : Type} (invoke : Nat → String → Arguments → Action σ Value) (callee : Callee)
    (arguments : Arguments) : Action σ Value :=
  match callee with
  | .builtin .range => Value.makeRange arguments
  | .builtin .dict => Value.makeDict arguments
  | .builtin .lipsum => Value.makeFiller arguments
  | .builtin .cycler => return .foreign "Cycler" "<Cycler>"
  | .builtin .joiner => return .foreign "Joiner" "<Joiner>"
  | .builtin .bundle => return .foreign "Namespace" "<Namespace>"
  | .given _ behaviour => Value.behave behaviour arguments
  | .method receiver name => callMethod receiver name arguments
  | .directive handler method => invoke handler method arguments

/-- The value by which an item is sorted.  A key function is called with the item, whatever it is. -/
def sortKey {σ : Type} (invoke : Nat → String → Arguments → Action σ Value) (key item : Value) :
    Action σ Value :=
  match key with
  | .function callee => applyDirectly invoke callee (.ofList [item])
  | other => Value.plainKey other item

/-- Applies what can be called to arguments.  Sorting a list calls a key function, which is given single items
and so does not sort by keys itself. -/
def applyCallee {σ : Type} (invoke : Nat → String → Arguments → Action σ Value) (callee : Callee)
    (arguments : Arguments) : Action σ Value :=
  match callee with
  | .method (.list cell) "sort" => Value.sortList (sortKey invoke) cell arguments
  | other => applyDirectly invoke other arguments

/-- Calls a value.  Undefined arguments are refused first, then an undefined value, then one that
cannot be called. -/
def callValue {σ : Type} (invoke : Nat → String → Arguments → Action σ Value) (callee : Value)
    (arguments : Arguments) : Action σ Value := do
  requireArguments arguments.values
  match callee with
  | .undefined _ missing => throw (.undefined missing)
  | .function callee =>
      let named := arguments.named.filter fun entry => !isInternalArgument entry.1
      try applyCallee invoke callee { arguments with named }
      catch fault =>
        match fault with
        | .error (.other "StopIteration") _ =>
            let cause := "value was undefined because a callable raised a StopIteration exception"
            pure (.undefined false (.hint cause))
        | other => throw other
  | other => throw (.typeError ("'" ++ other.typeName ++ "' object is not callable"))

/-- The value of a name. -/
def nameValue (scope : Scope) (name : String) : Value :=
  if name = "self" then .self else (scope.lookup name).getD (.undefined false (.name name))

/-- The value of a literal.  Infinite numbers cannot be written as literals, so they count as names. -/
def literalValue (value : Value) : Heap Value :=
  match value with
  | .float number =>
      if Number.isFinite number then return value
      else throw (.error .name ("name '" ++
        (if number == number then "inf" else "nan") ++ "' is not defined"))
  | _ => return value

/-- Whether a term is a literal. -/
def isLiteral : Term → Bool
  | .literal _ => true
  | _ => false

mutual

/-- The value of a term. -/
def evaluate {σ : Type} (surroundings : Surroundings σ) : Term → Action σ Value
  | .literal value => literalValue value
  | .name name => return nameValue surroundings.scope name
  | .tuple parts => return .tuple (← evaluateAll surroundings parts)
  | .list parts => do Heap.newList (← evaluateAll surroundings parts)
  | .dict entries => do buildDict (← evaluateEntries surroundings entries)
  | .attribute owner name => do getAttribute (← evaluate surroundings owner) name
  | .item owner (.slice start stop step) => do
      let value ← evaluate surroundings owner
      let start ← evaluate surroundings start
      let stop ← evaluate surroundings stop
      value.slice start stop (← evaluate surroundings step)
  | .item owner key => do
      let value ← evaluate surroundings owner
      getItem value (← evaluate surroundings key)
  | .slice .. => throw (.error .invalidCode "invalid syntax")
  | .call callee arguments => do
      let callee ← evaluate surroundings callee
      callValue surroundings.invoke callee
        (← evaluateArguments surroundings callLabel arguments ⟨[], []⟩)
  | .filter operand name arguments => do
      let value ← evaluate surroundings operand
      applyFilter name value
        (← evaluateArguments surroundings (filterLabel name) arguments ⟨[], []⟩)
  | .test operand name arguments => do
      let value ← evaluate surroundings operand
      return .bool (← applyTest name value
        (← evaluateArguments surroundings (testLabel name) arguments ⟨[], []⟩))
  | .negation operand => do return .bool (!(← (← evaluate surroundings operand).truth))
  | .minus operand => do (← evaluate surroundings operand).negate
  | .plus operand => do (← evaluate surroundings operand).affirm
  | .both left right => do
      let value ← evaluate surroundings left
      if ← value.truth then evaluate surroundings right else return value
  | .either left right => do
      let value ← evaluate surroundings left
      if ← value.truth then return value else evaluate surroundings right
  | .binary operation left right => do
      let base ← evaluate surroundings left
      let other ← evaluate surroundings right
      if operation = .power && isLiteral left then powerOf base other
      else Value.operate operation base other
  | .joined parts => do joinTexts (← evaluateAll surroundings parts)
  | .comparison first others => do
      compareFrom surroundings (← evaluate surroundings first) others
  | .conditional condition result otherwise => do
      if ← (← evaluate surroundings condition).truth then evaluate surroundings result
      else evaluate surroundings otherwise
  | .noElse line => return .undefined true (.noElse line)

/-- The values of terms, from left to right. -/
def evaluateAll {σ : Type} (surroundings : Surroundings σ) : List Term → Action σ (List Value)
  | [] => return []
  | term :: rest => do
      let value ← evaluate surroundings term
      return value :: (← evaluateAll surroundings rest)

/-- The keys and values of the entries of a dictionary. -/
def evaluateEntries {σ : Type} (surroundings : Surroundings σ) :
    List (Term × Term) → Action σ (List (Value × Value))
  | [] => return []
  | (key, value) :: rest => do
      let key ← evaluate surroundings key
      let value ← evaluate surroundings value
      return (key, value) :: (← evaluateEntries surroundings rest)

/-- Whether a chain of relations holds, starting from the value of its first operand. -/
def compareFrom {σ : Type} (surroundings : Surroundings σ) :
    Value → List (Relation × Term) → Action σ Value
  | _, [] => return .bool true
  | left, (relation, term) :: rest => do
      let right ← evaluate surroundings term
      if ← relation.holds left right then compareFrom surroundings right rest
      else return .bool false

/-- The values of arguments; spread ones are taken apart. -/
def evaluateArguments {σ : Type} (surroundings : Surroundings σ) (label : String) :
    List Argument → Gathered → Action σ Arguments
  | [], gathered => return ⟨gathered.positional, gathered.named⟩
  | .positional term :: rest, gathered => do
      let value ← evaluate surroundings term
      evaluateArguments surroundings label rest
        { gathered with positional := gathered.positional ++ [value] }
  | .named name term :: rest, gathered => do
      let value ← evaluate surroundings term
      evaluateArguments surroundings label rest
        { gathered with named := gathered.named ++ [(name, value)] }
  | .spread term :: rest, gathered => do
      let values ← evaluate surroundings term
      evaluateArguments surroundings label rest (← gathered.addSpread values)
  | .spreadNamed term :: rest, gathered => do
      let values ← evaluate surroundings term
      evaluateArguments surroundings label rest (← gathered.addSpreadNamed label values)

end

/-- What an expression is resolved with: the context, further names, and the directives. -/
structure Setting (σ : Type) where
  context : Context
  additional : Scope
  invoke : Nat → String → Arguments → Action σ Value

/-- Evaluates an expression without blanks around it, by the program that a computation comes to for it. -/
def runBy {σ : Type} (program : List Char → Action σ Program) (setting : Setting σ) (expression : List Char) :
    Action σ Value := do
  let program ← program expression
  let scope ← lookUp setting.context setting.additional program.names []
  evaluate ⟨scope, setting.invoke⟩ program.term

/-- Evaluates an expression without blanks around it.  It is compiled anew. -/
def run {σ : Type} (setting : Setting σ) (expression : List Char) : Action σ Value :=
  runBy (fun letters => liftM (compile letters)) setting expression

/-- Whether an expression holds nothing but blanks. -/
def isBlankExpression (expression : String) : Bool :=
  expression.toList.all Text.isBlank

/-- The value of an expression, by the program that a computation comes to for it.  Whatever keeps it from
having a value is reported with the expression as it was given. -/
def resolveBy {σ : Type} (program : List Char → Action σ Program) (setting : Setting σ) (expression : String) :
    Action σ Value := do
  if isBlankExpression expression then throw (.unresolved expression "empty expression")
  let value ←
    try runBy program setting (Text.trim expression.toList)
    catch fault => throw (fault.resolving expression)
  if value.isUndefined then throw (.unresolved expression "expression is undefined")
  return value

/-- The value of an expression, which is compiled anew. -/
def resolve {σ : Type} (setting : Setting σ) (expression : String) : Action σ Value :=
  resolveBy (fun letters => liftM (compile letters)) setting expression

end Expression

end Imprint
