import Imprint.Expression.Grammar
import Imprint.Expression.Operation

set_option autoImplicit false

/-!
# Folding of constants

The parts of an expression that do not depend on any name are computed once, before anything is
looked up.  A part is only replaced if its computation ends without a fault and its value can be
written as a literal; otherwise it stays as it is and shows its fault when it is evaluated.  Branches
that a constant condition leaves out are dropped with all they hold.
-/

namespace Imprint.Expression

namespace Term

mutual

/-- The value of a term made of literals only. -/
def constant? : Term → Heap (Option Value)
  | literal value => return some value
  | tuple parts => return (← constants? parts).map Value.tuple
  | list parts => do
      match ← constants? parts with
      | some values => return some (← Heap.newList values)
      | none => return none
  | dict entries => do
      match ← constantEntries? entries with
      | some entries => return some (← buildDict entries)
      | none => return none
  | _ => return none

/-- The values of terms made of literals only. -/
def constants? : List Term → Heap (Option (List Value))
  | [] => return some []
  | term :: rest => do
      match ← constant? term, ← constants? rest with
      | some value, some values => return some (value :: values)
      | _, _ => return none

/-- The values of entries made of literals only. -/
def constantEntries? : List (Term × Term) → Heap (Option (List (Value × Value)))
  | [] => return some []
  | (key, value) :: rest => do
      match ← constant? key, ← constant? value, ← constantEntries? rest with
      | some key, some value, some entries => return some ((key, value) :: entries)
      | _, _, _ => return none

end

/-- The literal form of a value, if it has one; containers are followed down to a depth. -/
def ofValue? : Nat → Value → Heap (Option Term)
  | 0, _ => return none
  | depth + 1, value => do
      let all (values : List Value) : Heap (Option (List Term)) := do
        return (← values.mapM (ofValue? depth)).mapM id
      match value with
      | .null | .bool _ | .int _ | .float _ | .text _ | .unpaired _ | .range ..
      | .foreign "complex" _ =>
          return some (literal value)
      | .tuple parts => return (← all parts).map tuple
      | .list cell => return (← all (← Heap.items cell)).map list
      | .dict cell =>
          let entries ← Heap.entries cell
          match ← all (entries.map (·.1)), ← all (entries.map (·.2)) with
          | some keys, some values => return some (dict (keys.zip values))
          | _, _ => return none
      | _ => return none

/-- A term, or the literal form of its value if that can be computed. -/
def orConstant (term : Term) (computation : Heap (Option Value)) : Heap Term := do
  match ← attempt computation with
  | .ok (some value) => return (← ofValue? nestingLimit value).getD term
  | _ => return term

/-- The value that comes from the values of two terms made of literals. -/
def fromTwo (left right : Term) (combine : Value → Value → Heap Value) : Heap (Option Value) := do
  match ← constant? left, ← constant? right with
  | some left, some right => return some (← combine left right)
  | _, _ => return none

/-- The value that comes from the value of a term made of literals. -/
def fromOne (operand : Term) (compute : Value → Heap Value) : Heap (Option Value) := do
  match ← constant? operand with
  | some value => return some (← compute value)
  | none => return none

/-- The arguments made of literals only. -/
def constantArguments? (label : String) : List Argument → Gathered → Heap (Option Arguments)
  | [], gathered => return some ⟨gathered.positional, gathered.named⟩
  | argument :: rest, gathered => do
      match argument with
      | .positional term =>
          match ← constant? term with
          | some value =>
              constantArguments? label rest
                { gathered with positional := gathered.positional ++ [value] }
          | none => return none
      | .named key term =>
          match ← constant? term with
          | some value =>
              constantArguments? label rest
                { gathered with named := gathered.named ++ [(key, value)] }
          | none => return none
      | .spread term =>
          match ← constant? term with
          | some value => constantArguments? label rest (← gathered.addSpread value)
          | none => return none
      | .spreadNamed term =>
          match ← constant? term with
          | some value => constantArguments? label rest (← gathered.addSpreadNamed label value)
          | none => return none

/-- The outcome of a comparison of literals, as far as it has to be followed. -/
def constantComparison? : Value → List (Relation × Term) → Heap (Option Value)
  | _, [] => return some (.bool true)
  | left, (relation, term) :: rest => do
      match ← constant? term with
      | none => return none
      | some right =>
          if ← relation.holds left right then constantComparison? right rest
          else return some (.bool false)

/-- Whether a filter can be applied in advance. -/
def isFoldableFilter (called : String) : Bool :=
  match Filter.ofName? called with
  | some found => !found.isContextual
  | none => false

/-- What both of two folded terms amount to, if the first one decides or both are literals. -/
def bothOf (left right : Term) : Heap (Option Value) := do
  match ← constant? left with
  | none => return none
  | some value => if ← value.truth then constant? right else return some value

/-- What one of two folded terms amounts to, if the first one decides or both are literals. -/
def eitherOf (left right : Term) : Heap (Option Value) := do
  match ← constant? left with
  | none => return none
  | some value => if ← value.truth then return some value else constant? right

/-- What a conditional of folded terms amounts to. -/
def conditionalOf (condition result otherwise : Term) : Heap (Option Value) := do
  match ← constant? condition with
  | none => return none
  | some value => if ← value.truth then constant? result else constant? otherwise

mutual

/-- A term with its constant parts computed. -/
def fold : Term → Heap Term
  | literal value => return literal value
  | name written => return name written
  | noElse line => return noElse line
  | tuple parts => return tuple (← foldAll parts)
  | list parts => return list (← foldAll parts)
  | dict entries => return dict (← foldEntries entries)
  | .attribute owner member => do
      let owner ← fold owner
      orConstant (.attribute owner member) (fromOne owner (getAttribute · member))
  | item owner key => do
      let owner ← fold owner
      let key ← fold key
      match key with
      | slice start stop step =>
          orConstant (item owner key) do
            match ← constant? owner, ← constants? [start, stop, step] with
            | some value, some [start, stop, step] => return some (← value.slice start stop step)
            | _, _ => return none
      | _ => orConstant (item owner key) (fromTwo owner key getItem)
  | slice start stop step => return slice (← fold start) (← fold stop) (← fold step)
  | call callee arguments => return call (← fold callee) (← foldArguments arguments)
  | filter operand called arguments => do
      let operand ← fold operand
      let arguments ← foldArguments arguments
      orConstant (filter operand called arguments) do
        if !isFoldableFilter called then return none
        match ← constant? operand, ← constantArguments? (filterLabel called) arguments ⟨[], []⟩ with
        | some value, some arguments => return some (← applyFilter called value arguments)
        | _, _ => return none
  | test operand called arguments => do
      let operand ← fold operand
      let arguments ← foldArguments arguments
      orConstant (test operand called arguments) do
        match ← constant? operand, ← constantArguments? (testLabel called) arguments ⟨[], []⟩ with
        | some value, some arguments => return some (.bool (← applyTest called value arguments))
        | _, _ => return none
  | negation operand => do
      let operand ← fold operand
      orConstant (negation operand) (fromOne operand fun value => do
        return .bool (!(← value.truth)))
  | minus operand => do
      let operand ← fold operand
      orConstant (minus operand) (fromOne operand Value.negate)
  | plus operand => do
      let operand ← fold operand
      orConstant (plus operand) (fromOne operand Value.affirm)
  | both left right => do
      let left ← fold left
      let right ← fold right
      orConstant (both left right) (bothOf left right)
  | either left right => do
      let left ← fold left
      let right ← fold right
      orConstant (either left right) (eitherOf left right)
  | binary operation left right => do
      let left ← fold left
      let right ← fold right
      orConstant (binary operation left right) (fromTwo left right (Value.operate operation))
  | joined parts => do
      let parts ← foldAll parts
      orConstant (joined parts) do
        match ← constants? parts with
        | some values => return some (← joinTexts values)
        | none => return none
  | comparison first others => do
      let first ← fold first
      let others ← foldOthers others
      orConstant (comparison first others) do
        match ← constant? first with
        | some value => constantComparison? value others
        | none => return none
  | conditional condition result otherwise => do
      let condition ← fold condition
      let result ← fold result
      let otherwise ← fold otherwise
      orConstant (conditional condition result otherwise)
        (conditionalOf condition result otherwise)

/-- Terms with their constant parts computed. -/
def foldAll : List Term → Heap (List Term)
  | [] => return []
  | term :: rest => return (← fold term) :: (← foldAll rest)

/-- Entries with their constant parts computed. -/
def foldEntries : List (Term × Term) → Heap (List (Term × Term))
  | [] => return []
  | (key, value) :: rest => return (← fold key, ← fold value) :: (← foldEntries rest)

/-- Later operands of a comparison with their constant parts computed. -/
def foldOthers : List (Relation × Term) → Heap (List (Relation × Term))
  | [] => return []
  | (relation, term) :: rest => return (relation, ← fold term) :: (← foldOthers rest)

/-- Arguments with their constant parts computed. -/
def foldArguments : List Argument → Heap (List Argument)
  | [] => return []
  | .positional value :: rest => return .positional (← fold value) :: (← foldArguments rest)
  | .named key value :: rest => return .named key (← fold value) :: (← foldArguments rest)
  | .spread values :: rest => return .spread (← fold values) :: (← foldArguments rest)
  | .spreadNamed values :: rest =>
      return .spreadNamed (← fold values) :: (← foldArguments rest)

end

/-- Requires that a filter or a test is known, unless it stands in a branch that may be left out. -/
def requireKnown (lenient known : Bool) (kind called : String) : Heap Unit :=
  if known || lenient then return ()
  else throw (.malformed ("No " ++ kind ++ " named " ++ Text.quote called ++ "."))

/-- Requires that no argument is named twice. -/
def requireDistinct : List Argument → Heap Unit
  | [] => return ()
  | .named key _ :: rest => do
      let isSame (argument : Argument) : Bool :=
        match argument with
        | .named other _ => other == key
        | _ => false
      if rest.any isSame then
        throw (.error .invalidCode ("keyword argument repeated: " ++ key))
      requireDistinct rest
  | _ :: rest => requireDistinct rest

mutual

/-- Checks a folded term: every filter and every test has to be known, except in the branches of a
conditional, and literals must not be too long to be written. -/
def check (lenient : Bool) : Term → Heap Unit
  | literal value => do
      let _ ← match value with
        | .int number => Value.intText number
        | _ => pure []
  | name _ | noElse _ => return ()
  | tuple parts | list parts | joined parts => checkAll lenient parts
  | dict entries => checkEntries lenient entries
  | .attribute owner _ => check lenient owner
  | item owner (slice start stop step) => do
      check lenient owner
      check lenient start
      check lenient stop
      check lenient step
  | item owner key => do
      check lenient owner
      check lenient key
  | slice .. => throw (.error .invalidCode "invalid syntax")
  | call callee arguments => do
      check lenient callee
      requireDistinct arguments
      checkArguments lenient arguments
  | filter operand called arguments => do
      requireKnown lenient (Filter.ofName? called).isSome "filter" called
      check lenient operand
      requireDistinct arguments
      checkArguments lenient arguments
  | test operand called arguments => do
      requireKnown lenient (Test.ofName? called).isSome "test" called
      check lenient operand
      requireDistinct arguments
      checkArguments lenient arguments
  | negation operand | minus operand | plus operand => check lenient operand
  | both left right | either left right | binary _ left right => do
      check lenient left
      check lenient right
  | comparison first others => do
      check lenient first
      checkOthers lenient others
  | conditional condition result otherwise => do
      check true result
      check true condition
      check true otherwise

/-- Checks folded terms. -/
def checkAll (lenient : Bool) : List Term → Heap Unit
  | [] => return ()
  | term :: rest => do
      check lenient term
      checkAll lenient rest

/-- Checks folded entries. -/
def checkEntries (lenient : Bool) : List (Term × Term) → Heap Unit
  | [] => return ()
  | (key, value) :: rest => do
      check lenient key
      check lenient value
      checkEntries lenient rest

/-- Checks the folded later operands of a comparison. -/
def checkOthers (lenient : Bool) : List (Relation × Term) → Heap Unit
  | [] => return ()
  | (_, term) :: rest => do
      check lenient term
      checkOthers lenient rest

/-- Checks folded arguments. -/
def checkArguments (lenient : Bool) : List Argument → Heap Unit
  | [] => return ()
  | .positional value :: rest => do
      check lenient value
      checkArguments lenient rest
  | .named _ value :: rest => do
      check lenient value
      checkArguments lenient rest
  | .spread values :: rest => do
      check lenient values
      checkArguments lenient rest
  | .spreadNamed values :: rest => do
      check lenient values
      checkArguments lenient rest

end

end Term

/-- A term that is ready to be evaluated, with the names that have to be looked up for it. -/
structure Program where
  term : Term
  names : List String

/-- What is computed on a store of its own. -/
def aside {α : Type} (computation : Heap α) : Except Fault α :=
  (computation.run.run .empty).1

/-- Reads an expression and prepares it for its evaluation.  The values of its constant parts are gone before
anything is looked up. -/
def translate (expression : List Char) : Except Fault Program := do
  let term ← parse expression
  let folded ← aside term.fold
  aside (folded.check false)
  return ⟨folded, term.names⟩

/-- The program of an expression. -/
def compile (expression : List Char) : Heap Program :=
  MonadExcept.ofExcept (translate expression)

/-- A program that is kept for the letters of an expression. -/
structure Compiled where
  letters : List Char
  program : Program

end Imprint.Expression
