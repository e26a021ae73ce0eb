import Imprint.Value.Arithmetic
import Imprint.Value.Compare

set_option autoImplicit false

/-!
# Terms

The structure of an expression.  Arguments of a call stand in the order in which they are evaluated:
positional ones, a spread sequence, named ones, and a spread mapping.
-/

namespace Imprint.Expression

/-- The relations that a comparison tests. -/
inductive Relation where
  | equal
  | different
  | ordered (test : Value.OrderTest)
  | within
  | outside
deriving DecidableEq, Repr, Inhabited

mutual

/-- An expression. -/
inductive Term where
  | literal (value : Value)
  | name (name : String)
  | tuple (items : List Term)
  | list (items : List Term)
  | dict (entries : List (Term × Term))
  | attribute (owner : Term) (name : String)
  | item (owner key : Term)
  /-- A piece of a sequence, as the key of an item. -/
  | slice (start stop step : Term)
  | call (callee : Term) (arguments : List Argument)
  | filter (operand : Term) (name : String) (arguments : List Argument)
  | test (operand : Term) (name : String) (arguments : List Argument)
  | negation (operand : Term)
  | minus (operand : Term)
  | plus (operand : Term)
  | both (left right : Term)
  | either (left right : Term)
  | binary (operation : Value.Operation) (left right : Term)
  | joined (parts : List Term)
  | comparison (first : Term) (others : List (Relation × Term))
  | conditional (condition result otherwise : Term)
  /-- What a conditional without an alternative has in its place. -/
  | noElse (line : Nat)

/-- An argument of a call, a filter or a test. -/
inductive Argument where
  | positional (value : Term)
  | named (name : String) (value : Term)
  | spread (values : Term)
  | spreadNamed (values : Term)

end

instance : Inhabited Term := ⟨.literal .null⟩

namespace Term

mutual

/-- The names that an expression uses, in the order in which they are looked up. -/
def names : Term → List String
  | literal _ | noElse _ => []
  | name written => [written]
  | tuple items | list items | joined items => namesOfAll items
  | dict entries => namesOfEntries entries
  | .attribute owner _ => names owner
  | item owner key => names owner ++ names key
  | slice start stop step => names start ++ names stop ++ names step
  | call callee arguments =>
      names callee ++ namesOfDirect arguments ++ namesOfSpread arguments
  | filter operand _ arguments | test operand _ arguments =>
      names operand ++ namesOfDirect arguments ++ namesOfSpread arguments
  | negation operand | minus operand | plus operand => names operand
  | both left right | either left right | binary _ left right => names left ++ names right
  | comparison first others => names first ++ namesOfOthers others
  | conditional condition result otherwise =>
      names condition ++ names result ++ names otherwise

/-- The names in some expressions. -/
def namesOfAll : List Term → List String
  | [] => []
  | term :: rest => names term ++ namesOfAll rest

/-- The names in the entries of a dictionary. -/
def namesOfEntries : List (Term × Term) → List String
  | [] => []
  | (key, value) :: rest => names key ++ names value ++ namesOfEntries rest

/-- The names in the later operands of a comparison. -/
def namesOfOthers : List (Relation × Term) → List String
  | [] => []
  | (_, term) :: rest => names term ++ namesOfOthers rest

/-- The names in the arguments that are not spread. -/
def namesOfDirect : List Argument → List String
  | [] => []
  | .positional value :: rest => names value ++ namesOfDirect rest
  | .named _ value :: rest => names value ++ namesOfDirect rest
  | .spread _ :: rest => namesOfDirect rest
  | .spreadNamed _ :: rest => namesOfDirect rest

/-- The names in the arguments that are spread. -/
def namesOfSpread : List Argument → List String
  | [] => []
  | .positional _ :: rest => namesOfSpread rest
  | .named _ _ :: rest => namesOfSpread rest
  | .spread values :: rest => names values ++ namesOfSpread rest
  | .spreadNamed values :: rest => names values ++ namesOfSpread rest

end

end Term

end Imprint.Expression
