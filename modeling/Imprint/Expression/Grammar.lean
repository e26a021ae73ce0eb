import Imprint.Expression.Lexer
import Imprint.Expression.Term

set_option autoImplicit false

/-!
# Grammar of expressions

A parser for each level of binding strength, from conditionals down to primary expressions.  The
parser of a bracketed expression is handed down to the levels below as `inner`, so that only the
outermost one, `conditional`, refers to itself; it does so at most once per token.
-/

namespace Imprint.Expression

/-- A computation that reads tokens. -/
abbrev Parser (α : Type) : Type := StateT (List Token) (Except Fault) α

namespace Parser

/-- The token that is read next. -/
def current : Parser Token := do
  match ← get with
  | [] => return ⟨.ending, 1⟩
  | token :: _ => return token

/-- Fails at a token that cannot be read. -/
def requireReadable : List Token → Parser Unit
  | ⟨.broken fault, _⟩ :: _ => throw fault
  | _ => return ()

/-- Takes the current token. -/
def advance : Parser Token := do
  match ← get with
  | [] => return ⟨.ending, 1⟩
  | token :: rest =>
      if token.word.isEnding then return token
      requireReadable rest
      set rest
      return token

/-- The word behind the current one. -/
def following : Parser Word := do
  let rest := (← get).drop 1
  requireReadable rest
  return (rest.head?.map (·.word)).getD .ending

/-- The current word. -/
def word : Parser Word := return (← current).word

/-- Whether the current token is a sign. -/
def atSign (sign : String) : Parser Bool := return (← word).isSign sign

/-- Whether the current token is a name. -/
def atName (name : String) : Parser Bool := return (← word).isNamed name

/-- Takes a name if it is the current token. -/
def skipName (name : String) : Parser Bool := do
  if ← atName name then
    let _ ← advance
    return true
  else return false

/-- Another token than the expected one. -/
def unexpected (expected : String) (found : Word) : Fault :=
  if found.isEnding then
    .malformed ("unexpected end of template, expected " ++ Text.quote expected ++ ".")
  else
    .malformed ("expected token " ++ Text.quote expected ++ ", got " ++
      Text.quote found.description)

/-- Takes a sign that has to be there. -/
def expectSign (sign : String) : Parser Unit := do
  let found ← word
  if found.isSign sign then
    let _ ← advance
  else throw (unexpected sign found)

/-- Takes a name that has to be there. -/
def expectName : Parser String := do
  match ← word with
  | .name found =>
      let _ ← advance
      return found
  | other => throw (unexpected "name" other)

/-- Takes names with points between them. -/
def dottedName : Nat → String → Parser String
  | 0, found => return found
  | fuel + 1, found => do
      if ← atSign "." then
        let _ ← advance
        dottedName fuel (found ++ "." ++ (← expectName))
      else return found

/-- The number of tokens left. -/
def remaining : Parser Nat := return (← get).length

/-- Extends a term as often as that is possible. -/
def extend (step : Term → Parser (Option Term)) : Nat → Term → Parser Term
  | 0, term => return term
  | fuel + 1, term => do
      match ← step term with
      | some longer => extend step fuel longer
      | none => return term

/-- Operands joined by operators of one binding strength, from left to right. -/
def chain (operator : Parser (Option (Term → Term → Term))) (operand : Parser Term) :
    Parser Term := do
  let first ← operand
  let step (left : Term) : Parser (Option Term) := do
    match ← operator with
    | none => return none
    | some combine => return some (combine left (← operand))
  extend step (← remaining) first

/-- An operator that is a name. -/
def nameOperator (name : String) (combine : Term → Term → Term) :
    Parser (Option (Term → Term → Term)) := do
  return if ← skipName name then some combine else none

/-- An operator that is one of some signs. -/
def signOperator (signs : List (String × Value.Operation)) :
    Parser (Option (Term → Term → Term)) := do
  match ← word with
  | .sign written =>
      match signs.lookup written with
      | some operation =>
          let _ ← advance
          return some (Term.binary operation)
      | none => return none
  | _ => return none

/-- Expressions separated by commas up to a closing sign, which may follow a comma.  The number is
the most expressions there can be. -/
def sequenceUpTo (closing : String) (entry : Parser Term) : Nat → List Term → Parser (List Term)
  | 0, found => return found.reverse
  | fuel + 1, found => do
      if ← atSign closing then return found.reverse
      if !found.isEmpty then expectSign ","
      if ← atSign closing then return found.reverse
      sequenceUpTo closing entry fuel ((← entry) :: found)

/-- The entries of a dictionary. -/
def entriesUpTo (inner : Parser Term) : Nat → List (Term × Term) → Parser (List (Term × Term))
  | 0, found => return found.reverse
  | fuel + 1, found => do
      if ← atSign "\x7d" then return found.reverse
      if !found.isEmpty then expectSign ","
      if ← atSign "\x7d" then return found.reverse
      let key ← inner
      expectSign ":"
      let value ← inner
      entriesUpTo inner fuel ((key, value) :: found)

/-- Whether the items of a bracketed expression end here. -/
def atTupleEnd : Parser Bool := do
  match ← word with
  | .closing => return true
  | other => return other.isSign ")"

/-- The items in round brackets, and whether a comma makes them a tuple. -/
def tupleItems (inner : Parser Term) : Nat → List Term → Bool → Parser (List Term × Bool)
  | 0, found, isTuple => return (found.reverse, isTuple)
  | fuel + 1, found, isTuple => do
      if !found.isEmpty then expectSign ","
      if ← atTupleEnd then return (found.reverse, isTuple)
      let found := (← inner) :: found
      if ← atSign "," then tupleItems inner fuel found true
      else return (found.reverse, isTuple)

/-- What stands in round brackets. -/
def bracketed (inner : Parser Term) : Parser Term := do
  expectSign "("
  let (items, isTuple) ← tupleItems inner (← remaining) [] false
  expectSign ")"
  match items, isTuple with
  | [term], false => return term
  | _, _ => return .tuple items

/-- Adjacent texts are one text. -/
def adjacentTexts : Nat → List Nat → Parser (List Nat)
  | 0, found => return found
  | fuel + 1, found => do
      match ← word with
      | .text codes =>
          let _ ← advance
          adjacentTexts fuel (found ++ codes)
      | _ => return found

/-- The meaning of a name that stands alone. -/
def ofName (name : String) : Term :=
  if name = "true" || name = "True" then .literal (.bool true)
  else if name = "false" || name = "False" then .literal (.bool false)
  else if name = "none" || name = "None" then .literal .null
  else .name name

/-- A name, a literal, or something in brackets. -/
def primary (inner : Parser Term) : Parser Term := do
  match ← word with
  | .name name =>
      let _ ← advance
      return ofName name
  | .text codes =>
      let _ ← advance
      return .literal (.ofCodes (← adjacentTexts (← remaining) codes))
  | .integer number =>
      let _ ← advance
      return .literal (.int (Int.ofNat number))
  | .float number =>
      let _ ← advance
      return .literal (.float number)
  | .sign "(" => bracketed inner
  | .sign "[" => do
      let _ ← advance
      let items ← sequenceUpTo "]" inner (← remaining) []
      expectSign "]"
      return .list items
  | .sign "\x7b" => do
      let _ ← advance
      let entries ← entriesUpTo inner (← remaining) []
      expectSign "\x7d"
      return .dict entries
  | other => throw (.malformed ("unexpected " ++ Text.quote other.description))

/-- An optional part of a piece, absent in front of a comma or the closing bracket. -/
def optionalBound (inner : Parser Term) : Parser Term := do
  if (← atSign "]") || (← atSign ",") then return .literal .null else inner

/-- A key in square brackets, or a piece. -/
def subscript (inner : Parser Term) : Parser Term := do
  let start ← if ← atSign ":" then pure (Term.literal .null) else inner
  if ← atSign ":" then
    let _ ← advance
    let stop ← if ← atSign ":" then pure (Term.literal .null) else optionalBound inner
    if ← atSign ":" then
      let _ ← advance
      return .slice start stop (← optionalBound inner)
    else return .slice start stop (.literal .null)
  else return start

/-- The keys in square brackets, separated by commas. -/
def subscripts (inner : Parser Term) : Nat → List Term → Parser (List Term)
  | 0, found => return found.reverse
  | fuel + 1, found => do
      if ← atSign "]" then return found.reverse
      if !found.isEmpty then expectSign ","
      subscripts inner fuel ((← subscript inner) :: found)

/-- The arguments of a call while they are read. -/
structure CallArguments where
  positional : List Term
  named : List (String × Term)
  spread : Option Term
  spreadNamed : Option Term

namespace CallArguments

/-- The arguments in the order of their evaluation. -/
def ordered (arguments : CallArguments) : List Argument :=
  arguments.positional.map .positional ++ arguments.spread.toList.map .spread ++
    arguments.named.map (fun entry => .named entry.1 entry.2) ++
    arguments.spreadNamed.toList.map .spreadNamed

end CallArguments

/-- Fails if an argument stands in a place where it cannot. -/
def ensureArgument (allowed : Bool) : Parser Unit :=
  if allowed then return () else
    throw (.malformed "invalid syntax for function call expression")

/-- One argument of a call. -/
def argument (inner : Parser Term) (found : CallArguments) : Parser CallArguments := do
  if ← atSign "*" then
    ensureArgument (found.spread.isNone && found.spreadNamed.isNone)
    let _ ← advance
    return { found with spread := some (← inner) }
  else if ← atSign "**" then
    ensureArgument found.spreadNamed.isNone
    let _ ← advance
    return { found with spreadNamed := some (← inner) }
  else
    let key? ← match ← word with
      | .name key => do pure (if (← following).isSign "=" then some key else none)
      | _ => pure none
    match key? with
    | some key =>
        ensureArgument found.spreadNamed.isNone
        let _ ← advance
        let _ ← advance
        return { found with named := found.named ++ [(key, ← inner)] }
    | none =>
        ensureArgument
          (found.spread.isNone && found.spreadNamed.isNone && found.named.isEmpty)
        return { found with positional := found.positional ++ [← inner] }

/-- The arguments up to the closing bracket. -/
def argumentsUpTo (inner : Parser Term) : Nat → Bool → CallArguments → Parser CallArguments
  | 0, _, found => return found
  | fuel + 1, needsComma, found => do
      if ← atSign ")" then return found
      if needsComma then expectSign ","
      if needsComma && (← atSign ")") then return found
      argumentsUpTo inner fuel true (← argument inner found)

/-- The arguments in round brackets. -/
def callArguments (inner : Parser Term) : Parser (List Argument) := do
  expectSign "("
  let found ← argumentsUpTo inner (← remaining) false ⟨[], [], none, none⟩
  expectSign ")"
  return found.ordered

/-- What follows a point. -/
def member (owner : Term) : Parser Term := do
  match ← word with
  | .name name =>
      let _ ← advance
      return .attribute owner name
  | .integer number =>
      let _ ← advance
      return .item owner (.literal (.int (Int.ofNat number)))
  | _ =>
      let _ ← advance
      throw (.malformed "expected name or number")

/-- One step behind a term: an attribute, an item or a call. -/
def postfixStep (inner : Parser Term) (term : Term) : Parser (Option Term) := do
  match ← word with
  | .sign "." => do
      let _ ← advance
      return some (← member term)
  | .sign "[" => do
      let _ ← advance
      let keys ← subscripts inner (← remaining) []
      expectSign "]"
      match keys with
      | [key] => return some (.item term key)
      | _ => return some (.item term (.tuple keys))
  | .sign "(" => return some (.call term (← callArguments inner))
  | _ => return none

/-- All steps behind a term. -/
def postfixes (inner : Parser Term) (term : Term) : Parser Term := do
  extend (postfixStep inner) (← remaining) term

/-- A filter behind the bar. -/
def filterStep (inner : Parser Term) (term : Term) : Parser Term := do
  let first ← expectName
  let name ← dottedName (← remaining) first
  if ← atSign "(" then return .filter term name (← callArguments inner)
  else return .filter term name []

/-- Whether a word starts the only argument of a test without brackets. -/
def startsTestArgument : Word → Bool
  | .name name => name != "else" && name != "or" && name != "and"
  | .text _ | .integer _ | .float _ => true
  | .sign written => written == "[" || written == "\x7b"
  | _ => false

/-- A test behind its mark. -/
def testStep (inner : Parser Term) (term : Term) : Parser Term := do
  let negated ← skipName "not"
  let first ← expectName
  let name ← dottedName (← remaining) first
  let arguments ←
    if ← atSign "(" then callArguments inner
    else if startsTestArgument (← word) then
      if ← atName "is" then throw (.malformed "You cannot chain multiple tests with is")
      pure [.positional (← postfixes inner (← primary inner))]
    else pure []
  let test := Term.test term name arguments
  return if negated then .negation test else test

/-- One filter, test or call behind a term. -/
def filterOrTest (inner : Parser Term) (term : Term) : Parser (Option Term) := do
  match ← word with
  | .sign "|" => do
      let _ ← advance
      return some (← filterStep inner term)
  | .name "is" => do
      let _ ← advance
      return some (← testStep inner term)
  | .sign "(" => return some (.call term (← callArguments inner))
  | _ => return none

/-- A term with a sign in front, or a primary one, without filters. -/
def signed (inner : Parser Term) : Nat → Parser Term
  | 0 => throw .tooDeep
  | fuel + 1 => do
      match ← word with
      | .sign "-" => do
          let _ ← advance
          postfixes inner (.minus (← signed inner fuel))
      | .sign "+" => do
          let _ ← advance
          postfixes inner (.plus (← signed inner fuel))
      | _ => postfixes inner (← primary inner)

/-- A term with its filters and tests. -/
def filtered (inner : Parser Term) : Parser Term := do
  let term ← signed inner ((← remaining) + 1)
  extend (filterOrTest inner) (← remaining) term

/-- Powers. -/
def power (inner : Parser Term) : Parser Term :=
  chain (signOperator [("**", .power)]) (filtered inner)

/-- Products and quotients. -/
def product (inner : Parser Term) : Parser Term :=
  chain (signOperator [("*", .multiply), ("/", .divide), ("//", .floorDivide), ("%", .remainder)])
    (power inner)

/-- More parts of a joined text. -/
def moreParts (inner : Parser Term) : Nat → List Term → Parser (List Term)
  | 0, found => return found.reverse
  | fuel + 1, found => do
      if ← atSign "~" then
        let _ ← advance
        moreParts inner fuel ((← product inner) :: found)
      else return found.reverse

/-- Texts joined to one. -/
def joining (inner : Parser Term) : Parser Term := do
  let first ← product inner
  match ← moreParts inner (← remaining) [first] with
  | [term] => return term
  | parts => return .joined parts

/-- Sums and differences. -/
def sum (inner : Parser Term) : Parser Term :=
  chain (signOperator [("+", .add), ("-", .subtract)]) (joining inner)

/-- The relation that a sign stands for. -/
def relationOf? : String → Option Relation
  | "==" => some .equal
  | "!=" => some .different
  | "<" => some (.ordered .less)
  | "<=" => some (.ordered .lessEqual)
  | ">" => some (.ordered .greater)
  | ">=" => some (.ordered .greaterEqual)
  | _ => none

/-- Takes a relation. -/
def relation : Parser (Option Relation) := do
  match ← word with
  | .sign written =>
      match relationOf? written with
      | some found =>
          let _ ← advance
          return some found
      | none => return none
  | .name "in" => do
      let _ ← advance
      return some .within
  | .name "not" => do
      if (← following).isNamed "in" then
        let _ ← advance
        let _ ← advance
        return some .outside
      else return none
  | _ => return none

/-- More operands of a comparison. -/
def moreOperands (inner : Parser Term) :
    Nat → List (Relation × Term) → Parser (List (Relation × Term))
  | 0, found => return found.reverse
  | fuel + 1, found => do
      match ← relation with
      | some relation => moreOperands inner fuel ((relation, ← sum inner) :: found)
      | none => return found.reverse

/-- Comparisons. -/
def comparison (inner : Parser Term) : Parser Term := do
  let first ← sum inner
  match ← moreOperands inner (← remaining) [] with
  | [] => return first
  | others => return .comparison first others

/-- Negations. -/
def negated (inner : Parser Term) : Nat → Parser Term
  | 0 => throw .tooDeep
  | fuel + 1 => do
      if ← skipName "not" then return .negation (← negated inner fuel) else comparison inner

/-- Conjunctions. -/
def conjunction (inner : Parser Term) : Parser Term :=
  chain (nameOperator "and" .both) (do negated inner ((← remaining) + 1))

/-- Disjunctions. -/
def disjunction (inner : Parser Term) : Parser Term :=
  chain (nameOperator "or" .either) (conjunction inner)

/-- The conditions behind a term. -/
def conditions (inner : Parser Term) : Nat → Nat → Term → Parser Term
  | 0, _, term => return term
  | fuel + 1, line, term => do
      if ← skipName "if" then
        let condition ← disjunction inner
        let otherwise ← if ← skipName "else" then inner else pure (.noElse line)
        let next := (← current).line
        conditions inner fuel next (.conditional condition term otherwise)
      else return term

/-- Any expression, with brackets nested up to a depth. -/
def conditional : Nat → Parser Term
  | 0 => throw .tooDeep
  | fuel + 1 => do
      let line := (← current).line
      let inner := conditional fuel
      let term ← disjunction inner
      conditions inner ((← remaining) + 1) line term

/-- A whole expression. -/
def whole : Parser Term := do
  requireReadable (← get)
  let term ← conditional ((← remaining) + 1)
  if (← word).isEnding then return term
  else throw (.malformed "chunk after expression")

end Parser

/-- The structure of an expression. -/
def parse (expression : List Char) : Except Fault Term :=
  (Parser.whole.run (tokens expression)).map (·.1)

end Imprint.Expression
