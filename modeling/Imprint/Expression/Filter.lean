import Imprint.Expression.Selecting
import Imprint.Expression.Test

set_option autoImplicit false

/-!
# Filters

A filter makes a new value from a value.  Each has named parameters; in front of them some take the
environment, which counts in messages about the number of arguments.
-/

namespace Imprint.Expression

-- Powers of numbers are those of the core library, whatever else is imported.
attribute [local instance (high)] instPowNat

/-- The filters. -/
inductive Filter where
  | absolute
  | member
  | capitalize
  | default
  | dictsort
  | first
  | float
  | int
  | items
  | join
  | last
  | length
  | list
  | lower
  | map
  | largest
  | smallest
  | reject
  | rejectattr
  | replace
  | reverse
  | round
  | select
  | selectattr
  | sort
  | text
  | sum
  | title
  | trim
  | unique
  | upper
deriving DecidableEq, Repr, Inhabited

namespace Filter

/-- All filters by name. -/
def named : List (String × Filter) :=
  [("abs", absolute), ("attr", member), ("capitalize", capitalize), ("count", length),
    ("d", default), ("default", default), ("dictsort", dictsort), ("first", first),
    ("float", float), ("int", int), ("items", items), ("join", join), ("last", last),
    ("length", length), ("list", list), ("lower", lower), ("map", map), ("max", largest),
    ("min", smallest), ("reject", reject), ("rejectattr", rejectattr), ("replace", replace),
    ("reverse", reverse), ("round", round), ("select", select), ("selectattr", selectattr),
    ("sort", sort), ("string", text), ("sum", sum), ("title", title), ("trim", trim),
    ("unique", unique), ("upper", upper)]

/-- The filter with a name. -/
def ofName? (name : String) : Option Filter :=
  named.lookup name

/-- The parameters of a filter, or the name of one that takes nothing but the value. -/
def shape : Filter → Test.Shape
  | absolute => .single "abs"
  | length => .single "len"
  | member => .named (.fixed "do_attr" ["environment", "obj", "name"] [])
  | capitalize => .named (.fixed "do_capitalize" ["s"] [])
  | default => .named (.fixed "do_default" ["value"] ["default_value", "boolean"])
  | dictsort => .named (.fixed "do_dictsort" ["value"] ["case_sensitive", "by", "reverse"])
  | first => .named (.fixed "sync_do_first" ["environment", "seq"] [])
  | float => .named (.fixed "do_float" ["value"] ["default"])
  | int => .named (.fixed "do_int" ["value"] ["default", "base"])
  | items => .named (.fixed "do_items" ["value"] [])
  | join => .named (.fixed "sync_do_join" ["eval_ctx", "value"] ["d", "attribute"])
  | last => .named (.fixed "do_last" ["environment", "seq"] [])
  | list => .named (.fixed "sync_do_list" ["value"] [])
  | lower => .named (.fixed "do_lower" ["s"] [])
  | map => .named ⟨"sync_do_map", [⟨"context", true⟩, ⟨"value", true⟩], true, true⟩
  | largest => .named (.fixed "do_max" ["environment", "value"] ["case_sensitive", "attribute"])
  | smallest => .named (.fixed "do_min" ["environment", "value"] ["case_sensitive", "attribute"])
  | reject => .named ⟨"sync_do_reject", [⟨"context", true⟩, ⟨"value", true⟩], true, true⟩
  | rejectattr => .named ⟨"sync_do_rejectattr", [⟨"context", true⟩, ⟨"value", true⟩], true, true⟩
  | replace => .named (.fixed "do_replace" ["eval_ctx", "s", "old", "new"] ["count"])
  | reverse => .named (.fixed "do_reverse" ["value"] [])
  | round => .named (.fixed "do_round" ["value"] ["precision", "method"])
  | select => .named ⟨"sync_do_select", [⟨"context", true⟩, ⟨"value", true⟩], true, true⟩
  | selectattr => .named ⟨"sync_do_selectattr", [⟨"context", true⟩, ⟨"value", true⟩], true, true⟩
  | sort => .named
      (.fixed "do_sort" ["environment", "value"] ["reverse", "case_sensitive", "attribute"])
  | text => .named (.fixed "soft_str" ["s"] [])
  | sum => .named (.fixed "sync_do_sum" ["environment", "iterable"] ["attribute", "start"])
  | title => .named (.fixed "do_title" ["s"] [])
  | trim => .named (.fixed "do_trim" ["value"] ["chars"])
  | unique => .named (.fixed "do_unique" ["environment", "value"] ["case_sensitive", "attribute"])
  | upper => .named (.fixed "do_upper" ["s"] [])

/-- Whether a filter is given the environment in front of the value. -/
def takesEnvironment (filter : Filter) : Bool :=
  match filter.shape with
  | .named signature =>
      match signature.parameters with
      | parameter :: _ =>
          ["environment", "eval_ctx", "context"].contains parameter.name
      | [] => false
  | _ => false

/-- Whether a filter depends on more than its value and arguments, so that its result cannot be
known in advance. -/
def isContextual : Filter → Bool
  | map | reject | rejectattr | select | selectattr => true
  | _ => false

/-- The arguments of a filter, without the environment: the value, the further parameters, and what
is left over. -/
structure Input where
  value : Value
  parameters : List (Option Value)
  rest : Arguments

/-- Assigns the arguments of a filter. -/
def bind (filter : Filter) (value : Value) (arguments : Arguments) : Heap Input := do
  match filter.shape with
  | .named signature =>
      let lead := if filter.takesEnvironment then [Value.null, value] else [value]
      let binding ← signature.bind { arguments with positional := lead ++ arguments.positional }
      return ⟨value, binding.values.drop lead.length, ⟨binding.rest, binding.named⟩⟩
  | .single label | .pair label =>
      if !arguments.named.isEmpty then
        throw (.typeError (label ++ "() takes no keyword arguments"))
      match arguments.positional with
      | [] => return ⟨value, [], .empty⟩
      | others => throw (.typeError (label ++ "() takes exactly one argument (" ++
          toString (others.length + 1) ++ " given)"))

/-- A further parameter of a filter, or its default value. -/
def Input.parameter (input : Input) (index : Nat) (default : Value) : Value :=
  ((input.parameters[index]?).getD none).getD default

/-- The attribute with a name, without a look at the items. -/
def readAttribute (value name : Value) : Heap Value := do
  match name with
  | .text written =>
      match ← value.attribute? written with
      | some found => return allowed value written found
      | none => return .undefined false (.attribute value.description written)
  | other =>
      Value.requireKey other
      throw (.typeError "hasattr(): attribute name must be string")

/-- The entries of a dictionary sorted by keys or by values. -/
def sortEntries (input : Input) : Heap Value := do
  let byKey ← Value.isEqual (input.parameter 1 (.text "key")) (.text "key")
  let byValue ← if byKey then pure false
    else Value.isEqual (input.parameter 1 (.text "key")) (.text "value")
  if !byKey && !byValue then
    throw (.misuse "You can only sort by either \"key\" or \"value\"")
  match input.value with
  | .dict cell =>
      let entries ← Heap.entries cell
      let reverse ← Value.requireInt (input.parameter 2 (.bool false))
      let keyed ← entries.mapM fun (entry : Value × Value) => do
        let part := if byKey then entry.1 else entry.2
        let sensitive ← (input.parameter 0 (.bool false)).truth
        return (if sensitive then part else ignoreCase part, Value.tuple [entry.1, entry.2])
      Heap.newList (← Value.sortByKeys keyed (reverse != 0))
  | .undefined _ missing => throw (.undefined missing)
  | other => throw (.error .attribute
      ("'" ++ other.typeName ++ "' object has no attribute 'items'"))

/-- The entries of a dictionary, one by one. -/
def entryItems (value : Value) : Heap (List Value × Option Fault) := do
  match value with
  | .dict cell => return (Value.viewItems .items (← Heap.entries cell), none)
  | .undefined .. => return ([], none)
  | _ => throw (.typeError "Can only get item pairs from a mapping.")

/-- The whole number that a text written in a base stands for. -/
def readWhole? (content : String) (base : Value) : Option Int :=
  match base.asInt? with
  | none => none
  | some base =>
      if base = 0 || (2 ≤ base && base ≤ 36) then
        let digits := content.toList.filter fun letter => (Text.decimalValue? letter).isSome
        let isPower := base = 2 || base = 4 || base = 8 || base = 16 || base = 32
        if !isPower && digitLimit < digits.length then none
        else Number.readInt? base.toNat content.toList
      else none

/-- The whole number that a floating point number becomes. -/
def wholeOf (number : Float) : Heap Value := do
  match Number.view number with
  | .nan => throw (.valueError "cannot convert float NaN to integer")
  | .infinite _ => throw (.error .overflow "cannot convert float infinity to integer")
  | .finite .. => return .int ((Number.truncate? number).getD 0)

/-- Turns a value into an integer, or else into the default value. -/
def toInteger (value default base : Value) : Heap Value := do
  match value with
  | .text content =>
      match readWhole? content base with
      | some number => return .int number
      | none =>
          match Number.readFloat? content.toList with
          | some number =>
              match Number.truncate? number with
              | some whole => return .int whole
              | none => return default
          | none => return default
  | .bytes content =>
      match readWhole? (String.ofList (content.map fun byte => Char.ofNat byte.toNat)) (.int 10) with
      | some number => return .int number
      | none => return default
  | .float number =>
      match Number.view number with
      | .nan => return default
      | _ => wholeOf number
  | .undefined _ missing => throw (.undefined missing)
  | other =>
      match other.asInt? with
      | some number => return .int number
      | none => return default

/-- Turns a value into a floating point number, or else into the default value. -/
def toDecimal (value default : Value) : Heap Value := do
  match value with
  | .text content => return (Number.readFloat? content.toList).elim default .float
  | .bytes content =>
      return (Number.readFloat? (content.map fun byte => Char.ofNat byte.toNat)).elim default .float
  | .undefined _ missing => throw (.undefined missing)
  | other =>
      match ← Value.toFloat other with
      | some number => return .float number
      | none => return default

/-- An integer rounded to a unit. -/
def roundInteger (number : Int) (places : Int) : Int :=
  if 0 ≤ places then number
  -- a unit far larger than the number leaves nothing of it
  else if places.natAbs > Number.bitLength number.natAbs + 1 then 0
  else
    let unit := 10 ^ places.natAbs
    let size := Int.ofNat (Number.roundDiv number.natAbs unit * unit)
    if number < 0 then -size else size

/-- The nearest value with so many decimal places. -/
def roundNearest (value places : Value) : Heap Value := do
  match value with
  | .float number =>
      match places with
      | .null =>
          match Number.view number with
          | .finite .. => wholeOf (Number.roundPlaces number 0)
          | _ => wholeOf number
      | other =>
          let count ← Value.requireInt other
          let rounded := Number.roundPlaces number count
          if Number.isFinite number && !(Number.isFinite rounded) then
            throw (.error .overflow "rounded value too large to represent")
          return .float rounded
  | other =>
      match other.asInt? with
      | some number =>
          match places with
          | .null => return .int number
          | places => return .int (roundInteger number (← Value.requireInt places))
      | none => throw (.typeError
          ("type " ++ other.typeName ++ " doesn't define __round__ method"))

/-- A whole number at one side of a value. -/
def wholeBeside (value : Value) (up : Bool) : Heap Value := do
  match value with
  | .float number =>
      match (if up then Number.ceil? number else Number.floor? number) with
      | some whole => return .int whole
      | none => wholeOf number
  | .undefined _ missing => throw (.undefined missing)
  | other =>
      match other.asInt? with
      | some number => return .int number
      | none => throw (.typeError ("must be real number, not " ++ other.typeName))

/-- Rounds a value by one of the methods. -/
def rounded (input : Input) : Heap Value := do
  let places := input.parameter 0 (.int 0)
  let method := input.parameter 1 (.text "common")
  Value.requireKey method
  match method with
  | .text "common" => roundNearest input.value places
  | .text "ceil" | .text "floor" =>
      let up := match method with
        | .text "ceil" => true
        | _ => false
      let unit ← Value.operate .power (.int 10) places
      let scaled ← Value.operate .multiply input.value unit
      Value.operate .divide (← wholeBeside scaled up) (← Value.operate .power (.int 10) places)
  | _ => throw (.misuse "method must be common, ceil or floor")

/-- The items, or one of their attributes each. -/
def mappedItems (value steps : Value) : Heap (List Value × Option Fault) := do
  match steps with
  | .null => value.iterate
  | _ =>
      let path ← pathOf steps
      let (found, ending) ← value.iterate
      produce (fun item => return [← followPath path .null item]) found ending

/-- The texts of items with a text between them. -/
def joinItems (input : Input) : Heap Value := do
  let (found, ending) ← mappedItems input.value (input.parameter 1 .null)
  let between ← (input.parameter 0 (.text "")).plain
  let parts ← found.mapM Value.plain
  match ending with
  | some fault => throw fault
  | none => return .ofText (Text.joinWith between parts)

/-- The first of the results, unless there is none. -/
def firstOf (missing : String) (found : List Value) (ending : Option Fault) : Heap Value := do
  match found, ending with
  | item :: _, _ => return item
  | [], some fault => throw fault
  | [], none => return .undefined false (.hint missing)

/-- The items backwards, one by one. -/
def backwards (value : Value) : Heap Value := do
  match value with
  | .text content => return .ofText content.toList.reverse
  | .undefined false missing => throw (.undefined missing)
  | other =>
      match ← attempt (reversedItems other) with
      | .ok found => return .stream (reversedTypeName other) found none
      | .error _ =>
          if other.isIterable then Heap.newList (← other.items).reverse
          else throw (.misuse "argument must be iterable")

/-- The sum of items. -/
def total (input : Input) : Heap Value := do
  let start := input.parameter 1 (.int 0)
  let (found, ending) ← mappedItems input.value (input.parameter 0 .null)
  match start with
  | .text _ => throw (.typeError "sum() can't sum strings [use ''.join(seq) instead]")
  | .bytes _ => throw (.typeError "sum() can't sum bytes [use b''.join(seq) instead]")
  | _ => pure ()
  let result ← found.foldlM (Value.operate .add) start
  match ending with
  | some fault => throw fault
  | none => return result

/-- The items in order. -/
def sorted (input : Input) : Heap Value := do
  let paths ← match input.parameter 2 .null with
    | .text names =>
        (Text.splitOn [','] names.length names.toList).mapM fun name => pathOf (Value.ofText name)
    | other => do pure [← pathOf other]
  let sensitive ← (input.parameter 1 (.bool false)).truth
  let found ← input.value.items
  let reverse ← Value.requireInt (input.parameter 0 (.bool false))
  let keyed ← found.mapM fun item => do return (← comparisonKeys paths sensitive item, item)
  Heap.newList (← Value.sortByKeys keyed (reverse != 0))

/-- A text with a part replaced. -/
def replaced (input : Input) : Heap Value := do
  let content ← input.value.plain
  let old ← (input.parameter 0 .null).plain
  let new ← (input.parameter 1 .null).plain
  let limit ← match input.parameter 2 .null with
    | .null => pure (-1)
    | other => Value.requireInt other
  let most := if limit < 0 then content.length + 1 else limit.toNat
  return .ofText (Text.replace old new (min most (content.length + 1)) content)

/-- A text without certain letters at its ends. -/
def trimmed (input : Input) : Heap Value := do
  let content ← input.value.plain
  match input.parameter 0 .null with
  | .null => return .ofText (Text.trim content)
  | .text set => return .ofText (Text.trimEndOf set.toList (Text.trimStartOf set.toList content))
  | _ => throw (.typeError "strip arg must be None or str")

/-- The text of a value after a change of its letters. -/
def changed (change : List Char → List Char) (value : Value) : Heap Value := do
  return .ofText (change (← value.plain))

/-- The fault of using a filter or a test that there is not. -/
def unknown (kind : String) (name : Value) : Heap Fault := do
  return .misuse (String.ofList
    (("No " ++ kind ++ " named ").toList ++ (← name.shown) ++ ['.']))

/-- The test that a value names. -/
def testOf (name : Value) : Heap Test := do
  Value.requireKey name
  match name with
  | .text written =>
      match Test.ofName? written with
      | some test => return test
      | none => throw (← unknown "test" name)
  | other => throw (← unknown "test" other)

/-- The filter that a value names. -/
def filterOf (name : Value) : Heap Filter := do
  Value.requireKey name
  match name with
  | .text written =>
      match ofName? written with
      | some filter => return filter
      | none => throw (← unknown "filter" name)
  | other => throw (← unknown "filter" other)

/-- The items for which a test holds, or does not. -/
def selection (input : Input) (byAttribute keep : Bool) : Heap (List Value × Option Fault) := do
  if !(← input.value.truth) then return ([], none)
  let given := input.rest.positional
  let path ← if byAttribute then
      match given with
      | [] => throw (.misuse "Missing parameter for attribute name")
      | steps :: _ => pathOf steps
    else pure []
  let given := if byAttribute then given.drop 1 else given
  let holds (item : Value) : Heap Bool := do
    match given with
    | [] => item.truth
    | name :: others => (← testOf name).apply item ⟨others, input.rest.named⟩
  let (found, ending) ← input.value.iterate
  produce (fun item => do
    let value ← followPath path .null item
    return if (← holds value) = keep then [item] else []) found ending

/-- One attribute of each item. -/
def attributesOf (value : Value) (named : List (String × Value)) :
    Heap (List Value × Option Fault) := do
  let steps := (named.lookup "attribute").getD .null
  let default := (named.lookup "default").getD .null
  match named.find? fun entry => entry.1 != "attribute" && entry.1 != "default" with
  | some (name, _) => throw (.misuse ("Unexpected keyword argument " ++ Text.quote name))
  | none => pure ()
  let path ← pathOf steps
  let (found, ending) ← value.iterate
  produce (fun item => return [← followPath path default item]) found ending

/-- Applies a filter that needs no other filter. -/
def applySimple (filter : Filter) (input : Input) : Heap Value := do
  let value := input.value
  let parameter := input.parameter
  match filter with
  | absolute => value.absolute
  | member => readAttribute value (parameter 0 .null)
  | capitalize => changed Text.capitalize value
  | default =>
      if value.isUndefined then return parameter 0 (.text "")
      else if (← (parameter 1 (.bool false)).truth) && !(← value.truth) then
        return parameter 0 (.text "")
      else return value
  | dictsort => sortEntries input
  | first =>
      let (found, ending) ← value.iterate
      firstOf "No first item, sequence was empty." found ending
  | float => toDecimal value (parameter 0 (.float 0.0))
  | int => toInteger value (parameter 0 (.int 0)) (parameter 1 (.int 10))
  | items => generator (entryItems value)
  | join => joinItems input
  | last => do firstOf "No last item, sequence was empty." (← reversedItems value) none
  | length => return .int (Int.ofNat (← value.length))
  | list => Heap.newList (← value.items)
  | lower => changed Text.lower value
  | largest => do
      extreme .greater value (← (parameter 0 (.bool false)).truth) (parameter 1 .null)
  | smallest => do
      extreme .less value (← (parameter 0 (.bool false)).truth) (parameter 1 .null)
  | reject => generator (selection input false false)
  | rejectattr => generator (selection input true false)
  | replace => replaced input
  | reverse => backwards value
  | round => rounded input
  | select => generator (selection input false true)
  | selectattr => generator (selection input true true)
  | sort => sorted input
  | text => changed id value
  | sum => total input
  | title => changed (titleWords []) value
  | trim => trimmed input
  | unique => generator do
      let path ← pathOf (parameter 1 .null)
      let sensitive ← (parameter 0 (.bool false)).truth
      let (found, ending) ← value.iterate
      firstOccurrences (comparisonKey path sensitive) [] found ending
  | upper => changed Text.upper value
  | map => generator (attributesOf value input.rest.named)

/-- Applies a filter; filters applied to each item are followed down to a depth. -/
def applyIn : Nat → Filter → Value → Arguments → Heap Value
  | 0, _, _, _ => throw .tooDeep
  | depth + 1, filter, value, arguments => do
      let input ← filter.bind value arguments
      match filter, input.rest.positional with
      | map, name :: others => generator do
          if !(← value.truth) then return ([], none)
          let (found, ending) ← value.iterate
          produce (fun item => do
            return [← applyIn depth (← filterOf name) item ⟨others, input.rest.named⟩]) found ending
      | map, [] => generator do
          if !(← value.truth) then return ([], none)
          if (input.rest.named.lookup "attribute").isNone then
            throw (.misuse "map requires a filter argument")
          attributesOf value input.rest.named
      | _, _ => filter.applySimple input

/-- Applies a filter to a value and the arguments it is given.  A filter applied to each item takes the
first argument, so that their number bounds the depth. -/
def apply (filter : Filter) (value : Value) (arguments : Arguments) : Heap Value :=
  applyIn (arguments.positional.length + 1) filter value arguments

end Filter

end Imprint.Expression
