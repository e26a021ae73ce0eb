import Imprint.Number.Binary64
import Imprint.Value.Sequence

set_option autoImplicit false

/-!
# Equality, order and membership

Numbers of all kinds compare by their exact value; texts and sequences compare item by item; values
of unrelated kinds are different and have no order.  Undefined values refuse to be compared.
-/

namespace Imprint.Value

/-- Whether two values are one and the same, for kinds where that can be told. -/
def same (left right : Value) : Bool :=
  match left, right with
  | null, null => true
  | bool a, bool b => a == b
  | int a, int b => a == b
  | float a, float b => a.toBits == b.toBits
  | text a, text b => a == b
  | unpaired a, unpaired b => a == b
  | bytes a, bytes b => a == b
  | list a, list b => a == b
  | dict a, dict b => a == b
  | tuple [], tuple [] => true
  | date a, date b => a == b
  | moment a, moment b => a == b
  | money a _ _, money b _ _ => a == b
  | record a _ _ _, record b _ _ _ => a == b
  | element a, element b => a.key == b.key
  | function (.builtin a), function (.builtin b) => a == b
  | function (.given a _), function (.given b _) => a == b
  | function (.directive a m), function (.directive b n) => a == b && m == n
  | self, self => true
  | _, _ => false

/-- Order of two numbers of any kind; none if one of them is no number or not comparable. -/
def compareNumbers (left right : Value) : Option Ordering :=
  match left, right with
  | float a, float b =>
      if a < b then some .lt else if b < a then some .gt else if a == b then some .eq else none
  | float a, other => other.asInt?.bind fun b => Number.compareInt? a b
  | other, float b => (other.asInt?.bind fun a => Number.compareInt? b a).map Ordering.swap
  | _, _ =>
      match left.asInt?, right.asInt? with
      | some a, some b => some (compare a b)
      | _, _ => none

/-- Whether a value is a number. -/
def isNumber : Value → Bool
  | bool _ | int _ | float _ => true
  | _ => false

/-- Order of two texts by their characters. -/
def compareLetters : List Char → List Char → Ordering
  | [], [] => .eq
  | [], _ :: _ => .lt
  | _ :: _, [] => .gt
  | a :: left, b :: right =>
      if a < b then .lt else if b < a then .gt else compareLetters left right

/-- Order of two texts by their codes. -/
def compareCodes : List Nat → List Nat → Ordering
  | [], [] => .eq
  | [], _ :: _ => .lt
  | _ :: _, [] => .gt
  | a :: left, b :: right =>
      if a < b then .lt else if b < a then .gt else compareCodes left right

/-- Order of two sequences of bytes. -/
def compareBytes : List UInt8 → List UInt8 → Ordering
  | [], [] => .eq
  | [], _ :: _ => .lt
  | _ :: _, [] => .gt
  | a :: left, b :: right =>
      if a < b then .lt else if b < a then .gt else compareBytes left right

/-- Whether two ranges have the same items. -/
def sameRange (start stop step start' stop' step' : Int) : Bool :=
  let size := rangeLength start stop step
  size == rangeLength start' stop' step' &&
    (size == 0 || (start == start' && (size == 1 || step == step')))

/-- Whether a value is one of some values, by a given equality.  One and the same value equals
itself. -/
def memberBy (equal : Value → Value → Heap Bool) (value : Value) : List Value → Heap Bool
  | [] => return false
  | item :: rest => do
      if same item value then return true
      else if ← equal item value then return true
      else memberBy equal value rest

/-- The value of a key among entries, by a given equality. -/
def lookupBy (equal : Value → Value → Heap Bool) (key : Value) :
    List (Value × Value) → Heap (Option Value)
  | [] => return none
  | (candidate, value) :: rest => do
      if same candidate key then return some value
      else if ← equal candidate key then return some value
      else lookupBy equal key rest

/-- Whether two sequences are equal item by item. -/
def equalsAll (equal : Value → Value → Heap Bool) : List Value → List Value → Heap Bool
  | [], [] => return true
  | left :: lefts, right :: rights => do
      if lefts.length != rights.length then return false
      else if same left right then equalsAll equal lefts rights
      else if ← equal left right then equalsAll equal lefts rights
      else return false
  | _, _ => return false

/-- Whether every one of some entries is among others. -/
def includesEntries (equal : Value → Value → Heap Bool) (others : List (Value × Value)) :
    List (Value × Value) → Heap Bool
  | [] => return true
  | (key, value) :: rest => do
      match ← lookupBy equal key others with
      | some other =>
          if same value other then includesEntries equal others rest
          else if ← equal value other then includesEntries equal others rest
          else return false
      | none => return false

/-- Whether every one of some fields is among others. -/
def includesFields (equal : Value → Value → Heap Bool) (others : List (String × Value)) :
    List (String × Value) → Heap Bool
  | [] => return true
  | (name, value) :: rest => do
      match others.lookup name with
      | some other =>
          if same value other then includesFields equal others rest
          else if ← equal value other then includesFields equal others rest
          else return false
      | none => return false

/-- Whether all of some values are among others. -/
def includesAll (equal : Value → Value → Heap Bool) (others : List Value) :
    List Value → Heap Bool
  | [] => return true
  | value :: rest => do
      if ← memberBy equal value others then includesAll equal others rest else return false

/-- Whether two values are equal, followed down to a depth. -/
def equals : Nat → Value → Value → Heap Bool
  | 0, _, _ => throw (.error .recursion "maximum recursion depth exceeded in comparison")
  | fuel + 1, left, right =>
      match left, right with
      | undefined false missing, _ => throw (.undefined missing)
      | _, undefined false missing => throw (.undefined missing)
      | undefined true _, undefined true _ => return true
      | list a, list b => do
          if a = b then return true
          else equalsAll (equals fuel) (← Heap.items a) (← Heap.items b)
      | tuple a, tuple b => equalsAll (equals fuel) a b
      | dict a, dict b => do
          if a = b then return true
          else
            let entries := ← Heap.entries a
            let others := ← Heap.entries b
            if entries.length = others.length then includesEntries (equals fuel) others entries
            else return false
      | record a _ fields _, record b _ others _ => do
          if a = b then return true
          else if fields.length = others.length then includesFields (equals fuel) others fields
          else return false
      | range a b c, range a' b' c' => return sameRange a b c a' b' c'
      | duration a, duration b => return a == b
      | clock a, clock b => return a == b
      | view part a, view other b => do
          if part = other && part != .values then
            let members := viewItems part (← Heap.entries a)
            let others := viewItems part (← Heap.entries b)
            if members.length = others.length then includesAll (equals fuel) others members
            else return false
          else return part = other && a = b
      | function (.method a name), function (.method b other) => return name == other && same a b
      | _, _ =>
          if left.isNumber && right.isNumber then return compareNumbers left right == some .eq
          else return same left right

/-- Whether two values are equal. -/
def isEqual (left right : Value) : Heap Bool :=
  equals nestingLimit left right

/-- Whether a value is one of some values. -/
def isMember (value : Value) (others : List Value) : Heap Bool :=
  memberBy isEqual value others

mutual

/-- Checks that a value can be a key. -/
def requireKey : Value → Heap Unit
  | list _ => throw (.typeError "unhashable type: 'list'")
  | dict _ => throw (.typeError "unhashable type: 'dict'")
  | record _ .bare _ _ => throw (.typeError "unhashable type: 'types.SimpleNamespace'")
  | record _ .root _ _ => throw (.typeError "unhashable type: 'Root'")
  | view .keys _ => throw (.typeError "unhashable type: 'dict_keys'")
  | view .items _ => throw (.typeError "unhashable type: 'dict_items'")
  | undefined false missing => throw (.undefined missing)
  | tuple parts => requireKeys parts
  | _ => return ()

/-- Checks that some values can be parts of a key. -/
def requireKeys : List Value → Heap Unit
  | [] => return ()
  | value :: rest => do
      requireKey value
      requireKeys rest

end

/-- The value of a key in a dictionary. -/
def lookup (key : Value) (entries : List (Value × Value)) : Heap (Option Value) := do
  requireKey key
  lookupBy isEqual key entries

/-- Replaces the value of a key, or adds the key at the end. -/
def insertEntry (key value : Value) : List (Value × Value) → Heap (List (Value × Value))
  | [] => return [(key, value)]
  | (candidate, old) :: rest => do
      if ← (if same candidate key then pure true else isEqual candidate key) then
        return (candidate, value) :: rest
      else return (candidate, old) :: (← insertEntry key value rest)

/-- Removes a key; the first component is the value it had. -/
def eraseEntry (key : Value) :
    List (Value × Value) → Heap (Option Value × List (Value × Value))
  | [] => return (none, [])
  | (candidate, old) :: rest => do
      if ← (if same candidate key then pure true else isEqual candidate key) then
        return (some old, rest)
      else
        let (found, rest) ← eraseEntry key rest
        return (found, (candidate, old) :: rest)

/-- Adds entries one after the other; a later value of a key replaces an earlier one. -/
def insertAll (new : List (Value × Value)) (entries : List (Value × Value)) :
    Heap (List (Value × Value)) :=
  new.foldlM (fun entries (entry : Value × Value) => do
    requireKey entry.1
    insertEntry entry.1 entry.2 entries) entries

/-- The four order relations. -/
inductive OrderTest where
  | less
  | lessEqual
  | greater
  | greaterEqual
deriving DecidableEq, Repr, Inhabited

namespace OrderTest

/-- How a relation is written. -/
def sign : OrderTest → String
  | less => "<"
  | lessEqual => "<="
  | greater => ">"
  | greaterEqual => ">="

/-- Whether an order satisfies a relation. -/
def holds (test : OrderTest) (order : Ordering) : Bool :=
  match test with
  | less => order == .lt
  | lessEqual => order != .gt
  | greater => order == .gt
  | greaterEqual => order != .lt

end OrderTest

/-- Two values without an order. -/
def incomparable (test : OrderTest) (left right : String) : Fault :=
  .typeError ("'" ++ test.sign ++ "' not supported between instances of '" ++ left ++ "' and '" ++
    right ++ "'")

/-- Sequences compare by the first items that differ, or else by their lengths. -/
def orderedAll (test : OrderTest) (ordered : Value → Value → Heap Bool) :
    List Value → List Value → Heap Bool
  | left :: lefts, right :: rights => do
      if ← (if same left right then pure true else isEqual left right) then
        orderedAll test ordered lefts rights
      else ordered left right
  | lefts, rights => return test.holds (compare lefts.length rights.length)

/-- Whether two values are in an order relation, followed down to a depth. -/
def orderedIn (test : OrderTest) : Nat → Value → Value → Heap Bool
  | 0, _, _ => throw (.error .recursion "maximum recursion depth exceeded in comparison")
  | fuel + 1, left, right =>
      match left, right with
      | undefined _ missing, _ => throw (.undefined missing)
      | _, undefined _ missing => throw (.undefined missing)
      | text a, text b => return test.holds (compareLetters a.toList b.toList)
      | text a, unpaired b => return test.holds (compareCodes (a.toList.map Char.toNat) b)
      | unpaired a, text b => return test.holds (compareCodes a (b.toList.map Char.toNat))
      | unpaired a, unpaired b => return test.holds (compareCodes a b)
      | bytes a, bytes b => return test.holds (compareBytes a b)
      | date a, date b => return test.holds (a.compare b)
      | moment a, moment b => return test.holds (a.compare b)
      | clock a, clock b => return test.holds (a.compare b)
      | duration a, duration b => return test.holds (compare a.microseconds b.microseconds)
      | date _, moment _ => throw (.typeError "can't compare datetime.datetime to datetime.date")
      | moment _, date _ => throw (.typeError "can't compare datetime.datetime to datetime.date")
      | list a, list b => do
          orderedAll test (orderedIn test fuel) (← Heap.items a) (← Heap.items b)
      | tuple a, tuple b => orderedAll test (orderedIn test fuel) a b
      | record .., record .. => throw (incomparable test "dict" "dict")
      | _, _ =>
          if left.isNumber && right.isNumber then
            match compareNumbers left right with
            | some order => return test.holds order
            | none => return false
          else throw (incomparable test left.typeName right.typeName)

/-- Whether two values are in an order relation. -/
def isOrdered (test : OrderTest) (left right : Value) : Heap Bool :=
  orderedIn test nestingLimit left right

/-- Whether a value is contained in another. -/
def contains (container value : Value) : Heap Bool := do
  match container with
  | text content =>
      match value with
      | text part => return Text.occursIn part.toList content.toList
      | unpaired _ => return false
      | other => throw (.typeError
          ("'in <string>' requires string as left operand, not " ++ other.typeName))
  | unpaired codes =>
      match value.codes? with
      | some part => return Text.codesOccurIn part codes
      | none => throw (.typeError
          ("'in <string>' requires string as left operand, not " ++ value.typeName))
  | bytes content =>
      match value with
      | bytes part =>
          let letters (bytes : List UInt8) : List Char := bytes.map fun byte => Char.ofNat byte.toNat
          return Text.occursIn (letters part) (letters content)
      | other =>
          match other.asInt? with
          | some number =>
              if 0 ≤ number && number < 256 then
                return content.any fun byte => Int.ofNat byte.toNat == number
              else throw (.valueError "byte must be in range(0, 256)")
          | none => throw (.typeError
              ("a bytes-like object is required, not '" ++ other.typeName ++ "'"))
  | dict cell => return (← lookup value (← Heap.entries cell)).isSome
  | view .keys cell => return (← lookup value (← Heap.entries cell)).isSome
  | undefined false missing => throw (.undefined missing)
  | other =>
      if other.isIterable then
        let (found, ending) ← other.iterate
        if ← isMember value found then return true
        else
          match ending with
          | some fault => throw fault
          | none => return false
      else throw (.typeError ("argument of type '" ++ other.typeName ++ "' is not iterable"))

/-- Sorts by a test that may fail; equal elements keep their order.  An element is put in front of the
first one it is less than. -/
def sortWith {α : Type} (less : α → α → Heap Bool) (items : List α) : Heap (List α) :=
  items.foldlM (fun sorted item => insertSorted item sorted.reverse []) []
where
  /-- Goes back from the end past all elements that the new one is less than. -/
  insertSorted (item : α) : List α → List α → Heap (List α)
    | [], after => return item :: after
    | last :: before, after => do
        if ← less item last then insertSorted item before (last :: after)
        else return before.reverse ++ last :: item :: after

end Imprint.Value
