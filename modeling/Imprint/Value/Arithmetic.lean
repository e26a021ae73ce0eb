import Imprint.Number.Division
import Imprint.Value.Sequence

set_option autoImplicit false

/-!
# Arithmetic

Integers are exact and as large as they need be; with a floating point number the other operand
becomes one too.  Texts and sequences can be joined and repeated, days and moments can be moved.
Every other pair of operands is refused, with both types named.
-/

namespace Imprint.Value

-- Powers of numbers are those of the core library, whatever else is imported.
attribute [local instance (high)] instPowNat

/-- The operations with two operands, apart from filling in text patterns. -/
inductive Operation where
  | add
  | subtract
  | multiply
  | divide
  | floorDivide
  | remainder
  | power
deriving DecidableEq, Repr, Inhabited

namespace Operation

/-- How an operation is written. -/
def sign : Operation → String
  | add => "+"
  | subtract => "-"
  | multiply => "*"
  | divide => "/"
  | floorDivide => "//"
  | remainder => "%"
  | power => "**"

/-- How an operation is named when its operands are refused. -/
def refusal : Operation → String
  | power => "** or pow()"
  | operation => operation.sign

end Operation

/-- Operands that an operation does not support. -/
def unsupported (operation : Operation) (left right : Value) : Fault :=
  .typeError ("unsupported operand type(s) for " ++ operation.refusal ++ ": '" ++ left.typeName ++
    "' and '" ++ right.typeName ++ "'")

def divisionByZero (message : String) : Fault := .error .zeroDivision message

/-- A power whose result is too large. -/
def outOfRange : Fault := .error .overflow "(34, 'Numerical result out of range')"

/-- A moved day that leaves the calendar. -/
def outOfCalendar : Fault := .error .overflow "date value out of range"

/-- The floating point number of an operand. -/
def toFloat : Value → Heap (Option Float)
  | float number => return some number
  | value =>
      match value.asInt? with
      | some number =>
          match Number.ofInt? number with
          | some converted => return some converted
          | none => throw (.error .overflow "int too large to convert to float")
      | none => return none

/-- The text of a number of a complex one. -/
def complexPart (number : Float) : List Char :=
  match Number.view number with
  | .finite negative mantissa exponent =>
      let digits := if mantissa = 0 then ['0']
        else (Number.shortest mantissa exponent).write ⟨-3, 16, false⟩
      if negative then '-' :: digits else digits
  | _ => Number.floatText number

/-- The complex power of a negative number with an exponent that is not whole. -/
def complexPower (base exponent : Float) : Value :=
  let size := Float.pow base.abs exponent
  let angle := Float.atan2 0 base * exponent
  let real := complexPart (size * angle.cos)
  let imaginary := complexPart (size * angle.sin)
  let signed := if imaginary.head? = some '-' then imaginary else '+' :: imaginary
  foreign "complex" (String.ofList ('(' :: real ++ signed ++ ['j', ')']))

/-- Powers of floating point numbers. -/
def floatPower (base exponent : Float) : Heap Value := do
  if base == 0 && exponent < 0 then
    throw (divisionByZero "0.0 cannot be raised to a negative power")
  else if base < 0 && Number.isFinite base && Number.isFinite exponent &&
      !(Number.isWhole exponent) then
    return complexPower base exponent
  else
    let result := Float.pow base exponent
    if !(Number.isFinite result) && Number.isFinite base && Number.isFinite exponent then
      throw outOfRange
    else return float result

/-- Operations on floating point numbers. -/
def floatArithmetic (operation : Operation) (left right : Float) : Heap Value := do
  match operation with
  | .add => return float (left + right)
  | .subtract => return float (left - right)
  | .multiply => return float (left * right)
  | .divide =>
      if right == 0 then throw (divisionByZero "float division by zero")
      else return float (left / right)
  | .floorDivide =>
      if right == 0 then throw (divisionByZero "float floor division by zero")
      else return float (Number.floorDivide left right).1
  | .remainder =>
      if right == 0 then throw (divisionByZero "float modulo")
      else return float (Number.floorDivide left right).2
  | .power => floatPower left right

/-- Largest number of binary digits that a power may have. -/
def powerLimit : Nat := 40000000

/-- Operations on integers. -/
def intArithmetic (operation : Operation) (left right : Int) : Heap Value := do
  match operation with
  | .add => return int (left + right)
  | .subtract => return int (left - right)
  | .multiply => return int (left * right)
  | .divide =>
      if right = 0 then throw (divisionByZero "division by zero")
      else
        match Number.divideInts? left right with
        | some quotient => return float quotient
        | none =>
            throw (.error .overflow "integer division result too large for a float")
  | .floorDivide =>
      if right = 0 then throw (divisionByZero "integer division or modulo by zero")
      else return int (Int.fdiv left right)
  | .remainder =>
      if right = 0 then throw (divisionByZero "integer modulo by zero")
      else return int (Int.fmod left right)
  | .power =>
      if right < 0 then
        match ← toFloat (int left), ← toFloat (int right) with
        | some base, some exponent => floatPower base exponent
        | _, _ => throw outOfRange
      else if left.natAbs ≤ 1 then
        return int (if right.natAbs % 2 = 0 then (if right = 0 then 1 else left * left) else left)
      else if Number.bitLength left.natAbs * right.natAbs > powerLimit then
        throw (.error (.other "MemoryError") "")
      else return int (left ^ right.toNat)

/-- Numerator and denominator of a number, with the sign in the numerator. -/
def signedRatio? (value : Value) : Option (Int × Nat) :=
  match value with
  | float number =>
      match Number.view number with
      | .finite negative mantissa exponent =>
          let (numerator, denominator) := Number.ratio mantissa exponent
          some (if negative then -Int.ofNat numerator else Int.ofNat numerator, denominator)
      | _ => none
  | value => value.asInt?.map fun number => (number, 1)

/-- A ratio rounded to the nearest integer, a half to the even neighbour. -/
def roundRatio (numerator : Int) (denominator : Int) : Int :=
  let size := Int.ofNat (Number.roundDiv numerator.natAbs denominator.natAbs)
  if (numerator < 0) != (denominator < 0) then -size else size

/-- Longest duration in microseconds. -/
def longestDuration : Int := 1000000000 * 86400000000 - 1

/-- A duration, if it is not too long. -/
def newDuration (microseconds : Int) : Heap Value := do
  let days := Int.fdiv microseconds (Int.ofNat Calendar.dayLength)
  if days.natAbs > 999999999 then
    throw (.error .overflow
      ("days=" ++ toString days ++ "; must have magnitude <= 999999999"))
  else return duration ⟨microseconds⟩

/-- Operations on days, moments and durations. -/
def calendarArithmetic? (operation : Operation) (left right : Value) : Option (Heap Value) :=
  let moved (result : Option Value) : Heap Value :=
    match result with
    | some value => return value
    | none => throw outOfCalendar
  let scaled (length : Calendar.Duration) (factor : Value) : Option (Heap Value) :=
    (signedRatio? factor).map fun (numerator, denominator) =>
      newDuration (roundRatio (length.microseconds * numerator) (Int.ofNat denominator))
  match operation, left, right with
  | .add, date day, duration length => some (moved ((day.add? length).map date))
  | .add, duration length, date day => some (moved ((day.add? length).map date))
  | .subtract, date day, duration length =>
      some (moved ((day.add? ⟨-(length.days * Int.ofNat Calendar.dayLength)⟩).map date))
  | .subtract, date day, date earlier => some (return duration (day.since earlier))
  | .add, moment at_, duration length => some (moved ((at_.add? length).map moment))
  | .add, duration length, moment at_ => some (moved ((at_.add? length).map moment))
  | .subtract, moment at_, duration length =>
      some (moved ((at_.add? ⟨-length.microseconds⟩).map moment))
  | .subtract, moment at_, moment earlier =>
      some (return duration ⟨at_.count - earlier.count⟩)
  | .add, duration a, duration b => some (newDuration (a.microseconds + b.microseconds))
  | .subtract, duration a, duration b => some (newDuration (a.microseconds - b.microseconds))
  | .multiply, duration length, factor => scaled length factor
  | .multiply, factor, duration length => scaled length factor
  | .divide, duration a, duration b =>
      some (if b.microseconds = 0 then throw (divisionByZero "division by zero")
        else intArithmetic .divide a.microseconds b.microseconds)
  | .divide, duration length, divisor =>
      (signedRatio? divisor).map fun (numerator, denominator) =>
        if numerator = 0 then throw (divisionByZero "integer division or modulo by zero")
        else newDuration (roundRatio (length.microseconds * Int.ofNat denominator) numerator)
  | .floorDivide, duration a, duration b =>
      some (intArithmetic .floorDivide a.microseconds b.microseconds)
  | .floorDivide, duration length, divisor =>
      divisor.asInt?.map fun number =>
        if number = 0 then throw (divisionByZero "integer division or modulo by zero")
        else newDuration (Int.fdiv length.microseconds number)
  | .remainder, duration a, duration b =>
      some (if b.microseconds = 0 then throw (divisionByZero "integer modulo by zero")
        else newDuration (Int.fmod a.microseconds b.microseconds))
  | _, _, _ => none

/-- Longest sequence that repetition makes. -/
def repetitionLimit : Nat := 100000000

/-- A sequence so many times behind itself. -/
def repeated {α : Type} (content : List α) (times : Int) : Heap (List α) := do
  if times.natAbs ≥ 2 ^ (63 : Nat) then
    throw (.error .overflow "cannot fit 'int' into an index-sized integer")
  else if content.length * times.toNat > repetitionLimit then
    throw (.error (.other "MemoryError") "")
  else return (List.replicate times.toNat content).flatten

/-- Whether a value can be repeated. -/
def isRepeatable : Value → Bool
  | text _ | unpaired _ | bytes _ | list _ | tuple _ => true
  | _ => false

/-- Repetition of a sequence. -/
def repetition (sequence times : Value) : Heap Value := do
  match times.asInt? with
  | none => throw (.typeError
      ("can't multiply sequence by non-int of type '" ++ times.typeName ++ "'"))
  | some number =>
      match sequence with
      | text content => return ofText (← repeated content.toList number)
      | unpaired codes => return ofCodes (← repeated codes number)
      | bytes content => return bytes (← repeated content number)
      | list cell => do Heap.newList (← repeated (← Heap.items cell) number)
      | tuple content => return tuple (← repeated content number)
      | _ => return sequence

/-- One sequence behind another. -/
def concatenation? (left right : Value) : Option (Heap Value) :=
  let refused (kind : String) : Heap Value := throw (.typeError
    ("can only concatenate " ++ kind ++ " (not \"" ++ right.typeName ++ "\") to " ++ kind))
  match left, right with
  | text a, text b => some (return text (a ++ b))
  | text a, unpaired b => some (return ofCodes (a.toList.map Char.toNat ++ b))
  | unpaired a, text b => some (return ofCodes (a ++ b.toList.map Char.toNat))
  | unpaired a, unpaired b => some (return ofCodes (a ++ b))
  | text _, _ | unpaired _, _ => some (refused "str")
  | bytes a, bytes b => some (return bytes (a ++ b))
  | bytes _, _ => some (throw (.typeError ("can't concat " ++ right.typeName ++ " to bytes")))
  | list a, list b => some do Heap.newList ((← Heap.items a) ++ (← Heap.items b))
  | list _, _ => some (refused "list")
  | tuple a, tuple b => some (return tuple (a ++ b))
  | tuple _, _ => some (refused "tuple")
  | _, _ => none

/-- An operation on two values. -/
def arithmetic (operation : Operation) (left right : Value) : Heap Value := do
  match left, right with
  | undefined _ missing, _ => throw (.undefined missing)
  | _, undefined _ missing => throw (.undefined missing)
  | _, _ =>
      match left.asInt?, right.asInt? with
      | some a, some b => intArithmetic operation a b
      | _, _ =>
          match ← toFloatPair left right with
          | some (a, b) => floatArithmetic operation a b
          | none =>
              match calendarArithmetic? operation left right with
              | some result => result
              | none =>
                  match operation with
                  | .add =>
                      match concatenation? left right with
                      | some result => result
                      | none => throw (unsupported operation left right)
                  | .multiply =>
                      if left.isRepeatable then repetition left right
                      else if right.isRepeatable then repetition right left
                      else throw (unsupported operation left right)
                  | _ => throw (unsupported operation left right)
where
  /-- Both operands as floating point numbers, if both are numbers. -/
  toFloatPair (left right : Value) : Heap (Option (Float × Float)) := do
    match left, right with
    | float a, other => return (← toFloat other).map fun b => (a, b)
    | other, float b => return (← toFloat other).map fun a => (a, b)
    | _, _ => return none

/-- A value that has no negative or no plus sign. -/
def badOperand (sign : String) (value : Value) : Fault :=
  .typeError ("bad operand type for " ++ sign ++ ": '" ++ value.typeName ++ "'")

/-- The value with the other sign. -/
def negate (value : Value) : Heap Value := do
  match value with
  | float number => return float (-number)
  | duration length => newDuration (-length.microseconds)
  | undefined _ missing => throw (.undefined missing)
  | other =>
      match other.asInt? with
      | some number => return int (-number)
      | none => throw (badOperand "unary -" other)

/-- The value with a plus sign. -/
def affirm (value : Value) : Heap Value := do
  match value with
  | float number => return float number
  | duration length => return duration length
  | undefined _ missing => throw (.undefined missing)
  | other =>
      match other.asInt? with
      | some number => return int number
      | none => throw (badOperand "unary +" other)

/-- The value without its sign. -/
def absolute (value : Value) : Heap Value := do
  match value with
  | float number => return float number.abs
  | duration length => newDuration (Int.ofNat length.microseconds.natAbs)
  | other =>
      match other.asInt? with
      | some number => return int (Int.ofNat number.natAbs)
      | none => throw (badOperand "abs()" other)

end Imprint.Value
