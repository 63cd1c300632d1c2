import Kxc.Lib.Scanner

/-! The reader of JSON texts (`base/execution_plan.cc`). The characters of a text stand for its
bytes. The position that an error names is the number of characters read so far. -/

namespace Kxc.Json

open Lib

/-- `J`. An object holds the pairs in the order of their insertion. -/
inductive J where
  | N
  | B (b : Bool)
  | I (i : Int64)
  | S (s : String)
  | A (a : List J)
  | O (o : List (String × J))

namespace J

/-- The kinds, as `static_cast<int>` numbers them. -/
inductive K where
  | N | B | I | S | A | O
  deriving DecidableEq, Repr

def K.toNat : K → Nat
  | .N => 0 | .B => 1 | .I => 2 | .S => 3 | .A => 4 | .O => 5

def k : J → K
  | N => .N
  | B _ => .B
  | I _ => .I
  | S _ => .S
  | A _ => .A
  | O _ => .O

end J

/-- `std::isspace` in the C locale. -/
def isspace (c : Char) : Bool :=
  c == ' ' || c == '\t' || c == '\n' || c == '\r' || c == '\x0b' || c == '\x0c'

/-! ### The class `P` -/

namespace P

/-- The state is what is left of the text. -/
abbrev M (α : Type) := Scanner Char String α

section

-- the length of the text
variable (size : Nat)

def Err {α : Type} (m : String) : M α := fun rest =>
  .error s!"JSON parse error at {size - rest.length}: {m}"

def Peek : M Char := fun rest => .ok (rest.headD '\x00', rest)

def Get : M Char := fun rest =>
  match rest with
  | [] => Err size "unexpected EOF" rest
  | c :: rest => .ok (c, rest)

def WS : M Unit := fun rest => .ok ((), rest.dropWhile isspace)

def Expect (c : Char) : M Unit := do
  let d ← Get size
  if d ≠ c then Err size s!"expected '{c}'"

def Lit : List Char → M Unit
  | [] => pure ()
  | c :: cs => do
    let d ← Get size
    if d ≠ c then Err size "invalid literal"
    Lit cs

/-- The value of a hexadecimal digit. -/
def hexValue (h : Char) : Option Nat :=
  if '0' ≤ h ∧ h ≤ '9' then some (h.toNat - '0'.toNat)
  else if 'a' ≤ h ∧ h ≤ 'f' then some (h.toNat - 'a'.toNat + 10)
  else if 'A' ≤ h ∧ h ≤ 'F' then some (h.toNat - 'A'.toNat + 10)
  else none

/-- The loop over the digits of a unicode escape. -/
def hexLoop : Nat → Nat → M Nat
  | 0, cp => pure cp
  | n + 1, cp => do
    let h ← Get size
    match hexValue h with
    | some d => hexLoop n (cp * 16 + d)
    | none => Err size "invalid unicode escape"

/-- The character that a unicode escape stands for. -/
def unicodeChar (cp : Nat) : Char := if cp ≤ 0x7F then Char.ofNat cp else '?'

/-- The character that an escape of one character stands for. -/
def simpleEscape (e : Char) : Option Char :=
  if e = '"' then some '"'
  else if e = '\\' then some '\\'
  else if e = '/' then some '/'
  else if e = 'b' then some '\x08'
  else if e = 'f' then some '\x0c'
  else if e = 'n' then some '\n'
  else if e = 'r' then some '\r'
  else if e = 't' then some '\t'
  else none

/-- What one round of the loop of `Str` reads: a character, or the end. -/
def strChar : M (Option Char) := do
  let c ← Get size
  if c = '"' then return none
  else if c = '\\' then
    let e ← Get size
    match simpleEscape e with
    | some d => return some d
    | none =>
      if e = 'u' then
        let cp ← hexLoop size 4 0
        return some (unicodeChar cp)
      else Err size "invalid escape"
  else return some c

/-- The loop of `Str`; every round reads a character. -/
def strLoop : Nat → List Char → M (List Char)
  | 0, _ => Err size "unexpected EOF"
  | fuel + 1, s => do
    match ← strChar size with
    | none => return s
    | some c => strLoop fuel (s ++ [c])

def Str : M String := do
  Expect size '"'
  let s ← strLoop size (size + 1) []
  return String.ofList s

/-- The digits at the front of the text. -/
def digits : M (List Char) := fun rest =>
  .ok (rest.takeWhile Char.isDigit, rest.dropWhile Char.isDigit)

/-- The sign of a number, if there is one. -/
def sign : M Bool := do
  if (← Peek) = '-' then
    let _ ← Get size
    return true
  else return false

/-- The digits of a number: no other one follows a leading zero. -/
def magnitude : M (List Char) := do
  let c ← Peek
  if c = '0' then
    let _ ← Get size
    return ['0']
  else if c.isDigit then digits
  else Err size "invalid number"

/-- `std::stoll`. -/
def stoll (negative : Bool) (ds : List Char) : Option Int64 :=
  let n : Int := Nat.ofDigitChars 10 ds 0
  let i := if negative then -n else n
  if Int64.minValue.toInt ≤ i ∧ i ≤ Int64.maxValue.toInt then some (Int64.ofInt i) else none

def Num : M J := do
  let negative ← sign size
  let ds ← magnitude size
  let c ← Peek
  if c = '.' ∨ c = 'e' ∨ c = 'E' then Err size "only integer supported"
  match stoll negative ds with
  | some i => return .I i
  | none => Err size "invalid integer"

def True : M J := do
  Lit size "true".toList
  return .B true

def False : M J := do
  Lit size "false".toList
  return .B false

def Null : M J := do
  Lit size "null".toList
  return .N

mutual

/-- `V`; the depth of the calls is bounded by `fuel`. -/
def V : Nat → M J
  | 0 => Err size "unexpected token"
  | fuel + 1 => do
    WS
    let c ← Peek
    if c = '\x7b' then
      let o ← Obj fuel
      return .O o
    else if c = '[' then
      let a ← Arr fuel
      return .A a
    else if c = '"' then
      let s ← Str size
      return .S s
    else if c = 't' then True size
    else if c = 'f' then False size
    else if c = 'n' then Null size
    else if c = '-' ∨ c.isDigit then Num size
    else Err size "unexpected token"

def Obj : Nat → M (List (String × J))
  | 0 => Err size "unexpected token"
  | fuel + 1 => do
    Expect size '\x7b'
    WS
    if (← Peek) = '\x7d' then
      let _ ← Get size
      return []
    else objLoop fuel []

/-- The loop of `Obj`. -/
def objLoop : Nat → List (String × J) → M (List (String × J))
  | 0, _ => Err size "unexpected token"
  | fuel + 1, o => do
    let key ← Str size
    WS
    Expect size ':'
    let val ← V fuel
    if (o.map Prod.fst).contains key then Err size "duplicate key"
    let o := o ++ [(key, val)]
    WS
    let c ← Get size
    if c = '\x7d' then return o
    else if c ≠ ',' then Err size "expected ',' or '\x7d'"
    else
      WS
      objLoop fuel o

def Arr : Nat → M (List J)
  | 0 => Err size "unexpected token"
  | fuel + 1 => do
    Expect size '['
    WS
    if (← Peek) = ']' then
      let _ ← Get size
      return []
    else arrLoop fuel []

/-- The loop of `Arr`. -/
def arrLoop : Nat → List J → M (List J)
  | 0, _ => Err size "unexpected token"
  | fuel + 1, a => do
    let v ← V fuel
    let a := a ++ [v]
    WS
    let c ← Get size
    if c = ']' then return a
    else if c ≠ ',' then Err size "expected ',' or ']'"
    else
      WS
      arrLoop fuel a

end

end

/-- A value and spaces around it. A call of `V` reads a character before it calls `V` again, with at
most two other calls between them. -/
def whole (size : Nat) : M J := do
  WS
  let v ← V size (3 * size + 2)
  WS
  let rest ← get
  if rest ≠ [] then Err size "trailing characters"
  return v

/-- `Parse`. -/
def Parse (text : String) : Except String J :=
  (whole text.toList.length text.toList).map Prod.fst

end P

/-! ### What is written -/

/-- The escape of a character in `Esc`. -/
def escChar (c : Char) : List Char :=
  if c = '"' then ['\\', '"']
  else if c = '\\' then ['\\', '\\']
  else if c = '\x08' then ['\\', 'b']
  else if c = '\x0c' then ['\\', 'f']
  else if c = '\n' then ['\\', 'n']
  else if c = '\r' then ['\\', 'r']
  else if c = '\t' then ['\\', 't']
  else if c.toNat < 0x20 then
    ['\\', 'u', '0', '0', Nat.digitChar (c.toNat / 16), Nat.digitChar (c.toNat % 16)]
  else [c]

def Esc (s : String) : String := String.ofList (s.toList.flatMap escChar)

end Kxc.Json
