import CatalogApi.Lib.Dict
import CatalogApi.Lib.Encodings
import CatalogApi.Lib.Numerals
import Mathlib.Data.Rat.Defs

/-!
# JSON

`json.dumps` and `json.loads` of Python over texts of code points. The writer spells what is not
printable ASCII as escapes and raises for integers that are too long. The reader takes the nesting of
arrays and objects that the stack still has room for.
-/

namespace CatalogApi.Json

open CodePoints

/-! ## Values -/

/-- A `float`; a zero with a sign is not `finite 0`. -/
inductive FloatValue where
  | nan
  | infinite (negative : Bool)
  | negativeZero
  | finite (value : ℚ)
  deriving DecidableEq

/-- The number that a `float` is, and `none` unless it is finite. -/
def FloatValue.number : FloatValue → Option ℚ
  | .negativeZero => some 0
  | .finite value => some value
  | _ => none

/-- `float` of a text, with `none` for a `ValueError`, and `repr` of a `float`. -/
structure Floats where
  float : Str → Option FloatValue
  repr : FloatValue → Str

inductive Value where
  | null
  | bool (b : Bool)
  | int (n : Int)
  | float (x : FloatValue)
  | str (text : Str)
  | array (items : List Value)
  | object (members : List (Str × Value))

/-- What fails: a `ValueError`, or a `RecursionError`. -/
inductive Failure where
  | value
  | recursion
  deriving DecidableEq

/-! ## Writing -/

/-- The characters with an escape of two characters, and the second of them. -/
def escapes : List (CodePoint × CodePoint) :=
  [(ord '"', ord '"'), (ord '\\', ord '\\'), (ord '\x08', ord 'b'), (ord '\x0c', ord 'f'),
    (ord '\n', ord 'n'), (ord '\r', ord 'r'), (ord '\t', ord 't')]

/-- A digit of `\uXXXX`. -/
def hexDigit (n : Nat) : CodePoint := ord (Nat.digitChar n)

/-- `\uXXXX`. -/
def unicodeEscape (unit : CodePoint) : Str :=
  [ord '\\', ord 'u', hexDigit (unit.val / 4096 % 16), hexDigit (unit.val / 256 % 16),
    hexDigit (unit.val / 16 % 16), hexDigit (unit.val % 16)]

/-- A code point within quotes. -/
def escapeChar (c : CodePoint) : Str :=
  match escapes.find? fun escape => escape.1 = c with
  | some (_, letter) => [ord '\\', letter]
  | none =>
      if 0x20 ≤ c.val ∧ c.val ≤ 0x7E then [c]
      else if c.val < 0x10000 then unicodeEscape c
      else unicodeEscape (highOf c) ++ unicodeEscape (lowOf c)

/-- A text in quotes. -/
def quoted (text : Str) : Str := ord '"' :: text.flatMap escapeChar ++ [ord '"']

/-- The digits of a number. -/
def digits (n : Nat) : Str := (Nat.toDigits 10 n).map ord

/-- `int.__repr__`. -/
def intText (n : Int) : Str := if n < 0 then ord '-' :: digits n.natAbs else digits n.natAbs

/-- The text of a `float`. -/
def floatText (floats : Floats) : FloatValue → Str
  | .nan => ofString "NaN"
  | .infinite negative => ofString (if negative then "-Infinity" else "Infinity")
  | x => floats.repr x

section Write

variable (floats : Floats) (gap : Str)

mutual

/-- The text of a value; `gap` follows each comma and colon. -/
def text : Value → Str
  | .null => ofString "null"
  | .bool true => ofString "true"
  | .bool false => ofString "false"
  | .int n => intText n
  | .float x => floatText floats x
  | .str s => quoted s
  | .array items => ord '[' :: textItems items ++ [ord ']']
  | .object members => ord '{' :: textMembers members ++ [ord '}']

/-- The texts of items, with commas between them. -/
def textItems : List Value → Str
  | [] => []
  | item :: items => text item ++ textMoreItems items

/-- The texts of items, with a comma before each. -/
def textMoreItems : List Value → Str
  | [] => []
  | item :: items => ord ',' :: gap ++ text item ++ textMoreItems items

/-- The texts of members, with commas between them. -/
def textMembers : List (Str × Value) → Str
  | [] => []
  | (key, value) :: members =>
      quoted key ++ ord ':' :: gap ++ text value ++ textMoreMembers members

/-- The texts of members, with a comma before each. -/
def textMoreMembers : List (Str × Value) → Str
  | [] => []
  | (key, value) :: members =>
      ord ',' :: gap ++ quoted key ++ ord ':' :: gap ++ text value ++ textMoreMembers members

end

end Write

mutual

/-- No integer is too long to be written. -/
def short : Value → Bool
  | .int n => (Nat.toDigits 10 n.natAbs).length ≤ Numerals.maxStrDigits
  | .array items => shortItems items
  | .object members => shortMembers members
  | _ => true

def shortItems : List Value → Bool
  | [] => true
  | item :: items => short item && shortItems items

def shortMembers : List (Str × Value) → Bool
  | [] => true
  | (_, value) :: members => short value && shortMembers members

end

/-- `json.dumps`, with what follows a comma or a colon. -/
def dumps (floats : Floats) (gap : Str) (value : Value) : Except Failure Str :=
  if short value then .ok (text floats gap value) else .error .value

/-! ## Reading -/

/-- Whitespace is skipped. -/
def isSpace (c : CodePoint) : Bool :=
  c = ord ' ' ∨ c = ord '\t' ∨ c = ord '\n' ∨ c = ord '\r'

/-- What follows the whitespace. -/
def skip (s : Str) : Str := s.dropWhile isSpace

/-- The value of a digit of `\uXXXX`. -/
def hexValue (c : CodePoint) : Option Nat :=
  if ord '0' ≤ c ∧ c ≤ ord '9' then some (c.val - '0'.toNat)
  else if ord 'a' ≤ c ∧ c ≤ ord 'f' then some (c.val - 'a'.toNat + 10)
  else if ord 'A' ≤ c ∧ c ≤ ord 'F' then some (c.val - 'A'.toNat + 10)
  else none

/-- The character that a letter after a backslash stands for. -/
def unescape (letter : CodePoint) : Option CodePoint :=
  if letter = ord '/' then some letter
  else (escapes.find? fun escape => escape.2 = letter).map (·.1)

/-- Where the reader stands in a text in quotes: between characters, after a backslash, or before the
last digits of an escape, with the value of the first ones. -/
inductive Within where
  | plain
  | escape
  | hex (more value : Nat)

/-- What comes before the units read from the rest. -/
def push (unit : CodePoint × Bool) (rest : Except Failure (List (CodePoint × Bool) × Str)) :
    Except Failure (List (CodePoint × Bool) × Str) :=
  rest.map fun (units, rest) => (unit :: units, rest)

/-- The units up to the closing quote, with whether each was written as `\uXXXX`, and what follows. -/
def scanUnits : Within → Str → Except Failure (List (CodePoint × Bool) × Str)
  | _, [] => .error .value
  | .plain, c :: rest =>
      if c = ord '"' then .ok ([], rest)
      else if c = ord '\\' then scanUnits .escape rest
      else if c.val < 0x20 then .error .value
      else push (c, false) (scanUnits .plain rest)
  | .escape, c :: rest =>
      if c = ord 'u' then scanUnits (.hex 3 0) rest
      else
        match unescape c with
        | some char => push (char, false) (scanUnits .plain rest)
        | none => .error .value
  | .hex more value, c :: rest =>
      match hexValue c with
      | none => .error .value
      | some digit =>
          match more with
          | 0 => push (Fin.ofNat _ (value * 16 + digit), true) (scanUnits .plain rest)
          | more + 1 => scanUnits (.hex more (value * 16 + digit)) rest

/-- The text up to the closing quote, and what follows. -/
def scanString (s : Str) : Except Failure (Str × Str) :=
  (scanUnits .plain s).map fun (units, rest) => (joinPairs units, rest)

def isDigit (c : CodePoint) : Bool := ord '0' ≤ c ∧ c ≤ ord '9'

/-- The number that digits denote. -/
def digitsValue (s : Str) : Nat := s.foldl (fun total c => 10 * total + (c.val - '0'.toNat)) 0

/-- The sign of a number, and what follows. -/
def takeSign : Str → Str × Str
  | [] => ([], [])
  | c :: rest => if c = ord '-' then ([c], rest) else ([], c :: rest)

/-- The digits before the point, which start with a zero only if there is one, and what follows. -/
def takeWhole : Str → Option (Str × Str)
  | [] => none
  | c :: rest =>
      if c = ord '0' then some ([c], rest)
      else if isDigit c then some ((c :: rest).takeWhile isDigit, (c :: rest).dropWhile isDigit)
      else none

/-- The point and the digits after it, if there are any, and what follows. -/
def takeFraction : Str → Str × Str
  | [] => ([], [])
  | c :: rest =>
      if c = ord '.' ∧ rest.takeWhile isDigit ≠ [] then
        (c :: rest.takeWhile isDigit, rest.dropWhile isDigit)
      else ([], c :: rest)

/-- The sign of an exponent, and what follows. -/
def takeExponentSign : Str → Str × Str
  | [] => ([], [])
  | c :: rest => if c = ord '+' ∨ c = ord '-' then ([c], rest) else ([], c :: rest)

/-- The exponent, if there are digits in it, and what follows. -/
def takeExponent : Str → Str × Str
  | [] => ([], [])
  | c :: rest =>
      let (sign, body) := takeExponentSign rest
      if (c = ord 'e' ∨ c = ord 'E') ∧ body.takeWhile isDigit ≠ [] then
        (c :: sign ++ body.takeWhile isDigit, body.dropWhile isDigit)
      else ([], c :: rest)

section Read

variable (floats : Floats)

/-- A number, and what follows. -/
def scanNumber (s : Str) : Except Failure (Value × Str) :=
  let (sign, unsigned) := takeSign s
  match takeWhole unsigned with
  | none => .error .value
  | some (whole, rest) =>
      let (fraction, rest) := takeFraction rest
      let (exponent, rest) := takeExponent rest
      if fraction = [] ∧ exponent = [] then
        if Numerals.maxStrDigits < whole.length then .error .value
        else .ok (.int (if sign = [] then digitsValue whole else -digitsValue whole), rest)
      else
        match floats.float (sign ++ whole ++ fraction ++ exponent) with
        | some x => .ok (.float x, rest)
        | none => .error .value

/-- The words. -/
def words : List (Str × Value) :=
  [(ofString "null", .null), (ofString "true", .bool true), (ofString "false", .bool false),
    (ofString "NaN", .float .nan), (ofString "Infinity", .float (.infinite false)),
    (ofString "-Infinity", .float (.infinite true))]

/-- A value, from how arrays and objects are read after their bracket, and what follows. -/
def scanStep (array object : Str → Except Failure (Value × Str)) :
    Str → Except Failure (Value × Str)
  | [] => .error .value
  | c :: rest =>
      if c = ord '"' then (scanString rest).map fun (text, rest) => (.str text, rest)
      else if c = ord '[' then array rest
      else if c = ord '{' then object rest
      else
        match words.find? fun word => word.1.isPrefixOf (c :: rest) with
        | some (word, value) => .ok (value, (c :: rest).drop word.length)
        | none => scanNumber floats (c :: rest)

/-- One or more elements with commas between them, up to the closing bracket, and what follows. Each
element and comma is at least one character, so `fuel` is the length of the text. -/
def scanLoop {α : Type} (one : Str → Except Failure (α × Str)) (close : CodePoint) :
    Nat → Str → Except Failure (List α × Str)
  | 0, _ => .error .value
  | fuel + 1, s =>
      match one s with
      | .error failure => .error failure
      | .ok (element, rest) =>
          match skip rest with
          | [] => .error .value
          | c :: rest =>
              if c = close then .ok ([element], rest)
              else if c = ord ',' then
                (scanLoop one close fuel (skip rest)).map fun (elements, rest) =>
                  (element :: elements, rest)
              else .error .value

/-- The elements after an opening bracket, and what follows. -/
def scanElements {α : Type} (one : Str → Except Failure (α × Str)) (close : CodePoint) (s : Str) :
    Except Failure (List α × Str) :=
  match skip s with
  | [] => .error .value
  | c :: rest =>
      if c = close then .ok ([], rest) else scanLoop one close (c :: rest).length (c :: rest)

/-- A key, a colon and a value, and what follows. -/
def scanMember (scan : Str → Except Failure (Value × Str)) :
    Str → Except Failure ((Str × Value) × Str)
  | [] => .error .value
  | c :: rest =>
      if c = ord '"' then
        match scanString rest with
        | .error failure => .error failure
        | .ok (key, rest) =>
            match skip rest with
            | [] => .error .value
            | c :: rest =>
                if c = ord ':' then
                  (scan (skip rest)).map fun (value, rest) => ((key, value), rest)
                else .error .value
      else .error .value

/-- The entries of a `dict` that the members are stored in one after the other. -/
def entriesOf (members : List (Str × Value)) : List (Str × Value) :=
  members.foldl (fun entries member => Dict.assigned entries member.1 member.2) []

/-- A value, with the nesting there is room for, and what follows. -/
def scanValue : Nat → Str → Except Failure (Value × Str)
  | 0 => scanStep floats (fun _ => .error .recursion) fun _ => .error .recursion
  | depth + 1 =>
      scanStep floats
        (fun rest => (scanElements (scanValue depth) (ord ']') rest).map fun (items, rest) =>
          (.array items, rest))
        fun rest =>
          (scanElements (scanMember (scanValue depth)) (ord '}') rest).map fun (members, rest) =>
            (.object (entriesOf members), rest)

/-- The value of a text that holds nothing else. -/
def decodeText (limit : Nat) (s : Str) : Except Failure Value :=
  match scanValue floats limit (skip s) with
  | .error failure => .error failure
  | .ok (value, rest) => if skip rest = [] then .ok value else .error .value

/-- What `json.loads` reads. -/
inductive Document where
  | str (text : Str)
  | bytes (raw : List UInt8)

/-- `json.loads`. -/
def loads (limit : Nat) : Document → Except Failure Value
  | .str s => if s.head? = some 0xFEFF then .error .value else decodeText floats limit s
  | .bytes raw =>
      match Encodings.decode raw with
      | some s => decodeText floats limit s
      | none => .error .value

end Read

end CatalogApi.Json
