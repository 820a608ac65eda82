import QuantumNode.Text.Integer

/-! JSON texts and what they stand for. The reader takes exactly the grammar of JSON: one value, with blanks around its
parts and nothing else behind it. Its characters may be taken for octets as well as for code points, since the grammar
tells no two of them apart that have a code above 127. -/
namespace QuantumNode

open Text

/-- Values, the members of an object in the order in which they stand. A number is its coefficient times a power of
ten, as it is written. -/
inductive Json where
  | null
  | boolean (b : Bool)
  | number (coefficient exponent : Int)
  | string (s : String)
  | array (items : List Json)
  | object (members : List (String × Json))
  deriving Repr

namespace Json

variable {α : Type}

/-- Space, tab, line feed and carriage return. -/
def isSpace (c : Char) : Bool := c == ' ' || c == '\t' || c == '\n' || c == '\r'

def skip (cs : List Char) : List Char := cs.dropWhile isSpace

/-! ### Strings -/

/-- What a character behind a backslash stands for, if it needs no digits. -/
def escape? : Char → Option Char
  | '\x22' => some '\x22'
  | '\\' => some '\\'
  | '/' => some '/'
  | 'b' => some '\x08'
  | 'f' => some '\x0c'
  | 'n' => some '\n'
  | 'r' => some '\r'
  | 't' => some '\t'
  | _ => none

def hexDigit? (c : Char) : Option Nat :=
  if c.isDigit then some (c.toNat - '0'.toNat)
  else if 'a' ≤ c && c ≤ 'f' then some (c.toNat - 'a'.toNat + 10)
  else if 'A' ≤ c && c ≤ 'F' then some (c.toNat - 'A'.toNat + 10)
  else none

/-- Sixteen bits, by four digits. -/
def unit? (a b c d : Char) : Option Nat := do
  return ((← hexDigit? a) * 4096 + (← hexDigit? b) * 256 + (← hexDigit? c) * 16 + (← hexDigit? d))

/-- The character of one unit that is no half of a pair. -/
def single? (u : Nat) : Option Char := if 0xd800 ≤ u && u < 0xe000 then none else some (Char.ofNat u)

/-- The character of a pair of units. -/
def pair? (u v : Nat) : Option Char :=
  if 0xd800 ≤ u && u < 0xdc00 && 0xdc00 ≤ v && v < 0xe000 then
    some (Char.ofNat (0x10000 + (u - 0xd800) * 0x400 + (v - 0xdc00)))
  else none

/-- The characters of a string up to its closing quotation mark, and what follows. Control characters have to be
escaped. -/
def characters : List Char → Option (List Char × List Char)
  | [] => none
  | c :: r =>
    if c = '\x22' then some ([], r)
    else if c = '\\' then
      match r with
      | 'u' :: a :: b :: c :: d :: r =>
        match (unit? a b c d).bind single?, r with
        | some x, r => (characters r).map fun p => (x :: p.1, p.2)
        | none, '\\' :: 'u' :: a' :: b' :: c' :: d' :: r =>
          match (unit? a b c d).bind fun u => (unit? a' b' c' d').bind (pair? u) with
          | some x => (characters r).map fun p => (x :: p.1, p.2)
          | none => none
        | none, _ => none
      | e :: r =>
        match escape? e with
        | some x => (characters r).map fun p => (x :: p.1, p.2)
        | none => none
      | [] => none
    else if c.toNat < 32 then none
    else (characters r).map fun p => (c :: p.1, p.2)

/-! ### Numbers -/

/-- A point and digits, or neither. -/
def fraction? : List Char → Option (List Char × List Char)
  | '.' :: r =>
    if (r.takeWhile Char.isDigit).isEmpty then none
    else some (r.takeWhile Char.isDigit, r.dropWhile Char.isDigit)
  | r => some ([], r)

/-- The letter of an exponent, its sign and its digits, or none of them. -/
def exponent? : List Char → Option (Int × List Char)
  | c :: r =>
    if c = 'e' || c = 'E' then
      let ds := if r.head? == some '-' || r.head? == some '+' then r.drop 1 else r
      if (ds.takeWhile Char.isDigit).isEmpty then none
      else some (signed (r.head? == some '-') (natOfDigits (ds.takeWhile Char.isDigit)), ds.dropWhile Char.isDigit)
    else some (0, c :: r)
  | [] => some (0, [])

/-- Digits with no zero in front of others. -/
def isWhole (ds : List Char) : Bool := !ds.isEmpty && (ds.head? != some '0' || ds.length == 1)

def number? (cs : List Char) : Option (Json × List Char) :=
  let negative := cs.head? == some '-'
  let cs := if negative then cs.drop 1 else cs
  let whole := cs.takeWhile Char.isDigit
  if isWhole whole then do
    let (places, r) ← fraction? (cs.dropWhile Char.isDigit)
    let (e, r) ← exponent? r
    some (.number (signed negative (natOfDigits (whole ++ places))) (e - places.length), r)
  else none

/-! ### Values -/

/-- The three names. -/
def name? (cs : List Char) : Option (Json × List Char) :=
  if "null".toList.isPrefixOf cs then some (.null, cs.drop 4)
  else if "true".toList.isPrefixOf cs then some (.boolean true, cs.drop 4)
  else if "false".toList.isPrefixOf cs then some (.boolean false, cs.drop 5)
  else none

/-- A number of items with commas between them, up to a closing character. -/
def items (item : List Char → Option (α × List Char)) (close : Char) : Nat → List Char → Option (List α × List Char)
  | 0, _ => none
  | n + 1, cs => do
    let (a, r) ← item cs
    match skip r with
    | [] => none
    | c :: r =>
      if c = close then some ([a], r)
      else if c = ',' then (items item close n r).map fun p => (a :: p.1, p.2)
      else none

/-- Items up to a closing character, or no items. There are no more items than characters. -/
def enclosed (item : List Char → Option (α × List Char)) (close : Char) (cs : List Char) :
    Option (List α × List Char) :=
  match skip cs with
  | [] => none
  | c :: r => if c = close then some ([], r) else items item close r.length (c :: r)

/-- A name, a colon and a value. -/
def member (value : List Char → Option (Json × List Char)) (cs : List Char) : Option ((String × Json) × List Char) :=
  match skip cs with
  | '\x22' :: r => do
    let (name, r) ← characters r
    match skip r with
    | ':' :: r => (value r).map fun p => ((String.ofList name, p.1), p.2)
    | _ => none
  | _ => none

/-- A value that is nested no deeper than a number of levels, and what follows it. -/
def value : Nat → List Char → Option (Json × List Char)
  | 0, _ => none
  | depth + 1, cs =>
    match skip cs with
    | '\x22' :: r => (characters r).map fun p => (.string (String.ofList p.1), p.2)
    | '[' :: r => (enclosed (value depth) ']' r).map fun p => (.array p.1, p.2)
    | '\x7b' :: r => (enclosed (member (value depth)) '\x7d' r).map fun p => (.object p.1, p.2)
    | r => (name? r).or (number? r)

/-- What a whole text stands for. No value is nested deeper than its text is long. -/
def read? (text : String) : Option Json :=
  match value text.length text.toList with
  | some (v, r) => if (skip r).isEmpty then some v else none
  | none => none

end Json

end QuantumNode
