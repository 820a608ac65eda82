/-! Texts are strings of octets: every character has a code below 256. The rules here know ASCII only,
so the octets from 128 up are neither blanks nor letters nor digits. -/
namespace QuantumNode.Text

/-- Space, tab, line feed, vertical tab, form feed and carriage return. -/
def isBlank (c : Char) : Bool := c == ' ' || (9 ≤ c.toNat && c.toNat ≤ 13)

def isLetter (c : Char) : Bool := ('a' ≤ c && c ≤ 'z') || ('A' ≤ c && c ≤ 'Z')

/-- Letters, digits and the underscore. -/
def isWordChar (c : Char) : Bool := isLetter c || c.isDigit || c == '_'

def lowerChar (c : Char) : Char := if 'A' ≤ c && c ≤ 'Z' then Char.ofNat (c.toNat + 32) else c

def lower (cs : List Char) : List Char := cs.map lowerChar

/-- Drops the characters of a class from both ends. -/
def trimBy (p : Char → Bool) (cs : List Char) : List Char :=
  ((cs.dropWhile p).reverse.dropWhile p).reverse

def trim (cs : List Char) : List Char := trimBy isBlank cs

/-- Lines end at line feeds; a last line needs none, and no line follows a final line feed. -/
def lines : List Char → List (List Char)
  | [] => []
  | c :: r =>
    if c = '\n' then [] :: lines r
    else match lines r with
      | [] => [[c]]
      | l :: ls => (c :: l) :: ls

/-- Lines with their numbers, counted from one. -/
def numberedLines (cs : List Char) : List (Nat × List Char) :=
  ((lines cs).zipIdx 1).map fun p => (p.2, p.1)

/-- Longest runs of characters that are no blanks. -/
def words : List Char → List (List Char)
  | [] => []
  | c :: r =>
    if isBlank c then words r
    else match r with
      | [] => [[c]]
      | d :: _ =>
        if isBlank d then [c] :: words r
        else match words r with
          | [] => [[c]]
          | w :: ws => (c :: w) :: ws

/-- The next word and what follows it; the word is empty when only blanks are left. -/
def nextWord (cs : List Char) : List Char × List Char :=
  let cs := cs.dropWhile isBlank
  (cs.takeWhile (!isBlank ·), cs.dropWhile (!isBlank ·))

/-- What stands before and after the first occurrence of a character. -/
def cutAt (sep : Char) (cs : List Char) : Option (List Char × List Char) :=
  if sep ∈ cs then some (cs.takeWhile (· != sep), (cs.dropWhile (· != sep)).drop 1) else none

/-- The pieces between the occurrences of a character, empty pieces included. -/
def splitAt (sep : Char) : List Char → List (List Char)
  | [] => [[]]
  | c :: r =>
    if c = sep then [] :: splitAt sep r
    else match splitAt sep r with
      | [] => [[c]]
      | p :: ps => (c :: p) :: ps

/-- The part before the first occurrence of a character, all of the text without one. -/
def before (sep : Char) (cs : List Char) : List Char := cs.takeWhile (· != sep)

/-- A text as it is seen where texts end at their first NUL. -/
def untilNul (s : String) : String := String.ofList (before '\x00' s.toList)

end QuantumNode.Text
