import QuantumNode.Text.Basic

/-! Access to files, and a tree of files held in memory. Texts are strings of octets. -/
namespace QuantumNode

open QuantumNode.Text

/-- How a computation reads and writes files, named by their paths. -/
structure FileAccess (μ : Type → Type) where
  /-- The contents of a file, if it can be opened. -/
  read : String → μ (Option String)
  /-- Makes an empty file, in the place of one of that name; false if that cannot be done. -/
  create : String → μ Bool
  /-- Writes a text over what a file holds from a position on. -/
  write : String → Nat → String → μ Unit

/-- A text with another written over it from a position on; NULs fill the gap if it ends before that. -/
def overwrite (old : String) (position : Nat) (text : String) : String :=
  if text.isEmpty then old
  else
    let cs := old.toList
    String.ofList (cs.take position ++ List.replicate (position - cs.length) '\x00' ++ text.toList
      ++ cs.drop (position + text.length))

/-- How much a buffer in front of a file can hold. -/
def bufferSize : Nat := 8191

/-- How much of a text that is written in pieces has left the buffer when the last one has been written. A piece
for which there is no room goes out at once, and with it all that was held. -/
def sentLength (pieces : List String) : Nat :=
  (pieces.foldl (fun (sent, held) p =>
    if p.length < bufferSize - held then (sent, held + p.length) else (sent + held + p.length, 0)) (0, 0)).1

/-- Where a file or a directory is: the names on the way to it from the root. -/
abbrev Place := List String

structure Files where
  /-- The directory that relative paths start from. -/
  start : Place
  /-- Files with their texts, in no particular order. -/
  contents : List (Place × String)
  deriving DecidableEq, Repr

namespace Files

/-- Nothing can be read from this device, and what is written to it is dropped. -/
def nullDevice : Place := ["dev", "null"]

/-- Directories that are there without a file in them. -/
def standing : List Place :=
  ["bin", "dev", "etc", "home", "lib", "mnt", "opt", "root", "run", "sbin", "srv", "tmp", "usr", "var"].map ([·])

/-- The greatest length of a name. -/
def nameLimit : Nat := 255

/-- The greatest length of a path. -/
def pathLimit : Nat := 4095

def isDirectory (f : Files) (p : Place) : Bool :=
  p.isPrefixOf f.start || standing.contains p || f.contents.any fun e => p ≠ e.1 && p.isPrefixOf e.1

/-- Where a component of a path leads from a directory. -/
def enter (p : Place) (name : String) : Place :=
  if name = "" ∨ name = "." then p else if name = ".." then p.dropLast else p ++ [name]

/-- Follows the components of a path. Each of them is looked up in a directory that has to be there. -/
def follow (f : Files) : Place → List String → Option Place
  | p, [] => some p
  | p, name :: rest =>
    if f.isDirectory p && name.length ≤ nameLimit then f.follow (enter p name) rest else none

/-- The directory where a path starts. -/
def origin (f : Files) (path : String) : Place := if path.toList.head? = some '/' then [] else f.start

def components (path : String) : List String := (splitAt '/' path.toList).map String.ofList

/-- Where a path leads; it ends at its first NUL. -/
def resolve (f : Files) (path : String) : Option Place :=
  let path := untilNul path
  if path.isEmpty || pathLimit < path.length then none else f.follow (f.origin path) (components path)

def find? (f : Files) (p : Place) : Option String := f.contents.lookup p

def put (f : Files) (p : Place) (text : String) : Files :=
  if p = nullDevice then f else { f with contents := (p, text) :: f.contents.filter fun e => e.1 ≠ p }

/-- A directory with some files in it; those below it that they need are there as well. -/
def ofList (entries : List (String × String)) : Files :=
  entries.foldl (fun f (path, text) => f.put ((components path).foldl enter (f.origin path)) text)
    ⟨["tmp", "work"], []⟩

/-- A directory can be opened, but there is nothing to be read from it. -/
def read (f : Files) (path : String) : Option String := do
  let p ← f.resolve path
  if f.isDirectory p || p == nullDevice then some "" else f.find? p

/-- A file can be made in a directory that is there, under a name that no directory has. -/
def create (f : Files) (path : String) : Option Files := do
  let p ← f.resolve path
  if f.isDirectory p then none else some (f.put p "")

def write (f : Files) (path : String) (position : Nat) (text : String) : Files :=
  match f.resolve path with
  | some p => f.put p (overwrite ((f.find? p).getD "") position text)
  | none => f

/-- Access to the files of a state. -/
def access : FileAccess (StateM Files) where
  read path := do return (← get).read path
  create path := do
    match (← get).create path with
    | some f =>
      set f
      return true
    | none => return false
  write path position text := modify fun f => f.write path position text

end Files

end QuantumNode
