import QuantumNode.Text.Integer

/-! Registers of an application: four groups of sixteen. An index outside a group can be written down, and is
refused by whoever looks the register up. -/
namespace QuantumNode

inductive RegisterGroup where
  | R | C | Q | M
  deriving DecidableEq, Repr

structure Register where
  group : RegisterGroup
  index : Int
  deriving DecidableEq, Repr

namespace RegisterGroup

def letter : RegisterGroup → Char
  | R => 'R'
  | C => 'C'
  | Q => 'Q'
  | M => 'M'

def ofLetter? : Char → Option RegisterGroup
  | 'R' => some R
  | 'C' => some C
  | 'Q' => some Q
  | 'M' => some M
  | _ => none

def position : RegisterGroup → Nat
  | R => 0
  | C => 1
  | Q => 2
  | M => 3

def all : List RegisterGroup := [R, C, Q, M]

theorem ofLetter?_letter (g : RegisterGroup) : ofLetter? g.letter = some g := by cases g <;> rfl

theorem position_lt (g : RegisterGroup) : g.position < 4 := by cases g <;> decide

end RegisterGroup

namespace Register

def perGroup : Nat := 16

def text (r : Register) : String := String.ofList [r.group.letter] ++ toString r.index

/-- A group letter and an index from 0 to 15, which may carry a minus sign or leading zeros. -/
def parse? (cs : List Char) : Option Register :=
  match cs with
  | c :: ds =>
    match RegisterGroup.ofLetter? c, Text.int64? ds with
    | some g, some i => if 0 ≤ i ∧ i < perGroup then some ⟨g, i⟩ else none
    | _, _ => none
  | [] => none

/-- Place among the 64 registers, for an index inside its group. -/
def slot? (r : Register) : Option (Fin 64) :=
  if h : 0 ≤ r.index ∧ r.index < 16 then
    some ⟨r.group.position * 16 + r.index.toNat, by have := r.group.position_lt; omega⟩
  else none

/-- Every register, by group and index. -/
def all : List Register :=
  RegisterGroup.all.flatMap fun g => (List.range perGroup).map fun i : Nat => { group := g, index := (i : Int) }

end Register

end QuantumNode
