import QuantumNode.Fault
import QuantumNode.Number.RealReader
import QuantumNode.Number.RealText

/-! Messages between programs: plain text, decimal numbers, and an envelope that carries a header and a payload
of any octets. -/
namespace QuantumNode

open QuantumNode.Text QuantumNode.Number

structure Envelope where
  header : String
  payload : String
  deriving DecidableEq, Repr

namespace Envelope

def tag : List Char := "#STRUCT ".toList

def encode (e : Envelope) : String := s!"#STRUCT {e.header.length}:{e.header}{e.payload}"

/-- Offsets are added modulo 2^64 before they are compared with the length of the text. -/
def split (text : List Char) (start length : Nat) : Except Fault Envelope :=
  let stop := (start + length) % Word.size64
  if text.length < stop then .error .envelopeTruncated
  else .ok ⟨String.ofList ((text.drop start).take length), String.ofList (text.drop stop)⟩

def decode (text : String) : Except Fault Envelope :=
  let cs := text.toList
  if !tag.isPrefixOf cs then .error (.envelopeExpected text)
  else
    match cutAt ':' (cs.drop tag.length) with
    | none => .error .envelopeMalformed
    | some (number, _) =>
      match leadingNat64? number with
      | none => .error .envelopeLength
      | some (length, _) => split cs (tag.length + number.length + 1) length

end Envelope

/-- A whole text that is a number of 64 signed bits; blanks may precede it. -/
def decodeInteger (text : String) : Except Fault Int :=
  match leadingInt64? text.toList with
  | some (v, []) => .ok v
  | _ => .error (.integerExpected text)

/-- A whole text that is a real number in the range of doubles; blanks may precede it. -/
def decodeReal (text : String) : Except Fault Binary64 :=
  match RealReading.read? text.toList with
  | some ⟨v, false, []⟩ => .ok v
  | _ => .error (.realExpected text)

/-- Seventeen digits let every double be read back. -/
def realText (x : Binary64) : String := RealText.general 17 x

end QuantumNode
