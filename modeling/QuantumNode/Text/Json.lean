import QuantumNode.Text.Basic

/-! Octet strings as JSON strings. -/
namespace QuantumNode.Text

def hexDigits (n : Nat) : List Char := [Nat.digitChar (n / 16), Nat.digitChar (n % 16)]

/-- Quotes, backslashes, control characters and the delete character are escaped. -/
def jsonChar (c : Char) : List Char :=
  match c with
  | '\x22' => ['\\', '\x22']
  | '\\' => ['\\', '\\']
  | '\n' => ['\\', 'n']
  | '\t' => ['\\', 't']
  | '\r' => ['\\', 'r']
  | c => if c.toNat < 32 || c.toNat = 127 then ['\\', 'u', '0', '0'] ++ hexDigits c.toNat else [c]

def jsonQuoted (cs : List Char) : List Char := '\x22' :: cs.flatMap jsonChar ++ ['\x22']

def octets (cs : List Char) : ByteArray := ⟨(cs.map fun c => UInt8.ofNat c.toNat).toArray⟩

/-- A JSON string; a text that is not valid UTF-8 becomes an object with its octets in hexadecimal. -/
def jsonText (s : String) : List Char :=
  if (String.fromUTF8? (octets s.toList)).isSome then jsonQuoted s.toList
  else "\x7b\"hex\":".toList ++ jsonQuoted (s.toList.flatMap fun c => hexDigits c.toNat) ++ ['\x7d']

end QuantumNode.Text
