import QuantumNode.CommandLine.Run
import QuantumNode.Text.Json

/-! The program: its arguments, the files of the machine and the two outputs. -/
namespace QuantumNode

/-- Texts are strings of octets inside. -/
def ofOctets (b : ByteArray) : String := String.ofList (b.toList.map fun o => Char.ofNat o.toNat)

def toOctets (s : String) : ByteArray := Text.octets s.toList

/-- A path as the machine knows it. -/
def pathOf (s : String) : String := (String.fromUTF8? (toOctets s)).getD s

/-- What can be opened but not read, as a directory, reads as empty; what cannot be written is dropped. -/
def machineFiles : FileAccess IO where
  read path := do
    match ← (IO.FS.Handle.mk (pathOf path) .read).toBaseIO with
    | .error _ => return none
    | .ok h => try return some (ofOctets (← h.readBinToEnd)) catch _ => return some ""
  create path := try IO.FS.writeBinFile (pathOf path) ByteArray.empty; return true catch _ => return false
  write path position text :=
    try
      let h ← IO.FS.Handle.mk (pathOf path) .readWrite
      let passed ← if position = 0 then pure 0 else do pure (← h.read position.toUSize).size
      h.flush
      h.write ⟨Array.replicate (position - passed) 0 ++ (toOctets text).data⟩
    catch _ => return

end QuantumNode

open QuantumNode in
def main (args : List String) : IO UInt32 := do
  let args := args.map fun a => ofOctets a.toUTF8
  let report ← CommandLine.command machineFiles args Batch.defaultFuel
  (← IO.getStdout).write (toOctets report.output)
  (← IO.getStderr).write (toOctets report.errors)
  return report.exit.toUInt32
