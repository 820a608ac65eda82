/-! Words of 64 and 32 bits. An unsigned word is a natural number below the size, a signed word an integer. -/
namespace QuantumNode.Word

def size64 : Nat := 0x10000000000000000

def size32 : Nat := 0x100000000

def least64 : Int := -0x8000000000000000

def greatest64 : Int := 0x7fffffffffffffff

def unsigned64 (v : Int) : Nat := (v % size64).toNat

def signed64 (v : Int) : Int := v.bmod size64

def signed32 (v : Int) : Int := v.bmod size32

def fitsSigned64 (v : Int) : Bool := -0x8000000000000000 ≤ v && v ≤ 0x7fffffffffffffff

def fitsSigned32 (v : Int) : Bool := -0x80000000 ≤ v && v ≤ 0x7fffffff

end QuantumNode.Word
