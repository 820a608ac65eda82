/-! The 64-bit Mersenne twister with 312 words of state and its standard seeding. -/
namespace QuantumNode.Random

structure MersenneTwister where
  words : Vector UInt64 312
  /-- How many words of the current block have been handed out. -/
  used : Nat

namespace MersenneTwister

def word (ws : Vector UInt64 312) (i : Nat) : UInt64 := ws.get ⟨i % 312, Nat.mod_lt _ (by decide)⟩

def put (ws : Vector UInt64 312) (i : Nat) (w : UInt64) : Vector UInt64 312 :=
  ws.set (i % 312) w (Nat.mod_lt _ (by decide))

private def seedStep (ws : Vector UInt64 312) (i : Nat) : Vector UInt64 312 :=
  let previous := word ws i
  put ws (i + 1) ((previous ^^^ (previous >>> 62)) * 6364136223846793005 + UInt64.ofNat (i + 1))

def ofSeed (seed : Nat) : MersenneTwister :=
  ⟨(List.range 311).foldl seedStep (Vector.replicate 312 (UInt64.ofNat seed)), 312⟩

private def twistStep (ws : Vector UInt64 312) (i : Nat) : Vector UInt64 312 :=
  let x := (word ws i &&& 0xffffffff80000000) ||| (word ws (i + 1) &&& 0x7fffffff)
  let y : UInt64 := if x &&& 1 = 1 then 0xb5026f5aa96619e9 else 0
  put ws i (word ws (i + 156) ^^^ (x >>> 1) ^^^ y)

def twist (ws : Vector UInt64 312) : Vector UInt64 312 := (List.range 312).foldl twistStep ws

def temper (w : UInt64) : UInt64 :=
  let w := w ^^^ ((w >>> 29) &&& 0x5555555555555555)
  let w := w ^^^ ((w <<< 17) &&& 0x71d67fffeda60000)
  let w := w ^^^ ((w <<< 37) &&& 0xfff7eee000000000)
  w ^^^ (w >>> 43)

/-- The next word; a spent block is replaced by a new one first. -/
def next (t : MersenneTwister) : UInt64 × MersenneTwister :=
  if t.used < 312 then (temper (word t.words t.used), { t with used := t.used + 1 })
  else
    let ws := twist t.words
    (temper (word ws 0), ⟨ws, 1⟩)

end MersenneTwister

end QuantumNode.Random
