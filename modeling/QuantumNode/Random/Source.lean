import QuantumNode.Random.MersenneTwister
import QuantumNode.Number.Word

/-! A seeded source of random reals, bits and bounded integers. Equal seeds give equal sequences. -/
namespace QuantumNode

structure RandomSource where
  twister : Random.MersenneTwister

namespace RandomSource

def ofSeed (seed : Nat) : RandomSource := ⟨.ofSeed seed⟩

def draw (s : RandomSource) : UInt64 × RandomSource :=
  let (w, t) := s.twister.next
  (w, ⟨t⟩)

/-- The largest double below one. -/
def belowOne : Float := Float.ofBits 0x3fefffffffffffff

/-- A real from zero up to one, which is not included. -/
def uniform (s : RandomSource) : Float × RandomSource :=
  let (w, s) := s.draw
  let x := w.toFloat / 18446744073709551616.0
  (if x ≥ 1.0 then belowOne else x, s)

def bernoulli (s : RandomSource) (p : Float) : Bool × RandomSource :=
  let (x, s) := s.uniform
  (x < p, s)

/-- Draws until the low word of `draw * n` is at least `threshold`, for at most `fuel` draws. -/
private def belowAux (n threshold : Nat) : Nat → Nat → RandomSource → Nat × RandomSource
  | 0, product, s => (product / Word.size64, s)
  | fuel + 1, product, s =>
    if product % Word.size64 < threshold then
      let (w, s) := s.draw
      belowAux n threshold fuel (w.toNat * n) s
    else (product / Word.size64, s)

/-- An integer below `n` without bias: the high word of a product, draws with a too small low word being
repeated. Each repetition has probability below one half, and there are at most 4096 of them. -/
def below (s : RandomSource) (n : Nat) : Nat × RandomSource :=
  if n = 0 then (0, s)
  else
    let (w, s) := s.draw
    let product := w.toNat * n
    if product % Word.size64 < n then belowAux n ((Word.size64 - n) % n) 4096 product s else (product / Word.size64, s)

end RandomSource

end QuantumNode
