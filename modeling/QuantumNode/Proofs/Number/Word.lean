import QuantumNode.Number.Word

/-! Which integers are signed words, and that wrapping around leaves those alone. -/
namespace QuantumNode.Word

variable {v : Int}

theorem fitsSigned32_iff : fitsSigned32 v = true ↔ -0x80000000 ≤ v ∧ v ≤ 0x7fffffff := by
  rw [fitsSigned32, Bool.and_eq_true, decide_eq_true_iff, decide_eq_true_iff]

theorem fitsSigned64_iff : fitsSigned64 v = true ↔ -0x8000000000000000 ≤ v ∧ v ≤ 0x7fffffffffffffff := by
  rw [fitsSigned64, Bool.and_eq_true, decide_eq_true_iff, decide_eq_true_iff]

theorem fitsSigned64_of_fitsSigned32 (h : fitsSigned32 v = true) : fitsSigned64 v = true := by
  rw [fitsSigned32_iff] at h
  rw [fitsSigned64_iff]
  omega

theorem fitsSigned32_signed32 (v : Int) : fitsSigned32 (signed32 v) = true := by
  have h₁ : -0x80000000 ≤ v.bmod size32 := Int.le_bmod (by decide)
  have h₂ : v.bmod size32 < 0x80000000 := Int.bmod_lt (by decide)
  exact fitsSigned32_iff.2 ⟨h₁, Int.le_of_lt_add_one h₂⟩

theorem fitsSigned64_signed64 (v : Int) : fitsSigned64 (signed64 v) = true := by
  have h₁ : -0x8000000000000000 ≤ v.bmod size64 := Int.le_bmod (by decide)
  have h₂ : v.bmod size64 < 0x8000000000000000 := Int.bmod_lt (by decide)
  exact fitsSigned64_iff.2 ⟨h₁, Int.le_of_lt_add_one h₂⟩

theorem signed64_of_fits (h : fitsSigned64 v = true) : signed64 v = v := by
  rw [fitsSigned64_iff] at h
  exact Int.bmod_eq_of_le (by rw [size64]; omega) (by rw [size64]; omega)

/-- A word that is stored as a signed one is read back. -/
theorem unsigned64_signed64 {k : Nat} (h : k < size64) : unsigned64 (signed64 k) = k := by
  rw [unsigned64, signed64, Int.bmod_emod, ← Int.natCast_emod, Nat.mod_eq_of_lt h, Int.toNat_natCast]

theorem signed32_of_fits (h : fitsSigned32 v = true) : signed32 v = v := by
  rw [fitsSigned32_iff] at h
  exact Int.bmod_eq_of_le (by simp only [size32]; omega) (by simp only [size32]; omega)

end QuantumNode.Word
