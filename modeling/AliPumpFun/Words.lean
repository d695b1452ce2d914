/-
Unsigned machine words with checked arithmetic.

A word is a `BitVec w`. The `checked_*` operations are the ones a language with
overflow checks has: they return the exact result when it fits the width and
`none` when it does not. A narrowing cast is *not* checked: it keeps the low bits,
and it is `BitVec.setWidth` in both directions.

Every operation has one lemma, an equivalence that trades the word equation for
the equation on `toNat`. Nothing above this file unfolds an operation.
-/
import Mathlib.Data.BitVec
import Mathlib.Tactic.Common

set_option autoImplicit false

namespace Words

/-- A 64-bit word. -/
abbrev U64 := BitVec 64

/-- A 128-bit word. -/
abbrev U128 := BitVec 128

variable {w : ℕ} {x y z : BitVec w}

/-- A natural number is the value of a word exactly when it is below `2 ^ w`. -/
theorem exists_toNat_eq {n : ℕ} : (∃ z : BitVec w, z.toNat = n) ↔ n < 2 ^ w := by
  constructor
  · rintro ⟨z, rfl⟩
    exact z.isLt
  · intro h
    exact ⟨BitVec.ofNatLT n h, BitVec.toNat_ofNatLT n h⟩

/-! ## The checked operations -/

/-- Sum, or `none` on overflow. -/
def checked_add (x y : BitVec w) : Option (BitVec w) :=
  if x.toNat + y.toNat < 2 ^ w then some (x + y) else none

/-- Difference, or `none` when it would be negative. -/
def checked_sub (x y : BitVec w) : Option (BitVec w) :=
  if y.toNat ≤ x.toNat then some (x - y) else none

/-- Product, or `none` on overflow. -/
def checked_mul (x y : BitVec w) : Option (BitVec w) :=
  if x.toNat * y.toNat < 2 ^ w then some (x * y) else none

/-- Quotient, or `none` for a zero divisor. -/
def checked_div (x y : BitVec w) : Option (BitVec w) :=
  if y.toNat = 0 then none else some (x / y)

@[simp] theorem checked_add_eq_some :
    checked_add x y = some z ↔ z.toNat = x.toNat + y.toNat := by
  unfold checked_add
  split
  · rename_i h
    rw [Option.some_inj, ← BitVec.toNat_inj, BitVec.toNat_add, Nat.mod_eq_of_lt h]
    exact eq_comm
  · rename_i h
    have := z.isLt
    simp only [reduceCtorEq, false_iff]
    omega

/-- The same with the sum written as the word it is. -/
theorem checked_add_eq_some' :
    checked_add x y = some z ↔ x.toNat + y.toNat < 2 ^ w ∧ x + y = z := by
  unfold checked_add
  split
  · rename_i h
    simp [h]
  · rename_i h
    simp [h]

@[simp] theorem checked_sub_eq_some :
    checked_sub x y = some z ↔ z.toNat + y.toNat = x.toNat := by
  unfold checked_sub
  split
  · rename_i h
    rw [Option.some_inj, ← BitVec.toNat_inj, BitVec.toNat_sub_of_le (BitVec.le_def.mpr h)]
    omega
  · simp only [reduceCtorEq, false_iff]
    omega

theorem checked_add_eq_none : checked_add x y = none ↔ 2 ^ w ≤ x.toNat + y.toNat := by
  unfold checked_add
  split <;> simp <;> omega

theorem checked_sub_eq_none : checked_sub x y = none ↔ x.toNat < y.toNat := by
  unfold checked_sub
  split <;> simp <;> omega

theorem exists_checked_add (h : x.toNat + y.toNat < 2 ^ w) :
    ∃ z, checked_add x y = some z ∧ z.toNat = x.toNat + y.toNat := by
  obtain ⟨z, hz⟩ : ∃ z : BitVec w, z.toNat = x.toNat + y.toNat := exists_toNat_eq.mpr h
  exact ⟨z, checked_add_eq_some.mpr hz, hz⟩

theorem exists_checked_sub (h : y.toNat ≤ x.toNat) :
    ∃ z, checked_sub x y = some z ∧ z.toNat = x.toNat - y.toNat := by
  obtain ⟨z, hz⟩ : ∃ z : BitVec w, z.toNat = x.toNat - y.toNat :=
    exists_toNat_eq.mpr ((Nat.sub_le _ _).trans_lt x.isLt)
  exact ⟨z, checked_sub_eq_some.mpr (by omega), hz⟩

@[simp] theorem checked_mul_eq_some :
    checked_mul x y = some z ↔ z.toNat = x.toNat * y.toNat := by
  unfold checked_mul
  split
  · rename_i h
    rw [Option.some_inj, ← BitVec.toNat_inj, BitVec.toNat_mul, Nat.mod_eq_of_lt h]
    exact eq_comm
  · rename_i h
    have := z.isLt
    simp only [reduceCtorEq, false_iff]
    omega

@[simp] theorem checked_div_eq_some :
    checked_div x y = some z ↔ y.toNat ≠ 0 ∧ z.toNat = x.toNat / y.toNat := by
  unfold checked_div
  split
  · rename_i h
    simp [h]
  · rename_i h
    rw [Option.some_inj, ← BitVec.toNat_inj, BitVec.toNat_udiv]
    exact ⟨fun e => ⟨h, e.symm⟩, fun e => e.2.symm⟩

/-! ## Casts -/

/-- Widening a 64-bit word to 128 bits keeps its value. -/
@[simp] theorem toNat_widen (x : U64) : (x.setWidth 128).toNat = x.toNat :=
  BitVec.toNat_setWidth_of_le (by decide)

/-- Narrowing a 128-bit word to 64 bits reduces its value modulo `2 ^ 64`. -/
@[simp] theorem toNat_narrow (x : U128) : (x.setWidth 64).toNat = x.toNat % 2 ^ 64 :=
  BitVec.toNat_setWidth 64 x

/-- The product of two 64-bit values fits 128 bits. -/
theorem mul_lt_two_pow_128 (x y : U64) : x.toNat * y.toNat < 2 ^ 128 :=
  calc x.toNat * y.toNat < 2 ^ 64 * 2 ^ 64 :=
        Nat.mul_lt_mul'' x.isLt y.isLt
    _ = 2 ^ 128 := by decide

end Words
