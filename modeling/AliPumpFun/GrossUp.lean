/-
Fee deduction and its gross-up, with floor division on both sides.

A fee of `f` parts in `D` is taken from a gross amount and rounded down; the gross-up
divides a net amount by `(D - f) / D` and rounds down too. The two floors have
different denominators, and the point of this file is that they nevertheless cancel:
gross-up is the upper adjoint of deduction, and deducting from a grossed-up amount
gives the net amount back to the unit.
-/
import Mathlib.Order.GaloisConnection.Basic
import Mathlib.Algebra.Order.Ring.Nat
import Mathlib.Tactic.Ring
import Mathlib.Tactic.Linarith

set_option autoImplicit false

namespace GrossUp

variable {f D t n : ℕ}

/-- The fee on a gross amount `t`. -/
def fee (f D t : ℕ) : ℕ := t * f / D

/-- What is left of a gross amount `t` after its fee. -/
def net (f D t : ℕ) : ℕ := t - fee f D t

/-- The gross amount for a net amount `n`. -/
def gross (f D n : ℕ) : ℕ := n * D / (D - f)

/-- The fee never exceeds the amount. -/
theorem fee_le (h : f ≤ D) (t : ℕ) : fee f D t ≤ t := by
  unfold fee
  exact Nat.div_le_of_le_mul (by rw [Nat.mul_comm]; exact Nat.mul_le_mul_right t h)

theorem fee_mono : Monotone (fee f D) := fun _ _ h =>
  Nat.div_le_div_right (Nat.mul_le_mul_right f h)

theorem fee_add_net (h : f ≤ D) (t : ℕ) : fee f D t + net f D t = t := by
  have := fee_le h t
  unfold net
  omega

/-- Rounding the fee down rounds the net amount up. -/
theorem net_le_iff (h : f < D) : net f D t ≤ n ↔ t * (D - f) ≤ n * D := by
  have hD : 0 < D := by omega
  obtain ⟨e, rfl⟩ : ∃ e, D = f + e := ⟨D - f, by omega⟩
  have hsub : f + e - f = e := by omega
  have hlo : t * f / (f + e) * (f + e) ≤ t * f := Nat.div_mul_le_self _ _
  have hhi : t * f < (t * f / (f + e) + 1) * (f + e) :=
    (Nat.div_lt_iff_lt_mul hD).mp (Nat.lt_succ_self _)
  unfold net fee
  rw [hsub]
  generalize t * f / (f + e) = q at hlo hhi ⊢
  constructor
  · intro hle
    have : t * (f + e) ≤ (n + q) * (f + e) := Nat.mul_le_mul_right _ (by omega)
    nlinarith
  · intro hle
    have : t * (f + e) < (n + q + 1) * (f + e) := by nlinarith
    have := Nat.lt_of_mul_lt_mul_right this
    omega

/-- **Gross-up is the upper adjoint of fee deduction.** -/
theorem gc (h : f < D) : GaloisConnection (net f D) (gross f D) := by
  intro t n
  rw [net_le_iff h, gross, Nat.le_div_iff_mul_le (by omega)]

/-- The gross-up is below `T` exactly when the net amount is below that of `T`. -/
theorem gross_lt_iff {T : ℕ} (h : f < D) : gross f D n < T ↔ n < net f D T :=
  (gc h).lt_iff_lt.symm

/-- A larger gross amount never leaves a smaller net amount. -/
theorem net_mono (h : f < D) : Monotone (net f D) := (gc h).monotone_l

/-- One more unit of net amount costs at least one more unit of gross amount. -/
theorem gross_strictMono (h : f < D) : StrictMono (gross f D) := by
  refine strictMono_nat_of_lt_succ fun n => ?_
  have hpos : 0 < D - f := by omega
  have hstep : n * D + (D - f) ≤ (n + 1) * D := by
    rw [Nat.add_mul]
    omega
  calc gross f D n < n * D / (D - f) + 1 := Nat.lt_succ_self _
    _ = (n * D + (D - f)) / (D - f) := (Nat.add_div_right _ hpos).symm
    _ ≤ gross f D (n + 1) := Nat.div_le_div_right hstep

/-- **The two floors cancel**: the net amount of a grossed-up amount is the amount
that was grossed up. -/
theorem net_gross (h : f < D) (n : ℕ) : net f D (gross f D n) = n := by
  refine le_antisymm ((gc h).l_u_le n) ?_
  by_contra hlt
  obtain ⟨m, rfl⟩ : ∃ m, n = m + 1 := ⟨n - 1, by omega⟩
  have hle : gross f D (m + 1) ≤ gross f D m := (gc h).le_u (by omega)
  exact absurd (gross_strictMono h (Nat.lt_succ_self m)) (Nat.not_lt.mpr hle)

/-- Cutting a gross amount at the gross-up of `n` cuts its net amount at `n`. -/
theorem net_min_gross (h : f < D) : net f D (min t (gross f D n)) = min (net f D t) n := by
  rw [(net_mono h).map_min, net_gross h]

/-- The cut leaves the gross amount alone as long as the net amount is within `n`. -/
theorem min_gross_of_net_le (h : f < D) (hn : net f D t ≤ n) : min t (gross f D n) = t :=
  min_eq_left ((gc h).le_u hn)

/-- Past the cut the gross amount is above the gross-up. -/
theorem gross_lt_of_lt_net (h : f < D) (hn : n < net f D t) : gross f D n < t := by
  by_contra hle
  exact absurd ((gc h).l_le (Nat.not_lt.mp hle)) (Nat.not_le.mpr hn)

/-- A fee rate of one in `k` takes one in `k` at the most. -/
theorem mul_fee_le {k : ℕ} (h : k * f ≤ D) (hD : 0 < D) (t : ℕ) : k * fee f D t ≤ t := by
  refine Nat.le_of_mul_le_mul_right ?_ hD
  calc k * fee f D t * D = k * (fee f D t * D) := Nat.mul_assoc _ _ _
    _ ≤ k * (t * f) := Nat.mul_le_mul_left k (Nat.div_mul_le_self _ _)
    _ = t * (k * f) := by ring
    _ ≤ t * D := Nat.mul_le_mul_left t h

/-! ## A gross-up that is cast

Where the gross-up is reduced modulo `T`, the fee is computed from what is left of it, but
the net amount is paid in full. -/

/-- What is paid for a net amount `n`: the amount and the fee on its reduced gross-up. -/
def debit (f D T n : ℕ) : ℕ := n + fee f D (gross f D n % T)

section Debit

variable {T m : ℕ}

theorem debit_of_lt (h : f < D) (hT : gross f D n < T) : debit f D T n = gross f D n := by
  have hsum := fee_add_net h.le (gross f D n)
  rw [net_gross h] at hsum
  rw [debit, Nat.mod_eq_of_lt hT]
  omega

/-- What is left of the gross-up after the cast is paid in any case. -/
theorem gross_mod_le_debit (h : f < D) : gross f D n % T ≤ debit f D T n := by
  have hsum := fee_add_net h.le (gross f D n % T)
  have hnet : net f D (gross f D n % T) ≤ net f D (gross f D n) := net_mono h (Nat.mod_le _ _)
  rw [net_gross h] at hnet
  rw [debit]
  omega

/-- At a rate of at most one half the gross-up is at most twice the amount. -/
theorem gross_le_two_mul (h : 2 * f ≤ D) (n : ℕ) : gross f D n ≤ 2 * n := by
  apply Nat.div_le_of_le_mul
  calc n * D ≤ n * (2 * (D - f)) := Nat.mul_le_mul_left n (by omega)
    _ = (D - f) * (2 * n) := by ring

/-- So it wraps around once at most, and then ends up below the amount. -/
theorem gross_mod_eq (h : 2 * f ≤ D) (hn : n < T) (hT : T ≤ gross f D n) :
    gross f D n % T = gross f D n - T := by
  have htwo := gross_le_two_mul h n
  rw [Nat.mod_eq_sub_mod hT, Nat.mod_eq_of_lt (by omega)]

theorem gross_mod_lt (h : 2 * f ≤ D) (hn : n < T) (hT : T ≤ gross f D n) :
    gross f D n % T < n := by
  have htwo := gross_le_two_mul h n
  rw [gross_mod_eq h hn hT]
  omega

theorem debit_of_le (h : 2 * f ≤ D) (hn : n < T) (hT : T ≤ gross f D n) :
    debit f D T n = n + fee f D (gross f D n - T) := by
  rw [debit, gross_mod_eq h hn hT]

/-- **On one side of the cast a larger net amount costs more.** -/
theorem debit_le_iff (h : 2 * f ≤ D) (hD : 0 < D) (hn : n < T) (hm : m < T)
    (hside : gross f D n < T ↔ gross f D m < T) : debit f D T n ≤ debit f D T m ↔ n ≤ m := by
  have hlt : f < D := by omega
  by_cases hnT : gross f D n < T
  · rw [debit_of_lt hlt hnT, debit_of_lt hlt (hside.mp hnT), (gross_strictMono hlt).le_iff_le]
  · have hmT : T ≤ gross f D m := Nat.not_lt.mp fun hm' => hnT (hside.mpr hm')
    have hmono : ∀ {i j : ℕ}, i ≤ j →
        fee f D (gross f D i - T) ≤ fee f D (gross f D j - T) := fun hij =>
      fee_mono (Nat.sub_le_sub_right ((gross_strictMono hlt).monotone hij) T)
    rw [debit_of_le h hn (Nat.not_lt.mp hnT), debit_of_le h hm hmT]
    constructor
    · intro hle
      by_contra hgt
      have := hmono (Nat.not_le.mp hgt).le
      omega
    · intro hle
      exact Nat.add_le_add hle (hmono hle)

end Debit

end GrossUp
