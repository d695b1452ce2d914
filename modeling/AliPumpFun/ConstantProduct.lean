/-
The constant-product curve, over the natural numbers and with floor division.

A market maker holds `X` of one asset and `Y` of another and quotes on the
hyperbola through `(X, Y)`. Two quotes exist. `output` is what is paid out for an
exact input, and its floor is on the maker's side. `input` is what is charged for an
exact output, and **its floor is on the trader's side**: the two quotes are not
inverse to each other, and only the first one keeps the product.

A maker may start with *virtual* reserves that it prices with but does not own. The
last section is about them: whether a quote can be paid out of the real part is
exactly a lower bound on the product.
-/
import Mathlib.Algebra.Order.Ring.Nat
import Mathlib.Tactic.Ring
import Mathlib.Tactic.Linarith

set_option autoImplicit false

namespace ConstantProduct

variable {x y X Y : ℕ}

/-- What the curve pays out of `Y` for `x` added to `X`. -/
def output (x X Y : ℕ) : ℕ := Y * x / (X + x)

/-- What the curve charges into `X` for `y` taken out of `Y`. -/
def input (y X Y : ℕ) : ℕ := y * X / (Y - y)

/-! ## Quoting an output -/

/-- The output is at most `r` exactly when the un-divided inequality says so. -/
theorem output_le_iff {r : ℕ} (h : 0 < X + x) :
    output x X Y ≤ r ↔ Y * x < (r + 1) * (X + x) := by
  unfold output
  rw [← Nat.lt_succ_iff, Nat.div_lt_iff_lt_mul h]

/-- The output never exceeds the reserve it is paid from. -/
theorem output_le (x X Y : ℕ) : output x X Y ≤ Y := by
  unfold output
  apply Nat.div_le_of_le_mul
  rw [Nat.add_mul]
  exact (Nat.mul_comm Y x).le.trans (Nat.le_add_left _ _)

/-- A larger input never gets a smaller output. -/
theorem output_mono {x' : ℕ} (h : x ≤ x') : output x X Y ≤ output x' X Y := by
  rcases Nat.eq_zero_or_pos (X + x) with h0 | hpos
  · simp [output, h0]
  · -- cross-multiplied, the two quotients compare as `x` and `x'` do
    rw [output_le_iff hpos]
    have hlt : Y * x' < (output x' X Y + 1) * (X + x') :=
      (output_le_iff (by omega)).mp le_rfl
    have hcross : Y * x * (X + x') ≤ Y * x' * (X + x) := by
      have := Nat.mul_le_mul_left (Y * X) h
      nlinarith
    refine Nat.lt_of_mul_lt_mul_right (a := X + x') ?_
    calc Y * x * (X + x') ≤ Y * x' * (X + x) := hcross
      _ < (output x' X Y + 1) * (X + x') * (X + x) :=
          Nat.mul_lt_mul_of_pos_right hlt hpos
      _ = (output x' X Y + 1) * (X + x) * (X + x') := by ring

/-- More on the side of the input and less on the other never get a larger output. -/
theorem output_anti {X' Y' : ℕ} (hX : X ≤ X') (hY : Y' ≤ Y) : output x X' Y' ≤ output x X Y := by
  rcases Nat.eq_zero_or_pos (X + x) with h0 | hpos
  · obtain rfl : x = 0 := by omega
    simp [output]
  · exact Nat.div_le_div (Nat.mul_le_mul_right x hY) (by omega) (by omega)

/-- `y` is paid out for `x` exactly when the unrounded price of `y` is within `x`. -/
theorem le_output_iff (hpos : 0 < X + x) (hy : y ≤ Y) :
    y ≤ output x X Y ↔ y * X ≤ x * (Y - y) := by
  obtain ⟨R, rfl⟩ : ∃ R, Y = y + R := ⟨Y - y, by omega⟩
  have hR : y + R - y = R := by omega
  rw [output, hR, Nat.le_div_iff_mul_le hpos]
  constructor
  · intro h
    nlinarith
  · intro h
    nlinarith

/-- **Paying an output never lowers the product.** The floor leaves the remainder of
the division with the maker. -/
theorem product_le_of_output (x X Y : ℕ) :
    X * Y ≤ (X + x) * (Y - output x X Y) := by
  have hfloor : output x X Y * (X + x) ≤ Y * x := Nat.div_mul_le_self _ _
  obtain ⟨R, hR⟩ : ∃ R, Y = output x X Y + R := ⟨Y - output x X Y, by
    have := output_le x X Y
    omega⟩
  have hR' : Y - output x X Y = R := by omega
  rw [hR']
  have hY : Y * (X + x) = output x X Y * (X + x) + R * (X + x) := by
    rw [← Nat.add_mul, ← hR]
  nlinarith

/-- The floor is worth less than one unit of the asset paid out, at the new price. -/
theorem product_lt_of_output (h : 0 < X + x) :
    (X + x) * (Y - output x X Y) < X * Y + (X + x) := by
  have hfloor : Y * x < (output x X Y + 1) * (X + x) := (output_le_iff h).mp le_rfl
  have hle := output_le x X Y
  generalize output x X Y = o at *
  obtain ⟨R, rfl⟩ : ∃ R, Y = o + R := ⟨Y - o, by omega⟩
  have hR : o + R - o = R := by omega
  rw [hR]
  nlinarith

/-! ## Trading in parts

A trade can be split, each part being quoted on the reserves the parts before it left. -/

/-- What the curve pays out for the inputs `xs`, one after the other. -/
def outputs (X Y : ℕ) : List ℕ → List ℕ
  | [] => []
  | x :: xs => output x X Y :: outputs (X + x) (Y - output x X Y) xs

/-- Two parts get no more than the whole: what the first floor leaves in the reserve only
counts in part for the second. -/
theorem output_add_le (x x' X Y : ℕ) :
    output x X Y + output x' (X + x) (Y - output x X Y) ≤ output (x + x') X Y := by
  rcases Nat.eq_zero_or_pos (X + (x + x')) with h0 | hpos
  · obtain ⟨rfl, rfl, rfl⟩ : X = 0 ∧ x = 0 ∧ x' = 0 := by omega
    simp [output]
  · have hfirst : output x X Y * (X + x) ≤ Y * x := Nat.div_mul_le_self _ _
    have hsecond : output x' (X + x) (Y - output x X Y) * (X + x + x') ≤
        (Y - output x X Y) * x' := Nat.div_mul_le_self _ _
    obtain ⟨R, hR⟩ : ∃ R, Y = output x X Y + R := ⟨Y - output x X Y, by
      have := output_le x X Y
      omega⟩
    have hR' : Y - output x X Y = R := by omega
    rw [hR'] at hsecond ⊢
    have hY : Y * x' = output x X Y * x' + R * x' := by
      rw [← Nat.add_mul, ← hR]
    generalize output x X Y = o at *
    generalize output x' (X + x) R = r at *
    rw [output, Nat.le_div_iff_mul_le hpos]
    calc (o + r) * (X + (x + x')) = o * (X + x) + o * x' + r * (X + x + x') := by ring
      _ ≤ Y * x + o * x' + R * x' := Nat.add_le_add (Nat.add_le_add_right hfirst _) hsecond
      _ = Y * (x + x') := by rw [Nat.mul_add, hY, Nat.add_assoc]

/-- **Splitting never beats the whole.** -/
theorem sum_outputs_le (X Y : ℕ) (xs : List ℕ) : (outputs X Y xs).sum ≤ output xs.sum X Y := by
  induction xs generalizing X Y with
  | nil => exact Nat.zero_le _
  | cons x xs ih =>
    simp only [outputs, List.sum_cons]
    exact (Nat.add_le_add_left (ih _ _) _).trans (output_add_le x xs.sum X Y)

/-! ## Quoting an input -/

/-- A larger demand never costs less. -/
theorem input_mono {y' : ℕ} (h : y ≤ y') (hy' : y' < Y) : input y X Y ≤ input y' X Y :=
  Nat.div_le_div (Nat.mul_le_mul_right X h) (by omega) (by omega)

/-- Nor do they ever make a demand cheaper. -/
theorem input_le_input {X' Y' : ℕ} (hX : X ≤ X') (hY : Y' ≤ Y) (hy : y < Y') :
    input y X Y ≤ input y X' Y' :=
  Nat.div_le_div (Nat.mul_le_mul_left y hX) (by omega) (by omega)

/-- The charge is below `M` exactly when the demand is below what `M` would buy. -/
theorem input_lt_iff {M : ℕ} (hy : y < Y) : input y X Y < M ↔ y * (X + M) < M * Y := by
  obtain ⟨R, rfl⟩ : ∃ R, Y = y + R := ⟨Y - y, by omega⟩
  have hR : y + R - y = R := by omega
  rw [input, hR, Nat.div_lt_iff_lt_mul (by omega)]
  constructor
  · intro h
    nlinarith
  · intro h
    nlinarith

/-- What is charged for `y`, or less, buys at most `y`. -/
theorem output_le_of_le_input {n : ℕ} (hy : y < Y) (h : n ≤ input y X Y) :
    output n X Y ≤ y := by
  obtain ⟨R, rfl⟩ : ∃ R, Y = y + R := ⟨Y - y, by omega⟩
  have hR : y + R - y = R := by omega
  rw [input, hR, Nat.le_div_iff_mul_le (by omega)] at h
  apply Nat.div_le_of_le_mul
  nlinarith

/-- **Charging an input is fair exactly when the division is.** Any charge `i` up to
the quoted one keeps the product if and only if `i` is the exact quotient. -/
theorem product_le_of_input_iff {i : ℕ} (hi : i ≤ input y X Y) (hy : y < Y) :
    X * Y ≤ (X + i) * (Y - y) ↔ y * X = i * (Y - y) := by
  obtain ⟨R, rfl⟩ : ∃ R, Y = y + R := ⟨Y - y, by omega⟩
  have hR : y + R - y = R := by omega
  have hfloor : i * R ≤ y * X := by
    have hle := Nat.mul_le_mul_right (y + R - y) hi
    have hdiv : input y X (y + R) * (y + R - y) ≤ y * X := Nat.div_mul_le_self _ _
    rw [hR] at hle hdiv
    exact hle.trans hdiv
  rw [hR]
  constructor
  · intro h
    have : y * X ≤ i * R := by nlinarith
    omega
  · intro h
    nlinarith

/-- Charging an input never raises the product. -/
theorem product_le_of_le_input {i : ℕ} (hi : i ≤ input y X Y) (hy : y < Y) :
    (X + i) * (Y - y) ≤ X * Y := by
  obtain ⟨R, rfl⟩ : ∃ R, Y = y + R := ⟨Y - y, by omega⟩
  have hR : y + R - y = R := by omega
  rw [input, hR, Nat.le_div_iff_mul_le (by omega)] at hi
  rw [hR]
  nlinarith

/-- The floor of the quoted input loses less than one unit of the asset paid in, at the new
price. -/
theorem product_lt_of_input (hy : y < Y) :
    X * Y < (X + input y X Y) * (Y - y) + (Y - y) := by
  obtain ⟨R, rfl⟩ : ∃ R, Y = y + R := ⟨Y - y, by omega⟩
  have hR : y + R - y = R := by omega
  have hfloor : y * X < (input y X (y + R) + 1) * R := by
    rw [input, hR]
    exact Nat.lt_mul_of_div_lt (Nat.lt_succ_self _) (by omega)
  rw [hR]
  nlinarith

/-- With a charge reduced modulo `M`, the product is kept exactly when the quotient is
exact and below `M`. -/
theorem product_le_of_input_mod_iff {M : ℕ} (hM : 0 < M) (hy : y < Y) :
    X * Y ≤ (X + input y X Y % M) * (Y - y) ↔ (Y - y) ∣ y * X ∧ input y X Y < M := by
  have hpos : 0 < Y - y := by omega
  rw [product_le_of_input_iff (Nat.mod_le _ _) hy]
  constructor
  · intro h
    have hexact : y * X / (Y - y) = input y X Y % M :=
      Nat.div_eq_of_eq_mul_left hpos h
    refine ⟨⟨input y X Y % M, by rw [h, Nat.mul_comm]⟩, ?_⟩
    calc input y X Y = input y X Y % M := hexact
      _ < M := Nat.mod_lt _ hM
  · rintro ⟨hdvd, hlt⟩
    rw [Nat.mod_eq_of_lt hlt]
    exact (Nat.div_mul_cancel hdvd).symm

/-! ## Round trips

What was paid out is sold back on the reserves it left. The sums of the two reserves are then
those at the start. -/

/-- What an output is worth when it is sold back. -/
def refund (x y X Y : ℕ) : ℕ := output y (Y - y) (X + x)

theorem refund_eq (hy : y ≤ Y) : refund x y X Y = (X + x) * y / Y := by
  rw [refund, output, Nat.sub_add_cancel hy]

/-- Selling an output back never gets more than was put in. -/
theorem refund_output_le (x X Y : ℕ) : refund x (output x X Y) X Y ≤ x := by
  rw [refund_eq (output_le x X Y)]
  apply Nat.div_le_of_le_mul
  rw [Nat.mul_comm (X + x)]
  exact Nat.div_mul_le_self _ _

/-- It gets all but one unit, and the price of one unit of what was paid out. -/
theorem le_refund_output (hY : 0 < Y) (h : 0 < X + x) :
    x ≤ refund x (output x X Y) X Y + (X + x) / Y + 1 := by
  have hfloor : Y * x < (output x X Y + 1) * (X + x) := (output_le_iff h).mp le_rfl
  rw [refund_eq (output_le x X Y)]
  have hback : (X + x) * output x X Y < ((X + x) * output x X Y / Y + 1) * Y :=
    Nat.lt_mul_of_div_lt (Nat.lt_succ_self _) hY
  have hprice : X + x < ((X + x) / Y + 1) * Y := Nat.lt_mul_of_div_lt (Nat.lt_succ_self _) hY
  generalize (X + x) * output x X Y / Y = r at *
  generalize (X + x) / Y = q at *
  generalize output x X Y = o at *
  have hlt : Y * x < (r + q + 2) * Y := by nlinarith
  rw [Nat.mul_comm] at hlt
  have := Nat.lt_of_mul_lt_mul_right hlt
  omega

/-- What was charged for a demand is exactly what the demand sells back for. -/
theorem refund_input (hy : y < Y) : refund (input y X Y) y X Y = input y X Y := by
  obtain ⟨R, rfl⟩ : ∃ R, Y = y + R := ⟨Y - y, by omega⟩
  have hR : y + R - y = R := by omega
  have hle : input y X (y + R) * R ≤ y * X := by
    rw [input, hR]
    exact Nat.div_mul_le_self _ _
  have hlt : y * X < (input y X (y + R) + 1) * R := by
    rw [input, hR]
    exact Nat.lt_mul_of_div_lt (Nat.lt_succ_self _) (by omega)
  rw [refund_eq hy.le]
  generalize input y X (y + R) = i at *
  apply Nat.div_eq_of_lt_le
  · nlinarith
  · nlinarith

/-! ## Virtual reserves

`Y` is split as `V + r`, of which only the real part `r` can be paid out. -/

/-- **The payable quotes.** The real part covers the output exactly when the product
is above the level at which the virtual part alone would be left. -/
theorem output_le_real_iff {V r : ℕ} (h : 0 < X + x) :
    output x X (V + r) ≤ r ↔ V * (X + x) < (X + x) + X * (V + r) := by
  rw [output_le_iff h]
  constructor
  · intro hlt
    nlinarith
  · intro hlt
    nlinarith

/-- On a product that does not fall, one side falls only if the other rises. -/
theorem le_of_product_le {X' Y' : ℕ} (hX : 0 < X) (hK : X * Y ≤ X' * Y') (h : X' ≤ X) :
    Y ≤ Y' := by
  refine Nat.le_of_mul_le_mul_left ?_ hX
  exact hK.trans (Nat.mul_le_mul_right Y' h)

end ConstantProduct
