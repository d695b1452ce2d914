/-
`utils.rs` and the pricing half of `pool/state.rs`.

Each function is translated with its checked 128-bit intermediates and its final
unchecked cast, and comes with one equivalence that says when it returns and what, in
terms of `ConstantProduct` and `GrossUp`. Two of the four casts can lose bits: the one
of `calculate_input_amount`, whose quotient is not bounded by any reserve, and the one
of `calculate_total_amount`, which grosses a 64-bit amount up. The other two return at
most one of their arguments.
-/
import AliPumpFun.State
import AliPumpFun.ConstantProduct
import AliPumpFun.GrossUp

set_option autoImplicit false

open Words Fallible

namespace AliPumpFun

/-! ## Fees -/

/-- `check_balance`. -/
def check_balance (ata : TokenAccount Pubkey) (require_amount : U64) : Bool :=
  if ata.amount < require_amount then false else true

/-- `calculate_trading_fee`. -/
def calculate_trading_fee (fee amount : U64) : Result U64 := do
  let product ← unwrap (checked_mul (amount.setWidth 128) (fee.setWidth 128))
  let quotient ← unwrap (checked_div product FEE_PER_DIV)
  let trading_fee ← unwrap (checked_div quotient 100)
  return trading_fee.setWidth 64

/-- `calculate_total_amount`. -/
def calculate_total_amount (fee input_amount : U64) : Result U64 := do
  let unit ← unwrap (checked_mul FEE_PER_DIV 100)
  let product ← unwrap (checked_mul (input_amount.setWidth 128) unit)
  let divisor ← unwrap (checked_sub unit (fee.setWidth 128))
  let total_amount ← unwrap (checked_div product divisor)
  return total_amount.setWidth 64

/-- Fees are counted in parts of this: `FEE_PER_DIV * 100`. -/
def FEE_UNIT : ℕ := 100000

@[simp] theorem check_balance_eq_true {ata : TokenAccount Pubkey} {n : U64} :
    check_balance ata n = true ↔ n.toNat ≤ ata.amount.toNat := by
  unfold check_balance
  split
  · rename_i h
    simpa [BitVec.lt_def] using h
  · rename_i h
    simpa [BitVec.lt_def] using h

theorem MAX_TRADING_FEE_toNat : MAX_TRADING_FEE.toNat = 5000 := by decide

/-- The trading fee never panics, and at a rate of at most 100% it is the exact floor. -/
theorem calculate_trading_fee_eq_ok {fee amount r : U64} (hfee : fee.toNat ≤ FEE_UNIT) :
    calculate_trading_fee fee amount = .ok r ↔
      r.toNat = GrossUp.fee fee.toNat FEE_UNIT amount.toNat := by
  have hlt : GrossUp.fee fee.toNat FEE_UNIT amount.toNat < 2 ^ 64 :=
    (GrossUp.fee_le hfee _).trans_lt amount.isLt
  have hdiv : amount.toNat * fee.toNat / 1000 / 100
      = GrossUp.fee fee.toNat FEE_UNIT amount.toNat := by
    rw [Nat.div_div_eq_div_mul]
    rfl
  -- the product of two 64-bit words fits 128 bits
  obtain ⟨p, hp⟩ : ∃ p : U128, p.toNat = amount.toNat * fee.toNat :=
    exists_toNat_eq.mpr (mul_lt_two_pow_128 _ _)
  constructor
  · intro h
    simp only [calculate_trading_fee, bind_eq_ok, unwrap_eq_ok, checked_mul_eq_some,
      checked_div_eq_some, toNat_widen, pure_eq_ok] at h
    obtain ⟨p', hp', q, ⟨-, hq⟩, s, ⟨-, hs⟩, rfl⟩ := h
    have hs' : s.toNat = GrossUp.fee fee.toNat FEE_UNIT amount.toNat := by
      rw [hs, hq, hp']
      exact hdiv
    rw [toNat_narrow, hs', Nat.mod_eq_of_lt hlt]
  · intro h
    simp only [calculate_trading_fee, bind_eq_ok, unwrap_eq_ok, checked_mul_eq_some,
      checked_div_eq_some, toNat_widen, pure_eq_ok]
    refine ⟨p, hp, p / FEE_PER_DIV, ⟨by decide, BitVec.toNat_udiv⟩, p / FEE_PER_DIV / 100,
      ⟨by decide, BitVec.toNat_udiv⟩, ?_⟩
    apply BitVec.eq_of_toNat_eq
    rw [toNat_narrow, BitVec.toNat_udiv, BitVec.toNat_udiv, hp, h, ← hdiv]
    exact Nat.mod_eq_of_lt (hdiv ▸ hlt)

/-- The total never panics at a rate below 100%. It is the gross-up reduced modulo
`2 ^ 64`. -/
theorem calculate_total_amount_eq_ok {fee n r : U64} (hfee : fee.toNat < FEE_UNIT) :
    calculate_total_amount fee n = .ok r ↔
      r.toNat = GrossUp.gross fee.toNat FEE_UNIT n.toNat % 2 ^ 64 := by
  have hprod : n.toNat * FEE_UNIT < 2 ^ 128 := by
    have := n.isLt
    unfold FEE_UNIT
    omega
  have hunit : (100000 : U128).toNat = FEE_UNIT := by decide
  constructor
  · intro h
    simp only [calculate_total_amount, bind_eq_ok, unwrap_eq_ok, checked_mul_eq_some,
      checked_sub_eq_some, checked_div_eq_some, toNat_widen, pure_eq_ok] at h
    obtain ⟨u, hu, p, hp, d, hd, q, ⟨-, hq⟩, rfl⟩ := h
    have hu' : u.toNat = FEE_UNIT := hu
    have hd' : d.toNat = FEE_UNIT - fee.toNat := by omega
    rw [toNat_narrow, hq, hp, hu', hd']
    rfl
  · intro h
    obtain ⟨p, hp⟩ : ∃ p : U128, p.toNat = n.toNat * FEE_UNIT := exists_toNat_eq.mpr hprod
    obtain ⟨d, hd⟩ : ∃ d : U128, d.toNat = FEE_UNIT - fee.toNat :=
      exists_toNat_eq.mpr (by unfold FEE_UNIT; omega)
    simp only [calculate_total_amount, bind_eq_ok, unwrap_eq_ok, checked_mul_eq_some,
      checked_sub_eq_some, checked_div_eq_some, toNat_widen, pure_eq_ok]
    refine ⟨100000, by decide, p, by rw [hp, hunit], d, by rw [hunit]; omega, p / d,
      ⟨by omega, BitVec.toNat_udiv⟩, ?_⟩
    apply BitVec.eq_of_toNat_eq
    rw [toNat_narrow, BitVec.toNat_udiv, hp, hd, h]
    rfl

/-! ## The curve -/

/-- `calculate_output_amount`. -/
def calculate_output_amount (input_amount input_reserve output_reserve : U64) : Result U64 := do
  let product ← unwrap (checked_mul (output_reserve.setWidth 128) (input_amount.setWidth 128))
  let divisor ← unwrap (checked_add (input_reserve.setWidth 128) (input_amount.setWidth 128))
  let output_amount ← unwrap (checked_div product divisor)
  return output_amount.setWidth 64

/-- `calculate_input_amount`. -/
def calculate_input_amount (output_amount input_reserve output_reserve : U64) : Result U64 := do
  let product ← unwrap (checked_mul (output_amount.setWidth 128) (input_reserve.setWidth 128))
  let divisor ← unwrap (checked_sub (output_reserve.setWidth 128) (output_amount.setWidth 128))
  let input_amount ← unwrap (checked_div product divisor)
  return input_amount.setWidth 64

/-- The output is exact: it is below the reserve it is taken from. -/
theorem calculate_output_amount_eq_ok {x X Y r : U64} :
    calculate_output_amount x X Y = .ok r ↔
      0 < X.toNat + x.toNat ∧ r.toNat = ConstantProduct.output x.toNat X.toNat Y.toNat := by
  have hlt : ConstantProduct.output x.toNat X.toNat Y.toNat < 2 ^ 64 :=
    (ConstantProduct.output_le _ _ _).trans_lt Y.isLt
  constructor
  · intro h
    simp only [calculate_output_amount, bind_eq_ok, unwrap_eq_ok, checked_mul_eq_some,
      checked_add_eq_some, checked_div_eq_some, toNat_widen, pure_eq_ok] at h
    obtain ⟨p, hp, d, hd, q, ⟨hd0, hq⟩, rfl⟩ := h
    refine ⟨by omega, ?_⟩
    have hq' : q.toNat = ConstantProduct.output x.toNat X.toNat Y.toNat := by
      rw [hq, hp, hd]
      rfl
    rw [toNat_narrow, hq', Nat.mod_eq_of_lt hlt]
  · rintro ⟨hpos, hr⟩
    obtain ⟨p, hp⟩ : ∃ p : U128, p.toNat = Y.toNat * x.toNat :=
      exists_toNat_eq.mpr (mul_lt_two_pow_128 _ _)
    obtain ⟨d, hd⟩ : ∃ d : U128, d.toNat = X.toNat + x.toNat :=
      exists_toNat_eq.mpr (by have := X.isLt; have := x.isLt; omega)
    simp only [calculate_output_amount, bind_eq_ok, unwrap_eq_ok, checked_mul_eq_some,
      checked_add_eq_some, checked_div_eq_some, toNat_widen, pure_eq_ok]
    refine ⟨p, hp, d, hd, p / d, ⟨by omega, BitVec.toNat_udiv⟩, ?_⟩
    apply BitVec.eq_of_toNat_eq
    rw [toNat_narrow, BitVec.toNat_udiv, hp, hd, hr]
    exact Nat.mod_eq_of_lt hlt

/-- The input is the exact floor reduced modulo `2 ^ 64`. -/
theorem calculate_input_amount_eq_ok {y X Y r : U64} :
    calculate_input_amount y X Y = .ok r ↔
      y.toNat < Y.toNat ∧
        r.toNat = ConstantProduct.input y.toNat X.toNat Y.toNat % 2 ^ 64 := by
  constructor
  · intro h
    simp only [calculate_input_amount, bind_eq_ok, unwrap_eq_ok, checked_mul_eq_some,
      checked_sub_eq_some, checked_div_eq_some, toNat_widen, pure_eq_ok] at h
    obtain ⟨p, hp, d, hd, q, ⟨hd0, hq⟩, rfl⟩ := h
    have hd' : d.toNat = Y.toNat - y.toNat := by omega
    refine ⟨by omega, ?_⟩
    rw [toNat_narrow, hq, hp, hd']
    rfl
  · rintro ⟨hlt, hr⟩
    obtain ⟨p, hp⟩ : ∃ p : U128, p.toNat = y.toNat * X.toNat :=
      exists_toNat_eq.mpr (mul_lt_two_pow_128 _ _)
    obtain ⟨d, hd⟩ : ∃ d : U128, d.toNat = Y.toNat - y.toNat :=
      exists_toNat_eq.mpr (by have := Y.isLt; omega)
    simp only [calculate_input_amount, bind_eq_ok, unwrap_eq_ok, checked_mul_eq_some,
      checked_sub_eq_some, checked_div_eq_some, toNat_widen, pure_eq_ok]
    refine ⟨p, hp, d, by omega, p / d, ⟨by omega, BitVec.toNat_udiv⟩, ?_⟩
    apply BitVec.eq_of_toNat_eq
    rw [toNat_narrow, BitVec.toNat_udiv, hp, hd, hr]
    rfl

/-- What the three quotes of `PoolState` share: both totals are added up, with overflow
checks, and handed to the formula. -/
def quote_with_totals (calculate : U64 → U64 → U64 → Result U64)
    (amount virt_in real_in virt_out real_out : U64) : Result U64 := do
  let input_reserve ← unwrap (checked_add virt_in real_in)
  let output_reserve ← unwrap (checked_add virt_out real_out)
  calculate amount input_reserve output_reserve

theorem quote_with_totals_eq_ok {calculate : U64 → U64 → U64 → Result U64}
    {P : ℕ → ℕ → ℕ → ℕ → Prop}
    (h : ∀ n i o r, calculate n i o = .ok r ↔ P n.toNat i.toNat o.toNat r.toNat)
    {n vi ri vo ro r : U64} :
    quote_with_totals calculate n vi ri vo ro = .ok r ↔
      (vi.toNat + ri.toNat < 2 ^ 64 ∧ vo.toNat + ro.toNat < 2 ^ 64) ∧
        P n.toNat (vi.toNat + ri.toNat) (vo.toNat + ro.toNat) r.toNat := by
  simp only [quote_with_totals, bind_eq_ok, unwrap_eq_ok, checked_add_eq_some, h]
  constructor
  · rintro ⟨i, hi, o, ho, hP⟩
    rw [hi, ho] at hP
    exact ⟨⟨by rw [← hi]; exact i.isLt, by rw [← ho]; exact o.isLt⟩, hP⟩
  · rintro ⟨⟨hi, ho⟩, hP⟩
    obtain ⟨i, hi⟩ : ∃ i : U64, i.toNat = vi.toNat + ri.toNat := exists_toNat_eq.mpr hi
    obtain ⟨o, ho⟩ : ∃ o : U64, o.toNat = vo.toNat + ro.toNat := exists_toNat_eq.mpr ho
    exact ⟨i, hi, o, ho, by rw [hi, ho]; exact hP⟩

namespace PoolState

/-- `compute_receivable_amount_on_buy`. -/
def compute_receivable_amount_on_buy (self : PoolState) (quote_amount : U64) : Result U64 :=
  quote_with_totals calculate_output_amount quote_amount
    self.virt_quote_reserves self.real_quote_reserves
    self.virt_base_reserves self.real_base_reserves

/-- `compute_required_amount_on_buy`. -/
def compute_required_amount_on_buy (self : PoolState) (base_amount : U64) : Result U64 :=
  quote_with_totals calculate_input_amount base_amount
    self.virt_quote_reserves self.real_quote_reserves
    self.virt_base_reserves self.real_base_reserves

/-- `compute_receivable_amount_on_sell`. -/
def compute_receivable_amount_on_sell (self : PoolState) (base_amount : U64) : Result U64 :=
  quote_with_totals calculate_output_amount base_amount
    self.virt_base_reserves self.real_base_reserves
    self.virt_quote_reserves self.real_quote_reserves

/-- The totals that the prices are computed from fit 64 bits. -/
structure Fits (p : PoolState) : Prop where
  base : p.base < 2 ^ 64
  quote : p.quote < 2 ^ 64

variable {p : PoolState} {n r : U64}

/-- The sums in the events are the totals. -/
theorem Fits.toNat_base (h : p.Fits) :
    (p.real_base_reserves + p.virt_base_reserves).toNat = p.base := by
  have hb := h.base
  rw [PoolState.base, Nat.add_comm] at hb
  rw [BitVec.toNat_add, Nat.mod_eq_of_lt hb, PoolState.base, Nat.add_comm]

theorem Fits.toNat_quote (h : p.Fits) :
    (p.virt_quote_reserves + p.real_quote_reserves).toNat = p.quote := by
  rw [BitVec.toNat_add]
  exact Nat.mod_eq_of_lt h.quote

theorem compute_receivable_amount_on_buy_eq_ok :
    p.compute_receivable_amount_on_buy n = .ok r ↔
      p.Fits ∧ 0 < p.quote + n.toNat ∧
        r.toNat = ConstantProduct.output n.toNat p.quote p.base := by
  rw [compute_receivable_amount_on_buy,
    quote_with_totals_eq_ok (P := fun x X Y r => 0 < X + x ∧ r = ConstantProduct.output x X Y)
      fun _ _ _ _ => calculate_output_amount_eq_ok]
  exact and_congr_left fun _ => ⟨fun h => ⟨h.2, h.1⟩, fun h => ⟨h.quote, h.base⟩⟩

theorem compute_required_amount_on_buy_eq_ok :
    p.compute_required_amount_on_buy n = .ok r ↔
      p.Fits ∧ n.toNat < p.base ∧
        r.toNat = ConstantProduct.input n.toNat p.quote p.base % 2 ^ 64 := by
  rw [compute_required_amount_on_buy,
    quote_with_totals_eq_ok
      (P := fun y X Y r => y < Y ∧ r = ConstantProduct.input y X Y % 2 ^ 64)
      fun _ _ _ _ => calculate_input_amount_eq_ok]
  exact and_congr_left fun _ => ⟨fun h => ⟨h.2, h.1⟩, fun h => ⟨h.quote, h.base⟩⟩

theorem compute_receivable_amount_on_sell_eq_ok :
    p.compute_receivable_amount_on_sell n = .ok r ↔
      p.Fits ∧ 0 < p.base + n.toNat ∧
        r.toNat = ConstantProduct.output n.toNat p.base p.quote := by
  rw [compute_receivable_amount_on_sell,
    quote_with_totals_eq_ok (P := fun x X Y r => 0 < X + x ∧ r = ConstantProduct.output x X Y)
      fun _ _ _ _ => calculate_output_amount_eq_ok]
  exact and_congr_left fun _ => ⟨fun h => ⟨h.1, h.2⟩, fun h => ⟨h.base, h.quote⟩⟩

end PoolState

end AliPumpFun
