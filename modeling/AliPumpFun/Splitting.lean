/-
Trades made in parts.

`split_outputs` feeds a list of inputs to `calculate_output_amount`, each on the reserves
the ones before it left, with the checked updates of the handlers. It is the list of
quotes of `ConstantProduct.outputs`, no update in it fails, and all of it together pays out
no more than one call would.
-/
import AliPumpFun.Trade

set_option autoImplicit false

open Words Fallible

namespace AliPumpFun

/-- The outputs of `calculate_output_amount` for `inputs`, one after the other. -/
def split_outputs (input_reserve output_reserve : U64) : List U64 → Result (List U64)
  | [] => return []
  | input_amount :: inputs => do
    let output_amount ← calculate_output_amount input_amount input_reserve output_reserve
    let input_reserve ← unwrap (checked_add input_reserve input_amount)
    let output_reserve ← unwrap (checked_sub output_reserve output_amount)
    let outputs ← split_outputs input_reserve output_reserve inputs
    return output_amount :: outputs

/-- The sum of a list of words, over the natural numbers. -/
def amount (ns : List U64) : ℕ := (ns.map BitVec.toNat).sum

@[simp] theorem amount_cons (n : U64) (ns : List U64) : amount (n :: ns) = n.toNat + amount ns :=
  rfl

/-- As long as the inputs fit 64 bits together with the reserve they are added to, no part
fails, and the outputs are those of the curve. -/
theorem exists_split_outputs {X Y : U64} {inputs : List U64} (hX : 0 < X.toNat)
    (hsum : X.toNat + amount inputs < 2 ^ 64) :
    ∃ outputs, split_outputs X Y inputs = .ok outputs ∧
      outputs.map BitVec.toNat =
        ConstantProduct.outputs X.toNat Y.toNat (inputs.map BitVec.toNat) := by
  induction inputs generalizing X Y with
  | nil => exact ⟨[], rfl, rfl⟩
  | cons x xs ih =>
    rw [amount_cons] at hsum
    -- one part, and the reserves it leaves
    have hle := ConstantProduct.output_le x.toNat X.toNat Y.toNat
    obtain ⟨o, ho⟩ : ∃ o : U64, o.toNat = ConstantProduct.output x.toNat X.toNat Y.toNat :=
      exists_toNat_eq.mpr (hle.trans_lt Y.isLt)
    obtain ⟨X', hX'⟩ : ∃ X' : U64, X'.toNat = X.toNat + x.toNat :=
      exists_toNat_eq.mpr (by omega)
    obtain ⟨Y', hY'⟩ : ∃ Y' : U64, Y'.toNat = Y.toNat - o.toNat :=
      exists_toNat_eq.mpr ((Nat.sub_le _ _).trans_lt Y.isLt)
    obtain ⟨os, hos, hval⟩ := ih (X := X') (Y := Y') (by omega) (by omega)
    refine ⟨o :: os, ?_, ?_⟩
    · simp only [split_outputs, bind_eq_ok, unwrap_eq_ok, checked_add_eq_some,
        checked_sub_eq_some, pure_eq_ok, calculate_output_amount_eq_ok]
      exact ⟨o, ⟨by omega, ho⟩, X', hX', Y', by omega, os, hos, rfl⟩
    · rw [List.map_cons, List.map_cons, ConstantProduct.outputs, hval, hX', hY', ho]

/-! ## The handlers move the reserves like this -/

section Trades

variable {ms : MainState} {p : PoolState} {X Y X' Y' : U64} {inputs : List U64}

/-- One part, followed by the rest. -/
theorem split_outputs_cons {x o : U64} (ho : calculate_output_amount x X Y = .ok o)
    (hX' : X'.toNat = X.toNat + x.toNat) (hY' : Y'.toNat + o.toNat = Y.toNat) :
    split_outputs X Y (x :: inputs) = (split_outputs X' Y' inputs).map (o :: ·) := by
  rw [split_outputs, ho]
  change (unwrap (checked_add X x) >>= _) = _
  rw [unwrap_eq_ok.mpr (checked_add_eq_some.mpr hX')]
  change (unwrap (checked_sub Y o) >>= _) = _
  rw [unwrap_eq_ok.mpr (checked_sub_eq_some.mpr hY')]
  change (split_outputs X' Y' inputs >>= _) = _
  cases split_outputs X' Y' inputs <;> rfl

/-- An exact-quote buy is a part on the total reserves of its pool. -/
theorem ExactQuote.split_outputs_cons {q m : U64} {c : Purchase} (h : ExactQuote ms p q m c)
    (hX : X.toNat = p.quote) (hY : Y.toNat = p.base) (hX' : X'.toNat = c.pool_state.quote)
    (hY' : Y'.toNat = c.pool_state.base) :
    split_outputs X Y (c.input_quote_amount :: inputs) =
      (split_outputs X' Y' inputs).map (c.base_amount :: ·) := by
  refine AliPumpFun.split_outputs_cons (calculate_output_amount_eq_ok.mpr ⟨?_, ?_⟩) ?_ ?_
  · rw [hX]
    exact h.priced
  · rw [hX, hY]
    exact h.base
  · rw [hX', hX, h.moves.quote_eq]
  · rw [hY', hY, h.moves.base_eq]

/-- A sell is a part on the total reserves of its pool, the other way round. -/
theorem Sell.split_outputs_cons {s m : U64} {c : Sale} (h : Sell ms p s m c)
    (hX : X.toNat = p.base) (hY : Y.toNat = p.quote) (hX' : X'.toNat = c.pool_state.base)
    (hY' : Y'.toNat = c.pool_state.quote) :
    split_outputs X Y (s :: inputs) =
      (split_outputs X' Y' inputs).map (c.gross_amount :: ·) := by
  have hpos := h.amount_pos
  refine AliPumpFun.split_outputs_cons (calculate_output_amount_eq_ok.mpr ⟨by omega, ?_⟩) ?_ ?_
  · rw [hX, hY]
    exact h.gross
  · rw [hX', hX, h.moves.base_eq]
  · rw [hY', hY, h.moves.quote_eq]

end Trades

/-- **Splitting a trade never beats the single trade.** For every positive input reserve and
all inputs that fit 64 bits together with it, no part fails, and the parts together pay out
at most what `calculate_output_amount` pays for the sum. -/
theorem splitting_never_beats {X Y : U64} {inputs : List U64} (hX : 0 < X.toNat)
    (hsum : X.toNat + amount inputs < 2 ^ 64) :
    ∃ outputs total single, split_outputs X Y inputs = .ok outputs ∧
      total.toNat = amount inputs ∧ calculate_output_amount total X Y = .ok single ∧
      amount outputs ≤ single.toNat := by
  obtain ⟨outputs, hok, hval⟩ := exists_split_outputs (Y := Y) hX hsum
  obtain ⟨total, htotal⟩ : ∃ total : U64, total.toNat = amount inputs :=
    exists_toNat_eq.mpr (by omega)
  obtain ⟨single, hsingle⟩ : ∃ single : U64, single.toNat =
      ConstantProduct.output total.toNat X.toNat Y.toNat :=
    exists_toNat_eq.mpr ((ConstantProduct.output_le _ _ _).trans_lt Y.isLt)
  refine ⟨outputs, total, single, hok, htotal,
    calculate_output_amount_eq_ok.mpr ⟨by omega, hsingle⟩, ?_⟩
  rw [amount, hval, hsingle, htotal]
  exact ConstantProduct.sum_outputs_le _ _ _

/-- Three parts of 10, 20 and 30 on reserves of 100 and 1000. -/
theorem splitting_never_beats_sample : ∃ (outputs : List U64) (total single : U64),
    split_outputs 100 1000 [10, 20, 30] = .ok outputs ∧ total.toNat = 60 ∧
      calculate_output_amount total 100 1000 = .ok single ∧ amount outputs ≤ single.toNat := by
  have h : (100 : U64).toNat + amount [10, 20, 30] < 2 ^ 64 := by decide
  exact splitting_never_beats (by decide) h

end AliPumpFun
