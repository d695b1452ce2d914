/-
The books of a pool, kept from its event log.

An observer who adds up the amounts in the events about a base mint knows both real reserves
of its pool: the base reserve to the unit, and the quote reserve up to the fees, which are
what the traders paid in and neither the pool nor the other traders got. The sums go over
the whole log, the withdrawal included, and hold whatever the casts in the prices do.
-/
import AliPumpFun.Refinement

set_option autoImplicit false

open Words Fallible BondingCurve

namespace AliPumpFun

variable {spl : TokenProgram Pubkey} {l : Ledger}

/-! ## Amounts in events -/

namespace Event

/-- The base tokens an event reports to have gone into the pool. -/
def base_in : Event → ℕ
  | .trade e => if e.is_buy = true then 0 else e.base_amount.toNat
  | _ => 0

/-- The base tokens an event reports to have left the pool. -/
def base_out : Event → ℕ
  | .trade e => if e.is_buy = true then e.base_amount.toNat else 0
  | .withdraw e => e.base_amount.toNat
  | _ => 0

/-- The quote tokens an event reports a buyer to have paid, fee included. -/
def quote_in : Event → ℕ
  | .trade e => if e.is_buy = true then e.quote_amount.toNat else 0
  | _ => 0

/-- The quote tokens an event reports a seller or the withdrawer to have got. -/
def quote_out : Event → ℕ
  | .trade e => if e.is_buy = true then 0 else e.quote_amount.toNat
  | .withdraw e => e.quote_amount.toNat
  | _ => 0

end Event

/-- The sum of an amount over the events of a log. -/
def total (amount : Event → ℕ) (es : List Event) : ℕ := (es.map amount).sum

/-- What an event is to the move it reports: between the two there is the fee, of a buy or of
a sell. -/
structure Entry (e : Event) (m : Move) (buy_fee sell_fee : ℕ) : Prop where
  base_in : e.base_in = m.base_in
  base_out : e.base_out = m.base_out
  quote_in : e.quote_in = m.quote_in + buy_fee
  quote_out : e.quote_out + sell_fee = m.quote_out
  buy_fee_le : 20 * buy_fee ≤ e.quote_in
  sell_fee_le : 19 * sell_fee ≤ e.quote_out

end AliPumpFun
