/-
The calls that price a trade.

The trading handlers are written a second time, with a window on the pricing helpers they
call and on the subtractions they make themselves: each of these is a `Call`, and the
observed handler has the result of the handler of `Trade` and `PoolIxs` and a list of its
calls besides. No helper validates its arguments, so whether it panics is a matter of what
holds where it is called, which is what the list is for. That the list misses nothing is said
by `QuoteCalls`, `TokensCalls` and `SellCalls`, the calls of the three formulas in order.
-/
import AliPumpFun.Observed
import AliPumpFun.Invariant

set_option autoImplicit false

open Words Fallible

namespace AliPumpFun

variable {spl : TokenProgram Pubkey} {l l' : Ledger}

/-- A call of a pricing helper, or a subtraction of a handler. -/
inductive Call where
  | compute_receivable_amount_on_buy (pool_state : PoolState) (quote_amount : U64)
  | compute_required_amount_on_buy (pool_state : PoolState) (base_amount : U64)
  | compute_receivable_amount_on_sell (pool_state : PoolState) (base_amount : U64)
  | calculate_trading_fee (fee amount : U64)
  | calculate_total_amount (fee input_amount : U64)
  | sub (x y : U64)

namespace Call

/-- What the code computes. -/
def run : Call → Result U64
  | .compute_receivable_amount_on_buy p n => p.compute_receivable_amount_on_buy n
  | .compute_required_amount_on_buy p n => p.compute_required_amount_on_buy n
  | .compute_receivable_amount_on_sell p n => p.compute_receivable_amount_on_sell n
  | .calculate_trading_fee fee n => AliPumpFun.calculate_trading_fee fee n
  | .calculate_total_amount fee n => AliPumpFun.calculate_total_amount fee n
  | .sub x y => unwrap (checked_sub x y)

/-- A computation of a handler that consists of one call. -/
def watched (k : Call) : Observed Call Error U64 := .call run k

/-- The quotient of the documented formula, or the difference, over the natural numbers. -/
def quotient : Call → ℕ
  | .compute_receivable_amount_on_buy p n => ConstantProduct.output n.toNat p.quote p.base
  | .compute_required_amount_on_buy p n => ConstantProduct.input n.toNat p.quote p.base
  | .compute_receivable_amount_on_sell p n => ConstantProduct.output n.toNat p.base p.quote
  | .calculate_trading_fee fee n => GrossUp.fee fee.toNat FEE_UNIT n.toNat
  | .calculate_total_amount fee n => GrossUp.gross fee.toNat FEE_UNIT n.toNat
  | .sub x y => x.toNat - y.toNat

/-- The call does not panic. -/
def Returns (k : Call) : Prop := ∃ r, k.run = .ok r

/-- The call returns the quotient itself, which was below `2 ^ 64` before the cast. -/
def Exact (k : Call) : Prop := k.quotient < 2 ^ 64 ∧ ∃ r, k.run = .ok r ∧ r.toNat = k.quotient

end Call

/-! ## The handlers, observed -/

def restrict_quote_amount_observed (trading_fee : U64) (pool_state : PoolState)
    (quote_amount : U64) : Observed Call Error (U64 × U64) := do
  let fee ← (Call.calculate_trading_fee trading_fee quote_amount).watched
  let net ← (Call.sub quote_amount fee).watched
  let new_reserves ← .lift (unwrap (checked_add pool_state.real_quote_reserves net))
  if pool_state.real_quote_threshold < new_reserves then do
    let remaining ←
      (Call.sub pool_state.real_quote_threshold pool_state.real_quote_reserves).watched
    let quote_amount ← (Call.calculate_total_amount trading_fee remaining).watched
    let fee ← (Call.calculate_trading_fee trading_fee quote_amount).watched
    return (quote_amount, fee)
  else
    return (quote_amount, fee)

def price_exact_quote_observed (main_state : MainState) (pool_state : PoolState)
    (quote_amount min_base_amount : U64) : Observed Call Error Purchase := do
  .lift (require (0 < quote_amount) .WrongQuoteAmount)
  .lift (require (pool_state.complete = false) .BondingCurveComplete)
  let (quote_amount, fee) ←
    restrict_quote_amount_observed main_state.trading_fee pool_state quote_amount
  let input_quote_amount ← (Call.sub quote_amount fee).watched
  let output_base_amount ←
    (Call.compute_receivable_amount_on_buy pool_state input_quote_amount).watched
  .lift (require (min_base_amount ≤ output_base_amount) .TooFewOutputTokens)
  let real_quote_reserves ← .lift <| unwrap
    (checked_add pool_state.real_quote_reserves input_quote_amount)
  let real_base_reserves ← .lift <| unwrap
    (checked_sub pool_state.real_base_reserves output_base_amount)
  return {
    pool_state := { pool_state with real_base_reserves, real_quote_reserves }
    base_amount := output_base_amount
    fee
    input_quote_amount }

def restrict_base_amount_observed (pool_state : PoolState) (base_amount : U64) :
    Observed Call Error (U64 × U64) := do
  let input_quote_amount ← (Call.compute_required_amount_on_buy pool_state base_amount).watched
  let new_reserves ← .lift <| unwrap
    (checked_add pool_state.real_quote_reserves input_quote_amount)
  if pool_state.real_quote_threshold < new_reserves then do
    let input_quote_amount ←
      (Call.sub pool_state.real_quote_threshold pool_state.real_quote_reserves).watched
    let input_base_amount ←
      (Call.compute_receivable_amount_on_buy pool_state input_quote_amount).watched
    return (input_base_amount, input_quote_amount)
  else
    return (base_amount, input_quote_amount)

def price_exact_tokens_observed (main_state : MainState) (pool_state : PoolState)
    (base_amount max_quote_amount : U64) : Observed Call Error Purchase := do
  .lift (require (pool_state.complete = false) .BondingCurveComplete)
  .lift (require (0 < base_amount ∧ base_amount ≤ pool_state.real_base_reserves)
    .WrongBaseAmount)
  let (input_base_amount, input_quote_amount) ←
    restrict_base_amount_observed pool_state base_amount
  let total_quote_amount ←
    (Call.calculate_total_amount main_state.trading_fee input_quote_amount).watched
  let fee ← (Call.calculate_trading_fee main_state.trading_fee total_quote_amount).watched
  .lift (require (total_quote_amount ≤ max_quote_amount) .TooMuchInputQuote)
  let real_base_reserves ← .lift <| unwrap
    (checked_sub pool_state.real_base_reserves input_base_amount)
  let real_quote_reserves ← .lift <| unwrap
    (checked_add pool_state.real_quote_reserves input_quote_amount)
  return {
    pool_state := { pool_state with real_base_reserves, real_quote_reserves }
    base_amount := input_base_amount
    fee
    input_quote_amount }

def price_sell_observed (main_state : MainState) (pool_state : PoolState)
    (base_amount min_quote_amount : U64) : Observed Call Error Sale := do
  .lift (require (0 < base_amount) .WrongBaseAmount)
  .lift (require (pool_state.complete = false) .BondingCurveComplete)
  let gross_amount ← (Call.compute_receivable_amount_on_sell pool_state base_amount).watched
  let fee ← (Call.calculate_trading_fee main_state.trading_fee gross_amount).watched
  let output_amount ← (Call.sub gross_amount fee).watched
  .lift (require (min_quote_amount ≤ output_amount) .TooLowOutputQuote)
  let real_base_reserves ← .lift <| unwrap
    (checked_add pool_state.real_base_reserves base_amount)
  let real_quote_reserves ← .lift <| unwrap
    (checked_sub pool_state.real_quote_reserves gross_amount)
  return {
    pool_state := { pool_state with real_base_reserves, real_quote_reserves }
    gross_amount
    fee
    output_amount }

section Handlers

variable (spl : TokenProgram Pubkey)

def buy_tokens_from_exact_quote_observed (ctx : ABuy) (quote_amount min_base_amount : U64)
    (l : Ledger) : Observed Call Error Ledger := do
  let (main_state, pool_state, tokens) ← .lift (ctx.try_accounts spl l)
  let c ← price_exact_quote_observed main_state pool_state quote_amount min_base_amount
  .lift (buy_finalize spl ctx l tokens c)

def buy_exact_tokens_from_quote_observed (ctx : ABuy) (base_amount max_quote_amount : U64)
    (l : Ledger) : Observed Call Error Ledger := do
  let (main_state, pool_state, tokens) ← .lift (ctx.try_accounts spl l)
  let c ← price_exact_tokens_observed main_state pool_state base_amount max_quote_amount
  .lift (buy_finalize spl ctx l tokens c)

def sell_observed (ctx : ASell) (base_amount min_quote_amount : U64) (l : Ledger) :
    Observed Call Error Ledger := do
  let (main_state, pool_state, tokens) ← .lift (ctx.try_accounts spl base_amount l)
  let c ← price_sell_observed main_state pool_state base_amount min_quote_amount
  let pool_state := c.pool_state
  let tokens ← .lift <| transfer spl tokens ctx.seller_base_ata ctx.reserver_base_ata
    ctx.seller.1 base_amount
  let tokens ← .lift <| transfer spl tokens ctx.reserver_quote_ata ctx.fee_quote_ata
    ctx.pool_state c.fee
  let tokens ← .lift <| transfer spl tokens ctx.reserver_quote_ata ctx.seller_quote_ata
    ctx.pool_state c.output_amount
  let base_reserves ← .lift <| unwrap
    (checked_add pool_state.real_base_reserves pool_state.virt_base_reserves)
  let quote_reserves ← .lift <| unwrap
    (checked_add pool_state.virt_quote_reserves pool_state.real_quote_reserves)
  return { l with tokens, pools := l.pools.insert ctx.pool_state pool_state }.emit (.trade {
    user := ctx.seller.1
    base_mint := pool_state.base_mint
    base_amount
    quote_amount := c.output_amount
    base_reserves
    quote_reserves
    is_buy := false
    timestamp := l.unix_timestamp })

/-- An instruction with the calls it makes. Only the trades make any. -/
def Instruction.observed (l : Ledger) : Instruction → Observed Call Error Ledger
  | .buy_tokens_from_exact_quote ctx q m => buy_tokens_from_exact_quote_observed spl ctx q m l
  | .buy_exact_tokens_from_quote ctx b m => buy_exact_tokens_from_quote_observed spl ctx b m l
  | .sell ctx s m => sell_observed spl ctx s m l
  | i => .lift (i.execute spl l)

end Handlers

/-! ## Nothing but a window -/

theorem restrict_quote_amount_observed_result {tf q : U64} {p : PoolState} :
    (restrict_quote_amount_observed tf p q).result = restrict_quote_amount tf p q := by
  unfold restrict_quote_amount_observed restrict_quote_amount
  simp only [Observed.result_bind, apply_ite Observed.result]
  rfl

theorem price_exact_quote_observed_result {ms : MainState} {p : PoolState} {q m : U64} :
    (price_exact_quote_observed ms p q m).result = price_exact_quote ms p q m := by
  unfold price_exact_quote_observed price_exact_quote
  rw [← restrict_quote_amount_observed_result]
  rfl

theorem restrict_base_amount_observed_result {p : PoolState} {b : U64} :
    (restrict_base_amount_observed p b).result = restrict_base_amount p b := by
  unfold restrict_base_amount_observed restrict_base_amount
  simp only [Observed.result_bind, apply_ite Observed.result]
  rfl

theorem price_exact_tokens_observed_result {ms : MainState} {p : PoolState} {b m : U64} :
    (price_exact_tokens_observed ms p b m).result = price_exact_tokens ms p b m := by
  unfold price_exact_tokens_observed price_exact_tokens
  rw [← restrict_base_amount_observed_result]
  rfl

theorem price_sell_observed_result {ms : MainState} {p : PoolState} {s m : U64} :
    (price_sell_observed ms p s m).result = price_sell ms p s m := rfl

theorem buy_tokens_from_exact_quote_observed_result {ctx : ABuy} {q m : U64} :
    (buy_tokens_from_exact_quote_observed spl ctx q m l).result =
      buy_tokens_from_exact_quote spl ctx q m l := by
  simp only [buy_tokens_from_exact_quote, ← price_exact_quote_observed_result]
  rfl

theorem buy_exact_tokens_from_quote_observed_result {ctx : ABuy} {b m : U64} :
    (buy_exact_tokens_from_quote_observed spl ctx b m l).result =
      buy_exact_tokens_from_quote spl ctx b m l := by
  simp only [buy_exact_tokens_from_quote, ← price_exact_tokens_observed_result]
  rfl

/-- An observed instruction is the instruction. -/
theorem Instruction.observed_result (i : Instruction) :
    (i.observed spl l).result = i.execute spl l := by
  cases i with
  | buy_tokens_from_exact_quote ctx q m => exact buy_tokens_from_exact_quote_observed_result
  | buy_exact_tokens_from_quote ctx b m => exact buy_exact_tokens_from_quote_observed_result
  | _ => rfl

/-! ## What a call needs

No helper checks its arguments. What it needs to return is one matter, what it needs to
return the quotient of its formula another: only the required amount and the total can
return without being exact. -/

namespace Call

variable {k : Call} {p : PoolState} {n x y fee r : U64}

@[simp] theorem callsIn_watched {P : Call → Prop} : Observed.CallsIn P k.watched ↔ P k :=
  Observed.callsIn_call

theorem Exact.returns (h : k.Exact) : k.Returns := by
  obtain ⟨-, r, hr, -⟩ := h
  exact ⟨r, hr⟩

theorem exact_of_run (h : k.run = .ok r) (hr : r.toNat = k.quotient) : k.Exact :=
  ⟨by rw [← hr]; exact r.isLt, r, h, hr⟩

/-- What the cast of a call does to it. -/
theorem exact_iff_of_run (h : k.run = .ok r) (hr : r.toNat = k.quotient % 2 ^ 64) :
    k.Exact ↔ k.quotient < 2 ^ 64 :=
  ⟨And.left, fun hlt => exact_of_run h (by rw [hr, Nat.mod_eq_of_lt hlt])⟩

theorem trading_fee_exact (h : fee.toNat ≤ FEE_UNIT) : (calculate_trading_fee fee n).Exact := by
  obtain ⟨r, hr⟩ : ∃ r : U64, r.toNat = GrossUp.fee fee.toNat FEE_UNIT n.toNat :=
    exists_toNat_eq.mpr ((GrossUp.fee_le h _).trans_lt n.isLt)
  exact exact_of_run ((calculate_trading_fee_eq_ok h).mpr hr) hr

theorem receivable_on_buy_exact (hfits : p.Fits) (h : 0 < p.quote) :
    (compute_receivable_amount_on_buy p n).Exact := by
  obtain ⟨r, hr⟩ : ∃ r : U64, r.toNat = ConstantProduct.output n.toNat p.quote p.base :=
    exists_toNat_eq.mpr ((ConstantProduct.output_le _ _ _).trans_lt hfits.base)
  exact exact_of_run
    (PoolState.compute_receivable_amount_on_buy_eq_ok.mpr ⟨hfits, by omega, hr⟩) hr

theorem receivable_on_sell_exact (hfits : p.Fits) (h : 0 < p.base) :
    (compute_receivable_amount_on_sell p n).Exact := by
  obtain ⟨r, hr⟩ : ∃ r : U64, r.toNat = ConstantProduct.output n.toNat p.base p.quote :=
    exists_toNat_eq.mpr ((ConstantProduct.output_le _ _ _).trans_lt hfits.quote)
  exact exact_of_run
    (PoolState.compute_receivable_amount_on_sell_eq_ok.mpr ⟨hfits, by omega, hr⟩) hr

theorem sub_exact (h : y.toNat ≤ x.toNat) : (sub x y).Exact := by
  obtain ⟨r, hr⟩ : ∃ r : U64, r.toNat = x.toNat - y.toNat :=
    exists_toNat_eq.mpr ((Nat.sub_le _ _).trans_lt x.isLt)
  exact exact_of_run (unwrap_eq_ok.mpr (checked_sub_eq_some.mpr (by omega))) hr

theorem exists_total_amount (h : fee.toNat < FEE_UNIT) (n : U64) :
    ∃ r, (calculate_total_amount fee n).run = .ok r ∧
      r.toNat = GrossUp.gross fee.toNat FEE_UNIT n.toNat % 2 ^ 64 := by
  obtain ⟨r, hr⟩ : ∃ r : U64, r.toNat = GrossUp.gross fee.toNat FEE_UNIT n.toNat % 2 ^ 64 :=
    exists_toNat_eq.mpr (Nat.mod_lt _ (by decide))
  exact ⟨r, (calculate_total_amount_eq_ok h).mpr hr, hr⟩

theorem total_amount_returns (h : fee.toNat < FEE_UNIT) :
    (calculate_total_amount fee n).Returns := by
  obtain ⟨r, hr, -⟩ := exists_total_amount h n
  exact ⟨r, hr⟩

theorem total_amount_exact_iff (h : fee.toNat < FEE_UNIT) :
    (calculate_total_amount fee n).Exact ↔
      GrossUp.gross fee.toNat FEE_UNIT n.toNat < 2 ^ 64 := by
  obtain ⟨r, hr, hval⟩ := exists_total_amount h n
  exact exact_iff_of_run hr hval

theorem exists_required_on_buy (hfits : p.Fits) (h : n.toNat < p.base) :
    ∃ r, (compute_required_amount_on_buy p n).run = .ok r ∧
      r.toNat = ConstantProduct.input n.toNat p.quote p.base % 2 ^ 64 := by
  obtain ⟨r, hr⟩ : ∃ r : U64, r.toNat =
      ConstantProduct.input n.toNat p.quote p.base % 2 ^ 64 :=
    exists_toNat_eq.mpr (Nat.mod_lt _ (by decide))
  exact ⟨r, PoolState.compute_required_amount_on_buy_eq_ok.mpr ⟨hfits, h, hr⟩, hr⟩

theorem required_on_buy_returns (hfits : p.Fits) (h : n.toNat < p.base) :
    (compute_required_amount_on_buy p n).Returns := by
  obtain ⟨r, hr, -⟩ := exists_required_on_buy hfits h
  exact ⟨r, hr⟩

theorem required_on_buy_exact_iff (hfits : p.Fits) (h : n.toNat < p.base) :
    (compute_required_amount_on_buy p n).Exact ↔
      ConstantProduct.input n.toNat p.quote p.base < 2 ^ 64 := by
  obtain ⟨r, hr, hval⟩ := exists_required_on_buy hfits h
  exact exact_iff_of_run hr hval

end Call

/-! ## Which calls are made

A trade that passes its account checks and its guards makes the calls of its formula, each on
what the ones before it have returned, and no others. -/

section Recorded

variable {ms : MainState} {p : PoolState} {q b s m : U64}

/-- The calls that price an exact-quote buy of `q`. A sum that does not fit ends the handler
before it has compared it with the threshold. -/
inductive QuoteCalls (ms : MainState) (p : PoolState) (q : U64) : List Call → Prop where
  | stopped {fee net : U64}
      (hfee : (Call.calculate_trading_fee ms.trading_fee q).run = .ok fee)
      (hnet : (Call.sub q fee).run = .ok net)
      (hsum : 2 ^ 64 ≤ p.real_quote_reserves.toNat + net.toNat) :
      QuoteCalls ms p q [.calculate_trading_fee ms.trading_fee q, .sub q fee]
  | whole {fee net : U64}
      (hfee : (Call.calculate_trading_fee ms.trading_fee q).run = .ok fee)
      (hnet : (Call.sub q fee).run = .ok net)
      (hcap : p.real_quote_reserves.toNat + net.toNat ≤ p.real_quote_threshold.toNat) :
      QuoteCalls ms p q [.calculate_trading_fee ms.trading_fee q, .sub q fee, .sub q fee,
        .compute_receivable_amount_on_buy p net]
  | capped {fee net remaining total fee' input : U64}
      (hfee : (Call.calculate_trading_fee ms.trading_fee q).run = .ok fee)
      (hnet : (Call.sub q fee).run = .ok net)
      (hsum : p.real_quote_reserves.toNat + net.toNat < 2 ^ 64)
      (hcap : p.real_quote_threshold.toNat < p.real_quote_reserves.toNat + net.toNat)
      (hremaining :
        (Call.sub p.real_quote_threshold p.real_quote_reserves).run = .ok remaining)
      (htotal : (Call.calculate_total_amount ms.trading_fee remaining).run = .ok total)
      (hfee' : (Call.calculate_trading_fee ms.trading_fee total).run = .ok fee')
      (hinput : (Call.sub total fee').run = .ok input) :
      QuoteCalls ms p q [.calculate_trading_fee ms.trading_fee q, .sub q fee,
        .sub p.real_quote_threshold p.real_quote_reserves,
        .calculate_total_amount ms.trading_fee remaining,
        .calculate_trading_fee ms.trading_fee total, .sub total fee',
        .compute_receivable_amount_on_buy p input]

/-- The calls that price an exact-tokens buy of `b`. -/
inductive TokensCalls (ms : MainState) (p : PoolState) (b : U64) : List Call → Prop where
  | stopped {price : U64} (hprice : (Call.compute_required_amount_on_buy p b).run = .ok price)
      (hsum : 2 ^ 64 ≤ p.real_quote_reserves.toNat + price.toNat) :
      TokensCalls ms p b [.compute_required_amount_on_buy p b]
  | whole {price total : U64}
      (hprice : (Call.compute_required_amount_on_buy p b).run = .ok price)
      (hcap : p.real_quote_reserves.toNat + price.toNat ≤ p.real_quote_threshold.toNat)
      (htotal : (Call.calculate_total_amount ms.trading_fee price).run = .ok total) :
      TokensCalls ms p b [.compute_required_amount_on_buy p b,
        .calculate_total_amount ms.trading_fee price,
        .calculate_trading_fee ms.trading_fee total]
  | capped {price remaining total : U64}
      (hprice : (Call.compute_required_amount_on_buy p b).run = .ok price)
      (hsum : p.real_quote_reserves.toNat + price.toNat < 2 ^ 64)
      (hcap : p.real_quote_threshold.toNat < p.real_quote_reserves.toNat + price.toNat)
      (hremaining :
        (Call.sub p.real_quote_threshold p.real_quote_reserves).run = .ok remaining)
      (htotal : (Call.calculate_total_amount ms.trading_fee remaining).run = .ok total) :
      TokensCalls ms p b [.compute_required_amount_on_buy p b,
        .sub p.real_quote_threshold p.real_quote_reserves,
        .compute_receivable_amount_on_buy p remaining,
        .calculate_total_amount ms.trading_fee remaining,
        .calculate_trading_fee ms.trading_fee total]

/-- The calls that price a sell of `s`. -/
inductive SellCalls (ms : MainState) (p : PoolState) (s : U64) : List Call → Prop where
  | priced {gross fee : U64}
      (hgross : (Call.compute_receivable_amount_on_sell p s).run = .ok gross)
      (hfee : (Call.calculate_trading_fee ms.trading_fee gross).run = .ok fee) :
      SellCalls ms p s [.compute_receivable_amount_on_sell p s,
        .calculate_trading_fee ms.trading_fee gross, .sub gross fee]

open Observed Call

theorem Call.watched_bind {α : Type} {k : Call} {r : U64} {f : U64 → Observed Call Error α}
    (h : k.run = .ok r) : k.watched >>= f = cons k (f r) := call_bind_of_ok h

/-- The last call of a price. After it come a guard and the two reserve updates. -/
theorem Call.calls_last {α β γ δ : Type} {k : Call} {guard : U64 → Result α}
    {first : U64 → α → Result β} {second : U64 → α → β → Result γ} {out : U64 → α → β → γ → δ} :
    (k.watched >>= fun r => .lift (guard r) >>= fun x => .lift (first r x) >>= fun y =>
      .lift (second r x y) >>= fun z => pure (out r x y z) : Observed Call Error δ).calls = [k] :=
  calls_bind_of_forall_nil fun _ => calls_bind_of_forall_nil fun _ =>
    calls_bind_of_forall_nil fun _ => calls_bind_of_forall_nil fun _ => rfl

/-- An amount has a fee, and is not less than it. -/
theorem Call.exists_fee_and_rest {fee : U64} (h : fee.toNat ≤ FEE_UNIT) (n : U64) :
    ∃ f r, (calculate_trading_fee fee n).run = .ok f ∧ (sub n f).run = .ok r := by
  obtain ⟨f, hf⟩ := (trading_fee_exact (n := n) h).returns
  have hle : f.toNat ≤ n.toNat := by
    rw [(calculate_trading_fee_eq_ok h).mp hf]
    exact GrossUp.fee_le h _
  obtain ⟨r, hr⟩ := (sub_exact hle).returns
  exact ⟨f, r, hf, hr⟩

theorem Priceable.price_exact_quote_calls (h : Priceable ms p) (hq : 0 < q)
    (hopen : p.complete = false) :
    QuoteCalls ms p q (price_exact_quote_observed ms p q m).calls := by
  have htf := h.trading_fee_lt
  obtain ⟨fee, net, hfee, hnet⟩ := exists_fee_and_rest htf.le q
  unfold price_exact_quote_observed restrict_quote_amount_observed
  rw [lift_bind_of_ok (a := ()) (require_eq_ok.mpr hq),
    lift_bind_of_ok (a := ()) (require_eq_ok.mpr hopen), watched_bind hfee, watched_bind hnet,
    cons_bind, cons_bind, calls_cons, calls_cons]
  by_cases hsum : p.real_quote_reserves.toNat + net.toNat < 2 ^ 64
  · obtain ⟨new_reserves, hnew, hval⟩ := exists_checked_add hsum
    rw [lift_bind_of_ok (unwrap_eq_ok.mpr hnew)]
    by_cases hcap : p.real_quote_threshold < new_reserves
    · obtain ⟨remaining, hremaining⟩ := (sub_exact h.quote_le).returns
      obtain ⟨total, htotal⟩ := total_amount_returns (n := remaining) htf
      obtain ⟨fee', input, hfee', hinput⟩ := exists_fee_and_rest htf.le total
      rw [if_pos hcap, watched_bind hremaining, watched_bind htotal, watched_bind hfee',
        cons_bind, cons_bind, cons_bind, Observed.pure_bind, calls_cons, calls_cons, calls_cons]
      dsimp only
      rw [watched_bind hinput, calls_cons, calls_last]
      rw [BitVec.lt_def, hval] at hcap
      exact .capped hfee hnet hsum hcap hremaining htotal hfee' hinput
    · rw [if_neg hcap, Observed.pure_bind]
      dsimp only
      rw [watched_bind hnet, calls_cons, calls_last]
      rw [BitVec.lt_def, hval, not_lt] at hcap
      exact .whole hfee hnet hcap
  · rw [not_lt] at hsum
    have hnone := checked_add_eq_none.mpr hsum
    rw [lift_bind_of_error (e := .panic) (by rw [hnone]; rfl), lift_bind_of_error rfl]
    exact .stopped hfee hnet hsum

theorem Priceable.price_exact_tokens_calls (h : Priceable ms p) (hopen : p.complete = false)
    (hb : 0 < b) (hle : b ≤ p.real_base_reserves) :
    TokensCalls ms p b (price_exact_tokens_observed ms p b m).calls := by
  have htf := h.trading_fee_lt
  -- the virtual base tokens are never bought
  have hlt : b.toNat < p.base := by
    have := BitVec.le_def.mp hle
    have hvirt := h.virt_base
    rw [PoolState.base]
    omega
  obtain ⟨price, hprice⟩ := required_on_buy_returns h.fits hlt
  unfold price_exact_tokens_observed restrict_base_amount_observed
  rw [lift_bind_of_ok (a := ()) (require_eq_ok.mpr hopen),
    lift_bind_of_ok (a := ()) (require_eq_ok.mpr ⟨hb, hle⟩), watched_bind hprice, cons_bind,
    calls_cons]
  by_cases hsum : p.real_quote_reserves.toNat + price.toNat < 2 ^ 64
  · obtain ⟨new_reserves, hnew, hval⟩ := exists_checked_add hsum
    rw [lift_bind_of_ok (unwrap_eq_ok.mpr hnew)]
    by_cases hcap : p.real_quote_threshold < new_reserves
    · obtain ⟨remaining, hremaining⟩ := (sub_exact h.quote_le).returns
      obtain ⟨base, hbase⟩ := (receivable_on_buy_exact (n := remaining) h.fits h.quote_pos).returns
      obtain ⟨total, htotal⟩ := total_amount_returns (n := remaining) htf
      rw [if_pos hcap, watched_bind hremaining, watched_bind hbase, cons_bind, cons_bind,
        Observed.pure_bind, calls_cons, calls_cons]
      dsimp only
      rw [watched_bind htotal, calls_cons, calls_last]
      rw [BitVec.lt_def, hval] at hcap
      exact .capped hprice hsum hcap hremaining htotal
    · obtain ⟨total, htotal⟩ := total_amount_returns (n := price) htf
      rw [if_neg hcap, Observed.pure_bind]
      dsimp only
      rw [watched_bind htotal, calls_cons, calls_last]
      rw [BitVec.lt_def, hval, not_lt] at hcap
      exact .whole hprice hcap htotal
  · rw [not_lt] at hsum
    have hnone := checked_add_eq_none.mpr hsum
    rw [lift_bind_of_error (e := .panic) (by rw [hnone]; rfl), lift_bind_of_error rfl]
    exact .stopped hprice hsum

theorem Priceable.price_sell_calls (h : Priceable ms p) (hs : 0 < s)
    (hopen : p.complete = false) : SellCalls ms p s (price_sell_observed ms p s m).calls := by
  have htf := h.trading_fee_lt
  obtain ⟨gross, hgross⟩ := (receivable_on_sell_exact (n := s) h.fits h.base_pos).returns
  obtain ⟨fee, hfee⟩ := (trading_fee_exact (n := gross) htf.le).returns
  unfold price_sell_observed
  rw [lift_bind_of_ok (a := ()) (require_eq_ok.mpr hs),
    lift_bind_of_ok (a := ()) (require_eq_ok.mpr hopen), watched_bind hgross, watched_bind hfee,
    calls_cons, calls_cons, calls_last]
  exact .priced hgross hfee

variable {ctx : ABuy}

/-- **The calls of an exact-quote buy.** -/
theorem buy_tokens_from_exact_quote_observed_calls (hinv : Inv l) (ha : ctx.Accepts l ms p)
    (hq : 0 < q) (hopen : p.complete = false) :
    QuoteCalls ms p q (buy_tokens_from_exact_quote_observed spl ctx q m l).calls := by
  unfold buy_tokens_from_exact_quote_observed
  rw [lift_bind_of_ok ((ABuy.try_accounts_eq_ok hinv.ata).mpr ⟨ha, rfl⟩)]
  dsimp only
  rw [calls_bind_of_forall_nil fun _ => rfl]
  exact (hinv.priceable ha.main_state ha.pool_state).price_exact_quote_calls hq hopen

/-- **The calls of an exact-tokens buy.** -/
theorem buy_exact_tokens_from_quote_observed_calls (hinv : Inv l) (ha : ctx.Accepts l ms p)
    (hopen : p.complete = false) (hb : 0 < b) (hle : b ≤ p.real_base_reserves) :
    TokensCalls ms p b (buy_exact_tokens_from_quote_observed spl ctx b m l).calls := by
  unfold buy_exact_tokens_from_quote_observed
  rw [lift_bind_of_ok ((ABuy.try_accounts_eq_ok hinv.ata).mpr ⟨ha, rfl⟩)]
  dsimp only
  rw [calls_bind_of_forall_nil fun _ => rfl]
  exact (hinv.priceable ha.main_state ha.pool_state).price_exact_tokens_calls hopen hb hle

/-- **The calls of a sell.** The transfers and the event after its price make none. -/
theorem sell_observed_calls {ctx : ASell} (hinv : Inv l) (ha : ctx.Accepts s l ms p)
    (hs : 0 < s) (hopen : p.complete = false) :
    SellCalls ms p s (sell_observed spl ctx s m l).calls := by
  unfold sell_observed
  rw [lift_bind_of_ok ((ASell.try_accounts_eq_ok hinv.ata).mpr ⟨ha, rfl⟩)]
  dsimp only
  rw [calls_bind_of_forall_nil]
  · exact (hinv.priceable ha.main_state ha.pool_state).price_sell_calls hs hopen
  · intro c
    exact calls_bind_of_forall_nil fun _ => calls_bind_of_forall_nil fun _ =>
      calls_bind_of_forall_nil fun _ => calls_bind_of_forall_nil fun _ =>
      calls_bind_of_forall_nil fun _ => rfl

end Recorded

/-! ## No call panics -/

section Decisions

variable {ms : MainState} {p : PoolState}

open Observed Call

/-- Every call of the cap of `buy_tokens_from_exact_quote` is exact: the total is taken of
less than what is left of the offer. -/
theorem Priceable.restrict_quote_amount_exact {q : U64} (h : Priceable ms p) :
    CallsIn Exact (restrict_quote_amount_observed ms.trading_fee p q) := by
  have htf := h.trading_fee_lt
  refine callsIn_bind (callsIn_watched.mpr (trading_fee_exact htf.le)) fun fee hfee => ?_
  have hf := (calculate_trading_fee_eq_ok htf.le).mp hfee
  have hq := GrossUp.fee_add_net htf.le q.toNat
  refine callsIn_bind (callsIn_watched.mpr (sub_exact (by omega))) fun net hnet => ?_
  have hn := checked_sub_eq_some.mp (unwrap_eq_ok.mp hnet)
  refine callsIn_bind callsIn_lift fun new_reserves hnew => ?_
  have hs := checked_add_eq_some.mp (unwrap_eq_ok.mp hnew)
  split
  · rename_i hcap
    rw [BitVec.lt_def] at hcap
    refine callsIn_bind (callsIn_watched.mpr (sub_exact h.quote_le)) fun remaining hrem => ?_
    have hr := checked_sub_eq_some.mp (unwrap_eq_ok.mp hrem)
    have hlt : GrossUp.gross ms.trading_fee.toNat FEE_UNIT remaining.toNat < q.toNat :=
      GrossUp.gross_lt_of_lt_net htf (by omega)
    refine callsIn_bind (callsIn_watched.mpr ((total_amount_exact_iff htf).mpr
      (hlt.trans q.isLt))) fun total _ => ?_
    exact callsIn_bind (callsIn_watched.mpr (trading_fee_exact htf.le)) fun _ _ => callsIn_pure
  · exact callsIn_pure

theorem Priceable.price_exact_quote_exact {q m : U64} (h : Priceable ms p) :
    CallsIn Exact (price_exact_quote_observed ms p q m) := by
  refine callsIn_bind callsIn_lift fun _ _ => ?_
  refine callsIn_bind callsIn_lift fun _ _ => ?_
  refine callsIn_bind h.restrict_quote_amount_exact fun r hr => ?_
  obtain ⟨t, f⟩ := r
  -- capped or not, the fee is the fee on what is spent
  have hle : f.toNat ≤ t.toNat := by
    rw [restrict_quote_amount_observed_result] at hr
    rw [((restrict_quote_amount_eq_ok h.trading_fee_lt h.quote_le).mp hr).2.2]
    exact GrossUp.fee_le h.trading_fee_lt.le _
  refine callsIn_bind (callsIn_watched.mpr (sub_exact hle)) fun input _ => ?_
  refine callsIn_bind (callsIn_watched.mpr (receivable_on_buy_exact h.fits h.quote_pos))
    fun out _ => ?_
  refine callsIn_bind callsIn_lift fun _ _ => ?_
  refine callsIn_bind callsIn_lift fun _ _ => ?_
  exact callsIn_bind callsIn_lift fun _ _ => callsIn_pure

theorem Priceable.price_sell_exact {s m : U64} (h : Priceable ms p) :
    CallsIn Exact (price_sell_observed ms p s m) := by
  have htf := h.trading_fee_lt
  refine callsIn_bind callsIn_lift fun _ _ => ?_
  refine callsIn_bind callsIn_lift fun _ _ => ?_
  refine callsIn_bind (callsIn_watched.mpr (receivable_on_sell_exact h.fits h.base_pos))
    fun gross _ => ?_
  refine callsIn_bind (callsIn_watched.mpr (trading_fee_exact htf.le)) fun fee hf => ?_
  have hle : fee.toNat ≤ gross.toNat := by
    rw [(calculate_trading_fee_eq_ok htf.le).mp hf]
    exact GrossUp.fee_le htf.le _
  refine callsIn_bind (callsIn_watched.mpr (sub_exact hle)) fun output _ => ?_
  refine callsIn_bind callsIn_lift fun _ _ => ?_
  refine callsIn_bind callsIn_lift fun _ _ => ?_
  exact callsIn_bind callsIn_lift fun _ _ => callsIn_pure

/-- The calls of the cap of `buy_exact_tokens_from_quote` return, exact or not. -/
theorem Priceable.restrict_base_amount_returns {b : U64} (h : Priceable ms p)
    (hb : b.toNat < p.base) :
    CallsIn Returns (restrict_base_amount_observed p b) := by
  refine callsIn_bind (callsIn_watched.mpr (required_on_buy_returns h.fits hb)) fun input _ => ?_
  refine callsIn_bind callsIn_lift fun new_reserves _ => ?_
  split
  · refine callsIn_bind (callsIn_watched.mpr (sub_exact h.quote_le).returns) fun _ _ => ?_
    exact callsIn_bind (callsIn_watched.mpr (receivable_on_buy_exact h.fits h.quote_pos).returns)
      fun _ _ => callsIn_pure
  · exact callsIn_pure

theorem Priceable.price_exact_tokens_returns {b m : U64} (h : Priceable ms p) :
    CallsIn Returns (price_exact_tokens_observed ms p b m) := by
  have htf := h.trading_fee_lt
  refine callsIn_bind callsIn_lift fun _ _ => ?_
  refine callsIn_bind callsIn_lift fun _ hguard => ?_
  -- the virtual base tokens are never bought
  have hb : b.toNat < p.base := by
    have hle := BitVec.le_def.mp (require_eq_ok.mp hguard).2
    have hvirt := h.virt_base
    rw [PoolState.base]
    omega
  refine callsIn_bind (h.restrict_base_amount_returns hb) fun r _ => ?_
  obtain ⟨ib, iq⟩ := r
  refine callsIn_bind (callsIn_watched.mpr (total_amount_returns htf)) fun total _ => ?_
  refine callsIn_bind (callsIn_watched.mpr (trading_fee_exact htf.le).returns) fun fee _ => ?_
  refine callsIn_bind callsIn_lift fun _ _ => ?_
  refine callsIn_bind callsIn_lift fun _ _ => ?_
  exact callsIn_bind callsIn_lift fun _ _ => callsIn_pure

end Decisions

open Observed in
/-- Every call of an instruction other than the exact-tokens buy is exact. -/
theorem Instruction.calls_exact {i : Instruction} (hinv : Inv l)
    (hi : ∀ ctx b m, i ≠ .buy_exact_tokens_from_quote ctx b m) :
    ∀ k ∈ (i.observed spl l).calls, k.Exact := by
  change CallsIn Call.Exact (i.observed spl l)
  cases i with
  | buy_tokens_from_exact_quote ctx q m =>
    refine callsIn_bind callsIn_lift fun ⟨ms, p, t⟩ hacc => ?_
    obtain ⟨ha, -⟩ := (ABuy.try_accounts_eq_ok hinv.ata).mp hacc
    have hpr := hinv.priceable ha.main_state ha.pool_state
    exact callsIn_bind hpr.price_exact_quote_exact fun _ _ => callsIn_lift
  | buy_exact_tokens_from_quote ctx b m => exact absurd rfl (hi ctx b m)
  | sell ctx s m =>
    refine callsIn_bind callsIn_lift fun ⟨ms, p, t⟩ hacc => ?_
    obtain ⟨ha, -⟩ := (ASell.try_accounts_eq_ok hinv.ata).mp hacc
    have hpr := hinv.priceable ha.main_state ha.pool_state
    refine callsIn_bind hpr.price_sell_exact fun c _ => ?_
    refine callsIn_bind callsIn_lift fun _ _ => ?_
    refine callsIn_bind callsIn_lift fun _ _ => ?_
    refine callsIn_bind callsIn_lift fun _ _ => ?_
    refine callsIn_bind callsIn_lift fun _ _ => ?_
    exact callsIn_bind callsIn_lift fun _ _ => callsIn_pure
  | _ => exact callsIn_lift

open Observed in
/-- **No call of a reachable instruction panics**, whether the instruction then succeeds or
not: the pricing helpers return, and the subtractions of the handlers do not underflow. -/
theorem pricing_never_panics (spl : TokenProgram Pubkey) {l : Ledger} {i : Instruction}
    (hl : Reachable spl l) :
    (i.observed spl l).result = i.execute spl l ∧
      ∀ k ∈ (i.observed spl l).calls, ∃ r, k.run = .ok r := by
  refine ⟨i.observed_result, ?_⟩
  have hinv := hl.inv
  cases i with
  | buy_exact_tokens_from_quote ctx b m =>
    refine callsIn_bind callsIn_lift fun ⟨ms, p, t⟩ hacc => ?_
    obtain ⟨ha, -⟩ := (ABuy.try_accounts_eq_ok hinv.ata).mp hacc
    have hpr := hinv.priceable ha.main_state ha.pool_state
    exact callsIn_bind hpr.price_exact_tokens_returns fun _ _ => callsIn_lift
  | _ =>
    intro k hk
    refine (Instruction.calls_exact hinv ?_ k hk).returns
    intro ctx b m h
    cases h

/-- `bob` buys 1000 base tokens of a new pool: the price, the total and the fee are three
calls, and they return. -/
theorem pricing_never_panics_sample : ∃ l : Ledger, Reachable .reference l ∧
    let i : Instruction :=
      .buy_exact_tokens_from_quote ⟨bob, DEFAULT_OWNER, coin, QUOTE_MINT⟩ 1000 1000
    (i.observed .reference l).calls.length = 3 ∧
      ∀ k ∈ (i.observed .reference l).calls, ∃ r, k.run = .ok r := by
  let i : Instruction :=
    .buy_exact_tokens_from_quote ⟨bob, DEFAULT_OWNER, coin, QUOTE_MINT⟩ 1000 1000
  obtain ⟨l, hl, hlen⟩ := exists_eq_ok (x := Runs.run (step .reference) launched opening)
    (f := fun l => (i.observed .reference l).calls.length) (b := 3) (by decide +kernel)
  have hreach : Reachable .reference l := ⟨launched, opening, launched_genesis, hl⟩
  exact ⟨l, hreach, hlen, (pricing_never_panics .reference hreach).2⟩

end AliPumpFun
