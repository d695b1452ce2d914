/-
What was bought can be sold back.

The base tokens of an exact-quote buy that does not complete its pool can be sold back as long as
nobody else trades on it, whatever instructions, token transfers and openings of accounts there
are besides. The pool pays out at most what the buy put in, and at most one quote token and the
price of one base token are missing, which is what the two floors cost. The tokens of such an
exact-tokens buy can be sold back if its cast has not cut the charge, and then nothing is
missing: its floor and that of the sell cancel. So a round trip costs the two fees, and little
else.

Where the cast has cut the charge, the sell can bring more than the pool has, and then it panics.
-/
import AliPumpFun.Narrowing
import AliPumpFun.Standing

set_option autoImplicit false

open Words Fallible

namespace AliPumpFun

variable {spl : TokenProgram Pubkey} {l l' : Ledger} {ms : MainState} {p : PoolState}
  {c : Purchase}

/-- The context in which the buyer sells what he bought. -/
def ABuy.back (ctx : ABuy) (fee_recipient : Pubkey) : ASell :=
  ⟨ctx.buyer, fee_recipient, ctx.base_mint, ctx.quote_mint⟩

/-- On `l` the buyer can sell all that the purchase brought, and the pool pays out what the
purchase put in, or less by at most `loss`. -/
def SellsBack (spl : TokenProgram Pubkey) (ctx : ABuy) (l : Ledger) (ms : MainState)
    (c : Purchase) (loss : ℕ) : Prop :=
  ∃ l' sale, AliPumpFun.sell spl (ctx.back ms.fee_recipient) c.base_amount 0 l = .ok l' ∧
    Sold (ctx.back ms.fee_recipient) c.base_amount l l' ms c.settled sale ∧
    sale.gross_amount.toNat ≤ c.input_quote_amount.toNat ∧
    c.input_quote_amount.toNat ≤ sale.gross_amount.toNat + loss

/-! ## The price of selling back -/

/-- What the pool pays for the tokens of the purchase when it is at once sold back. -/
def Purchase.refund (c : Purchase) (p : PoolState) : ℕ :=
  ConstantProduct.refund c.input_quote_amount.toNat c.base_amount.toNat p.quote p.base

/-- The refund is what was put in, or less by at most `loss`. -/
structure Purchase.Refunds (c : Purchase) (p : PoolState) (loss : ℕ) : Prop where
  refund_le : c.refund p ≤ c.input_quote_amount.toNat
  le_refund : c.input_quote_amount.toNat ≤ c.refund p + loss

/-- What the pool pays for the tokens of a purchase that it has just made. -/
theorem Purchase.Buys.output_settled (h : c.Buys p) :
    ConstantProduct.output c.base_amount.toNat c.settled.base c.settled.quote = c.refund p := by
  have hbase := h.moves.base_eq
  rw [Purchase.refund, ConstantProduct.refund, c.settled_base, c.settled_quote, h.moves.quote_eq,
    show c.pool_state.base = p.base - c.base_amount.toNat by omega]

/-- A purchase can be sold back where its pool is as it left it, and its tokens are still there. -/
theorem Inv.sells_back {ctx : ABuy} {loss : ℕ} (hinv : Inv l) (hms : l.main_state = some ms)
    (hp : l.pools.lookup ctx.pool_state = some c.settled) (hc : c.Buys p)
    (hopen : c.settled.complete = false) (hpos : 0 < c.base_amount.toNat)
    (hfunds : c.base_amount.toNat ≤ l.tokens.balance ctx.buyer_base_ata)
    (hr : c.Refunds p loss) : SellsBack spl ctx l ms c loss := by
  have hpool : l.pools.lookup (ctx.back ms.fee_recipient).pool_state = some c.settled := hp
  have hfunded : c.base_amount.toNat ≤
      l.tokens.balance (ctx.back ms.fee_recipient).seller_base_ata := hfunds
  have ha := hinv.accepts_sell hms rfl hpool hpos hfunded
  -- what was put in is there to be paid out
  have hpaid : ConstantProduct.output c.base_amount.toNat c.settled.base c.settled.quote ≤
      c.settled.real_quote_reserves.toNat := by
    have hquote := hc.moves.quote
    have hle := hr.refund_le
    rw [hc.output_settled, c.settled_real_quote_reserves]
    omega
  obtain ⟨sale, hx⟩ := ((hinv.priceable hms hp).exists_sell (m := 0)
    (hinv.sell_room hpool hfunded)).mpr ⟨hpos, hopen, hpaid, Nat.zero_le _⟩
  obtain ⟨l', hs⟩ := hx.exists_sold hinv ha
  refine ⟨l', sale, hinv.sell_iff.mpr ⟨ms, _, sale, hx, hs⟩, hs, ?_, ?_⟩
  · rw [hx.gross, hc.output_settled]
    exact hr.refund_le
  · rw [hx.gross, hc.output_settled]
    exact hr.le_refund

/-- The buyer has what he bought. -/
theorem Bought.le_balance_base {ctx : ABuy} (h : Bought ctx l l' ms p c)
    (hpair : ctx.base_mint ≠ ctx.quote_mint) :
    c.base_amount.toNat ≤ l'.tokens.balance ctx.buyer_base_ata := by
  have hbase := h.settles.paid.balance_eq ctx.buyer_base_ata
  simp [Bank.outgoing, Bank.incoming, ABuy.payments, ABuy.reserver_base_ata,
    ABuy.reserver_quote_ata, ABuy.buyer_quote_ata, ABuy.buyer_base_ata, ABuy.fee_quote_ata,
    ABuy.pool_state, hpair] at hbase ⊢
  omega

/-! ## Round trips -/

section RoundTrips

variable {l₁ : Ledger} {as : List Action} {ctx : ABuy} {ms' : MainState}

/-- After any actions that leave the pool and the buyer alone. -/
theorem Bought.sells_back {loss : ℕ} (h : Bought ctx l l₁ ms p c) (hc : c.Buys p)
    (hinv : Inv l₁) (hrun : Runs.run (step spl) l₁ as = .ok l')
    (has : ∀ a ∈ as, a.pool ≠ some ctx.pool_state ∧ a.signer ≠ some ctx.buyer.1)
    (hms : l'.main_state = some ms') (hopen : c.settled.complete = false)
    (hpos : 0 < c.base_amount.toNat)
    (hr : c.Refunds p loss) : SellsBack spl ctx l' ms' c loss := by
  have hp := h.settles.lookup_self
  have hpair : ctx.base_mint ≠ ctx.quote_mint := by
    obtain ⟨hb, hq⟩ := hinv.mints_of_pool hp
    rw [hb, hq]
    exact (hinv.pools _ _ hp).pair
  have hkept := (run_retains hinv hrun).pools _ fun a ha => (has a ha).1
  have hfunds := (h.le_balance_base hpair).trans <| run_balance_ata_le hinv hrun fun a ha => by
    rintro (hs | hk)
    · exact (has a ha).2 hs
    · exact a.pool_ne_signer ctx.buyer hk
  exact (hinv.run hrun).sells_back hms (hkept.trans hp) hc hopen hpos hfunds hr

theorem ExactQuote.refunds {q m : U64} (h : ExactQuote ms p q m c) (hpr : Priceable ms p) :
    c.Refunds p ((p.quote + c.input_quote_amount.toNat) / p.base + 1) where
  refund_le := by
    rw [Purchase.refund, h.base]
    exact ConstantProduct.refund_output_le _ _ _
  le_refund := by
    rw [Purchase.refund, h.base, ← Nat.add_assoc]
    exact ConstantProduct.le_refund_output hpr.base_pos h.priced

/-- An exact-tokens buy that is not capped and charges the floor of its price. -/
theorem ExactTokens.refunds {b m : U64} (h : ExactTokens ms p b m c) (hpr : Priceable ms p)
    (hopen : c.settled.complete = false)
    (hlt : ConstantProduct.input b.toNat p.quote p.base < 2 ^ 64) :
    c.base_amount = b ∧ c.Refunds p 0 := by
  rcases h.branch with ⟨-, hin, -, -⟩ | ⟨-, hin, hb⟩
  · rw [c.settled_completes h.buys hpr.quote_le hin] at hopen
    cases hopen
  · rw [PoolState.charge_of_lt hlt] at hin
    have heq : c.refund p = c.input_quote_amount.toNat := by
      rw [Purchase.refund, hin, hb]
      exact ConstantProduct.refund_input h.below
    exact ⟨hb, heq.le, heq.ge⟩

/-- **What was bought can be sold back.** Let a buy not complete its pool, and let any run follow
of the eight instructions, token transfers, openings of accounts and ticks of the clock that are
not about the pool and not signed by the buyer. After an exact-quote buy that asked for a base
token, the buyer can sell all he got, and the pool pays out at most what the buy put in, and at
least that less one quote token and the price of one base token. After an exact-tokens buy whose
charge fits its cast he can as well, and the pool pays out exactly what the buy put in. -/
theorem bought_can_be_sold_back (spl : TokenProgram Pubkey) (hl : Reachable spl l)
    (hrun : Runs.run (step spl) l₁ as = .ok l')
    (has : ∀ a ∈ as, a.pool ≠ some ctx.pool_state ∧ a.signer ≠ some ctx.buyer.1)
    (hms : l'.main_state = some ms') :
    (∀ q m : U64, 0 < m.toNat → buy_tokens_from_exact_quote spl ctx q m l = .ok l₁ →
      ∃ ms p c, Bought ctx l l₁ ms p c ∧ (c.settled.complete = false →
        SellsBack spl ctx l' ms' c ((p.quote + c.input_quote_amount.toNat) / p.base + 1))) ∧
    ∀ b m : U64, buy_exact_tokens_from_quote spl ctx b m l = .ok l₁ →
      ∃ ms p c, Bought ctx l l₁ ms p c ∧ (c.settled.complete = false →
        ConstantProduct.input b.toNat p.quote p.base < 2 ^ 64 →
          SellsBack spl ctx l' ms' c 0) := by
  have hinv := hl.inv
  constructor
  · intro q m hm hok
    have hinv₁ := hinv.step (a := .ix (.buy_tokens_from_exact_quote ctx q m)) hok
    obtain ⟨ms, p, c, hx, hb⟩ := hinv.exact_quote_iff.mp hok
    refine ⟨ms, p, c, hb, fun hopen => ?_⟩
    have hpr := hinv.priceable hb.accepts.main_state hb.accepts.pool_state
    exact hb.sells_back hx.buys hinv₁ hrun has hms hopen (hm.trans_le hx.enough) (hx.refunds hpr)
  · intro b m hok
    have hinv₁ := hinv.step (a := .ix (.buy_exact_tokens_from_quote ctx b m)) hok
    obtain ⟨ms, p, c, hx, hb⟩ := hinv.exact_tokens_iff.mp hok
    refine ⟨ms, p, c, hb, fun hopen hlt => ?_⟩
    have hpr := hinv.priceable hb.accepts.main_state hb.accepts.pool_state
    obtain ⟨hbase, hr⟩ := hx.refunds hpr hopen hlt
    refine hb.sells_back hx.buys hinv₁ hrun has hms hopen ?_ hr
    rw [hbase]
    exact hx.amount_pos

end RoundTrips

/-- `bob` buys, the fee is halved, and he sells again. -/
theorem bought_can_be_sold_back_sample : ∃ l l₁ l' ms ms' p c,
    Bought ⟨bob, DEFAULT_OWNER, coin, QUOTE_MINT⟩ l l₁ ms p c ∧
    l'.main_state = some ms' ∧ ms'.trading_fee = 500 ∧
    SellsBack .reference ⟨bob, DEFAULT_OWNER, coin, QUOTE_MINT⟩ l' ms' c
      ((p.quote + c.input_quote_amount.toNat) / p.base + 1) := by
  let ctx : ABuy := ⟨bob, DEFAULT_OWNER, coin, QUOTE_MINT⟩
  let update : Action := .ix (.update_main_state ⟨default_owner, QUOTE_MINT, DEFAULT_OWNER⟩
    ⟨DEFAULT_OWNER, DEFAULT_OWNER, 500, none, none, none, none⟩)
  obtain ⟨l, hl, hreach, -, -, -⟩ := exists_opened
  obtain ⟨l₁, hbuy, hopen⟩ := Runs.exists_step_eq_ok hl
    (a := .ix (.buy_tokens_from_exact_quote ctx 1000 1))
    (f := fun l => (l.pools.lookup coin_pool).map (·.complete)) (b := some false)
    (by decide +kernel)
  obtain ⟨l', hupdate, hms⟩ := Runs.exists_step_eq_ok (Runs.run_snoc.mpr ⟨l, hl, hbuy⟩)
    (a := update) (f := fun l => l.main_state)
    (b := some { MainState.initial DEFAULT_OWNER with trading_fee := 500 }) (by decide +kernel)
  have hrun : Runs.run (step .reference) l₁ [update] = .ok l' :=
    Runs.run_cons.mpr ⟨l', hupdate, rfl⟩
  have hapart : ∀ a ∈ [update], a.pool ≠ some ctx.pool_state ∧ a.signer ≠ some ctx.buyer.1 := by
    intro a ha
    rw [List.mem_singleton.mp ha]
    exact ⟨by decide, by decide⟩
  obtain ⟨ms, p, c, hb, hback⟩ :=
    (bought_can_be_sold_back .reference hreach hrun hapart hms).1 1000 1 (by decide) hbuy
  rw [show coin_pool = ctx.pool_state from rfl, hb.settles.lookup_self, Option.map_some,
    Option.some_inj] at hopen
  exact ⟨l, l₁, l', ms, _, p, c, hb, hms, rfl, hback hopen⟩

end AliPumpFun
