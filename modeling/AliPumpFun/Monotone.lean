/-
Asking for more.

Two buys from the same state, the second of which asks for at least as much. The
exact-quote buy never gives less for more, and past its cap it gives the same. The
exact-tokens buy is priced by the floor of what the curve charges up to the cap, and by what
the curve gives for the remainder beyond it. The two agree as long as the unrounded price of
the smaller amount is within what remains, and on what is spent as long as no cast comes
between them.
-/
import AliPumpFun.Limits

set_option autoImplicit false

open Words Fallible

namespace AliPumpFun

variable {spl : TokenProgram Pubkey} {l l₁ l₂ : Ledger}

/-! ## The exact-tokens buy -/

/-- If the cap lies between `b₁` and `b₂`, the unrounded price of `b₁` is within what remains
to the threshold. -/
def PoolState.DeliversInOrder (p : PoolState) (b₁ b₂ : U64) : Prop :=
  ¬ p.Capped b₁ → p.Capped b₂ → b₁.toNat * p.quote ≤ p.remaining * (p.base - b₁.toNat)

/-- What is paid for the net amount `n₁` is at most what is paid for `n₂`: they are in order
and on the same side of the net amounts whose total fits, or they are not on the same side,
and the one whose total is cast to less still costs more, or less, than the total of the
other. -/
def SpendsInOrder (trading_fee : U64) (n₁ n₂ : ℕ) : Prop :=
  let limit := net_limit trading_fee
  let total := GrossUp.gross trading_fee.toNat FEE_UNIT
  let fee := GrossUp.fee trading_fee.toNat FEE_UNIT
  (n₁ < limit ↔ n₂ < limit) ∧ n₁ ≤ n₂ ∨
    n₁ < limit ∧ limit ≤ n₂ ∧ total n₁ ≤ n₂ + fee (total n₂ - 2 ^ 64) ∨
    limit ≤ n₁ ∧ n₂ < limit ∧ n₁ + fee (total n₁ - 2 ^ 64) ≤ total n₂

section Trades

variable {ms : MainState} {p : PoolState}

theorem ExactTokens.base_le_iff {b₁ b₂ m₁ m₂ : U64} {c₁ c₂ : Purchase}
    (h₁ : ExactTokens ms p b₁ m₁ c₁) (h₂ : ExactTokens ms p b₂ m₂ c₂)
    (hb : b₁.toNat ≤ b₂.toNat) :
    c₁.base_amount.toNat ≤ c₂.base_amount.toNat ↔ p.DeliversInOrder b₁ b₂ := by
  rcases h₂.branch with ⟨hcap₂, hin₂, hpos, hout₂⟩ | ⟨hcap₂, -, hout₂⟩
  · rcases h₁.branch with ⟨hcap₁, hin₁, -, hout₁⟩ | ⟨hcap₁, -, hout₁⟩
    · -- both capped: the same is delivered
      rw [hout₁, hout₂, hin₁, hin₂]
      exact ⟨fun _ hn => absurd hcap₁ hn, fun _ => le_rfl⟩
    · rw [hin₂] at hout₂ hpos
      rw [hout₁, hout₂, ConstantProduct.le_output_iff hpos h₁.below.le]
      exact ⟨fun h _ _ => h, fun h => h hcap₁ hcap₂⟩
  · -- the larger request is delivered in full
    have hle := h₁.base_le
    rw [hout₂]
    exact ⟨fun _ _ hy => absurd hy hcap₂, fun _ => hle.trans hb⟩

/-- What is paid for two net amounts, in the terms of the range. -/
theorem spendsInOrder_iff {trading_fee : U64} {n₁ n₂ : ℕ}
    (htf : 2 * trading_fee.toNat ≤ FEE_UNIT) (hn₁ : n₁ < 2 ^ 64) (hn₂ : n₂ < 2 ^ 64) :
    GrossUp.debit trading_fee.toNat FEE_UNIT (2 ^ 64) n₁ ≤
        GrossUp.debit trading_fee.toNat FEE_UNIT (2 ^ 64) n₂ ↔
      SpendsInOrder trading_fee n₁ n₂ := by
  have hD : 0 < FEE_UNIT := by decide
  have hlt : trading_fee.toNat < FEE_UNIT := by omega
  have hfits : ∀ n, GrossUp.gross trading_fee.toNat FEE_UNIT n < 2 ^ 64 ↔
      n < net_limit trading_fee := fun n => GrossUp.gross_lt_iff hlt
  have hwraps : ∀ n, 2 ^ 64 ≤ GrossUp.gross trading_fee.toNat FEE_UNIT n ↔
      net_limit trading_fee ≤ n := fun n => by rw [← not_lt, hfits, not_lt]
  unfold SpendsInOrder
  by_cases h₁ : n₁ < net_limit trading_fee
  · by_cases h₂ : n₂ < net_limit trading_fee
    · rw [GrossUp.debit_le_iff htf hD hn₁ hn₂ (by rw [hfits, hfits]; exact iff_of_true h₁ h₂)]
      simp [h₁, h₂]
    · rw [GrossUp.debit_of_lt hlt ((hfits n₁).mpr h₁),
        GrossUp.debit_of_le htf hn₂ ((hwraps n₂).mpr (not_lt.mp h₂))]
      simp [h₁, h₂, not_lt.mp h₂]
  · by_cases h₂ : n₂ < net_limit trading_fee
    · rw [GrossUp.debit_of_lt hlt ((hfits n₂).mpr h₂),
        GrossUp.debit_of_le htf hn₁ ((hwraps n₁).mpr (not_lt.mp h₁))]
      simp [h₁, h₂, not_lt.mp h₁]
    · rw [GrossUp.debit_le_iff htf hD hn₁ hn₂ (by rw [hfits, hfits]; exact iff_of_false h₁ h₂)]
      simp [h₁, h₂]

/-- Without a cast in the way what is spent is in order. -/
theorem ExactTokens.spends_in_order {b₁ b₂ m₁ m₂ : U64} {c₁ c₂ : Purchase}
    (h₁ : ExactTokens ms p b₁ m₁ c₁) (h₂ : ExactTokens ms p b₂ m₂ c₂)
    (hb : b₁.toNat ≤ b₂.toNat) (htf : ms.trading_fee.toNat < FEE_UNIT)
    (hr : p.InRange ms.trading_fee b₂) :
    SpendsInOrder ms.trading_fee c₁.input_quote_amount.toNat c₂.input_quote_amount.toNat := by
  obtain ⟨hlt₂, hgross₂⟩ := (h₂.in_range_iff htf).mp hr
  -- the price of the smaller amount is smaller, so it fits too
  have hprice := ConstantProduct.input_mono (X := p.quote) hb h₂.below
  have hle : c₁.input_quote_amount.toNat ≤ c₂.input_quote_amount.toNat := by
    rw [h₁.input, h₂.input, PoolState.charge_of_lt hlt₂,
      PoolState.charge_of_lt (hprice.trans_lt hlt₂)]
    exact min_le_min_right _ hprice
  have hlimit₂ := (GrossUp.gross_lt_iff htf).mp hgross₂
  exact .inl ⟨iff_of_true (hle.trans_lt hlimit₂) hlimit₂, hle⟩

end Trades

/-- Two buys on one pool from the same ledger are made on one state of it. -/
theorem ABuy.Accepts.unique {ctx₁ ctx₂ : ABuy} {ms₁ ms₂ : MainState} {p₁ p₂ : PoolState}
    (h₁ : ctx₁.Accepts l ms₁ p₁) (h₂ : ctx₂.Accepts l ms₂ p₂)
    (hk : ctx₁.pool_state = ctx₂.pool_state) : ms₁ = ms₂ ∧ p₁ = p₂ :=
  ⟨Option.some_inj.mp (h₁.main_state.symm.trans h₂.main_state),
    Option.some_inj.mp (h₁.pool_state.symm.trans (hk ▸ h₂.pool_state))⟩

/-- **When the exact-tokens buy is monotone.** Of two amounts that can be bought from the same
state, the larger one gets at least as much and pays at least as much exactly when the two
are delivered in order and paid for in order, and they are paid for in order whenever the
larger one is in range. -/
theorem exact_tokens_monotone_iff (spl : TokenProgram Pubkey) {l l₁ l₂ : Ledger}
    {ctx₁ ctx₂ : ABuy} {b₁ b₂ m₁ m₂ : U64} (hl : Reachable spl l)
    (hk : ctx₁.pool_state = ctx₂.pool_state) (hb : b₁ ≤ b₂)
    (hok₁ : buy_exact_tokens_from_quote spl ctx₁ b₁ m₁ l = .ok l₁)
    (hok₂ : buy_exact_tokens_from_quote spl ctx₂ b₂ m₂ l = .ok l₂) :
    ∃ ms p c₁ c₂, Bought ctx₁ l l₁ ms p c₁ ∧ Bought ctx₂ l l₂ ms p c₂ ∧
      (c₁.base_amount.toNat ≤ c₂.base_amount.toNat ∧
          c₁.fee.toNat + c₁.input_quote_amount.toNat ≤
            c₂.fee.toNat + c₂.input_quote_amount.toNat ↔
        p.DeliversInOrder b₁ b₂ ∧ SpendsInOrder ms.trading_fee (min (p.charge b₁) p.remaining)
          (min (p.charge b₂) p.remaining)) ∧
      (p.InRange ms.trading_fee b₂ → SpendsInOrder ms.trading_fee
        (min (p.charge b₁) p.remaining) (min (p.charge b₂) p.remaining)) := by
  have hinv := hl.inv
  obtain ⟨ms, p, c₁, hx₁, hb₁⟩ := hinv.exact_tokens_iff.mp hok₁
  obtain ⟨ms', p', c₂, hx₂, hb₂⟩ := hinv.exact_tokens_iff.mp hok₂
  obtain ⟨rfl, rfl⟩ := hb₁.accepts.unique hb₂.accepts hk
  have hpr := hinv.priceable hb₁.accepts.main_state hb₁.accepts.pool_state
  refine ⟨ms, p, c₁, c₂, hb₁, hb₂, ?_, fun hr => ?_⟩
  · rw [hx₁.debit, hx₂.debit, hx₁.base_le_iff hx₂ hb,
      spendsInOrder_iff hpr.valid.two_mul_trading_fee_le c₁.input_quote_amount.isLt
        c₂.input_quote_amount.isLt, hx₁.input, hx₂.input]
  · rw [← hx₁.input, ← hx₂.input]
    exact hx₁.spends_in_order hx₂ hb hpr.trading_fee_lt hr

/-- On a new pool a request for 900000000000000 base tokens is capped, and gets and pays at least
as much as one for 1000, which is not. -/
theorem exact_tokens_monotone_sample : ∃ l l₁ l₂ ms p c₁ c₂, Reachable .reference l ∧
    Bought ⟨bob, DEFAULT_OWNER, coin, QUOTE_MINT⟩ l l₁ ms p c₁ ∧
    Bought ⟨bob, DEFAULT_OWNER, coin, QUOTE_MINT⟩ l l₂ ms p c₂ ∧
    ¬ p.Capped 1000 ∧ p.Capped 900000000000000 ∧
    c₁.base_amount.toNat ≤ c₂.base_amount.toNat ∧
    c₁.fee.toNat + c₁.input_quote_amount.toNat ≤ c₂.fee.toNat + c₂.input_quote_amount.toNat := by
  let buy (b : U64) : Action :=
    .ix (.buy_exact_tokens_from_quote ⟨bob, DEFAULT_OWNER, coin, QUOTE_MINT⟩ b 40000000000000)
  obtain ⟨l, hl, hreach, hms, hp, -⟩ := exists_opened
  obtain ⟨l₁, hstep₁, -⟩ := Runs.exists_step_eq_ok hl (a := buy 1000) (f := fun _ => ()) (b := ())
    (by decide +kernel)
  obtain ⟨l₂, hstep₂, -⟩ := Runs.exists_step_eq_ok hl (a := buy 900000000000000)
    (f := fun _ => ()) (b := ()) (by decide +kernel)
  obtain ⟨ms, p, c₁, c₂, hb₁, hb₂, hiff, hspends⟩ :=
    exact_tokens_monotone_iff .reference hreach rfl (by decide) hstep₁ hstep₂
  obtain rfl := Option.some_inj.mp (hb₁.accepts.main_state.symm.trans hms)
  obtain rfl := Option.some_inj.mp (hb₁.accepts.pool_state.symm.trans hp)
  have hcap₁ : ¬ coin_created.Capped 1000 := by
    unfold PoolState.Capped
    decide
  have hcap₂ : coin_created.Capped 900000000000000 := by
    unfold PoolState.Capped
    decide
  exact ⟨l, l₁, l₂, _, _, c₁, c₂, hreach, hb₁, hb₂, hcap₁, hcap₂, hiff.mpr
    ⟨fun _ _ => by decide, hspends ⟨by decide, .inl (by decide)⟩⟩⟩

/-- Under the default main state 799999999500006 base tokens cost just what remains to the
threshold. Who asks for one more is capped, and the curve gives 6 less for the same. -/
theorem exact_tokens_not_monotone :
    ¬ ∀ (spl : TokenProgram Pubkey) (l l₁ l₂ : Ledger) (ctx₁ ctx₂ : ABuy) (b₁ b₂ m₁ m₂ : U64),
      Reachable spl l → ctx₁.pool_state = ctx₂.pool_state → b₁ ≤ b₂ →
      buy_exact_tokens_from_quote spl ctx₁ b₁ m₁ l = .ok l₁ →
      buy_exact_tokens_from_quote spl ctx₂ b₂ m₂ l = .ok l₂ →
      ∃ ms p c₁ c₂, Bought ctx₁ l l₁ ms p c₁ ∧ Bought ctx₂ l l₂ ms p c₂ ∧
        c₁.base_amount.toNat ≤ c₂.base_amount.toNat ∧
        c₁.fee.toNat + c₁.input_quote_amount.toNat ≤
          c₂.fee.toNat + c₂.input_quote_amount.toNat := by
  intro h
  let ctx : ABuy := ⟨bob, DEFAULT_OWNER, coin, QUOTE_MINT⟩
  let buy (b : U64) : Action := .ix (.buy_exact_tokens_from_quote ctx b 100000000000000)
  obtain ⟨l, hl, hreach, -⟩ := exists_opened
  obtain ⟨l₁, hstep₁, hbal₁⟩ := Runs.exists_step_eq_ok hl (a := buy 799999999500006)
    (f := fun l => l.tokens.balance ctx.buyer_base_ata) (b := 799999999500006) (by decide +kernel)
  obtain ⟨l₂, hstep₂, hbal₂⟩ := Runs.exists_step_eq_ok hl (a := buy 799999999500007)
    (f := fun l => l.tokens.balance ctx.buyer_base_ata) (b := 799999999500000) (by decide +kernel)
  obtain ⟨ms, p, c₁, c₂, hb₁, hb₂, hle, -⟩ :=
    h .reference l l₁ l₂ ctx ctx _ _ _ _ hreach rfl (by decide) hstep₁ hstep₂
  -- what the two bought is what they hold now
  have hfee : ctx.buyer.1 ≠ ctx.fee_recipient := by decide
  have hgot₁ := (hb₁.buyer_balances (by decide) hfee).1
  have hgot₂ := (hb₂.buyer_balances (by decide) hfee).1
  omega

/-! ## The exact-quote buy -/

/-- The exact-quote buy of `q` is capped. -/
def PoolState.QuoteCapped (p : PoolState) (trading_fee q : U64) : Prop :=
  p.real_quote_threshold.toNat <
    p.real_quote_reserves.toNat + GrossUp.net trading_fee.toNat FEE_UNIT q.toNat

/-- A purchase is made of its three amounts. -/
theorem Purchase.Moves.ext {p : PoolState} {c₁ c₂ : Purchase} (h₁ : c₁.Moves p) (h₂ : c₂.Moves p)
    (hbase : c₁.base_amount = c₂.base_amount) (hfee : c₁.fee = c₂.fee)
    (hinput : c₁.input_quote_amount = c₂.input_quote_amount) : c₁ = c₂ := by
  have hb₁ := h₁.base
  have hb₂ := h₂.base
  have hq₁ := h₁.quote
  have hq₂ := h₂.quote
  rw [hbase] at hb₁
  rw [hinput] at hq₁
  have hrb : c₁.pool_state.real_base_reserves = c₂.pool_state.real_base_reserves :=
    BitVec.eq_of_toNat_eq (by omega)
  have hrq : c₁.pool_state.real_quote_reserves = c₂.pool_state.real_quote_reserves :=
    BitVec.eq_of_toNat_eq (by omega)
  have hpool : c₁.pool_state = c₂.pool_state := by
    rw [h₁.only, h₂.only, hrb, hrq]
  calc c₁ = ⟨c₁.pool_state, c₁.base_amount, c₁.fee, c₁.input_quote_amount⟩ := rfl
    _ = c₂ := by rw [hpool, hbase, hfee, hinput]

/-- One purchase in one context leaves one ledger. -/
theorem Bought.unique {ctx : ABuy} {ms : MainState} {p : PoolState} {c : Purchase}
    (h₁ : Bought ctx l l₁ ms p c) (h₂ : Bought ctx l l₂ ms p c) : l₁ = l₂ := by
  have hf₁ : buy_finalize .reference ctx l (ensured l.tokens ctx.opens) c = .ok l₁ :=
    buy_finalize_eq_ok.mpr ⟨⟨h₁.spent, h₁.fits⟩, h₁.settles⟩
  have hf₂ : buy_finalize .reference ctx l (ensured l.tokens ctx.opens) c = .ok l₂ :=
    buy_finalize_eq_ok.mpr ⟨⟨h₂.spent, h₂.fits⟩, h₂.settles⟩
  exact Except.ok.inj (hf₁.symm.trans hf₂)

section Trades

variable {ms : MainState} {p : PoolState} {q₁ q₂ m₁ m₂ : U64} {c₁ c₂ : Purchase}

theorem ExactQuote.input_le (h₁ : ExactQuote ms p q₁ m₁ c₁) (h₂ : ExactQuote ms p q₂ m₂ c₂)
    (htf : ms.trading_fee.toNat < FEE_UNIT) (hq : q₁.toNat ≤ q₂.toNat) :
    c₁.input_quote_amount.toNat ≤ c₂.input_quote_amount.toNat := by
  rw [h₁.input, h₂.input]
  exact min_le_min_right _ (GrossUp.net_mono htf hq)

/-- Offering more gets no less, costs no less, and leaves no less in the pool. -/
theorem ExactQuote.mono (h₁ : ExactQuote ms p q₁ m₁ c₁) (h₂ : ExactQuote ms p q₂ m₂ c₂)
    (htf : ms.trading_fee.toNat < FEE_UNIT) (hq : q₁.toNat ≤ q₂.toNat) :
    c₁.base_amount.toNat ≤ c₂.base_amount.toNat ∧
      c₁.fee.toNat + c₁.input_quote_amount.toNat ≤ c₂.fee.toNat + c₂.input_quote_amount.toNat ∧
      c₁.settled.real_quote_reserves.toNat ≤ c₂.settled.real_quote_reserves.toNat := by
  have hin := h₁.input_le h₂ htf hq
  refine ⟨?_, ?_, ?_⟩
  · rw [h₁.base, h₂.base]
    exact ConstantProduct.output_mono hin
  · rw [h₁.gross, h₂.gross]
    exact min_le_min_right _ hq
  · rw [c₁.settled_real_quote_reserves, c₂.settled_real_quote_reserves, h₁.moves.quote,
      h₂.moves.quote]
    exact Nat.add_le_add_left hin _

/-- A capped buy spends the gross-up of what remains, which is below the offer. -/
theorem ExactQuote.of_capped (h : ExactQuote ms p q₁ m₁ c₁) (hpr : Priceable ms p)
    (hcap : p.QuoteCapped ms.trading_fee q₁) :
    c₁.input_quote_amount.toNat = p.remaining ∧
      c₁.fee.toNat + c₁.input_quote_amount.toNat =
        GrossUp.gross ms.trading_fee.toNat FEE_UNIT p.remaining ∧
      c₁.fee.toNat + c₁.input_quote_amount.toNat < q₁.toNat := by
  have hthr := hpr.quote_le
  have hnet : p.remaining < GrossUp.net ms.trading_fee.toNat FEE_UNIT q₁.toNat := by
    rw [PoolState.QuoteCapped] at hcap
    rw [PoolState.remaining]
    omega
  have hlt := GrossUp.gross_lt_of_lt_net hpr.trading_fee_lt hnet
  rw [h.gross, h.input, min_eq_right hnet.le, min_eq_right hlt.le]
  exact ⟨rfl, rfl, hlt⟩

/-- Two capped buys are one purchase. -/
theorem ExactQuote.eq_of_capped (h₁ : ExactQuote ms p q₁ m₁ c₁) (h₂ : ExactQuote ms p q₂ m₂ c₂)
    (hpr : Priceable ms p) (hcap₁ : p.QuoteCapped ms.trading_fee q₁)
    (hcap₂ : p.QuoteCapped ms.trading_fee q₂) : c₁ = c₂ := by
  obtain ⟨hin₁, hgross₁, -⟩ := h₁.of_capped hpr hcap₁
  obtain ⟨hin₂, hgross₂, -⟩ := h₂.of_capped hpr hcap₂
  have hbase₁ := h₁.base
  have hbase₂ := h₂.base
  rw [hin₁] at hbase₁
  rw [hin₂] at hbase₂
  exact h₁.moves.ext h₂.moves (BitVec.eq_of_toNat_eq (hbase₁.trans hbase₂.symm))
    (BitVec.eq_of_toNat_eq (by omega)) (BitVec.eq_of_toNat_eq (hin₁.trans hin₂.symm))

end Trades

/-- **The exact-quote buy is monotone, and flat past its cap.** -/
theorem exact_quote_monotone (spl : TokenProgram Pubkey) {l l₁ l₂ : Ledger} {ctx₁ ctx₂ : ABuy}
    {q₁ q₂ : U64} (hl : Reachable spl l) (hk : ctx₁.pool_state = ctx₂.pool_state) (hq : q₁ ≤ q₂)
    (hok₁ : buy_tokens_from_exact_quote spl ctx₁ q₁ 0 l = .ok l₁)
    (hok₂ : buy_tokens_from_exact_quote spl ctx₂ q₂ 0 l = .ok l₂) :
    ∃ ms p c₁ c₂, Bought ctx₁ l l₁ ms p c₁ ∧ Bought ctx₂ l l₂ ms p c₂ ∧
      (c₁.base_amount.toNat ≤ c₂.base_amount.toNat ∧
        c₁.fee.toNat + c₁.input_quote_amount.toNat ≤
          c₂.fee.toNat + c₂.input_quote_amount.toNat ∧
        c₁.settled.real_quote_reserves.toNat ≤ c₂.settled.real_quote_reserves.toNat) ∧
      (p.QuoteCapped ms.trading_fee q₁ → p.QuoteCapped ms.trading_fee q₂ →
        c₁ = c₂ ∧ (ctx₁ = ctx₂ → l₁ = l₂) ∧
        c₁.fee.toNat + c₁.input_quote_amount.toNat < q₁.toNat ∧
        c₂.fee.toNat + c₂.input_quote_amount.toNat < q₂.toNat) := by
  have hinv := hl.inv
  obtain ⟨ms, p, c₁, hx₁, hb₁⟩ := hinv.exact_quote_iff.mp hok₁
  obtain ⟨ms', p', c₂, hx₂, hb₂⟩ := hinv.exact_quote_iff.mp hok₂
  obtain ⟨rfl, rfl⟩ := hb₁.accepts.unique hb₂.accepts hk
  have hpr := hinv.priceable hb₁.accepts.main_state hb₁.accepts.pool_state
  refine ⟨ms, p, c₁, c₂, hb₁, hb₂, hx₁.mono hx₂ hpr.trading_fee_lt hq, fun hcap₁ hcap₂ => ?_⟩
  obtain rfl := hx₁.eq_of_capped hx₂ hpr hcap₁ hcap₂
  refine ⟨rfl, ?_, (hx₁.of_capped hpr hcap₁).2.2, (hx₂.of_capped hpr hcap₂).2.2⟩
  rintro rfl
  exact hb₁.unique hb₂

/-- On a new pool offers of 40000000000000 and 50000000000000 quote tokens are both capped. They
get the same, leave the same ledger, and spend less than the smaller of the two. -/
theorem exact_quote_monotone_sample : ∃ l l' ms p c, Reachable .reference l ∧
    buy_tokens_from_exact_quote .reference ⟨bob, DEFAULT_OWNER, coin, QUOTE_MINT⟩ 40000000000000 0
      l = .ok l' ∧
    buy_tokens_from_exact_quote .reference ⟨bob, DEFAULT_OWNER, coin, QUOTE_MINT⟩ 50000000000000 0
      l = .ok l' ∧
    Bought ⟨bob, DEFAULT_OWNER, coin, QUOTE_MINT⟩ l l' ms p c ∧
    c.fee.toNat + c.input_quote_amount.toNat < 40000000000000 := by
  let buy (q : U64) : Action :=
    .ix (.buy_tokens_from_exact_quote ⟨bob, DEFAULT_OWNER, coin, QUOTE_MINT⟩ q 0)
  obtain ⟨l, hl, hreach, hms, hp, -⟩ := exists_opened
  obtain ⟨l₁, hstep₁, -⟩ := Runs.exists_step_eq_ok hl (a := buy 40000000000000)
    (f := fun _ => ()) (b := ()) (by decide +kernel)
  obtain ⟨l₂, hstep₂, -⟩ := Runs.exists_step_eq_ok hl (a := buy 50000000000000)
    (f := fun _ => ()) (b := ()) (by decide +kernel)
  obtain ⟨ms, p, c₁, c₂, hb₁, hb₂, -, hflat⟩ :=
    exact_quote_monotone .reference hreach rfl (by decide) hstep₁ hstep₂
  obtain rfl := Option.some_inj.mp (hb₁.accepts.main_state.symm.trans hms)
  obtain rfl := Option.some_inj.mp (hb₁.accepts.pool_state.symm.trans hp)
  obtain ⟨rfl, hsame, hlt, -⟩ := hflat (by unfold PoolState.QuoteCapped; decide)
    (by unfold PoolState.QuoteCapped; decide)
  obtain rfl := hsame rfl
  exact ⟨l, l₁, _, _, c₁, hreach, hstep₁, hstep₂, hb₁, hlt⟩

end AliPumpFun
