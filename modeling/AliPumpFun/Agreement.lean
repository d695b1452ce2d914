/-
The two buys, side by side.

One buy goes from gross to net by deducting a fee, the other from net to gross by grossing
up. The two floors cancel, so offering the exact-quote buy just what the exact-tokens buy
charged puts the same amount into the pool for the same fee. Only the base tokens may
differ, since the exact-tokens buy rounds their price down, and when it was capped not even
those.
-/
import AliPumpFun.Monotone

set_option autoImplicit false

open Words Fallible

namespace AliPumpFun

variable {spl : TokenProgram Pubkey} {l l₁ l₂ : Ledger}

/-! ## Gross and net -/

/-- The two functions of `utils.rs`, at an accepted rate and as long as the total fits. -/
theorem calculate_total_amount_adjoint {fee n t : U64} (hfee : fee.toNat < FEE_UNIT)
    (hn : GrossUp.gross fee.toNat FEE_UNIT n.toNat < 2 ^ 64) :
    ∃ f total f', calculate_trading_fee fee t = .ok f ∧
      calculate_total_amount fee n = .ok total ∧ calculate_trading_fee fee total = .ok f' ∧
      f.toNat ≤ t.toNat ∧ f'.toNat ≤ total.toNat ∧
      (t.toNat - f.toNat ≤ n.toNat ↔ t.toNat ≤ total.toNat) ∧
      total.toNat - f'.toNat = n.toNat := by
  obtain ⟨-, f, hf, hfv⟩ := Call.trading_fee_exact (n := t) hfee.le
  obtain ⟨-, total, htotal, htv⟩ := (Call.total_amount_exact_iff hfee).mpr hn
  obtain ⟨-, f', hf', hfv'⟩ := Call.trading_fee_exact (n := total) hfee.le
  change f.toNat = GrossUp.fee fee.toNat FEE_UNIT t.toNat at hfv
  change total.toNat = GrossUp.gross fee.toNat FEE_UNIT n.toNat at htv
  change f'.toNat = GrossUp.fee fee.toNat FEE_UNIT total.toNat at hfv'
  refine ⟨f, total, f', hf, htotal, hf', ?_, ?_, ?_, ?_⟩
  · rw [hfv]
    exact GrossUp.fee_le hfee.le _
  · rw [hfv']
    exact GrossUp.fee_le hfee.le _
  · rw [hfv, htv]
    exact GrossUp.gc hfee t.toNat n.toNat
  · rw [hfv', htv]
    exact GrossUp.net_gross hfee n.toNat

section Trades

variable {ms : MainState} {p : PoolState} {c : Purchase}

/-- A pool that a purchase of what remains leaves is filled to the unit. -/
theorem Purchase.settled_full (h : c.Moves p)
    (hthr : p.real_quote_reserves.toNat ≤ p.real_quote_threshold.toNat)
    (hin : c.input_quote_amount.toNat = p.remaining) :
    c.settled.real_quote_reserves = p.real_quote_threshold := by
  apply BitVec.eq_of_toNat_eq
  rw [c.settled_real_quote_reserves, h.quote, hin, PoolState.remaining]
  omega

theorem ExactQuote.fills {q m : U64} (h : ExactQuote ms p q m c) (hpr : Priceable ms p)
    (hcap : p.QuoteCapped ms.trading_fee q) :
    c.settled.real_quote_reserves = p.real_quote_threshold :=
  Purchase.settled_full h.moves hpr.quote_le (h.of_capped hpr hcap).1

theorem ExactTokens.fills {b m : U64} (h : ExactTokens ms p b m c) (hpr : Priceable ms p)
    (hcap : p.Capped b) : c.settled.real_quote_reserves = p.real_quote_threshold := by
  rcases h.branch with ⟨-, hin, -⟩ | ⟨hn, -⟩
  · exact Purchase.settled_full h.moves hpr.quote_le hin
  · exact absurd hcap hn

/-- The total that is checked: within the limit, and fee and input together if it fits. -/
theorem ExactTokens.exists_total {b m : U64} (h : ExactTokens ms p b m c)
    (htf : ms.trading_fee.toNat < FEE_UNIT) :
    ∃ total, calculate_total_amount ms.trading_fee c.input_quote_amount = .ok total ∧
      total ≤ m ∧
      (GrossUp.gross ms.trading_fee.toNat FEE_UNIT c.input_quote_amount.toNat < 2 ^ 64 →
        total.toNat = c.fee.toNat + c.input_quote_amount.toNat) := by
  obtain ⟨total, htotal, hval⟩ := Call.exists_total_amount htf c.input_quote_amount
  refine ⟨total, htotal, ?_, fun hlt => ?_⟩
  · rw [BitVec.le_def, hval]
    exact h.within
  · rw [hval, h.debit, GrossUp.debit_of_lt htf hlt]
    exact Nat.mod_eq_of_lt hlt

end Trades

/-- **Gross-up is the exact adjoint of fee deduction**, for every accepted rate and every
amount whose gross-up fits 64 bits. So a capped buy of either kind fills the pool to the
unit, and the total that the exact-tokens buy checks is the fee and the input together. -/
theorem gross_up_adjoint (spl : TokenProgram Pubkey) :
    (∀ fee n t : U64, fee ≤ MAX_TRADING_FEE →
      n.toNat * 100000 / (100000 - fee.toNat) < 2 ^ 64 →
      ∃ f total f', calculate_trading_fee fee t = .ok f ∧
        calculate_total_amount fee n = .ok total ∧ calculate_trading_fee fee total = .ok f' ∧
        f.toNat ≤ t.toNat ∧ f'.toNat ≤ total.toNat ∧
        (t.toNat - f.toNat ≤ n.toNat ↔ t.toNat ≤ total.toNat) ∧
        total.toNat - f'.toNat = n.toNat) ∧
    (∀ (l l' : Ledger) (ctx : ABuy) (q m : U64) (ms : MainState) (p : PoolState),
      Reachable spl l → l.main_state = some ms → l.pools.lookup ctx.pool_state = some p →
      buy_tokens_from_exact_quote spl ctx q m l = .ok l' → p.QuoteCapped ms.trading_fee q →
      ∃ p', l'.pools.lookup ctx.pool_state = some p' ∧
        p'.real_quote_reserves = p.real_quote_threshold) ∧
    ∀ (l l' : Ledger) (ctx : ABuy) (b m : U64) (ms : MainState) (p : PoolState),
      Reachable spl l → l.main_state = some ms → l.pools.lookup ctx.pool_state = some p →
      buy_exact_tokens_from_quote spl ctx b m l = .ok l' →
      (p.Capped b → ∃ p', l'.pools.lookup ctx.pool_state = some p' ∧
        p'.real_quote_reserves = p.real_quote_threshold) ∧
      ∃ c total, Bought ctx l l' ms p c ∧
        calculate_total_amount ms.trading_fee c.input_quote_amount = .ok total ∧ total ≤ m ∧
        (c.input_quote_amount.toNat * 100000 / (100000 - ms.trading_fee.toNat) < 2 ^ 64 →
          total.toNat = c.fee.toNat + c.input_quote_amount.toNat) := by
  refine ⟨?_, ?_, ?_⟩
  · intro fee n t hfee hn
    have hlt : fee.toNat < FEE_UNIT := by
      have hle := BitVec.le_def.mp hfee
      rw [MAX_TRADING_FEE_toNat] at hle
      unfold FEE_UNIT
      omega
    exact calculate_total_amount_adjoint hlt hn
  · intro l l' ctx q m ms p hl hms hp hok hcap
    have hinv := hl.inv
    obtain ⟨ms', p', c, hx, hb⟩ := hinv.exact_quote_iff.mp hok
    obtain rfl := Option.some_inj.mp (hms.symm.trans hb.accepts.main_state)
    obtain rfl := Option.some_inj.mp (hp.symm.trans hb.accepts.pool_state)
    exact ⟨c.settled, hb.settles.lookup_self, hx.fills (hinv.priceable hms hp) hcap⟩
  · intro l l' ctx b m ms p hl hms hp hok
    have hinv := hl.inv
    have hpr := hinv.priceable hms hp
    obtain ⟨ms', p', c, hx, hb⟩ := hinv.exact_tokens_iff.mp hok
    obtain rfl := Option.some_inj.mp (hms.symm.trans hb.accepts.main_state)
    obtain rfl := Option.some_inj.mp (hp.symm.trans hb.accepts.pool_state)
    obtain ⟨total, htotal, hwithin, hsum⟩ := hx.exists_total hpr.trading_fee_lt
    exact ⟨fun hcap => ⟨c.settled, hb.settles.lookup_self, hx.fills hpr hcap⟩,
      c, total, hb, htotal, hwithin, hsum⟩

/-- At 1% a net amount of 100 is grossed up to 101, of which the fee is 1. -/
theorem gross_up_adjoint_sample : ∃ f total f' : U64,
    calculate_trading_fee 1000 101 = .ok f ∧ calculate_total_amount 1000 100 = .ok total ∧
      calculate_trading_fee 1000 total = .ok f' ∧
      ((101 : U64).toNat - f.toNat ≤ 100 ↔ (101 : U64).toNat ≤ total.toNat) ∧
      total.toNat - f'.toNat = 100 := by
  obtain ⟨f, total, f', hf, ht, hf', -, -, hiff, heq⟩ :=
    (gross_up_adjoint .reference).1 1000 100 101 (by decide) (by decide)
  exact ⟨f, total, f', hf, ht, hf', hiff, heq⟩

/-! ## The gross charge, offered -/

section Trades

variable {ms : MainState} {p : PoolState} {b m t : U64} {c c' : Purchase}

/-- An exact-quote buy of the gross charge of an exact-tokens buy pays the same fee and puts
the same amount into the pool. -/
theorem ExactTokens.same_quote (h : ExactTokens ms p b m c) (h' : ExactQuote ms p t 0 c')
    (htf : ms.trading_fee.toNat < FEE_UNIT)
    (hlt : GrossUp.gross ms.trading_fee.toNat FEE_UNIT c.input_quote_amount.toNat < 2 ^ 64)
    (ht : t.toNat = GrossUp.gross ms.trading_fee.toNat FEE_UNIT c.input_quote_amount.toNat) :
    c'.fee = c.fee ∧ c'.input_quote_amount = c.input_quote_amount := by
  have hle := h.buys.input_le
  have hdebit := h.debit
  rw [GrossUp.debit_of_lt htf hlt] at hdebit
  have hin := h'.input
  rw [ht, GrossUp.net_gross htf, min_eq_left hle] at hin
  have hgross := h'.gross
  rw [ht, min_eq_left ((GrossUp.gross_strictMono htf).monotone hle)] at hgross
  exact ⟨BitVec.eq_of_toNat_eq (by omega), BitVec.eq_of_toNat_eq hin⟩

theorem ExactTokens.not_quoteCapped (h : ExactTokens ms p b m c) (hpr : Priceable ms p)
    (ht : t.toNat = GrossUp.gross ms.trading_fee.toNat FEE_UNIT c.input_quote_amount.toNat) :
    ¬ p.QuoteCapped ms.trading_fee t := by
  have hle := h.buys.input_le
  have hthr := hpr.quote_le
  rw [PoolState.remaining] at hle
  rw [PoolState.QuoteCapped, ht, GrossUp.net_gross hpr.trading_fee_lt]
  omega

/-- A capped exact-tokens buy is the exact-quote buy of its gross charge. -/
theorem ExactTokens.exact_quote (h : ExactTokens ms p b m c) (hcap : p.Capped b)
    (htf : ms.trading_fee.toNat < FEE_UNIT)
    (hlt : GrossUp.gross ms.trading_fee.toNat FEE_UNIT c.input_quote_amount.toNat < 2 ^ 64)
    (ht : t.toNat = GrossUp.gross ms.trading_fee.toNat FEE_UNIT c.input_quote_amount.toNat)
    (hpos : 0 < t.toNat) : ExactQuote ms p t 0 c := by
  have hnet := GrossUp.net_gross htf c.input_quote_amount.toNat
  rw [← ht] at hnet
  have hdebit := h.debit
  rw [GrossUp.debit_of_lt htf hlt, ← ht] at hdebit
  rcases h.branch with ⟨-, hin, hpriced, hout⟩ | ⟨hn, -⟩
  · exact {
      amount_pos := hpos
      incomplete := h.incomplete
      sum_fits := by
        rw [hnet, ← h.moves.quote]
        exact c.pool_state.real_quote_reserves.isLt
      fits := h.fits
      priced := hpriced
      moves := h.moves
      input := by rw [hnet, hin, min_self]
      gross := by rw [hdebit, ← hin, ← ht, min_self]
      base := hout
      enough := Nat.zero_le _ }
  · exact absurd hcap hn

/-- The quote side decides whether a purchase completes the pool. -/
theorem Purchase.Buys.complete_eq (h : c.Buys p) (h' : c'.Buys p)
    (hin : c'.input_quote_amount = c.input_quote_amount) :
    c'.settled.real_quote_reserves = c.settled.real_quote_reserves ∧
      c'.settled.complete = c.settled.complete := by
  have hq : c'.pool_state.real_quote_reserves.toNat = c.pool_state.real_quote_reserves.toNat := by
    rw [h.moves.quote, h'.moves.quote, hin]
  constructor
  · rw [c.settled_real_quote_reserves, c'.settled_real_quote_reserves]
    exact BitVec.eq_of_toNat_eq hq
  · rw [Bool.eq_iff_iff, c.settled_complete (h.moves.only.complete.trans h.incomplete),
      c'.settled_complete (h'.moves.only.complete.trans h'.incomplete), hq,
      h.moves.only.terms.real_quote_threshold, h'.moves.only.terms.real_quote_threshold]

end Trades

/-- **The two buys agree.** Take an exact-tokens buy whose gross charge `t` is positive and
fits 64 bits. The exact-quote buy of `t` from the same state, if it succeeds, is not capped,
pays the same fee and the same input, and leaves the same quote reserves and flag. If the
exact-tokens buy was capped, whoever has `t` can make it, and it is the same purchase. -/
theorem two_buys_agree (spl : TokenProgram Pubkey) {l l₁ : Ledger} {ctx : ABuy} {b m : U64}
    (hl : Reachable spl l) (hok : buy_exact_tokens_from_quote spl ctx b m l = .ok l₁) :
    ∃ ms p c t, price_exact_tokens ms p b m = .ok c ∧ Bought ctx l l₁ ms p c ∧
      calculate_total_amount ms.trading_fee c.input_quote_amount = .ok t ∧
      (0 < t.toNat →
        c.input_quote_amount.toNat * 100000 / (100000 - ms.trading_fee.toNat) < 2 ^ 64 →
        (∀ ctx' l₂, ctx'.pool_state = ctx.pool_state →
          buy_tokens_from_exact_quote spl ctx' t 0 l = .ok l₂ →
          ∃ c', Bought ctx' l l₂ ms p c' ∧ ¬ p.QuoteCapped ms.trading_fee t ∧
            c'.fee = c.fee ∧ c'.input_quote_amount = c.input_quote_amount ∧
            c'.settled.real_quote_reserves = c.settled.real_quote_reserves ∧
            c'.settled.complete = c.settled.complete) ∧
        (p.Capped b → ∀ ctx', ctx'.pool_state = ctx.pool_state →
          ctx'.fee_recipient = ms.fee_recipient →
          t.toNat ≤ l.tokens.balance ctx'.buyer_quote_ata →
          ∃ l₂, buy_tokens_from_exact_quote spl ctx' t 0 l = .ok l₂ ∧
            Bought ctx' l l₂ ms p c ∧ (ctx' = ctx → l₂ = l₁))) := by
  have hinv := hl.inv
  obtain ⟨ms, p, c, hc, hb⟩ := (buy_exact_tokens_from_quote_eq_ok hinv.ata).mp hok
  have hx := hinv.exact_tokens hb.accepts hc
  have hpr := hinv.priceable hb.accepts.main_state hb.accepts.pool_state
  have htf := hpr.trading_fee_lt
  obtain ⟨t, ht, hval⟩ := Call.exists_total_amount htf c.input_quote_amount
  refine ⟨ms, p, c, t, hc, hb, ht, fun hpos hlt => ?_⟩
  change GrossUp.gross ms.trading_fee.toNat FEE_UNIT c.input_quote_amount.toNat < 2 ^ 64 at hlt
  rw [Nat.mod_eq_of_lt hlt] at hval
  constructor
  · intro ctx' l₂ hk hok'
    obtain ⟨ms', p', c', hx', hb'⟩ := hinv.exact_quote_iff.mp hok'
    obtain ⟨rfl, rfl⟩ := hb.accepts.unique hb'.accepts hk.symm
    obtain ⟨hfee, hin⟩ := hx.same_quote hx' htf hlt hval
    obtain ⟨hrq, hcomplete⟩ := hx.buys.complete_eq hx'.buys hin
    exact ⟨c', hb', hx.not_quoteCapped hpr hval, hfee, hin, hrq, hcomplete⟩
  · intro hcap ctx' hk hfee hfunds
    have ha : ctx'.Accepts l ms p :=
      hinv.accepts_buy hb.accepts.main_state hfee (hk ▸ hb.accepts.pool_state)
    have hx' := hx.exact_quote hcap htf hlt hval hpos
    obtain ⟨l₂, hb'⟩ := hx.buys.exists_bought hinv ha hb.fits (by
      rw [hx.debit, GrossUp.debit_of_lt htf hlt, ← hval]
      exact hfunds)
    refine ⟨l₂, hinv.exact_quote_iff.mpr ⟨ms, p, c, hx', hb'⟩, hb', ?_⟩
    rintro rfl
    exact hb'.unique hb

/-- Under the default main state a request for 799999999500007 base tokens is capped. Offering
its gross charge of 30303030303030 instead leaves the same ledger. -/
theorem two_buys_agree_sample : ∃ l l' : Ledger, Reachable .reference l ∧
    buy_exact_tokens_from_quote .reference ⟨bob, DEFAULT_OWNER, coin, QUOTE_MINT⟩
      799999999500007 100000000000000 l = .ok l' ∧
    buy_tokens_from_exact_quote .reference ⟨bob, DEFAULT_OWNER, coin, QUOTE_MINT⟩
      30303030303030 0 l = .ok l' := by
  let ctx : ABuy := ⟨bob, DEFAULT_OWNER, coin, QUOTE_MINT⟩
  obtain ⟨l, hl, hreach, hms, hp, hbal⟩ := exists_opened
  obtain ⟨l', hstep, -⟩ := Runs.exists_step_eq_ok hl
    (a := .ix (.buy_exact_tokens_from_quote ctx 799999999500007 100000000000000))
    (f := fun _ => ()) (b := ()) (by decide +kernel)
  obtain ⟨ms, p, c, t, hc, hb, ht, hagree⟩ := two_buys_agree .reference hreach hstep
  obtain rfl := Option.some_inj.mp (hb.accepts.main_state.symm.trans hms)
  obtain rfl := Option.some_inj.mp (hb.accepts.pool_state.symm.trans hp)
  -- what remains goes into the pool, and its gross charge is known
  obtain ⟨c', hc', hin⟩ := exists_eq_ok (x := price_exact_tokens (.initial DEFAULT_OWNER)
    coin_created 799999999500007 100000000000000) (f := Purchase.input_quote_amount)
    (b := 30000000000000) (by decide +kernel)
  obtain rfl := Except.ok.inj (hc.symm.trans hc')
  rw [hin, show calculate_total_amount (MainState.initial DEFAULT_OWNER).trading_fee 30000000000000
    = .ok 30303030303030 by decide +kernel] at ht
  obtain rfl := Except.ok.inj ht
  have hcap : coin_created.Capped 799999999500007 := by
    unfold PoolState.Capped
    decide
  obtain ⟨l₂, hok, -, heq⟩ := (hagree (by decide) (by rw [hin]; decide)).2 hcap ctx rfl rfl (by
    rw [show ctx.buyer_quote_ata = .ata bob.1 QUOTE_MINT from rfl, hbal]
    decide)
  obtain rfl := heq rfl
  exact ⟨l, l₂, hreach, hstep, hok⟩

end AliPumpFun
