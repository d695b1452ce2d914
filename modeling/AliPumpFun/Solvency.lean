/-
What the curve can pay out.

A pool prices with virtual reserves it does not own, so a price can be more than the real
reserves hold. Whether it is, is a matter of the product: every output up to a point is
payable exactly when the product has not fallen too far below what it was at the creation
(selling), or was not too small for the threshold from the start (buying what remains).
-/
import AliPumpFun.Product

set_option autoImplicit false

open Words Fallible

namespace AliPumpFun

variable {spl : TokenProgram Pubkey} {l l' : Ledger} {a : Action}

/-! ## Selling -/

/-- The sells of up to `n` base tokens can be paid out of the real quote reserves. -/
def PoolState.Solvent (p : PoolState) (n : ℕ) : Prop :=
  ∀ s : U64, 1 ≤ s.toNat → s.toNat ≤ n →
    ∃ g, p.compute_receivable_amount_on_sell s = .ok g ∧
      g.toNat ≤ p.real_quote_reserves.toNat

/-- A pool can pay for all that brings it back to `p₁` exactly when its product is less than
`p₁`'s total base reserves below `p₁`'s product. -/
theorem PoolState.solvent_iff {p₁ p : PoolState} (hterms : p₁.SameTerms p) (hfits : p.Fits)
    (hv : 0 < p.virt_quote_reserves.toNat) (hb : 0 < p.virt_base_reserves.toNat) :
    p.Solvent (p₁.real_base_reserves.toNat - p.real_base_reserves.toNat) ↔
      p₁.virt_quote_reserves.toNat * p₁.base < p₁.base + p.product := by
  have hB : p.base = p.virt_base_reserves.toNat + p.real_base_reserves.toNat := rfl
  have hQ : p.quote = p.virt_quote_reserves.toNat + p.real_quote_reserves.toNat := rfl
  have hB₁ : p₁.base = p.virt_base_reserves.toNat + p₁.real_base_reserves.toNat := by
    rw [PoolState.base, hterms.virt_base_reserves]
  rw [← hterms.virt_quote_reserves, PoolState.product]
  constructor
  · intro h
    by_cases hlt : p.real_base_reserves.toNat < p₁.real_base_reserves.toNat
    · -- sell everything that is out
      obtain ⟨s, hs⟩ : ∃ s : U64, s.toNat =
          p₁.real_base_reserves.toNat - p.real_base_reserves.toNat :=
        exists_toNat_eq.mpr (lt_of_le_of_lt (Nat.sub_le _ _) p₁.real_base_reserves.isLt)
      obtain ⟨g, hg, hle⟩ := h s (by omega) hs.le
      obtain ⟨-, hpos, hgv⟩ := PoolState.compute_receivable_amount_on_sell_eq_ok.mp hg
      rw [hgv, hQ, ConstantProduct.output_le_real_iff hpos, ← hQ] at hle
      rw [show p.base + s.toNat = p₁.base by omega] at hle
      exact hle
    · -- nothing is out
      have hle : p₁.base ≤ p.base := by omega
      have hmul := Nat.mul_le_mul hle (show p.virt_quote_reserves.toNat ≤ p.quote by omega)
      rw [Nat.mul_comm]
      omega
  · intro h s hs1 hsn
    have hpos : 0 < p.base + s.toNat := by omega
    obtain ⟨g, hg⟩ : ∃ g : U64, g.toNat = ConstantProduct.output s.toNat p.base p.quote :=
      exists_toNat_eq.mpr ((ConstantProduct.output_le _ _ _).trans_lt hfits.quote)
    refine ⟨g, PoolState.compute_receivable_amount_on_sell_eq_ok.mpr ⟨hfits, hpos, hg⟩, ?_⟩
    rw [hg, hQ, ConstantProduct.output_le_real_iff hpos, ← hQ]
    -- the bound is the weaker the less is sold
    obtain ⟨d, hd⟩ : ∃ d, p₁.base = p.base + s.toNat + d := ⟨p₁.base - (p.base + s.toNat), by omega⟩
    rw [hd] at h
    have := Nat.mul_le_mul_right d hv
    nlinarith

/-- **When sellers can be paid.** In every state a run from a pool's creation leads to, as
long as the pool is incomplete, it can pay for all the base tokens that are out exactly when
its product is less than the first total base reserves below the first product. This is so
in every run whose trades on the pool are exactly priced. -/
theorem sell_solvency (spl : TokenProgram Pubkey) {l₀ l₁ l : Ledger} {ctx : ACreatePool}
    {as : List Action} {p₁ p : PoolState} (hl₀ : Reachable spl l₀)
    (hcreate : create_pool spl ctx l₀ = .ok l₁) (hp₁ : l₁.pools.lookup ctx.pool_state = some p₁)
    (hrun : Runs.run (step spl) l₁ as = .ok l) (hp : l.pools.lookup ctx.pool_state = some p)
    (hopen : p.complete = false) :
    (p.Solvent (p₁.real_base_reserves.toNat - p.real_base_reserves.toNat) ↔
      p₁.virt_quote_reserves.toNat * p₁.base < p₁.base + p.product) ∧
    (ExactlyPriced spl ctx.pool_state l₁ as →
      p.Solvent (p₁.real_base_reserves.toNat - p.real_base_reserves.toNat)) := by
  have hinv₁ : Inv l₁ := hl₀.inv.step (a := .ix (.create_pool ctx)) hcreate
  have hinv : Inv l := hinv₁.run hrun
  have hpi := hinv.pools _ p hp
  obtain ⟨p', hp', hterms, -⟩ := run_pool hinv₁ hrun hp₁
  obtain rfl := Option.some_inj.mp (hp.symm.trans hp')
  have hiff := PoolState.solvent_iff hterms (hpi.fits hinv) hpi.virt_quote hpi.virt_base
  refine ⟨hiff, fun hx => hiff.mpr ?_⟩
  -- the product has not fallen since the creation
  have hw := not_withdrawn_of_incomplete hinv₁ hrun hp hopen
  have hle := run_product_le hinv₁ hrun hp₁ hp hw hx
  obtain ⟨ms, mint, hc⟩ := (create_pool_eq_ok hl₀.inv.ata).mp hcreate
  obtain rfl := Option.some_inj.mp (hp₁.symm.trans hc.settles.lookup_self)
  have hq₁ : (ctx.initial ms).quote = (ctx.initial ms).virt_quote_reserves.toNat := rfl
  have hpos : 0 < (ctx.initial ms).base :=
    Nat.add_pos_left (hinv₁.pools _ _ hp₁).virt_base _
  rw [PoolState.product, hq₁, Nat.mul_comm] at hle
  omega

/-- After `bob` has bought for 1000 quote tokens, his 105599 base tokens can be sold. -/
theorem sell_solvency_sample : ∃ (l : Ledger) (p : PoolState), Reachable .reference l ∧
    l.pools.lookup coin_pool = some p ∧ p.Solvent 105599 := by
  let buy : Instruction :=
    .buy_tokens_from_exact_quote ⟨bob, DEFAULT_OWNER, coin, QUOTE_MINT⟩ 1000 0
  obtain ⟨l₀, l₁, l, hl₀, hcreate, hl₁, hp₁, hrun, hp⟩ := exists_opening [.ix buy]
    (p := { coin_created with real_base_reserves := TOTAL_SUPPLY - 105599,
                              real_quote_reserves := 990 }) (by decide +kernel)
  refine ⟨l, _, hl₁.run hrun, hp, (sell_solvency .reference hl₀ hcreate hp₁ hrun hp rfl).2 ?_⟩
  -- the only trade of the run is an exact-quote buy
  rintro done i rest m p has - - -
  obtain rfl : i = buy := by
    have : Action.ix i ∈ [Action.ix buy] := by simp [has]
    simpa using this
  trivial

/-- Under the default main state two base amounts of 106, each bought for nothing, sell
together for one quote token that the pool does not have. -/
theorem solvency_fails :
    ¬ ∀ (spl : TokenProgram Pubkey) (l₀ l₁ l : Ledger) (ctx : ACreatePool) (as : List Action)
      (p₁ p : PoolState), Reachable spl l₀ → create_pool spl ctx l₀ = .ok l₁ →
      l₁.pools.lookup ctx.pool_state = some p₁ → Runs.run (step spl) l₁ as = .ok l →
      l.pools.lookup ctx.pool_state = some p → p.complete = false →
      p.Solvent (p₁.real_base_reserves.toNat - p.real_base_reserves.toNat) := by
  intro h
  let buy : Action := .ix
    (.buy_exact_tokens_from_quote ⟨bob, DEFAULT_OWNER, coin, QUOTE_MINT⟩ 106 0)
  obtain ⟨l₀, l₁, l, hl₀, hcreate, -, hp₁, hrun, hp⟩ := exists_opening [buy, buy]
    (p := { coin_created with real_base_reserves := TOTAL_SUPPLY - 212 }) (by decide +kernel)
  obtain ⟨g, hg, hle⟩ := h .reference l₀ l₁ l _ _ _ _ hl₀ hcreate hp₁ hrun hp rfl 212 (by decide)
    (by decide)
  rw [show g = 1 from Except.ok.inj (hg.symm.trans (by decide +kernel))] at hle
  exact absurd hle (by decide)

/-! ## Buying what remains -/

/-- A context for a pool that exists passes the account checks. -/
theorem Inv.accepts_buy {ctx : ABuy} {ms : MainState} {p : PoolState} (hinv : Inv l)
    (hms : l.main_state = some ms) (hfee : ctx.fee_recipient = ms.fee_recipient)
    (hp : l.pools.lookup ctx.pool_state = some p) : ctx.Accepts l ms p := by
  obtain ⟨hb, hq⟩ := hinv.mints_of_pool hp
  have hpi := hinv.pools _ p hp
  have haddr := hinv.address _ p hp
  refine ⟨hms, hfee, hp, ?_, hb, ?_, hq, ?_, ?_⟩
  · rw [hb]
    exact hpi.base_minted
  · rw [hq]
    exact hpi.quote_minted
  · rw [mem_ensured, ABuy.reserver_base_ata, haddr, hb]
    exact .inl hpi.reserver_base
  · rw [mem_ensured, ABuy.reserver_quote_ata, haddr, hq]
    exact .inl hpi.reserver_quote

/-- The payments of a buy go between accounts that exist, each to one of its mint. -/
theorem ABuy.Accepts.payable {ctx : ABuy} {ms : MainState} {p : PoolState}
    (h : ctx.Accepts l ms p) (hwf : AtaWf l.tokens) (c : Purchase) :
    ∀ x ∈ ctx.payments c, (ensured l.tokens ctx.opens).Payable x := by
  have hopen : ∀ om ∈ ctx.opens, .ata om.1 om.2 ∈ ensured l.tokens ctx.opens :=
    fun _ => ata_mem_ensured
  have hfq := hopen (ctx.fee_recipient, ctx.quote_mint) (by simp [opens])
  have hbb := hopen (ctx.buyer.1, ctx.base_mint) (by simp [opens])
  have hbq := hopen (ctx.buyer.1, ctx.quote_mint) (by simp [opens])
  intro x hx
  simp only [payments, List.mem_cons, List.not_mem_nil, or_false] at hx
  rcases hx with rfl | rfl | rfl
  · exact hwf.ensured.payable hbq hfq
  · exact hwf.ensured.payable hbq h.reserver_quote
  · exact hwf.ensured.payable h.reserver_base hbb

/-- A decided purchase goes through: the buyer has the gross amount, and the pool the
tokens. -/
theorem Purchase.Buys.exists_bought {ctx : ABuy} {ms : MainState} {p : PoolState} {c : Purchase}
    (h : c.Buys p) (hinv : Inv l) (ha : ctx.Accepts l ms p) (hfits : c.pool_state.Fits)
    (hfunds : c.fee.toNat + c.input_quote_amount.toNat ≤ l.tokens.balance ctx.buyer_quote_ata) :
    ∃ l', Bought ctx l l' ms p c := by
  have hbase := h.base_le hinv ha
  have hbuyer : l.tokens.balance ctx.buyer_quote_ata < 2 ^ 64 := Bank.balance_lt _ _
  obtain ⟨t, ht⟩ := Bank.exists_paid (ha.payable hinv.ata c) (hinv.total_lt ctx.opens) <| by
    intro x
    have hne : ctx.buyer_quote_ata ≠ ctx.reserver_base_ata := by
      simp [ABuy.buyer_quote_ata, ABuy.reserver_base_ata, ABuy.pool_state]
    simp only [Bank.outgoing, ABuy.payments, List.map_cons, List.map_nil, List.sum_cons,
      List.sum_nil, balance_ensured]
    by_cases h1 : x = ctx.buyer_quote_ata
    · rw [if_pos h1, if_pos h1, if_neg (by rw [h1]; exact hne), h1]
      omega
    · rw [if_neg h1, if_neg h1]
      split
      · rename_i h2
        rw [h2]
        omega
      · omega
  exact ⟨{ l with
    tokens := t
    pools := l.pools.insert ctx.pool_state c.settled
    events := l.events ++ c.events ctx.buyer.1 l.unix_timestamp },
    ha, by omega, hfits, ht, rfl⟩

/-- What a wallet holds of a mint and what backs a pool fit 64 bits together. -/
theorem PoolInv.quote_add_balance_lt {p : PoolState} (hpi : PoolInv l p) (hinv : Inv l)
    (s : Signer) :
    p.real_quote_reserves.toNat + l.tokens.balance (.ata s.1 p.quote_mint) < 2 ^ 64 := by
  have hb := hpi.backed_quote
  obtain ⟨n, hn⟩ := hinv.ata.exists_lookup hpi.reserver_quote
  have htotal := hinv.conserved p.quote_mint
  have hlt := l.supply_lt p.quote_mint
  by_cases hk : Pubkey.ata s.1 p.quote_mint ∈ l.tokens
  · obtain ⟨n', hn'⟩ := hinv.ata.exists_lookup hk
    have hne : Pubkey.ata p.address p.quote_mint ≠ .ata s.1 p.quote_mint := by
      simp [PoolState.address]
    have := Bank.balance_add_le_total (m := p.quote_mint) hne hn hn' rfl rfl
    rw [PoolState.reserver_quote_ata] at hb
    omega
  · rw [Bank.balance_of_notMem hk]
    have := p.real_quote_reserves.isLt
    omega

/-- The decision of a buy that completes the pool: what remains goes into it. -/
theorem exists_completing {ms : MainState} {p : PoolState} {q : U64} (hfits : p.Fits)
    (htf : ms.trading_fee.toNat < FEE_UNIT) (hopen : p.complete = false)
    (hlt : p.real_quote_reserves.toNat < p.real_quote_threshold.toNat)
    (hsum : p.real_quote_reserves.toNat +
      GrossUp.net ms.trading_fee.toNat FEE_UNIT q.toNat < 2 ^ 64)
    (hnet : p.remaining ≤ GrossUp.net ms.trading_fee.toNat FEE_UNIT q.toNat)
    (hout : ConstantProduct.output p.remaining p.quote p.base ≤ p.real_base_reserves.toNat) :
    ∃ c, ExactQuote ms p q 0 c ∧ c.input_quote_amount.toNat = p.remaining := by
  have hrem : p.remaining = p.real_quote_threshold.toNat - p.real_quote_reserves.toNat := rfl
  have hq := GrossUp.fee_add_net htf.le q.toNat
  have hg := GrossUp.fee_add_net htf.le
    (GrossUp.gross ms.trading_fee.toNat FEE_UNIT p.remaining)
  rw [GrossUp.net_gross htf] at hg
  -- the words of the decision
  obtain ⟨i, hi⟩ : ∃ i : U64, i.toNat = p.remaining :=
    exists_toNat_eq.mpr (lt_of_le_of_lt (Nat.sub_le _ _) p.real_quote_threshold.isLt)
  obtain ⟨b, hb⟩ : ∃ b : U64, b.toNat = ConstantProduct.output p.remaining p.quote p.base :=
    exists_toNat_eq.mpr (hout.trans_lt p.real_base_reserves.isLt)
  obtain ⟨rb, hrb⟩ : ∃ rb : U64, rb.toNat = p.real_base_reserves.toNat - b.toNat :=
    exists_toNat_eq.mpr (lt_of_le_of_lt (Nat.sub_le _ _) p.real_base_reserves.isLt)
  obtain ⟨fee, hfee⟩ : ∃ fee : U64, fee.toNat = min q.toNat
      (GrossUp.gross ms.trading_fee.toNat FEE_UNIT p.remaining) - p.remaining :=
    exists_toNat_eq.mpr (lt_of_le_of_lt (Nat.sub_le _ _) ((min_le_left _ _).trans_lt q.isLt))
  have hle : p.remaining ≤ min q.toNat
      (GrossUp.gross ms.trading_fee.toNat FEE_UNIT p.remaining) := le_min (by omega) (by omega)
  refine ⟨⟨{ p with
    real_base_reserves := rb
    real_quote_reserves := p.real_quote_threshold }, b, fee, i⟩, ?_, hi⟩
  exact {
    amount_pos := by omega
    incomplete := hopen
    sum_fits := hsum
    fits := hfits
    priced := by show 0 < p.quote + i.toNat; omega
    moves := ⟨rfl, by show rb.toNat + b.toNat = p.real_base_reserves.toNat; omega,
      by show p.real_quote_threshold.toNat = p.real_quote_reserves.toNat + i.toNat; omega⟩
    input := by show i.toNat = _; rw [hi, min_eq_right hnet]
    gross := by show fee.toNat + i.toNat = _; omega
    base := by show b.toNat = ConstantProduct.output i.toNat p.quote p.base; rw [hb, hi]
    enough := Nat.zero_le _ }

/-- What remains brings the total quote reserves to the threshold. -/
theorem PoolState.quote_add_remaining {p : PoolState}
    (hthr : p.real_quote_reserves.toNat ≤ p.real_quote_threshold.toNat) :
    p.quote + p.remaining = p.virt_quote_reserves.toNat + p.real_quote_threshold.toNat := by
  rw [PoolState.quote, PoolState.remaining]
  omega

/-- What the curve gives for what remains is payable exactly when the product is large
enough for the threshold. -/
theorem PoolState.output_remaining_le_iff {p : PoolState}
    (hlt : p.real_quote_reserves.toNat < p.real_quote_threshold.toNat) :
    ConstantProduct.output p.remaining p.quote p.base ≤ p.real_base_reserves.toNat ↔
      p.virt_base_reserves.toNat *
          (p.virt_quote_reserves.toNat + p.real_quote_threshold.toNat) <
        p.virt_quote_reserves.toNat + p.real_quote_threshold.toNat + p.product := by
  have hB : p.base = p.virt_base_reserves.toNat + p.real_base_reserves.toNat := rfl
  have hfull := p.quote_add_remaining hlt.le
  rw [hB, ConstantProduct.output_le_real_iff (by omega), ← hB, hfull, PoolState.product,
    Nat.mul_comm p.quote]

/-- A purchase of what remains leaves a complete pool. -/
theorem Purchase.settled_completes {p : PoolState} {c : Purchase} (h : c.Buys p)
    (hthr : p.real_quote_reserves.toNat ≤ p.real_quote_threshold.toNat)
    (hin : c.input_quote_amount.toNat = p.remaining) : c.settled.complete = true := by
  rw [c.settled_complete (h.moves.only.complete.trans h.incomplete), h.moves.quote, hin,
    h.moves.only.terms.real_quote_threshold, PoolState.remaining]
  omega

/-- **When a pool can be completed.** A buyer who holds an amount whose net covers what
remains to the threshold completes the pool with it exactly when the threshold, added to the
virtual quote reserves, fits 64 bits, and the pool has the base tokens that the curve gives
for what remains. -/
theorem buy_completes_iff (spl : TokenProgram Pubkey) {ctx : ABuy} {ms : MainState}
    {p : PoolState} {q f : U64} (hl : Reachable spl l) (hms : l.main_state = some ms)
    (hfee : ctx.fee_recipient = ms.fee_recipient)
    (hp : l.pools.lookup ctx.pool_state = some p) (hopen : p.complete = false)
    (hf : calculate_trading_fee ms.trading_fee q = .ok f)
    (hq : p.real_quote_threshold.toNat - p.real_quote_reserves.toNat ≤ q.toNat - f.toNat)
    (hfunds : q.toNat ≤ l.tokens.balance ctx.buyer_quote_ata) :
    (∃ l' p', buy_tokens_from_exact_quote spl ctx q 0 l = .ok l' ∧
        l'.pools.lookup ctx.pool_state = some p' ∧ p'.complete = true) ↔
      p.virt_quote_reserves.toNat + p.real_quote_threshold.toNat < 2 ^ 64 ∧
        p.virt_base_reserves.toNat * (p.virt_quote_reserves.toNat + p.real_quote_threshold.toNat) <
          p.virt_quote_reserves.toNat + p.real_quote_threshold.toNat + p.product := by
  have hinv := hl.inv
  have hpi := hinv.pools _ p hp
  have htf := (hinv.main_state ms hms).trading_fee_lt
  have hlt := hpi.incomplete hopen
  have hfull := p.quote_add_remaining hlt.le
  rw [calculate_trading_fee_eq_ok htf.le] at hf
  have hnet : p.remaining ≤ GrossUp.net ms.trading_fee.toNat FEE_UNIT q.toNat := by
    rw [PoolState.remaining, GrossUp.net, ← hf]
    exact hq
  rw [← PoolState.output_remaining_le_iff hlt]
  constructor
  · rintro ⟨l', p', hok, -, -⟩
    obtain ⟨ms', p'', c, hx, hb⟩ := hinv.exact_quote_iff.mp hok
    obtain rfl := Option.some_inj.mp (hms.symm.trans hb.accepts.main_state)
    obtain rfl := Option.some_inj.mp (hp.symm.trans hb.accepts.pool_state)
    have hin : c.input_quote_amount.toNat = p.remaining := by
      rw [hx.input, min_eq_right hnet]
    have hfit := hb.fits.quote
    rw [hx.moves.quote_eq, hin, hfull] at hfit
    refine ⟨hfit, ?_⟩
    have h1 := hx.moves.base
    rw [← hin, ← hx.base]
    omega
  · rintro ⟨hfit, hout⟩
    -- the sum the handler takes before its cap fits, since the buyer holds the amount
    have hsum : p.real_quote_reserves.toNat +
        GrossUp.net ms.trading_fee.toNat FEE_UNIT q.toNat < 2 ^ 64 := by
      have h1 := hpi.quote_add_balance_lt hinv ctx.buyer
      have h2 := GrossUp.fee_add_net htf.le q.toNat
      rw [ABuy.buyer_quote_ata, (hinv.mints_of_pool hp).2] at hfunds
      omega
    obtain ⟨c, hc, hin⟩ := exists_completing (hpi.fits hinv) htf hopen hlt hsum hnet hout
    have ha := hinv.accepts_buy hms hfee hp
    have hfits : c.pool_state.Fits := by
      refine ⟨?_, ?_⟩
      · have := hc.moves.base_eq
        have := (hpi.fits hinv).base
        omega
      · rw [hc.moves.quote_eq, hin, hfull]
        exact hfit
    obtain ⟨l', hb⟩ := hc.buys.exists_bought hinv ha hfits <| by
      rw [hc.gross]
      exact (min_le_left _ _).trans hfunds
    exact ⟨l', c.settled, hinv.exact_quote_iff.mpr ⟨ms, p, c, hc, hb⟩, hb.settles.lookup_self,
      c.settled_completes hc.buys hlt.le hin⟩

/-- The default pool can be completed right after its creation. -/
theorem buy_completes_sample : ∃ l l' p', Reachable .reference l ∧
    buy_tokens_from_exact_quote .reference ⟨bob, DEFAULT_OWNER, coin, QUOTE_MINT⟩ 31000000000000 0
      l = .ok l' ∧
    l'.pools.lookup coin_pool = some p' ∧ p'.complete = true := by
  obtain ⟨l, -, hreach, hms, hp, hbal⟩ := exists_opened
  let ctx : ABuy := ⟨bob, DEFAULT_OWNER, coin, QUOTE_MINT⟩
  have hfee : calculate_trading_fee (MainState.initial DEFAULT_OWNER).trading_fee 31000000000000 =
      .ok 310000000000 := by decide +kernel
  have hfunds : (31000000000000 : U64).toNat ≤ l.tokens.balance ctx.buyer_quote_ata := by
    rw [show ctx.buyer_quote_ata = .ata bob.1 QUOTE_MINT from rfl, hbal]
    decide
  have hp : l.pools.lookup ctx.pool_state = some coin_created := hp
  obtain ⟨l', p', hok, hp', hc⟩ := (buy_completes_iff .reference hreach hms rfl hp rfl hfee
    (by decide) hfunds).mpr (by decide)
  exact ⟨l, l', p', hreach, hok, hp', hc⟩

/-- With a supply of 10, virtual reserves of 20 and 1 and a threshold of 3, all accepted by
`update_main_state`, the curve asks for 22 base tokens to complete the pool. -/
theorem completion_fails :
    ¬ ∀ (spl : TokenProgram Pubkey) (l : Ledger) (ctx : ABuy) (ms : MainState) (p : PoolState)
      (q f : U64), Reachable spl l → l.main_state = some ms →
      ctx.fee_recipient = ms.fee_recipient → l.pools.lookup ctx.pool_state = some p →
      p.complete = false → calculate_trading_fee ms.trading_fee q = .ok f →
      p.real_quote_threshold.toNat - p.real_quote_reserves.toNat ≤ q.toNat - f.toNat →
      q.toNat ≤ l.tokens.balance ctx.buyer_quote_ata →
      ∃ l' p', buy_tokens_from_exact_quote spl ctx q 0 l = .ok l' ∧
        l'.pools.lookup ctx.pool_state = some p' ∧ p'.complete = true := by
  intro h
  let g : Ledger := .launch alice bob coin 10 1000
  have hg : Genesis g := Ledger.launch_genesis (by decide) _ _
  let ms : MainState := ⟨DEFAULT_OWNER, DEFAULT_OWNER, DEFAULT_OWNER, 0, 10, 20, 1, 3⟩
  let p : PoolState := ⟨alice.1, coin, 20, 10, QUOTE_MINT, 1, 0, 3, false⟩
  let ctx : ABuy := ⟨bob, DEFAULT_OWNER, coin, QUOTE_MINT⟩
  obtain ⟨l, hl, hv⟩ := exists_eq_ok
    (x := Runs.run (step .reference) g (opening_with 10 20 1 3))
    (f := fun l => (l.main_state, l.pools.lookup coin_pool,
      l.tokens.balance (.ata bob.1 QUOTE_MINT)))
    (b := (some ms, some p, 1000)) (by decide +kernel)
  simp only [Prod.mk.injEq] at hv
  obtain ⟨hms, hp, hbal⟩ := hv
  obtain ⟨l', -, hok, -⟩ := h .reference l ctx ms p 3 0 ⟨g, _, hg, hl⟩ hms rfl hp rfl
    (by decide +kernel) (by decide) (by
      rw [show ctx.buyer_quote_ata = .ata bob.1 QUOTE_MINT from rfl, hbal]
      decide)
  -- but the run that ends with this buy fails
  have hrun : Runs.run (step .reference) g
      (opening_with 10 20 1 3 ++ [.ix (.buy_tokens_from_exact_quote ctx 3 0)]) = .ok l' :=
    Runs.run_snoc.mpr ⟨l, hl, hok⟩
  have hfail : (Runs.run (step .reference) g (opening_with 10 20 1 3 ++
      [.ix (.buy_tokens_from_exact_quote ctx 3 0)])).toOption.isSome = false := by
    decide +kernel
  rw [hrun] at hfail
  cases hfail

end AliPumpFun
