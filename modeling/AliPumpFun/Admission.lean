/-
When an instruction succeeds.

An instruction of a reachable ledger succeeds exactly when a condition on the ledger and its
arguments holds that speaks of numbers only: whose signature it is, what the pool holds and
asks for, and what the signer has. In particular success does not depend on the token
program, and none of the checks on accounts other than these can fail.

The ledger is one that the actions of `Chain` lead to. On a chain where an associated account
has been handed to another owner, closed or frozen, which no action here does, an admitted
instruction that uses it is refused.

A buyer can be the fee recipient. The fee is then paid by an account to itself, so it only
has to be there, and the input is paid out of the same tokens.
-/
import AliPumpFun.Solvency
import AliPumpFun.Creation
import AliPumpFun.LifeCycle

set_option autoImplicit false

open Words Fallible

namespace AliPumpFun

variable {spl : TokenProgram Pubkey} {l l' : Ledger}

/-! ## Buying -/

section Prices

variable {ms : MainState} {p : PoolState} {q m b : U64}

/-- What goes into the pool in an exact-quote buy of `q`. -/
def PoolState.input_of (p : PoolState) (ms : MainState) (q : U64) : ℕ :=
  min (GrossUp.net ms.trading_fee.toNat FEE_UNIT q.toNat) p.remaining

/-- What an exact-quote buy of `q` costs, fee included. -/
def PoolState.cost_of (p : PoolState) (ms : MainState) (q : U64) : ℕ :=
  min q.toNat (GrossUp.gross ms.trading_fee.toNat FEE_UNIT p.remaining)

/-- When an exact-quote buy is decided: the sum it takes before its cap fits, and the curve's
output is wanted and there. -/
def PoolState.GivesFor (p : PoolState) (ms : MainState) (q m : U64) : Prop :=
  0 < q.toNat ∧ p.complete = false ∧
    p.real_quote_reserves.toNat + GrossUp.net ms.trading_fee.toNat FEE_UNIT q.toNat < 2 ^ 64 ∧
    m.toNat ≤ ConstantProduct.output (p.input_of ms q) p.quote p.base ∧
    ConstantProduct.output (p.input_of ms q) p.quote p.base ≤ p.real_base_reserves.toNat

theorem Priceable.exists_exact_quote (hpr : Priceable ms p) :
    (∃ c, ExactQuote ms p q m c) ↔ p.GivesFor ms q m := by
  unfold PoolState.GivesFor
  constructor
  · rintro ⟨c, hx⟩
    have hout := hx.base
    rw [show c.input_quote_amount.toNat = p.input_of ms q from hx.input] at hout
    rw [← hout]
    refine ⟨hx.amount_pos, hx.incomplete, hx.sum_fits, hx.enough, ?_⟩
    have := hx.moves.base
    omega
  · rintro ⟨hq, hopen, hsum, hm, hout⟩
    have htf := hpr.trading_fee_lt
    have hnet := GrossUp.fee_add_net htf.le (p.cost_of ms q)
    rw [PoolState.cost_of, GrossUp.net_min_gross htf, ← PoolState.cost_of,
      ← PoolState.input_of] at hnet
    have hcost : p.cost_of ms q ≤ q.toNat := min_le_left _ _
    have hrem : p.input_of ms q ≤ p.remaining := min_le_right _ _
    have hle := hpr.quote_le
    rw [PoolState.remaining] at hrem
    -- the words of the decision
    obtain ⟨i, hi⟩ : ∃ i : U64, i.toNat = p.input_of ms q :=
      exists_toNat_eq.mpr (lt_of_le_of_lt (by omega) q.isLt)
    obtain ⟨f, hf⟩ : ∃ f : U64, f.toNat = p.cost_of ms q - p.input_of ms q :=
      exists_toNat_eq.mpr (lt_of_le_of_lt (by omega) q.isLt)
    obtain ⟨o, ho⟩ : ∃ o : U64,
        o.toNat = ConstantProduct.output (p.input_of ms q) p.quote p.base :=
      exists_toNat_eq.mpr (hout.trans_lt p.real_base_reserves.isLt)
    obtain ⟨rb, hrb⟩ : ∃ rb : U64, rb.toNat = p.real_base_reserves.toNat - o.toNat :=
      exists_toNat_eq.mpr (lt_of_le_of_lt (Nat.sub_le _ _) p.real_base_reserves.isLt)
    obtain ⟨rq, hrq⟩ : ∃ rq : U64, rq.toNat = p.real_quote_reserves.toNat + i.toNat :=
      exists_toNat_eq.mpr (lt_of_le_of_lt (by omega) p.real_quote_threshold.isLt)
    refine ⟨⟨{ p with real_base_reserves := rb, real_quote_reserves := rq }, o, f, i⟩, ?_⟩
    exact {
      amount_pos := hq
      incomplete := hopen
      sum_fits := hsum
      fits := hpr.fits
      priced := Nat.add_pos_left hpr.quote_pos _
      moves := ⟨rfl, by show rb.toNat + o.toNat = _; omega, hrq⟩
      input := hi
      gross := by show f.toNat + i.toNat = p.cost_of ms q; omega
      base := by show o.toNat = ConstantProduct.output i.toNat p.quote p.base; rw [ho, hi]
      enough := by show m.toNat ≤ o.toNat; omega }

/-- What goes into the pool in an exact-tokens buy of `b`. -/
def PoolState.charge_of (p : PoolState) (b : U64) : ℕ := min (p.charge b) p.remaining

/-- The total of an exact-tokens buy of `b`, after its cast. -/
def PoolState.total_of (p : PoolState) (ms : MainState) (b : U64) : ℕ :=
  GrossUp.gross ms.trading_fee.toNat FEE_UNIT (p.charge_of b) % 2 ^ 64

/-- When an exact-tokens buy is decided: the sum it takes before its cap fits, and the total is
within the limit. -/
def PoolState.GivesExactly (p : PoolState) (ms : MainState) (b m : U64) : Prop :=
  (0 < b.toNat ∧ b.toNat ≤ p.real_base_reserves.toNat) ∧ p.complete = false ∧
    p.real_quote_reserves.toNat + p.charge b < 2 ^ 64 ∧ p.total_of ms b ≤ m.toNat

/-- The virtual base reserves are never asked for. -/
theorem Priceable.lt_base (hpr : Priceable ms p) (hle : b.toNat ≤ p.real_base_reserves.toNat) :
    b.toNat < p.base := by
  have := hpr.virt_base
  rw [PoolState.base]
  omega

/-- What is delivered: what was asked for, or what the remaining amount is worth. -/
theorem Priceable.exists_delivered (hpr : Priceable ms p) {i : U64} (hbelow : b.toNat < p.base)
    (hi : i.toNat = p.charge_of b) : ∃ o : U64, o.toNat ≤ b.toNat ∧
      (p.Capped b ∧ i.toNat = p.remaining ∧ 0 < p.quote + i.toNat ∧
          o.toNat = ConstantProduct.output i.toNat p.quote p.base ∨
        ¬ p.Capped b ∧ i.toNat = p.charge b ∧ o = b) := by
  by_cases hcap : p.Capped b
  · have hle : ConstantProduct.output i.toNat p.quote p.base ≤ b.toNat := by
      refine ConstantProduct.output_le_of_le_input hbelow ?_
      rw [hi]
      exact (min_le_left _ _).trans (Nat.mod_le _ _)
    obtain ⟨o, ho⟩ : ∃ o : U64, o.toNat = ConstantProduct.output i.toNat p.quote p.base :=
      exists_toNat_eq.mpr (hle.trans_lt b.isLt)
    refine ⟨o, ho ▸ hle, .inl ⟨hcap, ?_, Nat.add_pos_left hpr.quote_pos _, ho⟩⟩
    rw [hi, PoolState.charge_of, min_eq_right]
    rw [PoolState.Capped] at hcap
    rw [PoolState.remaining]
    omega
  · refine ⟨b, le_rfl, .inr ⟨hcap, ?_, rfl⟩⟩
    rw [hi, PoolState.charge_of, min_eq_left]
    rw [PoolState.Capped] at hcap
    rw [PoolState.remaining]
    omega

theorem Priceable.exists_exact_tokens (hpr : Priceable ms p) :
    (∃ c, ExactTokens ms p b m c) ↔ p.GivesExactly ms b m := by
  constructor
  · rintro ⟨c, hx⟩
    have hwithin := hx.within
    rw [show c.input_quote_amount.toNat = p.charge_of b from hx.input] at hwithin
    exact ⟨⟨hx.amount_pos, hx.amount_le⟩, hx.incomplete, hx.sum_fits, hwithin⟩
  · rintro ⟨⟨hb, hle⟩, hopen, hsum, hm⟩
    have htf := hpr.trading_fee_lt
    have hbelow := hpr.lt_base hle
    have hthr := hpr.quote_le
    have hrem : p.charge_of b ≤ p.remaining := min_le_right _ _
    rw [PoolState.remaining] at hrem
    obtain ⟨i, hi⟩ : ∃ i : U64, i.toNat = p.charge_of b :=
      exists_toNat_eq.mpr (lt_of_le_of_lt (by omega) p.real_quote_threshold.isLt)
    obtain ⟨f, hf⟩ : ∃ f : U64, f.toNat = GrossUp.fee ms.trading_fee.toNat FEE_UNIT
        (GrossUp.gross ms.trading_fee.toNat FEE_UNIT i.toNat % 2 ^ 64) :=
      exists_toNat_eq.mpr ((GrossUp.fee_le htf.le _).trans_lt (Nat.mod_lt _ (by decide)))
    obtain ⟨rq, hrq⟩ : ∃ rq : U64, rq.toNat = p.real_quote_reserves.toNat + i.toNat :=
      exists_toNat_eq.mpr (lt_of_le_of_lt (by omega) p.real_quote_threshold.isLt)
    obtain ⟨o, ho, hbr⟩ := hpr.exists_delivered hbelow hi
    obtain ⟨rb, hrb⟩ : ∃ rb : U64, rb.toNat = p.real_base_reserves.toNat - o.toNat :=
      exists_toNat_eq.mpr (lt_of_le_of_lt (Nat.sub_le _ _) p.real_base_reserves.isLt)
    refine ⟨⟨{ p with real_base_reserves := rb, real_quote_reserves := rq }, o, f, i⟩, ?_⟩
    exact {
      amount_pos := hb
      amount_le := hle
      incomplete := hopen
      sum_fits := hsum
      fits := hpr.fits
      below := hbelow
      moves := ⟨rfl, by show rb.toNat + o.toNat = _; omega, hrq⟩
      branch := hbr
      fee := hf
      within := by
        show GrossUp.gross ms.trading_fee.toNat FEE_UNIT i.toNat % 2 ^ 64 ≤ m.toNat
        rw [hi]
        exact hm }

end Prices

/-- The buyer can pay the fee and then the input, and the amounts that the event adds up fit. A
buyer who is the fee recipient has the fee back when the input is due. -/
structure ABuy.Affords (ctx : ABuy) (l : Ledger) (p : PoolState) (fee input : ℕ) : Prop where
  fee_le : fee ≤ l.tokens.balance ctx.buyer_quote_ata
  input_le : (if ctx.buyer.1 = ctx.fee_recipient then input else fee + input) ≤
    l.tokens.balance ctx.buyer_quote_ata
  spent : fee + input < 2 ^ 64
  quote : p.quote + input < 2 ^ 64

/-- The buyer can pay the fee and then the input. -/
structure ABuy.CanPay (ctx : ABuy) (l : Ledger) (fee input : ℕ) : Prop where
  fee_le : fee ≤ l.tokens.balance ctx.buyer_quote_ata
  input_le : (if ctx.buyer.1 = ctx.fee_recipient then input else fee + input) ≤
    l.tokens.balance ctx.buyer_quote_ata

/-- The payments of a decided purchase go through exactly when the buyer can make his two. -/
theorem Purchase.Buys.exists_paid_iff {ctx : ABuy} {ms : MainState} {p : PoolState}
    {c : Purchase} (h : c.Buys p) (hinv : Inv l) (ha : ctx.Accepts l ms p) :
    (∃ t, (ensured l.tokens ctx.opens).Paid (ctx.payments c) t) ↔
      ctx.CanPay l c.fee.toNat c.input_quote_amount.toNat := by
  have hself : ctx.buyer_quote_ata = ctx.fee_quote_ata ↔ ctx.buyer.1 = ctx.fee_recipient := by
    rw [ABuy.buyer_quote_ata, ABuy.fee_quote_ata, Pubkey.ata.injEq, and_iff_left rfl]
  constructor
  · rintro ⟨t, hpaid⟩
    have hfee := hpaid.head_le
    obtain ⟨b₁, ⟨S, D, ht⟩, hrest⟩ := hpaid
    have hinput := hrest.head_le
    have hbal := ht.balance_eq ctx.buyer_quote_ata
    rw [if_pos rfl, balance_ensured] at hbal
    rw [balance_ensured] at hfee
    refine ⟨hfee, ?_⟩
    by_cases hs : ctx.buyer.1 = ctx.fee_recipient
    · rw [if_pos hs]
      rw [if_pos (hself.mpr hs)] at hbal
      dsimp only at hinput hbal
      omega
    · rw [if_neg hs]
      rw [if_neg (mt hself.mp hs)] at hbal
      dsimp only at hinput hbal
      omega
  · intro hpay
    have hbase := h.base_le hinv ha
    refine Bank.exists_paid_cons (ha.payable hinv.ata c) (hinv.total_lt ctx.opens) ?_ ?_
    · rw [balance_ensured]
      exact hpay.fee_le
    · intro x
      have hne : ctx.buyer_quote_ata ≠ ctx.reserver_base_ata := by
        simp [ABuy.buyer_quote_ata, ABuy.reserver_base_ata, ABuy.pool_state]
      have hinput := hpay.input_le
      simp only [Bank.outgoing, List.map_cons, List.map_nil, List.sum_cons, List.sum_nil,
        balance_ensured]
      by_cases hx : x = ctx.buyer_quote_ata
      · rw [if_pos hx, if_pos hx, if_neg (by rw [hx]; exact hne), hx]
        by_cases hs : ctx.buyer.1 = ctx.fee_recipient
        · rw [if_pos hs] at hinput
          rw [if_pos (hself.mpr hs)]
          omega
        · rw [if_neg hs] at hinput
          rw [if_neg (mt hself.mp hs)]
          omega
      · rw [if_neg hx, if_neg hx]
        by_cases hr : x = ctx.reserver_base_ata
        · rw [if_pos hr, hr]
          omega
        · rw [if_neg hr]
          omega

/-- The totals a purchase leaves fit when the quote total does. -/
theorem Purchase.Buys.fits_iff {p : PoolState} {c : Purchase} (h : c.Buys p) :
    c.pool_state.Fits ↔ p.quote + c.input_quote_amount.toNat < 2 ^ 64 := by
  rw [← h.moves.quote_eq]
  refine ⟨fun hf => hf.quote, fun hq => ⟨?_, hq⟩⟩
  have := h.moves.base_eq
  have := h.fits.base
  omega

/-- A decided purchase goes through exactly when the buyer affords it. -/
theorem Purchase.Buys.exists_bought_iff {ctx : ABuy} {ms : MainState} {p : PoolState}
    {c : Purchase} (h : c.Buys p) (hinv : Inv l) (ha : ctx.Accepts l ms p) :
    (∃ l', Bought ctx l l' ms p c) ↔
      ctx.Affords l p c.fee.toNat c.input_quote_amount.toNat := by
  constructor
  · rintro ⟨l', hb⟩
    have hpay := (h.exists_paid_iff hinv ha).mp ⟨_, hb.settles.paid⟩
    exact ⟨hpay.fee_le, hpay.input_le, hb.spent, h.fits_iff.mp hb.fits⟩
  · intro haff
    obtain ⟨t, ht⟩ := (h.exists_paid_iff hinv ha).mpr ⟨haff.fee_le, haff.input_le⟩
    exact ⟨{ l with
      tokens := t
      pools := l.pools.insert ctx.pool_state c.settled
      events := l.events ++ c.events ctx.buyer.1 l.unix_timestamp },
      ha, haff.spent, h.fits_iff.mpr haff.quote, ht, rfl⟩

/-! ## Selling -/

/-- When a sell is decided: the curve's output is there, and wanted after its fee. -/
def PoolState.Takes (p : PoolState) (ms : MainState) (b m : U64) : Prop :=
  0 < b.toNat ∧ p.complete = false ∧
    ConstantProduct.output b.toNat p.base p.quote ≤ p.real_quote_reserves.toNat ∧
    m.toNat ≤ GrossUp.net ms.trading_fee.toNat FEE_UNIT
      (ConstantProduct.output b.toNat p.base p.quote)

theorem Priceable.exists_sell {ms : MainState} {p : PoolState} {b m : U64}
    (hpr : Priceable ms p) (hfit : p.real_base_reserves.toNat + b.toNat < 2 ^ 64) :
    (∃ c, Sell ms p b m c) ↔ p.Takes ms b m := by
  have hsum := GrossUp.fee_add_net hpr.trading_fee_lt.le
    (ConstantProduct.output b.toNat p.base p.quote)
  constructor
  · rintro ⟨c, hx⟩
    have hg := hx.gross
    have hfee := hx.fee
    have hout := hx.output
    have hm := hx.enough
    have hquote := hx.moves.quote
    rw [hg] at hfee
    exact ⟨hx.amount_pos, hx.incomplete, by omega, by omega⟩
  · rintro ⟨hb, hopen, hpay, hm⟩
    have hlt := p.real_quote_reserves.isLt
    obtain ⟨g, hg⟩ : ∃ g : U64, g.toNat = ConstantProduct.output b.toNat p.base p.quote :=
      exists_toNat_eq.mpr (hpay.trans_lt hlt)
    obtain ⟨f, hf⟩ : ∃ f : U64, f.toNat = GrossUp.fee ms.trading_fee.toNat FEE_UNIT g.toNat :=
      exists_toNat_eq.mpr ((GrossUp.fee_le hpr.trading_fee_lt.le _).trans_lt g.isLt)
    rw [hg] at hf
    obtain ⟨o, ho⟩ : ∃ o : U64, o.toNat = GrossUp.net ms.trading_fee.toNat FEE_UNIT
        (ConstantProduct.output b.toNat p.base p.quote) :=
      exists_toNat_eq.mpr (lt_of_le_of_lt (by omega) g.isLt)
    obtain ⟨rb, hrb⟩ : ∃ rb : U64, rb.toNat = p.real_base_reserves.toNat + b.toNat :=
      exists_toNat_eq.mpr hfit
    obtain ⟨rq, hrq⟩ : ∃ rq : U64, rq.toNat = p.real_quote_reserves.toNat - g.toNat :=
      exists_toNat_eq.mpr (lt_of_le_of_lt (Nat.sub_le _ _) hlt)
    refine ⟨⟨{ p with real_base_reserves := rb, real_quote_reserves := rq }, g, f, o⟩, ?_⟩
    exact {
      amount_pos := hb
      incomplete := hopen
      fits := hpr.fits
      moves := ⟨rfl, hrb, by show rq.toNat + g.toNat = _; omega⟩
      gross := hg
      fee := by show f.toNat = GrossUp.fee _ _ g.toNat; rw [hf, hg]
      output := by show f.toNat + o.toNat = g.toNat; omega
      enough := by show m.toNat ≤ o.toNat; omega }

/-- What a wallet holds of a base mint fits the pool's total together with what is in it. -/
theorem PoolInv.base_add_balance_lt {p : PoolState} (hpi : PoolInv l p) (hinv : Inv l)
    (s : Signer) : p.base + l.tokens.balance (.ata s.1 p.base_mint) < 2 ^ 64 := by
  have hb := hpi.backed_base
  have hfit := hpi.base_fits
  obtain ⟨n, hn⟩ := hinv.ata.exists_lookup hpi.reserver_base
  have htotal := hinv.conserved p.base_mint
  rw [PoolState.base]
  by_cases hk : Pubkey.ata s.1 p.base_mint ∈ l.tokens
  · obtain ⟨n', hn'⟩ := hinv.ata.exists_lookup hk
    have hne : Pubkey.ata p.address p.base_mint ≠ .ata s.1 p.base_mint := by
      simp [PoolState.address]
    have := Bank.balance_add_le_total (m := p.base_mint) hne hn hn' rfl rfl
    rw [PoolState.reserver_base_ata] at hb
    omega
  · rw [Bank.balance_of_notMem hk]
    have := hpi.balance_base_le hinv
    omega

/-- A pool has room for what a seller holds. -/
theorem Inv.sell_room {ctx : ASell} {p : PoolState} {b : U64} (hinv : Inv l)
    (hp : l.pools.lookup ctx.pool_state = some p)
    (hfunded : b.toNat ≤ l.tokens.balance ctx.seller_base_ata) :
    p.real_base_reserves.toNat + b.toNat < 2 ^ 64 := by
  have hlt := (hinv.pools _ p hp).base_add_balance_lt hinv ctx.seller
  rw [ASell.seller_base_ata, (hinv.mints_of_pool hp).1] at hfunded
  rw [PoolState.base] at hlt
  omega

/-- A context for a pool that exists passes the account checks of a sell, when the seller has
what is sold. -/
theorem Inv.accepts_sell {ctx : ASell} {ms : MainState} {p : PoolState} {b : U64} (hinv : Inv l)
    (hms : l.main_state = some ms) (hfee : ctx.fee_recipient = ms.fee_recipient)
    (hp : l.pools.lookup ctx.pool_state = some p) (hb : 0 < b.toNat)
    (hfunded : b.toNat ≤ l.tokens.balance ctx.seller_base_ata) : ctx.Accepts b l ms p := by
  obtain ⟨hbm, hqm⟩ := hinv.mints_of_pool hp
  have hpi := hinv.pools _ p hp
  have haddr := hinv.address _ p hp
  refine ⟨hms, hfee, hp, ?_, hbm, ?_, hqm, ?_, hfunded, ?_, ?_⟩
  · rw [hbm]
    exact hpi.base_minted
  · rw [hqm]
    exact hpi.quote_minted
  · rw [mem_ensure]
    -- an account that holds something exists
    by_contra hnot
    rw [Bank.balance_of_notMem fun hk => hnot (.inl hk)] at hfunded
    omega
  · rw [mem_ensured, ASell.reserver_base_ata, haddr, hbm]
    exact .inl hpi.reserver_base
  · rw [mem_ensured, ASell.reserver_quote_ata, haddr, hqm]
    exact .inl hpi.reserver_quote

/-- The payments of a sell go between accounts that exist, each to one of its mint. -/
theorem ASell.Accepts.payable {ctx : ASell} {ms : MainState} {p : PoolState} {b : U64}
    (h : ctx.Accepts b l ms p) (hwf : AtaWf l.tokens) (hb : 0 < b.toNat) (c : Sale) :
    ∀ x ∈ ctx.payments b c, (ensured l.tokens ctx.opens).Payable x := by
  have hopen : ∀ om ∈ ctx.opens, .ata om.1 om.2 ∈ ensured l.tokens ctx.opens :=
    fun _ => ata_mem_ensured
  have hfq := hopen (ctx.fee_recipient, ctx.quote_mint) (by simp [opens])
  have hsq := hopen (ctx.seller.1, ctx.quote_mint) (by simp [opens])
  have hsb : ctx.seller_base_ata ∈ ensured l.tokens ctx.opens := by
    rw [mem_ensured]
    by_contra hnot
    have hfunded := h.funded
    rw [Bank.balance_of_notMem fun hk => hnot (.inl hk)] at hfunded
    omega
  intro x hx
  simp only [payments, List.mem_cons, List.not_mem_nil, or_false] at hx
  rcases hx with rfl | rfl | rfl
  · exact hwf.ensured.payable hsb h.reserver_base
  · exact hwf.ensured.payable h.reserver_quote hfq
  · exact hwf.ensured.payable h.reserver_quote hsq

/-- A decided sale always goes through. -/
theorem Sell.exists_sold {ctx : ASell} {ms : MainState} {p : PoolState} {b m : U64} {c : Sale}
    (h : Sell ms p b m c) (hinv : Inv l) (ha : ctx.Accepts b l ms p) :
    ∃ l', Sold ctx b l l' ms p c := by
  have hpi := hinv.pools _ p ha.pool_state
  have hfits : c.pool_state.Fits := by
    refine ⟨?_, ?_⟩
    · have hlt := hpi.base_add_balance_lt hinv ctx.seller
      have hfunded := ha.funded
      rw [ASell.seller_base_ata, ha.base_mint] at hfunded
      rw [h.moves.base_eq]
      omega
    · have := h.moves.quote_eq
      have := hpi.quote_fits
      omega
  obtain ⟨t, ht⟩ := Bank.exists_paid (ha.payable hinv.ata h.amount_pos c)
    (hinv.total_lt ctx.opens) <| by
      intro x
      have hne : ctx.seller_base_ata ≠ ctx.reserver_quote_ata := by
        simp [ASell.seller_base_ata, ASell.reserver_quote_ata, ASell.pool_state]
      have hfunded := ha.funded
      have hback := hpi.backed_quote
      have hquote := h.moves.quote
      have hout := h.output
      rw [← ha.reserver_quote_ata] at hback
      simp only [Bank.outgoing, ASell.payments, List.map_cons, List.map_nil, List.sum_cons,
        List.sum_nil, balance_ensured]
      by_cases hx : x = ctx.seller_base_ata
      · rw [if_pos hx, if_neg (by rw [hx]; exact hne), if_neg (by rw [hx]; exact hne), hx]
        omega
      · rw [if_neg hx]
        by_cases hr : x = ctx.reserver_quote_ata
        · rw [if_pos hr, if_pos hr, hr]
          omega
        · rw [if_neg hr, if_neg hr]
          omega
  exact ⟨{ l with
    tokens := t
    pools := l.pools.insert ctx.pool_state c.pool_state
    events := l.events ++ [.trade (c.trade ctx.seller.1 b l.unix_timestamp)] },
    ha, hfits, ht, rfl⟩

/-! ## All instructions -/

/-- An optional amount of an update is accepted unless it is zero. -/
theorem exists_update_amount (current : U64) (e : PumpFunError) {input : Option U64} :
    (∃ r, update_amount current input e = .ok r) ↔ input ≠ some 0 := by
  cases input with
  | none => simp [update_amount]
  | some value =>
    simp only [update_amount, bind_eq_ok, require_eq_ok, pure_eq_ok, exists_const, ne_eq,
      Option.some_inj, exists_and_left, exists_eq', and_true, BitVec.lt_def]
    rw [← BitVec.toNat_inj]
    exact Nat.pos_iff_ne_zero

/-- When an instruction is admitted on a ledger. -/
def Instruction.Admitted (l : Ledger) : Instruction → Prop
  | .init_main_state ctx => ctx.Accepts l
  | .transfer_ownership ctx new_owner =>
    ∃ ms, l.main_state = some ms ∧ ms.owner = ctx.owner.1 ∧ ms.owner ≠ new_owner
  | .update_main_state ctx input =>
    ∃ ms, l.main_state = some ms ∧ ms.owner = ctx.owner.1 ∧
      (∃ mint, l.mints.lookup ctx.quote_mint = some mint) ∧ ctx.quote_mint = QUOTE_MINT ∧
      ctx.fee_recipient = input.fee_recipient ∧ input.trading_fee.toNat ≤ 5000 ∧
      ∀ amount ∈ [input.total_supply, input.init_virt_base_reserves,
        input.init_virt_quote_reserves, input.real_quote_threshold], amount ≠ some 0
  | .create_pool ctx =>
    ∃ ms mint, ctx.Accepts l ms mint ∧
      (ctx.reserver_base_ata ∉ l.tokens ∧ ctx.reserver_quote_ata ∉ l.tokens) ∧
      ms.total_supply.toNat + ms.init_virt_base_reserves.toNat < 2 ^ 64
  | .buy_tokens_from_exact_quote ctx q m =>
    ∃ ms p, l.main_state = some ms ∧ ctx.fee_recipient = ms.fee_recipient ∧
      l.pools.lookup ctx.pool_state = some p ∧ p.GivesFor ms q m ∧
      ctx.Affords l p (p.cost_of ms q - p.input_of ms q) (p.input_of ms q)
  | .buy_exact_tokens_from_quote ctx b m =>
    ∃ ms p, l.main_state = some ms ∧ ctx.fee_recipient = ms.fee_recipient ∧
      l.pools.lookup ctx.pool_state = some p ∧ p.GivesExactly ms b m ∧
      ctx.Affords l p (GrossUp.fee ms.trading_fee.toNat FEE_UNIT (p.total_of ms b))
        (p.charge_of b)
  | .sell ctx b m =>
    ∃ ms p, l.main_state = some ms ∧ ctx.fee_recipient = ms.fee_recipient ∧
      l.pools.lookup ctx.pool_state = some p ∧ p.Takes ms b m ∧
      b.toNat ≤ l.tokens.balance ctx.seller_base_ata
  | .withdraw ctx =>
    ∃ ms p, l.main_state = some ms ∧ ctx.withdrawer.1 = ms.withdrawer ∧
      l.pools.lookup ctx.pool_state = some p ∧ p.complete = true ∧
      0 < p.real_base_reserves.toNat ∧ 0 < p.real_quote_reserves.toNat

section Trades

variable {ms : MainState} {p : PoolState}

/-- The two amounts an exact-quote buyer pays. -/
theorem ExactQuote.amounts {q m : U64} {c : Purchase} (hx : ExactQuote ms p q m c) :
    c.fee.toNat = p.cost_of ms q - p.input_of ms q ∧
      c.input_quote_amount.toNat = p.input_of ms q := by
  have hgross : c.fee.toNat + c.input_quote_amount.toNat = p.cost_of ms q := hx.gross
  have hinput : c.input_quote_amount.toNat = p.input_of ms q := hx.input
  exact ⟨by omega, hinput⟩

/-- The two amounts an exact-tokens buyer pays. -/
theorem ExactTokens.amounts {b m : U64} {c : Purchase} (hx : ExactTokens ms p b m c) :
    c.fee.toNat = GrossUp.fee ms.trading_fee.toNat FEE_UNIT (p.total_of ms b) ∧
      c.input_quote_amount.toNat = p.charge_of b := by
  have hinput : c.input_quote_amount.toNat = p.charge_of b := hx.input
  refine ⟨?_, hinput⟩
  rw [hx.fee, hinput, PoolState.total_of]

theorem Inv.exact_quote_succeeds_iff {ctx : ABuy} {q m : U64} (hinv : Inv l) :
    (∃ l', buy_tokens_from_exact_quote spl ctx q m l = .ok l') ↔
      (Instruction.buy_tokens_from_exact_quote ctx q m).Admitted l := by
  constructor
  · rintro ⟨l', h⟩
    obtain ⟨ms, p, c, hx, hb⟩ := hinv.exact_quote_iff.mp h
    have ha := hb.accepts
    have hpr := hinv.priceable ha.main_state ha.pool_state
    refine ⟨ms, p, ha.main_state, ha.fee_recipient, ha.pool_state,
      hpr.exists_exact_quote.mp ⟨c, hx⟩, ?_⟩
    rw [← hx.amounts.1, ← hx.amounts.2]
    exact (hx.buys.exists_bought_iff hinv ha).mp ⟨l', hb⟩
  · rintro ⟨ms, p, hms, hfee, hp, hgives, haff⟩
    obtain ⟨c, hx⟩ := (hinv.priceable hms hp).exists_exact_quote.mpr hgives
    rw [← hx.amounts.1, ← hx.amounts.2] at haff
    obtain ⟨l', hb⟩ := (hx.buys.exists_bought_iff hinv (hinv.accepts_buy hms hfee hp)).mpr haff
    exact ⟨l', hinv.exact_quote_iff.mpr ⟨ms, p, c, hx, hb⟩⟩

theorem Inv.exact_tokens_succeeds_iff {ctx : ABuy} {b m : U64} (hinv : Inv l) :
    (∃ l', buy_exact_tokens_from_quote spl ctx b m l = .ok l') ↔
      (Instruction.buy_exact_tokens_from_quote ctx b m).Admitted l := by
  constructor
  · rintro ⟨l', h⟩
    obtain ⟨ms, p, c, hx, hb⟩ := hinv.exact_tokens_iff.mp h
    have ha := hb.accepts
    have hpr := hinv.priceable ha.main_state ha.pool_state
    refine ⟨ms, p, ha.main_state, ha.fee_recipient, ha.pool_state,
      hpr.exists_exact_tokens.mp ⟨c, hx⟩, ?_⟩
    rw [← hx.amounts.1, ← hx.amounts.2]
    exact (hx.buys.exists_bought_iff hinv ha).mp ⟨l', hb⟩
  · rintro ⟨ms, p, hms, hfee, hp, hgives, haff⟩
    obtain ⟨c, hx⟩ := (hinv.priceable hms hp).exists_exact_tokens.mpr hgives
    rw [← hx.amounts.1, ← hx.amounts.2] at haff
    obtain ⟨l', hb⟩ := (hx.buys.exists_bought_iff hinv (hinv.accepts_buy hms hfee hp)).mpr haff
    exact ⟨l', hinv.exact_tokens_iff.mpr ⟨ms, p, c, hx, hb⟩⟩

theorem Inv.sell_succeeds_iff {ctx : ASell} {b m : U64} (hinv : Inv l) :
    (∃ l', AliPumpFun.sell spl ctx b m l = .ok l') ↔ (Instruction.sell ctx b m).Admitted l := by
  constructor
  · rintro ⟨l', h⟩
    obtain ⟨ms, p, c, hx, hs⟩ := hinv.sell_iff.mp h
    have ha := hs.accepts
    have hpr := hinv.priceable ha.main_state ha.pool_state
    exact ⟨ms, p, ha.main_state, ha.fee_recipient, ha.pool_state,
      (hpr.exists_sell (hinv.sell_room ha.pool_state ha.funded)).mp ⟨c, hx⟩, ha.funded⟩
  · rintro ⟨ms, p, hms, hfee, hp, htakes, hfunded⟩
    obtain ⟨c, hx⟩ := ((hinv.priceable hms hp).exists_sell (hinv.sell_room hp hfunded)).mpr htakes
    obtain ⟨l', hs⟩ := hx.exists_sold hinv (hinv.accepts_sell hms hfee hp hx.amount_pos hfunded)
    exact ⟨l', hinv.sell_iff.mpr ⟨ms, p, c, hx, hs⟩⟩

end Trades

/-- **When an instruction succeeds.** On a ledger that a run of the instructions, token
transfers, openings of accounts and ticks of the clock reaches, each of the eight instructions
succeeds exactly when it is admitted, whatever the token program. -/
theorem execute_succeeds_iff (spl : TokenProgram Pubkey) (hl : Reachable spl l)
    (i : Instruction) : (∃ l', i.execute spl l = .ok l') ↔ i.Admitted l := by
  have hinv := hl.inv
  cases i with
  | init_main_state ctx =>
    exact ⟨fun ⟨_, h⟩ => (init_main_state_eq_ok.mp h).1,
      fun h => ⟨_, init_main_state_eq_ok.mpr ⟨h, rfl⟩⟩⟩
  | transfer_ownership ctx new_owner =>
    constructor
    · rintro ⟨l', h⟩
      obtain ⟨ms, hms, ho, hne, -⟩ := transfer_ownership_eq_ok.mp h
      exact ⟨ms, hms, ho, hne⟩
    · rintro ⟨ms, hms, ho, hne⟩
      exact ⟨_, transfer_ownership_eq_ok.mpr ⟨ms, hms, ho, hne, rfl⟩⟩
  | update_main_state ctx input =>
    constructor
    · rintro ⟨l', h⟩
      obtain ⟨ms, ms', ha, -⟩ := (update_main_state_eq_ok hinv.ata).mp h
      have hfee := BitVec.le_def.mp ha.trading_fee
      rw [MAX_TRADING_FEE_toNat] at hfee
      refine ⟨ms, ha.main_state, ha.owner, ha.quote_minted, ha.quote_mint, ha.fee_recipient,
        hfee, ?_⟩
      simp only [List.forall_mem_cons, List.not_mem_nil, false_implies, implies_true, and_true]
      exact ⟨(exists_update_amount _ _).mp ⟨_, ha.total_supply⟩,
        (exists_update_amount _ _).mp ⟨_, ha.init_virt_base_reserves⟩,
        (exists_update_amount _ _).mp ⟨_, ha.init_virt_quote_reserves⟩,
        (exists_update_amount _ _).mp ⟨_, ha.real_quote_threshold⟩⟩
    · rintro ⟨ms, hms, ho, hmint, hq, hfr, hfee, hamounts⟩
      simp only [List.forall_mem_cons, List.not_mem_nil, false_implies, implies_true, and_true]
        at hamounts
      obtain ⟨hts, hvb, hvq, hthr⟩ := hamounts
      obtain ⟨ts, hts⟩ := (exists_update_amount ms.total_supply .InvalidTotalSupply).mpr hts
      obtain ⟨vb, hvb⟩ :=
        (exists_update_amount ms.init_virt_base_reserves .InvalidInitVirtBaseReserves).mpr hvb
      obtain ⟨vq, hvq⟩ :=
        (exists_update_amount ms.init_virt_quote_reserves .InvalidInitVirtQuoteReserves).mpr hvq
      obtain ⟨thr, hthr⟩ :=
        (exists_update_amount ms.real_quote_threshold .InvalidRealQuoteThreshold).mpr hthr
      exact ⟨_, (update_main_state_eq_ok hinv.ata).mpr ⟨ms, ⟨ms.owner, input.withdrawer,
        input.fee_recipient, input.trading_fee, ts, vb, vq, thr⟩, ⟨hms, ho, hmint, hq, hfr,
          BitVec.le_def.mpr (by rw [MAX_TRADING_FEE_toNat]; exact hfee), hts, hvb, hvq, hthr,
          rfl, rfl, rfl, rfl⟩, rfl⟩⟩
  | create_pool ctx =>
    constructor
    · rintro ⟨l', h⟩
      obtain ⟨ms, mint, hc⟩ := (create_pool_eq_ok hinv.ata).mp h
      exact ⟨ms, mint, hc.accepts, ⟨hc.base_new, hc.quote_new⟩, hc.fits⟩
    · rintro ⟨ms, mint, ha, hrest⟩
      exact (create_pool_succeeds_iff hinv ha).mpr hrest
  | buy_tokens_from_exact_quote ctx q m => exact hinv.exact_quote_succeeds_iff
  | buy_exact_tokens_from_quote ctx b m => exact hinv.exact_tokens_succeeds_iff
  | sell ctx b m => exact hinv.sell_succeeds_iff
  | withdraw ctx =>
    constructor
    · rintro ⟨l', h⟩
      obtain ⟨p, hw⟩ := (withdraw_eq_ok hinv.ata).mp h
      obtain ⟨ms, hms, hwd⟩ := hw.accepts.main_state
      exact ⟨ms, p, hms, hwd.symm, hw.accepts.pool_state, hw.complete, hw.base_pos, hw.quote_pos⟩
    · rintro ⟨ms, p, hms, hwd, hp, hc, hb, hq⟩
      obtain ⟨l', hw⟩ := exists_withdrawn hinv (hinv.accepts_withdraw hms hwd hp) hc hb hq
      exact ⟨l', (withdraw_eq_ok hinv.ata).mpr ⟨p, hw⟩⟩

/-- `bob` has what a buy for 1000 quote tokens takes. -/
theorem execute_succeeds_sample : ∃ l l', Reachable .reference l ∧
    (Instruction.buy_tokens_from_exact_quote ⟨bob, DEFAULT_OWNER, coin, QUOTE_MINT⟩ 1000
      105599).execute .reference l = .ok l' := by
  obtain ⟨l, -, hreach, hms, hp, hbal⟩ := exists_opened
  let ctx : ABuy := ⟨bob, DEFAULT_OWNER, coin, QUOTE_MINT⟩
  have hbal : l.tokens.balance ctx.buyer_quote_ata = 1000000000000000000 := hbal
  have hgives : coin_created.GivesFor (.initial DEFAULT_OWNER) 1000 105599 := by
    unfold PoolState.GivesFor
    decide
  have haff : ctx.Affords l coin_created
      (coin_created.cost_of (.initial DEFAULT_OWNER) 1000 -
        coin_created.input_of (.initial DEFAULT_OWNER) 1000)
      (coin_created.input_of (.initial DEFAULT_OWNER) 1000) := by
    refine ⟨?_, ?_, by decide, by decide⟩
    · rw [hbal]
      decide
    · rw [hbal]
      decide
  obtain ⟨l', hl'⟩ := (execute_succeeds_iff .reference hreach
    (.buy_tokens_from_exact_quote ctx 1000 105599)).mpr
      ⟨_, _, hms, rfl, hp, hgives, haff⟩
  exact ⟨l, l', hreach, hl'⟩

end AliPumpFun
