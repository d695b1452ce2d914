/-
The limits of a trader.

Each trade carries two amounts: what to give and the least to get, or what to get and the
most to give. The limit is checked on one number and the transfers use others, so it is
honoured as far as the numbers agree. They do, to the unit, but for one cast: the
exact-tokens buy checks its total after the cast to 64 bits, and a total that does not fit
is checked as something smaller than what is transferred.
-/
import AliPumpFun.EventLog
import AliPumpFun.Narrowing
import AliPumpFun.Solvency

set_option autoImplicit false

open Words Fallible

namespace AliPumpFun

variable {spl : TokenProgram Pubkey} {l l' : Ledger}

/-- What an instruction that took `l` to `l'` did to its trader's accounts is within the
limits it was given. -/
def Instruction.LimitsHonoured (l l' : Ledger) : Instruction → Prop
  | .buy_tokens_from_exact_quote ctx q m =>
    l.tokens.balance ctx.buyer_quote_ata ≤ l'.tokens.balance ctx.buyer_quote_ata + q.toNat ∧
      l.tokens.balance ctx.buyer_base_ata + m.toNat ≤ l'.tokens.balance ctx.buyer_base_ata
  | .buy_exact_tokens_from_quote ctx b m =>
    l.tokens.balance ctx.buyer_quote_ata ≤ l'.tokens.balance ctx.buyer_quote_ata + m.toNat ∧
      l'.tokens.balance ctx.buyer_base_ata ≤ l.tokens.balance ctx.buyer_base_ata + b.toNat ∧
      (¬ Completes l l' ctx.pool_state →
        l'.tokens.balance ctx.buyer_base_ata = l.tokens.balance ctx.buyer_base_ata + b.toNat)
  | .sell ctx s m =>
    l.tokens.balance ctx.seller_base_ata = l'.tokens.balance ctx.seller_base_ata + s.toNat ∧
      l.tokens.balance ctx.seller_quote_ata + m.toNat ≤ l'.tokens.balance ctx.seller_quote_ata
  | _ => True

/-- What goes into the pool for `b` base tokens, or what remains to the threshold, is below
the net amounts whose total fits 64 bits. -/
def PoolState.TotalFits (p : PoolState) (trading_fee b : U64) : Prop :=
  p.charge b < net_limit trading_fee ∨ p.remaining < net_limit trading_fee

/-- The total of an instruction, made on the ledger `l`, fits 64 bits. -/
def Instruction.TotalFits (l : Ledger) : Instruction → Prop
  | .buy_exact_tokens_from_quote ctx b _ => ∀ ms p, l.main_state = some ms →
    l.pools.lookup ctx.pool_state = some p → p.TotalFits ms.trading_fee b
  | _ => True

section Trades

variable {ms : MainState} {p : PoolState}

theorem ExactTokens.total_fits_iff {b m : U64} {c : Purchase} (h : ExactTokens ms p b m c)
    (htf : ms.trading_fee.toNat < FEE_UNIT) :
    p.TotalFits ms.trading_fee b ↔
      GrossUp.gross ms.trading_fee.toNat FEE_UNIT c.input_quote_amount.toNat < 2 ^ 64 := by
  rw [GrossUp.gross_lt_iff htf, h.input, min_lt_iff]
  rfl

/-- The mints of a pool that exists are two. -/
theorem Inv.pair_of_pool (hinv : Inv l) {b q : Pubkey}
    (hp : l.pools.lookup (.poolState b q) = some p) : b ≠ q := by
  obtain ⟨rfl, rfl⟩ := hinv.mints_of_pool hp
  exact (hinv.pools _ p hp).pair

theorem ExactQuote.limits {ctx : ABuy} {q m : U64} {c : Purchase} (h : ExactQuote ms p q m c)
    (hb : Bought ctx l l' ms p c) (hinv : Inv l) (hfee : ctx.buyer.1 ≠ ctx.fee_recipient) :
    (Instruction.buy_tokens_from_exact_quote ctx q m).LimitsHonoured l l' := by
  obtain ⟨hbase, hquote⟩ := hb.buyer_balances (hinv.pair_of_pool hb.accepts.pool_state) hfee
  have hgross := h.gross
  have henough := h.enough
  have hle := min_le_left q.toNat (GrossUp.gross ms.trading_fee.toNat FEE_UNIT p.remaining)
  exact ⟨by omega, by omega⟩

/-- A purchase that is capped completes the pool. -/
theorem ExactTokens.base_eq_of_not_completes {ctx : ABuy} {b m : U64} {c : Purchase}
    (h : ExactTokens ms p b m c) (hb : Bought ctx l l' ms p c) (hinv : Inv l)
    (hc : ¬ Completes l l' ctx.pool_state) : c.base_amount = b := by
  rcases h.branch with ⟨-, hin, -⟩ | ⟨-, -, hout⟩
  · refine absurd ?_ hc
    rw [completes_iff hb.accepts.pool_state hb.settles.lookup_self]
    exact ⟨h.incomplete, c.settled_completes h.buys
      (hinv.pools _ p hb.accepts.pool_state).quote_le hin⟩
  · exact hout

/-- The limits of an exact-tokens buy come down to what is transferred. -/
theorem ExactTokens.limits_iff {ctx : ABuy} {b m m' : U64} {c : Purchase}
    (h : ExactTokens ms p b m c) (hb : Bought ctx l l' ms p c) (hinv : Inv l)
    (hfee : ctx.buyer.1 ≠ ctx.fee_recipient) :
    (Instruction.buy_exact_tokens_from_quote ctx b m').LimitsHonoured l l' ↔
      c.fee.toNat + c.input_quote_amount.toNat ≤ m'.toNat := by
  obtain ⟨hbase, hquote⟩ := hb.buyer_balances (hinv.pair_of_pool hb.accepts.pool_state) hfee
  have hle := h.base_le
  constructor
  · rintro ⟨hspent, -⟩
    omega
  · intro hspent
    refine ⟨by omega, by omega, fun hc => ?_⟩
    rw [hbase, h.base_eq_of_not_completes hb hinv hc]

theorem Sell.limits {ctx : ASell} {s m : U64} {c : Sale} (h : Sell ms p s m c)
    (hs : Sold ctx s l l' ms p c) (hinv : Inv l) (hfee : ctx.seller.1 ≠ ctx.fee_recipient) :
    (Instruction.sell ctx s m).LimitsHonoured l l' := by
  obtain ⟨hbase, hquote⟩ := hs.seller_balances (hinv.pair_of_pool hs.accepts.pool_state) hfee
  have henough := h.enough
  exact ⟨by omega, by omega⟩

end Trades

/-- A successful instruction whose total fits keeps to the limits. -/
theorem Instruction.TotalFits.limits {i : Instruction} (h : i.TotalFits l) (hinv : Inv l)
    (hfee : ∀ ms, l.main_state = some ms → i.signer.1 ≠ ms.fee_recipient)
    (hok : i.execute spl l = .ok l') : i.LimitsHonoured l l' := by
  cases i with
  | buy_tokens_from_exact_quote ctx q m =>
    obtain ⟨ms, p, c, hx, hb⟩ := hinv.exact_quote_iff.mp hok
    have hne := hfee ms hb.accepts.main_state
    rw [← hb.accepts.fee_recipient] at hne
    exact hx.limits hb hinv hne
  | buy_exact_tokens_from_quote ctx b m =>
    obtain ⟨ms, p, c, hx, hb⟩ := hinv.exact_tokens_iff.mp hok
    have hne := hfee ms hb.accepts.main_state
    rw [← hb.accepts.fee_recipient] at hne
    have htf := (hinv.main_state ms hb.accepts.main_state).trading_fee_lt
    have hlt := (hx.total_fits_iff htf).mp (h ms p hb.accepts.main_state hb.accepts.pool_state)
    have hwithin := hx.within
    rw [hx.limits_iff hb hinv hne, hx.debit, GrossUp.debit_of_lt htf hlt]
    rwa [Nat.mod_eq_of_lt hlt] at hwithin
  | sell ctx s m =>
    obtain ⟨ms, p, c, hx, hs⟩ := hinv.sell_iff.mp hok
    have hne := hfee ms hs.accepts.main_state
    rw [← hs.accepts.fee_recipient] at hne
    exact hx.limits hs hinv hne
  | _ => trivial

/-- An exact-tokens buy that succeeds although its total does not fit also succeeds with the
reduced total as its limit, and spends more than that. -/
theorem exists_limit_exceeded (spl : TokenProgram Pubkey) {ctx : ABuy} {ms : MainState}
    {p : PoolState} {b m : U64} {c : Purchase} (hinv : Inv l) (hx : ExactTokens ms p b m c)
    (hb : Bought ctx l l' ms p c) (hfee : ctx.buyer.1 ≠ ctx.fee_recipient)
    (hfits : ¬ p.TotalFits ms.trading_fee b) :
    ∃ m', buy_exact_tokens_from_quote spl ctx b m' l = .ok l' ∧
      ¬ (Instruction.buy_exact_tokens_from_quote ctx b m').LimitsHonoured l l' := by
  have hpr := hinv.priceable hb.accepts.main_state hb.accepts.pool_state
  rw [hx.total_fits_iff hpr.trading_fee_lt, not_lt] at hfits
  -- the total comes out below the net amount alone
  have hlt := GrossUp.gross_mod_lt hpr.valid.two_mul_trading_fee_le c.input_quote_amount.isLt
    hfits
  obtain ⟨m', hm'⟩ : ∃ m' : U64, m'.toNat =
      GrossUp.gross ms.trading_fee.toNat FEE_UNIT c.input_quote_amount.toNat % 2 ^ 64 :=
    exists_toNat_eq.mpr (Nat.mod_lt _ (by decide))
  have hx' : ExactTokens ms p b m' c := { hx with within := hm'.ge }
  refine ⟨m', hinv.exact_tokens_iff.mpr ⟨ms, p, c, hx', hb⟩, ?_⟩
  rw [hx'.limits_iff hb hinv hfee, hm']
  omega

/-- **When the limits are honoured.** A trade by anybody but the fee recipient keeps to its
limits if its total fits 64 bits, also in runs, and the exact-tokens buy of an amount that
can be bought keeps to every limit exactly then. -/
theorem trader_limits_iff (spl : TokenProgram Pubkey) :
    (∀ (l l' : Ledger) (i : Instruction), Reachable spl l →
      (∀ ms, l.main_state = some ms → i.signer.1 ≠ ms.fee_recipient) →
      i.execute spl l = .ok l' → i.TotalFits l → i.LimitsHonoured l l') ∧
    (∀ (l : Ledger) (ctx : ABuy) (b : U64), Reachable spl l →
      (∀ ms, l.main_state = some ms → ctx.buyer.1 ≠ ms.fee_recipient) →
      (∃ m l', buy_exact_tokens_from_quote spl ctx b m l = .ok l') →
      ((∀ m l', buy_exact_tokens_from_quote spl ctx b m l = .ok l' →
          (Instruction.buy_exact_tokens_from_quote ctx b m).LimitsHonoured l l') ↔
        (Instruction.buy_exact_tokens_from_quote ctx b 0).TotalFits l)) ∧
    ∀ (g l : Ledger) (as : List Action), Genesis g → Runs.run (step spl) g as = .ok l →
      (∀ done i rest m, as = done ++ .ix i :: rest → Runs.run (step spl) g done = .ok m →
        i.TotalFits m) →
      ∀ done i rest m m', as = done ++ .ix i :: rest → Runs.run (step spl) g done = .ok m →
        (∀ ms, m.main_state = some ms → i.signer.1 ≠ ms.fee_recipient) →
        i.execute spl m = .ok m' → i.LimitsHonoured m m' := by
  refine ⟨?_, ?_, ?_⟩
  · intro l l' i hl hfee hok hfits
    exact hfits.limits hl.inv hfee hok
  · rintro l ctx b hl hfee ⟨m, l', hok⟩
    have hinv := hl.inv
    constructor
    · intro hall ms p hms hp
      obtain ⟨ms', p', c, hx, hb⟩ := hinv.exact_tokens_iff.mp hok
      obtain rfl := Option.some_inj.mp (hms.symm.trans hb.accepts.main_state)
      obtain rfl := Option.some_inj.mp (hp.symm.trans hb.accepts.pool_state)
      have hne := hfee ms hms
      rw [← hb.accepts.fee_recipient] at hne
      by_contra hfits
      obtain ⟨m', hok', hnot⟩ := exists_limit_exceeded spl hinv hx hb hne hfits
      exact hnot (hall m' l' hok')
    · intro hfits m' l'' hok'
      exact Instruction.TotalFits.limits (i := .buy_exact_tokens_from_quote ctx b m') hfits hinv
        hfee hok'
  · intro g l as hg _ hrange done i rest m m' has hm hfee hok
    exact (hrange done i rest m has hm).limits (hg.inv.run hm) hfee hok

/-- `bob` buys 1000000 base tokens of a new pool and spends at most the 10000 quote tokens he
allows. -/
theorem trader_limits_sample : ∃ l l' : Ledger, Reachable .reference l ∧
    (Instruction.buy_exact_tokens_from_quote ⟨bob, DEFAULT_OWNER, coin, QUOTE_MINT⟩ 1000000
      10000).LimitsHonoured l l' := by
  let i : Instruction :=
    .buy_exact_tokens_from_quote ⟨bob, DEFAULT_OWNER, coin, QUOTE_MINT⟩ 1000000 10000
  obtain ⟨l, hl, hreach, hms₀, hp₀, -⟩ := exists_opened
  obtain ⟨l', hstep, -⟩ := Runs.exists_step_eq_ok hl (a := .ix i) (f := fun _ => ()) (b := ())
    (by decide +kernel)
  refine ⟨l, l', hreach, (trader_limits_iff .reference).1 l l' i hreach ?_ hstep ?_⟩
  · intro ms hms
    obtain rfl := Option.some_inj.mp (hms.symm.trans hms₀)
    decide
  · intro ms p hms hp
    obtain rfl := Option.some_inj.mp (hms.symm.trans hms₀)
    obtain rfl := Option.some_inj.mp (hp.symm.trans hp₀)
    exact .inl (by decide)

/-- At a fee of 5%, 100 base tokens that cost 17.8 quintillion quote tokens have a total of
18.7 quintillion. It is cast to 0.29 quintillion, which is within the limit, and all of the
17.8 quintillion is transferred. -/
theorem limit_exceeded :
    ¬ ∀ (spl : TokenProgram Pubkey) (l l' : Ledger) (i : Instruction), Reachable spl l →
      (∀ ms, l.main_state = some ms → i.signer.1 ≠ ms.fee_recipient) →
      i.execute spl l = .ok l' → i.LimitsHonoured l l' := by
  intro h
  let g : Ledger := .launch alice bob coin 100 18446744073709551615
  have hg : Genesis g := Ledger.launch_genesis (by decide) _ _
  let as : List Action :=
    [.ix (.init_main_state ⟨default_owner, QUOTE_MINT⟩),
      .ix (.update_main_state ⟨default_owner, QUOTE_MINT, DEFAULT_OWNER⟩ {
        withdrawer := DEFAULT_OWNER
        fee_recipient := DEFAULT_OWNER
        trading_fee := 5000
        total_supply := some 100
        init_virt_base_reserves := some 1
        init_virt_quote_reserves := some 178000000000000000
        real_quote_threshold := some 17900000000000000000 }),
      .ix (.create_pool ⟨alice, coin, QUOTE_MINT⟩)]
  let ctx : ABuy := ⟨bob, DEFAULT_OWNER, coin, QUOTE_MINT⟩
  let i : Instruction := .buy_exact_tokens_from_quote ctx 100 290098031553606278
  obtain ⟨l, hl, hv⟩ := exists_eq_ok (x := Runs.run (step .reference) g as)
    (f := fun l => (l.main_state.map MainState.fee_recipient,
      l.tokens.balance ctx.buyer_quote_ata))
    (b := (some DEFAULT_OWNER, 18446744073709551615)) (by decide +kernel)
  obtain ⟨l', hstep, hafter⟩ := Runs.exists_step_eq_ok hl (a := .ix i)
    (f := fun l => l.tokens.balance ctx.buyer_quote_ata) (b := 632239172131871302)
    (by decide +kernel)
  simp only [Prod.mk.injEq] at hv
  obtain ⟨hspent, -⟩ := h .reference l l' i ⟨g, as, hg, hl⟩ (by
    intro ms hms
    rw [hms] at hv
    rw [Option.some_inj.mp hv.1]
    decide) hstep
  rw [hv.2, hafter] at hspent
  exact absurd hspent (by decide)

end AliPumpFun
