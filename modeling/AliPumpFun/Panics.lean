/-
When an instruction panics.

A refusal has an error code; a failed `unwrap` and an overflow have none. On a reachable
ledger most of the program's `unwrap`s cannot fail, and this file says exactly which can and
on which arguments:

* the sum of the base amounts in the event of a creation;
* the sum that the cap of a buy, of either kind, compares with the threshold;
* the base tokens that an exact-quote buy gets and the pool has not got;
* the sums in the event of a buy that can be paid for: the total reserves of quote tokens, and
  for an exact-tokens buy, whose fee a cast may have cut, the amount that is paid;
* the quote tokens that a sell brings and the pool has not got.

The order of the checks matters: a buy that is too small to be accepted does not panic.
Reachable means by the actions of `Chain`, as everywhere.

The computation is followed from its end: what comes before a panic has succeeded, so it is
known from the equivalences on success.
-/
import AliPumpFun.Calls
import AliPumpFun.Admission

set_option autoImplicit false

open Words Fallible

namespace AliPumpFun

variable {spl : TokenProgram Pubkey} {l : Ledger}

/-! ## Panics -/

/-- The computation panics. -/
def Panicked {α : Type} (x : Result α) : Prop := x = .error .panic

section Panicked

variable {α β : Type} {x : Result α} {t : Bank Pubkey}

@[simp] theorem panicked_bind {f : α → Result β} :
    Panicked (x >>= f) ↔ Panicked x ∨ ∃ a, x = .ok a ∧ Panicked (f a) := bind_eq_error

@[simp] theorem panicked_map {f : α → β} : Panicked (f <$> x) ↔ Panicked x := by
  unfold Panicked
  cases x <;> simp [Functor.map, Except.map]

theorem not_panicked_of_ok {a : α} (h : x = .ok a) : ¬ Panicked x := by
  rw [h]
  intro hp
  cases hp

@[simp] theorem panicked_ok {a : α} : ¬ Panicked (.ok a : Result α) := not_panicked_of_ok rfl

@[simp] theorem panicked_pure {a : α} : ¬ Panicked (pure a : Result α) := not_panicked_of_ok rfl

@[simp] theorem panicked_unwrap {o : Option α} : Panicked (unwrap o) ↔ o = none := by
  rw [Panicked, unwrap, getOrError_eq_error, and_iff_left rfl]

@[simp] theorem panicked_require {c : Prop} [Decidable c] {e : PumpFunError} :
    ¬ Panicked (require c e) := by
  rw [Panicked, require, require_eq_error]
  simp

@[simp] theorem panicked_constraint {c : Prop} [Decidable c] {e : AccountError} :
    ¬ Panicked (constraint c e) := by
  rw [Panicked, constraint, require_eq_error]
  simp

@[simp] theorem panicked_load {o : Option α} : ¬ Panicked (load o) := by
  rw [Panicked, load, getOrError_eq_error]
  simp

@[simp] theorem panicked_transfer {s d authority : Pubkey} {n : U64} :
    ¬ Panicked (transfer spl t s d authority n) := by
  unfold Panicked transfer
  cases spl.transfer t s d authority n <;> simp [Except.mapError]

@[simp] theorem panicked_init_ata {o m : Pubkey} : ¬ Panicked (init_ata spl t o m) := by
  unfold Panicked init_ata
  cases spl.create t (.ata o m) o m <;> simp [Except.mapError]

@[simp] theorem panicked_init_ata_if_needed {o m : Pubkey} :
    ¬ Panicked (init_ata_if_needed spl t o m) := by
  unfold init_ata_if_needed
  split <;> simp

@[simp] theorem panicked_associated_token {o m : Pubkey} :
    ¬ Panicked (associated_token t o m) := by
  simp [associated_token]

@[simp] theorem panicked_update_amount {current : U64} {input : Option U64} {e : PumpFunError} :
    ¬ Panicked (update_amount current input e) := by
  unfold update_amount
  split <;> simp

end Panicked

/-! The account checks take no sums. -/

@[simp] theorem ABuy.panicked_try_accounts {ctx : ABuy} : ¬ Panicked (ctx.try_accounts spl l) := by
  simp [ABuy.try_accounts]

@[simp] theorem ASell.panicked_try_accounts {ctx : ASell} {b : U64} :
    ¬ Panicked (ctx.try_accounts spl b l) := by
  simp [ASell.try_accounts]

@[simp] theorem AWithdraw.panicked_try_accounts {ctx : AWithdraw} :
    ¬ Panicked (ctx.try_accounts spl l) := by
  simp [AWithdraw.try_accounts]

/-! ## The decisions

None of the calls they make panics; what is left are the sums and differences they take
themselves. -/

section Decisions

variable {ms : MainState} {p : PoolState} {q m b : U64}

theorem exists_trading_fee (htf : ms.trading_fee.toNat < FEE_UNIT) (n : U64) :
    ∃ f, calculate_trading_fee ms.trading_fee n = .ok f ∧
      f.toNat = GrossUp.fee ms.trading_fee.toNat FEE_UNIT n.toNat :=
  (Call.trading_fee_exact htf.le).2

theorem Priceable.exists_receivable_on_buy (hpr : Priceable ms p) (n : U64) :
    ∃ o, p.compute_receivable_amount_on_buy n = .ok o ∧
      o.toNat = ConstantProduct.output n.toNat p.quote p.base :=
  (Call.receivable_on_buy_exact hpr.fits hpr.quote_pos).2

theorem Priceable.exists_receivable_on_sell (hpr : Priceable ms p) (n : U64) :
    ∃ o, p.compute_receivable_amount_on_sell n = .ok o ∧
      o.toNat = ConstantProduct.output n.toNat p.base p.quote :=
  (Call.receivable_on_sell_exact hpr.fits hpr.base_pos).2

theorem Priceable.panicked_restrict_quote_amount (hpr : Priceable ms p) :
    Panicked (restrict_quote_amount ms.trading_fee p q) ↔
      2 ^ 64 ≤ p.real_quote_reserves.toNat +
        GrossUp.net ms.trading_fee.toNat FEE_UNIT q.toNat := by
  have htf := hpr.trading_fee_lt
  have hq := GrossUp.fee_add_net htf.le q.toNat
  obtain ⟨f, hf, hfee⟩ := exists_trading_fee htf q
  obtain ⟨n, hn, hnet⟩ := exists_checked_sub (x := q) (y := f) (by omega)
  have hsum : p.real_quote_reserves.toNat + n.toNat = p.real_quote_reserves.toNat +
      GrossUp.net ms.trading_fee.toNat FEE_UNIT q.toNat := by omega
  rw [← hsum]
  by_cases hlt : p.real_quote_reserves.toNat + n.toNat < 2 ^ 64
  · refine iff_of_false ?_ hlt.not_ge
    obtain ⟨t, ht⟩ : ∃ t : U64, t.toNat = p.cost_of ms q :=
      exists_toNat_eq.mpr ((min_le_left _ _).trans_lt q.isLt)
    obtain ⟨f', -, hf'⟩ := exists_trading_fee htf t
    exact not_panicked_of_ok
      ((restrict_quote_amount_eq_ok (t := t) (f := f') htf hpr.quote_le).mpr
        ⟨hsum ▸ hlt, ht, hf'⟩)
  · refine iff_of_true ?_ (by omega)
    have hnone : checked_add p.real_quote_reserves n = none :=
      checked_add_eq_none.mpr (by omega)
    simp only [restrict_quote_amount, panicked_bind, panicked_unwrap, unwrap_eq_ok, hf, hn, hnone,
      Except.ok.injEq, Option.some.injEq, exists_eq_left', true_or, or_true]

/-- An exact-quote buy panics on a sum that does not fit, and where the buyer would take more than
the pool has. -/
theorem Priceable.panicked_exact_quote (hpr : Priceable ms p) :
    Panicked (price_exact_quote ms p q m) ↔ 0 < q.toNat ∧ p.complete = false ∧
      (2 ^ 64 ≤ p.real_quote_reserves.toNat +
          GrossUp.net ms.trading_fee.toNat FEE_UNIT q.toNat ∨
        m.toNat ≤ ConstantProduct.output (p.input_of ms q) p.quote p.base ∧
          p.real_base_reserves.toNat <
            ConstantProduct.output (p.input_of ms q) p.quote p.base) := by
  have htf := hpr.trading_fee_lt
  have hpos : (0 : U64) < q ↔ 0 < q.toNat := by simp [BitVec.lt_def]
  simp only [price_exact_quote, panicked_bind, panicked_require, false_or, require_eq_ok,
    exists_const, hpos, hpr.panicked_restrict_quote_amount]
  refine and_congr_right fun _ => and_congr_right fun _ => ?_
  by_cases hsum : 2 ^ 64 ≤ p.real_quote_reserves.toNat +
      GrossUp.net ms.trading_fee.toNat FEE_UNIT q.toNat
  · simp only [hsum, true_or]
  · have hnet := GrossUp.fee_add_net htf.le (p.cost_of ms q)
    rw [PoolState.cost_of, GrossUp.net_min_gross htf, ← PoolState.cost_of,
      ← PoolState.input_of] at hnet
    have hrem : p.input_of ms q ≤ p.remaining := min_le_right _ _
    have hthr := hpr.quote_le
    rw [PoolState.remaining] at hrem
    -- the words that are there before the pool's base tokens are counted
    obtain ⟨t, ht⟩ : ∃ t : U64, t.toNat = p.cost_of ms q :=
      exists_toNat_eq.mpr ((min_le_left _ _).trans_lt q.isLt)
    obtain ⟨f, -, hf⟩ := exists_trading_fee htf t
    have hrestrict : restrict_quote_amount ms.trading_fee p q = .ok (t, f) :=
      (restrict_quote_amount_eq_ok htf hpr.quote_le).mpr ⟨by omega, ht, hf⟩
    rw [ht] at hf
    obtain ⟨i, hi, hinput⟩ := exists_checked_sub (x := t) (y := f) (by omega)
    obtain ⟨o, ho, hout⟩ := hpr.exists_receivable_on_buy i
    obtain ⟨rq, hrq, -⟩ := exists_checked_add (x := p.real_quote_reserves) (y := i)
      (lt_of_le_of_lt (by omega) p.real_quote_threshold.isLt)
    rw [show i.toNat = p.input_of ms q by omega] at hout
    simp only [hsum, hrestrict, Except.ok.injEq, exists_eq_left', false_or, unwrap_eq_ok, hi, ho,
      hrq, panicked_ok, panicked_unwrap, Option.some.injEq, reduceCtorEq]
    simp only [panicked_pure, and_false, exists_false, or_false, BitVec.le_def,
      checked_sub_eq_none, hout]

/-- An exact-tokens buy panics on a sum that does not fit, and nowhere else: it asks for at most
what the pool has. -/
theorem Priceable.panicked_exact_tokens (hpr : Priceable ms p) :
    Panicked (price_exact_tokens ms p b m) ↔ p.complete = false ∧
      (0 < b.toNat ∧ b.toNat ≤ p.real_base_reserves.toNat) ∧
        2 ^ 64 ≤ p.real_quote_reserves.toNat + p.charge b := by
  have hpos : (0 : U64) < b ↔ 0 < b.toNat := by simp [BitVec.lt_def]
  simp only [price_exact_tokens, panicked_bind, panicked_require, false_or, require_eq_ok,
    exists_const, hpos, BitVec.le_def]
  refine and_congr_right fun hopen => and_congr_right fun hb => ?_
  by_cases hsum : 2 ^ 64 ≤ p.real_quote_reserves.toNat + p.charge b
  · refine iff_of_true (.inl ?_) hsum
    obtain ⟨i, hi, hval⟩ := Call.exists_required_on_buy hpr.fits (hpr.lt_base hb.2)
    change p.compute_required_amount_on_buy b = .ok i at hi
    have hnone : checked_add p.real_quote_reserves i = none := by
      rw [checked_add_eq_none, hval]
      exact hsum
    simp only [restrict_base_amount, panicked_bind, panicked_unwrap, hi, hnone, Except.ok.injEq,
      exists_eq_left', true_or, or_true]
  · refine iff_of_false ?_ hsum
    -- with the largest limit the buy is decided, and the limit only guards it
    obtain ⟨c, hx⟩ := hpr.exists_exact_tokens (m := BitVec.allOnes 64) (b := b) |>.mpr
      ⟨hb, hopen, by omega, by
        rw [BitVec.toNat_allOnes]
        exact Nat.le_sub_one_of_lt (Nat.mod_lt _ (by decide))⟩
    have hok := (price_exact_tokens_eq_ok hpr.trading_fee_lt hpr.quote_le).mpr hx
    simp only [price_exact_tokens, bind_eq_ok, unwrap_eq_ok] at hok
    obtain ⟨-, -, -, -, r, hr, t, ht, f, hf, -, -, rb, hrb, rq, hrq, -⟩ := hok
    simp only [hr, ht, hf, hrb, hrq, panicked_ok, panicked_unwrap, panicked_pure, reduceCtorEq,
      Except.ok.injEq, exists_eq_left', and_false, exists_false, or_false, not_false_eq_true]

theorem Priceable.panicked_sell (hpr : Priceable ms p)
    (hfit : p.real_base_reserves.toNat + b.toNat < 2 ^ 64) :
    Panicked (price_sell ms p b m) ↔ 0 < b.toNat ∧ p.complete = false ∧
      m.toNat ≤ GrossUp.net ms.trading_fee.toNat FEE_UNIT
        (ConstantProduct.output b.toNat p.base p.quote) ∧
      p.real_quote_reserves.toNat < ConstantProduct.output b.toNat p.base p.quote := by
  have htf := hpr.trading_fee_lt
  have hpos : (0 : U64) < b ↔ 0 < b.toNat := by simp [BitVec.lt_def]
  obtain ⟨g, hg, hgross⟩ := hpr.exists_receivable_on_sell b
  obtain ⟨f, hf, hfee⟩ := exists_trading_fee htf g
  have hnet := GrossUp.fee_add_net htf.le g.toNat
  obtain ⟨o, ho, hout⟩ := exists_checked_sub (x := g) (y := f) (by omega)
  obtain ⟨rb, hrb, -⟩ := exists_checked_add hfit
  have ho' : o.toNat = GrossUp.net ms.trading_fee.toNat FEE_UNIT g.toNat := by omega
  rw [hgross] at ho'
  simp only [price_sell, panicked_bind, panicked_require, false_or, require_eq_ok, exists_const,
    hpos, hg, hf, ho, hrb, panicked_ok, panicked_unwrap, unwrap_eq_ok, Except.ok.injEq,
    Option.some.injEq, exists_eq_left', reduceCtorEq, panicked_pure, and_false, or_false,
    BitVec.le_def, ho']
  rw [checked_sub_eq_none, hgross]

end Decisions

/-! ## The trades -/

/-- A decided purchase panics when the buyer can make his payments and a sum of the event does not
fit. -/
theorem Purchase.Buys.panicked_finalize {ctx : ABuy} {ms : MainState} {p : PoolState}
    {c : Purchase} (h : c.Buys p) (hinv : Inv l) (ha : ctx.Accepts l ms p) :
    Panicked (buy_finalize spl ctx l (ensured l.tokens ctx.opens) c) ↔
      ctx.CanPay l c.fee.toNat c.input_quote_amount.toNat ∧
        (2 ^ 64 ≤ c.fee.toNat + c.input_quote_amount.toNat ∨
          2 ^ 64 ≤ p.quote + c.input_quote_amount.toNat) := by
  have hfit : c.pool_state.base < 2 ^ 64 := by
    have := h.moves.base_eq
    have := h.fits.base
    omega
  rw [PoolState.base, Nat.add_comm] at hfit
  obtain ⟨br, hbr, -⟩ := exists_checked_add hfit
  have hquote : c.pool_state.virt_quote_reserves.toNat + c.pool_state.real_quote_reserves.toNat =
      p.quote + c.input_quote_amount.toNat := h.moves.quote_eq
  rw [← h.exists_paid_iff hinv ha]
  simp only [buy_finalize, panicked_bind, panicked_transfer, false_or, panicked_unwrap,
    unwrap_eq_ok, hbr, Option.some.injEq, exists_eq_left', reduceCtorEq, apply_ite Panicked,
    panicked_pure, ite_self, and_false, exists_false, or_false, checked_add_eq_none, hquote,
    transfer_eq_ok]
  constructor
  · rintro ⟨t₁, h₁, t₂, h₂, t₃, h₃, hsums⟩
    refine ⟨⟨t₃, t₁, h₁, t₂, h₂, t₃, h₃, rfl⟩, hsums.imp_right ?_⟩
    rintro ⟨-, -, hq⟩
    exact hq
  · rintro ⟨⟨t, t₁, h₁, t₂, h₂, t₃, h₃, -⟩, hsums⟩
    refine ⟨t₁, h₁, t₂, h₂, t₃, h₃, ?_⟩
    by_cases hs : 2 ^ 64 ≤ c.fee.toNat + c.input_quote_amount.toNat
    · exact .inl hs
    · obtain ⟨z, hz, -⟩ := exists_checked_add (not_le.mp hs)
      exact .inr ⟨z, hz, hsums.resolve_left hs⟩

/-- What a buy comes to after its account checks. -/
theorem ABuy.panicked_iff {ctx : ABuy} (price : MainState → PoolState → Result Purchase)
    (hinv : Inv l) :
    Panicked (do
        let (main_state, pool_state, tokens) ← ctx.try_accounts spl l
        let c ← price main_state pool_state
        buy_finalize spl ctx l tokens c) ↔
      ∃ ms p, ctx.Accepts l ms p ∧ (Panicked (price ms p) ∨ ∃ c, price ms p = .ok c ∧
        Panicked (buy_finalize spl ctx l (ensured l.tokens ctx.opens) c)) := by
  simp only [panicked_bind, panicked_try_accounts, false_or, Prod.exists,
    try_accounts_eq_ok hinv.ata]
  constructor
  · rintro ⟨ms, p, t, ⟨ha, rfl⟩, h⟩
    exact ⟨ms, p, ha, h⟩
  · rintro ⟨ms, p, ha, h⟩
    exact ⟨ms, p, _, ⟨ha, rfl⟩, h⟩

/-! ## All instructions -/

/-- When an instruction panics on a ledger. -/
def Instruction.Panics (l : Ledger) : Instruction → Prop
  | .create_pool ctx =>
    ∃ ms mint, ctx.Accepts l ms mint ∧
      (ctx.reserver_base_ata ∉ l.tokens ∧ ctx.reserver_quote_ata ∉ l.tokens) ∧
      2 ^ 64 ≤ ms.total_supply.toNat + ms.init_virt_base_reserves.toNat
  | .buy_tokens_from_exact_quote ctx q m =>
    ∃ ms p, l.main_state = some ms ∧ ctx.fee_recipient = ms.fee_recipient ∧
      l.pools.lookup ctx.pool_state = some p ∧ 0 < q.toNat ∧ p.complete = false ∧
      (2 ^ 64 ≤ p.real_quote_reserves.toNat +
          GrossUp.net ms.trading_fee.toNat FEE_UNIT q.toNat ∨
        m.toNat ≤ ConstantProduct.output (p.input_of ms q) p.quote p.base ∧
          (p.real_base_reserves.toNat < ConstantProduct.output (p.input_of ms q) p.quote p.base ∨
            ctx.CanPay l (p.cost_of ms q - p.input_of ms q) (p.input_of ms q) ∧
              2 ^ 64 ≤ p.quote + p.input_of ms q))
  | .buy_exact_tokens_from_quote ctx b m =>
    ∃ ms p, l.main_state = some ms ∧ ctx.fee_recipient = ms.fee_recipient ∧
      l.pools.lookup ctx.pool_state = some p ∧ p.complete = false ∧
      (0 < b.toNat ∧ b.toNat ≤ p.real_base_reserves.toNat) ∧
      (2 ^ 64 ≤ p.real_quote_reserves.toNat + p.charge b ∨
        p.total_of ms b ≤ m.toNat ∧
          ctx.CanPay l (GrossUp.fee ms.trading_fee.toNat FEE_UNIT (p.total_of ms b))
            (p.charge_of b) ∧
          (2 ^ 64 ≤ GrossUp.fee ms.trading_fee.toNat FEE_UNIT (p.total_of ms b) + p.charge_of b ∨
            2 ^ 64 ≤ p.quote + p.charge_of b))
  | .sell ctx b m =>
    ∃ ms p, l.main_state = some ms ∧ ctx.fee_recipient = ms.fee_recipient ∧
      l.pools.lookup ctx.pool_state = some p ∧ b.toNat ≤ l.tokens.balance ctx.seller_base_ata ∧
      0 < b.toNat ∧ p.complete = false ∧
      m.toNat ≤ GrossUp.net ms.trading_fee.toNat FEE_UNIT
        (ConstantProduct.output b.toNat p.base p.quote) ∧
      p.real_quote_reserves.toNat < ConstantProduct.output b.toNat p.base p.quote
  | _ => False

/-- The creator pays what the account was checked to hold. -/
theorem ACreatePool.Accepts.exists_paid {ctx : ACreatePool} {ms : MainState} {mint : Mint}
    (ha : ctx.Accepts l ms mint) (hinv : Inv l) :
    ∃ t, (ensured l.tokens ctx.opens).Paid (ctx.payments mint.supply) t := by
  have hcreator : ctx.creator_base_ata ∈ ensured l.tokens ctx.opens :=
    mem_ensured.mpr (.inl (Finmap.mem_of_lookup_eq_some ha.creator_base))
  have hreserver : ctx.reserver_base_ata ∈ ensured l.tokens ctx.opens :=
    ata_mem_ensured (by simp [opens, pool_state])
  refine Bank.exists_paid_cons ?_ (hinv.total_lt ctx.opens) ?_ fun x => ?_
  · intro x hx
    rw [List.mem_singleton.mp hx]
    exact hinv.ata.ensured.payable hcreator hreserver
  · rw [balance_ensured, Bank.balance_of_lookup ha.creator_base]
  · rw [balance_ensured]
    by_cases hx : x = ctx.creator_base_ata
    · rw [hx, Bank.balance_of_lookup ha.creator_base]
      simp [Bank.outgoing]
    · simp [Bank.outgoing, hx]

theorem Inv.panicked_create_pool {ctx : ACreatePool} (hinv : Inv l) :
    Panicked (create_pool spl ctx l) ↔ (Instruction.create_pool ctx).Panics l := by
  have hwf := hinv.ata
  simp only [create_pool, panicked_bind, panicked_load, panicked_constraint, panicked_require,
    panicked_associated_token, panicked_init_ata, panicked_transfer, panicked_unwrap,
    panicked_pure, load_eq_ok, constraint_eq_ok, require_eq_ok, associated_token_eq_ok,
    init_ata_eq_ensure, transfer_eq_ok, checked_add_eq_none, exists_const, false_or, and_false,
    or_false]
  constructor
  · rintro ⟨ms, hms, hnew, mint, hmint, hpair, qm, hqm, hq, ⟨am, ao, an⟩, ⟨ha, rfl⟩, _, ⟨hb, rfl⟩,
      _, -, -, _, ⟨hqn, rfl⟩, rfl, htot, hma, hfa, t, ht, hsum⟩
    obtain rfl : am = ctx.base_mint := (hwf _ _ _ ha).2
    exact ⟨ms, mint, ⟨hms, hnew, hmint, hpair, ⟨qm, hqm⟩, hq, ha, htot, by simpa using hma,
      by simpa using hfa⟩, ⟨hb, fun h => hqn (mem_ensure.mpr (.inl h))⟩, hsum⟩
  · rintro ⟨ms, mint, ha, ⟨hb, hqn⟩, hsum⟩
    obtain ⟨qm, hqm⟩ := ha.quote_minted
    have hmem : Pubkey.ata ctx.pool_state ctx.quote_mint ∉
        ensure l.tokens ctx.pool_state ctx.base_mint := by
      rw [mem_ensure]
      rintro (h | h)
      · exact hqn h
      · exact ha.pair (Pubkey.ata.inj h).2.symm
    have hnew : (ensure l.tokens ctx.pool_state ctx.base_mint).lookup ctx.reserver_base_ata =
        some ⟨ctx.base_mint, ctx.pool_state, 0⟩ := by
      rw [ensure, if_neg (show Pubkey.ata ctx.pool_state ctx.base_mint ∉ l.tokens from hb)]
      exact Finmap.lookup_insert _
    obtain ⟨t, t', ht, -⟩ := ha.exists_paid hinv
    exact ⟨ms, ha.main_state, ha.pool_new, mint, ha.base_mint, ha.pair, qm, hqm, ha.quote_mint, _,
      ⟨ha.creator_base, rfl⟩, _, ⟨hb, rfl⟩, _, hnew, rfl, _, ⟨hmem, rfl⟩, rfl, ha.total_supply,
      by simp [ha.mint_authority], by simp [ha.freeze_authority], t', ht, hsum⟩

theorem Inv.panicked_exact_quote {ctx : ABuy} {q m : U64} (hinv : Inv l) :
    Panicked (buy_tokens_from_exact_quote spl ctx q m l) ↔
      (Instruction.buy_tokens_from_exact_quote ctx q m).Panics l := by
  rw [buy_tokens_from_exact_quote, ctx.panicked_iff (fun ms p => price_exact_quote ms p q m) hinv]
  constructor
  · rintro ⟨ms, p, ha, h⟩
    have hpr := hinv.priceable ha.main_state ha.pool_state
    refine ⟨ms, p, ha.main_state, ha.fee_recipient, ha.pool_state, ?_⟩
    rcases h with h | ⟨c, hc, h⟩
    · obtain ⟨hq, hopen, hfail⟩ := hpr.panicked_exact_quote.mp h
      exact ⟨hq, hopen, hfail.imp_right fun hout => ⟨hout.1, .inl hout.2⟩⟩
    · have hx := (price_exact_quote_eq_ok hpr.trading_fee_lt hpr.quote_le).mp hc
      obtain ⟨hpay, hsums⟩ := (hx.buys.panicked_finalize hinv ha).mp h
      have hspent : ¬ 2 ^ 64 ≤ c.fee.toNat + c.input_quote_amount.toNat := by
        rw [hx.gross]
        exact (lt_of_le_of_lt (min_le_left _ _) q.isLt).not_ge
      have hm := hx.enough
      have hquote := hsums.resolve_left hspent
      rw [hx.amounts.1, hx.amounts.2] at hpay
      rw [hx.amounts.2] at hquote
      rw [hx.base, hx.amounts.2] at hm
      exact ⟨hx.amount_pos, hx.incomplete, .inr ⟨hm, .inr ⟨hpay, hquote⟩⟩⟩
  · rintro ⟨ms, p, hms, hfee, hp, hq, hopen, h⟩
    have ha := hinv.accepts_buy hms hfee hp
    have hpr := hinv.priceable hms hp
    refine ⟨ms, p, ha, ?_⟩
    -- where the decision does not panic it is made, and the payments decide
    by_cases hprice : Panicked (price_exact_quote ms p q m)
    · exact .inl hprice
    · rw [hpr.panicked_exact_quote] at hprice
      push Not at hprice
      obtain ⟨hsum, hroom⟩ := hprice hq hopen
      obtain ⟨hm, hrest⟩ := h.resolve_left hsum.not_ge
      obtain ⟨hpay, hquote⟩ := hrest.resolve_left (hroom hm).not_gt
      obtain ⟨c, hx⟩ := hpr.exists_exact_quote.mpr ⟨hq, hopen, hsum, hm, hroom hm⟩
      rw [← hx.amounts.1, ← hx.amounts.2] at hpay
      rw [← hx.amounts.2] at hquote
      exact .inr ⟨c, (price_exact_quote_eq_ok hpr.trading_fee_lt hpr.quote_le).mpr hx,
        (hx.buys.panicked_finalize hinv ha).mpr ⟨hpay, .inr hquote⟩⟩

theorem Inv.panicked_exact_tokens {ctx : ABuy} {b m : U64} (hinv : Inv l) :
    Panicked (buy_exact_tokens_from_quote spl ctx b m l) ↔
      (Instruction.buy_exact_tokens_from_quote ctx b m).Panics l := by
  rw [buy_exact_tokens_from_quote, ctx.panicked_iff (fun ms p => price_exact_tokens ms p b m) hinv]
  constructor
  · rintro ⟨ms, p, ha, h⟩
    have hpr := hinv.priceable ha.main_state ha.pool_state
    refine ⟨ms, p, ha.main_state, ha.fee_recipient, ha.pool_state, ?_⟩
    rcases h with h | ⟨c, hc, h⟩
    · obtain ⟨hopen, hb, hsum⟩ := hpr.panicked_exact_tokens.mp h
      exact ⟨hopen, hb, .inl hsum⟩
    · have hx := (price_exact_tokens_eq_ok hpr.trading_fee_lt hpr.quote_le).mp hc
      obtain ⟨hpay, hsums⟩ := (hx.buys.panicked_finalize hinv ha).mp h
      have hm := hx.within
      rw [hx.amounts.1, hx.amounts.2] at hpay hsums
      rw [hx.amounts.2] at hm
      exact ⟨hx.incomplete, ⟨hx.amount_pos, hx.amount_le⟩, .inr ⟨hm, hpay, hsums⟩⟩
  · rintro ⟨ms, p, hms, hfee, hp, hopen, hb, h⟩
    have ha := hinv.accepts_buy hms hfee hp
    have hpr := hinv.priceable hms hp
    refine ⟨ms, p, ha, ?_⟩
    by_cases hprice : Panicked (price_exact_tokens ms p b m)
    · exact .inl hprice
    · rw [hpr.panicked_exact_tokens] at hprice
      push Not at hprice
      have hsum := hprice hopen hb
      obtain ⟨hm, hpay, hsums⟩ := h.resolve_left hsum.not_ge
      obtain ⟨c, hx⟩ := hpr.exists_exact_tokens.mpr ⟨hb, hopen, hsum, hm⟩
      rw [← hx.amounts.1, ← hx.amounts.2] at hpay hsums
      exact .inr ⟨c, (price_exact_tokens_eq_ok hpr.trading_fee_lt hpr.quote_le).mpr hx,
        (hx.buys.panicked_finalize hinv ha).mpr ⟨hpay, hsums⟩⟩

theorem Inv.panicked_sell {ctx : ASell} {b m : U64} (hinv : Inv l) :
    Panicked (AliPumpFun.sell spl ctx b m l) ↔ (Instruction.sell ctx b m).Panics l := by
  constructor
  · intro h
    have hsell := h
    simp only [AliPumpFun.sell, panicked_bind, ASell.panicked_try_accounts, false_or, Prod.exists,
      ASell.try_accounts_eq_ok hinv.ata] at hsell
    obtain ⟨ms, p, t, ⟨ha, -⟩, hprice⟩ := hsell
    have hpr := hinv.priceable ha.main_state ha.pool_state
    refine ⟨ms, p, ha.main_state, ha.fee_recipient, ha.pool_state, ha.funded, ?_⟩
    rcases hprice with hprice | ⟨c, hc, -⟩
    · exact (hpr.panicked_sell (hinv.sell_room ha.pool_state ha.funded)).mp hprice
    · -- a decided sale goes through
      have hx := (price_sell_eq_ok hpr.trading_fee_lt).mp hc
      obtain ⟨l', hs⟩ := hx.exists_sold hinv ha
      exact absurd h (not_panicked_of_ok ((sell_eq_ok hinv.ata).mpr ⟨ms, p, c, hc, hs⟩))
  · rintro ⟨ms, p, hms, hfee, hp, hfunded, hb, hopen, hrest⟩
    have ha := hinv.accepts_sell hms hfee hp hb hfunded
    have hprice := ((hinv.priceable hms hp).panicked_sell (hinv.sell_room hp hfunded)).mpr
      ⟨hb, hopen, hrest⟩
    simp only [AliPumpFun.sell, panicked_bind, ASell.panicked_try_accounts, false_or, Prod.exists,
      ASell.try_accounts_eq_ok hinv.ata]
    exact ⟨ms, p, _, ⟨ha, rfl⟩, .inl hprice⟩

/-- **When an instruction panics.** On a ledger that a run of the instructions, token transfers,
openings of accounts and ticks of the clock reaches, each of the eight instructions panics
exactly on these arguments, whatever the token program; those that only read and write the main
state, and a withdrawal, never do. -/
theorem execute_panics_iff (spl : TokenProgram Pubkey) (hl : Reachable spl l) (i : Instruction) :
    i.execute spl l = .error .panic ↔ i.Panics l := by
  have hinv := hl.inv
  change Panicked (i.execute spl l) ↔ _
  cases i with
  | init_main_state ctx =>
    simp [Instruction.execute, init_main_state, Instruction.Panics]
  | transfer_ownership ctx new_owner =>
    simp [Instruction.execute, transfer_ownership, Instruction.Panics]
  | update_main_state ctx input =>
    simp [Instruction.execute, update_main_state, Instruction.Panics]
  | create_pool ctx => exact hinv.panicked_create_pool
  | buy_tokens_from_exact_quote ctx q m => exact hinv.panicked_exact_quote
  | buy_exact_tokens_from_quote ctx b m => exact hinv.panicked_exact_tokens
  | sell ctx b m => exact hinv.panicked_sell
  | withdraw ctx =>
    simp [Instruction.execute, withdraw, Instruction.Panics]

/-- `bob` is given 212 base tokens by two buys and sells them together. -/
theorem execute_panics_sample : ∃ l, Reachable .reference l ∧
    (Instruction.sell ⟨bob, DEFAULT_OWNER, coin, QUOTE_MINT⟩ 212 0).execute .reference l =
      .error .panic := by
  let buy : Action := .ix
    (.buy_exact_tokens_from_quote ⟨bob, DEFAULT_OWNER, coin, QUOTE_MINT⟩ 106 0)
  obtain ⟨l, hl, hv⟩ := exists_eq_ok
    (x := Runs.run (step .reference) launched (opening ++ [buy, buy]))
    (f := fun l => (l.main_state, l.pools.lookup coin_pool, l.tokens.balance (.ata bob.1 coin)))
    (b := (some (.initial DEFAULT_OWNER),
      some { coin_created with real_base_reserves := TOTAL_SUPPLY - 212 }, 212))
    (by decide +kernel)
  obtain ⟨hms, hp, hbal⟩ : _ ∧ _ ∧ _ := by simpa only [Prod.mk.injEq] using hv
  have hreach : Reachable .reference l := ⟨launched, _, launched_genesis, hl⟩
  exact ⟨l, hreach, (execute_panics_iff .reference hreach _).mpr
    ⟨_, _, hms, rfl, hp, hbal.ge, by decide, rfl, by decide, by decide⟩⟩

end AliPumpFun
