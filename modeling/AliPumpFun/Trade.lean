/-
What a trade decides before it touches a token account.

The three trading handlers have the same shape: guards, a price, the two reserve
updates, then the transfers and the event. This file has the part up to the reserve
updates, a function of the main state, the pool and the arguments alone; `PoolIxs` has
the rest. Each function here has one equivalence on its success, stated over the natural
numbers, and everything later is derived from these three.

The two restrictions differ. `restrict_quote_amount` caps by grossing the remaining
amount up and deducting the fee again; the two floors cancel, so the pool gets exactly
`min (net amount) remaining`. `restrict_base_amount` compares the *charged* amount with
the threshold, after its cast.
-/
import AliPumpFun.Pricing

set_option autoImplicit false

open Words Fallible

namespace AliPumpFun

/-- The outcome of a buy: the pool with its reserves moved, the base tokens to deliver,
the fee, and what goes into the pool. -/
structure Purchase where
  pool_state : PoolState
  base_amount : U64
  fee : U64
  input_quote_amount : U64
deriving DecidableEq

/-- The outcome of a sell: the pool with its reserves moved, what leaves the pool, the
fee, and what the seller gets. -/
structure Sale where
  pool_state : PoolState
  gross_amount : U64
  fee : U64
  output_amount : U64
deriving DecidableEq

/-! ## The handlers' decisions -/

/-- The cap of `buy_tokens_from_exact_quote`: the amount to spend and its fee. -/
def restrict_quote_amount (trading_fee : U64) (pool_state : PoolState) (quote_amount : U64) :
    Result (U64 × U64) := do
  let fee ← calculate_trading_fee trading_fee quote_amount
  let net ← unwrap (checked_sub quote_amount fee)
  let new_reserves ← unwrap (checked_add pool_state.real_quote_reserves net)
  -- if new real_quote_reserves exceeds threshold, restrict quote_amount
  if pool_state.real_quote_threshold < new_reserves then do
    let remaining ← unwrap
      (checked_sub pool_state.real_quote_threshold pool_state.real_quote_reserves)
    let quote_amount ← calculate_total_amount trading_fee remaining
    let fee ← calculate_trading_fee trading_fee quote_amount
    return (quote_amount, fee)
  else
    return (quote_amount, fee)

/-- `buy_tokens_from_exact_quote` up to the reserve updates. -/
def price_exact_quote (main_state : MainState) (pool_state : PoolState)
    (quote_amount min_base_amount : U64) : Result Purchase := do
  require (0 < quote_amount) .WrongQuoteAmount
  require (pool_state.complete = false) .BondingCurveComplete
  let (quote_amount, fee) ← restrict_quote_amount main_state.trading_fee pool_state quote_amount
  let input_quote_amount ← unwrap (checked_sub quote_amount fee)
  let output_base_amount ← pool_state.compute_receivable_amount_on_buy input_quote_amount
  require (min_base_amount ≤ output_base_amount) .TooFewOutputTokens
  let real_quote_reserves ← unwrap
    (checked_add pool_state.real_quote_reserves input_quote_amount)
  let real_base_reserves ← unwrap
    (checked_sub pool_state.real_base_reserves output_base_amount)
  return {
    pool_state := { pool_state with real_base_reserves, real_quote_reserves }
    base_amount := output_base_amount
    fee
    input_quote_amount }

/-- The cap of `buy_exact_tokens_from_quote`: the base tokens to deliver and what goes into
the pool for them. -/
def restrict_base_amount (pool_state : PoolState) (base_amount : U64) :
    Result (U64 × U64) := do
  let input_quote_amount ← pool_state.compute_required_amount_on_buy base_amount
  let new_reserves ← unwrap (checked_add pool_state.real_quote_reserves input_quote_amount)
  -- if new real_quote_reserves exceeds threshold, restrict quote_amount
  if pool_state.real_quote_threshold < new_reserves then do
    let input_quote_amount ← unwrap
      (checked_sub pool_state.real_quote_threshold pool_state.real_quote_reserves)
    let input_base_amount ← pool_state.compute_receivable_amount_on_buy input_quote_amount
    return (input_base_amount, input_quote_amount)
  else
    return (base_amount, input_quote_amount)

/-- `buy_exact_tokens_from_quote` up to the reserve updates. -/
def price_exact_tokens (main_state : MainState) (pool_state : PoolState)
    (base_amount max_quote_amount : U64) : Result Purchase := do
  require (pool_state.complete = false) .BondingCurveComplete
  require (0 < base_amount ∧ base_amount ≤ pool_state.real_base_reserves) .WrongBaseAmount
  let (input_base_amount, input_quote_amount) ← restrict_base_amount pool_state base_amount
  let total_quote_amount ← calculate_total_amount main_state.trading_fee input_quote_amount
  let fee ← calculate_trading_fee main_state.trading_fee total_quote_amount
  require (total_quote_amount ≤ max_quote_amount) .TooMuchInputQuote
  let real_base_reserves ← unwrap
    (checked_sub pool_state.real_base_reserves input_base_amount)
  let real_quote_reserves ← unwrap
    (checked_add pool_state.real_quote_reserves input_quote_amount)
  return {
    pool_state := { pool_state with real_base_reserves, real_quote_reserves }
    base_amount := input_base_amount
    fee
    input_quote_amount }

/-- `sell` up to the reserve updates. -/
def price_sell (main_state : MainState) (pool_state : PoolState)
    (base_amount min_quote_amount : U64) : Result Sale := do
  require (0 < base_amount) .WrongBaseAmount
  require (pool_state.complete = false) .BondingCurveComplete
  let gross_amount ← pool_state.compute_receivable_amount_on_sell base_amount
  let fee ← calculate_trading_fee main_state.trading_fee gross_amount
  let output_amount ← unwrap (checked_sub gross_amount fee)
  require (min_quote_amount ≤ output_amount) .TooLowOutputQuote
  let real_base_reserves ← unwrap (checked_add pool_state.real_base_reserves base_amount)
  let real_quote_reserves ← unwrap (checked_sub pool_state.real_quote_reserves gross_amount)
  return {
    pool_state := { pool_state with real_base_reserves, real_quote_reserves }
    gross_amount
    fee
    output_amount }

/-! ## What they decide -/

/-- The terms of a pool are those it was created with. -/
structure PoolState.SameTerms (p p' : PoolState) : Prop where
  owner : p'.owner = p.owner
  base_mint : p'.base_mint = p.base_mint
  quote_mint : p'.quote_mint = p.quote_mint
  virt_base_reserves : p'.virt_base_reserves = p.virt_base_reserves
  virt_quote_reserves : p'.virt_quote_reserves = p.virt_quote_reserves
  real_quote_threshold : p'.real_quote_threshold = p.real_quote_threshold

namespace PoolState.SameTerms

variable {p p' p'' : PoolState}

theorem refl (p : PoolState) : p.SameTerms p := ⟨rfl, rfl, rfl, rfl, rfl, rfl⟩

theorem trans (h : p.SameTerms p') (h' : p'.SameTerms p'') : p.SameTerms p'' :=
  ⟨h'.owner.trans h.owner, h'.base_mint.trans h.base_mint, h'.quote_mint.trans h.quote_mint,
    h'.virt_base_reserves.trans h.virt_base_reserves,
    h'.virt_quote_reserves.trans h.virt_quote_reserves,
    h'.real_quote_threshold.trans h.real_quote_threshold⟩

theorem address (h : p.SameTerms p') : p'.address = p.address := by
  rw [PoolState.address, PoolState.address, h.base_mint, h.quote_mint]

theorem reserver_base_ata (h : p.SameTerms p') : p'.reserver_base_ata = p.reserver_base_ata := by
  rw [PoolState.reserver_base_ata, PoolState.reserver_base_ata, h.address, h.base_mint]

theorem reserver_quote_ata (h : p.SameTerms p') :
    p'.reserver_quote_ata = p.reserver_quote_ata := by
  rw [PoolState.reserver_quote_ata, PoolState.reserver_quote_ata, h.address, h.quote_mint]

end PoolState.SameTerms

/-- `p'` is `p` but for its two real reserves. -/
def PoolState.OnlyReserves (p p' : PoolState) : Prop :=
  p' = { p with
    real_base_reserves := p'.real_base_reserves
    real_quote_reserves := p'.real_quote_reserves }

theorem PoolState.OnlyReserves.terms {p p' : PoolState} (h : p.OnlyReserves p') :
    p.SameTerms p' := by
  rw [h]
  exact ⟨rfl, rfl, rfl, rfl, rfl, rfl⟩

theorem PoolState.OnlyReserves.complete {p p' : PoolState} (h : p.OnlyReserves p') :
    p'.complete = p.complete := by
  rw [h]

/-- A purchase moves the reserves of `p` by what is delivered and paid in. -/
structure Purchase.Moves (c : Purchase) (p : PoolState) : Prop where
  only : p.OnlyReserves c.pool_state
  base : c.pool_state.real_base_reserves.toNat + c.base_amount.toNat = p.real_base_reserves.toNat
  quote : c.pool_state.real_quote_reserves.toNat =
    p.real_quote_reserves.toNat + c.input_quote_amount.toNat

/-- What leaves a pool and what enters it, in total reserves. -/
theorem Purchase.Moves.base_eq {c : Purchase} {p : PoolState} (h : c.Moves p) :
    c.pool_state.base + c.base_amount.toNat = p.base := by
  have h1 := h.base
  rw [PoolState.base, PoolState.base, h.only.terms.virt_base_reserves]
  omega

theorem Purchase.Moves.quote_eq {c : Purchase} {p : PoolState} (h : c.Moves p) :
    c.pool_state.quote = p.quote + c.input_quote_amount.toNat := by
  have h1 := h.quote
  rw [PoolState.quote, PoolState.quote, h.only.terms.virt_quote_reserves]
  omega

/-- What the two buys have in common: whatever was asked for, at most what remains to the
threshold goes into the pool. -/
structure Purchase.Buys (c : Purchase) (p : PoolState) : Prop where
  incomplete : p.complete = false
  fits : p.Fits
  moves : c.Moves p
  input_le : c.input_quote_amount.toNat ≤ p.remaining

/-- A sale of `base_amount` moves the reserves of `p` by what is paid in and leaves. -/
structure Sale.Moves (c : Sale) (p : PoolState) (base_amount : U64) : Prop where
  only : p.OnlyReserves c.pool_state
  base : c.pool_state.real_base_reserves.toNat = p.real_base_reserves.toNat + base_amount.toNat
  quote : c.pool_state.real_quote_reserves.toNat + c.gross_amount.toNat =
    p.real_quote_reserves.toNat

theorem Sale.Moves.base_eq {c : Sale} {p : PoolState} {s : U64} (h : c.Moves p s) :
    c.pool_state.base = p.base + s.toNat := by
  have h1 := h.base
  rw [PoolState.base, PoolState.base, h.only.terms.virt_base_reserves]
  omega

theorem Sale.Moves.quote_eq {c : Sale} {p : PoolState} {s : U64} (h : c.Moves p s) :
    c.pool_state.quote + c.gross_amount.toNat = p.quote := by
  have h1 := h.quote
  rw [PoolState.quote, PoolState.quote, h.only.terms.virt_quote_reserves]
  omega

section Decisions

variable {ms : MainState} {p : PoolState}

/-- **The restricted amount is the smaller of the offer and the gross-up of what
remains**: when the cap applies, the gross-up is below the offer, so its cast is
exact. -/
theorem restrict_quote_amount_eq_ok {tf q t f : U64} (htf : tf.toNat < FEE_UNIT)
    (hthr : p.real_quote_reserves.toNat ≤ p.real_quote_threshold.toNat) :
    restrict_quote_amount tf p q = .ok (t, f) ↔
      p.real_quote_reserves.toNat + GrossUp.net tf.toNat FEE_UNIT q.toNat < 2 ^ 64 ∧
      t.toNat = min q.toNat (GrossUp.gross tf.toNat FEE_UNIT p.remaining) ∧
      f.toNat = GrossUp.fee tf.toNat FEE_UNIT t.toNat := by
  have hq := GrossUp.fee_add_net htf.le q.toNat
  obtain ⟨f₀, hf₀⟩ : ∃ f₀ : U64, f₀.toNat = GrossUp.fee tf.toNat FEE_UNIT q.toNat :=
    exists_toNat_eq.mpr ((GrossUp.fee_le htf.le _).trans_lt q.isLt)
  obtain ⟨n, hn⟩ : ∃ n : U64, n.toNat = GrossUp.net tf.toNat FEE_UNIT q.toNat :=
    exists_toNat_eq.mpr (lt_of_le_of_lt (by omega) q.isLt)
  have hfee : calculate_trading_fee tf q = .ok f₀ :=
    (calculate_trading_fee_eq_ok htf.le).mpr hf₀
  have hsub : checked_sub q f₀ = some n := checked_sub_eq_some.mpr (by omega)
  obtain ⟨rem, hrem⟩ : ∃ rem : U64, rem.toNat = p.remaining :=
    exists_toNat_eq.mpr (lt_of_le_of_lt (Nat.sub_le _ _) p.real_quote_threshold.isLt)
  have hrem' : checked_sub p.real_quote_threshold p.real_quote_reserves = some rem := by
    rw [checked_sub_eq_some, hrem, PoolState.remaining]
    omega
  unfold restrict_quote_amount
  simp only [hfee, hsub, hrem', bind_eq_ok, unwrap_eq_ok, Option.some.injEq,
    Except.ok.injEq, exists_eq_left', checked_add_eq_some]
  -- the sum fits exactly when there is a word for it, and the cap is decided on that word
  rw [← hn, ← exists_toNat_eq, ← exists_and_right]
  refine exists_congr fun s => and_congr_right fun hs => ?_
  split
  · rename_i hcap
    rw [BitVec.lt_def, hs] at hcap
    have hlt : GrossUp.gross tf.toNat FEE_UNIT p.remaining < q.toNat :=
      GrossUp.gross_lt_of_lt_net htf (by rw [← hn, PoolState.remaining]; omega)
    have hgross : GrossUp.gross tf.toNat FEE_UNIT rem.toNat % 2 ^ 64 =
        min q.toNat (GrossUp.gross tf.toNat FEE_UNIT p.remaining) := by
      rw [hrem, Nat.mod_eq_of_lt (hlt.trans q.isLt), min_eq_right hlt.le]
    simp only [bind_eq_ok, unwrap_eq_ok, Option.some.injEq, exists_eq_left', pure_eq_ok,
      calculate_total_amount_eq_ok htf, calculate_trading_fee_eq_ok htf.le, Prod.mk.injEq,
      hgross]
    constructor
    · rintro ⟨t', ht', f', hf', rfl, rfl⟩
      exact ⟨ht', hf'⟩
    · rintro ⟨ht, hf⟩
      exact ⟨t, ht, f, hf, rfl, rfl⟩
  · rename_i hcap
    rw [BitVec.lt_def, hs] at hcap
    have hle : GrossUp.net tf.toNat FEE_UNIT q.toNat ≤ p.remaining := by
      rw [← hn, PoolState.remaining]
      omega
    rw [GrossUp.min_gross_of_net_le htf hle]
    simp only [pure_eq_ok, Prod.mk.injEq]
    constructor
    · rintro ⟨rfl, rfl⟩
      exact ⟨rfl, hf₀⟩
    · rintro ⟨ht, hf⟩
      refine ⟨BitVec.eq_of_toNat_eq ht.symm, BitVec.eq_of_toNat_eq ?_⟩
      rw [hf₀, hf, ht]

/-- A successful `buy_tokens_from_exact_quote`, over the natural numbers. -/
structure ExactQuote (ms : MainState) (p : PoolState) (q m : U64) (c : Purchase) : Prop where
  amount_pos : 0 < q.toNat
  incomplete : p.complete = false
  /-- The sum that is compared with the threshold, taken before the cap. -/
  sum_fits : p.real_quote_reserves.toNat +
    GrossUp.net ms.trading_fee.toNat FEE_UNIT q.toNat < 2 ^ 64
  fits : p.Fits
  priced : 0 < p.quote + c.input_quote_amount.toNat
  moves : c.Moves p
  input : c.input_quote_amount.toNat =
    min (GrossUp.net ms.trading_fee.toNat FEE_UNIT q.toNat) p.remaining
  gross : c.fee.toNat + c.input_quote_amount.toNat =
    min q.toNat (GrossUp.gross ms.trading_fee.toNat FEE_UNIT p.remaining)
  base : c.base_amount.toNat =
    ConstantProduct.output c.input_quote_amount.toNat p.quote p.base
  enough : m.toNat ≤ c.base_amount.toNat

theorem ExactQuote.buys {q m : U64} {c : Purchase} (h : ExactQuote ms p q m c) : c.Buys p :=
  ⟨h.incomplete, h.fits, h.moves, h.input ▸ min_le_right _ _⟩

theorem price_exact_quote_eq_ok {q m : U64} {c : Purchase}
    (htf : ms.trading_fee.toNat < FEE_UNIT)
    (hthr : p.real_quote_reserves.toNat ≤ p.real_quote_threshold.toNat) :
    price_exact_quote ms p q m = .ok c ↔ ExactQuote ms p q m c := by
  simp only [price_exact_quote, bind_eq_ok, require_eq_ok, unwrap_eq_ok, pure_eq_ok,
    checked_add_eq_some, checked_sub_eq_some, Prod.exists, exists_and_left,
    restrict_quote_amount_eq_ok htf hthr,
    PoolState.compute_receivable_amount_on_buy_eq_ok, exists_const]
  constructor
  · rintro ⟨hq, hc, t, f, ⟨hsum, ht, hf⟩, i, hi, b, ⟨hfits, hpos, hb⟩, hm, rq, hrq, rb, hrb, rfl⟩
    -- what is left of the restricted amount after its fee
    have hnet : i.toNat = GrossUp.net ms.trading_fee.toNat FEE_UNIT t.toNat := by
      have := GrossUp.fee_add_net htf.le t.toNat
      omega
    exact {
      amount_pos := by simpa [BitVec.lt_def] using hq
      incomplete := hc
      sum_fits := hsum
      fits := hfits
      priced := hpos
      moves := ⟨rfl, hrb, hrq⟩
      input := by rw [hnet, ht, GrossUp.net_min_gross htf]
      gross := by rw [← ht]; show f.toNat + i.toNat = t.toNat; omega
      base := hb
      enough := BitVec.le_def.mp hm }
  · intro h
    obtain ⟨t, ht⟩ : ∃ t : U64, t.toNat =
        min q.toNat (GrossUp.gross ms.trading_fee.toNat FEE_UNIT p.remaining) :=
      exists_toNat_eq.mpr ((min_le_left _ _).trans_lt q.isLt)
    have hnet : c.input_quote_amount.toNat =
        GrossUp.net ms.trading_fee.toNat FEE_UNIT t.toNat := by
      rw [ht, GrossUp.net_min_gross htf, h.input]
    have hsum := GrossUp.fee_add_net htf.le t.toNat
    have hgross := h.gross
    refine ⟨by simpa [BitVec.lt_def] using h.amount_pos, h.incomplete, t, c.fee,
      ⟨h.sum_fits, ht, by omega⟩, c.input_quote_amount, by omega, c.base_amount,
      ⟨h.fits, h.priced, h.base⟩, BitVec.le_def.mpr h.enough,
      c.pool_state.real_quote_reserves, h.moves.quote, c.pool_state.real_base_reserves,
      h.moves.base, ?_⟩
    exact congrArg (fun s => (⟨s, c.base_amount, c.fee, c.input_quote_amount⟩ : Purchase))
      h.moves.only.symm

/-- What the exact-tokens buy charges for `b` before the cap: the floor, cast. -/
def PoolState.charge (p : PoolState) (b : U64) : ℕ :=
  ConstantProduct.input b.toNat p.quote p.base % 2 ^ 64

/-- The exact-tokens buy of `b` is capped. -/
def PoolState.Capped (p : PoolState) (b : U64) : Prop :=
  p.real_quote_threshold.toNat < p.real_quote_reserves.toNat + p.charge b

theorem restrict_base_amount_eq_ok {b ib iq : U64}
    (hthr : p.real_quote_reserves.toNat ≤ p.real_quote_threshold.toNat) :
    restrict_base_amount p b = .ok (ib, iq) ↔
      p.Fits ∧ b.toNat < p.base ∧ p.real_quote_reserves.toNat + p.charge b < 2 ^ 64 ∧
      (p.Capped b ∧ iq.toNat = p.remaining ∧ 0 < p.quote + iq.toNat ∧
          ib.toNat = ConstantProduct.output iq.toNat p.quote p.base ∨
        ¬ p.Capped b ∧ iq.toNat = p.charge b ∧ ib = b) := by
  obtain ⟨i, hi⟩ : ∃ i : U64, i.toNat = p.charge b :=
    exists_toNat_eq.mpr (Nat.mod_lt _ (by decide))
  have hcharge : ∀ j : U64,
      j.toNat = ConstantProduct.input b.toNat p.quote p.base % 2 ^ 64 ↔ j = i := by
    intro j
    rw [← PoolState.charge, ← hi, BitVec.toNat_inj]
  simp only [restrict_base_amount, bind_eq_ok, unwrap_eq_ok, checked_add_eq_some,
    PoolState.compute_required_amount_on_buy_eq_ok, hcharge, and_assoc, exists_and_left,
    exists_eq_left]
  refine and_congr_right fun hfits => and_congr_right fun hlt => ?_
  -- as for the other buy: a sum that fits, and the cap decided on it
  rw [← hi, ← exists_toNat_eq, ← exists_and_right]
  refine exists_congr fun s => and_congr_right fun hs => ?_
  have hcapped : p.real_quote_threshold < s ↔ p.Capped b := by
    rw [BitVec.lt_def, hs, hi, PoolState.Capped]
  split
  · rename_i hcap
    rw [hcapped] at hcap
    simp only [bind_eq_ok, unwrap_eq_ok, checked_sub_eq_some, pure_eq_ok, Prod.mk.injEq,
      PoolState.compute_receivable_amount_on_buy_eq_ok, hcap, true_and, not_true_eq_false,
      false_and, or_false]
    constructor
    · rintro ⟨r, hr, o, ⟨-, hpos, ho⟩, rfl, rfl⟩
      exact ⟨by rw [PoolState.remaining]; omega, hpos, ho⟩
    · rintro ⟨hiq, hpos, hib⟩
      exact ⟨iq, by rw [hiq, PoolState.remaining]; omega, ib, ⟨hfits, hpos, hib⟩, rfl, rfl⟩
  · rename_i hcap
    rw [hcapped] at hcap
    simp only [pure_eq_ok, Prod.mk.injEq, hcap, false_and, false_or, not_false_eq_true,
      true_and, BitVec.toNat_inj]
    constructor
    · rintro ⟨rfl, rfl⟩
      exact ⟨rfl, rfl⟩
    · rintro ⟨rfl, rfl⟩
      exact ⟨rfl, rfl⟩

/-- A successful `buy_exact_tokens_from_quote`, over the natural numbers. -/
structure ExactTokens (ms : MainState) (p : PoolState) (b m : U64) (c : Purchase) : Prop where
  amount_pos : 0 < b.toNat
  amount_le : b.toNat ≤ p.real_base_reserves.toNat
  incomplete : p.complete = false
  sum_fits : p.real_quote_reserves.toNat + p.charge b < 2 ^ 64
  fits : p.Fits
  below : b.toNat < p.base
  moves : c.Moves p
  branch : p.Capped b ∧ c.input_quote_amount.toNat = p.remaining ∧
      0 < p.quote + c.input_quote_amount.toNat ∧ c.base_amount.toNat =
        ConstantProduct.output c.input_quote_amount.toNat p.quote p.base ∨
    ¬ p.Capped b ∧ c.input_quote_amount.toNat = p.charge b ∧ c.base_amount = b
  fee : c.fee.toNat = GrossUp.fee ms.trading_fee.toNat FEE_UNIT
    (GrossUp.gross ms.trading_fee.toNat FEE_UNIT c.input_quote_amount.toNat % 2 ^ 64)
  within : GrossUp.gross ms.trading_fee.toNat FEE_UNIT c.input_quote_amount.toNat % 2 ^ 64
    ≤ m.toNat

/-- Capped or not, the smaller of the charge and what remains goes into the pool. -/
theorem ExactTokens.input {b m : U64} {c : Purchase} (h : ExactTokens ms p b m c) :
    c.input_quote_amount.toNat = min (p.charge b) p.remaining := by
  rcases h.branch with ⟨hcap, hi, -⟩ | ⟨hcap, hi, -⟩
  · rw [PoolState.Capped] at hcap
    rw [hi, min_eq_right (by rw [PoolState.remaining]; omega)]
  · rw [PoolState.Capped] at hcap
    rw [hi, min_eq_left (by rw [PoolState.remaining]; omega)]

theorem ExactTokens.buys {b m : U64} {c : Purchase} (h : ExactTokens ms p b m c) : c.Buys p :=
  ⟨h.incomplete, h.fits, h.moves, h.input ▸ min_le_right _ _⟩

/-- No more than what was asked for is delivered. -/
theorem ExactTokens.base_le {b m : U64} {c : Purchase} (h : ExactTokens ms p b m c) :
    c.base_amount.toNat ≤ b.toNat := by
  rcases h.branch with ⟨-, -, -, hout⟩ | ⟨-, -, hb⟩
  · rw [hout]
    refine ConstantProduct.output_le_of_le_input h.below ?_
    rw [h.input]
    exact (min_le_left _ _).trans (Nat.mod_le _ _)
  · rw [hb]

/-- Fee and input together, of which the fee is computed from the total after its cast. -/
theorem ExactTokens.debit {b m : U64} {c : Purchase} (h : ExactTokens ms p b m c) :
    c.fee.toNat + c.input_quote_amount.toNat =
      GrossUp.debit ms.trading_fee.toNat FEE_UNIT (2 ^ 64) c.input_quote_amount.toNat := by
  rw [h.fee, GrossUp.debit, Nat.add_comm]

theorem price_exact_tokens_eq_ok {b m : U64} {c : Purchase}
    (htf : ms.trading_fee.toNat < FEE_UNIT)
    (hthr : p.real_quote_reserves.toNat ≤ p.real_quote_threshold.toNat) :
    price_exact_tokens ms p b m = .ok c ↔ ExactTokens ms p b m c := by
  simp only [price_exact_tokens, bind_eq_ok, require_eq_ok, unwrap_eq_ok, pure_eq_ok,
    checked_add_eq_some, checked_sub_eq_some, Prod.exists, exists_and_left,
    restrict_base_amount_eq_ok hthr, calculate_total_amount_eq_ok htf,
    calculate_trading_fee_eq_ok htf.le, exists_const]
  constructor
  · rintro ⟨hc, ⟨hb, hle⟩, ib, iq, ⟨hfits, hlt, hsum, hbr⟩, t, ht, f, hf, hm, rb, hrb, rq, hrq,
      rfl⟩
    rw [ht] at hf
    rw [BitVec.le_def, ht] at hm
    exact {
      amount_pos := by simpa [BitVec.lt_def] using hb
      amount_le := BitVec.le_def.mp hle
      incomplete := hc
      sum_fits := hsum
      fits := hfits
      below := hlt
      moves := ⟨rfl, hrb, hrq⟩
      branch := hbr
      fee := hf
      within := hm }
  · intro h
    obtain ⟨t, ht⟩ : ∃ t : U64, t.toNat = GrossUp.gross ms.trading_fee.toNat FEE_UNIT
        c.input_quote_amount.toNat % 2 ^ 64 := exists_toNat_eq.mpr (Nat.mod_lt _ (by decide))
    refine ⟨h.incomplete, ⟨by simpa [BitVec.lt_def] using h.amount_pos,
      BitVec.le_def.mpr h.amount_le⟩, c.base_amount, c.input_quote_amount,
      ⟨h.fits, h.below, h.sum_fits, h.branch⟩, t, ht, c.fee, by rw [ht]; exact h.fee,
      by rw [BitVec.le_def, ht]; exact h.within, c.pool_state.real_base_reserves, h.moves.base,
      c.pool_state.real_quote_reserves, h.moves.quote, ?_⟩
    exact congrArg (fun s => (⟨s, c.base_amount, c.fee, c.input_quote_amount⟩ : Purchase))
      h.moves.only.symm

/-- A successful `sell`, over the natural numbers. -/
structure Sell (ms : MainState) (p : PoolState) (s m : U64) (c : Sale) : Prop where
  amount_pos : 0 < s.toNat
  incomplete : p.complete = false
  fits : p.Fits
  moves : c.Moves p s
  gross : c.gross_amount.toNat = ConstantProduct.output s.toNat p.base p.quote
  fee : c.fee.toNat = GrossUp.fee ms.trading_fee.toNat FEE_UNIT c.gross_amount.toNat
  output : c.fee.toNat + c.output_amount.toNat = c.gross_amount.toNat
  enough : m.toNat ≤ c.output_amount.toNat

theorem price_sell_eq_ok {s m : U64} {c : Sale} (htf : ms.trading_fee.toNat < FEE_UNIT) :
    price_sell ms p s m = .ok c ↔ Sell ms p s m c := by
  simp only [price_sell, bind_eq_ok, require_eq_ok, unwrap_eq_ok, pure_eq_ok,
    checked_add_eq_some, checked_sub_eq_some, exists_and_left,
    PoolState.compute_receivable_amount_on_sell_eq_ok, calculate_trading_fee_eq_ok htf.le,
    exists_const]
  constructor
  · rintro ⟨hs, hc, g, ⟨hfits, -, hg⟩, f, hf, o, ho, hm, rb, hrb, rq, hrq, rfl⟩
    exact {
      amount_pos := by simpa [BitVec.lt_def] using hs
      incomplete := hc
      fits := hfits
      moves := ⟨rfl, hrb, hrq⟩
      gross := hg
      fee := hf
      output := by show f.toNat + o.toNat = g.toNat; omega
      enough := BitVec.le_def.mp hm }
  · intro h
    have := h.amount_pos
    have := h.output
    refine ⟨by simpa [BitVec.lt_def] using h.amount_pos, h.incomplete, c.gross_amount,
      ⟨h.fits, by omega, h.gross⟩, c.fee, h.fee, c.output_amount, by omega,
      BitVec.le_def.mpr h.enough, c.pool_state.real_base_reserves, h.moves.base,
      c.pool_state.real_quote_reserves, h.moves.quote, ?_⟩
    exact congrArg (fun s => (⟨s, c.gross_amount, c.fee, c.output_amount⟩ : Sale))
      h.moves.only.symm

end Decisions

end AliPumpFun
