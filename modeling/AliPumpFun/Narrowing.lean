/-
Narrowing casts.

The helpers multiply and divide with checked 128-bit arithmetic and then cast to 64 bits
without a check. For the outputs of the curve and for the fee this loses nothing. For the
price of the exact-tokens buy and for its total it does, and how far it can be trusted is a
bound on what is bought: the 64 bits a charge must fit are themselves an amount, and the
demand has to be below what that amount would buy.
-/
import AliPumpFun.Calls

set_option autoImplicit false

open Words Fallible

namespace AliPumpFun

variable {spl : TokenProgram Pubkey} {l l' : Ledger}

/-- What `2 ^ 64` quote tokens leave after the fee. The total of a net amount fits 64 bits as
long as the amount is below this. -/
def net_limit (trading_fee : U64) : ℕ := GrossUp.net trading_fee.toNat FEE_UNIT (2 ^ 64)

/-- The base amount `b` is below what `2 ^ 64` would buy, and either it is below what
`net_limit` would buy, or less than that remains to the threshold. -/
def PoolState.InRange (p : PoolState) (trading_fee b : U64) : Prop :=
  b.toNat * (p.quote + 2 ^ 64) < 2 ^ 64 * p.base ∧
    (b.toNat * (p.quote + net_limit trading_fee) < net_limit trading_fee * p.base ∨
      p.remaining < net_limit trading_fee)

/-- An instruction, made on the ledger `l`, is in range. -/
def Instruction.InRange (l : Ledger) : Instruction → Prop
  | .buy_exact_tokens_from_quote ctx b _ => ∀ ms p, l.main_state = some ms →
    l.pools.lookup ctx.pool_state = some p → p.InRange ms.trading_fee b
  | _ => True

/-- The instruction that took `l` to `l'` used the exact quotients: no cast reduced one, and
what an uncapped exact-tokens buy paid in is the floor of the price. -/
structure ExactlyComputed (spl : TokenProgram Pubkey) (l l' : Ledger) (i : Instruction) :
    Prop where
  calls : ∀ k ∈ (i.observed spl l).calls, k.Exact
  charged : ∀ ctx b m p p', i = .buy_exact_tokens_from_quote ctx b m →
    l.pools.lookup ctx.pool_state = some p → l'.pools.lookup ctx.pool_state = some p' →
    ¬ p.Capped b → p'.real_quote_reserves.toNat =
      p.real_quote_reserves.toNat + b.toNat * p.quote / (p.base - b.toNat)

section Decisions

variable {ms : MainState} {p : PoolState} {b m : U64} {c : Purchase}

open Observed Call

theorem PoolState.charge_of_lt (h : ConstantProduct.input b.toNat p.quote p.base < 2 ^ 64) :
    p.charge b = ConstantProduct.input b.toNat p.quote p.base := Nat.mod_eq_of_lt h

/-- The range, in terms of the two quotients. -/
theorem ExactTokens.in_range_iff (h : ExactTokens ms p b m c)
    (htf : ms.trading_fee.toNat < FEE_UNIT) :
    p.InRange ms.trading_fee b ↔ ConstantProduct.input b.toNat p.quote p.base < 2 ^ 64 ∧
      GrossUp.gross ms.trading_fee.toNat FEE_UNIT c.input_quote_amount.toNat < 2 ^ 64 := by
  rw [PoolState.InRange, ← ConstantProduct.input_lt_iff h.below,
    ← ConstantProduct.input_lt_iff h.below, GrossUp.gross_lt_iff htf]
  refine and_congr_right fun hlt => ?_
  rw [h.input, PoolState.charge_of_lt hlt, min_lt_iff]
  rfl

theorem Priceable.restrict_base_amount_exact_iff {ib iq : U64} (hpr : Priceable ms p)
    (hb : b.toNat < p.base) (h : restrict_base_amount p b = .ok (ib, iq)) :
    CallsIn Exact (restrict_base_amount_observed p b) ↔
      ConstantProduct.input b.toNat p.quote p.base < 2 ^ 64 := by
  simp only [restrict_base_amount, bind_eq_ok] at h
  obtain ⟨i, hi, s, hs, h⟩ := h
  rw [restrict_base_amount_observed, callsIn_bind_of_ok (a := i) hi, callsIn_watched,
    required_on_buy_exact_iff hpr.fits hb, callsIn_bind_of_ok (a := s) hs]
  refine and_iff_left ⟨callsIn_lift, ?_⟩
  -- nothing else can be cast in it
  split
  · refine callsIn_bind (callsIn_watched.mpr (sub_exact hpr.quote_le)) fun _ _ => ?_
    exact callsIn_bind (callsIn_watched.mpr (receivable_on_buy_exact hpr.fits hpr.quote_pos))
      fun _ _ => callsIn_pure
  · exact callsIn_pure

theorem Priceable.price_exact_tokens_exact_iff (hpr : Priceable ms p) (hx : ExactTokens ms p b m c)
    (h : price_exact_tokens ms p b m = .ok c) :
    CallsIn Exact (price_exact_tokens_observed ms p b m) ↔ p.InRange ms.trading_fee b := by
  have htf := hpr.trading_fee_lt
  simp only [price_exact_tokens, bind_eq_ok] at h
  obtain ⟨u, hu, v, hv, ⟨ib, iq⟩, hr, t, ht, f, hf, w, hw, rb, hrb, rq, hrq, hc⟩ := h
  have hiq : c.input_quote_amount = iq := by
    rw [← pure_eq_ok.mp hc]
  rw [hx.in_range_iff htf, hiq, price_exact_tokens_observed, callsIn_bind_of_ok (a := u) hu,
    callsIn_bind_of_ok (a := v) hv,
    callsIn_bind_of_ok (restrict_base_amount_observed_result.trans hr),
    hpr.restrict_base_amount_exact_iff hx.below hr,
    callsIn_bind_of_ok (a := t) ht, callsIn_watched, total_amount_exact_iff htf,
    callsIn_bind_of_ok (a := f) hf, callsIn_watched, callsIn_bind_of_ok (a := w) hw,
    callsIn_bind_of_ok (a := rb) hrb, callsIn_bind_of_ok (a := rq) hrq]
  simp only [callsIn_lift, callsIn_pure, trading_fee_exact htf.le, true_and, and_true]

end Decisions

/-! ## Instructions -/

/-- The calls of a successful exact-tokens buy are exact when it is in range. -/
theorem buy_exact_tokens_calls_iff (spl : TokenProgram Pubkey) {ctx : ABuy} {ms : MainState}
    {p : PoolState} {b m : U64} {c : Purchase} (hinv : Inv l) (ha : ctx.Accepts l ms p)
    (hc : price_exact_tokens ms p b m = .ok c) :
    Observed.CallsIn Call.Exact (buy_exact_tokens_from_quote_observed spl ctx b m l) ↔
      p.InRange ms.trading_fee b := by
  have hpr := hinv.priceable ha.main_state ha.pool_state
  have hacc : ctx.try_accounts spl l = .ok (ms, p, ensured l.tokens ctx.opens) :=
    (ABuy.try_accounts_eq_ok hinv.ata).mpr ⟨ha, rfl⟩
  rw [buy_exact_tokens_from_quote_observed, Observed.callsIn_bind_of_ok hacc,
    Observed.callsIn_bind_of_ok (price_exact_tokens_observed_result.trans hc),
    hpr.price_exact_tokens_exact_iff (hinv.exact_tokens ha hc) hc]
  simp

/-- A successful instruction was computed exactly when it was in range. -/
theorem exactlyComputed_iff {i : Instruction} (hinv : Inv l) (h : i.execute spl l = .ok l') :
    ExactlyComputed spl l l' i ↔ i.InRange l := by
  by_cases hi : ∀ ctx b m, i ≠ .buy_exact_tokens_from_quote ctx b m
  · constructor
    · intro _
      cases i with
      | buy_exact_tokens_from_quote ctx b m => exact absurd rfl (hi ctx b m)
      | _ => trivial
    · intro _
      exact ⟨Instruction.calls_exact hinv hi, fun ctx b m _ _ e => absurd e (hi ctx b m)⟩
  · push Not at hi
    obtain ⟨ctx, b, m, rfl⟩ := hi
    obtain ⟨ms, p, c, hc, hb⟩ := (buy_exact_tokens_from_quote_eq_ok hinv.ata).mp h
    have hx := hinv.exact_tokens hb.accepts hc
    have htf := (hinv.main_state ms hb.accepts.main_state).trading_fee_lt
    have hcalls := buy_exact_tokens_calls_iff spl hinv hb.accepts hc
    constructor
    · intro hcomp ms' p' hms' hp'
      obtain rfl := Option.some_inj.mp (hms'.symm.trans hb.accepts.main_state)
      obtain rfl := Option.some_inj.mp (hp'.symm.trans hb.accepts.pool_state)
      exact hcalls.mp hcomp.calls
    · intro hr
      have hrange := hr ms p hb.accepts.main_state hb.accepts.pool_state
      refine ⟨hcalls.mpr hrange, ?_⟩
      rintro ctx' b' m' p₀ p₁ heq hp₀ hp₁ hcap
      cases heq
      obtain rfl := Option.some_inj.mp (hp₀.symm.trans hb.accepts.pool_state)
      obtain rfl := Option.some_inj.mp (hp₁.symm.trans hb.settles.lookup_self)
      have hlt := ((hx.in_range_iff htf).mp hrange).1
      rcases hx.branch with ⟨hy, -⟩ | ⟨-, hin, -⟩
      · exact absurd hy hcap
      · rw [c.settled_real_quote_reserves, hx.moves.quote, hin, PoolState.charge_of_lt hlt]
        rfl

/-- **When no cast loses anything.** A successful instruction on a reachable ledger is
computed exactly if and only if it is in range, and in a run whose instructions all are in
range every one is computed exactly. -/
theorem no_lossy_narrowing_iff (spl : TokenProgram Pubkey) :
    (∀ (l l' : Ledger) (i : Instruction), Reachable spl l → i.execute spl l = .ok l' →
      (ExactlyComputed spl l l' i ↔ i.InRange l)) ∧
    ∀ (g l : Ledger) (as : List Action), Genesis g → Runs.run (step spl) g as = .ok l →
      (∀ done i rest m, as = done ++ .ix i :: rest → Runs.run (step spl) g done = .ok m →
        i.InRange m) →
      ∀ done i rest m m', as = done ++ .ix i :: rest → Runs.run (step spl) g done = .ok m →
        i.execute spl m = .ok m' → ExactlyComputed spl m m' i := by
  constructor
  · intro l l' i hl h
    exact exactlyComputed_iff hl.inv h
  · intro g l as hg _ hrange done i rest m m' has hm h
    exact (exactlyComputed_iff (hg.inv.run hm) h).mpr (hrange done i rest m has hm)

/-- `bob` buys 1000000 base tokens of a new pool, far inside the range: the floor of the
price is paid in. -/
theorem no_lossy_narrowing_sample : ∃ l l' : Ledger, Reachable .reference l ∧
    ExactlyComputed .reference l l'
      (.buy_exact_tokens_from_quote ⟨bob, DEFAULT_OWNER, coin, QUOTE_MINT⟩ 1000000 10000) := by
  let i : Instruction :=
    .buy_exact_tokens_from_quote ⟨bob, DEFAULT_OWNER, coin, QUOTE_MINT⟩ 1000000 10000
  obtain ⟨l, hl, hreach, hms₀, hp₀, -⟩ := exists_opened
  obtain ⟨l', hstep, -⟩ := Runs.exists_step_eq_ok hl (a := .ix i) (f := fun _ => ()) (b := ())
    (by decide +kernel)
  refine ⟨l, l', hreach, ((no_lossy_narrowing_iff .reference).1 l l' i hreach hstep).mpr ?_⟩
  intro ms p hms hp
  obtain rfl := Option.some_inj.mp (hms.symm.trans hms₀)
  obtain rfl := Option.some_inj.mp (hp.symm.trans hp₀)
  exact ⟨by decide, .inl (by decide)⟩

/-- With a supply of `2 ^ 32`, virtual reserves of 1 and `2 ^ 32` and a threshold of 1, all
accepted by `update_main_state`, the whole supply costs `2 ^ 64`, which is cast to nothing. -/
theorem narrowing_loses :
    ¬ ∀ (spl : TokenProgram Pubkey) (l l' : Ledger) (i : Instruction), Reachable spl l →
      i.execute spl l = .ok l' → ExactlyComputed spl l l' i := by
  intro h
  let g : Ledger := .launch alice bob coin 4294967296 1000
  have hg : Genesis g := Ledger.launch_genesis (by decide) _ _
  let as : List Action := opening_with 4294967296 1 4294967296 1
  let ctx : ABuy := ⟨bob, DEFAULT_OWNER, coin, QUOTE_MINT⟩
  let i : Instruction := .buy_exact_tokens_from_quote ctx 4294967296 0
  let p : PoolState := ⟨alice.1, coin, 1, 4294967296, QUOTE_MINT, 4294967296, 0, 1, false⟩
  obtain ⟨l, hl, hp⟩ := exists_eq_ok (x := Runs.run (step .reference) g as)
    (f := fun l => l.pools.lookup coin_pool) (b := some p) (by decide +kernel)
  obtain ⟨l', hstep, hp'⟩ := Runs.exists_step_eq_ok hl (a := .ix i)
    (f := fun l => l.pools.lookup coin_pool) (b := some { p with real_base_reserves := 0 })
    (by decide +kernel)
  have hcharged := (h .reference l l' i ⟨g, as, hg, hl⟩ hstep).charged ctx _ _ p _ rfl hp hp'
    (by unfold PoolState.Capped; decide)
  exact absurd hcharged (by decide)

end AliPumpFun
