/-
A pool does not get stuck.

Completion needs the base tokens that the curve gives for what remains to the threshold, and a
withdrawal needs a base token that is left over. Both hold as long as the product is above what
the virtual base reserves alone make with the completed quote reserves. The product only falls
by the rounding of the exact-tokens buys, so a pool whose terms leave a margin can be brought to
its end from every state it gets into, until the exact-tokens buys have used the margin up. For
the default amounts that takes more than 7000000000000 of them.

This is about the arithmetic of the program, in the runs of `Chain`: that the fee account is
still its owner's and that no account is frozen is part of what a run is here.
-/
import AliPumpFun.Drift
import AliPumpFun.Admission

set_option autoImplicit false

open Words Fallible BondingCurve

namespace AliPumpFun

variable {spl : TokenProgram Pubkey} {l : Ledger}

/-- The largest total quote reserves of a pool, those it has when it is complete. -/
def PoolState.quote_max (p : PoolState) : ℕ :=
  p.virt_quote_reserves.toNat + p.real_quote_threshold.toNat

/-- The product is above the one at which the last base token is sold with the threshold. -/
def PoolState.Ample (p : PoolState) : Prop :=
  p.virt_base_reserves.toNat * p.quote_max < p.product

section Pools

variable {p : PoolState}

/-- An ample pool has the base tokens for what remains. -/
theorem PoolState.Ample.output_remaining_le (h : p.Ample)
    (hlt : p.real_quote_reserves.toNat < p.real_quote_threshold.toNat) :
    ConstantProduct.output p.remaining p.quote p.base ≤ p.real_base_reserves.toNat := by
  rw [PoolState.output_remaining_le_iff hlt]
  unfold PoolState.Ample PoolState.quote_max at h
  omega

/-- An ample pool at its threshold has a base token left. -/
theorem PoolState.Ample.real_base_pos (h : p.Ample)
    (hthr : p.real_quote_reserves.toNat = p.real_quote_threshold.toNat) :
    0 < p.real_base_reserves.toNat := by
  rw [PoolState.Ample, PoolState.product, PoolState.quote, hthr, ← PoolState.quote_max] at h
  have hlt := Nat.lt_of_mul_lt_mul_right h
  rw [PoolState.base] at hlt
  omega

/-- An exact-quote buy keeps a pool ample: its rounding raises the product. -/
theorem ExactQuote.ample {ms : MainState} {q m : U64} {c : Purchase} (hx : ExactQuote ms p q m c)
    (h : p.Ample) : c.settled.Ample := by
  have hterms := hx.moves.only.terms.trans c.terms_settled
  have hle := hx.product_le
  rw [PoolState.Ample, PoolState.quote_max, hterms.virt_base_reserves, hterms.virt_quote_reserves,
    hterms.real_quote_threshold, ← PoolState.quote_max, Purchase.settled_product]
  exact h.trans_le hle

end Pools

/-! ## The two ends -/

/-- A complete ample pool can be withdrawn from. -/
theorem Inv.exists_drained (spl : TokenProgram Pubkey) {ctx : AWithdraw} {ms : MainState}
    {p : PoolState} (hinv : Inv l) (hms : l.main_state = some ms)
    (hw : ctx.withdrawer.1 = ms.withdrawer) (hp : l.pools.lookup ctx.pool_state = some p)
    (hc : p.complete = true) (hample : p.Ample) :
    p.real_quote_reserves.toNat = p.real_quote_threshold.toNat ∧
      ∃ l', withdraw spl ctx l = .ok l' ∧ Drained ctx l l' p := by
  have hpi := hinv.pools _ p hp
  have hthr : p.real_quote_reserves.toNat = p.real_quote_threshold.toNat := by
    rcases hpi.complete hc with hthr | ⟨hb, hq⟩
    · exact hthr
    · -- an emptied pool is not ample
      rw [PoolState.Ample, PoolState.quote_max, PoolState.product, PoolState.base,
        PoolState.quote, hb, hq, Nat.add_zero, Nat.add_zero] at hample
      have := Nat.lt_of_mul_lt_mul_left hample
      omega
  have hpos := hpi.threshold
  have ha := hinv.accepts_withdraw hms hw hp
  obtain ⟨l', hwd⟩ := exists_withdrawn hinv ha hc (hample.real_base_pos hthr) (by omega)
  refine ⟨hthr, l', (withdraw_eq_ok hinv.ata).mpr ⟨p, hwd⟩, hwd.drained ?_⟩
  rw [ha.base_mint, ha.quote_mint]
  exact hpi.pair

/-- A buyer who can complete a pool: the net of `q` covers what remains, and the buyer has it. -/
structure ABuy.Covers (ctx : ABuy) (l : Ledger) (ms : MainState) (p : PoolState) (q : U64) :
    Prop where
  quote_max : p.quote_max < 2 ^ 64
  fee_recipient : ctx.fee_recipient = ms.fee_recipient
  remaining : p.remaining ≤ GrossUp.net ms.trading_fee.toNat FEE_UNIT q.toNat
  funds : q.toNat ≤ l.tokens.balance ctx.buyer_quote_ata

/-- An open ample pool can be completed. -/
theorem Inv.exists_completed (spl : TokenProgram Pubkey) {ctx : ABuy} {ms : MainState}
    {p : PoolState} {q : U64} (hinv : Inv l) (hms : l.main_state = some ms)
    (hp : l.pools.lookup ctx.pool_state = some p) (hopen : p.complete = false) (hample : p.Ample)
    (hcov : ctx.Covers l ms p q) :
    ∃ l' p', buy_tokens_from_exact_quote spl ctx q 0 l = .ok l' ∧
      l'.main_state = some ms ∧ l'.pools.lookup ctx.pool_state = some p' ∧
      p'.complete = true ∧ p'.Ample := by
  have hpi := hinv.pools _ p hp
  have htf := (hinv.main_state ms hms).trading_fee_lt
  have hlt := hpi.incomplete hopen
  have hsum : p.real_quote_reserves.toNat +
      GrossUp.net ms.trading_fee.toNat FEE_UNIT q.toNat < 2 ^ 64 := by
    have h1 := hpi.quote_add_balance_lt hinv ctx.buyer
    have h2 := GrossUp.fee_add_net htf.le q.toNat
    have h3 := hcov.funds
    rw [ABuy.buyer_quote_ata, (hinv.mints_of_pool hp).2] at h3
    omega
  obtain ⟨c, hx, hin⟩ := exists_completing (hpi.fits hinv) htf hopen hlt hsum hcov.remaining
    (hample.output_remaining_le hlt)
  have hfits : c.pool_state.Fits := by
    rw [hx.buys.fits_iff, hin, p.quote_add_remaining hlt.le]
    exact hcov.quote_max
  obtain ⟨l', hb⟩ := hx.buys.exists_bought hinv (hinv.accepts_buy hms hcov.fee_recipient hp)
    hfits <| by
      rw [hx.gross]
      exact (min_le_left _ _).trans hcov.funds
  exact ⟨l', c.settled, hinv.exact_quote_iff.mpr ⟨ms, p, c, hx, hb⟩,
    hb.settles.main_state.trans hms, hb.settles.lookup_self,
    c.settled_completes hx.buys hlt.le hin, hx.ample hample⟩

/-! ## The whole life -/

/-- What a margin is worth: a pool stays ample until the exact-tokens buys have used it up. -/
theorem ample_of_margin {l₀ l₁ : Ledger} {ctx : ACreatePool} {as : List Action}
    {p₁ p : PoolState} (hl : Reachable spl l₀) (hcreate : create_pool spl ctx l₀ = .ok l₁)
    (hp₁ : l₁.pools.lookup ctx.pool_state = some p₁)
    (hfit : p₁.real_base_reserves.toNat * p₁.quote_max < 2 ^ 64 * p₁.virt_base_reserves.toNat)
    (hrun : Runs.run (step spl) l₁ as = .ok l) (hp : l.pools.lookup ctx.pool_state = some p)
    (hw : ∀ a ∈ as, a.withdrawn ≠ some ctx.pool_state)
    (hmargin : p₁.virt_base_reserves.toNat * p₁.quote_max +
      trades Instruction.is_exact_tokens ctx.pool_state as * p₁.base < p₁.product) :
    p.Ample := by
  obtain ⟨ms, mint, hv, mv, s, p', hc, hf⟩ := exists_follows hl hcreate hrun
  obtain rfl := Option.some_inj.mp (hp₁.symm.trans hc.settles.lookup_self)
  obtain rfl := Option.some_inj.mp (hp.symm.trans hf.pool)
  obtain ⟨r, rfl⟩ := hf.exists_active hw
  have hdrift := hf.drift.1 hfit
  have hterms : p.virt_base_reserves.toNat * p.quote_max =
      (ctx.initial ms).virt_base_reserves.toNat * (ctx.initial ms).quote_max := by
    cases hf.represents with
    | active ht _ _ _ =>
      rw [PoolState.quote_max, ht.virt_base, ht.virt_quote, ht.threshold]
      rfl
  rw [PoolState.Ample, hterms]
  change (ctx.initial ms).product ≤ _ at hdrift
  change _ + _ * (ms.terms hv).base_max < _ at hmargin
  omega

/-- The margin of a pool with the default amounts. -/
example : coin_created.virt_base_reserves.toNat * coin_created.quote_max +
    7000000000000 * coin_created.base < coin_created.product := by decide

/-- **A pool does not get stuck** on its arithmetic. Take a pool whose terms exclude a lossy cast
and leave a margin, and any run of the instructions, token transfers, openings of accounts and
ticks of the clock after its creation, in which nothing was withdrawn from it and the exact-tokens
buys have not used the margin up. One buy of what remains completes the pool, if it is not
complete already, and the withdrawer then gets the threshold and the base tokens left. -/
theorem pools_can_be_finished (spl : TokenProgram Pubkey) (buy : ABuy) (q : U64) (wd : AWithdraw)
    {l₀ l₁ : Ledger} {ctx : ACreatePool} {as : List Action} {p₁ p : PoolState} {ms : MainState}
    (hl : Reachable spl l₀) (hcreate : create_pool spl ctx l₀ = .ok l₁)
    (hp₁ : l₁.pools.lookup ctx.pool_state = some p₁)
    (hfit : p₁.real_base_reserves.toNat * p₁.quote_max < 2 ^ 64 * p₁.virt_base_reserves.toNat)
    (hrun : Runs.run (step spl) l₁ as = .ok l) (hp : l.pools.lookup ctx.pool_state = some p)
    (hw : ∀ a ∈ as, a.withdrawn ≠ some ctx.pool_state)
    (hmargin : p₁.virt_base_reserves.toNat * p₁.quote_max +
      trades Instruction.is_exact_tokens ctx.pool_state as * p₁.base < p₁.product)
    (hms : l.main_state = some ms) (hpool : buy.pool_state = ctx.pool_state)
    (hcov : p.complete = false → buy.Covers l ms p q)
    (hwpool : wd.pool_state = ctx.pool_state) (hwd : wd.withdrawer.1 = ms.withdrawer) :
    ∃ m l' p', Runs.run (step spl) l
        (if p.complete = true then [] else [.ix (.buy_tokens_from_exact_quote buy q 0)]) = .ok m ∧
      m.pools.lookup ctx.pool_state = some p' ∧ p'.complete = true ∧
      p'.real_quote_reserves.toNat = p.real_quote_threshold.toNat ∧
      withdraw spl wd m = .ok l' ∧ Drained wd m l' p' := by
  have hinv₀ := hl.inv
  have hinv : Inv l := (hinv₀.step (a := .ix (.create_pool ctx)) hcreate).run hrun
  have hample := ample_of_margin hl hcreate hp₁ hfit hrun hp hw hmargin
  rw [← hwpool] at hp ⊢
  by_cases hc : p.complete = true
  · obtain ⟨hthr, l', hok, hd⟩ := hinv.exists_drained spl hms hwd hp hc hample
    refine ⟨l, l', p, ?_, hp, hc, hthr, hok, hd⟩
    rw [if_pos hc]
    rfl
  · have hopen : p.complete = false := by simpa using hc
    rw [hwpool, ← hpool] at hp
    obtain ⟨m, p', hok, hms', hp', hc', hample'⟩ :=
      hinv.exists_completed spl hms hp hopen hample (hcov hopen)
    have hstep : step spl l (.ix (.buy_tokens_from_exact_quote buy q 0)) = .ok m := hok
    have hinv' := hinv.step hstep
    have hterms : p.SameTerms p' := by
      obtain ⟨p'', hp'', hmove⟩ := step_move hinv hstep hp
      obtain rfl := Option.some_inj.mp (hp'.symm.trans hp'')
      exact hmove.terms
    rw [hpool, ← hwpool] at hp'
    obtain ⟨hthr, l', hok', hd⟩ := hinv'.exists_drained spl hms' hwd hp' hc' hample'
    refine ⟨m, l', p', ?_, hp', hc', hthr.trans ?_, hok', hd⟩
    · rw [if_neg hc, Runs.run_cons]
      exact ⟨m, hstep, rfl⟩
    · rw [hterms.real_quote_threshold]

/-- `bob` takes one base token for nothing and then completes the default pool, which is withdrawn
from. -/
theorem pools_can_be_finished_sample : ∃ m l' p', Reachable .reference m ∧
    m.pools.lookup coin_pool = some p' ∧ p'.complete = true ∧
    withdraw .reference ⟨default_owner, coin, QUOTE_MINT⟩ m = .ok l' ∧
    Drained ⟨default_owner, coin, QUOTE_MINT⟩ m l' p' := by
  let ctx : ABuy := ⟨bob, DEFAULT_OWNER, coin, QUOTE_MINT⟩
  let taken : Action := .ix (.buy_exact_tokens_from_quote ctx 1 0)
  let p : PoolState := { coin_created with real_base_reserves := TOTAL_SUPPLY - 1 }
  obtain ⟨l, hl, hv⟩ := exists_eq_ok (x := Runs.run (step .reference) launched (opening ++ [taken]))
    (f := fun l => (l.main_state, l.pools.lookup coin_pool, l.tokens.balance ctx.buyer_quote_ata))
    (b := (some (.initial DEFAULT_OWNER), some p, 1000000000000000000)) (by decide +kernel)
  obtain ⟨hms, hp, hbal⟩ : _ ∧ _ ∧ _ := by simpa only [Prod.mk.injEq] using hv
  obtain ⟨l₁, hl₁, hrun⟩ := Runs.run_append.mp hl
  obtain ⟨l₂, hl₂, -, -, hp₁, -⟩ := exists_opened
  obtain rfl := Except.ok.inj (hl₁.symm.trans hl₂)
  simp only [opening, Runs.run_cons, Runs.run_nil] at hl₁
  obtain ⟨l₀, hinit, l₂, hcreate, rfl⟩ := hl₁
  have hreach : Reachable .reference l₀ :=
    ⟨launched, [_], launched_genesis, Runs.run_cons.mpr ⟨l₀, hinit, rfl⟩⟩
  have hcov : ctx.Covers l (.initial DEFAULT_OWNER) p 31000000000000 :=
    ⟨by decide, rfl, by decide, by rw [hbal]; decide⟩
  obtain ⟨m, l', p', hm, hp', hc, -, hok, hd⟩ := pools_can_be_finished .reference ctx
    31000000000000 ⟨default_owner, coin, QUOTE_MINT⟩ hreach hcreate hp₁ (by decide) hrun hp
    (by decide) (by decide) hms rfl (fun _ => hcov) rfl rfl
  have hl : Reachable .reference l := ⟨launched, _, launched_genesis, hl⟩
  exact ⟨m, l', p', hl.run hm, hp', hc, hok, hd⟩

end AliPumpFun
