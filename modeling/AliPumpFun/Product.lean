/-
The product of the total reserves.

Two of the three trades leave the rounding with the pool and never lower the product.
The exact-tokens buy does so too when it is capped, because it is then priced as an
exact-quote buy of what remains. When it is not capped it charges the floor of the
curve's price, cast to 64 bits, so the product survives exactly when neither the floor
nor the cast loses anything (`PoolState.Exact`).
-/
import AliPumpFun.Invariant

set_option autoImplicit false

open Words Fallible

namespace AliPumpFun

variable {spl : TokenProgram Pubkey} {l l' : Ledger} {a : Action}

/-! ## Exactly priced trades -/

/-- The exact-tokens buy of `b` is not priced below the curve: it is capped, or the price
is a whole number that fits 64 bits. -/
def PoolState.Exact (p : PoolState) (b : U64) : Prop :=
  p.Capped b ∨ (p.base - b.toNat) ∣ b.toNat * p.quote ∧
    ConstantProduct.input b.toNat p.quote p.base < 2 ^ 64

/-- An instruction, made on the pool `p`, is not priced below the curve. -/
def Instruction.Exact (p : PoolState) : Instruction → Prop
  | .buy_exact_tokens_from_quote _ b _ => p.Exact b
  | _ => True

/-- Every trade of `as` on the pool at `k` is made on a pool on which it is exactly
priced. -/
def ExactlyPriced (spl : TokenProgram Pubkey) (k : Pubkey) (l : Ledger) (as : List Action) :
    Prop :=
  ∀ done i rest m p, as = done ++ .ix i :: rest → Runs.run (step spl) l done = .ok m →
    i.traded = some k → m.pools.lookup k = some p → i.Exact p

/-! ## One trade -/

section Trades

variable {ms : MainState} {p : PoolState}

/-- An input priced by the output formula keeps the product, in both buys. -/
theorem Purchase.product_le {c : Purchase} (h : c.Moves p)
    (hout : c.base_amount.toNat =
      ConstantProduct.output c.input_quote_amount.toNat p.quote p.base) :
    p.product ≤ c.pool_state.product := by
  have hb := h.base_eq
  have hkey := ConstantProduct.product_le_of_output c.input_quote_amount.toNat p.quote p.base
  rw [← hout, ← h.quote_eq, ← hb, Nat.add_sub_cancel] at hkey
  rw [PoolState.product, PoolState.product, ← hb, Nat.mul_comm, Nat.mul_comm c.pool_state.base]
  exact hkey

theorem ExactQuote.product_le {q m : U64} {c : Purchase} (h : ExactQuote ms p q m c) :
    p.product ≤ c.pool_state.product := c.product_le h.moves h.base

theorem ExactTokens.product_le_iff {b m : U64} {c : Purchase} (h : ExactTokens ms p b m c) :
    p.product ≤ c.pool_state.product ↔ p.Exact b := by
  rcases h.branch with ⟨hcap, -, -, hout⟩ | ⟨hcap, hin, hout⟩
  · exact ⟨fun _ => .inl hcap, fun _ => c.product_le h.moves hout⟩
  · have hb := h.moves.base_eq
    rw [hout] at hb
    have hsub : p.base - b.toNat = c.pool_state.base := by omega
    have hkey := ConstantProduct.product_le_of_input_mod_iff (X := p.quote) (M := 2 ^ 64)
      (by decide) h.below
    rw [show ConstantProduct.input b.toNat p.quote p.base % 2 ^ 64 = p.charge b from rfl, ← hin,
      ← h.moves.quote_eq, hsub, Nat.mul_comm p.quote, Nat.mul_comm c.pool_state.quote] at hkey
    rw [PoolState.product, PoolState.product, hkey, PoolState.Exact, hsub]
    exact ⟨.inr, fun hx => hx.resolve_left hcap⟩

theorem Sell.product_le {s m : U64} {c : Sale} (h : Sell ms p s m c) :
    p.product ≤ c.pool_state.product := by
  have hq := h.moves.quote_eq
  have hkey := ConstantProduct.product_le_of_output s.toNat p.base p.quote
  rw [← h.gross, ← h.moves.base_eq, ← hq, Nat.add_sub_cancel] at hkey
  rw [PoolState.product, PoolState.product, ← hq]
  exact hkey

end Trades

theorem Purchase.settled_product (c : Purchase) : c.settled.product = c.pool_state.product := by
  rw [PoolState.product, PoolState.product, c.settled_base, c.settled_quote]

/-- **A step that does not empty the pool keeps its product exactly when it is exactly
priced.** -/
theorem PoolMove.product_le_iff {k : Pubkey} {p p' : PoolState} {i : Instruction}
    (h : PoolMove l l' k p (.ix i) p') (hi : i.traded = some k) :
    p.product ≤ p'.product ↔ i.Exact p := by
  cases h with
  | other ha =>
    refine absurd ?_ ha
    cases i <;> first | exact hi | cases hi
  | exact_quote _ hc _ =>
    rw [Purchase.settled_product]
    exact ⟨fun _ => trivial, fun _ => hc.product_le⟩
  | exact_tokens _ hc _ =>
    rw [Purchase.settled_product]
    exact hc.product_le_iff
  | sell _ hc _ => exact ⟨fun _ => trivial, fun _ => hc.product_le⟩
  | withdraw => cases hi

/-! ## Runs -/

theorem PoolMove.product_le {k : Pubkey} {p p' : PoolState} (h : PoolMove l l' k p a p')
    (hw : a.withdrawn ≠ some k) (hx : ∀ i, a = .ix i → i.traded = some k → i.Exact p) :
    p.product ≤ p'.product := by
  have hiff : ∀ i, a = .ix i → i.traded = some k → p.product ≤ p'.product := by
    rintro i rfl hi
    exact (h.product_le_iff hi).mpr (hx i rfl hi)
  cases h with
  | other => exact le_rfl
  | exact_quote hk => exact hiff _ rfl (congrArg some hk)
  | exact_tokens hk => exact hiff _ rfl (congrArg some hk)
  | sell hk => exact hiff _ rfl (congrArg some hk)
  | withdraw hk => exact absurd (congrArg some hk) hw

/-- **Along a run of exactly priced trades the product of a pool never falls.** -/
theorem run_product_le {k : Pubkey} {p p' : PoolState} {as : List Action} (hinv : Inv l)
    (hrun : Runs.run (step spl) l as = .ok l') (hp : l.pools.lookup k = some p)
    (hp' : l'.pools.lookup k = some p') (hw : ∀ a ∈ as, a.withdrawn ≠ some k)
    (hx : ExactlyPriced spl k l as) : p.product ≤ p'.product := by
  -- the invariant of the run: the pool is there, with no less than the first product
  have key : Inv l' ∧ ∃ q, l'.pools.lookup k = some q ∧ p.product ≤ q.product := by
    refine Runs.run_preserves_of (P := fun m => Inv m ∧ ∃ q, m.pools.lookup k = some q ∧
        p.product ≤ q.product)
      (C := fun m a => a.withdrawn ≠ some k ∧ ∀ i q, a = .ix i → i.traded = some k →
        m.pools.lookup k = some q → i.Exact q) ?_ ⟨hinv, p, hp, le_rfl⟩ hrun ?_
    · rintro m a m' ⟨hm, q, hq, hle⟩ ⟨hwa, hxa⟩ hstep
      obtain ⟨q', hq', hmove⟩ := step_move hm hstep hq
      exact ⟨hm.step hstep, q', hq',
        hle.trans (hmove.product_le hwa fun i hi ht => hxa i q hi ht hq)⟩
    · intro done a rest m has hdone
      refine ⟨hw a (by simp [has]), fun i q hi ht hq => ?_⟩
      subst hi
      exact hx done i rest m q has hdone ht hq
  obtain ⟨-, q, hq, hle⟩ := key
  obtain rfl := Option.some_inj.mp (hq.symm.trans hp')
  exact hle

/-- **When the product is safe.** On a reachable incomplete pool a trade keeps the product
exactly when it is exactly priced, and from its creation on, as long as every trade on it
is, a pool's product never falls below the first. -/
theorem product_safety (spl : TokenProgram Pubkey) :
    (∀ (l l' : Ledger) (i : Instruction) (k : Pubkey) (p p' : PoolState),
      Reachable spl l → i.traded = some k → l.pools.lookup k = some p → p.complete = false →
      i.execute spl l = .ok l' → l'.pools.lookup k = some p' →
      (p.product ≤ p'.product ↔ i.Exact p)) ∧
    ∀ (l₀ l₁ l : Ledger) (ctx : ACreatePool) (as : List Action) (p₁ p : PoolState),
      Reachable spl l₀ → create_pool spl ctx l₀ = .ok l₁ →
      l₁.pools.lookup ctx.pool_state = some p₁ → Runs.run (step spl) l₁ as = .ok l →
      (∀ a ∈ as, a.withdrawn ≠ some ctx.pool_state) →
      ExactlyPriced spl ctx.pool_state l₁ as →
      l.pools.lookup ctx.pool_state = some p → p₁.product ≤ p.product := by
  refine ⟨?_, ?_⟩
  · intro l l' i k p p' hl hi hp _ hexec hp'
    exact (PoolMove.of_step (a := .ix i) hl.inv hexec hp hp').product_le_iff hi
  · intro l₀ l₁ l ctx as p₁ p hl hcreate hp₁ hrun hw hx hp
    have hinv : Inv l₁ := hl.inv.step (a := .ix (.create_pool ctx)) hcreate
    exact run_product_le hinv hrun hp₁ hp hw hx

/-- `bob` buys half of the total base reserves, whose price is exactly the total quote reserves,
and sells some of them. Neither lowers the product, nor do the two together. -/
theorem product_safety_sample : ∃ (l l₁ l₂ : Ledger) (p₁ p₂ : PoolState), Reachable .reference l ∧
    buy_exact_tokens_from_quote .reference ⟨bob, DEFAULT_OWNER, coin, QUOTE_MINT⟩ 533333333000000
      20000000000000 l = .ok l₁ ∧
    sell .reference ⟨bob, DEFAULT_OWNER, coin, QUOTE_MINT⟩ 1000000 0 l₁ = .ok l₂ ∧
    l₁.pools.lookup coin_pool = some p₁ ∧ coin_created.product ≤ p₁.product ∧
    l₂.pools.lookup coin_pool = some p₂ ∧ coin_created.product ≤ p₂.product := by
  let buy : Instruction := .buy_exact_tokens_from_quote ⟨bob, DEFAULT_OWNER, coin, QUOTE_MINT⟩
    533333333000000 20000000000000
  let sale : Instruction := .sell ⟨bob, DEFAULT_OWNER, coin, QUOTE_MINT⟩ 1000000 0
  obtain ⟨l₀, l, l₂, hl₀, hcreate, hreach, hp, hrun, hp₂⟩ := exists_opening [.ix buy, .ix sale]
    (p := { coin_created with
      real_base_reserves := 466666668000000
      real_quote_reserves := 9999999962501 }) (by decide +kernel)
  have hexact : coin_created.Exact 533333333000000 := .inr (by decide)
  obtain ⟨l₁, hbuy, hrest⟩ := Runs.run_cons.mp hrun
  obtain ⟨p₁, hp₁, -⟩ := step_move hreach.inv hbuy hp
  have hle₁ := ((product_safety .reference).1 l l₁ buy coin_pool _ _ hreach rfl hp rfl hbuy
    hp₁).mpr hexact
  obtain ⟨m, hsale, hm⟩ := Runs.run_cons.mp hrest
  obtain rfl := Except.ok.inj hm
  refine ⟨l, l₁, m, p₁, _, hreach, hbuy, hsale, hp₁, hle₁, hp₂, ?_⟩
  refine (product_safety .reference).2 l₀ l m _ _ _ _ hl₀ hcreate hp hrun (by decide) ?_ hp₂
  -- the first trade is the buy on the new pool, and a sell is always exactly priced
  rintro done i rest m' q has hdone - hq
  rcases done with _ | ⟨a, done⟩
  · obtain rfl := Except.ok.inj hdone
    obtain rfl := Option.some_inj.mp (hp.symm.trans hq)
    obtain rfl := Action.ix.inj (List.cons.inj has).1
    exact hexact
  · have hi : Action.ix i ∈ [Action.ix sale] := by
      rw [(List.cons.inj has).2]
      simp
    obtain rfl : i = sale := by simpa using hi
    trivial

/-- Right after the creation of a pool with the default main state one base token can be
bought for nothing: the price is rounded down to zero. -/
theorem product_falls :
    ¬ ∀ (spl : TokenProgram Pubkey) (l l' : Ledger) (i : Instruction) (k : Pubkey)
      (p p' : PoolState), Reachable spl l → i.traded = some k → l.pools.lookup k = some p →
      p.complete = false → i.execute spl l = .ok l' → l'.pools.lookup k = some p' →
      p.product ≤ p'.product := by
  intro h
  let i : Instruction := .buy_exact_tokens_from_quote ⟨bob, DEFAULT_OWNER, coin, QUOTE_MINT⟩ 1 0
  obtain ⟨-, l₁, l, -, -, hreach, hp₁, hrun, hp⟩ := exists_opening [.ix i]
    (p := { coin_created with real_base_reserves := TOTAL_SUPPLY - 1 }) (by decide +kernel)
  obtain ⟨m, rfl, hexec⟩ : ∃ m, l₁ = m ∧ step .reference m (.ix i) = .ok l := by
    simpa using hrun
  exact absurd (h .reference l₁ l i coin_pool _ _ hreach rfl hp₁ rfl hexec hp) (by decide)

end AliPumpFun
