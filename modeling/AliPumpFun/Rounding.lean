/-
What the rounding of the exact-tokens buy is worth.

With exact-quote buys and sells alone a coalition gains nothing from trading against itself. An
exact-tokens buy charges the floor of its price, and what the floors leave out can be taken home.
It is little: where no cast cuts the charge, each such buy lowers the product by less than the
base tokens that the pool and the coalition have together, and this sum does not change. So a
coalition that had no base tokens has gained at most one quote token for each of these buys, and
the gain grows with the base tokens it had in proportion to those in the pool.
-/
import AliPumpFun.Drift
import AliPumpFun.Narrowing
import AliPumpFun.SelfTrade

set_option autoImplicit false

open Words Fallible

namespace AliPumpFun

variable {spl : TokenProgram Pubkey} {l l' : Ledger} {a : Action} {C : Coalition} {k : Pubkey}
  {p p' : PoolState}

/-- What can happen while the coalition trades on the pool at `k` with all three trades. -/
def Action.OwnTrade (C : Coalition) (k : Pubkey) : Action → Prop
  | .ix (.buy_exact_tokens_from_quote ctx _ _) => ctx.pool_state = k ∧ C.member ctx.buyer.1 = true
  | a => a.SelfTrade C k

theorem trades_append {kind : Instruction → Bool} {as bs : List Action} :
    trades kind k (as ++ bs) = trades kind k as + trades kind k bs := by
  rw [trades, instructions, List.filterMap_append, List.countP_append]
  rfl

/-! ## One buy -/

/-- An exact-tokens buy whose charge fits its cast lowers the product by less than the base
tokens of the pool. -/
theorem ExactTokens.product_le_add {ms : MainState} {b m : U64} {c : Purchase}
    (h : ExactTokens ms p b m c) (hlt : ConstantProduct.input b.toNat p.quote p.base < 2 ^ 64) :
    p.product ≤ c.settled.product + p.base := by
  rw [Purchase.settled_product]
  rcases h.branch with ⟨-, -, -, hout⟩ | ⟨-, hin, hout⟩
  · -- capped, it is an exact-quote buy of what remains
    exact (c.product_le h.moves hout).trans (Nat.le_add_right _ _)
  · have hb := h.moves.base_eq
    have hq := h.moves.quote_eq
    have hkey := ConstantProduct.product_lt_of_input (X := p.quote) h.below
    rw [PoolState.charge_of_lt hlt] at hin
    rw [hout] at hb
    rw [← hin, ← hq, show p.base - b.toNat = c.pool_state.base by omega] at hkey
    rw [PoolState.product, PoolState.product, Nat.mul_comm, Nat.mul_comm c.pool_state.base]
    omega

/-! ## The account of the coalition and its pool -/

/-- What the coalition and the pool have done to each other between `l`, where the pool is `p`,
and `l'`, where it is `p'`, with `n` exact-tokens buys. -/
structure OwnTraded (C : Coalition) (n : ℕ) (l l' : Ledger) (p p' : PoolState) : Prop where
  terms : p.SameTerms p'
  base : C.holdings l' p.base_mint + p'.base = C.holdings l p.base_mint + p.base
  quote_le : C.holdings l' p.quote_mint + p'.quote ≤ C.holdings l p.quote_mint + p.quote
  product_le : p.product ≤ p'.product + n * (C.holdings l p.base_mint + p.base)

namespace OwnTraded

variable {l'' : Ledger} {p'' : PoolState} {n n' : ℕ}

/-- A self-trade is one with any number of these buys. -/
theorem of_selfTraded (h : SelfTraded C l l' p p') : OwnTraded C n l l' p p' where
  terms := h.terms
  base := by
    have := h.base
    rw [PoolState.base, PoolState.base, h.terms.virt_base_reserves]
    omega
  quote_le := by
    have := h.quote_le
    rw [PoolState.quote, PoolState.quote, h.terms.virt_quote_reserves]
    omega
  product_le := h.product_le.trans (Nat.le_add_right _ _)

theorem trans (h : OwnTraded C n l l' p p') (h' : OwnTraded C n' l' l'' p' p'') :
    OwnTraded C (n + n') l l'' p p'' where
  terms := h.terms.trans h'.terms
  base := by
    have := h'.base
    rw [h.terms.base_mint] at this
    exact this.trans h.base
  quote_le := by
    have := h'.quote_le
    rw [h.terms.quote_mint] at this
    exact this.trans h.quote_le
  product_le := by
    -- the sum that a buy is charged against is the same at both
    have hsum := h.base
    have hle := h'.product_le
    rw [h.terms.base_mint, hsum] at hle
    rw [Nat.add_mul]
    have := h.product_le
    omega

/-- What the coalition gains when it has its base tokens back. -/
theorem quote_holdings_le (h : OwnTraded C n l l' p p')
    (hback : C.holdings l p.base_mint ≤ C.holdings l' p.base_mint) :
    C.holdings l' p.quote_mint * p.base ≤
      C.holdings l p.quote_mint * p.base + n * (C.holdings l p.base_mint + p.base) := by
  have hbase := h.base
  have hle : p'.product ≤ p.base * p'.quote := Nat.mul_le_mul_right _ (by omega)
  have hproduct : p.base * p.quote ≤
      p.base * p'.quote + n * (C.holdings l p.base_mint + p.base) :=
    h.product_le.trans (Nat.add_le_add_right hle _)
  have hquote := Nat.mul_le_mul_left p.base h.quote_le
  rw [Nat.mul_add, Nat.mul_add] at hquote
  rw [Nat.mul_comm _ p.base, Nat.mul_comm _ p.base]
  omega

end OwnTraded

/-- One step. -/
theorem PoolMove.ownTraded (hmove : PoolMove l l' k p a p') (hinv : Inv l)
    (hp : l.pools.lookup k = some p) (h : step spl l a = .ok l') (ha : a.OwnTrade C k)
    (hrange : ∀ i, a = .ix i → i.InRange l) :
    OwnTraded C (trades Instruction.is_exact_tokens k [a]) l l' p p' := by
  have hself : a.SelfTrade C k →
      OwnTraded C (trades Instruction.is_exact_tokens k [a]) l l' p p' :=
    fun hs => .of_selfTraded (hmove.selfTraded hinv hp h hs)
  have hpair := (hinv.pools k p hp).pair
  cases hmove with
  | @exact_tokens ctx b m ms c hk hx hb =>
    have hms := hb.accepts.main_state
    have hlt := ((hx.in_range_iff (hinv.main_state ms hms).trading_fee_lt).mp
      (hrange _ rfl ms p hms hb.accepts.pool_state)).1
    have hone : trades Instruction.is_exact_tokens k
        [.ix (.buy_exact_tokens_from_quote ctx b m)] = 1 := by
      simp [trades, instructions, Action.on, Instruction.pool, Instruction.is_exact_tokens, hk]
    rw [← hb.accepts.base_mint, ← hb.accepts.quote_mint] at hpair
    have h1 := hb.holdings_base hinv.ata hpair ha.2
    have h2 := hb.holdings_quote_le hinv.ata hpair ha.2
    have h3 := hx.moves.base_eq
    have h4 := hx.moves.quote_eq
    rw [hone]
    refine ⟨hx.buys.terms, ?_, ?_, ?_⟩
    · rw [← hb.accepts.base_mint, Purchase.settled_base]
      omega
    · rw [← hb.accepts.quote_mint, Purchase.settled_quote]
      omega
    · have := hx.product_le_add hlt
      omega
  | other hne =>
    refine hself ?_
    cases a with
    | ix i =>
      cases i with
      | buy_exact_tokens_from_quote => exact absurd (congrArg some ha.1) hne
      | _ => exact ha
    | _ => exact ha
  | exact_quote => exact hself ha
  | sell => exact hself ha
  | withdraw => exact ha.elim

/-- A whole run. -/
theorem run_ownTraded {as : List Action} (hinv : Inv l)
    (hrun : Runs.run (step spl) l as = .ok l') (hp : l.pools.lookup k = some p)
    (has : ∀ a ∈ as, a.OwnTrade C k)
    (hrange : ∀ done i rest m, as = done ++ .ix i :: rest →
      Runs.run (step spl) l done = .ok m → i.InRange m) :
    ∃ p', l'.pools.lookup k = some p' ∧
      OwnTraded C (trades Instruction.is_exact_tokens k as) l l' p p' := by
  have key : Inv l' ∧ ∃ p', l'.pools.lookup k = some p' ∧
      OwnTraded C (trades Instruction.is_exact_tokens k as) l l' p p' := by
    refine Runs.run_induction_of (P := fun as m => Inv m ∧ ∃ q, m.pools.lookup k = some q ∧
      OwnTraded C (trades Instruction.is_exact_tokens k as) l m p q)
      (C := fun m a => a.OwnTrade C k ∧ ∀ i, a = .ix i → i.InRange m)
      ⟨hinv, p, hp, .of_selfTraded .refl⟩ ?_ hrun ?_
    · rintro done m a m' ⟨hm, q, hq, hown⟩ ⟨ha, hin⟩ hstep
      obtain ⟨q', hq', hmove⟩ := step_move hm hstep hq
      rw [trades_append]
      exact ⟨hm.step hstep, q', hq', hown.trans (hmove.ownTraded hm hq hstep ha hin)⟩
    · intro done a rest m hd hdone
      refine ⟨has a (by simp [hd]), fun i hi => ?_⟩
      rw [hi] at hd
      exact hrange done i rest m hd hdone
  exact key.2

/-- **What the rounding of the exact-tokens buys is worth.** Let a coalition be alone on a pool and
trade on it in any way, with charges that no cast cuts. If it has its base tokens back, what it
has gained in quote tokens is at most one for each of its exact-tokens buys, and as much more as
the base tokens it had are to those of the pool. -/
theorem rounding_gain_bounded (spl : TokenProgram Pubkey) {l l' : Ledger} {as : List Action}
    {C : Coalition} {k : Pubkey} {p : PoolState} (hl : Reachable spl l)
    (hp : l.pools.lookup k = some p) (hrun : Runs.run (step spl) l as = .ok l')
    (has : ∀ a ∈ as, a.OwnTrade C k)
    (hrange : ∀ done i rest m, as = done ++ .ix i :: rest →
      Runs.run (step spl) l done = .ok m → i.InRange m)
    (hback : C.holdings l p.base_mint ≤ C.holdings l' p.base_mint) :
    C.holdings l' p.quote_mint * p.base ≤ C.holdings l p.quote_mint * p.base +
        trades Instruction.is_exact_tokens k as * (C.holdings l p.base_mint + p.base) ∧
      (C.holdings l p.base_mint = 0 → C.holdings l' p.quote_mint ≤
        C.holdings l p.quote_mint + trades Instruction.is_exact_tokens k as) := by
  have hinv := hl.inv
  obtain ⟨p', -, hown⟩ := run_ownTraded hinv hrun hp has hrange
  have hle := hown.quote_holdings_le hback
  refine ⟨hle, fun hnone => ?_⟩
  have hpos : 0 < p.base := Nat.add_pos_left (hinv.pools k p hp).virt_base _
  rw [hnone, Nat.zero_add, ← Nat.add_mul] at hle
  exact Nat.le_of_mul_le_mul_right hle hpos

/-- `bob` takes 106 base tokens, whose price is rounded down to nothing. -/
def taking : Instruction :=
  .buy_exact_tokens_from_quote ⟨bob, DEFAULT_OWNER, coin, QUOTE_MINT⟩ 106 0

/-- He sells twice as many. -/
def selling : Instruction := .sell ⟨bob, DEFAULT_OWNER, coin, QUOTE_MINT⟩ 212 0

/-- `bob` takes 106 base tokens, twice, and sells them for one quote token. -/
theorem rounding_gain_bounded_sample : ∃ l l', Reachable .reference l ∧
    bob_coalition.holdings l QUOTE_MINT < bob_coalition.holdings l' QUOTE_MINT ∧
    bob_coalition.holdings l' QUOTE_MINT ≤ bob_coalition.holdings l QUOTE_MINT + 2 := by
  -- there is something to gain, which `alice` has paid
  let market : List Action := opening ++ [.create_ata alice.1 QUOTE_MINT,
    .token_transfer bob (.ata bob.1 QUOTE_MINT) (.ata alice.1 QUOTE_MINT) 20000,
    .ix (.buy_tokens_from_exact_quote ⟨alice, DEFAULT_OWNER, coin, QUOTE_MINT⟩ 10000 0)]
  let p : PoolState := { coin_created with
    real_base_reserves := 999999998944001
    real_quote_reserves := 9900 }
  obtain ⟨l, hl, hv⟩ := exists_eq_ok (x := Runs.run (step .reference) launched market)
    (f := fun l => ((l.main_state, l.pools.lookup coin_pool),
      bob_coalition.holdings l coin, bob_coalition.holdings l QUOTE_MINT))
    (b := ((some (.initial DEFAULT_OWNER), some p), 0, 999999999999980100)) (by decide +kernel)
  obtain ⟨l₁, h₁, hv₁⟩ := Runs.exists_step_eq_ok hl (a := .ix taking)
    (f := fun l => (l.main_state, l.pools.lookup coin_pool))
    (b := (some (.initial DEFAULT_OWNER), some { p with real_base_reserves := 999999998943895 }))
    (by decide +kernel)
  have hl₁ := Runs.run_snoc.mpr ⟨l, hl, h₁⟩
  obtain ⟨l₂, h₂, -⟩ := Runs.exists_step_eq_ok hl₁ (a := .ix taking) (f := fun _ => ()) (b := ())
    (by decide +kernel)
  obtain ⟨l', h', hv'⟩ := Runs.exists_step_eq_ok (Runs.run_snoc.mpr ⟨l₁, hl₁, h₂⟩)
    (a := .ix selling) (f := fun l => bob_coalition.holdings l QUOTE_MINT)
    (b := 999999999999980101) (by decide +kernel)
  simp only [Prod.mk.injEq] at hv hv₁
  obtain ⟨⟨hms, hp⟩, hbase, hquote⟩ := hv
  have hrun : Runs.run (step .reference) l [.ix taking, .ix taking, .ix selling] = .ok l' :=
    Runs.run_cons.mpr ⟨l₁, h₁, Runs.run_cons.mpr ⟨l₂, h₂, Runs.run_cons.mpr ⟨l', h', rfl⟩⟩⟩
  have hreach : Reachable .reference l := ⟨launched, market, launched_genesis, hl⟩
  have hgain := (rounding_gain_bounded .reference (C := bob_coalition) hreach hp hrun ?_ ?_ ?_).2
    hbase
  · refine ⟨l, l', hreach, ?_, hgain⟩
    rw [hquote, hv']
    decide
  · intro a ha
    simp only [List.mem_cons, List.not_mem_nil, or_false] at ha
    rcases ha with rfl | rfl | rfl
    · exact ⟨rfl, by decide⟩
    · exact ⟨rfl, by decide⟩
    · exact ⟨rfl, by decide⟩
  · intro done i rest m hsplit hdone
    rcases done with _ | ⟨a, _ | ⟨b, _ | ⟨c, done⟩⟩⟩
    · -- the first buy, on `l`
      obtain rfl := Except.ok.inj hdone
      obtain rfl := Action.ix.inj (List.cons.inj hsplit).1
      intro ms q hms' hq
      obtain rfl := Option.some_inj.mp (hms.symm.trans hms')
      obtain rfl := Option.some_inj.mp (hp.symm.trans hq)
      rw [PoolState.InRange]
      decide
    · -- the second, on `l₁`
      obtain ⟨ha, hsplit⟩ := List.cons.inj hsplit
      rw [← ha] at hdone
      obtain rfl := Action.ix.inj (List.cons.inj hsplit).1
      obtain ⟨m', hm', hnil⟩ := Runs.run_cons.mp hdone
      obtain rfl := Except.ok.inj hnil
      obtain rfl := Except.ok.inj (h₁.symm.trans hm')
      intro ms q hms' hq
      obtain rfl := Option.some_inj.mp (hv₁.1.symm.trans hms')
      obtain rfl := Option.some_inj.mp (hv₁.2.symm.trans hq)
      rw [PoolState.InRange]
      decide
    · obtain ⟨-, hsplit⟩ := List.cons.inj hsplit
      obtain ⟨-, hsplit⟩ := List.cons.inj hsplit
      obtain rfl := Action.ix.inj (List.cons.inj hsplit).1
      trivial
    · have := congrArg List.length hsplit
      simp at this
  · rw [show p.base_mint = coin from rfl, hbase]
    exact Nat.zero_le _

end AliPumpFun
