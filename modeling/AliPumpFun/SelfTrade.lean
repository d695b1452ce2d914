/-
Trading against oneself.

A coalition that is alone on a pool moves tokens between itself and the pool, and loses
fees on the way unless it owns the fee recipient as well. What it holds of the base mint
plus what the pool has in reserve of it stays the same; the same sum of the quote mint
never grows; and the product of the pool never falls, as long as the exact-tokens buy is
not used. So a coalition that has its base tokens back has paid for the round trip.
-/
import AliPumpFun.Product

set_option autoImplicit false

open Words Fallible

namespace AliPumpFun

variable {spl : TokenProgram Pubkey} {l l' : Ledger} {a : Action}

/-- Some owners of token accounts, none of them a pool. -/
structure Coalition where
  member : Pubkey → Bool
  no_pool : ∀ b q, member (.poolState b q) = false

/-- The accounts of a mint that belong to the coalition. -/
def Coalition.accounts (C : Coalition) (mint : Pubkey) : Pubkey → Pubkey → Pubkey → Bool :=
  fun _ m o => m = mint && C.member o

/-- What the coalition holds of a mint. -/
def Coalition.holdings (C : Coalition) (l : Ledger) (mint : Pubkey) : ℕ :=
  l.tokens.holdings (C.accounts mint)

/-- What can happen while the coalition trades on the pool at `k`: exact-quote buys and sells
of its members on it, and anything that moves no tokens. -/
def Action.SelfTrade (C : Coalition) (k : Pubkey) : Action → Prop
  | .ix (.buy_tokens_from_exact_quote ctx _ _) => ctx.pool_state = k ∧ C.member ctx.buyer.1 = true
  | .ix (.sell ctx _ _) => ctx.pool_state = k ∧ C.member ctx.seller.1 = true
  | .ix (.init_main_state _) => True
  | .ix (.update_main_state _ _) => True
  | .ix (.transfer_ownership _ _) => True
  | .create_ata _ _ => True
  | .create_account _ _ _ => True
  | .tick _ => True
  | _ => False

/-! ## One trade -/

section Trades

variable {C : Coalition} {ms : MainState} {p : PoolState}

/-- The accounts a buy pays from and to, as far as the coalition is concerned. -/
theorem ABuy.Accepts.selects {ctx : ABuy} (h : ctx.Accepts l ms p) (hwf : AtaWf l.tokens)
    (C : Coalition) (mint : Pubkey) :
    let t := ensured l.tokens ctx.opens
    t.selects (C.accounts mint) ctx.buyer_base_ata =
        (ctx.base_mint = mint && C.member ctx.buyer.1) ∧
      t.selects (C.accounts mint) ctx.buyer_quote_ata =
        (ctx.quote_mint = mint && C.member ctx.buyer.1) ∧
      t.selects (C.accounts mint) ctx.fee_quote_ata =
        (ctx.quote_mint = mint && C.member ctx.fee_recipient) ∧
      t.selects (C.accounts mint) ctx.reserver_base_ata = false ∧
      t.selects (C.accounts mint) ctx.reserver_quote_ata = false := by
  have hopen : ∀ om ∈ ctx.opens, .ata om.1 om.2 ∈ ensured l.tokens ctx.opens :=
    fun _ => ata_mem_ensured
  have hpool : C.member ctx.pool_state = false := C.no_pool _ _
  refine ⟨?_, ?_, ?_, ?_, ?_⟩
  · exact hwf.ensured.selects (hopen (ctx.buyer.1, ctx.base_mint) (by simp [opens])) _
  · exact hwf.ensured.selects (hopen (ctx.buyer.1, ctx.quote_mint) (by simp [opens])) _
  · exact hwf.ensured.selects (hopen (ctx.fee_recipient, ctx.quote_mint) (by simp [opens])) _
  · rw [ABuy.reserver_base_ata, hwf.ensured.selects h.reserver_base, Coalition.accounts, hpool,
      Bool.and_false]
  · rw [ABuy.reserver_quote_ata, hwf.ensured.selects h.reserver_quote, Coalition.accounts, hpool,
      Bool.and_false]

/-- A member's buy brings the base tokens to the coalition. -/
theorem Bought.holdings_base {ctx : ABuy} {c : Purchase} (h : Bought ctx l l' ms p c)
    (hwf : AtaWf l.tokens) (hpair : ctx.base_mint ≠ ctx.quote_mint)
    (hC : C.member ctx.buyer.1 = true) :
    C.holdings l' ctx.base_mint = C.holdings l ctx.base_mint + c.base_amount.toNat := by
  obtain ⟨h1, h2, h3, h4, h5⟩ := h.accepts.selects hwf C ctx.base_mint
  have hsum := h.settles.paid.holdings_eq (C.accounts ctx.base_mint)
  rw [Coalition.holdings, Coalition.holdings]
  simpa [ABuy.payments, h1, h2, h3, h4, h5, hpair.symm, hC] using hsum

/-- It takes out at least what goes into the pool: the fee can come back at most. -/
theorem Bought.holdings_quote_le {ctx : ABuy} {c : Purchase} (h : Bought ctx l l' ms p c)
    (hwf : AtaWf l.tokens) (hpair : ctx.base_mint ≠ ctx.quote_mint)
    (hC : C.member ctx.buyer.1 = true) :
    C.holdings l' ctx.quote_mint + c.input_quote_amount.toNat ≤ C.holdings l ctx.quote_mint := by
  obtain ⟨h1, h2, h3, h4, h5⟩ := h.accepts.selects hwf C ctx.quote_mint
  have hsum : C.holdings l' ctx.quote_mint + (c.fee.toNat + c.input_quote_amount.toNat) =
      C.holdings l ctx.quote_mint +
        if C.member ctx.fee_recipient = true then c.fee.toNat else 0 := by
    rw [Coalition.holdings, Coalition.holdings]
    simpa [ABuy.payments, h1, h2, h3, h4, h5, hpair, hC]
      using h.settles.paid.holdings_eq (C.accounts ctx.quote_mint)
  split_ifs at hsum <;> omega

/-- The accounts a sell pays from and to, as far as the coalition is concerned. -/
theorem ASell.Accepts.selects {ctx : ASell} {s : U64} (h : ctx.Accepts s l ms p)
    (hwf : AtaWf l.tokens) (C : Coalition) (mint : Pubkey) :
    let t := ensured l.tokens ctx.opens
    t.selects (C.accounts mint) ctx.seller_base_ata =
        (ctx.base_mint = mint && C.member ctx.seller.1) ∧
      t.selects (C.accounts mint) ctx.seller_quote_ata =
        (ctx.quote_mint = mint && C.member ctx.seller.1) ∧
      t.selects (C.accounts mint) ctx.fee_quote_ata =
        (ctx.quote_mint = mint && C.member ctx.fee_recipient) ∧
      t.selects (C.accounts mint) ctx.reserver_base_ata = false ∧
      t.selects (C.accounts mint) ctx.reserver_quote_ata = false := by
  have hopen : ∀ om ∈ ctx.opens, .ata om.1 om.2 ∈ ensured l.tokens ctx.opens :=
    fun _ => ata_mem_ensured
  have hseller : ctx.seller_base_ata ∈ ensured l.tokens ctx.opens :=
    mem_ensure.mpr (.inl h.seller_base)
  have hpool : C.member ctx.pool_state = false := C.no_pool _ _
  refine ⟨?_, ?_, ?_, ?_, ?_⟩
  · exact hwf.ensured.selects hseller _
  · exact hwf.ensured.selects (hopen (ctx.seller.1, ctx.quote_mint) (by simp [opens])) _
  · exact hwf.ensured.selects (hopen (ctx.fee_recipient, ctx.quote_mint) (by simp [opens])) _
  · rw [ASell.reserver_base_ata, hwf.ensured.selects h.reserver_base, Coalition.accounts, hpool,
      Bool.and_false]
  · rw [ASell.reserver_quote_ata, hwf.ensured.selects h.reserver_quote, Coalition.accounts, hpool,
      Bool.and_false]

/-- A member's sell takes the base tokens from the coalition. -/
theorem Sold.holdings_base {ctx : ASell} {s : U64} {c : Sale} (h : Sold ctx s l l' ms p c)
    (hwf : AtaWf l.tokens) (hpair : ctx.base_mint ≠ ctx.quote_mint)
    (hC : C.member ctx.seller.1 = true) :
    C.holdings l' ctx.base_mint + s.toNat = C.holdings l ctx.base_mint := by
  obtain ⟨h1, h2, h3, h4, h5⟩ := h.accepts.selects hwf C ctx.base_mint
  have hsum := h.settles.paid.holdings_eq (C.accounts ctx.base_mint)
  rw [Coalition.holdings, Coalition.holdings]
  simpa [ASell.payments, h1, h2, h3, h4, h5, hpair.symm, hC] using hsum

/-- It brings in at most what leaves the pool. -/
theorem Sold.holdings_quote_le {ctx : ASell} {s : U64} {c : Sale} (h : Sold ctx s l l' ms p c)
    (hwf : AtaWf l.tokens) (hpair : ctx.base_mint ≠ ctx.quote_mint)
    (hC : C.member ctx.seller.1 = true) :
    C.holdings l' ctx.quote_mint ≤
      C.holdings l ctx.quote_mint + (c.fee.toNat + c.output_amount.toNat) := by
  obtain ⟨h1, h2, h3, h4, h5⟩ := h.accepts.selects hwf C ctx.quote_mint
  have hsum : C.holdings l' ctx.quote_mint = C.holdings l ctx.quote_mint +
      ((if C.member ctx.fee_recipient = true then c.fee.toNat else 0) +
        c.output_amount.toNat) := by
    rw [Coalition.holdings, Coalition.holdings]
    simpa [ASell.payments, h1, h2, h3, h4, h5, hpair, hC]
      using h.settles.paid.holdings_eq (C.accounts ctx.quote_mint)
  split_ifs at hsum <;> omega

end Trades

/-! ## The account of a coalition and its pool -/

/-- What the coalition and the pool have done to each other between `l`, where the pool is
`p`, and `l'`, where it is `p'`. -/
structure SelfTraded (C : Coalition) (l l' : Ledger) (p p' : PoolState) : Prop where
  terms : p.SameTerms p'
  base : C.holdings l' p.base_mint + p'.real_base_reserves.toNat =
    C.holdings l p.base_mint + p.real_base_reserves.toNat
  quote_le : C.holdings l' p.quote_mint + p'.real_quote_reserves.toNat ≤
    C.holdings l p.quote_mint + p.real_quote_reserves.toNat
  product_le : p.product ≤ p'.product

namespace SelfTraded

variable {C : Coalition} {l'' : Ledger} {p p' p'' : PoolState}

theorem refl : SelfTraded C l l p p := ⟨.refl p, rfl, le_rfl, le_rfl⟩

theorem trans (h : SelfTraded C l l' p p') (h' : SelfTraded C l' l'' p' p'') :
    SelfTraded C l l'' p p'' where
  terms := h.terms.trans h'.terms
  base := by
    have := h'.base
    rw [h.terms.base_mint] at this
    exact this.trans h.base
  quote_le := by
    have := h'.quote_le
    rw [h.terms.quote_mint] at this
    exact this.trans h.quote_le
  product_le := h.product_le.trans h'.product_le

/-- A step that moves no tokens and no reserves. -/
theorem of_quiet (h : ∀ m, C.holdings l' m = C.holdings l m) : SelfTraded C l l' p p :=
  ⟨.refl p, by rw [h], by rw [h], le_rfl⟩

/-- **No profit**: with the base tokens back, no more quote tokens are held than before. -/
theorem quote_holdings_le (h : SelfTraded C l l' p p') (hb : 0 < p.base)
    (hback : C.holdings l p.base_mint ≤ C.holdings l' p.base_mint) :
    C.holdings l' p.quote_mint ≤ C.holdings l p.quote_mint := by
  have hbase := h.base
  have hquote := h.quote_le
  have hle : p'.base ≤ p.base := by
    rw [PoolState.base, PoolState.base, h.terms.virt_base_reserves]
    omega
  -- the base side of the pool has not risen, so its quote side has not fallen
  have hq : p.quote ≤ p'.quote := ConstantProduct.le_of_product_le hb h.product_le hle
  rw [PoolState.quote, PoolState.quote, h.terms.virt_quote_reserves] at hq
  omega

end SelfTraded

/-- An action of a self-trade that is about no pool moves no tokens. -/
theorem holdings_of_quiet {C : Coalition} {k : Pubkey} (hwf : AtaWf l.tokens)
    (h : step spl l a = .ok l') (ha : a.SelfTrade C k) (hq : a.pool = none) (m : Pubkey) :
    C.holdings l' m = C.holdings l m := by
  cases a with
  | ix i =>
    cases i with
    | init_main_state ctx =>
      obtain ⟨-, rfl⟩ := init_main_state_eq_ok.mp h
      exact holdings_ensure _
    | transfer_ownership ctx new_owner =>
      obtain ⟨ms, -, -, -, rfl⟩ := transfer_ownership_eq_ok.mp h
      rfl
    | update_main_state ctx input =>
      obtain ⟨ms, ms', -, rfl⟩ := (update_main_state_eq_ok hwf).mp h
      exact holdings_ensure _
    | _ => cases hq
  | token_transfer => exact ha.elim
  | create_ata owner mint =>
    simp only [step, bind_eq_ok, load_eq_ok, init_ata_eq_ensure, pure_eq_ok] at h
    obtain ⟨-, -, t, ⟨-, rfl⟩, rfl⟩ := h
    exact holdings_ensure _
  | create_account bytes owner mint =>
    simp only [step, bind_eq_ok, load_eq_ok, mapError_eq_ok, spl.create_eq_ok, pure_eq_ok] at h
    obtain ⟨-, -, t, ⟨hnot, rfl⟩, rfl⟩ := h
    exact Bank.holdings_opened hnot _
  | tick ts =>
    obtain rfl := pure_eq_ok.mp h
    rfl

/-- One step of a self-trade. -/
theorem PoolMove.selfTraded {C : Coalition} {k : Pubkey} {p p' : PoolState}
    (hmove : PoolMove l l' k p a p') (hinv : Inv l) (hp : l.pools.lookup k = some p)
    (h : step spl l a = .ok l') (ha : a.SelfTrade C k) : SelfTraded C l l' p p' := by
  have hpair := (hinv.pools k p hp).pair
  cases hmove with
  | other hne =>
    refine .of_quiet (holdings_of_quiet hinv.ata h ha ?_)
    cases a with
    | ix i =>
      cases i with
      | buy_tokens_from_exact_quote => exact absurd (congrArg some ha.1) hne
      | sell => exact absurd (congrArg some ha.1) hne
      | create_pool => exact ha.elim
      | buy_exact_tokens_from_quote => exact ha.elim
      | withdraw => exact ha.elim
      | _ => rfl
    | _ => rfl
  -- the pool gains what the coalition pays, at a product that does not fall
  | exact_quote _ hc hb =>
    rw [← hb.accepts.base_mint, ← hb.accepts.quote_mint] at hpair
    have h1 := hb.holdings_base hinv.ata hpair ha.2
    have h2 := hb.holdings_quote_le hinv.ata hpair ha.2
    have h3 := hc.moves.base
    have h4 := hc.moves.quote
    refine ⟨hc.buys.terms, ?_, ?_, ?_⟩
    · rw [← hb.accepts.base_mint, Purchase.settled_real_base_reserves]
      omega
    · rw [← hb.accepts.quote_mint, Purchase.settled_real_quote_reserves]
      omega
    · rw [Purchase.settled_product]
      exact hc.product_le
  | exact_tokens => exact ha.elim
  | sell _ hc hs =>
    rw [← hs.accepts.base_mint, ← hs.accepts.quote_mint] at hpair
    have h1 := hs.holdings_base hinv.ata hpair ha.2
    have h2 := hs.holdings_quote_le hinv.ata hpair ha.2
    have h3 := hc.moves.base
    have h4 := hc.moves.quote
    rw [hc.output] at h2
    refine ⟨hc.moves.only.terms, ?_, ?_, hc.product_le⟩
    · rw [← hs.accepts.base_mint]
      omega
    · rw [← hs.accepts.quote_mint]
      omega
  | withdraw => exact ha.elim

/-- A whole self-trade. -/
theorem run_selfTraded {C : Coalition} {k : Pubkey} {p : PoolState} {as : List Action}
    (hinv : Inv l) (hrun : Runs.run (step spl) l as = .ok l') (hp : l.pools.lookup k = some p)
    (has : ∀ a ∈ as, a.SelfTrade C k) :
    ∃ p', l'.pools.lookup k = some p' ∧ SelfTraded C l l' p p' := by
  have key : Inv l' ∧ ∃ p', l'.pools.lookup k = some p' ∧ SelfTraded C l l' p p' := by
    refine Runs.run_preserves_of (P := fun m => Inv m ∧ ∃ q, m.pools.lookup k = some q ∧
      SelfTraded C l m p q) (C := fun _ a => a.SelfTrade C k) ?_ ⟨hinv, p, hp, .refl⟩ hrun ?_
    · rintro m a m' ⟨hm, q, hq, hself⟩ ha hstep
      obtain ⟨q', hq', hmove⟩ := step_move hm hstep hq
      exact ⟨hm.step hstep, q', hq', hself.trans (hmove.selfTraded hm hq hstep ha)⟩
    · intro done a rest m hd _
      exact has a (by simp [hd])
  exact key.2

/-- **No profit from trading against oneself.** From a reachable ledger, after any exact-quote
buys and sells of a coalition alone on the pool and any changes of the main state, a
coalition that holds at least as many base tokens as before holds at most as many quote
tokens, fees it received included. No trade succeeds on a complete pool, so the ledgers of
interest are those where the pool is incomplete. -/
theorem no_profit (spl : TokenProgram Pubkey) {l l' : Ledger} {as : List Action} {C : Coalition}
    {k : Pubkey} {p : PoolState} (hl : Reachable spl l) (hp : l.pools.lookup k = some p)
    (hrun : Runs.run (step spl) l as = .ok l') (has : ∀ a ∈ as, a.SelfTrade C k)
    (hback : C.holdings l p.base_mint ≤ C.holdings l' p.base_mint) :
    C.holdings l' p.quote_mint ≤ C.holdings l p.quote_mint := by
  have hinv := hl.inv
  obtain ⟨p', -, hself⟩ := run_selfTraded hinv hrun hp has
  refine hself.quote_holdings_le ?_ hback
  exact Nat.add_pos_left (hinv.pools k p hp).virt_base _

/-- `bob` and the owner of the fee recipient. -/
def bob_coalition : Coalition where
  member k := k = bob.1 || k = DEFAULT_OWNER
  no_pool _ _ := by simp [bob, DEFAULT_OWNER]

/-- `bob` buys and sells what he bought. -/
theorem no_profit_sample : ∃ l l', Runs.run (step .reference) launched opening = .ok l ∧
    Runs.run (step .reference) l
      [.ix (.buy_tokens_from_exact_quote ⟨bob, DEFAULT_OWNER, coin, QUOTE_MINT⟩ 1000 0),
        .ix (.sell ⟨bob, DEFAULT_OWNER, coin, QUOTE_MINT⟩ 105599 0)] = .ok l' ∧
    bob_coalition.holdings l' QUOTE_MINT ≤ bob_coalition.holdings l QUOTE_MINT := by
  let as : List Action :=
    [.ix (.buy_tokens_from_exact_quote ⟨bob, DEFAULT_OWNER, coin, QUOTE_MINT⟩ 1000 0),
      .ix (.sell ⟨bob, DEFAULT_OWNER, coin, QUOTE_MINT⟩ 105599 0)]
  obtain ⟨l, hl, hv⟩ := exists_eq_ok (x := Runs.run (step .reference) launched opening)
    (f := fun l => (l.pools.lookup coin_pool, bob_coalition.holdings l coin))
    (b := (some coin_created, 0)) (by decide +kernel)
  simp only [Prod.mk.injEq] at hv
  obtain ⟨l', hl', -⟩ := exists_eq_ok
    (x := Runs.run (step .reference) launched (opening ++ as)) (f := fun _ => ()) (b := ())
    (by decide +kernel)
  obtain ⟨l₁, hl₁, hrun⟩ := Runs.run_append.mp hl'
  obtain rfl := Except.ok.inj (hl.symm.trans hl₁)
  refine ⟨l, l', hl, hrun, ?_⟩
  refine no_profit .reference (C := bob_coalition) ⟨launched, _, launched_genesis, hl⟩ hv.1 hrun
    ?_ ?_
  · intro a ha
    simp only [as, List.mem_cons, List.not_mem_nil, or_false] at ha
    rcases ha with rfl | rfl
    · exact ⟨rfl, by decide⟩
    · exact ⟨rfl, by decide⟩
  · -- none of them had any
    rw [show coin_created.base_mint = coin from rfl, hv.2]
    exact Nat.zero_le _

end AliPumpFun
