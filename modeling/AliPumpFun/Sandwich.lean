/-
Trading around others.

A coalition that trades before and after somebody else's trade moves the price against him, and
takes home what he loses by it. What protects him is the limit in his instruction. The program
bounds the gain by these limits and nothing else: however the coalition orders its trades around
those of the others, what the pool and the coalition have together grows by at most what the
others offered, and shrinks by at least what they insisted on, while the product of the pool does
not fall. A coalition that is alone is the case without others.

The fees count as well: a coalition that owns the fee recipient gets those of the others, which
are part of what they offered.
-/
import AliPumpFun.SelfTrade

set_option autoImplicit false

open Words Fallible

namespace AliPumpFun

variable {spl : TokenProgram Pubkey} {l l' : Ledger} {a : Action}

/-! ## The others -/

/-- What can happen while the coalition trades on the pool at `k` among others: exact-quote buys
and sells on it, and anything that moves no tokens. -/
def Action.Trading (k : Pubkey) : Action → Prop
  | .ix (.buy_tokens_from_exact_quote ctx _ _) => ctx.pool_state = k
  | .ix (.sell ctx _ _) => ctx.pool_state = k
  | .ix (.init_main_state _) => True
  | .ix (.update_main_state _ _) => True
  | .ix (.transfer_ownership _ _) => True
  | .create_ata _ _ => True
  | .create_account _ _ _ => True
  | .tick _ => True
  | _ => False

/-- The most a trade of an outsider puts in, in base and in quote tokens. -/
def Action.offers (C : Coalition) : Action → ℕ × ℕ
  | .ix (.buy_tokens_from_exact_quote ctx quote_amount _) =>
    if C.member ctx.buyer.1 = true then 0 else (0, quote_amount.toNat)
  | .ix (.sell ctx amount _) =>
    if C.member ctx.seller.1 = true then 0 else (amount.toNat, 0)
  | _ => 0

/-- The least a trade of an outsider takes out, in base and in quote tokens. -/
def Action.insists (C : Coalition) : Action → ℕ × ℕ
  | .ix (.buy_tokens_from_exact_quote ctx _ min_base_amount) =>
    if C.member ctx.buyer.1 = true then 0 else (min_base_amount.toNat, 0)
  | .ix (.sell ctx _ min_quote_output) =>
    if C.member ctx.seller.1 = true then 0 else (0, min_quote_output.toNat)
  | _ => 0

/-- What the others offer in a run. -/
def offered (C : Coalition) (as : List Action) : ℕ × ℕ := (as.map (Action.offers C)).sum

/-- What the others insist on in a run. -/
def insisted (C : Coalition) (as : List Action) : ℕ × ℕ := (as.map (Action.insists C)).sum

section Sums

variable {C : Coalition} {as bs : List Action}

theorem offered_append : offered C (as ++ bs) = offered C as + offered C bs := by
  rw [offered, List.map_append, List.sum_append]
  rfl

theorem insisted_append : insisted C (as ++ bs) = insisted C as + insisted C bs := by
  rw [insisted, List.map_append, List.sum_append]
  rfl

theorem offered_singleton : offered C [a] = a.offers C := by
  rw [offered, List.map_singleton, List.sum_singleton]

theorem insisted_singleton : insisted C [a] = a.insists C := by
  rw [insisted, List.map_singleton, List.sum_singleton]

/-- An action about no pool is one of a self-trade too, and has no limits. -/
theorem Action.Trading.quiet {k : Pubkey} (h : a.Trading k) (hq : a.pool = none) :
    a.SelfTrade C k ∧ a.offers C = 0 ∧ a.insists C = 0 := by
  cases a with
  | ix i =>
    cases i with
    | init_main_state => exact ⟨trivial, rfl, rfl⟩
    | update_main_state => exact ⟨trivial, rfl, rfl⟩
    | transfer_ownership => exact ⟨trivial, rfl, rfl⟩
    | _ => cases hq
  | token_transfer => exact h.elim
  | create_ata => exact ⟨trivial, rfl, rfl⟩
  | create_account => exact ⟨trivial, rfl, rfl⟩
  | tick => exact ⟨trivial, rfl, rfl⟩

end Sums

/-! ## A trade of an outsider -/

section Trades

variable {C : Coalition} {ms : MainState} {p : PoolState}

/-- An outsider's buy brings the coalition its fee at most. -/
theorem Bought.holdings_outside {ctx : ABuy} {c : Purchase} (h : Bought ctx l l' ms p c)
    (hwf : AtaWf l.tokens) (hpair : ctx.base_mint ≠ ctx.quote_mint)
    (hC : C.member ctx.buyer.1 = false) :
    C.holdings l' ctx.base_mint = C.holdings l ctx.base_mint ∧
      C.holdings l' ctx.quote_mint ≤ C.holdings l ctx.quote_mint + c.fee.toNat := by
  constructor
  · obtain ⟨h1, h2, h3, h4, h5⟩ := h.accepts.selects hwf C ctx.base_mint
    rw [Coalition.holdings, Coalition.holdings]
    simpa [ABuy.payments, h1, h2, h3, h4, h5, hpair.symm, hC]
      using h.settles.paid.holdings_eq (C.accounts ctx.base_mint)
  · obtain ⟨h1, h2, h3, h4, h5⟩ := h.accepts.selects hwf C ctx.quote_mint
    have hsum : C.holdings l' ctx.quote_mint = C.holdings l ctx.quote_mint +
        if C.member ctx.fee_recipient = true then c.fee.toNat else 0 := by
      rw [Coalition.holdings, Coalition.holdings]
      simpa [ABuy.payments, h1, h2, h3, h4, h5, hpair, hC]
        using h.settles.paid.holdings_eq (C.accounts ctx.quote_mint)
    split_ifs at hsum <;> omega

/-- So does his sell. -/
theorem Sold.holdings_outside {ctx : ASell} {s : U64} {c : Sale} (h : Sold ctx s l l' ms p c)
    (hwf : AtaWf l.tokens) (hpair : ctx.base_mint ≠ ctx.quote_mint)
    (hC : C.member ctx.seller.1 = false) :
    C.holdings l' ctx.base_mint = C.holdings l ctx.base_mint ∧
      C.holdings l' ctx.quote_mint ≤ C.holdings l ctx.quote_mint + c.fee.toNat := by
  constructor
  · obtain ⟨h1, h2, h3, h4, h5⟩ := h.accepts.selects hwf C ctx.base_mint
    rw [Coalition.holdings, Coalition.holdings]
    simpa [ASell.payments, h1, h2, h3, h4, h5, hpair.symm, hC]
      using h.settles.paid.holdings_eq (C.accounts ctx.base_mint)
  · obtain ⟨h1, h2, h3, h4, h5⟩ := h.accepts.selects hwf C ctx.quote_mint
    have hsum : C.holdings l' ctx.quote_mint = C.holdings l ctx.quote_mint +
        if C.member ctx.fee_recipient = true then c.fee.toNat else 0 := by
      rw [Coalition.holdings, Coalition.holdings]
      simpa [ASell.payments, h1, h2, h3, h4, h5, hpair, hC]
        using h.settles.paid.holdings_eq (C.accounts ctx.quote_mint)
    split_ifs at hsum <;> omega

end Trades

/-! ## The account of a coalition, its pool and the others -/

/-- What the run `as` has made of the coalition and the pool, between `l`, where the pool is `p`,
and `l'`, where it is `p'`. -/
structure Extracted (C : Coalition) (as : List Action) (l l' : Ledger) (p p' : PoolState) :
    Prop where
  terms : p.SameTerms p'
  base_le : C.holdings l' p.base_mint + p'.base + (insisted C as).1 ≤
    C.holdings l p.base_mint + p.base + (offered C as).1
  quote_le : C.holdings l' p.quote_mint + p'.quote + (insisted C as).2 ≤
    C.holdings l p.quote_mint + p.quote + (offered C as).2
  product_le : p.product ≤ p'.product

namespace Extracted

variable {C : Coalition} {as bs : List Action} {l'' : Ledger} {p p' p'' : PoolState}

theorem refl : Extracted C [] l l p p := ⟨.refl p, le_rfl, le_rfl, le_rfl⟩

theorem trans (h : Extracted C as l l' p p') (h' : Extracted C bs l' l'' p' p'') :
    Extracted C (as ++ bs) l l'' p p'' where
  terms := h.terms.trans h'.terms
  base_le := by
    have h1 := h.base_le
    have h2 := h'.base_le
    rw [h.terms.base_mint] at h2
    rw [offered_append, insisted_append, Prod.fst_add, Prod.fst_add]
    omega
  quote_le := by
    have h1 := h.quote_le
    have h2 := h'.quote_le
    rw [h.terms.quote_mint] at h2
    rw [offered_append, insisted_append, Prod.snd_add, Prod.snd_add]
    omega
  product_le := h.product_le.trans h'.product_le

/-- The account of a step that is a self-trade, with nobody else's limits. -/
theorem of_selfTraded (h : SelfTraded C l l' p p') (ho : a.offers C = 0) (hi : a.insists C = 0) :
    Extracted C [a] l l' p p' where
  terms := h.terms
  base_le := by
    have := h.base
    rw [offered_singleton, insisted_singleton, ho, hi, PoolState.base, PoolState.base,
      h.terms.virt_base_reserves]
    simp only [Prod.fst_zero]
    omega
  quote_le := by
    have := h.quote_le
    rw [offered_singleton, insisted_singleton, ho, hi, PoolState.quote, PoolState.quote,
      h.terms.virt_quote_reserves]
    simp only [Prod.snd_zero]
    omega
  product_le := h.product_le

/-- What the coalition and the others leave of the pool still has its product. -/
theorem product_le_mul (h : Extracted C as l l' p p') :
    p.product ≤
      (C.holdings l p.base_mint + p.base + (offered C as).1 -
          (C.holdings l' p.base_mint + (insisted C as).1)) *
        (C.holdings l p.quote_mint + p.quote + (offered C as).2 -
          (C.holdings l' p.quote_mint + (insisted C as).2)) := by
  have hb := h.base_le
  have hq := h.quote_le
  calc p.product ≤ p'.base * p'.quote := h.product_le
    _ ≤ _ := Nat.mul_le_mul (by omega) (by omega)

end Extracted

/-- An outsider's buy: what he pays goes to the pool and perhaps to the coalition. -/
theorem Bought.extracted {C : Coalition} {ctx : ABuy} {ms : MainState} {p : PoolState} {q m : U64}
    {c : Purchase} (h : Bought ctx l l' ms p c) (hx : ExactQuote ms p q m c) (hinv : Inv l)
    (hC : C.member ctx.buyer.1 ≠ true) :
    Extracted C [.ix (.buy_tokens_from_exact_quote ctx q m)] l l' p c.settled := by
  have hpair := (hinv.pools _ p h.accepts.pool_state).pair
  rw [← h.accepts.base_mint, ← h.accepts.quote_mint] at hpair
  obtain ⟨h1, h2⟩ := h.holdings_outside hinv.ata hpair (Bool.eq_false_iff.mpr hC)
  have h3 := hx.moves.base_eq
  have h4 := hx.moves.quote_eq
  have hcost : c.fee.toNat + c.input_quote_amount.toNat ≤ q.toNat := by
    rw [hx.gross]
    exact min_le_left _ _
  have henough := hx.enough
  refine ⟨hx.buys.terms, ?_, ?_, ?_⟩
  · rw [offered_singleton, insisted_singleton, Action.offers, Action.insists, if_neg hC,
      if_neg hC, ← h.accepts.base_mint, Purchase.settled_base]
    omega
  · rw [offered_singleton, insisted_singleton, Action.offers, Action.insists, if_neg hC,
      if_neg hC, ← h.accepts.quote_mint, Purchase.settled_quote]
    omega
  · rw [Purchase.settled_product]
    exact hx.product_le

/-- An outsider's sell: the fee is kept back from what the pool pays. -/
theorem Sold.extracted {C : Coalition} {ctx : ASell} {ms : MainState} {p : PoolState} {s m : U64}
    {c : Sale} (h : Sold ctx s l l' ms p c) (hx : Sell ms p s m c) (hinv : Inv l)
    (hC : C.member ctx.seller.1 ≠ true) :
    Extracted C [.ix (.sell ctx s m)] l l' p c.pool_state := by
  have hpair := (hinv.pools _ p h.accepts.pool_state).pair
  rw [← h.accepts.base_mint, ← h.accepts.quote_mint] at hpair
  obtain ⟨h1, h2⟩ := h.holdings_outside hinv.ata hpair (Bool.eq_false_iff.mpr hC)
  have h3 := hx.moves.base_eq
  have h4 := hx.moves.quote_eq
  have hout := hx.output
  have henough := hx.enough
  refine ⟨hx.moves.only.terms, ?_, ?_, hx.product_le⟩
  · rw [offered_singleton, insisted_singleton, Action.offers, Action.insists, if_neg hC,
      if_neg hC, ← h.accepts.base_mint]
    omega
  · rw [offered_singleton, insisted_singleton, Action.offers, Action.insists, if_neg hC,
      if_neg hC, ← h.accepts.quote_mint]
    omega

/-- One step. -/
theorem PoolMove.extracted {C : Coalition} {k : Pubkey} {p p' : PoolState}
    (hmove : PoolMove l l' k p a p') (hinv : Inv l) (hp : l.pools.lookup k = some p)
    (h : step spl l a = .ok l') (ha : a.Trading k) : Extracted C [a] l l' p p' := by
  have hself := hmove
  cases hmove with
  | other hne =>
    have hquiet : a.pool = none := by
      cases a with
      | ix i =>
        cases i with
        | buy_tokens_from_exact_quote => exact absurd (congrArg some ha) hne
        | sell => exact absurd (congrArg some ha) hne
        | create_pool => exact ha.elim
        | buy_exact_tokens_from_quote => exact ha.elim
        | withdraw => exact ha.elim
        | _ => rfl
      | _ => rfl
    obtain ⟨htrade, ho, hi⟩ := ha.quiet (C := C) hquiet
    exact .of_selfTraded (hself.selfTraded hinv hp h htrade) ho hi
  | @exact_quote ctx q m ms c hk hx hb =>
    by_cases hC : C.member ctx.buyer.1 = true
    · exact .of_selfTraded (hself.selfTraded hinv hp h ⟨ha, hC⟩) (if_pos hC) (if_pos hC)
    · exact hb.extracted hx hinv hC
  | exact_tokens => exact ha.elim
  | @sell ctx s m ms c hk hx hs =>
    by_cases hC : C.member ctx.seller.1 = true
    · exact .of_selfTraded (hself.selfTraded hinv hp h ⟨ha, hC⟩) (if_pos hC) (if_pos hC)
    · exact hs.extracted hx hinv hC
  | withdraw => exact ha.elim

/-- A whole run. -/
theorem run_extracted {C : Coalition} {k : Pubkey} {p : PoolState} {as : List Action}
    (hinv : Inv l) (hrun : Runs.run (step spl) l as = .ok l') (hp : l.pools.lookup k = some p)
    (has : ∀ a ∈ as, a.Trading k) :
    ∃ p', l'.pools.lookup k = some p' ∧ Extracted C as l l' p p' := by
  have key : Inv l' ∧ ∃ p', l'.pools.lookup k = some p' ∧ Extracted C as l l' p p' := by
    refine Runs.run_induction_of (P := fun as m => Inv m ∧ ∃ q, m.pools.lookup k = some q ∧
      Extracted C as l m p q) (C := fun _ a => a.Trading k) ⟨hinv, p, hp, .refl⟩ ?_ hrun ?_
    · rintro done m a m' ⟨hm, q, hq, hext⟩ ha hstep
      obtain ⟨q', hq', hmove⟩ := step_move hm hstep hq
      exact ⟨hm.step hstep, q', hq', hext.trans (hmove.extracted hm hq hstep ha)⟩
    · intro done a rest m hd _
      exact has a (by simp [hd])
  exact key.2

/-- **What a sandwich can earn.** In any run of exact-quote buys and sells on a pool, of a coalition
and of others in any order, the pool as it was, with what the coalition has lost added and what it
has gained taken off, with the others' offers added and what they insisted on taken off, on each of
the two sides, still has the product. So a coalition that has its base tokens back gained at most
what the others' limits left to it, whoever gets the fees. -/
theorem sandwich_bounded (spl : TokenProgram Pubkey) {l l' : Ledger} {as : List Action}
    {C : Coalition} {k : Pubkey} {p : PoolState} (hl : Reachable spl l)
    (hp : l.pools.lookup k = some p) (hrun : Runs.run (step spl) l as = .ok l')
    (has : ∀ a ∈ as, a.Trading k) :
    p.product ≤
      (C.holdings l p.base_mint + p.base + (offered C as).1 -
          (C.holdings l' p.base_mint + (insisted C as).1)) *
        (C.holdings l p.quote_mint + p.quote + (offered C as).2 -
          (C.holdings l' p.quote_mint + (insisted C as).2)) := by
  obtain ⟨p', -, hext⟩ := run_extracted hl.inv hrun hp has
  exact hext.product_le_mul

/-- `bob` on his own. -/
def bob_alone : Coalition where
  member k := k = bob.1
  no_pool _ _ := by simp [bob]

/-- `bob` buys before `alice`, whose limit lets her buy all the same, and sells after her. -/
def sandwich : List Action :=
  [.ix (.buy_tokens_from_exact_quote ⟨bob, DEFAULT_OWNER, coin, QUOTE_MINT⟩ 10000000000000 0),
    .ix (.buy_tokens_from_exact_quote ⟨alice, DEFAULT_OWNER, coin, QUOTE_MINT⟩ 10000000000000
      178000000000000),
    .ix (.sell ⟨bob, DEFAULT_OWNER, coin, QUOTE_MINT⟩ 530653266000000 0)]

/-- `bob` has gained, and no more than `alice` offered and did not insist on. -/
theorem sandwich_bounded_sample : ∃ l l', Runs.run (step .reference) l sandwich = .ok l' ∧
    bob_alone.holdings l QUOTE_MINT < bob_alone.holdings l' QUOTE_MINT ∧
    coin_created.product ≤ (coin_created.base - 178000000000000) *
      (bob_alone.holdings l QUOTE_MINT + coin_created.quote + 10000000000000 -
        bob_alone.holdings l' QUOTE_MINT) := by
  let funding : List Action := [.create_ata alice.1 QUOTE_MINT,
    .token_transfer bob (.ata bob.1 QUOTE_MINT) (.ata alice.1 QUOTE_MINT) 20000000000000]
  obtain ⟨l, hl, hv⟩ := exists_eq_ok
    (x := Runs.run (step .reference) launched (opening ++ funding))
    (f := fun l => (l.pools.lookup coin_pool, bob_alone.holdings l coin,
      bob_alone.holdings l QUOTE_MINT))
    (b := (some coin_created, 0, 999980000000000000)) (by decide +kernel)
  obtain ⟨hp, hbase, hquote⟩ : _ ∧ _ ∧ _ := by simpa only [Prod.mk.injEq] using hv
  obtain ⟨l', hl', hv'⟩ := exists_eq_ok
    (x := Runs.run (step .reference) launched (opening ++ funding ++ sandwich))
    (f := fun l => (bob_alone.holdings l coin, bob_alone.holdings l QUOTE_MINT))
    (b := (0, 999987618072223797)) (by decide +kernel)
  obtain ⟨hbase', hquote'⟩ : _ ∧ _ := by simpa only [Prod.mk.injEq] using hv'
  obtain ⟨l₁, hl₁, hrun⟩ := Runs.run_append.mp hl'
  obtain rfl := Except.ok.inj (hl.symm.trans hl₁)
  have hreach : Reachable .reference l := ⟨launched, _, launched_genesis, hl⟩
  have hkey := sandwich_bounded .reference (C := bob_alone) hreach hp hrun (by
    intro a ha
    simp only [sandwich, List.mem_cons, List.not_mem_nil, or_false] at ha
    rcases ha with rfl | rfl | rfl
    · rfl
    · rfl
    · rfl)
  rw [show coin_created.base_mint = coin from rfl,
    show coin_created.quote_mint = QUOTE_MINT from rfl, hbase, hbase',
    show offered bob_alone sandwich = (0, 10000000000000) by decide,
    show insisted bob_alone sandwich = (178000000000000, 0) by decide] at hkey
  refine ⟨l, l', hrun, by rw [hquote, hquote']; decide, ?_⟩
  simpa using hkey

end AliPumpFun
