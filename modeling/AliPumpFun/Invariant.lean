/-
The invariant of the system, and what becomes of a pool in a step.

`Inv` is what every reachable ledger satisfies: the main state is valid, tokens are
conserved, and every pool keeps its terms, its place between nothing and its threshold,
and the tokens that back its reserves. The prices are only meaningful under it, so the
inversion lemma `step_pool`, which says what can become of a pool, is stated under it as
well.
-/
import AliPumpFun.Frame

set_option autoImplicit false

open Words Fallible

namespace AliPumpFun

variable {spl : TokenProgram Pubkey} {l l' : Ledger} {a : Action}

/-! ## The invariant -/

/-- What a pool was created with and keeps. -/
structure PoolTerms (l : Ledger) (p : PoolState) : Prop where
  quote_mint : p.quote_mint = QUOTE_MINT
  pair : p.base_mint ≠ p.quote_mint
  base_minted : ∃ mint, l.mints.lookup p.base_mint = some mint
  quote_minted : ∃ mint, l.mints.lookup p.quote_mint = some mint
  virt_base : 0 < p.virt_base_reserves.toNat
  virt_quote : 0 < p.virt_quote_reserves.toNat
  threshold : 0 < p.real_quote_threshold.toNat
  base_fits : p.virt_base_reserves.toNat + l.supply p.base_mint < 2 ^ 64
  reserver_base : p.reserver_base_ata ∈ l.tokens
  reserver_quote : p.reserver_quote_ata ∈ l.tokens

/-- What holds of a pool at all times. -/
structure PoolInv (l : Ledger) (p : PoolState) : Prop extends PoolTerms l p where
  quote_fits : p.quote < 2 ^ 64
  incomplete : p.complete = false → p.real_quote_reserves.toNat < p.real_quote_threshold.toNat
  complete : p.complete = true →
    p.real_quote_reserves.toNat = p.real_quote_threshold.toNat ∨
      p.real_base_reserves.toNat = 0 ∧ p.real_quote_reserves.toNat = 0
  backed_base : p.real_base_reserves.toNat ≤ l.tokens.balance p.reserver_base_ata
  backed_quote : p.real_quote_reserves.toNat ≤ l.tokens.balance p.reserver_quote_ata

/-- What holds of a ledger at all times. -/
structure Inv (l : Ledger) : Prop where
  main_state : ∀ ms, l.main_state = some ms → ms.Valid
  ata : AtaWf l.tokens
  conserved : ∀ m, l.tokens.total m = l.supply m
  address : ∀ k p, l.pools.lookup k = some p → k = p.address
  pools : ∀ k p, l.pools.lookup k = some p → PoolInv l p

/-- What circulates of a mint fits 64 bits. -/
theorem Ledger.supply_lt (l : Ledger) (m : Pubkey) : l.supply m < 2 ^ 64 := by
  unfold Ledger.supply
  split
  · exact BitVec.isLt _
  · decide

namespace PoolInv

variable {p : PoolState}

theorem quote_le (h : PoolInv l p) :
    p.real_quote_reserves.toNat ≤ p.real_quote_threshold.toNat := by
  cases hc : p.complete with
  | false => exact (h.incomplete hc).le
  | true =>
    rcases h.complete hc with he | ⟨-, h0⟩
    · exact he.le
    · omega

/-- The reserve account holds at most what circulates. -/
theorem balance_base_le (h : PoolInv l p) (hl : Inv l) :
    l.tokens.balance p.reserver_base_ata ≤ l.supply p.base_mint := by
  obtain ⟨a, ha⟩ := Finmap.mem_iff.mp h.reserver_base
  rw [← hl.conserved, ← (hl.ata _ _ _ ha).2]
  exact Bank.balance_le_total ha

/-- Both totals of a pool fit 64 bits. -/
theorem fits (h : PoolInv l p) (hl : Inv l) : p.Fits where
  base := by
    have := h.base_fits
    have := h.backed_base
    have := h.balance_base_le hl
    unfold PoolState.base
    omega
  quote := h.quote_fits

end PoolInv

/-- The tokens of a mint in circulation fit 64 bits, whatever accounts are opened. -/
theorem Inv.total_lt (h : Inv l) (os : List (Pubkey × Pubkey)) (m : Pubkey) :
    (ensured l.tokens os).total m < 2 ^ 64 := by
  rw [Bank.total, holdings_ensured]
  exact lt_of_eq_of_lt (h.conserved m) (l.supply_lt m)

/-- The mints of a context whose pool exists are those of the pool. -/
theorem Inv.mints_of_pool (h : Inv l) {b q : Pubkey} {p : PoolState}
    (hp : l.pools.lookup (.poolState b q) = some p) : b = p.base_mint ∧ q = p.quote_mint :=
  Pubkey.poolState.inj (h.address _ p hp)

section Decisions

variable {ms : MainState} {p : PoolState}

/-- What the prices rely on and no handler checks. -/
structure Priceable (ms : MainState) (p : PoolState) : Prop where
  valid : ms.Valid
  fits : p.Fits
  virt_base : 0 < p.virt_base_reserves.toNat
  virt_quote : 0 < p.virt_quote_reserves.toNat
  quote_le : p.real_quote_reserves.toNat ≤ p.real_quote_threshold.toNat

theorem Priceable.trading_fee_lt (h : Priceable ms p) : ms.trading_fee.toNat < FEE_UNIT :=
  h.valid.trading_fee_lt

theorem Priceable.base_pos (h : Priceable ms p) : 0 < p.base := Nat.add_pos_left h.virt_base _

theorem Priceable.quote_pos (h : Priceable ms p) : 0 < p.quote := Nat.add_pos_left h.virt_quote _

/-- In a ledger that satisfies the invariant every pool can be priced. -/
theorem Inv.priceable {k : Pubkey} (h : Inv l) (hms : l.main_state = some ms)
    (hp : l.pools.lookup k = some p) : Priceable ms p where
  valid := h.main_state ms hms
  fits := (h.pools k p hp).fits h
  virt_base := (h.pools k p hp).virt_base
  virt_quote := (h.pools k p hp).virt_quote
  quote_le := (h.pools k p hp).quote_le

/-- So the decisions are the ones of `Trade`. -/
theorem Inv.exact_quote {ctx : ABuy} {q m : U64} {c : Purchase} (h : Inv l)
    (ha : ctx.Accepts l ms p) (hc : price_exact_quote ms p q m = .ok c) :
    ExactQuote ms p q m c := by
  have hpr := h.priceable ha.main_state ha.pool_state
  exact (price_exact_quote_eq_ok hpr.trading_fee_lt hpr.quote_le).mp hc

theorem Inv.exact_tokens {ctx : ABuy} {b m : U64} {c : Purchase} (h : Inv l)
    (ha : ctx.Accepts l ms p) (hc : price_exact_tokens ms p b m = .ok c) :
    ExactTokens ms p b m c := by
  have hpr := h.priceable ha.main_state ha.pool_state
  exact (price_exact_tokens_eq_ok hpr.trading_fee_lt hpr.quote_le).mp hc

theorem Inv.sell {ctx : ASell} {s m : U64} {c : Sale} (h : Inv l)
    (ha : ctx.Accepts s l ms p) (hc : price_sell ms p s m = .ok c) : Sell ms p s m c :=
  (price_sell_eq_ok (h.main_state ms ha.main_state).trading_fee_lt).mp hc

end Decisions

/-- The trades over the natural numbers, in a ledger that satisfies the invariant. -/
theorem Inv.exact_quote_iff {ctx : ABuy} {q m : U64} (h : Inv l) :
    buy_tokens_from_exact_quote spl ctx q m l = .ok l' ↔
      ∃ ms p c, ExactQuote ms p q m c ∧ Bought ctx l l' ms p c := by
  rw [buy_tokens_from_exact_quote_eq_ok h.ata]
  constructor
  · rintro ⟨ms, p, c, hc, hb⟩
    exact ⟨ms, p, c, h.exact_quote hb.accepts hc, hb⟩
  · rintro ⟨ms, p, c, hx, hb⟩
    have hpr := h.priceable hb.accepts.main_state hb.accepts.pool_state
    exact ⟨ms, p, c, (price_exact_quote_eq_ok hpr.trading_fee_lt hpr.quote_le).mpr hx, hb⟩

theorem Inv.exact_tokens_iff {ctx : ABuy} {b m : U64} (h : Inv l) :
    buy_exact_tokens_from_quote spl ctx b m l = .ok l' ↔
      ∃ ms p c, ExactTokens ms p b m c ∧ Bought ctx l l' ms p c := by
  rw [buy_exact_tokens_from_quote_eq_ok h.ata]
  constructor
  · rintro ⟨ms, p, c, hc, hb⟩
    exact ⟨ms, p, c, h.exact_tokens hb.accepts hc, hb⟩
  · rintro ⟨ms, p, c, hx, hb⟩
    have hpr := h.priceable hb.accepts.main_state hb.accepts.pool_state
    exact ⟨ms, p, c, (price_exact_tokens_eq_ok hpr.trading_fee_lt hpr.quote_le).mpr hx, hb⟩

theorem Inv.sell_iff {ctx : ASell} {s m : U64} (h : Inv l) :
    AliPumpFun.sell spl ctx s m l = .ok l' ↔
      ∃ ms p c, Sell ms p s m c ∧ Sold ctx s l l' ms p c := by
  rw [sell_eq_ok h.ata]
  constructor
  · rintro ⟨ms, p, c, hc, hs⟩
    exact ⟨ms, p, c, h.sell hs.accepts hc, hs⟩
  · rintro ⟨ms, p, c, hx, hs⟩
    have hpr := h.priceable hs.accepts.main_state hs.accepts.pool_state
    exact ⟨ms, p, c, (price_sell_eq_ok hpr.trading_fee_lt).mpr hx, hs⟩

/-! ## What becomes of a pool -/

/-- What becomes of the pool `p` at `k` when `a` takes `l` to `l'`. The last argument is the
pool afterwards. -/
inductive PoolMove (l l' : Ledger) (k : Pubkey) (p : PoolState) : Action → PoolState → Prop
  | other {a : Action} : a.pool ≠ some k → PoolMove l l' k p a p
  | exact_quote {ctx : ABuy} {q m : U64} {ms : MainState} {c : Purchase} :
      ctx.pool_state = k → ExactQuote ms p q m c → Bought ctx l l' ms p c →
      PoolMove l l' k p (.ix (.buy_tokens_from_exact_quote ctx q m)) c.settled
  | exact_tokens {ctx : ABuy} {b m : U64} {ms : MainState} {c : Purchase} :
      ctx.pool_state = k → ExactTokens ms p b m c → Bought ctx l l' ms p c →
      PoolMove l l' k p (.ix (.buy_exact_tokens_from_quote ctx b m)) c.settled
  | sell {ctx : ASell} {s m : U64} {ms : MainState} {c : Sale} :
      ctx.pool_state = k → Sell ms p s m c → Sold ctx s l l' ms p c →
      PoolMove l l' k p (.ix (.sell ctx s m)) c.pool_state
  | withdraw {ctx : AWithdraw} :
      ctx.pool_state = k → Withdrawn ctx l l' p →
      PoolMove l l' k p (.ix (.withdraw ctx)) p.emptied

/-- Where the pool `p'` at `k` comes from when `a` takes `l` to `l'`. -/
inductive PoolStep (l l' : Ledger) (a : Action) (k : Pubkey) (p' : PoolState) : Prop
  | create (ctx : ACreatePool) (ms : MainState) (mint : Mint) :
      a = .ix (.create_pool ctx) → ctx.pool_state = k → p' = ctx.initial ms →
      Created ctx l l' ms mint → PoolStep l l' a k p'
  | move (p : PoolState) :
      l.pools.lookup k = some p → PoolMove l l' k p a p' → PoolStep l l' a k p'

theorem step_pool (hinv : Inv l) (h : step spl l a = .ok l') {k : Pubkey}
    {p' : PoolState} (hp' : l'.pools.lookup k = some p') : PoolStep l l' a k p' := by
  have hwf := hinv.ata
  -- an action about this pool is one of the five instructions that write pools
  by_cases hk : a.pool = some k
  · cases a with
    | ix i =>
      cases i with
      | create_pool ctx =>
        obtain rfl := Option.some_inj.mp hk
        obtain ⟨ms, mint, hc⟩ := (create_pool_eq_ok hwf).mp h
        exact .create ctx ms mint rfl rfl
          (Option.some_inj.mp (hp'.symm.trans hc.settles.lookup_self)) hc
      | buy_tokens_from_exact_quote ctx q m =>
        obtain rfl := Option.some_inj.mp hk
        obtain ⟨ms, p, c, hx, hb⟩ := hinv.exact_quote_iff.mp h
        obtain rfl := Option.some_inj.mp (hp'.symm.trans hb.settles.lookup_self)
        exact .move p hb.accepts.pool_state (.exact_quote rfl hx hb)
      | buy_exact_tokens_from_quote ctx b m =>
        obtain rfl := Option.some_inj.mp hk
        obtain ⟨ms, p, c, hx, hb⟩ := hinv.exact_tokens_iff.mp h
        obtain rfl := Option.some_inj.mp (hp'.symm.trans hb.settles.lookup_self)
        exact .move p hb.accepts.pool_state (.exact_tokens rfl hx hb)
      | sell ctx s m =>
        obtain rfl := Option.some_inj.mp hk
        obtain ⟨ms, p, c, hx, hs⟩ := hinv.sell_iff.mp h
        obtain rfl := Option.some_inj.mp (hp'.symm.trans hs.settles.lookup_self)
        exact .move p hs.accepts.pool_state (.sell rfl hx hs)
      | withdraw ctx =>
        obtain rfl := Option.some_inj.mp hk
        obtain ⟨p, hw⟩ := (withdraw_eq_ok hwf).mp h
        obtain rfl := Option.some_inj.mp (hp'.symm.trans hw.settles.lookup_self)
        exact .move p hw.accepts.pool_state (.withdraw rfl hw)
      | _ => cases hk
    | _ => cases hk
  · exact .move p' (by rw [← (step_frame hwf h).pools k hk, hp']) (.other hk)

/-- A pool stays, and something becomes of it. -/
theorem step_move (hinv : Inv l) (h : step spl l a = .ok l') {k : Pubkey} {p : PoolState}
    (hp : l.pools.lookup k = some p) :
    ∃ p', l'.pools.lookup k = some p' ∧ PoolMove l l' k p a p' := by
  have hmem : k ∈ l.pools := Finmap.mem_of_lookup_eq_some hp
  obtain ⟨p', hp'⟩ := Finmap.mem_iff.mp ((step_frame hinv.ata h).pools_mem k hmem)
  refine ⟨p', hp', ?_⟩
  rcases step_pool hinv h hp' with ⟨ctx, ms, mint, -, rfl, -, hc⟩ | ⟨p₀, hp₀, hm⟩
  · exact absurd hmem hc.accepts.pool_new
  · obtain rfl := Option.some_inj.mp (hp₀.symm.trans hp)
    exact hm

/-- A step moves a pool from the state before it to the state after it by one of the moves of
`PoolMove`. -/
theorem PoolMove.of_step (hinv : Inv l) (h : step spl l a = .ok l') {k : Pubkey}
    {p p' : PoolState} (hp : l.pools.lookup k = some p) (hp' : l'.pools.lookup k = some p') :
    PoolMove l l' k p a p' := by
  obtain ⟨p'', hp'', hm⟩ := step_move hinv h hp
  obtain rfl := Option.some_inj.mp (hp'.symm.trans hp'')
  exact hm

/-- A purchase takes no more out of a pool than backs it. -/
theorem Purchase.Buys.base_le {ctx : ABuy} {ms : MainState} {p : PoolState} {c : Purchase}
    (h : c.Buys p) (hinv : Inv l) (ha : ctx.Accepts l ms p) :
    c.base_amount.toNat ≤ l.tokens.balance ctx.reserver_base_ata := by
  have h1 := h.moves.base
  have h2 := (hinv.pools _ p ha.pool_state).backed_base
  rw [ha.reserver_base_ata]
  omega

/-- A withdrawal takes what backs the reserves, each out of its own account. -/
theorem AWithdraw.Accepts.outgoing_le {ctx : AWithdraw} {p : PoolState} (ha : ctx.Accepts l p)
    (hpi : PoolInv l p) (x : Pubkey) :
    Bank.outgoing x (ctx.payments p) ≤ l.tokens.balance x := by
  have hne := ha.reserves_ne hpi.pair
  have hbase := hpi.backed_base
  have hquote := hpi.backed_quote
  rw [← ha.reserver_base_ata] at hbase
  rw [← ha.reserver_quote_ata] at hquote
  simp only [Bank.outgoing, AWithdraw.payments, List.map_cons, List.map_nil, List.sum_cons,
    List.sum_nil]
  split_ifs with h1 h2 h2
  · exact absurd (h1.symm.trans h2) hne
  · rw [h1]
    omega
  · rw [h2]
    omega
  · exact Nat.zero_le _

/-! ## What moves in the reserve accounts

Only lower bounds: the fee recipient may be the pool itself. -/

theorem Bought.balance_base_le {ctx : ABuy} {ms : MainState} {p : PoolState} {c : Purchase}
    (h : Bought ctx l l' ms p c) (hpair : ctx.base_mint ≠ ctx.quote_mint) :
    l.tokens.balance ctx.reserver_base_ata ≤
      l'.tokens.balance ctx.reserver_base_ata + c.base_amount.toNat := by
  have := h.settles.paid.balance_eq ctx.reserver_base_ata
  simp [Bank.outgoing, Bank.incoming, ABuy.payments, ABuy.reserver_base_ata,
    ABuy.reserver_quote_ata, ABuy.buyer_quote_ata, ABuy.buyer_base_ata, ABuy.fee_quote_ata,
    ABuy.pool_state, hpair] at this ⊢
  omega

theorem Bought.le_balance_quote {ctx : ABuy} {ms : MainState} {p : PoolState} {c : Purchase}
    (h : Bought ctx l l' ms p c) (hpair : ctx.base_mint ≠ ctx.quote_mint) :
    l.tokens.balance ctx.reserver_quote_ata + c.input_quote_amount.toNat ≤
      l'.tokens.balance ctx.reserver_quote_ata := by
  have := h.settles.paid.balance_eq ctx.reserver_quote_ata
  simp [Bank.outgoing, Bank.incoming, ABuy.payments, ABuy.reserver_base_ata,
    ABuy.reserver_quote_ata, ABuy.buyer_quote_ata, ABuy.buyer_base_ata, ABuy.fee_quote_ata,
    ABuy.pool_state, hpair.symm] at this ⊢
  omega

theorem Sold.le_balance_base {ctx : ASell} {s : U64} {ms : MainState} {p : PoolState} {c : Sale}
    (h : Sold ctx s l l' ms p c) (hpair : ctx.base_mint ≠ ctx.quote_mint) :
    l.tokens.balance ctx.reserver_base_ata + s.toNat ≤
      l'.tokens.balance ctx.reserver_base_ata := by
  have := h.settles.paid.balance_eq ctx.reserver_base_ata
  simp [Bank.outgoing, Bank.incoming, ASell.payments, ASell.reserver_base_ata,
    ASell.reserver_quote_ata, ASell.seller_quote_ata, ASell.seller_base_ata, ASell.fee_quote_ata,
    ASell.pool_state, hpair] at this ⊢
  omega

theorem Sold.balance_quote_le {ctx : ASell} {s : U64} {ms : MainState} {p : PoolState} {c : Sale}
    (h : Sold ctx s l l' ms p c) (hpair : ctx.base_mint ≠ ctx.quote_mint) :
    l.tokens.balance ctx.reserver_quote_ata ≤
      l'.tokens.balance ctx.reserver_quote_ata + (c.fee.toNat + c.output_amount.toNat) := by
  have := h.settles.paid.balance_eq ctx.reserver_quote_ata
  simp [Bank.outgoing, Bank.incoming, ASell.payments, ASell.reserver_base_ata,
    ASell.reserver_quote_ata, ASell.seller_quote_ata, ASell.seller_base_ata, ASell.fee_quote_ata,
    ASell.pool_state, hpair.symm] at this ⊢
  omega

theorem Created.le_balance_base {ctx : ACreatePool} {ms : MainState} {mint : Mint}
    (h : Created ctx l l' ms mint) :
    l.tokens.balance ctx.reserver_base_ata + mint.supply.toNat ≤
      l'.tokens.balance ctx.reserver_base_ata := by
  have := h.settles.paid.balance_eq ctx.reserver_base_ata
  simp [Bank.outgoing, Bank.incoming, ACreatePool.payments, ACreatePool.reserver_base_ata,
    ACreatePool.creator_base_ata, ACreatePool.pool_state] at this ⊢
  omega

/-! ## The invariant is kept -/

/-- The terms survive any step that leaves them alone. -/
theorem PoolTerms.frame {p p' : PoolState} (h : PoolTerms l p) (hf : Frame a l l')
    (hs : p.SameTerms p') : PoolTerms l' p' := by
  refine ⟨?_, ?_, ?_, ?_, ?_, ?_, ?_, ?_, ?_, ?_⟩
  · rw [hs.quote_mint]
    exact h.quote_mint
  · rw [hs.base_mint, hs.quote_mint]
    exact h.pair
  · rw [hs.base_mint, hf.mints]
    exact h.base_minted
  · rw [hs.quote_mint, hf.mints]
    exact h.quote_minted
  · rw [hs.virt_base_reserves]
    exact h.virt_base
  · rw [hs.virt_quote_reserves]
    exact h.virt_quote
  · rw [hs.real_quote_threshold]
    exact h.threshold
  · rw [hs.virt_base_reserves, hs.base_mint, hf.supply]
    exact h.base_fits
  · rw [hs.reserver_base_ata]
    exact hf.tokens.mem h.reserver_base
  · rw [hs.reserver_quote_ata]
    exact hf.tokens.mem h.reserver_quote

/-- A pool the step is not about keeps its invariant. -/
theorem PoolInv.frame {p : PoolState} (h : PoolInv l p) (hf : Frame a l l')
    (hwf : AtaWf l.tokens) (ha : a.pool ≠ some p.address) : PoolInv l' p where
  toPoolTerms := h.toPoolTerms.frame hf (.refl p)
  quote_fits := h.quote_fits
  incomplete := h.incomplete
  complete := h.complete
  backed_base := h.backed_base.trans (hf.balance_le hwf ha)
  backed_quote := h.backed_quote.trans (hf.balance_le hwf ha)

theorem Purchase.Buys.terms {p : PoolState} {c : Purchase} (h : c.Buys p) :
    p.SameTerms c.settled := h.moves.only.terms.trans c.terms_settled

/-- A purchase raises the quote reserves to the threshold at most. -/
theorem Purchase.Buys.quote_le {p : PoolState} {c : Purchase} (h : c.Buys p)
    (hp : p.real_quote_reserves.toNat ≤ p.real_quote_threshold.toNat) :
    c.pool_state.real_quote_reserves.toNat ≤ p.real_quote_threshold.toNat := by
  have h1 := h.moves.quote
  have h2 := h.input_le
  rw [PoolState.remaining] at h2
  omega

theorem Bought.pool_inv {ctx : ABuy} {ms : MainState} {p : PoolState} {c : Purchase}
    (h : Bought ctx l l' ms p c) (hc : c.Buys p) (hp : PoolInv l p) (hf : Frame a l l') :
    PoolInv l' c.settled := by
  have hterms := hc.terms
  have hpair : ctx.base_mint ≠ ctx.quote_mint := by
    rw [h.accepts.base_mint, h.accepts.quote_mint]
    exact hp.pair
  have hcomplete := c.settled_complete (hc.moves.only.complete.trans hc.incomplete)
  rw [hc.moves.only.terms.real_quote_threshold] at hcomplete
  have hle := hc.quote_le hp.quote_le
  refine { hp.toPoolTerms.frame hf hterms with
    quote_fits := ?_, incomplete := ?_, complete := ?_, backed_base := ?_, backed_quote := ?_ }
  · -- the event adds the quote totals up, so they fit
    rw [c.settled_quote]
    exact h.fits.quote
  · intro hn
    rw [c.settled_real_quote_reserves, hterms.real_quote_threshold]
    -- at the threshold it would have been completed
    by_contra hge
    rw [hcomplete.mpr (not_lt.mp hge)] at hn
    cases hn
  · intro hy
    rw [c.settled_real_quote_reserves, hterms.real_quote_threshold]
    exact .inl (le_antisymm hle (hcomplete.mp hy))
  · -- tokens and reserves fall by the same amount, or rise by the same amount
    have h1 := h.balance_base_le hpair
    have h2 := hp.backed_base
    have h3 := hc.moves.base
    rw [← h.accepts.reserver_base_ata] at h2
    rw [hterms.reserver_base_ata, ← h.accepts.reserver_base_ata, c.settled_real_base_reserves]
    omega
  · have h1 := h.le_balance_quote hpair
    have h2 := hp.backed_quote
    have h3 := hc.moves.quote
    rw [← h.accepts.reserver_quote_ata] at h2
    rw [hterms.reserver_quote_ata, ← h.accepts.reserver_quote_ata, c.settled_real_quote_reserves]
    omega

theorem Sold.pool_inv {ctx : ASell} {s m : U64} {ms : MainState} {p : PoolState} {c : Sale}
    (h : Sold ctx s l l' ms p c) (hc : Sell ms p s m c) (hp : PoolInv l p) (hf : Frame a l l') :
    PoolInv l' c.pool_state := by
  have hterms := hc.moves.only.terms
  have hopen := hc.moves.only.complete.trans hc.incomplete
  have hpair : ctx.base_mint ≠ ctx.quote_mint := by
    rw [h.accepts.base_mint, h.accepts.quote_mint]
    exact hp.pair
  refine { hp.toPoolTerms.frame hf hterms with
    quote_fits := h.fits.quote, incomplete := ?_, complete := ?_, backed_base := ?_,
    backed_quote := ?_ }
  · intro _
    -- a sale lowers reserves that were below the threshold
    have h1 := hc.moves.quote
    have h2 := hp.incomplete hc.incomplete
    rw [hterms.real_quote_threshold]
    omega
  · intro hy
    rw [hopen] at hy
    cases hy
  · have h1 := h.le_balance_base hpair
    have h2 := hp.backed_base
    have h3 := hc.moves.base
    rw [← h.accepts.reserver_base_ata] at h2
    rw [hterms.reserver_base_ata, ← h.accepts.reserver_base_ata]
    omega
  · have h1 := h.balance_quote_le hpair
    have h2 := hp.backed_quote
    have h3 := hc.moves.quote
    -- the fee and the output leave the tokens, their sum the reserves
    rw [hc.output] at h1
    rw [← h.accepts.reserver_quote_ata] at h2
    rw [hterms.reserver_quote_ata, ← h.accepts.reserver_quote_ata]
    omega

theorem PoolState.terms_emptied (p : PoolState) : p.SameTerms p.emptied :=
  ⟨rfl, rfl, rfl, rfl, rfl, rfl⟩

theorem Withdrawn.pool_inv {ctx : AWithdraw} {p : PoolState} (h : Withdrawn ctx l l' p)
    (hp : PoolInv l p) (hf : Frame a l l') : PoolInv l' p.emptied where
  toPoolTerms := hp.toPoolTerms.frame hf p.terms_emptied
  quote_fits := lt_of_le_of_lt (Nat.add_le_add_left (Nat.zero_le _) _) hp.quote_fits
  incomplete hn := by
    have := h.complete
    rw [show p.complete = false from hn] at this
    cases this
  complete _ := .inr ⟨rfl, rfl⟩
  backed_base := Nat.zero_le _
  backed_quote := Nat.zero_le _

theorem Created.pool_inv {ctx : ACreatePool} {ms : MainState} {mint : Mint}
    (h : Created ctx l l' ms mint) (hms : ms.Valid) (hf : Frame a l l') :
    PoolInv l' (ctx.initial ms) := by
  have ha := h.accepts
  have hsupply : l'.supply ctx.base_mint = ms.total_supply.toNat := by
    rw [hf.supply, Ledger.supply_of_lookup ha.base_mint, ha.total_supply]
  have hpaid : Bank.Evolves Fresh (fun _ => True) (ensured l.tokens ctx.opens) l'.tokens :=
    .of_paid h.settles.paid fun _ _ => trivial
  have hmem : ∀ om ∈ ctx.opens, .ata om.1 om.2 ∈ l'.tokens := fun om hom =>
    hpaid.mem (ata_mem_ensured hom)
  refine {
    quote_mint := ha.quote_mint
    pair := ha.pair
    base_minted := ⟨mint, by rw [hf.mints]; exact ha.base_mint⟩
    quote_minted := by rw [hf.mints]; exact ha.quote_minted
    virt_base := hms.init_virt_base_reserves
    virt_quote := hms.init_virt_quote_reserves
    threshold := hms.real_quote_threshold
    base_fits := ?_
    reserver_base := hmem (ctx.pool_state, ctx.base_mint) (by simp [ACreatePool.opens])
    reserver_quote := hmem (ctx.pool_state, ctx.quote_mint) (by simp [ACreatePool.opens])
    quote_fits := ms.init_virt_quote_reserves.isLt
    incomplete := fun _ => hms.real_quote_threshold
    complete := fun hy => by cases hy
    backed_base := ?_
    backed_quote := Nat.zero_le _ }
  · -- the sum of the event bounds the total base reserves for good
    show ms.init_virt_base_reserves.toNat + l'.supply ctx.base_mint < 2 ^ 64
    have := h.fits
    omega
  · have := h.le_balance_base
    rw [ha.total_supply] at this
    exact le_of_add_le_right this

namespace PoolMove

variable {k : Pubkey} {p p' : PoolState}

/-- The terms of a pool never change. -/
theorem terms (h : PoolMove l l' k p a p') : p.SameTerms p' := by
  cases h with
  | other => exact .refl p
  | exact_quote _ hc _ => exact hc.buys.terms
  | exact_tokens _ hc _ => exact hc.buys.terms
  | sell _ hc _ => exact hc.moves.only.terms
  | withdraw => exact p.terms_emptied

/-- A complete pool stays complete. -/
theorem complete (h : PoolMove l l' k p a p') (hp : p.complete = true) : p'.complete = true := by
  cases h with
  | other => exact hp
  | exact_quote _ hc _ =>
    rw [hc.incomplete] at hp
    cases hp
  | exact_tokens _ hc _ =>
    rw [hc.incomplete] at hp
    cases hp
  | sell _ hc _ =>
    rw [hc.incomplete] at hp
    cases hp
  | withdraw => exact hp

theorem inv (h : PoolMove l l' k p a p') (hinv : Inv l) (hf : Frame a l l')
    (hp : l.pools.lookup k = some p) : PoolInv l' p' := by
  have hpi := hinv.pools k p hp
  cases h with
  | other ha => exact hpi.frame hf hinv.ata (hinv.address k p hp ▸ ha)
  | exact_quote _ hc hb => exact hb.pool_inv hc.buys hpi hf
  | exact_tokens _ hc hb => exact hb.pool_inv hc.buys hpi hf
  | sell _ hc hs => exact hs.pool_inv hc hpi hf
  | withdraw _ hw => exact hw.pool_inv hpi hf

end PoolMove

/-- What becomes of a pool satisfies the invariant again, and lives at its address. -/
theorem PoolStep.inv {k : Pubkey} {p' : PoolState} (h : PoolStep l l' a k p') (hinv : Inv l)
    (hf : Frame a l l') : k = p'.address ∧ PoolInv l' p' := by
  rcases h with ⟨ctx, ms, mint, -, rfl, rfl, hc⟩ | ⟨p, hp, hm⟩
  · exact ⟨rfl, hc.pool_inv (hinv.main_state _ hc.accepts.main_state) hf⟩
  · exact ⟨(hinv.address k p hp).trans hm.terms.address.symm, hm.inv hinv hf hp⟩

/-- Every main state written is valid. -/
theorem step_main_state_valid (hwf : AtaWf l.tokens) (h : step spl l a = .ok l')
    (hms : ∀ ms, l.main_state = some ms → ms.Valid) :
    ∀ ms, l'.main_state = some ms → ms.Valid := by
  by_cases ha : ∀ i, a = .ix i → i.pool ≠ none
  · rw [step_main_state hwf h ha]
    exact hms
  · push Not at ha
    obtain ⟨i, rfl, hi⟩ := ha
    -- what is left are the three instructions on the main state
    cases i with
    | init_main_state ctx =>
      obtain ⟨-, rfl⟩ := init_main_state_eq_ok.mp h
      rintro _ ⟨⟩
      exact MainState.initial_valid _
    | transfer_ownership ctx new_owner =>
      obtain ⟨ms, hm, -, -, rfl⟩ := transfer_ownership_eq_ok.mp h
      rintro _ ⟨⟩
      exact ⟨(hms ms hm).1, (hms ms hm).2, (hms ms hm).3, (hms ms hm).4, (hms ms hm).5⟩
    | update_main_state ctx input =>
      obtain ⟨ms, ms', hu, rfl⟩ := (update_main_state_eq_ok hwf).mp h
      rintro _ ⟨⟩
      exact hu.valid (hms ms hu.main_state)
    | _ => cases hi

theorem Inv.step (hinv : Inv l) (h : step spl l a = .ok l') : Inv l' := by
  have hf := step_frame hinv.ata h
  have hpool : ∀ k p', l'.pools.lookup k = some p' → k = p'.address ∧ PoolInv l' p' :=
    fun k p' hp' => (step_pool hinv h hp').inv hinv hf
  exact {
    main_state := step_main_state_valid hinv.ata h hinv.main_state
    ata := hinv.ata.evolves hf.tokens
    conserved := fun m => by
      rw [hf.tokens.total_eq, hinv.conserved, hf.supply]
    address := fun k p' hp' => (hpool k p' hp').1
    pools := fun k p' hp' => (hpool k p' hp').2 }

theorem Genesis.inv (h : Genesis l) : Inv l where
  main_state ms hms := by rw [h.no_main_state] at hms; cases hms
  ata := h.ata
  conserved := h.conserved
  address k p hp := by rw [h.no_pools] at hp; cases hp
  pools k p hp := by rw [h.no_pools] at hp; cases hp

/-- The invariant holds of every run from a ledger that satisfies it. -/
theorem Inv.run {as : List Action} (hinv : Inv l)
    (h : Runs.run (AliPumpFun.step spl) l as = .ok l') : Inv l' :=
  Runs.run_preserves (fun hm ha => hm.step ha) hinv h

theorem Reachable.inv (h : Reachable spl l) : Inv l := by
  obtain ⟨g, as, hg, hrun⟩ := h
  exact hg.inv.run hrun

/-- A pool stays along a run, with its terms, and stays complete. -/
theorem run_pool {as : List Action} (hinv : Inv l) (h : Runs.run (step spl) l as = .ok l')
    {k : Pubkey} {p : PoolState} (hp : l.pools.lookup k = some p) :
    ∃ p', l'.pools.lookup k = some p' ∧ p.SameTerms p' ∧
      (p.complete = true → p'.complete = true) := by
  have key : Inv l' ∧ ∃ p', l'.pools.lookup k = some p' ∧ p.SameTerms p' ∧
      (p.complete = true → p'.complete = true) := by
    refine Runs.run_preserves (P := fun m => Inv m ∧ ∃ p', m.pools.lookup k = some p' ∧
      p.SameTerms p' ∧ (p.complete = true → p'.complete = true)) ?_
      ⟨hinv, p, hp, .refl p, id⟩ h
    rintro m a m' ⟨hm, q, hq, hterms, hcomplete⟩ hstep
    obtain ⟨q', hq', hmove⟩ := step_move hm hstep hq
    exact ⟨hm.step hstep, q', hq', hterms.trans hmove.terms,
      fun hc => hmove.complete (hcomplete hc)⟩
  exact key.2

/-- Nothing was withdrawn from a pool that is still incomplete. -/
theorem not_withdrawn_of_incomplete {as : List Action} (hinv : Inv l)
    (h : Runs.run (step spl) l as = .ok l') {k : Pubkey} {p : PoolState}
    (hp : l'.pools.lookup k = some p) (hc : p.complete = false) :
    ∀ b ∈ as, b.withdrawn ≠ some k := by
  intro b hb hw
  obtain ⟨done, rest, rfl⟩ := List.append_of_mem hb
  obtain ⟨m, hm, hrest⟩ := Runs.run_append.mp h
  obtain ⟨m', hstep, hrun⟩ := Runs.run_cons.mp hrest
  have hminv := hinv.run hm
  cases b with
  | ix i =>
    cases i with
    | withdraw ctx =>
      obtain rfl := Option.some_inj.mp hw
      obtain ⟨q, hwd⟩ := (withdraw_eq_ok hminv.ata).mp hstep
      -- it was complete then, so it is complete now
      obtain ⟨p', hp', -, hcomplete⟩ := run_pool (hminv.step hstep) hrun hwd.settles.lookup_self
      obtain rfl := Option.some_inj.mp (hp.symm.trans hp')
      rw [hcomplete hwd.complete] at hc
      cases hc
    | _ => cases hw
  | _ => cases hw

end AliPumpFun
