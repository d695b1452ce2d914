/-
What a successful instruction did.

Each handler gets one equivalence: it succeeds if and only if its account checks hold,
its decision is made, and the ledger it leaves is *settled*, that is, the missing
accounts are opened, the payments made in order, the pool written and the events
appended. Nothing after this file unfolds a handler to find out what it did.

The equivalences need the associated accounts to be those of their owners (`AtaWf`):
without it `init_if_needed` can fail on an account that exists.
-/
import AliPumpFun.Chain

set_option autoImplicit false

open Words Fallible

namespace AliPumpFun

variable {spl : TokenProgram Pubkey} {l l' : Ledger}

/-! ## Settling -/

/-- From the bank `t` the payments `ps` are made, the pool at `k` becomes `p`, and the
events `es` are emitted. -/
structure Settles (t : Bank Pubkey) (ps : List (Payment Pubkey)) (k : Pubkey) (p : PoolState)
    (es : List Event) (l l' : Ledger) : Prop where
  paid : t.Paid ps l'.tokens
  ledger : l' = { l with
    tokens := l'.tokens
    pools := l.pools.insert k p
    events := l.events ++ es }

namespace Settles

variable {t : Bank Pubkey} {ps : List (Payment Pubkey)} {k : Pubkey} {p : PoolState}
  {es : List Event}

theorem main_state (h : Settles t ps k p es l l') : l'.main_state = l.main_state := by
  rw [h.ledger]

theorem mints (h : Settles t ps k p es l l') : l'.mints = l.mints := by
  rw [h.ledger]

theorem events (h : Settles t ps k p es l l') : l'.events = l.events ++ es := by
  rw [h.ledger]

theorem lookup_self (h : Settles t ps k p es l l') : l'.pools.lookup k = some p := by
  rw [h.ledger]
  exact Finmap.lookup_insert _

theorem lookup_of_ne (h : Settles t ps k p es l l') {k' : Pubkey} (hk : k' ≠ k) :
    l'.pools.lookup k' = l.pools.lookup k' := by
  rw [h.ledger]
  exact Finmap.lookup_insert_of_ne _ hk

end Settles

/-! ## The buys -/

/-- The pool a purchase leaves: complete once its reserves reach the threshold. -/
def Purchase.settled (c : Purchase) : PoolState :=
  if c.pool_state.real_quote_threshold ≤ c.pool_state.real_quote_reserves then
    { c.pool_state with complete := true }
  else c.pool_state

namespace Purchase

variable (c : Purchase)

theorem terms_settled : c.pool_state.SameTerms c.settled := by
  unfold settled
  split
  · exact ⟨rfl, rfl, rfl, rfl, rfl, rfl⟩
  · exact .refl _

@[simp] theorem settled_real_base_reserves :
    c.settled.real_base_reserves = c.pool_state.real_base_reserves := by
  unfold settled
  split <;> rfl

@[simp] theorem settled_real_quote_reserves :
    c.settled.real_quote_reserves = c.pool_state.real_quote_reserves := by
  unfold settled
  split <;> rfl

@[simp] theorem settled_base : c.settled.base = c.pool_state.base := by
  unfold settled
  split <;> rfl

@[simp] theorem settled_quote : c.settled.quote = c.pool_state.quote := by
  unfold settled
  split <;> rfl

/-- A purchase on an incomplete pool completes it exactly when it reaches the threshold. -/
theorem settled_complete (h : c.pool_state.complete = false) :
    c.settled.complete = true ↔
      c.pool_state.real_quote_threshold.toNat ≤ c.pool_state.real_quote_reserves.toNat := by
  unfold settled
  split
  · rename_i hc
    exact ⟨fun _ => BitVec.le_def.mp hc, fun _ => rfl⟩
  · rename_i hc
    rw [BitVec.le_def] at hc
    simp [h, hc]

end Purchase

/-- The trade event of a purchase. -/
def Purchase.trade (c : Purchase) (user : Pubkey) (timestamp : ℤ) : TradeEvent where
  user
  base_mint := c.pool_state.base_mint
  base_amount := c.base_amount
  quote_amount := c.fee + c.input_quote_amount
  base_reserves := c.pool_state.real_base_reserves + c.pool_state.virt_base_reserves
  quote_reserves := c.pool_state.virt_quote_reserves + c.pool_state.real_quote_reserves
  is_buy := true
  timestamp

/-- The events of a purchase. -/
def Purchase.events (c : Purchase) (user : Pubkey) (timestamp : ℤ) : List Event :=
  if c.pool_state.real_quote_threshold ≤ c.pool_state.real_quote_reserves then
    [.trade (c.trade user timestamp), .complete ⟨c.pool_state.base_mint, timestamp⟩]
  else [.trade (c.trade user timestamp)]

namespace ABuy

variable {ctx : ABuy} {ms : MainState} {p : PoolState} {t : Bank Pubkey}

/-- The accounts a buy opens where they are missing. -/
def opens (ctx : ABuy) : List (Pubkey × Pubkey) :=
  [(ctx.fee_recipient, ctx.quote_mint), (ctx.buyer.1, ctx.base_mint),
    (ctx.buyer.1, ctx.quote_mint)]

/-- The payments of a buy. -/
def payments (ctx : ABuy) (c : Purchase) : List (Payment Pubkey) :=
  [⟨ctx.buyer_quote_ata, ctx.fee_quote_ata, ctx.buyer.1, c.fee⟩,
    ⟨ctx.buyer_quote_ata, ctx.reserver_quote_ata, ctx.buyer.1, c.input_quote_amount⟩,
    ⟨ctx.reserver_base_ata, ctx.buyer_base_ata, ctx.pool_state, c.base_amount⟩]

/-- What the account checks of a buy establish. -/
structure Accepts (ctx : ABuy) (l : Ledger) (ms : MainState) (p : PoolState) : Prop where
  main_state : l.main_state = some ms
  fee_recipient : ctx.fee_recipient = ms.fee_recipient
  pool_state : l.pools.lookup ctx.pool_state = some p
  base_minted : ∃ mint, l.mints.lookup ctx.base_mint = some mint
  base_mint : ctx.base_mint = p.base_mint
  quote_minted : ∃ mint, l.mints.lookup ctx.quote_mint = some mint
  quote_mint : ctx.quote_mint = p.quote_mint
  reserver_base : ctx.reserver_base_ata ∈ ensured l.tokens ctx.opens
  reserver_quote : ctx.reserver_quote_ata ∈ ensured l.tokens ctx.opens

theorem try_accounts_eq_ok (hwf : AtaWf l.tokens) :
    ctx.try_accounts spl l = .ok (ms, p, t) ↔
      ctx.Accepts l ms p ∧ t = ensured l.tokens ctx.opens := by
  simp only [try_accounts, bind_eq_ok, load_eq_ok, constraint_eq_ok, pure_eq_ok, exists_const,
    init_ata_if_needed_eq_ensure hwf, exists_eq_left', exists_and_right,
    init_ata_if_needed_eq_ensure hwf.ensure, init_ata_if_needed_eq_ensure hwf.ensure.ensure,
    exists_associated_token hwf.ensure.ensure.ensure]
  constructor
  · rintro ⟨ms', hms, hfee, p', hp, hbm, hb, hqm, hq, hrb, hrq, heq⟩
    obtain ⟨rfl, rfl, rfl⟩ : ms' = ms ∧ p' = p ∧ _ = t := by simpa using heq
    exact ⟨⟨hms, hfee, hp, hbm, hb, hqm, hq, hrb, hrq⟩, rfl⟩
  · rintro ⟨h, rfl⟩
    exact ⟨ms, h.main_state, h.fee_recipient, p, h.pool_state, h.base_minted, h.base_mint,
      h.quote_minted, h.quote_mint, h.reserver_base, h.reserver_quote, rfl⟩

/-- The addresses a context derives are those of its pool. -/
theorem Accepts.address (h : ctx.Accepts l ms p) : ctx.pool_state = p.address := by
  rw [ABuy.pool_state, PoolState.address, h.base_mint, h.quote_mint]

theorem Accepts.reserver_base_ata (h : ctx.Accepts l ms p) :
    ctx.reserver_base_ata = p.reserver_base_ata := by
  rw [ABuy.reserver_base_ata, PoolState.reserver_base_ata, h.address, h.base_mint]

theorem Accepts.reserver_quote_ata (h : ctx.Accepts l ms p) :
    ctx.reserver_quote_ata = p.reserver_quote_ata := by
  rw [ABuy.reserver_quote_ata, PoolState.reserver_quote_ata, h.address, h.quote_mint]

end ABuy

/-- A successful buy: `c` was decided on the pool `p`. -/
structure Bought (ctx : ABuy) (l l' : Ledger) (ms : MainState) (p : PoolState) (c : Purchase) :
    Prop where
  accepts : ctx.Accepts l ms p
  spent : c.fee.toNat + c.input_quote_amount.toNat < 2 ^ 64
  fits : c.pool_state.Fits
  settles : Settles (ensured l.tokens ctx.opens) (ctx.payments c) ctx.pool_state c.settled
    (c.events ctx.buyer.1 l.unix_timestamp) l l'

theorem buy_finalize_eq_ok {ctx : ABuy} {t : Bank Pubkey} {c : Purchase} :
    buy_finalize spl ctx l t c = .ok l' ↔
      (c.fee.toNat + c.input_quote_amount.toNat < 2 ^ 64 ∧ c.pool_state.Fits) ∧
      Settles t (ctx.payments c) ctx.pool_state c.settled
        (c.events ctx.buyer.1 l.unix_timestamp) l l' := by
  simp only [buy_finalize, bind_eq_ok, unwrap_eq_ok, checked_add_eq_some', transfer_eq_ok]
  constructor
  · rintro ⟨t₁, h₁, t₂, h₂, t₃, h₃, _, ⟨hs, rfl⟩, _, ⟨hb, rfl⟩, _, ⟨hq, rfl⟩, h⟩
    refine ⟨⟨hs, ⟨by rw [PoolState.base, Nat.add_comm]; exact hb, hq⟩⟩, ?_⟩
    split at h <;> rename_i hc <;> obtain rfl := pure_eq_ok.mp h
    · refine ⟨⟨t₁, h₁, t₂, h₂, t₃, h₃, rfl⟩, ?_⟩
      rw [Purchase.settled, Purchase.events, if_pos hc, if_pos hc]
      simp only [Ledger.emit, List.append_assoc]
      rfl
    · refine ⟨⟨t₁, h₁, t₂, h₂, t₃, h₃, rfl⟩, ?_⟩
      rw [Purchase.settled, Purchase.events, if_neg hc, if_neg hc]
      rfl
  · rintro ⟨⟨hs, hb, hq⟩, ⟨t₁, h₁, t₂, h₂, t₃, h₃, htok⟩, hl⟩
    rw [PoolState.base, Nat.add_comm] at hb
    refine ⟨t₁, h₁, t₂, h₂, t₃, h₃, _, ⟨hs, rfl⟩, _, ⟨hb, rfl⟩, _, ⟨hq, rfl⟩, ?_⟩
    rw [hl, htok]
    split <;> rename_i hc
    · rw [Purchase.settled, Purchase.events, if_pos hc, if_pos hc]
      simp only [Ledger.emit, List.append_assoc, pure_eq_ok]
      rfl
    · rw [Purchase.settled, Purchase.events, if_neg hc, if_neg hc]
      rfl

theorem buy_tokens_from_exact_quote_eq_ok {ctx : ABuy} {q m : U64} (hwf : AtaWf l.tokens) :
    buy_tokens_from_exact_quote spl ctx q m l = .ok l' ↔
      ∃ ms p c, price_exact_quote ms p q m = .ok c ∧ Bought ctx l l' ms p c := by
  simp only [buy_tokens_from_exact_quote, bind_eq_ok, Prod.exists, ABuy.try_accounts_eq_ok hwf,
    buy_finalize_eq_ok]
  constructor
  · rintro ⟨ms, p, t, ⟨ha, rfl⟩, c, hc, ⟨hs, hf⟩, h⟩
    exact ⟨ms, p, c, hc, ha, hs, hf, h⟩
  · rintro ⟨ms, p, c, hc, h⟩
    exact ⟨ms, p, _, ⟨h.accepts, rfl⟩, c, hc, ⟨h.spent, h.fits⟩, h.settles⟩

theorem buy_exact_tokens_from_quote_eq_ok {ctx : ABuy} {b m : U64} (hwf : AtaWf l.tokens) :
    buy_exact_tokens_from_quote spl ctx b m l = .ok l' ↔
      ∃ ms p c, price_exact_tokens ms p b m = .ok c ∧ Bought ctx l l' ms p c := by
  simp only [buy_exact_tokens_from_quote, bind_eq_ok, Prod.exists, ABuy.try_accounts_eq_ok hwf,
    buy_finalize_eq_ok]
  constructor
  · rintro ⟨ms, p, t, ⟨ha, rfl⟩, c, hc, ⟨hs, hf⟩, h⟩
    exact ⟨ms, p, c, hc, ha, hs, hf, h⟩
  · rintro ⟨ms, p, c, hc, h⟩
    exact ⟨ms, p, _, ⟨h.accepts, rfl⟩, c, hc, ⟨h.spent, h.fits⟩, h.settles⟩

/-! ## `sell` -/

/-- The trade event of a sale. -/
def Sale.trade (c : Sale) (user : Pubkey) (base_amount : U64) (timestamp : ℤ) : TradeEvent where
  user
  base_mint := c.pool_state.base_mint
  base_amount
  quote_amount := c.output_amount
  base_reserves := c.pool_state.real_base_reserves + c.pool_state.virt_base_reserves
  quote_reserves := c.pool_state.virt_quote_reserves + c.pool_state.real_quote_reserves
  is_buy := false
  timestamp

namespace ASell

variable {ctx : ASell} {ms : MainState} {p : PoolState} {t : Bank Pubkey} {s : U64}

/-- The accounts a sell opens where they are missing. -/
def opens (ctx : ASell) : List (Pubkey × Pubkey) :=
  [(ctx.fee_recipient, ctx.quote_mint), (ctx.seller.1, ctx.quote_mint)]

/-- The payments of a sell. -/
def payments (ctx : ASell) (base_amount : U64) (c : Sale) : List (Payment Pubkey) :=
  [⟨ctx.seller_base_ata, ctx.reserver_base_ata, ctx.seller.1, base_amount⟩,
    ⟨ctx.reserver_quote_ata, ctx.fee_quote_ata, ctx.pool_state, c.fee⟩,
    ⟨ctx.reserver_quote_ata, ctx.seller_quote_ata, ctx.pool_state, c.output_amount⟩]

/-- What the account checks of a sell establish. -/
structure Accepts (ctx : ASell) (s : U64) (l : Ledger) (ms : MainState) (p : PoolState) :
    Prop where
  main_state : l.main_state = some ms
  fee_recipient : ctx.fee_recipient = ms.fee_recipient
  pool_state : l.pools.lookup ctx.pool_state = some p
  base_minted : ∃ mint, l.mints.lookup ctx.base_mint = some mint
  base_mint : ctx.base_mint = p.base_mint
  quote_minted : ∃ mint, l.mints.lookup ctx.quote_mint = some mint
  quote_mint : ctx.quote_mint = p.quote_mint
  seller_base : ctx.seller_base_ata ∈ ensure l.tokens ctx.fee_recipient ctx.quote_mint
  funded : s.toNat ≤ l.tokens.balance ctx.seller_base_ata
  reserver_base : ctx.reserver_base_ata ∈ ensured l.tokens ctx.opens
  reserver_quote : ctx.reserver_quote_ata ∈ ensured l.tokens ctx.opens

theorem try_accounts_eq_ok (hwf : AtaWf l.tokens) :
    ctx.try_accounts spl s l = .ok (ms, p, t) ↔
      ctx.Accepts s l ms p ∧ t = ensured l.tokens ctx.opens := by
  simp only [try_accounts, bind_eq_ok, load_eq_ok, constraint_eq_ok, require_eq_ok, pure_eq_ok,
    exists_const, init_ata_if_needed_eq_ensure hwf, exists_eq_left', exists_and_right,
    init_ata_if_needed_eq_ensure hwf.ensure, exists_associated_token hwf.ensure.ensure,
    check_balance_eq_true]
  constructor
  · rintro ⟨ms', hms, hfee, p', hp, hbm, hb, hqm, hq, a, hok, hs, hrb, hrq, heq⟩
    obtain ⟨ha, -⟩ := associated_token_eq_ok.mp hok
    obtain ⟨rfl, rfl, rfl⟩ : ms' = ms ∧ p' = p ∧ _ = t := by simpa using heq
    have hbal := Bank.balance_of_lookup ha
    rw [balance_ensure] at hbal
    exact ⟨⟨hms, hfee, hp, hbm, hb, hqm, hq, Finmap.mem_of_lookup_eq_some ha,
      hs.trans hbal.ge, hrb, hrq⟩, rfl⟩
  · rintro ⟨h, rfl⟩
    obtain ⟨a, ha⟩ := Finmap.mem_iff.mp h.seller_base
    have hbal := Bank.balance_of_lookup ha
    rw [balance_ensure] at hbal
    exact ⟨ms, h.main_state, h.fee_recipient, p, h.pool_state, h.base_minted, h.base_mint,
      h.quote_minted, h.quote_mint, a,
      associated_token_eq_ok.mpr ⟨ha, (hwf.ensure _ _ a ha).1⟩, h.funded.trans hbal.le,
      h.reserver_base, h.reserver_quote, rfl⟩

/-- The addresses a context derives are those of its pool. -/
theorem Accepts.address (h : ctx.Accepts s l ms p) : ctx.pool_state = p.address := by
  rw [ASell.pool_state, PoolState.address, h.base_mint, h.quote_mint]

theorem Accepts.reserver_base_ata (h : ctx.Accepts s l ms p) :
    ctx.reserver_base_ata = p.reserver_base_ata := by
  rw [ASell.reserver_base_ata, PoolState.reserver_base_ata, h.address, h.base_mint]

theorem Accepts.reserver_quote_ata (h : ctx.Accepts s l ms p) :
    ctx.reserver_quote_ata = p.reserver_quote_ata := by
  rw [ASell.reserver_quote_ata, PoolState.reserver_quote_ata, h.address, h.quote_mint]

end ASell

/-- A successful sell of `s`: `c` was decided on the pool `p`. -/
structure Sold (ctx : ASell) (s : U64) (l l' : Ledger) (ms : MainState) (p : PoolState)
    (c : Sale) : Prop where
  accepts : ctx.Accepts s l ms p
  fits : c.pool_state.Fits
  settles : Settles (ensured l.tokens ctx.opens) (ctx.payments s c) ctx.pool_state c.pool_state
    [.trade (c.trade ctx.seller.1 s l.unix_timestamp)] l l'

theorem sell_eq_ok {ctx : ASell} {s m : U64} (hwf : AtaWf l.tokens) :
    sell spl ctx s m l = .ok l' ↔
      ∃ ms p c, price_sell ms p s m = .ok c ∧ Sold ctx s l l' ms p c := by
  simp only [sell, bind_eq_ok, Prod.exists, ASell.try_accounts_eq_ok hwf, unwrap_eq_ok,
    checked_add_eq_some', transfer_eq_ok, pure_eq_ok]
  constructor
  · rintro ⟨ms, p, t, ⟨ha, rfl⟩, c, hc, t₁, h₁, t₂, h₂, t₃, h₃, _, ⟨hb, rfl⟩, _, ⟨hq, rfl⟩, rfl⟩
    exact ⟨ms, p, c, hc, ha, ⟨by rw [PoolState.base, Nat.add_comm]; exact hb, hq⟩,
      ⟨t₁, h₁, t₂, h₂, t₃, h₃, rfl⟩, rfl⟩
  · rintro ⟨ms, p, c, hc, ha, ⟨hb, hq⟩, ⟨t₁, h₁, t₂, h₂, t₃, h₃, htok⟩, hl⟩
    rw [PoolState.base, Nat.add_comm] at hb
    refine ⟨ms, p, _, ⟨ha, rfl⟩, c, hc, t₁, h₁, t₂, h₂, t₃, h₃, _, ⟨hb, rfl⟩, _, ⟨hq, rfl⟩, ?_⟩
    rw [hl, htok]
    rfl

/-! ## `withdraw` -/

/-- The pool a withdrawal leaves. -/
def PoolState.emptied (p : PoolState) : PoolState :=
  { p with real_base_reserves := 0, real_quote_reserves := 0 }

/-- The event of a withdrawal. -/
def PoolState.withdrawal (p : PoolState) (withdrawer : Pubkey) (timestamp : ℤ) :
    WithdrawEvent where
  withdrawer
  base_mint := p.base_mint
  base_amount := p.real_base_reserves
  quote_amount := p.real_quote_reserves
  timestamp

namespace AWithdraw

variable {ctx : AWithdraw} {p : PoolState} {t : Bank Pubkey}

/-- The accounts a withdrawal opens where they are missing. -/
def opens (ctx : AWithdraw) : List (Pubkey × Pubkey) :=
  [(ctx.withdrawer.1, ctx.base_mint), (ctx.withdrawer.1, ctx.quote_mint)]

/-- The payments of a withdrawal. -/
def payments (ctx : AWithdraw) (p : PoolState) : List (Payment Pubkey) :=
  [⟨ctx.reserver_base_ata, ctx.withdrawer_base_ata, ctx.pool_state, p.real_base_reserves⟩,
    ⟨ctx.reserver_quote_ata, ctx.withdrawer_quote_ata, ctx.pool_state, p.real_quote_reserves⟩]

/-- What the account checks of a withdrawal establish. -/
structure Accepts (ctx : AWithdraw) (l : Ledger) (p : PoolState) : Prop where
  main_state : ∃ ms, l.main_state = some ms ∧ ms.withdrawer = ctx.withdrawer.1
  pool_state : l.pools.lookup ctx.pool_state = some p
  base_minted : ∃ mint, l.mints.lookup ctx.base_mint = some mint
  base_mint : ctx.base_mint = p.base_mint
  quote_minted : ∃ mint, l.mints.lookup ctx.quote_mint = some mint
  quote_mint : ctx.quote_mint = p.quote_mint
  reserver_base : ctx.reserver_base_ata ∈ l.tokens
  reserver_quote : ctx.reserver_quote_ata ∈ l.tokens

theorem try_accounts_eq_ok (hwf : AtaWf l.tokens) :
    ctx.try_accounts spl l = .ok (p, t) ↔
      ctx.Accepts l p ∧ t = ensured l.tokens ctx.opens := by
  simp only [try_accounts, bind_eq_ok, load_eq_ok, constraint_eq_ok, pure_eq_ok, exists_const,
    init_ata_if_needed_eq_ensure hwf, exists_eq_left', exists_and_right,
    init_ata_if_needed_eq_ensure hwf.ensure, exists_associated_token hwf]
  constructor
  · rintro ⟨ms, hms, hw, p', hp, hbm, hb, hqm, hq, hrb, hrq, heq⟩
    obtain ⟨rfl, rfl⟩ : p' = p ∧ _ = t := by simpa using heq
    exact ⟨⟨⟨ms, hms, hw⟩, hp, hbm, hb, hqm, hq, hrb, hrq⟩, rfl⟩
  · rintro ⟨h, rfl⟩
    obtain ⟨ms, hms, hw⟩ := h.main_state
    exact ⟨ms, hms, hw, p, h.pool_state, h.base_minted, h.base_mint, h.quote_minted,
      h.quote_mint, h.reserver_base, h.reserver_quote, rfl⟩

/-- The addresses a context derives are those of its pool. -/
theorem Accepts.address (h : ctx.Accepts l p) : ctx.pool_state = p.address := by
  rw [AWithdraw.pool_state, PoolState.address, h.base_mint, h.quote_mint]

theorem Accepts.reserver_base_ata (h : ctx.Accepts l p) :
    ctx.reserver_base_ata = p.reserver_base_ata := by
  rw [AWithdraw.reserver_base_ata, PoolState.reserver_base_ata, h.address, h.base_mint]

theorem Accepts.reserver_quote_ata (h : ctx.Accepts l p) :
    ctx.reserver_quote_ata = p.reserver_quote_ata := by
  rw [AWithdraw.reserver_quote_ata, PoolState.reserver_quote_ata, h.address, h.quote_mint]

theorem Accepts.reserves_ne (h : ctx.Accepts l p) (hpair : p.base_mint ≠ p.quote_mint) :
    ctx.reserver_base_ata ≠ ctx.reserver_quote_ata := by
  rw [h.reserver_base_ata, h.reserver_quote_ata]
  intro e
  exact hpair (Pubkey.ata.inj e).2

end AWithdraw

/-- A successful withdrawal from the pool `p`. -/
structure Withdrawn (ctx : AWithdraw) (l l' : Ledger) (p : PoolState) : Prop where
  accepts : ctx.Accepts l p
  complete : p.complete = true
  base_pos : 0 < p.real_base_reserves.toNat
  quote_pos : 0 < p.real_quote_reserves.toNat
  settles : Settles (ensured l.tokens ctx.opens) (ctx.payments p) ctx.pool_state p.emptied
    [.withdraw (p.withdrawal ctx.withdrawer.1 l.unix_timestamp)] l l'

theorem withdraw_eq_ok {ctx : AWithdraw} (hwf : AtaWf l.tokens) :
    withdraw spl ctx l = .ok l' ↔ ∃ p, Withdrawn ctx l l' p := by
  simp only [withdraw, bind_eq_ok, Prod.exists, AWithdraw.try_accounts_eq_ok hwf, require_eq_ok,
    transfer_eq_ok, pure_eq_ok, exists_const, BitVec.lt_def]
  constructor
  · rintro ⟨p, t, ⟨ha, rfl⟩, hc, ⟨hb, hq⟩, t₁, h₁, t₂, h₂, rfl⟩
    exact ⟨p, ha, hc, hb, hq, ⟨t₁, h₁, t₂, h₂, rfl⟩, rfl⟩
  · rintro ⟨p, ha, hc, hb, hq, ⟨t₁, h₁, t₂, h₂, htok⟩, hl⟩
    refine ⟨p, _, ⟨ha, rfl⟩, hc, ⟨hb, hq⟩, t₁, h₁, t₂, h₂, ?_⟩
    rw [hl, htok]
    rfl

/-! ## `create_pool` -/

/-- The pool `create_pool` writes. -/
def ACreatePool.initial (ctx : ACreatePool) (ms : MainState) : PoolState where
  owner := ctx.creator.1
  base_mint := ctx.base_mint
  virt_base_reserves := ms.init_virt_base_reserves
  real_base_reserves := ms.total_supply
  quote_mint := ctx.quote_mint
  virt_quote_reserves := ms.init_virt_quote_reserves
  real_quote_reserves := 0
  real_quote_threshold := ms.real_quote_threshold
  complete := false

/-- The event of a creation. -/
def ACreatePool.event (ctx : ACreatePool) (ms : MainState) (timestamp : ℤ) : CreateEvent where
  creator := ctx.creator.1
  base_mint := ctx.base_mint
  base_reserves := ms.total_supply + ms.init_virt_base_reserves
  quote_reserves := ms.init_virt_quote_reserves
  timestamp

namespace ACreatePool

/-- The accounts `create_pool` opens. Unlike the other handlers it insists that they are
missing. -/
def opens (ctx : ACreatePool) : List (Pubkey × Pubkey) :=
  [(ctx.pool_state, ctx.base_mint), (ctx.pool_state, ctx.quote_mint)]

/-- The payment of `create_pool`. -/
def payments (ctx : ACreatePool) (n : U64) : List (Payment Pubkey) :=
  [⟨ctx.creator_base_ata, ctx.reserver_base_ata, ctx.creator.1, n⟩]

/-- What `create_pool` checks apart from the two accounts it opens. -/
structure Accepts (ctx : ACreatePool) (l : Ledger) (ms : MainState) (mint : Mint) : Prop where
  main_state : l.main_state = some ms
  pool_new : ctx.pool_state ∉ l.pools
  base_mint : l.mints.lookup ctx.base_mint = some mint
  pair : ctx.base_mint ≠ ctx.quote_mint
  quote_minted : ∃ mint, l.mints.lookup ctx.quote_mint = some mint
  quote_mint : ctx.quote_mint = QUOTE_MINT
  creator_base : l.tokens.lookup ctx.creator_base_ata =
    some ⟨ctx.base_mint, ctx.creator.1, mint.supply⟩
  total_supply : mint.supply = ms.total_supply
  mint_authority : mint.mint_authority = none
  freeze_authority : mint.freeze_authority = none

end ACreatePool

/-- A successful `create_pool`. -/
structure Created (ctx : ACreatePool) (l l' : Ledger) (ms : MainState) (mint : Mint) :
    Prop where
  accepts : ctx.Accepts l ms mint
  base_new : ctx.reserver_base_ata ∉ l.tokens
  quote_new : ctx.reserver_quote_ata ∉ l.tokens
  fits : ms.total_supply.toNat + ms.init_virt_base_reserves.toNat < 2 ^ 64
  settles : Settles (ensured l.tokens ctx.opens) (ctx.payments mint.supply) ctx.pool_state
    (ctx.initial ms) [.create (ctx.event ms l.unix_timestamp)] l l'

theorem create_pool_eq_ok {ctx : ACreatePool} (hwf : AtaWf l.tokens) :
    create_pool spl ctx l = .ok l' ↔ ∃ ms mint, Created ctx l l' ms mint := by
  simp only [create_pool, bind_eq_ok, require_eq_ok, constraint_eq_ok, load_eq_ok,
    associated_token_eq_ok, init_ata_eq_ensure, transfer_eq_ok, unwrap_eq_ok,
    checked_add_eq_some', pure_eq_ok, exists_const]
  constructor
  · rintro ⟨ms, hms, hnew, mint, hmint, hpair, qm, hqm, hq, ⟨am, ao, an⟩, ⟨ha, rfl⟩, _, ⟨hb, rfl⟩,
      _, -, -, _, ⟨hqn, rfl⟩, rfl, htot, hma, hfa, t, ht, _, ⟨hfit, rfl⟩, rfl⟩
    obtain rfl : am = ctx.base_mint := (hwf _ _ _ ha).2
    exact ⟨ms, mint, ⟨hms, hnew, hmint, hpair, ⟨qm, hqm⟩, hq, ha, htot, by simpa using hma,
      by simpa using hfa⟩, hb, fun h => hqn (mem_ensure.mpr (.inl h)), hfit, ⟨t, ht, rfl⟩, rfl⟩
  · rintro ⟨ms, mint, ha, hb, hqn, hfit, ⟨t, ht, htok⟩, hl⟩
    obtain ⟨qm, hqm⟩ := ha.quote_minted
    have hmem : Pubkey.ata ctx.pool_state ctx.quote_mint ∉
        ensure l.tokens ctx.pool_state ctx.base_mint := by
      rw [mem_ensure]
      rintro (h | h)
      · exact hqn h
      · exact ha.pair (Pubkey.ata.inj h).2.symm
    have hnew : (ensure l.tokens ctx.pool_state ctx.base_mint).lookup ctx.reserver_base_ata =
        some ⟨ctx.base_mint, ctx.pool_state, 0⟩ := by
      rw [ensure, if_neg (show Pubkey.ata ctx.pool_state ctx.base_mint ∉ l.tokens from hb)]
      exact Finmap.lookup_insert _
    refine ⟨ms, ha.main_state, ha.pool_new, mint, ha.base_mint, ha.pair, qm, hqm, ha.quote_mint, _,
      ⟨ha.creator_base, rfl⟩, _, ⟨hb, rfl⟩, _, hnew, rfl, _, ⟨hmem, rfl⟩, rfl, ha.total_supply,
      by simp [ha.mint_authority], by simp [ha.freeze_authority], t, ht, _, ⟨hfit, rfl⟩, ?_⟩
    rw [hl, htok]
    rfl

/-! ## The main state's handlers -/

/-- A ledger whose main state is replaced. No pool is touched. -/
def Ledger.configured (l : Ledger) (tokens : Bank Pubkey) (ms : MainState) (e : Event) : Ledger :=
  { l with tokens, main_state := some ms, events := l.events ++ [e] }

/-- The event of the initialization. -/
def MainState.initialized (ms : MainState) : MainStateInitialized where
  owner := ms.owner
  withdrawer := ms.withdrawer
  fee_recipient := ms.fee_recipient
  trading_fee := ms.trading_fee
  total_supply := ms.total_supply
  init_virt_base_reserves := ms.init_virt_base_reserves
  init_virt_quote_reserves := ms.init_virt_quote_reserves
  real_quote_threshold := ms.real_quote_threshold

/-- The event of an update. -/
def MainState.updated (ms : MainState) (input : UpdateMainStateInput) : MainStateUpdated where
  withdrawer := input.withdrawer
  fee_recipient := input.fee_recipient
  trading_fee := input.trading_fee
  total_supply := input.total_supply.getD ms.total_supply
  init_virt_base_reserves := input.init_virt_base_reserves.getD ms.init_virt_base_reserves
  init_virt_quote_reserves := input.init_virt_quote_reserves.getD ms.init_virt_quote_reserves
  real_quote_threshold := input.real_quote_threshold.getD ms.real_quote_threshold

/-- What `init_main_state` checks. -/
structure AInitMainState.Accepts (ctx : AInitMainState) (l : Ledger) : Prop where
  owner : ctx.owner.1 = DEFAULT_OWNER
  main_state : l.main_state = none
  quote_minted : ∃ mint, l.mints.lookup ctx.quote_mint = some mint
  quote_mint : ctx.quote_mint = QUOTE_MINT
  fee_quote : ctx.fee_quote_ata ∉ l.tokens

theorem init_main_state_eq_ok {ctx : AInitMainState} :
    init_main_state spl ctx l = .ok l' ↔ ctx.Accepts l ∧
      l' = l.configured (ensure l.tokens ctx.owner.1 ctx.quote_mint) (.initial ctx.owner.1)
        (.initialized (MainState.initial ctx.owner.1).initialized) := by
  simp only [init_main_state, bind_eq_ok, require_eq_ok, constraint_eq_ok, load_eq_ok,
    init_ata_eq_ensure, pure_eq_ok, exists_const]
  constructor
  · rintro ⟨ho, hms, mint, hmint, hq, _, ⟨hnew, rfl⟩, rfl⟩
    exact ⟨⟨ho, hms, ⟨mint, hmint⟩, hq, hnew⟩, rfl⟩
  · rintro ⟨h, rfl⟩
    obtain ⟨mint, hmint⟩ := h.quote_minted
    exact ⟨h.owner, h.main_state, mint, hmint, h.quote_mint, _, ⟨h.fee_quote, rfl⟩, rfl⟩

theorem transfer_ownership_eq_ok {ctx : ATransferOwnership} {new_owner : Pubkey} :
    transfer_ownership ctx new_owner l = .ok l' ↔
      ∃ ms, l.main_state = some ms ∧ ms.owner = ctx.owner.1 ∧ ms.owner ≠ new_owner ∧
        l' = l.configured l.tokens { ms with owner := new_owner }
          (.ownership ⟨ms.owner, new_owner⟩) := by
  simp only [transfer_ownership, bind_eq_ok, require_eq_ok, constraint_eq_ok, load_eq_ok,
    pure_eq_ok, exists_const]
  constructor
  · rintro ⟨ms, hms, ho, hne, rfl⟩
    exact ⟨ms, hms, ho, hne, rfl⟩
  · rintro ⟨ms, hms, ho, hne, rfl⟩
    exact ⟨ms, hms, ho, hne, rfl⟩

/-- What `update_main_state` checks of its input before it replaces `ms` by `ms'`. -/
structure AUpdateMainState.Accepts (ctx : AUpdateMainState) (input : UpdateMainStateInput)
    (l : Ledger) (ms ms' : MainState) : Prop where
  main_state : l.main_state = some ms
  owner : ms.owner = ctx.owner.1
  quote_minted : ∃ mint, l.mints.lookup ctx.quote_mint = some mint
  quote_mint : ctx.quote_mint = QUOTE_MINT
  fee_recipient : ctx.fee_recipient = input.fee_recipient
  trading_fee : input.trading_fee ≤ MAX_TRADING_FEE
  total_supply : update_amount ms.total_supply input.total_supply .InvalidTotalSupply =
    .ok ms'.total_supply
  init_virt_base_reserves : update_amount ms.init_virt_base_reserves
    input.init_virt_base_reserves .InvalidInitVirtBaseReserves = .ok ms'.init_virt_base_reserves
  init_virt_quote_reserves : update_amount ms.init_virt_quote_reserves
    input.init_virt_quote_reserves .InvalidInitVirtQuoteReserves =
      .ok ms'.init_virt_quote_reserves
  real_quote_threshold : update_amount ms.real_quote_threshold input.real_quote_threshold
    .InvalidRealQuoteThreshold = .ok ms'.real_quote_threshold
  others : ms'.owner = ms.owner ∧ ms'.withdrawer = input.withdrawer ∧
    ms'.fee_recipient = input.fee_recipient ∧ ms'.trading_fee = input.trading_fee

theorem update_main_state_eq_ok {ctx : AUpdateMainState} {input : UpdateMainStateInput}
    (hwf : AtaWf l.tokens) :
    update_main_state spl ctx input l = .ok l' ↔ ∃ ms ms', ctx.Accepts input l ms ms' ∧
      l' = l.configured (ensure l.tokens ctx.fee_recipient ctx.quote_mint) ms'
        (.updated (ms'.updated input)) := by
  simp only [update_main_state, bind_eq_ok, require_eq_ok, constraint_eq_ok, load_eq_ok,
    init_ata_if_needed_eq_ensure hwf, pure_eq_ok, exists_const, exists_eq_left']
  constructor
  · rintro ⟨ms, hms, ho, mint, hmint, hq, hfr, ⟨-, hfee⟩, ts, hts, vb, hvb, vq, hvq, thr, hthr,
      rfl⟩
    exact ⟨ms, ⟨ms.owner, input.withdrawer, input.fee_recipient, input.trading_fee, ts, vb, vq,
      thr⟩, ⟨hms, ho, ⟨mint, hmint⟩, hq, hfr, hfee, hts, hvb, hvq, hthr, rfl, rfl, rfl, rfl⟩, rfl⟩
  · rintro ⟨ms, ms', h, rfl⟩
    obtain ⟨mint, hmint⟩ := h.quote_minted
    obtain ⟨h1, h2, h3, h4⟩ := h.others
    refine ⟨ms, h.main_state, h.owner, mint, hmint, h.quote_mint, h.fee_recipient,
      ⟨BitVec.le_def.mpr (Nat.zero_le _), h.trading_fee⟩, _, h.total_supply, _,
      h.init_virt_base_reserves, _, h.init_virt_quote_reserves, _, h.real_quote_threshold, ?_⟩
    rw [MainState.updated, ← h1, ← h2, ← h3, ← h4]
    rfl

/-- An accepted update leaves a valid main state, whichever amounts it sets. -/
theorem AUpdateMainState.Accepts.valid {ctx : AUpdateMainState} {input : UpdateMainStateInput}
    {ms ms' : MainState} (h : ctx.Accepts input l ms ms') (hv : ms.Valid) : ms'.Valid where
  trading_fee := by
    have := BitVec.le_def.mp h.trading_fee
    rwa [MAX_TRADING_FEE_toNat, ← h.others.2.2.2] at this
  total_supply := update_amount_pos h.total_supply hv.total_supply
  init_virt_base_reserves := update_amount_pos h.init_virt_base_reserves hv.init_virt_base_reserves
  init_virt_quote_reserves :=
    update_amount_pos h.init_virt_quote_reserves hv.init_virt_quote_reserves
  real_quote_threshold := update_amount_pos h.real_quote_threshold hv.real_quote_threshold

end AliPumpFun
