/-
The five handlers of `pool/ixs`, with the account checks of their contexts.

The trading handlers are the account checks, the decision of `Trade`, the transfers and
the event, in this order. The pool is written back at the end: no transfer reads it.
-/
import AliPumpFun.Accounts
import AliPumpFun.Trade

set_option autoImplicit false

open Words Fallible

namespace AliPumpFun

/-! ## `create_pool` -/

/-- The accounts that the client of a creation chooses. -/
structure ACreatePool where
  creator : Signer
  base_mint : Pubkey
  quote_mint : Pubkey

namespace ACreatePool

variable (ctx : ACreatePool)

def pool_state : Pubkey := .poolState ctx.base_mint ctx.quote_mint
def creator_base_ata : Pubkey := .ata ctx.creator.1 ctx.base_mint
def reserver_base_ata : Pubkey := .ata ctx.pool_state ctx.base_mint
def reserver_quote_ata : Pubkey := .ata ctx.pool_state ctx.quote_mint

end ACreatePool

/-- A new pool with the members of the main state at the time and the whole supply of its base
mint. The sum of the event is the last thing that can fail. -/
def create_pool (spl : TokenProgram Pubkey) (ctx : ACreatePool) (l : Ledger) : Result Ledger := do
  let main_state ← load l.main_state
  constraint (ctx.pool_state ∉ l.pools) .AccountAlreadyInUse
  let base_mint ← load (l.mints.lookup ctx.base_mint)
  require (ctx.base_mint ≠ ctx.quote_mint) .InvalidTokenPair
  let _ ← load (l.mints.lookup ctx.quote_mint)
  require (ctx.quote_mint = QUOTE_MINT) .UnknownQuoteMint
  let creator_base_ata ← associated_token l.tokens ctx.creator.1 ctx.base_mint
  let tokens ← init_ata spl l.tokens ctx.pool_state ctx.base_mint
  let reserver_base_ata ← load (tokens.lookup ctx.reserver_base_ata)
  -- the account was opened a line before, so it is empty
  constraint (reserver_base_ata.amount = 0) .ConstraintRaw
  let tokens ← init_ata spl tokens ctx.pool_state ctx.quote_mint
  -- the creator must hold the whole supply, and all of it goes into the pool
  let base_amount := creator_base_ata.amount
  require (base_amount = base_mint.supply) .WrongBaseAmountOnCreation
  require (base_amount = main_state.total_supply) .WrongBaseAmountOnCreation
  require (base_mint.mint_authority.isSome = false) .BaseTokenMustNotBeMintable
  require (base_mint.freeze_authority.isSome = false) .BaseTokenMustNotBeFreezable
  let pool_state : PoolState := {
    owner := ctx.creator.1
    base_mint := creator_base_ata.mint
    quote_mint := ctx.quote_mint
    real_base_reserves := main_state.total_supply
    virt_base_reserves := main_state.init_virt_base_reserves
    real_quote_reserves := 0
    virt_quote_reserves := main_state.init_virt_quote_reserves
    real_quote_threshold := main_state.real_quote_threshold
    -- a new account is zeroed, and the handler leaves this field alone
    complete := false }
  let tokens ← transfer spl tokens ctx.creator_base_ata ctx.reserver_base_ata ctx.creator.1
    base_amount
  -- a sum that only the event needs
  let base_reserves ← unwrap
    (checked_add pool_state.real_base_reserves pool_state.virt_base_reserves)
  return { l with tokens, pools := l.pools.insert ctx.pool_state pool_state }.emit (.create {
    creator := pool_state.owner
    base_mint := pool_state.base_mint
    base_reserves
    quote_reserves := pool_state.virt_quote_reserves
    timestamp := l.unix_timestamp })

/-! ## The two buys -/

/-- The accounts that the client of a buy chooses, whichever of the two. -/
structure ABuy where
  buyer : Signer
  fee_recipient : Pubkey
  base_mint : Pubkey
  quote_mint : Pubkey

namespace ABuy

variable (ctx : ABuy)

def pool_state : Pubkey := .poolState ctx.base_mint ctx.quote_mint
def fee_quote_ata : Pubkey := .ata ctx.fee_recipient ctx.quote_mint
def buyer_base_ata : Pubkey := .ata ctx.buyer.1 ctx.base_mint
def buyer_quote_ata : Pubkey := .ata ctx.buyer.1 ctx.quote_mint
def reserver_base_ata : Pubkey := .ata ctx.pool_state ctx.base_mint
def reserver_quote_ata : Pubkey := .ata ctx.pool_state ctx.quote_mint

/-- The account checks of a buy: the main state, the pool, and the token accounts with the
missing ones opened. -/
def try_accounts (spl : TokenProgram Pubkey) (l : Ledger) :
    Result (MainState × PoolState × Bank Pubkey) := do
  let main_state ← load l.main_state
  constraint (ctx.fee_recipient = main_state.fee_recipient) .ConstraintAddress
  let pool_state ← load (l.pools.lookup ctx.pool_state)
  let _ ← load (l.mints.lookup ctx.base_mint)
  constraint (ctx.base_mint = pool_state.base_mint) .ConstraintAddress
  let _ ← load (l.mints.lookup ctx.quote_mint)
  constraint (ctx.quote_mint = pool_state.quote_mint) .ConstraintAddress
  -- whoever buys pays for these accounts where they are missing
  let tokens ← init_ata_if_needed spl l.tokens ctx.fee_recipient ctx.quote_mint
  let tokens ← init_ata_if_needed spl tokens ctx.buyer.1 ctx.base_mint
  let tokens ← init_ata_if_needed spl tokens ctx.buyer.1 ctx.quote_mint
  -- those of the pool have been there since its creation
  let _ ← associated_token tokens ctx.pool_state ctx.base_mint
  let _ ← associated_token tokens ctx.pool_state ctx.quote_mint
  return (main_state, pool_state, tokens)

end ABuy

/-- What the two buys have in common: the three transfers, the event, and the completion of a
pool that has reached its threshold. -/
def buy_finalize (spl : TokenProgram Pubkey) (ctx : ABuy) (l : Ledger) (tokens : Bank Pubkey)
    (c : Purchase) : Result Ledger := do
  let pool_state := c.pool_state
  -- Transfer fee (quote) from buyer to feeRecipient
  let tokens ← transfer spl tokens ctx.buyer_quote_ata ctx.fee_quote_ata ctx.buyer.1 c.fee
  -- Transfer input_quote_amount (quote) from buyer to pool
  let tokens ← transfer spl tokens ctx.buyer_quote_ata ctx.reserver_quote_ata ctx.buyer.1
    c.input_quote_amount
  -- Transfer base tokens from pool to buyer
  let tokens ← transfer spl tokens ctx.reserver_base_ata ctx.buyer_base_ata ctx.pool_state
    c.base_amount
  -- the sums of the event, which can still fail
  let quote_amount ← unwrap (checked_add c.fee c.input_quote_amount)
  let base_reserves ← unwrap
    (checked_add pool_state.real_base_reserves pool_state.virt_base_reserves)
  let quote_reserves ← unwrap
    (checked_add pool_state.virt_quote_reserves pool_state.real_quote_reserves)
  let l := { l with tokens }.emit (.trade {
    user := ctx.buyer.1
    base_mint := pool_state.base_mint
    base_amount := c.base_amount
    quote_amount
    base_reserves
    quote_reserves
    is_buy := true
    timestamp := l.unix_timestamp })
  -- Check if bonding curve becomes complete
  if pool_state.real_quote_threshold ≤ pool_state.real_quote_reserves then
    let pool_state := { pool_state with complete := true }
    return { l with pools := l.pools.insert ctx.pool_state pool_state }.emit (.complete {
      base_mint := pool_state.base_mint
      timestamp := l.unix_timestamp })
  else
    return { l with pools := l.pools.insert ctx.pool_state pool_state }

/-- Buy base tokens for `quote_amount`, or for as much of it as the threshold leaves room for. -/
def buy_tokens_from_exact_quote (spl : TokenProgram Pubkey) (ctx : ABuy)
    (quote_amount min_base_amount : U64) (l : Ledger) : Result Ledger := do
  let (main_state, pool_state, tokens) ← ctx.try_accounts spl l
  let c ← price_exact_quote main_state pool_state quote_amount min_base_amount
  buy_finalize spl ctx l tokens c

/-- Buy `base_amount` base tokens, or as many as what remains to the threshold pays for. -/
def buy_exact_tokens_from_quote (spl : TokenProgram Pubkey) (ctx : ABuy)
    (base_amount max_quote_amount : U64) (l : Ledger) : Result Ledger := do
  let (main_state, pool_state, tokens) ← ctx.try_accounts spl l
  let c ← price_exact_tokens main_state pool_state base_amount max_quote_amount
  buy_finalize spl ctx l tokens c

/-! ## `sell` -/

/-- The accounts that the client of a sell chooses. -/
structure ASell where
  seller : Signer
  fee_recipient : Pubkey
  base_mint : Pubkey
  quote_mint : Pubkey

namespace ASell

variable (ctx : ASell)

def pool_state : Pubkey := .poolState ctx.base_mint ctx.quote_mint
def fee_quote_ata : Pubkey := .ata ctx.fee_recipient ctx.quote_mint
def seller_base_ata : Pubkey := .ata ctx.seller.1 ctx.base_mint
def seller_quote_ata : Pubkey := .ata ctx.seller.1 ctx.quote_mint
def reserver_base_ata : Pubkey := .ata ctx.pool_state ctx.base_mint
def reserver_quote_ata : Pubkey := .ata ctx.pool_state ctx.quote_mint

/-- The account checks of a sell. Unlike a buy's they read an argument: the seller's
account must exist and hold what is sold. -/
def try_accounts (spl : TokenProgram Pubkey) (base_amount : U64) (l : Ledger) :
    Result (MainState × PoolState × Bank Pubkey) := do
  let main_state ← load l.main_state
  constraint (ctx.fee_recipient = main_state.fee_recipient) .ConstraintAddress
  let pool_state ← load (l.pools.lookup ctx.pool_state)
  let _ ← load (l.mints.lookup ctx.base_mint)
  constraint (ctx.base_mint = pool_state.base_mint) .ConstraintAddress
  let _ ← load (l.mints.lookup ctx.quote_mint)
  constraint (ctx.quote_mint = pool_state.quote_mint) .ConstraintAddress
  let tokens ← init_ata_if_needed spl l.tokens ctx.fee_recipient ctx.quote_mint
  let seller_base_ata ← associated_token tokens ctx.seller.1 ctx.base_mint
  require (check_balance seller_base_ata base_amount = true) .InsufficientFund
  let tokens ← init_ata_if_needed spl tokens ctx.seller.1 ctx.quote_mint
  let _ ← associated_token tokens ctx.pool_state ctx.base_mint
  let _ ← associated_token tokens ctx.pool_state ctx.quote_mint
  return (main_state, pool_state, tokens)

end ASell

/-- Sell `base_amount` base tokens to the pool, which pays the fee out of the price. Nothing
compares the price with the real quote reserves before it is taken off them. -/
def sell (spl : TokenProgram Pubkey) (ctx : ASell) (base_amount min_quote_amount : U64)
    (l : Ledger) : Result Ledger := do
  let (main_state, pool_state, tokens) ← ctx.try_accounts spl base_amount l
  let c ← price_sell main_state pool_state base_amount min_quote_amount
  let pool_state := c.pool_state
  -- Transfer base tokens from seller to pool
  let tokens ← transfer spl tokens ctx.seller_base_ata ctx.reserver_base_ata ctx.seller.1
    base_amount
  -- Transfer fee (quote) from pool to feeRecipient
  let tokens ← transfer spl tokens ctx.reserver_quote_ata ctx.fee_quote_ata ctx.pool_state c.fee
  -- Transfer output_amount (quote) from pool to seller
  let tokens ← transfer spl tokens ctx.reserver_quote_ata ctx.seller_quote_ata ctx.pool_state
    c.output_amount
  let base_reserves ← unwrap
    (checked_add pool_state.real_base_reserves pool_state.virt_base_reserves)
  let quote_reserves ← unwrap
    (checked_add pool_state.virt_quote_reserves pool_state.real_quote_reserves)
  return { l with tokens, pools := l.pools.insert ctx.pool_state pool_state }.emit (.trade {
    user := ctx.seller.1
    base_mint := pool_state.base_mint
    base_amount
    quote_amount := c.output_amount
    base_reserves
    quote_reserves
    is_buy := false
    timestamp := l.unix_timestamp })

/-! ## `withdraw` -/

/-- The accounts that the client of a withdrawal chooses. -/
structure AWithdraw where
  withdrawer : Signer
  base_mint : Pubkey
  quote_mint : Pubkey

namespace AWithdraw

variable (ctx : AWithdraw)

def pool_state : Pubkey := .poolState ctx.base_mint ctx.quote_mint
def withdrawer_base_ata : Pubkey := .ata ctx.withdrawer.1 ctx.base_mint
def withdrawer_quote_ata : Pubkey := .ata ctx.withdrawer.1 ctx.quote_mint
def reserver_base_ata : Pubkey := .ata ctx.pool_state ctx.base_mint
def reserver_quote_ata : Pubkey := .ata ctx.pool_state ctx.quote_mint

/-- The account checks of a withdrawal, which asks for the withdrawer's signature. -/
def try_accounts (spl : TokenProgram Pubkey) (l : Ledger) :
    Result (PoolState × Bank Pubkey) := do
  let main_state ← load l.main_state
  constraint (main_state.withdrawer = ctx.withdrawer.1) .ConstraintHasOne
  let pool_state ← load (l.pools.lookup ctx.pool_state)
  let _ ← load (l.mints.lookup ctx.base_mint)
  constraint (ctx.base_mint = pool_state.base_mint) .ConstraintAddress
  let _ ← load (l.mints.lookup ctx.quote_mint)
  constraint (ctx.quote_mint = pool_state.quote_mint) .ConstraintAddress
  let _ ← associated_token l.tokens ctx.pool_state ctx.base_mint
  let _ ← associated_token l.tokens ctx.pool_state ctx.quote_mint
  let tokens ← init_ata_if_needed spl l.tokens ctx.withdrawer.1 ctx.base_mint
  let tokens ← init_ata_if_needed spl tokens ctx.withdrawer.1 ctx.quote_mint
  return (pool_state, tokens)

end AWithdraw

/-- Pay the reserves of a complete pool to the withdrawer and leave zeros. What is in the reserve
accounts beyond the reserves stays there. -/
def withdraw (spl : TokenProgram Pubkey) (ctx : AWithdraw) (l : Ledger) : Result Ledger := do
  let (pool_state, tokens) ← ctx.try_accounts spl l
  require (pool_state.complete = true) .BondingCurveIncomplete
  -- an empty side is taken for an earlier withdrawal
  require (0 < pool_state.real_base_reserves ∧ 0 < pool_state.real_quote_reserves)
    .BondingCurveAlreadyWithdrawn
  -- Transfer base tokens from pool to withdrawer
  let tokens ← transfer spl tokens ctx.reserver_base_ata ctx.withdrawer_base_ata ctx.pool_state
    pool_state.real_base_reserves
  -- Transfer quote tokens from pool to withdrawer
  let tokens ← transfer spl tokens ctx.reserver_quote_ata ctx.withdrawer_quote_ata
    ctx.pool_state pool_state.real_quote_reserves
  let l := { l with tokens }.emit (.withdraw {
    withdrawer := ctx.withdrawer.1
    base_mint := pool_state.base_mint
    base_amount := pool_state.real_base_reserves
    quote_amount := pool_state.real_quote_reserves
    timestamp := l.unix_timestamp })
  let pool_state := { pool_state with real_base_reserves := 0, real_quote_reserves := 0 }
  return { l with pools := l.pools.insert ctx.pool_state pool_state }

end AliPumpFun
