/-
The three handlers of `main_state/ixs`.

`update_main_state` checks each parameter on its own: the fee against its maximum, the
four optional amounts for being positive. No check relates two of them.
-/
import AliPumpFun.Accounts
import AliPumpFun.Pricing

set_option autoImplicit false

open Words Fallible

namespace AliPumpFun

/-! ## `init_main_state` -/

structure AInitMainState where
  owner : Signer
  quote_mint : Pubkey

/-- The initial fee recipient's quote token account. -/
def AInitMainState.fee_quote_ata (ctx : AInitMainState) : Pubkey := .ata ctx.owner.1 ctx.quote_mint

/-- The members `init_main_state` writes. -/
def MainState.initial (owner : Pubkey) : MainState where
  owner := owner
  withdrawer := owner
  fee_recipient := owner
  trading_fee := 1 * FEE_PER_DIV.setWidth 64
  total_supply := TOTAL_SUPPLY
  init_virt_base_reserves := INIT_VIRT_BASE_RESERVE
  init_virt_quote_reserves := INIT_VIRT_QUOTE_RESERVE
  real_quote_threshold := REAL_QUOTE_THRESHOLD

/-- The default owner's defaults, written once. -/
def init_main_state (spl : TokenProgram Pubkey) (ctx : AInitMainState) (l : Ledger) :
    Result Ledger := do
  require (ctx.owner.1 = DEFAULT_OWNER) .Unauthorised
  -- the account is a singleton: its address has no argument
  constraint (l.main_state = none) .AccountAlreadyInUse
  let _ ← load (l.mints.lookup ctx.quote_mint)
  require (ctx.quote_mint = QUOTE_MINT) .UnknownQuoteMint
  let tokens ← init_ata spl l.tokens ctx.owner.1 ctx.quote_mint
  let state := MainState.initial ctx.owner.1
  return { l with tokens, main_state := some state }.emit (.initialized {
    owner := state.owner
    withdrawer := state.withdrawer
    fee_recipient := state.fee_recipient
    trading_fee := state.trading_fee
    total_supply := state.total_supply
    init_virt_base_reserves := state.init_virt_base_reserves
    init_virt_quote_reserves := state.init_virt_quote_reserves
    real_quote_threshold := state.real_quote_threshold })

/-! ## `transfer_ownership` -/

structure ATransferOwnership where
  owner : Signer

/-- Hand the main state over. The new owner is not asked. -/
def transfer_ownership (ctx : ATransferOwnership) (new_owner : Pubkey) (l : Ledger) :
    Result Ledger := do
  let main_state ← load l.main_state
  constraint (main_state.owner = ctx.owner.1) .ConstraintHasOne
  -- Don't need to transfer ownership to the same user
  require (main_state.owner ≠ new_owner) .AlreadyBecameOwner
  return { l with main_state := some { main_state with owner := new_owner } }.emit (.ownership {
    previous_owner := main_state.owner
    new_owner })

/-! ## `update_main_state` -/

structure UpdateMainStateInput where
  withdrawer : Pubkey
  fee_recipient : Pubkey
  trading_fee : U64
  total_supply : Option U64
  init_virt_base_reserves : Option U64
  init_virt_quote_reserves : Option U64
  real_quote_threshold : Option U64

structure AUpdateMainState where
  owner : Signer
  quote_mint : Pubkey
  fee_recipient : Pubkey

/-- The new fee recipient's quote token account. -/
def AUpdateMainState.fee_quote_ata (ctx : AUpdateMainState) : Pubkey :=
  .ata ctx.fee_recipient ctx.quote_mint

/-- One optional parameter: `if let Some(value) = input { require!(value > 0, e); … }`. -/
def update_amount (current : U64) (input : Option U64) (e : PumpFunError) : Result U64 :=
  match input with
  | none => return current
  | some value => do
    require (0 < value) e
    return value

/-- Set the three mandatory members and those of the four amounts that are given. -/
def update_main_state (spl : TokenProgram Pubkey) (ctx : AUpdateMainState)
    (input : UpdateMainStateInput) (l : Ledger) : Result Ledger := do
  let main_state ← load l.main_state
  constraint (main_state.owner = ctx.owner.1) .ConstraintHasOne
  let _ ← load (l.mints.lookup ctx.quote_mint)
  require (ctx.quote_mint = QUOTE_MINT) .UnknownQuoteMint
  -- the account opened is that of the new recipient
  constraint (ctx.fee_recipient = input.fee_recipient) .ConstraintAddress
  let tokens ← init_ata_if_needed spl l.tokens ctx.fee_recipient ctx.quote_mint
  -- input parameters check
  require (0 ≤ input.trading_fee ∧ input.trading_fee ≤ MAX_TRADING_FEE) .InvalidFee
  let total_supply ← update_amount main_state.total_supply input.total_supply
    .InvalidTotalSupply
  let init_virt_base_reserves ← update_amount main_state.init_virt_base_reserves
    input.init_virt_base_reserves .InvalidInitVirtBaseReserves
  let init_virt_quote_reserves ← update_amount main_state.init_virt_quote_reserves
    input.init_virt_quote_reserves .InvalidInitVirtQuoteReserves
  let real_quote_threshold ← update_amount main_state.real_quote_threshold
    input.real_quote_threshold .InvalidRealQuoteThreshold
  let main_state := { main_state with
    withdrawer := input.withdrawer
    fee_recipient := input.fee_recipient
    trading_fee := input.trading_fee
    total_supply, init_virt_base_reserves, init_virt_quote_reserves, real_quote_threshold }
  return { l with tokens, main_state := some main_state }.emit (.updated {
    withdrawer := input.withdrawer
    fee_recipient := input.fee_recipient
    trading_fee := input.trading_fee
    total_supply := input.total_supply.getD main_state.total_supply
    init_virt_base_reserves :=
      input.init_virt_base_reserves.getD main_state.init_virt_base_reserves
    init_virt_quote_reserves :=
      input.init_virt_quote_reserves.getD main_state.init_virt_quote_reserves
    real_quote_threshold := input.real_quote_threshold.getD main_state.real_quote_threshold })

/-- What `update_amount` sets is what the input says, or what was there. -/
theorem eq_getD_of_update_amount {current r : U64} {input : Option U64} {e : PumpFunError}
    (h : update_amount current input e = .ok r) : r = input.getD current := by
  cases input with
  | none => exact (pure_eq_ok.mp h).symm
  | some value =>
    simp only [update_amount, bind_eq_ok, require_eq_ok, pure_eq_ok, exists_const] at h
    exact h.2.symm

/-! ## Accepted configurations -/

/-- What a main state satisfies, whatever was written to it. -/
structure MainState.Valid (ms : MainState) : Prop where
  trading_fee : ms.trading_fee.toNat ≤ 5000
  total_supply : 0 < ms.total_supply.toNat
  init_virt_base_reserves : 0 < ms.init_virt_base_reserves.toNat
  init_virt_quote_reserves : 0 < ms.init_virt_quote_reserves.toNat
  real_quote_threshold : 0 < ms.real_quote_threshold.toNat

theorem MainState.Valid.trading_fee_lt {ms : MainState} (h : ms.Valid) :
    ms.trading_fee.toNat < FEE_UNIT := by
  have := h.trading_fee
  unfold FEE_UNIT
  omega

theorem MainState.Valid.two_mul_trading_fee_le {ms : MainState} (h : ms.Valid) :
    2 * ms.trading_fee.toNat ≤ FEE_UNIT := by
  have := h.trading_fee
  unfold FEE_UNIT
  omega

/-- The defaults pass the checks of an update. -/
theorem MainState.initial_valid (owner : Pubkey) : (MainState.initial owner).Valid where
  trading_fee := by show (1 * FEE_PER_DIV.setWidth 64).toNat ≤ 5000; decide
  total_supply := by show 0 < TOTAL_SUPPLY.toNat; decide
  init_virt_base_reserves := by show 0 < INIT_VIRT_BASE_RESERVE.toNat; decide
  init_virt_quote_reserves := by show 0 < INIT_VIRT_QUOTE_RESERVE.toNat; decide
  real_quote_threshold := by show 0 < REAL_QUOTE_THRESHOLD.toNat; decide

/-- A positive amount stays positive: the default passes the check of a new value. -/
theorem update_amount_pos {current r : U64} {input : Option U64} {e : PumpFunError}
    (h : update_amount current input e = .ok r) (hc : 0 < current.toNat) : 0 < r.toNat := by
  cases input with
  | none =>
    simp only [update_amount, pure_eq_ok] at h
    exact h ▸ hc
  | some value =>
    simp only [update_amount, bind_eq_ok, require_eq_ok, pure_eq_ok, exists_const] at h
    obtain ⟨hpos, rfl⟩ := h
    simpa [BitVec.lt_def] using hpos

end AliPumpFun
