/-
The state of the program and of the chain around it.

`constants.rs`, `error.rs`, the two `state.rs` and the two `event.rs` are here with
their own names. The rest of the file is what the handlers read of the chain: mints,
token accounts, the clock.

An address is a term of the inductive type `Pubkey`, so addresses derived from
different seeds are different. Only a `key` can sign a transaction: this stands for the
wallets and for the addresses other programs sign for. The program itself signs for its
pools, in the handlers and nowhere else.
-/
import AliPumpFun.Bank
import AliPumpFun.Runs

set_option autoImplicit false

open Words Fallible

namespace AliPumpFun

/-! ## Addresses -/

/-- An address. -/
inductive Pubkey where
  /-- A public key, by its bytes read as a number. -/
  | key (bytes : ℕ)
  /-- The main state's address, seeds `[b"main"]`. -/
  | mainState
  /-- A pool's address, seeds `[b"pool", base_mint, quote_mint]`. -/
  | poolState (base_mint quote_mint : Pubkey)
  /-- The associated token account of an owner for a mint. -/
  | ata (owner mint : Pubkey)
deriving DecidableEq

/-- Whether a transaction can carry a signature for the address. -/
def Pubkey.is_signer : Pubkey → Bool
  | .key _ => true
  | _ => false

/-- An address that signed the transaction. -/
abbrev Signer := { k : Pubkey // k.is_signer = true }

/-- A pool never signs a transaction. -/
@[simp] theorem Signer.ne_poolState (s : Signer) (b q : Pubkey) : s.1 ≠ .poolState b q := by
  rintro h
  have := s.2
  rw [h] at this
  cases this

@[simp] theorem Signer.poolState_ne (s : Signer) (b q : Pubkey) : .poolState b q ≠ s.1 :=
  (s.ne_poolState b q).symm

/-! ## Constants -/

/-- `QUOTE_MINT_STR`, `9wvorGtBJ8gyLorFTmwXWcymPoGVUBn6MRzHwFpCdCeC` decoded. -/
def QUOTE_MINT : Pubkey := .key 0x84efb320c3f7ba33662800bce19cd8a8da38fde805a1b3dd695f1dd8f1404729

/-- `DEFAULT_OWNER`, `4Gstv5b2EhxrF5b11E8QiJ4oPa5dgRRrQCQ9tQKT4TZT` decoded. -/
def DEFAULT_OWNER : Pubkey :=
  .key 0x30a451f70868b8a0fa835d58321854484fbcea0804256477517d9d7b61563d9a

/-- 1000 for 1%. -/
def FEE_PER_DIV : U128 := 1000

/-- 5%. -/
def MAX_TRADING_FEE : U64 := 5 * FEE_PER_DIV.setWidth 64

def TOTAL_SUPPLY : U64 := 1000000000000000
def INIT_VIRT_BASE_RESERVE : U64 := 66666666000000
def INIT_VIRT_QUOTE_RESERVE : U64 := 10000000000000
def REAL_QUOTE_THRESHOLD : U64 := 30000000000000

/-! ## Errors -/

/-- The error codes of `error.rs`. -/
inductive PumpFunError where
  | Unauthorised
  | AlreadyBecameOwner
  | InvalidFee
  | InvalidTotalSupply
  | InvalidInitVirtBaseReserves
  | InvalidInitVirtQuoteReserves
  | InvalidRealQuoteThreshold
  | WrongBaseAmountOnCreation
  | BaseTokenMustNotBeMintable
  | BaseTokenMustNotBeFreezable
  | WrongQuoteAmount
  | WrongBaseAmount
  | InsufficientFund
  | UnknownQuoteMint
  | InvalidTokenPair
  | TooFewOutputTokens
  | TooMuchInputQuote
  | TooLowOutputQuote
  | BondingCurveIncomplete
  | BondingCurveComplete
  | BondingCurveAlreadyWithdrawn
deriving DecidableEq

/-- The account checks that are not given an error code of the program. -/
inductive AccountError where
  | AccountNotInitialized
  | AccountAlreadyInUse
  | ConstraintAddress
  | ConstraintHasOne
  | ConstraintRaw
  | ConstraintTokenMint
  | ConstraintTokenOwner
deriving DecidableEq

/-- Why a transaction aborts. A refusal of the token program is recorded with the
account it is about: the source of a transfer, or the account to be opened. `panic` is a
failed `unwrap` or an arithmetic overflow. -/
inductive Error where
  | program (e : PumpFunError)
  | account (e : AccountError)
  | token (account : Pubkey) (e : TokenError)
  | panic
deriving DecidableEq

/-- The result of a handler. -/
abbrev Result := Except Error

/-- `unwrap`, and the overflow check of `+` and `-`. -/
def unwrap {α : Type} (o : Option α) : Result α := getOrError o .panic

/-- `require!`. -/
def require (c : Prop) [Decidable c] (e : PumpFunError) : Result Unit :=
  Fallible.require c (.program e)

/-- A check of an account that carries no error code of the program. -/
def constraint (c : Prop) [Decidable c] (e : AccountError) : Result Unit :=
  Fallible.require c (.account e)

@[simp] theorem unwrap_eq_ok {α : Type} {o : Option α} {a : α} :
    unwrap o = .ok a ↔ o = some a := getOrError_eq_ok

@[simp] theorem require_eq_ok {c : Prop} [Decidable c] {e : PumpFunError} {u : Unit} :
    require c e = .ok u ↔ c := Fallible.require_eq_ok

@[simp] theorem constraint_eq_ok {c : Prop} [Decidable c] {e : AccountError} {u : Unit} :
    constraint c e = .ok u ↔ c := Fallible.require_eq_ok

/-! ## The program's accounts -/

/-- Main state of the program. -/
structure MainState where
  owner : Pubkey
  withdrawer : Pubkey
  fee_recipient : Pubkey
  trading_fee : U64
  total_supply : U64
  init_virt_base_reserves : U64
  init_virt_quote_reserves : U64
  real_quote_threshold : U64
deriving DecidableEq

/-- A bonding curve. -/
structure PoolState where
  owner : Pubkey
  base_mint : Pubkey
  virt_base_reserves : U64
  real_base_reserves : U64
  quote_mint : Pubkey
  virt_quote_reserves : U64
  real_quote_reserves : U64
  real_quote_threshold : U64
  complete : Bool
deriving DecidableEq

namespace PoolState

/-- Total base reserves, virtual and real. -/
def base (p : PoolState) : ℕ := p.virt_base_reserves.toNat + p.real_base_reserves.toNat

/-- Total quote reserves, virtual and real. -/
def quote (p : PoolState) : ℕ := p.virt_quote_reserves.toNat + p.real_quote_reserves.toNat

/-- The product the curve is about. -/
def product (p : PoolState) : ℕ := p.base * p.quote

/-- What is still to be deposited until the curve is complete. -/
def remaining (p : PoolState) : ℕ := p.real_quote_threshold.toNat - p.real_quote_reserves.toNat

/-- The address the pool lives at. -/
def address (p : PoolState) : Pubkey := .poolState p.base_mint p.quote_mint

/-- The account that backs the real base reserves. -/
def reserver_base_ata (p : PoolState) : Pubkey := .ata p.address p.base_mint

/-- The account that backs the real quote reserves. -/
def reserver_quote_ata (p : PoolState) : Pubkey := .ata p.address p.quote_mint

end PoolState

/-! ## Events -/

structure MainStateInitialized where
  owner : Pubkey
  withdrawer : Pubkey
  fee_recipient : Pubkey
  trading_fee : U64
  total_supply : U64
  init_virt_base_reserves : U64
  init_virt_quote_reserves : U64
  real_quote_threshold : U64
deriving DecidableEq

structure OwnershipTransferred where
  previous_owner : Pubkey
  new_owner : Pubkey
deriving DecidableEq

structure MainStateUpdated where
  withdrawer : Pubkey
  fee_recipient : Pubkey
  trading_fee : U64
  total_supply : U64
  init_virt_base_reserves : U64
  init_virt_quote_reserves : U64
  real_quote_threshold : U64
deriving DecidableEq

structure CreateEvent where
  creator : Pubkey
  base_mint : Pubkey
  base_reserves : U64
  quote_reserves : U64
  timestamp : ℤ
deriving DecidableEq

structure TradeEvent where
  user : Pubkey
  base_mint : Pubkey
  base_amount : U64
  quote_amount : U64
  base_reserves : U64
  quote_reserves : U64
  is_buy : Bool
  timestamp : ℤ
deriving DecidableEq

structure CompleteEvent where
  base_mint : Pubkey
  timestamp : ℤ
deriving DecidableEq

structure WithdrawEvent where
  withdrawer : Pubkey
  base_mint : Pubkey
  base_amount : U64
  quote_amount : U64
  timestamp : ℤ
deriving DecidableEq

inductive Event where
  | initialized (e : MainStateInitialized)
  | ownership (e : OwnershipTransferred)
  | updated (e : MainStateUpdated)
  | create (e : CreateEvent)
  | trade (e : TradeEvent)
  | complete (e : CompleteEvent)
  | withdraw (e : WithdrawEvent)
deriving DecidableEq

/-! ## The chain -/

/-- A mint. -/
structure Mint where
  supply : U64
  mint_authority : Option Pubkey
  freeze_authority : Option Pubkey
deriving DecidableEq

/-- The accounts the program works on, the clock, and the events emitted so far. -/
structure Ledger where
  mints : Finmap fun _ : Pubkey => Mint
  tokens : Bank Pubkey
  main_state : Option MainState
  pools : Finmap fun _ : Pubkey => PoolState
  unix_timestamp : ℤ
  events : List Event

/-- The supply of a mint, `0` where there is none. -/
def Ledger.supply (l : Ledger) (m : Pubkey) : ℕ :=
  match l.mints.lookup m with
  | some mint => mint.supply.toNat
  | none => 0

theorem Ledger.supply_of_lookup {l : Ledger} {m : Pubkey} {mint : Mint}
    (h : l.mints.lookup m = some mint) : l.supply m = mint.supply.toNat := by
  rw [Ledger.supply, h]

/-- `emit!`. -/
def Ledger.emit (l : Ledger) (e : Event) : Ledger := { l with events := l.events ++ [e] }

end AliPumpFun
