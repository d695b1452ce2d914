/-
The system: the eight instructions of the program between the other things that happen
on the chain.

An `Action` is an instruction, a token transfer signed by an account's owner, the opening
of an associated token account by anyone, the opening of a plain token account, or the
clock moving on. Every action is atomic, and one that fails leaves the ledger as it was,
so a run is a list of actions that all succeed.

Nothing else happens to a token account in a run. In particular its owner does not hand it
over (`SetAuthority`), close it or name a delegate, nothing is frozen, thawed, minted or
burned, and nobody runs out of lamports. What is said of every run is said of these runs, and
what is said of others is said of what they can do by these actions.

A `Genesis` ledger is one the program was never used on. It may hold any mints and any
token accounts, those of future pools included.
-/
import AliPumpFun.MainIxs
import AliPumpFun.PoolIxs
import AliPumpFun.Payments

set_option autoImplicit false

open Words Fallible

namespace AliPumpFun

/-- The entry points of `lib.rs`. -/
inductive Instruction where
  | init_main_state (ctx : AInitMainState)
  | transfer_ownership (ctx : ATransferOwnership) (new_owner : Pubkey)
  | update_main_state (ctx : AUpdateMainState) (input : UpdateMainStateInput)
  | create_pool (ctx : ACreatePool)
  | buy_tokens_from_exact_quote (ctx : ABuy) (quote_amount min_base_amount : U64)
  | buy_exact_tokens_from_quote (ctx : ABuy) (base_amount max_quote_amount : U64)
  | sell (ctx : ASell) (amount min_quote_output : U64)
  | withdraw (ctx : AWithdraw)

/-- What can happen next. -/
inductive Action where
  | ix (i : Instruction)
  | token_transfer (authority : Signer) (source destination : Pubkey) (amount : U64)
  | create_ata (owner mint : Pubkey)
  | create_account (bytes : ℕ) (owner mint : Pubkey)
  | tick (unix_timestamp : ℤ)

section Semantics

variable (spl : TokenProgram Pubkey)

def Instruction.execute (l : Ledger) : Instruction → Result Ledger
  | .init_main_state ctx => AliPumpFun.init_main_state spl ctx l
  | .transfer_ownership ctx new_owner => AliPumpFun.transfer_ownership ctx new_owner l
  | .update_main_state ctx input => AliPumpFun.update_main_state spl ctx input l
  | .create_pool ctx => AliPumpFun.create_pool spl ctx l
  | .buy_tokens_from_exact_quote ctx quote_amount min_base_amount =>
    AliPumpFun.buy_tokens_from_exact_quote spl ctx quote_amount min_base_amount l
  | .buy_exact_tokens_from_quote ctx base_amount max_quote_amount =>
    AliPumpFun.buy_exact_tokens_from_quote spl ctx base_amount max_quote_amount l
  | .sell ctx amount min_quote_output => AliPumpFun.sell spl ctx amount min_quote_output l
  | .withdraw ctx => AliPumpFun.withdraw spl ctx l

def step (l : Ledger) : Action → Result Ledger
  | .ix i => i.execute spl l
  | .token_transfer authority source destination amount => do
    let tokens ← transfer spl l.tokens source destination authority.1 amount
    return { l with tokens }
  -- anybody can open the associated account of any owner, a pool included
  | .create_ata owner mint => do
    let _ ← load (l.mints.lookup mint)
    let tokens ← init_ata spl l.tokens owner mint
    return { l with tokens }
  -- an account at an address that is derived from nothing
  | .create_account bytes owner mint => do
    let _ ← load (l.mints.lookup mint)
    let tokens ← (spl.create l.tokens (.key bytes) owner mint).mapError (.token (.key bytes))
    return { l with tokens }
  | .tick unix_timestamp => return { l with unix_timestamp }

end Semantics

/-- A ledger before the program's first use. -/
structure Genesis (l : Ledger) : Prop where
  no_main_state : l.main_state = none
  no_pools : l.pools = ∅
  no_events : l.events = []
  ata : AtaWf l.tokens
  conserved : ∀ m, l.tokens.total m = l.supply m

/-- A ledger some run leads to. -/
def Reachable (spl : TokenProgram Pubkey) (l : Ledger) : Prop :=
  ∃ g as, Genesis g ∧ Runs.run (step spl) g as = .ok l

theorem Reachable.run {spl : TokenProgram Pubkey} {l l' : Ledger} {as : List Action}
    (h : Reachable spl l) (hrun : Runs.run (step spl) l as = .ok l') : Reachable spl l' := by
  obtain ⟨g, bs, hg, hb⟩ := h
  exact ⟨g, bs ++ as, hg, Runs.run_append.mpr ⟨l, hb, hrun⟩⟩

/-! ## A ledger to start from -/

/-- A ledger with a base mint of which `creator` holds everything, and with the quote
tokens in the hands of `trader`. -/
def Ledger.launch (creator trader : Signer) (base_mint : Pubkey) (supply quote_supply : U64) :
    Ledger where
  mints := ((∅ : Finmap fun _ : Pubkey => Mint).insert base_mint ⟨supply, none, none⟩).insert
    QUOTE_MINT ⟨quote_supply, none, none⟩
  tokens := ((∅ : Bank Pubkey).insert (.ata creator.1 base_mint)
    ⟨base_mint, creator.1, supply⟩).insert (.ata trader.1 QUOTE_MINT)
      ⟨QUOTE_MINT, trader.1, quote_supply⟩
  main_state := none
  pools := ∅
  unix_timestamp := 0
  events := []

theorem Ledger.launch_genesis {creator trader : Signer} {base_mint : Pubkey}
    (h : base_mint ≠ QUOTE_MINT) (supply quote_supply : U64) :
    Genesis (.launch creator trader base_mint supply quote_supply) := by
  have hata : Pubkey.ata trader.1 QUOTE_MINT ≠ .ata creator.1 base_mint := fun e =>
    h (Pubkey.ata.inj e).2.symm
  have hnew : Pubkey.ata trader.1 QUOTE_MINT ∉ (∅ : Bank Pubkey).insert (.ata creator.1 base_mint)
      ⟨base_mint, creator.1, supply⟩ := by
    rw [Finmap.mem_insert]
    exact fun hm => hm.elim hata Finmap.notMem_empty
  refine ⟨rfl, rfl, rfl, fun o m a ha => ?_, fun m => ?_⟩
  · by_cases h1 : Pubkey.ata o m = .ata trader.1 QUOTE_MINT
    · rw [h1, launch, Finmap.lookup_insert] at ha
      obtain ⟨rfl, rfl⟩ := Pubkey.ata.inj h1
      obtain rfl := Option.some_inj.mp ha
      exact ⟨rfl, rfl⟩
    · rw [launch, Finmap.lookup_insert_of_ne _ h1] at ha
      by_cases h2 : Pubkey.ata o m = .ata creator.1 base_mint
      · rw [h2, Finmap.lookup_insert] at ha
        obtain ⟨rfl, rfl⟩ := Pubkey.ata.inj h2
        obtain rfl := Option.some_inj.mp ha
        exact ⟨rfl, rfl⟩
      · rw [Finmap.lookup_insert_of_ne _ h2] at ha
        cases ha
  · have hsum : (launch creator trader base_mint supply quote_supply).tokens.total m =
        (if base_mint = m then supply.toNat else 0) +
          (if QUOTE_MINT = m then quote_supply.toNat else 0) := by
      rw [Bank.total, launch, Bank.holdings_insert_of_notMem hnew,
        Bank.holdings_insert_of_notMem Finmap.notMem_empty, Bank.holdings_empty]
      simp [Bank.weight, Bank.ofMint]
    rw [hsum, Ledger.supply, launch]
    by_cases h1 : m = QUOTE_MINT
    · rw [h1, Finmap.lookup_insert, if_neg h, if_pos rfl, Nat.zero_add]
    · rw [Finmap.lookup_insert_of_ne _ h1, if_neg (Ne.symm h1)]
      by_cases h2 : m = base_mint
      · rw [h2, Finmap.lookup_insert, if_pos rfl, Nat.add_zero]
      · rw [Finmap.lookup_insert_of_ne _ h2, if_neg (Ne.symm h2)]
        rfl

/-! ## Who acts on which pool -/

namespace Instruction

/-- The pool a trade is made on. -/
def traded : Instruction → Option Pubkey
  | .buy_tokens_from_exact_quote ctx _ _ => some ctx.pool_state
  | .buy_exact_tokens_from_quote ctx _ _ => some ctx.pool_state
  | .sell ctx _ _ => some ctx.pool_state
  | _ => none

/-- The pool a withdrawal is made from. -/
def withdrawn : Instruction → Option Pubkey
  | .withdraw ctx => some ctx.pool_state
  | _ => none

/-- The pool an instruction is about. -/
def pool : Instruction → Option Pubkey
  | .create_pool ctx => some ctx.pool_state
  | .buy_tokens_from_exact_quote ctx _ _ => some ctx.pool_state
  | .buy_exact_tokens_from_quote ctx _ _ => some ctx.pool_state
  | .sell ctx _ _ => some ctx.pool_state
  | .withdraw ctx => some ctx.pool_state
  | _ => none

/-- Who signs. -/
def signer : Instruction → Signer
  | .init_main_state ctx => ctx.owner
  | .transfer_ownership ctx _ => ctx.owner
  | .update_main_state ctx _ => ctx.owner
  | .create_pool ctx => ctx.creator
  | .buy_tokens_from_exact_quote ctx _ _ => ctx.buyer
  | .buy_exact_tokens_from_quote ctx _ _ => ctx.buyer
  | .sell ctx _ _ => ctx.seller
  | .withdraw ctx => ctx.withdrawer

/-- The token accounts that are opened if they are missing. -/
def inits : Instruction → List Pubkey
  | .init_main_state ctx => [ctx.fee_quote_ata]
  | .transfer_ownership _ _ => []
  | .update_main_state ctx _ => [ctx.fee_quote_ata]
  | .create_pool ctx => [ctx.reserver_base_ata, ctx.reserver_quote_ata]
  | .buy_tokens_from_exact_quote ctx _ _ =>
    [ctx.fee_quote_ata, ctx.buyer_base_ata, ctx.buyer_quote_ata]
  | .buy_exact_tokens_from_quote ctx _ _ =>
    [ctx.fee_quote_ata, ctx.buyer_base_ata, ctx.buyer_quote_ata]
  | .sell ctx _ _ => [ctx.fee_quote_ata, ctx.seller_quote_ata]
  | .withdraw ctx => [ctx.withdrawer_base_ata, ctx.withdrawer_quote_ata]

/-- The token accounts an instruction names. -/
def accounts : Instruction → List Pubkey
  | .init_main_state ctx => [ctx.fee_quote_ata]
  | .transfer_ownership _ _ => []
  | .update_main_state ctx _ => [ctx.fee_quote_ata]
  | .create_pool ctx => [ctx.creator_base_ata, ctx.reserver_base_ata, ctx.reserver_quote_ata]
  | .buy_tokens_from_exact_quote ctx _ _ =>
    [ctx.fee_quote_ata, ctx.buyer_base_ata, ctx.buyer_quote_ata, ctx.reserver_base_ata,
      ctx.reserver_quote_ata]
  | .buy_exact_tokens_from_quote ctx _ _ =>
    [ctx.fee_quote_ata, ctx.buyer_base_ata, ctx.buyer_quote_ata, ctx.reserver_base_ata,
      ctx.reserver_quote_ata]
  | .sell ctx _ _ =>
    [ctx.fee_quote_ata, ctx.seller_base_ata, ctx.seller_quote_ata, ctx.reserver_base_ata,
      ctx.reserver_quote_ata]
  | .withdraw ctx =>
    [ctx.withdrawer_base_ata, ctx.withdrawer_quote_ata, ctx.reserver_base_ata,
      ctx.reserver_quote_ata]

end Instruction

namespace Action

def pool : Action → Option Pubkey
  | .ix i => i.pool
  | _ => none

def withdrawn : Action → Option Pubkey
  | .ix i => i.withdrawn
  | _ => none

/-- The token accounts that exist afterwards, opened if they were missing. -/
def inits : Action → List Pubkey
  | .ix i => i.inits
  | .create_ata owner mint => [.ata owner mint]
  | .create_account bytes _ _ => [.key bytes]
  | _ => []

/-- The token accounts an action names. -/
def accounts : Action → List Pubkey
  | .ix i => i.accounts
  | .token_transfer _ source destination _ => [source, destination]
  | .create_ata owner mint => [.ata owner mint]
  | .create_account bytes _ _ => [.key bytes]
  | .tick _ => []

/-- Who signs, if somebody has to. -/
def signer : Action → Option Pubkey
  | .ix i => some i.signer.1
  | .token_transfer authority _ _ _ => some authority.1
  | _ => none

/-- Only a signer signs. -/
theorem signer_is_signer {a : Action} {x : Pubkey} (h : a.signer = some x) :
    x.is_signer = true := by
  cases a with
  | ix i =>
    rw [signer, Option.some.injEq] at h
    rw [← h]
    exact i.signer.2
  | token_transfer authority s d n =>
    rw [signer, Option.some.injEq] at h
    rw [← h]
    exact authority.2
  | _ => cases h

/-- A pool signs for nothing itself. -/
theorem signer_ne_poolState (a : Action) (b q : Pubkey) : a.signer ≠ some (.poolState b q) := by
  cases a with
  | ix i =>
    exact fun h => i.signer.ne_poolState b q (Option.some_inj.mp h)
  | token_transfer authority s d n =>
    exact fun h => authority.ne_poolState b q (Option.some_inj.mp h)
  | _ => exact fun h => by cases h

/-- No pool lives at the address of a signer. -/
theorem pool_ne_signer (a : Action) (s : Signer) : a.pool ≠ some s.1 := by
  intro h
  cases a with
  | ix i =>
    cases i with
    | init_main_state => cases h
    | transfer_ownership => cases h
    | update_main_state => cases h
    | _ => exact s.poolState_ne _ _ (Option.some_inj.mp h)
  | _ => cases h

/-- On whose behalf tokens can move: the signer's, and that of the pool the instruction is
about. -/
def Authorizes (a : Action) (x : Pubkey) : Prop := a.signer = some x ∨ a.pool = some x

end Action

/-! ## A sample

The counterexamples and witnesses run on these: `alice` creates a pool for `coin` under the
default main state, and `bob` has quote tokens to trade with. -/

def alice : Signer := ⟨.key 1, rfl⟩
def bob : Signer := ⟨.key 2, rfl⟩
def default_owner : Signer := ⟨DEFAULT_OWNER, rfl⟩
def coin : Pubkey := .key 3

/-- The pool of `coin`. -/
def coin_pool : Pubkey := .poolState coin QUOTE_MINT

/-- The program is initialized, and `alice` creates the pool of `coin`. -/
def opening : List Action :=
  [.ix (.init_main_state ⟨default_owner, QUOTE_MINT⟩),
    .ix (.create_pool ⟨alice, coin, QUOTE_MINT⟩)]

/-- The same with the four amounts of the main state set, and no fee. -/
def opening_with (total_supply virt_base virt_quote threshold : U64) : List Action :=
  [.ix (.init_main_state ⟨default_owner, QUOTE_MINT⟩),
    .ix (.update_main_state ⟨default_owner, QUOTE_MINT, DEFAULT_OWNER⟩ {
      withdrawer := DEFAULT_OWNER
      fee_recipient := DEFAULT_OWNER
      trading_fee := 0
      total_supply := some total_supply
      init_virt_base_reserves := some virt_base
      init_virt_quote_reserves := some virt_quote
      real_quote_threshold := some threshold }),
    .ix (.create_pool ⟨alice, coin, QUOTE_MINT⟩)]

/-- A ledger on which `opening` succeeds. -/
def launched : Ledger := .launch alice bob coin TOTAL_SUPPLY 1000000000000000000

/-- The pool that `opening` creates. -/
def coin_created : PoolState where
  owner := alice.1
  base_mint := coin
  virt_base_reserves := INIT_VIRT_BASE_RESERVE
  real_base_reserves := TOTAL_SUPPLY
  quote_mint := QUOTE_MINT
  virt_quote_reserves := INIT_VIRT_QUOTE_RESERVE
  real_quote_reserves := 0
  real_quote_threshold := REAL_QUOTE_THRESHOLD
  complete := false

theorem launched_genesis : Genesis launched := Ledger.launch_genesis (by decide) _ _

/-- The ledger after the opening. -/
theorem exists_opened : ∃ l, Runs.run (step .reference) launched opening = .ok l ∧
    Reachable .reference l ∧ l.main_state = some (.initial DEFAULT_OWNER) ∧
    l.pools.lookup coin_pool = some coin_created ∧
    l.tokens.balance (.ata bob.1 QUOTE_MINT) = 1000000000000000000 := by
  obtain ⟨l, hl, hv⟩ := exists_eq_ok (x := Runs.run (step .reference) launched opening)
    (f := fun l => (l.main_state, l.pools.lookup coin_pool,
      l.tokens.balance (.ata bob.1 QUOTE_MINT)))
    (b := (some (.initial DEFAULT_OWNER), some coin_created, 1000000000000000000))
    (by decide +kernel)
  simp only [Prod.mk.injEq] at hv
  obtain ⟨hms, hp, hbal⟩ := hv
  exact ⟨l, hl, ⟨launched, opening, launched_genesis, hl⟩, hms, hp, hbal⟩

/-- A run that starts with the opening, cut after the creation. -/
theorem exists_opening (as : List Action) {p : PoolState}
    (h : (Runs.run (step .reference) launched (opening ++ as)).toOption.map
      (fun l => l.pools.lookup coin_pool) = some (some p)) :
    ∃ l₀ l₁ l, Reachable .reference l₀ ∧
      create_pool .reference ⟨alice, coin, QUOTE_MINT⟩ l₀ = .ok l₁ ∧ Reachable .reference l₁ ∧
      l₁.pools.lookup coin_pool = some coin_created ∧
      Runs.run (step .reference) l₁ as = .ok l ∧ l.pools.lookup coin_pool = some p := by
  obtain ⟨l, hl, hp⟩ := exists_eq_ok h
  obtain ⟨l₁, hl₁, has⟩ := Runs.run_append.mp hl
  obtain ⟨l₁', hl₁', hreach, -, hp₁, -⟩ := exists_opened
  obtain rfl := Except.ok.inj (hl₁.symm.trans hl₁')
  simp only [opening, Runs.run_cons, Runs.run_nil] at hl₁
  obtain ⟨l₀, hinit, l₂, hcreate, rfl⟩ := hl₁
  exact ⟨l₀, l₂, l, ⟨launched, [_], launched_genesis, Runs.run_cons.mpr ⟨l₀, hinit, rfl⟩⟩,
    hcreate, hreach, hp₁, has, hp⟩

end AliPumpFun
