/-
The reserves of a pool are backed by tokens, and therefore no payment out of a pool is
ever refused for lack of them.

The bounds are part of the invariant. What is left is to go through the handlers once
more, this time for what they can fail with (`Spares`): a payment out of a reserve
account is made after payments that took nothing out of it, or no more than was left for
them, so the account still has the amount.
-/
import AliPumpFun.Invariant

set_option autoImplicit false

open Words Fallible

namespace AliPumpFun

variable {spl : TokenProgram Pubkey} {l l' : Ledger} {a : Action}

/-! ## What is outside -/

/-- The accounts of a pool's base mint other than its reserve account. -/
def PoolState.elsewhere (p : PoolState) : Pubkey → Pubkey → Pubkey → Bool :=
  fun k m _ => m = p.base_mint ∧ k ≠ p.reserver_base_ata

/-- What is not in the reserve account is outside. -/
theorem PoolInv.elsewhere_le {p : PoolState} (hpi : PoolInv l p) (hinv : Inv l) :
    l.tokens.holdings p.elsewhere ≤ l.supply p.base_mint - p.real_base_reserves.toNat := by
  obtain ⟨n, hn⟩ := hinv.ata.exists_lookup hpi.reserver_base
  have hsum := Bank.holdings_add_le (b := l.tokens) (P := p.elsewhere)
    (Q := fun k m _ => k = p.reserver_base_ata ∧ m = p.base_mint) (R := Bank.ofMint p.base_mint)
    (by simp +contextual [PoolState.elsewhere, Bank.ofMint])
    (by simp +contextual [Bank.ofMint])
    (by simp +contextual [PoolState.elsewhere])
  rw [Bank.holdings_key_mint (k := p.reserver_base_ata) (m := p.base_mint) hn rfl] at hsum
  have htotal : l.tokens.total p.base_mint = l.supply p.base_mint := hinv.conserved _
  have hback := hpi.backed_base
  rw [Bank.total] at htotal
  omega

/-- Mints are never touched. -/
theorem run_mints {as : List Action} (hinv : Inv l) (h : Runs.run (step spl) l as = .ok l') :
    l'.mints = l.mints := by
  have key : Inv l' ∧ l'.mints = l.mints :=
    Runs.run_preserves (P := fun m => Inv m ∧ m.mints = l.mints)
      (fun hm hstep => ⟨hm.1.step hstep, (step_frame hm.1.ata hstep).mints.trans hm.2⟩)
      ⟨hinv, rfl⟩ h
  exact key.2

/-- A pool was created in the run that led to it. -/
theorem exists_creation {g : Ledger} {as : List Action} (hg : Genesis g)
    (hrun : Runs.run (step spl) g as = .ok l) {k : Pubkey} (hk : k ∈ l.pools) :
    ∃ done ctx rest l₀ l₁, as = done ++ .ix (.create_pool ctx) :: rest ∧ ctx.pool_state = k ∧
      Runs.run (step spl) g done = .ok l₀ ∧ create_pool spl ctx l₀ = .ok l₁ ∧
      Runs.run (step spl) l₁ rest = .ok l := by
  refine Runs.run_induction (P := fun as m => k ∈ m.pools →
    ∃ done ctx rest l₀ l₁, as = done ++ .ix (.create_pool ctx) :: rest ∧ ctx.pool_state = k ∧
      Runs.run (step spl) g done = .ok l₀ ∧ create_pool spl ctx l₀ = .ok l₁ ∧
      Runs.run (step spl) l₁ rest = .ok m) ?_ ?_ hrun hk
  · intro h
    rw [hg.no_pools] at h
    exact absurd h Finmap.notMem_empty
  · intro done m a m' hdone ih hstep h
    obtain ⟨p', hp'⟩ := Finmap.mem_iff.mp h
    rcases step_pool (hg.inv.run hdone) hstep hp' with ⟨ctx, ms, mint, rfl, hk', -, -⟩ | ⟨p, hp, -⟩
    · exact ⟨done, ctx, [], m, m', rfl, hk', hdone, hstep, rfl⟩
    · obtain ⟨d, ctx, rest, l₀, l₁, rfl, hk', hl₀, hcreate, hrest⟩ :=
        ih (Finmap.mem_of_lookup_eq_some hp)
      exact ⟨d, ctx, rest ++ [a], l₀, l₁, by simp, hk', hl₀, hcreate,
        Runs.run_snoc.mpr ⟨m, hrest, hstep⟩⟩

/-! ## What the handlers fail with

`Spares x` is any failure but that of a payment which the account `x` cannot fund. -/

/-- Anything but a lack of funds at `x`. -/
def Spares (x : Pubkey) (e : Error) : Prop := e ≠ .token x .insufficientFunds

section Spares

variable {x : Pubkey} {t : Bank Pubkey}

theorem spares_unwrap {α : Type} {o : Option α} : ErrorsIn (Spares x) (unwrap o) :=
  errorsIn_getOrError (by rintro ⟨⟩)

theorem spares_require {c : Prop} [Decidable c] {e : PumpFunError} :
    ErrorsIn (Spares x) (require c e) := errorsIn_require fun _ => by rintro ⟨⟩

theorem spares_constraint {c : Prop} [Decidable c] {e : AccountError} :
    ErrorsIn (Spares x) (constraint c e) := errorsIn_require fun _ => by rintro ⟨⟩

theorem spares_load {α : Type} {o : Option α} : ErrorsIn (Spares x) (load o) :=
  errorsIn_getOrError (by rintro ⟨⟩)

theorem spares_associated_token {o m : Pubkey} :
    ErrorsIn (Spares x) (associated_token t o m) :=
  errorsIn_bind spares_load fun _ _ => errorsIn_bind spares_constraint fun _ _ => errorsIn_pure

/-- A payment out of an account that has the amount is not refused for lack of it. -/
theorem spares_transfer {s d authority : Pubkey} {n : U64}
    (h : s = x → n.toNat ≤ t.balance x) : ErrorsIn (Spares x) (transfer spl t s d authority n) := by
  rintro e he rfl
  unfold transfer at he
  cases ht : spl.transfer t s d authority n with
  | ok t' =>
    rw [ht] at he
    cases he
  | error e' =>
    rw [ht] at he
    obtain ⟨rfl, rfl⟩ := Error.token.inj (Except.error.inj he)
    have := spl.transfer_insufficient ht
    have := h rfl
    omega

/-- Opening other accounts says nothing about `x`. -/
theorem spares_init_ata {o m : Pubkey} (h : .ata o m ≠ x) :
    ErrorsIn (Spares x) (init_ata spl t o m) := by
  rintro e he rfl
  unfold init_ata at he
  cases ht : spl.create t (.ata o m) o m with
  | ok t' =>
    rw [ht] at he
    cases he
  | error e' =>
    rw [ht] at he
    exact h (Error.token.inj (Except.error.inj he)).1

/-- An account that exists is not opened. -/
theorem spares_init_ata_if_needed {o m : Pubkey} (h : x ∈ t) :
    ErrorsIn (Spares x) (init_ata_if_needed spl t o m) := by
  unfold init_ata_if_needed
  split
  · rename_i hnone
    refine spares_init_ata ?_
    rintro rfl
    exact Finmap.lookup_eq_none.mp hnone h
  · exact errorsIn_bind spares_constraint fun _ _ =>
      errorsIn_bind spares_constraint fun _ _ => errorsIn_pure

theorem mem_of_init_ata_if_needed {t' : Bank Pubkey} {o m : Pubkey} (h : x ∈ t)
    (ht : init_ata_if_needed spl t o m = .ok t') : x ∈ t' := by
  rcases init_ata_if_needed_eq_ok.mp ht with ⟨-, rfl⟩ | ⟨-, rfl⟩
  · exact Finmap.mem_insert.mpr (.inr h)
  · exact h

/-! The decisions never call the token program. -/

theorem spares_calculate_trading_fee {fee n : U64} :
    ErrorsIn (Spares x) (calculate_trading_fee fee n) :=
  errorsIn_bind spares_unwrap fun _ _ => errorsIn_bind spares_unwrap fun _ _ =>
    errorsIn_bind spares_unwrap fun _ _ => errorsIn_pure

theorem spares_calculate_total_amount {fee n : U64} :
    ErrorsIn (Spares x) (calculate_total_amount fee n) :=
  errorsIn_bind spares_unwrap fun _ _ => errorsIn_bind spares_unwrap fun _ _ =>
    errorsIn_bind spares_unwrap fun _ _ => errorsIn_bind spares_unwrap fun _ _ => errorsIn_pure

theorem spares_calculate_output_amount {n i o : U64} :
    ErrorsIn (Spares x) (calculate_output_amount n i o) :=
  errorsIn_bind spares_unwrap fun _ _ => errorsIn_bind spares_unwrap fun _ _ =>
    errorsIn_bind spares_unwrap fun _ _ => errorsIn_pure

theorem spares_calculate_input_amount {n i o : U64} :
    ErrorsIn (Spares x) (calculate_input_amount n i o) :=
  errorsIn_bind spares_unwrap fun _ _ => errorsIn_bind spares_unwrap fun _ _ =>
    errorsIn_bind spares_unwrap fun _ _ => errorsIn_pure

theorem spares_quote_with_totals {calculate : U64 → U64 → U64 → Result U64}
    (h : ∀ n i o, ErrorsIn (Spares x) (calculate n i o)) {n vi ri vo ro : U64} :
    ErrorsIn (Spares x) (quote_with_totals calculate n vi ri vo ro) :=
  errorsIn_bind spares_unwrap fun _ _ => errorsIn_bind spares_unwrap fun _ _ => h _ _ _

theorem spares_update_amount {current : U64} {input : Option U64} {e : PumpFunError} :
    ErrorsIn (Spares x) (update_amount current input e) := by
  cases input with
  | none => exact errorsIn_pure
  | some value => exact errorsIn_bind spares_require fun _ _ => errorsIn_pure

variable {ms : MainState} {p : PoolState}

theorem spares_compute_receivable_amount_on_buy {n : U64} :
    ErrorsIn (Spares x) (p.compute_receivable_amount_on_buy n) :=
  spares_quote_with_totals fun _ _ _ => spares_calculate_output_amount

theorem spares_price_exact_quote {q m : U64} :
    ErrorsIn (Spares x) (price_exact_quote ms p q m) := by
  refine errorsIn_bind spares_require fun _ _ => errorsIn_bind spares_require fun _ _ =>
    errorsIn_bind ?_ fun _ _ => ?_
  · refine errorsIn_bind spares_calculate_trading_fee fun _ _ =>
      errorsIn_bind spares_unwrap fun _ _ => errorsIn_bind spares_unwrap fun _ _ => ?_
    split
    · exact errorsIn_bind spares_unwrap fun _ _ =>
        errorsIn_bind spares_calculate_total_amount fun _ _ =>
          errorsIn_bind spares_calculate_trading_fee fun _ _ => errorsIn_pure
    · exact errorsIn_pure
  · exact errorsIn_bind spares_unwrap fun _ _ =>
      errorsIn_bind spares_compute_receivable_amount_on_buy fun _ _ =>
        errorsIn_bind spares_require fun _ _ => errorsIn_bind spares_unwrap fun _ _ =>
          errorsIn_bind spares_unwrap fun _ _ => errorsIn_pure

theorem spares_price_exact_tokens {b m : U64} :
    ErrorsIn (Spares x) (price_exact_tokens ms p b m) := by
  refine errorsIn_bind spares_require fun _ _ => errorsIn_bind spares_require fun _ _ =>
    errorsIn_bind ?_ fun _ _ => ?_
  · refine errorsIn_bind (spares_quote_with_totals fun _ _ _ => spares_calculate_input_amount)
      fun _ _ => errorsIn_bind spares_unwrap fun _ _ => ?_
    split
    · exact errorsIn_bind spares_unwrap fun _ _ =>
        errorsIn_bind spares_compute_receivable_amount_on_buy fun _ _ => errorsIn_pure
    · exact errorsIn_pure
  · exact errorsIn_bind spares_calculate_total_amount fun _ _ =>
      errorsIn_bind spares_calculate_trading_fee fun _ _ =>
        errorsIn_bind spares_require fun _ _ => errorsIn_bind spares_unwrap fun _ _ =>
          errorsIn_bind spares_unwrap fun _ _ => errorsIn_pure

theorem spares_price_sell {s m : U64} : ErrorsIn (Spares x) (price_sell ms p s m) :=
  errorsIn_bind spares_require fun _ _ => errorsIn_bind spares_require fun _ _ =>
    errorsIn_bind (spares_quote_with_totals fun _ _ _ => spares_calculate_output_amount)
      fun _ _ => errorsIn_bind spares_calculate_trading_fee fun _ _ =>
        errorsIn_bind spares_unwrap fun _ _ => errorsIn_bind spares_require fun _ _ =>
          errorsIn_bind spares_unwrap fun _ _ => errorsIn_bind spares_unwrap fun _ _ =>
            errorsIn_pure

end Spares

/-! ## The handlers -/

section Handlers

variable {x : Pubkey}

/-- A payment from another account does not lower `x`. -/
theorem balance_le_of_transfer {t t' : Bank Pubkey} {s d authority : Pubkey} {n : U64}
    (h : transfer spl t s d authority n = .ok t') (hx : s ≠ x) : t.balance x ≤ t'.balance x := by
  obtain ⟨S, D, ht⟩ := transfer_eq_ok.mp h
  have := ht.balance_eq x
  rw [if_neg hx.symm] at this
  omega

/-- A payment lowers no account by more than its amount. -/
theorem balance_le_add_of_transfer {t t' : Bank Pubkey} {s d authority : Pubkey} {n : U64}
    (h : transfer spl t s d authority n = .ok t') : t.balance x ≤ t'.balance x + n.toNat := by
  obtain ⟨S, D, ht⟩ := transfer_eq_ok.mp h
  have := ht.balance_eq x
  split_ifs at this <;> omega

theorem ABuy.spares_try_accounts {ctx : ABuy} (hx : x ∈ l.tokens) :
    ErrorsIn (Spares x) (ctx.try_accounts spl l) := by
  refine errorsIn_bind spares_load fun _ _ => errorsIn_bind spares_constraint fun _ _ =>
    errorsIn_bind spares_load fun _ _ => errorsIn_bind spares_load fun _ _ =>
    errorsIn_bind spares_constraint fun _ _ => errorsIn_bind spares_load fun _ _ =>
    errorsIn_bind spares_constraint fun _ _ => ?_
  refine errorsIn_bind (spares_init_ata_if_needed hx) fun t₁ h₁ => ?_
  have hx₁ := mem_of_init_ata_if_needed hx h₁
  refine errorsIn_bind (spares_init_ata_if_needed hx₁) fun t₂ h₂ => ?_
  have hx₂ := mem_of_init_ata_if_needed hx₁ h₂
  exact errorsIn_bind (spares_init_ata_if_needed hx₂) fun _ _ =>
    errorsIn_bind spares_associated_token fun _ _ =>
    errorsIn_bind spares_associated_token fun _ _ => errorsIn_pure

/-- The base tokens are paid out last, after payments of the buyer only. -/
theorem spares_buy_finalize {ctx : ABuy} {t : Bank Pubkey} {c : Purchase}
    (hbuyer : ctx.buyer_quote_ata ≠ x)
    (hbase : ctx.reserver_base_ata = x → c.base_amount.toNat ≤ t.balance x) :
    ErrorsIn (Spares x) (buy_finalize spl ctx l t c) := by
  refine errorsIn_bind (spares_transfer fun h => absurd h hbuyer) fun t₁ h₁ => ?_
  refine errorsIn_bind (spares_transfer fun h => absurd h hbuyer) fun t₂ h₂ => ?_
  have hle := (balance_le_of_transfer h₁ hbuyer).trans (balance_le_of_transfer h₂ hbuyer)
  refine errorsIn_bind (spares_transfer fun h => (hbase h).trans hle) fun _ _ =>
    errorsIn_bind spares_unwrap fun _ _ => errorsIn_bind spares_unwrap fun _ _ =>
    errorsIn_bind spares_unwrap fun _ _ => ?_
  split
  · exact errorsIn_pure
  · exact errorsIn_pure

theorem ASell.spares_try_accounts {ctx : ASell} {s : U64} (hx : x ∈ l.tokens) :
    ErrorsIn (Spares x) (ctx.try_accounts spl s l) := by
  refine errorsIn_bind spares_load fun _ _ => errorsIn_bind spares_constraint fun _ _ =>
    errorsIn_bind spares_load fun _ _ => errorsIn_bind spares_load fun _ _ =>
    errorsIn_bind spares_constraint fun _ _ => errorsIn_bind spares_load fun _ _ =>
    errorsIn_bind spares_constraint fun _ _ => ?_
  refine errorsIn_bind (spares_init_ata_if_needed hx) fun t₁ h₁ => ?_
  have hx₁ := mem_of_init_ata_if_needed hx h₁
  exact errorsIn_bind spares_associated_token fun _ _ => errorsIn_bind spares_require fun _ _ =>
    errorsIn_bind (spares_init_ata_if_needed hx₁) fun _ _ =>
    errorsIn_bind spares_associated_token fun _ _ =>
    errorsIn_bind spares_associated_token fun _ _ => errorsIn_pure

theorem AWithdraw.spares_try_accounts {ctx : AWithdraw} (hx : x ∈ l.tokens) :
    ErrorsIn (Spares x) (ctx.try_accounts spl l) := by
  refine errorsIn_bind spares_load fun _ _ => errorsIn_bind spares_constraint fun _ _ =>
    errorsIn_bind spares_load fun _ _ => errorsIn_bind spares_load fun _ _ =>
    errorsIn_bind spares_constraint fun _ _ => errorsIn_bind spares_load fun _ _ =>
    errorsIn_bind spares_constraint fun _ _ => errorsIn_bind spares_associated_token fun _ _ =>
    errorsIn_bind spares_associated_token fun _ _ => ?_
  refine errorsIn_bind (spares_init_ata_if_needed hx) fun t₁ h₁ => ?_
  exact errorsIn_bind (spares_init_ata_if_needed (mem_of_init_ata_if_needed hx h₁)) fun _ _ =>
    errorsIn_pure

/-! ## The instructions

No account of a signer is `x`, since a pool does not sign; and a pool that is being created
is not the pool `x` belongs to. -/

theorem spares_init_main_state {ctx : AInitMainState}
    (hsigner : ∀ (s : Signer) (m : Pubkey), Pubkey.ata s.1 m ≠ x) :
    ErrorsIn (Spares x) (init_main_state spl ctx l) :=
  errorsIn_bind spares_require fun _ _ => errorsIn_bind spares_constraint fun _ _ =>
    errorsIn_bind spares_load fun _ _ => errorsIn_bind spares_require fun _ _ =>
    errorsIn_bind (spares_init_ata (hsigner _ _)) fun _ _ => errorsIn_pure

theorem spares_transfer_ownership {ctx : ATransferOwnership} {new_owner : Pubkey} :
    ErrorsIn (Spares x) (transfer_ownership ctx new_owner l) :=
  errorsIn_bind spares_load fun _ _ => errorsIn_bind spares_constraint fun _ _ =>
    errorsIn_bind spares_require fun _ _ => errorsIn_pure

theorem spares_update_main_state {ctx : AUpdateMainState} {input : UpdateMainStateInput}
    (hx : x ∈ l.tokens) : ErrorsIn (Spares x) (update_main_state spl ctx input l) :=
  errorsIn_bind spares_load fun _ _ => errorsIn_bind spares_constraint fun _ _ =>
    errorsIn_bind spares_load fun _ _ => errorsIn_bind spares_require fun _ _ =>
    errorsIn_bind spares_constraint fun _ _ =>
    errorsIn_bind (spares_init_ata_if_needed hx) fun _ _ =>
    errorsIn_bind spares_require fun _ _ => errorsIn_bind spares_update_amount fun _ _ =>
    errorsIn_bind spares_update_amount fun _ _ => errorsIn_bind spares_update_amount fun _ _ =>
    errorsIn_bind spares_update_amount fun _ _ => errorsIn_pure

/-- The only payment of a creation is the creator's. -/
theorem spares_create_pool {ctx : ACreatePool}
    (hsigner : ∀ (s : Signer) (m : Pubkey), Pubkey.ata s.1 m ≠ x)
    (hold : ∀ m, x = .ata ctx.pool_state m → ctx.pool_state ∈ l.pools) :
    ErrorsIn (Spares x) (create_pool spl ctx l) := by
  refine errorsIn_bind spares_load fun _ _ => errorsIn_bind spares_constraint fun _ hnew => ?_
  rw [constraint_eq_ok] at hnew
  have hne : ∀ m, Pubkey.ata ctx.pool_state m ≠ x := by
    intro m hm
    exact hnew (hold m hm.symm)
  exact errorsIn_bind spares_load fun _ _ => errorsIn_bind spares_require fun _ _ =>
    errorsIn_bind spares_load fun _ _ => errorsIn_bind spares_require fun _ _ =>
    errorsIn_bind spares_associated_token fun _ _ =>
    errorsIn_bind (spares_init_ata (hne _)) fun _ _ => errorsIn_bind spares_load fun _ _ =>
    errorsIn_bind spares_constraint fun _ _ =>
    errorsIn_bind (spares_init_ata (hne _)) fun _ _ => errorsIn_bind spares_require fun _ _ =>
    errorsIn_bind spares_require fun _ _ => errorsIn_bind spares_require fun _ _ =>
    errorsIn_bind spares_require fun _ _ =>
    errorsIn_bind (spares_transfer fun h => absurd h (hsigner _ _)) fun _ _ =>
    errorsIn_bind spares_unwrap fun _ _ => errorsIn_pure

/-- Both buys, whatever they decide. -/
theorem spares_buy {ctx : ABuy} (hinv : Inv l) (hx : x ∈ l.tokens)
    (hsigner : ∀ (s : Signer) (m : Pubkey), Pubkey.ata s.1 m ≠ x)
    {price : MainState → PoolState → Result Purchase}
    (hprice : ∀ ms p, ErrorsIn (Spares x) (price ms p))
    (hbuys : ∀ {ms p c}, ctx.Accepts l ms p → price ms p = .ok c → c.Buys p) :
    ErrorsIn (Spares x) (do
      let (ms, p, t) ← ctx.try_accounts spl l
      let c ← price ms p
      buy_finalize spl ctx l t c) := by
  refine errorsIn_bind (ctx.spares_try_accounts hx) ?_
  rintro ⟨ms, p, t⟩ htry
  obtain ⟨ha, rfl⟩ := (ABuy.try_accounts_eq_ok hinv.ata).mp htry
  refine errorsIn_bind (hprice ms p) fun c hc => ?_
  refine spares_buy_finalize (hsigner _ _) fun h => ?_
  rw [balance_ensured, ← h]
  exact (hbuys ha hc).base_le hinv ha

/-- Both payments out of the pool together are the gross amount, which backs them. -/
theorem spares_sell {ctx : ASell} {s n : U64} (hinv : Inv l) (hx : x ∈ l.tokens)
    (hsigner : ∀ (s : Signer) (m : Pubkey), Pubkey.ata s.1 m ≠ x) :
    ErrorsIn (Spares x) (sell spl ctx s n l) := by
  refine errorsIn_bind (ctx.spares_try_accounts hx) ?_
  rintro ⟨ms, p, t⟩ htry
  obtain ⟨ha, rfl⟩ := (ASell.try_accounts_eq_ok hinv.ata).mp htry
  refine errorsIn_bind spares_price_sell fun c hc => ?_
  have hsell := hinv.sell ha hc
  have hgross : ctx.reserver_quote_ata = x →
      c.fee.toNat + c.output_amount.toNat ≤ l.tokens.balance x := by
    rintro rfl
    have h1 := hsell.moves.quote
    have h2 := (hinv.pools _ p ha.pool_state).backed_quote
    rw [hsell.output, ha.reserver_quote_ata]
    omega
  -- the seller's tokens first, then the fee, then the output
  refine errorsIn_bind (spares_transfer fun h => absurd h (hsigner _ _)) fun t₁ h₁ => ?_
  have hle := balance_le_of_transfer h₁ (hsigner ctx.seller ctx.base_mint)
  rw [balance_ensured] at hle
  refine errorsIn_bind (spares_transfer fun h => by have := hgross h; omega) fun t₂ h₂ => ?_
  have hle' := balance_le_add_of_transfer (x := x) h₂
  exact errorsIn_bind (spares_transfer fun h => by have := hgross h; omega) fun _ _ =>
    errorsIn_bind spares_unwrap fun _ _ => errorsIn_bind spares_unwrap fun _ _ => errorsIn_pure

/-- A withdrawal pays each reserve out of its own account. -/
theorem spares_withdraw {ctx : AWithdraw} (hinv : Inv l) (hx : x ∈ l.tokens) :
    ErrorsIn (Spares x) (withdraw spl ctx l) := by
  refine errorsIn_bind (ctx.spares_try_accounts hx) ?_
  rintro ⟨p, t⟩ htry
  obtain ⟨ha, rfl⟩ := (AWithdraw.try_accounts_eq_ok hinv.ata).mp htry
  have hpi := hinv.pools _ p ha.pool_state
  have hbase := hpi.backed_base
  have hquote := hpi.backed_quote
  rw [← ha.reserver_base_ata] at hbase
  rw [← ha.reserver_quote_ata] at hquote
  refine errorsIn_bind spares_require fun _ _ => errorsIn_bind spares_require fun _ _ => ?_
  refine errorsIn_bind (spares_transfer ?_) fun t₁ h₁ => errorsIn_bind (spares_transfer ?_)
    fun _ _ => errorsIn_pure
  · rintro rfl
    rw [balance_ensured]
    exact hbase
  · rintro rfl
    -- the first payment came out of the other account
    have hle := balance_le_of_transfer h₁ (ha.reserves_ne hpi.pair)
    rw [balance_ensured] at hle
    exact hquote.trans hle

/-- **No instruction fails for lack of funds in a pool's account.** -/
theorem Inv.spares {k m : Pubkey} {p : PoolState} (hinv : Inv l)
    (hp : l.pools.lookup k = some p) (hk : x = .ata k m) (hx : x ∈ l.tokens)
    (i : Instruction) : ErrorsIn (Spares x) (i.execute spl l) := by
  have hsigner : ∀ (s : Signer) (m' : Pubkey), Pubkey.ata s.1 m' ≠ x := by
    intro s m'
    rw [hk, hinv.address k p hp]
    simp [PoolState.address]
  cases i with
  | init_main_state ctx => exact spares_init_main_state hsigner
  | transfer_ownership ctx new_owner => exact spares_transfer_ownership
  | update_main_state ctx input => exact spares_update_main_state hx
  | create_pool ctx =>
    refine spares_create_pool hsigner fun m' hm => ?_
    rw [← (Pubkey.ata.inj (hk.symm.trans hm)).1]
    exact Finmap.mem_of_lookup_eq_some hp
  | buy_tokens_from_exact_quote ctx q n =>
    exact spares_buy hinv hx hsigner (fun _ _ => spares_price_exact_quote)
      fun ha hc => (hinv.exact_quote ha hc).buys
  | buy_exact_tokens_from_quote ctx b n =>
    exact spares_buy hinv hx hsigner (fun _ _ => spares_price_exact_tokens)
      fun ha hc => (hinv.exact_tokens ha hc).buys
  | sell ctx s n => exact spares_sell hinv hx hsigner
  | withdraw ctx => exact spares_withdraw hinv hx

end Handlers

/-- **The reserves of a pool are backed.** In every run of any actions the reserve accounts
hold at least the reserves, the base tokens elsewhere are at most what is not in reserve of
the supply the pool was created with, and no instruction fails for lack of funds in either
account. -/
theorem reserves_backed (spl : TokenProgram Pubkey) {g l : Ledger} {as : List Action} {k : Pubkey}
    {p : PoolState} (hg : Genesis g) (hrun : Runs.run (step spl) g as = .ok l)
    (hp : l.pools.lookup k = some p) :
    (p.real_base_reserves.toNat ≤ l.tokens.balance p.reserver_base_ata ∧
      p.real_quote_reserves.toNat ≤ l.tokens.balance p.reserver_quote_ata) ∧
    (∃ done ctx rest l₀ ms, as = done ++ .ix (.create_pool ctx) :: rest ∧ ctx.pool_state = k ∧
      Runs.run (step spl) g done = .ok l₀ ∧ l₀.main_state = some ms ∧
      l.tokens.holdings p.elsewhere ≤
        ms.total_supply.toNat - p.real_base_reserves.toNat) ∧
    ∀ (i : Instruction) (x : Pubkey), x = p.reserver_base_ata ∨ x = p.reserver_quote_ata →
      i.execute spl l ≠ .error (.token x .insufficientFunds) := by
  have hinv := hg.inv.run hrun
  have hpi := hinv.pools k p hp
  have haddr := hinv.address k p hp
  refine ⟨⟨hpi.backed_base, hpi.backed_quote⟩, ?_, ?_⟩
  · obtain ⟨done, ctx, rest, l₀, l₁, has, hk, hl₀, hcreate, hrest⟩ :=
      exists_creation hg hrun (Finmap.mem_of_lookup_eq_some hp)
    have hinv₀ := hg.inv.run hl₀
    obtain ⟨ms, mint, hc⟩ := (create_pool_eq_ok hinv₀.ata).mp hcreate
    have hinv₁ := hinv₀.step (a := .ix (.create_pool ctx)) hcreate
    refine ⟨done, ctx, rest, l₀, ms, has, hk, hl₀, hc.accepts.main_state, ?_⟩
    -- the supply has not changed since
    have hb : ctx.base_mint = p.base_mint := (Pubkey.poolState.inj (hk.trans haddr)).1
    have hsupply : l.supply p.base_mint = ms.total_supply.toNat := by
      rw [Ledger.supply, run_mints hinv₁ hrest, hc.settles.mints, ← hb, hc.accepts.base_mint]
      exact congrArg BitVec.toNat hc.accepts.total_supply
    rw [← hsupply]
    exact hpi.elsewhere_le hinv
  · rintro i x (rfl | rfl) he
    · exact hinv.spares hp (m := p.base_mint) (by rw [haddr]; rfl) hpi.reserver_base i _ he rfl
    · exact hinv.spares hp (m := p.quote_mint) (by rw [haddr]; rfl) hpi.reserver_quote i _ he rfl

/-- `bob` buys from the default pool, sends quote tokens to it, sells, and sends base tokens to
it. Its reserves are backed, and no instruction finds its quote account short. -/
theorem reserves_backed_sample : ∃ l p,
    Runs.run (step .reference) launched (opening ++ [
      .ix (.buy_tokens_from_exact_quote ⟨bob, DEFAULT_OWNER, coin, QUOTE_MINT⟩ 1000000 0),
      .token_transfer bob (.ata bob.1 QUOTE_MINT) (.ata coin_pool QUOTE_MINT) 5,
      .ix (.sell ⟨bob, DEFAULT_OWNER, coin, QUOTE_MINT⟩ 1000000 0),
      .token_transfer bob (.ata bob.1 coin) (.ata coin_pool coin) 7]) = .ok l ∧
    l.pools.lookup coin_pool = some p ∧ p.real_quote_reserves = 980625 ∧
    p.real_base_reserves.toNat ≤ l.tokens.balance p.reserver_base_ata ∧
    p.real_quote_reserves.toNat ≤ l.tokens.balance p.reserver_quote_ata ∧
    ∀ i : Instruction,
      i.execute .reference l ≠ .error (.token p.reserver_quote_ata .insufficientFunds) := by
  obtain ⟨l, hl, hp⟩ := exists_eq_ok (f := fun l => l.pools.lookup coin_pool)
    (b := some { coin_created with
      real_base_reserves := 999999895400011
      real_quote_reserves := 980625 })
    (x := Runs.run (step .reference) launched (opening ++ [
      .ix (.buy_tokens_from_exact_quote ⟨bob, DEFAULT_OWNER, coin, QUOTE_MINT⟩ 1000000 0),
      .token_transfer bob (.ata bob.1 QUOTE_MINT) (.ata coin_pool QUOTE_MINT) 5,
      .ix (.sell ⟨bob, DEFAULT_OWNER, coin, QUOTE_MINT⟩ 1000000 0),
      .token_transfer bob (.ata bob.1 coin) (.ata coin_pool coin) 7])) (by decide +kernel)
  obtain ⟨⟨hbase, hquote⟩, -, hspares⟩ := reserves_backed .reference launched_genesis hl hp
  exact ⟨l, _, hl, hp, rfl, hbase, hquote, fun i => hspares i _ (.inr rfl)⟩

end AliPumpFun
