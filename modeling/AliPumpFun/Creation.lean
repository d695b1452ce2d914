/-
Who can keep a pool from being created.

A creator that passes the checks of `create_pool` keeps passing them, whatever the others
do: nobody else can move the supply, create the pool or change the main state. What the
others can do is open the two accounts that `create_pool` opens with `init`. So the
creation goes through exactly when these two are still missing.
-/
import AliPumpFun.Invariant

set_option autoImplicit false

open Words Fallible

namespace AliPumpFun

variable {spl : TokenProgram Pubkey} {l l' : Ledger} {a : Action}

/-! ## Which accounts exist -/

theorem Settles.mem_tokens {os : List (Pubkey × Pubkey)} {ps : List (Payment Pubkey)} {k : Pubkey}
    {p : PoolState} {es : List Event} (h : Settles (ensured l.tokens os) ps k p es l l')
    (x : Pubkey) : x ∈ l'.tokens ↔ x ∈ l.tokens ∨ ∃ om ∈ os, x = .ata om.1 om.2 := by
  rw [h.paid.mem_iff, mem_ensured]

theorem Bought.mem_tokens {ctx : ABuy} {ms : MainState} {p : PoolState} {c : Purchase}
    (h : Bought ctx l l' ms p c) (x : Pubkey) : x ∈ l'.tokens ↔
      x ∈ l.tokens ∨ x ∈ [ctx.fee_quote_ata, ctx.buyer_base_ata, ctx.buyer_quote_ata] := by
  rw [h.settles.mem_tokens]
  simp [ABuy.opens, ABuy.fee_quote_ata, ABuy.buyer_base_ata, ABuy.buyer_quote_ata]

/-- An instruction that succeeds leaves the accounts that were there and those it opens. -/
theorem Instruction.mem_tokens {i : Instruction} (hwf : AtaWf l.tokens)
    (h : i.execute spl l = .ok l') (x : Pubkey) :
    x ∈ l'.tokens ↔ x ∈ l.tokens ∨ x ∈ i.inits := by
  cases i with
  | init_main_state ctx =>
    obtain ⟨-, rfl⟩ := init_main_state_eq_ok.mp h
    rw [Ledger.configured, mem_ensure, inits, List.mem_singleton]
    rfl
  | transfer_ownership ctx new_owner =>
    obtain ⟨ms, -, -, -, rfl⟩ := transfer_ownership_eq_ok.mp h
    simp [Ledger.configured, inits]
  | update_main_state ctx input =>
    obtain ⟨ms, ms', -, rfl⟩ := (update_main_state_eq_ok hwf).mp h
    rw [Ledger.configured, mem_ensure, inits, List.mem_singleton]
    rfl
  | create_pool ctx =>
    obtain ⟨ms, mint, hc⟩ := (create_pool_eq_ok hwf).mp h
    rw [hc.settles.mem_tokens]
    simp [ACreatePool.opens, inits, ACreatePool.reserver_base_ata, ACreatePool.reserver_quote_ata]
  | buy_tokens_from_exact_quote ctx q m =>
    obtain ⟨ms, p, c, -, hb⟩ := (buy_tokens_from_exact_quote_eq_ok hwf).mp h
    exact hb.mem_tokens x
  | buy_exact_tokens_from_quote ctx b m =>
    obtain ⟨ms, p, c, -, hb⟩ := (buy_exact_tokens_from_quote_eq_ok hwf).mp h
    exact hb.mem_tokens x
  | sell ctx s m =>
    obtain ⟨ms, p, c, -, hs⟩ := (sell_eq_ok hwf).mp h
    rw [hs.settles.mem_tokens]
    simp [ASell.opens, inits, ASell.fee_quote_ata, ASell.seller_quote_ata]
  | withdraw ctx =>
    obtain ⟨p, hw⟩ := (withdraw_eq_ok hwf).mp h
    rw [hw.settles.mem_tokens]
    simp [AWithdraw.opens, inits, AWithdraw.withdrawer_base_ata, AWithdraw.withdrawer_quote_ata]

theorem step_mem_tokens (hwf : AtaWf l.tokens) (h : step spl l a = .ok l') (x : Pubkey) :
    x ∈ l'.tokens ↔ x ∈ l.tokens ∨ x ∈ a.inits := by
  cases a with
  | ix i => exact Instruction.mem_tokens hwf h x
  | token_transfer authority s d n =>
    simp only [step, bind_eq_ok, transfer_eq_ok, pure_eq_ok] at h
    obtain ⟨t, ⟨S, D, ht⟩, rfl⟩ := h
    rw [ht.mem_iff]
    simp [Action.inits]
  | create_ata owner mint =>
    simp only [step, bind_eq_ok, load_eq_ok, init_ata_eq_ensure, pure_eq_ok] at h
    obtain ⟨-, -, t, ⟨-, rfl⟩, rfl⟩ := h
    rw [mem_ensure, Action.inits, List.mem_singleton]
  | create_account bytes owner mint =>
    simp only [step, bind_eq_ok, load_eq_ok, mapError_eq_ok, spl.create_eq_ok, pure_eq_ok] at h
    obtain ⟨-, -, t, ⟨-, rfl⟩, rfl⟩ := h
    rw [Bank.opened, Finmap.mem_insert, Action.inits, List.mem_singleton, or_comm]
  | tick ts =>
    obtain rfl := pure_eq_ok.mp h
    simp [Action.inits]

/-- The accounts after a run are those before it and those some action opens. -/
theorem run_mem_tokens {as : List Action} (hinv : Inv l) (h : Runs.run (step spl) l as = .ok l')
    (x : Pubkey) : x ∈ l'.tokens ↔ x ∈ l.tokens ∨ ∃ a ∈ as, x ∈ a.inits := by
  refine Runs.run_induction (P := fun as m => x ∈ m.tokens ↔ x ∈ l.tokens ∨ ∃ a ∈ as, x ∈ a.inits)
    ?_ ?_ h
  · simp
  · intro done m a m' hdone ih hstep
    rw [step_mem_tokens (hinv.run hdone).ata hstep, ih, or_assoc]
    simp [or_and_right, exists_or]

/-! ## When a creation succeeds -/

/-- With its checks passed, `create_pool` fails only on the two accounts it opens and on the
sum in its event. -/
theorem create_pool_succeeds_iff {ctx : ACreatePool} {ms : MainState} {mint : Mint} (hinv : Inv l)
    (ha : ctx.Accepts l ms mint) : (∃ l', create_pool spl ctx l = .ok l') ↔
      (ctx.reserver_base_ata ∉ l.tokens ∧ ctx.reserver_quote_ata ∉ l.tokens) ∧
        ms.total_supply.toNat + ms.init_virt_base_reserves.toNat < 2 ^ 64 := by
  constructor
  · rintro ⟨l', h⟩
    obtain ⟨ms', mint', hc⟩ := (create_pool_eq_ok hinv.ata).mp h
    obtain rfl : ms = ms' := Option.some_inj.mp (ha.main_state.symm.trans hc.accepts.main_state)
    exact ⟨⟨hc.base_new, hc.quote_new⟩, hc.fits⟩
  · rintro ⟨⟨hb, hq⟩, hfit⟩
    have hcreator : ctx.creator_base_ata ∈ ensured l.tokens ctx.opens :=
      mem_ensured.mpr (.inl (Finmap.mem_of_lookup_eq_some ha.creator_base))
    have hreserver : ctx.reserver_base_ata ∈ ensured l.tokens ctx.opens :=
      ata_mem_ensured (by simp [ACreatePool.opens, ACreatePool.pool_state])
    obtain ⟨t, ht⟩ : ∃ t, (ensured l.tokens ctx.opens).Paid (ctx.payments mint.supply) t := by
      -- the creator pays what the account was checked to hold
      refine Bank.exists_paid ?_ (hinv.total_lt ctx.opens) fun x => ?_
      · intro p hp
        rw [List.mem_singleton.mp hp]
        exact hinv.ata.ensured.payable hcreator hreserver
      · have hbal := Bank.balance_of_lookup ha.creator_base
        simp only [Bank.outgoing, ACreatePool.payments, List.map_cons, List.map_nil,
          List.sum_cons, List.sum_nil, balance_ensured]
        split
        · rename_i hx
          rw [hx, hbal]
          exact le_rfl
        · exact Nat.zero_le _
    exact ⟨{ l with
      tokens := t
      pools := l.pools.insert ctx.pool_state (ctx.initial ms)
      events := l.events ++ [.create (ctx.event ms l.unix_timestamp)] },
      (create_pool_eq_ok hinv.ata).mpr ⟨ms, mint, ha, hb, hq, hfit, ht, rfl⟩⟩

/-! ## What the others can do -/

/-- An action that neither the creator nor the owner of the main state signs. -/
structure Action.Outside (ctx : ACreatePool) (ms : MainState) (a : Action) : Prop where
  creator : a.signer ≠ some ctx.creator.1
  owner : a.signer ≠ some ms.owner

/-- Only the owner changes a main state. -/
theorem main_state_of_signer_ne {ms : MainState} (hwf : AtaWf l.tokens)
    (h : step spl l a = .ok l') (hms : l.main_state = some ms) (ha : a.signer ≠ some ms.owner) :
    l'.main_state = some ms := by
  by_cases hpool : ∀ i, a = .ix i → i.pool ≠ none
  · rw [step_main_state hwf h hpool]
    exact hms
  · push Not at hpool
    obtain ⟨i, rfl, hi⟩ := hpool
    -- the first needs that there is none, the others that the owner signs
    cases i with
    | init_main_state ctx =>
      obtain ⟨hacc, -⟩ := init_main_state_eq_ok.mp h
      rw [hacc.main_state] at hms
      cases hms
    | transfer_ownership ctx new_owner =>
      obtain ⟨ms', hms', ho, -, -⟩ := transfer_ownership_eq_ok.mp h
      obtain rfl := Option.some_inj.mp (hms.symm.trans hms')
      exact absurd (congrArg some ho.symm) ha
    | update_main_state ctx input =>
      obtain ⟨ms', _, hu, -⟩ := (update_main_state_eq_ok hwf).mp h
      obtain rfl := Option.some_inj.mp (hms.symm.trans hu.main_state)
      exact absurd (congrArg some hu.owner.symm) ha
    | _ => cases hi

/-- A creator that holds the whole supply is the only one who can create the pool. -/
theorem creator_of_created {ctx ctx' : ACreatePool} {ms ms' : MainState} {mint mint' : Mint}
    (hinv : Inv l) (ha : ctx.Accepts l ms mint) (ha' : ctx'.Accepts l ms' mint')
    (hk : ctx'.pool_state = ctx.pool_state) : ctx'.creator = ctx.creator := by
  have hmint : ctx'.base_mint = ctx.base_mint := (Pubkey.poolState.inj hk).1
  by_contra hne
  have hata : ctx.creator_base_ata ≠ ctx'.creator_base_ata := fun h =>
    hne (Subtype.ext (Pubkey.ata.inj h).1.symm)
  -- otherwise the supply would be there twice
  have hle := Bank.balance_add_le_total hata ha.creator_base ha'.creator_base rfl hmint
  have hms : ms' = ms := Option.some_inj.mp (ha'.main_state.symm.trans ha.main_state)
  have hsupply : mint'.supply = mint.supply := by
    rw [ha'.total_supply, ha.total_supply, hms]
  rw [Bank.balance_of_lookup ha.creator_base, Bank.balance_of_lookup ha'.creator_base,
    hinv.conserved, Ledger.supply_of_lookup ha.base_mint, hsupply] at hle
  have hpos := (hinv.main_state ms ha.main_state).total_supply
  rw [← ha.total_supply] at hpos
  dsimp only at hle
  omega

/-- The creator keeps passing the checks. -/
theorem ACreatePool.Accepts.step {ctx : ACreatePool} {ms : MainState} {mint : Mint}
    (ha : ctx.Accepts l ms mint) (hinv : Inv l) (h : step spl l a = .ok l')
    (hout : a.Outside ctx ms) : ctx.Accepts l' ms mint := by
  have hf := step_frame hinv.ata h
  have hinv' := hinv.step h
  refine {
    main_state := main_state_of_signer_ne hinv.ata h ha.main_state hout.owner
    pool_new := fun hmem => ?_
    base_mint := by rw [hf.mints]; exact ha.base_mint
    pair := ha.pair
    quote_minted := by rw [hf.mints]; exact ha.quote_minted
    quote_mint := ha.quote_mint
    creator_base := ?_
    total_supply := ha.total_supply
    mint_authority := ha.mint_authority
    freeze_authority := ha.freeze_authority }
  · -- a pool that appears was created, and by the creator
    obtain ⟨p', hp'⟩ := Finmap.mem_iff.mp hmem
    rcases step_pool hinv h hp' with ⟨ctx', ms', mint', rfl, hk, -, hc⟩ | ⟨p, hp, -⟩
    · have := creator_of_created hinv ha hc.accepts hk
      exact hout.creator (congrArg (fun s : Signer => some s.1) this)
    · exact ha.pool_new (Finmap.mem_of_lookup_eq_some hp)
  · -- the account is not debited, and there is nothing that could be added to it
    have hauth : ¬ a.Authorizes ctx.creator.1 := fun hauth =>
      hauth.elim hout.creator (a.pool_ne_signer ctx.creator)
    have hle := hf.tokens.balance_le ha.creator_base hauth
    obtain ⟨n, hn⟩ := hf.tokens.lookup ha.creator_base
    have htotal := Bank.balance_le_total hn
    rw [hinv'.conserved, hf.supply, Ledger.supply_of_lookup ha.base_mint] at htotal
    rw [Bank.balance_of_lookup ha.creator_base] at hle
    rw [Bank.balance_of_lookup hn] at hle htotal
    have hn' : n = mint.supply := BitVec.eq_of_toNat_eq (le_antisymm htotal hle)
    rw [hn, hn']

theorem ACreatePool.Accepts.run {ctx : ACreatePool} {ms : MainState} {mint : Mint}
    {as : List Action} (ha : ctx.Accepts l ms mint) (hinv : Inv l)
    (h : Runs.run (AliPumpFun.step spl) l as = .ok l') (hout : ∀ a ∈ as, a.Outside ctx ms) :
    ctx.Accepts l' ms mint := by
  have key : Inv l' ∧ ctx.Accepts l' ms mint := by
    refine Runs.run_preserves_of (P := fun m => Inv m ∧ ctx.Accepts m ms mint)
      (C := fun _ a => a.Outside ctx ms) ?_ ⟨hinv, ha⟩ h ?_
    · rintro m a m' ⟨hm, hacc⟩ hout hstep
      exact ⟨hm.step hstep, hacc.step hm hstep hout⟩
    · intro done a rest m hd _
      exact hout a (by simp [hd])
  exact key.2

/-- **When a creation cannot be blocked.** After any actions of the others the creator's
`create_pool` succeeds exactly when neither account of the pool existed, none of the actions
opened one of them, and the sum of its event fits 64 bits. -/
theorem creation_succeeds_iff (spl : TokenProgram Pubkey) {l l' : Ledger} {as : List Action}
    {ctx : ACreatePool} {ms : MainState} {mint : Mint} (hl : Reachable spl l)
    (ha : ctx.Accepts l ms mint) (hrun : Runs.run (step spl) l as = .ok l')
    (hout : ∀ a ∈ as, a.Outside ctx ms) :
    (∃ l'', create_pool spl ctx l' = .ok l'') ↔
      (∀ x ∈ [ctx.reserver_base_ata, ctx.reserver_quote_ata],
        x ∉ l.tokens ∧ ∀ a ∈ as, x ∉ a.inits) ∧
        ms.total_supply.toNat + ms.init_virt_base_reserves.toNat < 2 ^ 64 := by
  have hinv := hl.inv
  rw [create_pool_succeeds_iff (hinv.run hrun) (ha.run hinv hrun hout), run_mem_tokens hinv hrun,
    run_mem_tokens hinv hrun]
  simp

/-- The default main state, on which `alice` can create her pool. -/
theorem exists_before_creation : ∃ l l₁, Reachable .reference l ∧
    Runs.run (step .reference) launched [.ix (.init_main_state ⟨default_owner, QUOTE_MINT⟩)] =
      .ok l ∧
    l.main_state = some (.initial DEFAULT_OWNER) ∧
    create_pool .reference ⟨alice, coin, QUOTE_MINT⟩ l = .ok l₁ := by
  obtain ⟨l, hl, hms⟩ := exists_eq_ok (x := Runs.run (step .reference) launched
      [.ix (.init_main_state ⟨default_owner, QUOTE_MINT⟩)])
    (f := fun l => l.main_state) (b := some (.initial DEFAULT_OWNER)) (by decide +kernel)
  obtain ⟨l₁, hl₁, -⟩ := exists_eq_ok (x := Runs.run (step .reference) launched
      ([.ix (.init_main_state ⟨default_owner, QUOTE_MINT⟩)] ++
        [.ix (.create_pool ⟨alice, coin, QUOTE_MINT⟩)]))
    (f := fun _ => ()) (b := ()) (by decide +kernel)
  obtain ⟨m, hm, hstep⟩ := Runs.run_snoc.mp hl₁
  obtain rfl := Except.ok.inj (hl.symm.trans hm)
  exact ⟨l, l₁, ⟨launched, _, launched_genesis, hl⟩, hl, hms, hstep⟩

/-- `bob` opens an account and pays, and `alice` creates her pool all the same. -/
theorem creation_succeeds_sample : ∃ l l' l'', Reachable .reference l ∧
    Runs.run (step .reference) l [.create_ata bob.1 coin,
      .token_transfer bob (.ata bob.1 QUOTE_MINT) (.ata DEFAULT_OWNER QUOTE_MINT) 5] = .ok l' ∧
    create_pool .reference ⟨alice, coin, QUOTE_MINT⟩ l' = .ok l'' := by
  obtain ⟨l, l₁, hreach, hl, hms, hcreate⟩ := exists_before_creation
  obtain ⟨l', hl', -⟩ := exists_eq_ok (x := Runs.run (step .reference) launched
      ([.ix (.init_main_state ⟨default_owner, QUOTE_MINT⟩)] ++ [.create_ata bob.1 coin,
        .token_transfer bob (.ata bob.1 QUOTE_MINT) (.ata DEFAULT_OWNER QUOTE_MINT) 5]))
    (f := fun _ => ()) (b := ()) (by decide +kernel)
  obtain ⟨m, hm, hrun⟩ := Runs.run_append.mp hl'
  obtain rfl := Except.ok.inj (hl.symm.trans hm)
  obtain ⟨ms, mint, hc⟩ := (create_pool_eq_ok hreach.inv.ata).mp hcreate
  obtain rfl := Option.some_inj.mp (hms.symm.trans hc.accepts.main_state)
  have hcond := (creation_succeeds_iff .reference hreach hc.accepts hrun (by
    intro a ha
    simp only [List.mem_cons, List.not_mem_nil, or_false] at ha
    rcases ha with rfl | rfl
    · exact ⟨by decide, by decide⟩
    · exact ⟨by decide, by decide⟩)).mpr
  obtain ⟨l'', hl''⟩ := hcond ⟨by
    intro x hx
    simp only [List.mem_cons, List.not_mem_nil, or_false] at hx
    rcases hx with rfl | rfl
    · exact ⟨hc.base_new, by decide⟩
    · exact ⟨hc.quote_new, by decide⟩, hc.fits⟩
  exact ⟨l, l', l'', hreach, hrun, hl''⟩

/-- Anyone can open the base account of the pool that `alice` is about to create, and then her
`create_pool` fails. -/
theorem creation_blocked :
    ¬ ∀ (spl : TokenProgram Pubkey) (l l' : Ledger) (as : List Action) (ctx : ACreatePool)
      (ms : MainState) (mint : Mint), Reachable spl l → ctx.Accepts l ms mint →
      (∃ l₁, create_pool spl ctx l = .ok l₁) → Runs.run (step spl) l as = .ok l' →
      (∀ a ∈ as, a.Outside ctx ms) → ∃ l'', create_pool spl ctx l' = .ok l'' := by
  intro h
  obtain ⟨l, l₁, hreach, hl, hms, hcreate⟩ := exists_before_creation
  let init : List Action := [.ix (.init_main_state ⟨default_owner, QUOTE_MINT⟩)]
  obtain ⟨l', hl', -⟩ := exists_eq_ok (x := Runs.run (step .reference) launched
      (init ++ [.create_ata coin_pool coin])) (f := fun _ => ()) (b := ()) (by decide +kernel)
  obtain ⟨m, hm, hrun⟩ := Runs.run_append.mp hl'
  obtain rfl := Except.ok.inj (hl.symm.trans hm)
  obtain ⟨ms, mint, hc⟩ := (create_pool_eq_ok hreach.inv.ata).mp hcreate
  obtain ⟨l'', hok⟩ := h .reference l l' _ _ ms mint hreach hc.accepts ⟨l₁, hcreate⟩ hrun (by
    intro a ha
    rw [List.mem_singleton.mp ha]
    exact ⟨by simp [Action.signer], by simp [Action.signer]⟩)
  -- but the run that ends with this creation fails
  have hall : Runs.run (step .reference) launched ((init ++ [.create_ata coin_pool coin]) ++
      [.ix (.create_pool ⟨alice, coin, QUOTE_MINT⟩)]) = .ok l'' :=
    Runs.run_snoc.mpr ⟨l', hl', hok⟩
  have hfail : (Runs.run (step .reference) launched ((init ++ [.create_ata coin_pool coin]) ++
      [.ix (.create_pool ⟨alice, coin, QUOTE_MINT⟩)])).toOption.isSome = false := by
    decide +kernel
  rw [hall] at hfail
  cases hfail

end AliPumpFun
