/-
Gifts to a pool.

Anyone can send tokens to the two accounts that back a pool. No handler reads what these
accounts hold, so two ledgers that differ in their balances only, and in those of accounts
nobody else uses, behave alike: an action succeeds on both or on neither, it leaves the same
pools and it moves the same amounts. What the argument needs beyond that is that the poorer
of the two pools can pay, which is what `PoolInv` says of every pool.
-/
import AliPumpFun.Backing

set_option autoImplicit false

open Words Fallible

namespace AliPumpFun

variable {spl : TokenProgram Pubkey} {l l' n n' : Ledger} {a : Action}

/-! ## Ledgers that differ in some balances -/

/-- Ledgers that differ in the balances of the accounts in `U` only. -/
structure Shifted (U : Pubkey → Prop) (l l' : Ledger) : Prop where
  mints : l'.mints = l.mints
  main_state : l'.main_state = l.main_state
  pools : l'.pools = l.pools
  unix_timestamp : l'.unix_timestamp = l.unix_timestamp
  events : l'.events = l.events
  tokens : Bank.Alike U l.tokens l'.tokens

/-- From `l` to `n` every balance changes as it does from `l'` to `n'`. -/
def SameMoves (l n l' n' : Ledger) : Prop :=
  ∀ x, n.tokens.balance x + l'.tokens.balance x = n'.tokens.balance x + l.tokens.balance x

theorem Shifted.refl {U : Pubkey → Prop} : Shifted U l l := ⟨rfl, rfl, rfl, rfl, rfl, .refl⟩

theorem Shifted.symm {U : Pubkey → Prop} (h : Shifted U l l') : Shifted U l' l :=
  ⟨h.mints.symm, h.main_state.symm, h.pools.symm, h.unix_timestamp.symm, h.events.symm,
    h.tokens.symm⟩

theorem SameMoves.of_balance_eq (h : ∀ x, n.tokens.balance x = l.tokens.balance x)
    (h' : ∀ x, n'.tokens.balance x = l'.tokens.balance x) : SameMoves l n l' n' := by
  intro x
  rw [h, h', Nat.add_comm]

/-- The accounts in `S` and the two reserve accounts of `q`. -/
def Unlike (S : Pubkey → Prop) (q : PoolState) (x : Pubkey) : Prop :=
  S x ∨ x = q.reserver_base_ata ∨ x = q.reserver_quote_ata

/-- The account of a signer is not one of a pool. -/
theorem not_unlike {S : Pubkey → Prop} {q : PoolState} {s : Signer} {m : Pubkey}
    (h : ¬ S (.ata s.1 m)) : ¬ Unlike S q (.ata s.1 m) := by
  rintro (hS | hb | hq)
  · exact h hS
  · exact s.ne_poolState _ _ (Pubkey.ata.inj hb).1
  · exact s.ne_poolState _ _ (Pubkey.ata.inj hq).1

/-! ## Opening and settling -/

section Transport

variable {U : Pubkey → Prop}

theorem alike_ensure {t t' : Bank Pubkey} (h : Bank.Alike U t t') (o m : Pubkey) :
    Bank.Alike U (ensure t o m) (ensure t' o m) := by
  unfold ensure
  by_cases hk : Pubkey.ata o m ∈ t
  · rw [if_pos hk, if_pos ((h.mem_iff _).mp hk)]
    exact h
  · rw [if_neg hk, if_neg fun hk' => hk ((h.mem_iff _).mpr hk')]
    exact h.opened hk

theorem alike_ensured {t t' : Bank Pubkey} (h : Bank.Alike U t t') (os : List (Pubkey × Pubkey)) :
    Bank.Alike U (ensured t os) (ensured t' os) := by
  induction os generalizing t t' with
  | nil => exact h
  | cons om os ih => exact ih (alike_ensure h om.1 om.2)

/-- The same can be settled on the other side, if its accounts in `U` can afford it. -/
theorem Settles.shifted {os : List (Pubkey × Pubkey)} {ps : List (Payment Pubkey)} {k : Pubkey}
    {p : PoolState} {es : List Event} (h : Settles (ensured l.tokens os) ps k p es l n)
    (hs : Shifted U l l') (hinv' : Inv l')
    (hfund : ∀ x, U x → Bank.outgoing x ps ≤ l'.tokens.balance x) :
    ∃ n', Settles (ensured l'.tokens os) ps k p es l' n' ∧ Shifted U n n' ∧
      SameMoves l n l' n' := by
  obtain ⟨t', ht', halike⟩ := (alike_ensured hs.tokens os).paid h.paid (hinv'.total_lt os)
    fun x hx => by
      rw [balance_ensured]
      exact hfund x hx
  refine ⟨{ l' with
    tokens := t'
    pools := l'.pools.insert k p
    events := l'.events ++ es }, ⟨ht', rfl⟩, ?_, fun x => ?_⟩
  · rw [h.ledger]
    exact ⟨hs.mints, hs.main_state, by rw [hs.pools], hs.unix_timestamp, by rw [hs.events], halike⟩
  · have h1 := h.paid.balance_eq x
    have h2 := ht'.balance_eq x
    rw [balance_ensured] at h1 h2
    dsimp only
    omega

theorem shifted_configured {t t' : Bank Pubkey} {ms : MainState} {e : Event}
    (hs : Shifted U l l') (ht : Bank.Alike U t t') :
    Shifted U (l.configured t ms e) (l'.configured t' ms e) where
  mints := hs.mints
  main_state := rfl
  pools := hs.pools
  unix_timestamp := hs.unix_timestamp
  events := by rw [Ledger.configured, Ledger.configured, hs.events]
  tokens := ht

end Transport

/-! ## The instructions -/

section Instructions

variable {S : Pubkey → Prop} {q : PoolState} {ms : MainState} {p : PoolState}

theorem ABuy.Accepts.shifted {ctx : ABuy} {U : Pubkey → Prop} (h : ctx.Accepts l ms p)
    (hs : Shifted U l l') : ctx.Accepts l' ms p where
  main_state := by rw [hs.main_state]; exact h.main_state
  fee_recipient := h.fee_recipient
  pool_state := by rw [hs.pools]; exact h.pool_state
  base_minted := by rw [hs.mints]; exact h.base_minted
  base_mint := h.base_mint
  quote_minted := by rw [hs.mints]; exact h.quote_minted
  quote_mint := h.quote_mint
  reserver_base := (alike_ensured hs.tokens _).mem_of_mem h.reserver_base
  reserver_quote := (alike_ensured hs.tokens _).mem_of_mem h.reserver_quote

theorem Bought.shifted {ctx : ABuy} {c : Purchase} (h : Bought ctx l n ms p c) (hc : c.Buys p)
    (hs : Shifted (Unlike S q) l l') (hinv' : Inv l') (hS : ¬ S ctx.buyer_quote_ata) :
    ∃ n', Bought ctx l' n' ms p c ∧ Shifted (Unlike S q) n n' ∧ SameMoves l n l' n' := by
  have ha := h.accepts.shifted hs
  obtain ⟨n', hn', hshift, hmoves⟩ := h.settles.shifted hs hinv' fun x hx => by
    -- the buyer's account is alike, and the pool's is backed
    have hbuyer : x ≠ ctx.buyer_quote_ata := by
      rintro rfl
      exact not_unlike hS hx
    simp only [Bank.outgoing, ABuy.payments, List.map_cons, List.map_nil, List.sum_cons,
      List.sum_nil, if_neg hbuyer]
    split
    · rename_i hbase
      have := hc.base_le hinv' ha
      rw [hbase]
      omega
    · exact Nat.zero_le _
  rw [← hs.unix_timestamp] at hn'
  exact ⟨n', ⟨ha, h.spent, h.fits, hn'⟩, hshift, hmoves⟩

theorem ASell.Accepts.shifted {ctx : ASell} {s : U64} {U : Pubkey → Prop}
    (h : ctx.Accepts s l ms p) (hs : Shifted U l l') (hU : ¬ U ctx.seller_base_ata) :
    ctx.Accepts s l' ms p where
  main_state := by rw [hs.main_state]; exact h.main_state
  fee_recipient := h.fee_recipient
  pool_state := by rw [hs.pools]; exact h.pool_state
  base_minted := by rw [hs.mints]; exact h.base_minted
  base_mint := h.base_mint
  quote_minted := by rw [hs.mints]; exact h.quote_minted
  quote_mint := h.quote_mint
  seller_base := (alike_ensure hs.tokens _ _).mem_of_mem h.seller_base
  funded := by rw [← hs.tokens.balance _ hU]; exact h.funded
  reserver_base := (alike_ensured hs.tokens _).mem_of_mem h.reserver_base
  reserver_quote := (alike_ensured hs.tokens _).mem_of_mem h.reserver_quote

theorem Sold.shifted {ctx : ASell} {s m : U64} {c : Sale} (h : Sold ctx s l n ms p c)
    (hc : Sell ms p s m c) (hs : Shifted (Unlike S q) l l') (hinv' : Inv l')
    (hS : ¬ S ctx.seller_base_ata) :
    ∃ n', Sold ctx s l' n' ms p c ∧ Shifted (Unlike S q) n n' ∧ SameMoves l n l' n' := by
  have ha := h.accepts.shifted hs (not_unlike hS)
  obtain ⟨n', hn', hshift, hmoves⟩ := h.settles.shifted hs hinv' fun x hx => by
    have hseller : x ≠ ctx.seller_base_ata := by
      rintro rfl
      exact not_unlike hS hx
    simp only [Bank.outgoing, ASell.payments, List.map_cons, List.map_nil, List.sum_cons,
      List.sum_nil, if_neg hseller]
    split
    · -- the two payments out of the pool are what its quote reserves lose
      rename_i hquote
      have h1 := (hinv'.pools _ p ha.pool_state).backed_quote
      have h2 := hc.moves.quote
      have h3 := hc.output
      rw [hquote, ha.reserver_quote_ata]
      omega
    · exact Nat.zero_le _
  rw [← hs.unix_timestamp] at hn'
  exact ⟨n', ⟨ha, h.fits, hn'⟩, hshift, hmoves⟩

theorem AWithdraw.Accepts.shifted {ctx : AWithdraw} {U : Pubkey → Prop} (h : ctx.Accepts l p)
    (hs : Shifted U l l') : ctx.Accepts l' p where
  main_state := by rw [hs.main_state]; exact h.main_state
  pool_state := by rw [hs.pools]; exact h.pool_state
  base_minted := by rw [hs.mints]; exact h.base_minted
  base_mint := h.base_mint
  quote_minted := by rw [hs.mints]; exact h.quote_minted
  quote_mint := h.quote_mint
  reserver_base := hs.tokens.mem_of_mem h.reserver_base
  reserver_quote := hs.tokens.mem_of_mem h.reserver_quote

theorem Withdrawn.shifted {ctx : AWithdraw} {U : Pubkey → Prop} (h : Withdrawn ctx l n p)
    (hs : Shifted U l l') (hinv' : Inv l') :
    ∃ n', Withdrawn ctx l' n' p ∧ Shifted U n n' ∧ SameMoves l n l' n' := by
  have ha := h.accepts.shifted hs
  obtain ⟨n', hn', hshift, hmoves⟩ := h.settles.shifted hs hinv' fun x _ =>
    ha.outgoing_le (hinv'.pools _ p ha.pool_state) x
  rw [← hs.unix_timestamp] at hn'
  exact ⟨n', ⟨ha, h.complete, h.base_pos, h.quote_pos, hn'⟩, hshift, hmoves⟩

theorem ACreatePool.Accepts.shifted {ctx : ACreatePool} {mint : Mint} {U : Pubkey → Prop}
    (h : ctx.Accepts l ms mint) (hs : Shifted U l l') (hU : ¬ U ctx.creator_base_ata) :
    ctx.Accepts l' ms mint where
  main_state := by rw [hs.main_state]; exact h.main_state
  pool_new := by rw [hs.pools]; exact h.pool_new
  base_mint := by rw [hs.mints]; exact h.base_mint
  pair := h.pair
  quote_minted := by rw [hs.mints]; exact h.quote_minted
  quote_mint := h.quote_mint
  creator_base := hs.tokens.lookup_eq hU h.creator_base
  total_supply := h.total_supply
  mint_authority := h.mint_authority
  freeze_authority := h.freeze_authority

theorem Created.shifted {ctx : ACreatePool} {mint : Mint} (h : Created ctx l n ms mint)
    (hs : Shifted (Unlike S q) l l') (hinv' : Inv l') (hS : ¬ S ctx.creator_base_ata) :
    ∃ n', Created ctx l' n' ms mint ∧ Shifted (Unlike S q) n n' ∧ SameMoves l n l' n' := by
  obtain ⟨n', hn', hshift, hmoves⟩ := h.settles.shifted hs hinv' fun x hx => by
    have hcreator : x ≠ ctx.creator_base_ata := by
      rintro rfl
      exact not_unlike hS hx
    simp [Bank.outgoing, ACreatePool.payments, hcreator]
  rw [← hs.unix_timestamp] at hn'
  refine ⟨n', ⟨h.accepts.shifted hs (not_unlike hS), ?_, ?_, h.fits, hn'⟩, hshift, hmoves⟩
  · exact fun hm => h.base_new ((hs.tokens.mem_iff _).mpr hm)
  · exact fun hm => h.quote_new ((hs.tokens.mem_iff _).mpr hm)

/-- An instruction that succeeds also succeeds on the other side. -/
theorem Instruction.shifted {i : Instruction} (hinv : Inv l) (hinv' : Inv l')
    (hs : Shifted (Unlike S q) l l') (hS : ∀ x ∈ i.accounts, ¬ S x)
    (h : i.execute spl l = .ok n) :
    ∃ n', i.execute spl l' = .ok n' ∧ Shifted (Unlike S q) n n' ∧ SameMoves l n l' n' := by
  have hwf := hinv.ata
  have hwf' := hinv'.ata
  cases i with
  | init_main_state ctx =>
    obtain ⟨ha, rfl⟩ := init_main_state_eq_ok.mp h
    refine ⟨_, init_main_state_eq_ok.mpr ⟨⟨ha.owner, ?_, ?_, ha.quote_mint, ?_⟩, rfl⟩,
      shifted_configured hs (alike_ensure hs.tokens _ _),
      .of_balance_eq (fun _ => balance_ensure) fun _ => balance_ensure⟩
    · rw [hs.main_state]
      exact ha.main_state
    · rw [hs.mints]
      exact ha.quote_minted
    · exact fun hm => ha.fee_quote ((hs.tokens.mem_iff _).mpr hm)
  | transfer_ownership ctx new_owner =>
    obtain ⟨ms, hms, ho, hne, rfl⟩ := transfer_ownership_eq_ok.mp h
    rw [← hs.main_state] at hms
    exact ⟨_, transfer_ownership_eq_ok.mpr ⟨ms, hms, ho, hne, rfl⟩,
      shifted_configured hs hs.tokens, .of_balance_eq (fun _ => rfl) fun _ => rfl⟩
  | update_main_state ctx input =>
    obtain ⟨ms, ms', ha, rfl⟩ := (update_main_state_eq_ok hwf).mp h
    have ha' : ctx.Accepts input l' ms ms' := { ha with
      main_state := by rw [hs.main_state]; exact ha.main_state
      quote_minted := by rw [hs.mints]; exact ha.quote_minted }
    exact ⟨_, (update_main_state_eq_ok hwf').mpr ⟨ms, ms', ha', rfl⟩,
      shifted_configured hs (alike_ensure hs.tokens _ _),
      .of_balance_eq (fun _ => balance_ensure) fun _ => balance_ensure⟩
  -- the creator's account is not one that differs
  | create_pool ctx =>
    obtain ⟨ms, mint, hc⟩ := (create_pool_eq_ok hwf).mp h
    obtain ⟨n', hc', hrest⟩ := hc.shifted hs hinv' (hS _ (by simp [accounts]))
    exact ⟨n', (create_pool_eq_ok hwf').mpr ⟨ms, mint, hc'⟩, hrest⟩
  | buy_tokens_from_exact_quote ctx x m =>
    obtain ⟨ms, p, c, hx, hb⟩ := hinv.exact_quote_iff.mp h
    obtain ⟨n', hb', hrest⟩ := hb.shifted hx.buys hs hinv' (hS _ (by simp [accounts]))
    exact ⟨n', hinv'.exact_quote_iff.mpr ⟨ms, p, c, hx, hb'⟩, hrest⟩
  | buy_exact_tokens_from_quote ctx b m =>
    obtain ⟨ms, p, c, hx, hb⟩ := hinv.exact_tokens_iff.mp h
    obtain ⟨n', hb', hrest⟩ := hb.shifted hx.buys hs hinv' (hS _ (by simp [accounts]))
    exact ⟨n', hinv'.exact_tokens_iff.mpr ⟨ms, p, c, hx, hb'⟩, hrest⟩
  | sell ctx s m =>
    obtain ⟨ms, p, c, hx, hsold⟩ := hinv.sell_iff.mp h
    obtain ⟨n', hsold', hrest⟩ := hsold.shifted hx hs hinv' (hS _ (by simp [accounts]))
    exact ⟨n', hinv'.sell_iff.mpr ⟨ms, p, c, hx, hsold'⟩, hrest⟩
  | withdraw ctx =>
    obtain ⟨p, hw⟩ := (withdraw_eq_ok hwf).mp h
    obtain ⟨n', hw', hrest⟩ := hw.shifted hs hinv'
    exact ⟨n', (withdraw_eq_ok hwf').mpr ⟨p, hw'⟩, hrest⟩

/-- **An action that succeeds also succeeds on the other side**, with the same effect. -/
theorem step_shifted (hinv : Inv l) (hinv' : Inv l') (hs : Shifted (Unlike S q) l l')
    (hS : ∀ x ∈ a.accounts, ¬ S x) (h : step spl l a = .ok n) :
    ∃ n', step spl l' a = .ok n' ∧ Shifted (Unlike S q) n n' ∧ SameMoves l n l' n' := by
  cases a with
  | ix i => exact Instruction.shifted hinv hinv' hs hS h
  | token_transfer authority s d k =>
    simp only [step, bind_eq_ok, transfer_eq_ok, pure_eq_ok] at h ⊢
    obtain ⟨t, ⟨A, D, ht⟩, rfl⟩ := h
    -- the source is not a reserve account, since the pool has not signed
    have hsource : ¬ Unlike S q s := by
      have howner : ∀ m, s ≠ .ata q.address m := by
        rintro m rfl
        have := (hinv.ata _ _ _ ht.source).1
        rw [ht.owned] at this
        exact authority.ne_poolState _ _ this
      rintro (hs' | hb | hq)
      · exact hS s (by simp [Action.accounts]) hs'
      · exact howner _ hb
      · exact howner _ hq
    obtain ⟨A', D', t', ht', halike⟩ := hs.tokens.transferred (p := ⟨s, d, authority.1, k⟩) ht
      (hinv'.total_lt []) fun hU => absurd hU hsource
    refine ⟨{ l' with tokens := t' }, ⟨t', ⟨A', D', ht'⟩, rfl⟩, { hs with tokens := halike },
      fun x => ?_⟩
    have h1 := ht.balance_eq x
    have h2 := ht'.balance_eq x
    dsimp only at h2 ⊢
    omega
  | create_ata owner mint =>
    simp only [step, bind_eq_ok, load_eq_ok, init_ata_eq_ensure, pure_eq_ok] at h ⊢
    obtain ⟨M, hM, t, ⟨hnew, rfl⟩, rfl⟩ := h
    rw [← hs.mints] at hM
    exact ⟨_, ⟨M, hM, _, ⟨fun hm => hnew ((hs.tokens.mem_iff _).mpr hm), rfl⟩, rfl⟩,
      { hs with tokens := alike_ensure hs.tokens owner mint },
      .of_balance_eq (fun _ => balance_ensure) fun _ => balance_ensure⟩
  | create_account bytes owner mint =>
    simp only [step, bind_eq_ok, load_eq_ok, mapError_eq_ok, spl.create_eq_ok, pure_eq_ok] at h ⊢
    obtain ⟨M, hM, t, ⟨hnew, rfl⟩, rfl⟩ := h
    have hnew' : Pubkey.key bytes ∉ l'.tokens := fun hm => hnew ((hs.tokens.mem_iff _).mpr hm)
    rw [← hs.mints] at hM
    exact ⟨_, ⟨M, hM, _, ⟨hnew', rfl⟩, rfl⟩, { hs with tokens := hs.tokens.opened hnew },
      .of_balance_eq (Bank.balance_opened hnew) (Bank.balance_opened hnew')⟩
  | tick ts =>
    obtain rfl := pure_eq_ok.mp h
    exact ⟨_, rfl, { hs with unix_timestamp := rfl }, .of_balance_eq (fun _ => rfl) fun _ => rfl⟩

/-- What is sent from `S` to a reserve account stays within the difference. -/
theorem Shifted.donation {authority : Signer} {s d : Pubkey} {k : U64}
    (hs : Shifted (Unlike S q) l l') (hS : S s)
    (hd : d = q.reserver_base_ata ∨ d = q.reserver_quote_ata) :
    Shifted (Unlike S q) l (Runs.exec (step spl) l' (.token_transfer authority s d k)) := by
  refine Runs.exec_preserves (fun {t} h => ?_) hs
  simp only [step, bind_eq_ok, transfer_eq_ok, pure_eq_ok] at h
  obtain ⟨t, ⟨A, D, ht⟩, rfl⟩ := h
  exact { hs with tokens := hs.tokens.trans (.of_transferred ht (.inl hS) (.inr hd)) }

end Instructions

/-! ## Two runs -/

/-- The action does the same in `l` and in `l'`. -/
structure SameEffect (spl : TokenProgram Pubkey) (l l' : Ledger) (a : Action) : Prop where
  succeeds : (∃ n, step spl l a = .ok n) ↔ ∃ n', step spl l' a = .ok n'
  pools : (Runs.exec (step spl) l' a).pools = (Runs.exec (step spl) l a).pools
  events : (Runs.exec (step spl) l' a).events = (Runs.exec (step spl) l a).events
  moves : SameMoves l (Runs.exec (step spl) l a) l' (Runs.exec (step spl) l' a)

section Effect

variable {S : Pubkey → Prop} {q : PoolState}

theorem exec_inv (hinv : Inv l) : Inv (Runs.exec (step spl) l a) :=
  Runs.exec_preserves (fun h => hinv.step h) hinv

theorem exec_shifted (hinv : Inv l) (hinv' : Inv l') (hs : Shifted (Unlike S q) l l')
    (hS : ∀ x ∈ a.accounts, ¬ S x) :
    Shifted (Unlike S q) (Runs.exec (step spl) l a) (Runs.exec (step spl) l' a) := by
  refine Runs.exec_related hs (fun {t} h => ?_) (fun {t'} h => ?_)
  · obtain ⟨n', hn', hshift, -⟩ := step_shifted hinv hinv' hs hS h
    exact ⟨n', hn', hshift⟩
  · obtain ⟨n, hn, -⟩ := step_shifted hinv' hinv hs.symm hS h
    exact ⟨n, hn⟩

theorem Shifted.sameEffect (hs : Shifted (Unlike S q) l l') (hinv : Inv l) (hinv' : Inv l')
    (hS : ∀ x ∈ a.accounts, ¬ S x) : SameEffect spl l l' a := by
  have hexec : Shifted (Unlike S q) (Runs.exec (step spl) l a) (Runs.exec (step spl) l' a) :=
    exec_shifted hinv hinv' hs hS
  refine ⟨⟨?_, ?_⟩, hexec.pools, hexec.events, ?_⟩
  · rintro ⟨n, hn⟩
    obtain ⟨n', hn', -⟩ := step_shifted hinv hinv' hs hS hn
    exact ⟨n', hn'⟩
  · rintro ⟨n', hn'⟩
    obtain ⟨n, hn, -⟩ := step_shifted hinv' hinv hs.symm hS hn'
    exact ⟨n, hn⟩
  · cases h : step spl l a with
    | ok n =>
      obtain ⟨n', hn', -, hmoves⟩ := step_shifted hinv hinv' hs hS h
      rw [Runs.exec_of_ok h, Runs.exec_of_ok hn']
      exact hmoves
    | error e =>
      cases h' : step spl l' a with
      | ok n' =>
        obtain ⟨n, hn, -⟩ := step_shifted hinv' hinv hs.symm hS h'
        rw [hn] at h
        cases h
      | error e' =>
        rw [Runs.exec_of_error h, Runs.exec_of_error h']
        exact .of_balance_eq (fun _ => rfl) fun _ => rfl

end Effect

/-- A transfer into a reserve account of `p` out of an account that no action of both runs
uses. -/
def Donates (es : List (Runs.Entry Action)) (p : PoolState) (a : Action) : Prop :=
  ∃ authority source destination amount, a = .token_transfer authority source destination amount ∧
    (destination = p.reserver_base_ata ∨ destination = p.reserver_quote_ata) ∧
    ∀ b, .both b ∈ es → source ∉ b.accounts

/-- **Donations do not matter.** Whatever is sent to the reserve accounts of a pool between the
actions of a run from a reachable ledger, each action of the run does the same as without it. -/
theorem donations_do_not_matter (spl : TokenProgram Pubkey) {l : Ledger}
    {es done rest : List (Runs.Entry Action)} {a : Action} {p : PoolState} (hl : Reachable spl l)
    (hes : ∀ d, .inserted d ∈ es → Donates es p d) (hsplit : es = done ++ .both a :: rest) :
    SameEffect spl (Runs.execs (step spl) l (Runs.without done))
      (Runs.execs (step spl) l (Runs.within done)) a := by
  -- the accounts that the run itself does not use
  let S : Pubkey → Prop := fun x => ∀ b, .both b ∈ es → x ∉ b.accounts
  let m := Runs.execs (step spl) l (Runs.without done)
  let m' := Runs.execs (step spl) l (Runs.within done)
  have key : Inv m ∧ Inv m' ∧ Shifted (Unlike S p) m m' := by
    refine Runs.execs_related (R := fun m m' => Inv m ∧ Inv m' ∧ Shifted (Unlike S p) m m')
      (C := fun e => e ∈ es) ?_ ?_ ⟨hl.inv, hl.inv, .refl⟩ ?_
    · rintro m m' b ⟨hm, hm', hs⟩ hb
      exact ⟨exec_inv hm, exec_inv hm', exec_shifted hm hm' hs fun x hx hS => hS b hb hx⟩
    · rintro m m' d ⟨hm, hm', hs⟩ hd
      obtain ⟨auth, s, t, n, rfl, ht, hS⟩ := hes d hd
      exact ⟨hm, exec_inv hm', hs.donation hS ht⟩
    · intro e he
      simp [hsplit, he]
  obtain ⟨hm, hm', hs⟩ := key
  exact hs.sameEffect hm hm' fun x hx hS => hS a (by simp [hsplit]) hx

/-- `alice` sends 500 quote tokens to the pool before `bob` buys. -/
theorem donations_do_not_matter_sample :
    let gift : Action :=
      .token_transfer alice (.key 7) coin_created.reserver_quote_ata 500
    let buy : Action :=
      .ix (.buy_tokens_from_exact_quote ⟨bob, DEFAULT_OWNER, coin, QUOTE_MINT⟩ 1000 0)
    ∃ l l', Reachable .reference l ∧ step .reference l gift = .ok l' ∧
      SameEffect .reference l l' buy := by
  intro gift buy
  let prepared : List Action := opening ++ [.create_account 7 alice.1 QUOTE_MINT,
    .token_transfer bob (.ata bob.1 QUOTE_MINT) (.key 7) 1000]
  obtain ⟨l', hl', -⟩ := exists_eq_ok
    (x := Runs.run (step .reference) launched (prepared ++ [gift]))
    (f := fun _ => ()) (b := ()) (by decide +kernel)
  obtain ⟨l, hl, hgift⟩ := Runs.run_snoc.mp hl'
  have hreach : Reachable .reference l := ⟨launched, _, launched_genesis, hl⟩
  let es : List (Runs.Entry Action) := [.inserted gift, .both buy]
  have hes : ∀ d, .inserted d ∈ es → Donates es coin_created d := by
    intro d hd
    obtain rfl : d = gift := by simpa [es] using hd
    refine ⟨alice, _, _, _, rfl, .inr rfl, fun b hb => ?_⟩
    obtain rfl : b = buy := by simpa [es] using hb
    decide
  have hsplit : es = [.inserted gift] ++ .both buy :: [] := rfl
  have hsame := donations_do_not_matter .reference hreach hes hsplit
  rw [show Runs.execs (step .reference) l (Runs.within [.inserted gift]) = l' from
    Runs.exec_of_ok hgift] at hsame
  exact ⟨l, l', hreach, hgift, hsame⟩

end AliPumpFun
