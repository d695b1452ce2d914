/-
What a step of the system leaves alone, whatever it is.

A step keeps the mints, the pools it is not about, and every account that belongs
neither to its signer nor to its pool: those can only gain. Only an instruction about no
pool replaces the main state, and it emits no event about a pool.
-/
import AliPumpFun.Effects

set_option autoImplicit false

open Words Fallible

namespace AliPumpFun

variable {spl : TokenProgram Pubkey} {l l' : Ledger} {a : Action}

/-! ## Opening and paying as evolution -/

/-- The addresses at which an account can be opened: the associated address of its owner
and mint, or a plain key. -/
def Fresh (k owner mint : Pubkey) : Prop := k = .ata owner mint ∨ ∃ n, k = .key n

theorem evolves_ensure {auth : Pubkey → Prop} {t : Bank Pubkey} {o m : Pubkey} :
    Bank.Evolves Fresh auth t (ensure t o m) := by
  unfold ensure
  split
  · exact .refl
  · rename_i h
    exact .of_opened h (.inl rfl)

theorem evolves_ensured {auth : Pubkey → Prop} {t : Bank Pubkey} {os : List (Pubkey × Pubkey)} :
    Bank.Evolves Fresh auth t (ensured t os) := by
  induction os generalizing t with
  | nil => exact .refl
  | cons om os ih => exact evolves_ensure.trans ih

/-- The associated token accounts stay those of their owners. -/
theorem AtaWf.evolves {auth : Pubkey → Prop} {t t' : Bank Pubkey} (h : AtaWf t)
    (he : Bank.Evolves Fresh auth t t') : AtaWf t' := by
  intro o m a ha
  rcases he.lookup_inv ha with ⟨n, hn⟩ | hf | ⟨n, hn⟩
  · have := h o m _ hn
    exact this
  · cases hf
    exact ⟨rfl, rfl⟩
  · cases hn

/-- Associated accounts of one mint can pay each other. -/
theorem AtaWf.payable {t : Bank Pubkey} (h : AtaWf t) {o o' m : Pubkey} {n : U64}
    (hs : .ata o m ∈ t) (hd : .ata o' m ∈ t) : t.Payable ⟨.ata o m, .ata o' m, o, n⟩ := by
  obtain ⟨k, hk⟩ := h.exists_lookup hs
  obtain ⟨k', hk'⟩ := h.exists_lookup hd
  exact ⟨m, k, o', k', hk, hk'⟩

/-- A sum selects an associated account by its address. -/
theorem AtaWf.selects {t : Bank Pubkey} (h : AtaWf t) {o m : Pubkey} (hk : .ata o m ∈ t)
    (P : Pubkey → Pubkey → Pubkey → Bool) : t.selects P (.ata o m) = P (.ata o m) m o := by
  obtain ⟨n, hn⟩ := h.exists_lookup hk
  rw [Bank.selects, hn]

/-! ## What a step leaves alone -/

/-- The base mint an event is about. -/
def Event.base_mint : Event → Option Pubkey
  | .create e => some e.base_mint
  | .trade e => some e.base_mint
  | .complete e => some e.base_mint
  | .withdraw e => some e.base_mint
  | _ => none

/-- What every step leaves alone. -/
structure Frame (a : Action) (l l' : Ledger) : Prop where
  mints : l'.mints = l.mints
  tokens : Bank.Evolves Fresh a.Authorizes l.tokens l'.tokens
  pools : ∀ k, a.pool ≠ some k → l'.pools.lookup k = l.pools.lookup k
  pools_mem : ∀ k, k ∈ l.pools → k ∈ l'.pools
  acted : ∀ k, a.pool = some k → k ∈ l'.pools
  main_state : a.pool ≠ none → l'.main_state = l.main_state
  events : ∃ es, l'.events = l.events ++ es ∧ (a.pool = none → ∀ e ∈ es, e.base_mint = none)

namespace Frame

/-- A ledger that differs in its tokens only. -/
theorem of_tokens {t : Bank Pubkey} (ha : a.pool = none)
    (ht : Bank.Evolves Fresh a.Authorizes l.tokens t) : Frame a l { l with tokens := t } where
  mints := rfl
  tokens := ht
  pools _ _ := rfl
  pools_mem _ hk := hk
  acted k hk := by rw [ha] at hk; cases hk
  main_state _ := rfl
  events := ⟨[], by simp, by simp⟩

/-- A ledger at another time. -/
theorem of_clock {ts : ℤ} : Frame (.tick ts) l { l with unix_timestamp := ts } where
  mints := rfl
  tokens := .refl
  pools _ _ := rfl
  pools_mem _ hk := hk
  acted k hk := by cases hk
  main_state _ := rfl
  events := ⟨[], by simp, by simp⟩

/-- A configured ledger. -/
theorem of_configured {t : Bank Pubkey} {ms : MainState} {e : Event} (ha : a.pool = none)
    (ht : Bank.Evolves Fresh a.Authorizes l.tokens t) (he : e.base_mint = none) :
    Frame a l (l.configured t ms e) where
  mints := rfl
  tokens := ht
  pools _ _ := rfl
  pools_mem _ hk := hk
  acted k hk := by rw [ha] at hk; cases hk
  main_state h := absurd ha h
  events := ⟨[e], rfl, by simp [he]⟩

/-- A settled ledger. -/
theorem of_settles {os : List (Pubkey × Pubkey)} {ps : List (Payment Pubkey)} {k : Pubkey}
    {p : PoolState} {es : List Event} (h : Settles (ensured l.tokens os) ps k p es l l')
    (ha : a.pool = some k) (hauth : ∀ q ∈ ps, a.Authorizes q.authority) : Frame a l l' where
  mints := h.mints
  tokens := evolves_ensured.trans (Bank.Evolves.of_paid h.paid hauth)
  pools k' hk := h.lookup_of_ne fun e => hk (by rw [ha, e])
  pools_mem k' hk := by
    rw [h.ledger]
    exact Finmap.mem_insert.mpr (.inr hk)
  acted k' hk := by
    rw [ha] at hk
    obtain rfl := Option.some_inj.mp hk
    exact Finmap.mem_of_lookup_eq_some h.lookup_self
  main_state _ := h.main_state
  events := ⟨es, h.events, fun hn => by rw [ha] at hn; cases hn⟩

end Frame

theorem Bought.frame {i : Instruction} {ctx : ABuy} {ms : MainState} {p : PoolState}
    {c : Purchase} (h : Bought ctx l l' ms p c) (hs : i.signer = ctx.buyer)
    (hk : i.pool = some ctx.pool_state) : Frame (.ix i) l l' := by
  refine .of_settles h.settles hk fun q hq => ?_
  simp only [ABuy.payments, List.mem_cons, List.not_mem_nil, or_false] at hq
  -- two payments of the buyer, then one of the pool
  rcases hq with rfl | rfl | rfl
  · exact .inl (by rw [Action.signer, hs])
  · exact .inl (by rw [Action.signer, hs])
  · exact .inr hk

theorem Instruction.frame {i : Instruction} (hwf : AtaWf l.tokens)
    (h : i.execute spl l = .ok l') : Frame (.ix i) l l' := by
  cases i with
  | init_main_state ctx =>
    obtain ⟨-, rfl⟩ := init_main_state_eq_ok.mp h
    exact .of_configured rfl evolves_ensure rfl
  | transfer_ownership ctx new_owner =>
    obtain ⟨ms, -, -, -, rfl⟩ := transfer_ownership_eq_ok.mp h
    exact .of_configured rfl .refl rfl
  | update_main_state ctx input =>
    obtain ⟨ms, ms', -, rfl⟩ := (update_main_state_eq_ok hwf).mp h
    exact .of_configured rfl evolves_ensure rfl
  | create_pool ctx =>
    obtain ⟨ms, mint, hc⟩ := (create_pool_eq_ok hwf).mp h
    refine .of_settles hc.settles rfl fun q hq => ?_
    simp only [ACreatePool.payments, List.mem_singleton] at hq
    rw [hq]
    exact .inl rfl
  | buy_tokens_from_exact_quote ctx q m =>
    obtain ⟨ms, p, c, -, hb⟩ := (buy_tokens_from_exact_quote_eq_ok hwf).mp h
    exact hb.frame rfl rfl
  | buy_exact_tokens_from_quote ctx b m =>
    obtain ⟨ms, p, c, -, hb⟩ := (buy_exact_tokens_from_quote_eq_ok hwf).mp h
    exact hb.frame rfl rfl
  | sell ctx s m =>
    obtain ⟨ms, p, c, -, hs⟩ := (sell_eq_ok hwf).mp h
    refine .of_settles hs.settles rfl fun q hq => ?_
    simp only [ASell.payments, List.mem_cons, List.not_mem_nil, or_false] at hq
    -- one payment of the seller, then two of the pool
    rcases hq with rfl | rfl | rfl
    · exact .inl rfl
    · exact .inr rfl
    · exact .inr rfl
  | withdraw ctx =>
    obtain ⟨p, hw⟩ := (withdraw_eq_ok hwf).mp h
    refine .of_settles hw.settles rfl fun q hq => ?_
    simp only [AWithdraw.payments, List.mem_cons, List.not_mem_nil, or_false] at hq
    rcases hq with rfl | rfl
    · exact .inr rfl
    · exact .inr rfl

theorem step_frame (hwf : AtaWf l.tokens) (h : step spl l a = .ok l') : Frame a l l' := by
  cases a with
  | ix i => exact Instruction.frame hwf h
  | token_transfer authority s d n =>
    simp only [step, bind_eq_ok, transfer_eq_ok, pure_eq_ok] at h
    obtain ⟨t, ⟨S, D, ht⟩, rfl⟩ := h
    exact .of_tokens rfl (.single (.transfer ht (.inl rfl)))
  | create_ata owner mint =>
    simp only [step, bind_eq_ok, load_eq_ok, init_ata_eq_ensure, pure_eq_ok] at h
    obtain ⟨-, -, t, ⟨-, rfl⟩, rfl⟩ := h
    exact .of_tokens rfl evolves_ensure
  | create_account bytes owner mint =>
    simp only [step, bind_eq_ok, load_eq_ok, mapError_eq_ok, spl.create_eq_ok, pure_eq_ok] at h
    obtain ⟨-, -, t, ⟨hnot, rfl⟩, rfl⟩ := h
    exact .of_tokens rfl (.of_opened hnot (.inr ⟨bytes, rfl⟩))
  | tick ts =>
    obtain rfl := pure_eq_ok.mp h
    exact .of_clock

theorem Frame.supply (h : Frame a l l') (m : Pubkey) : l'.supply m = l.supply m := by
  rw [Ledger.supply, h.mints, Ledger.supply]

/-- Only an instruction about no pool replaces the main state. -/
theorem step_main_state (hwf : AtaWf l.tokens) (h : step spl l a = .ok l')
    (ha : ∀ i, a = .ix i → i.pool ≠ none) : l'.main_state = l.main_state := by
  cases a with
  | ix i => exact (step_frame hwf h).main_state (ha i rfl)
  -- the rest is about tokens and the clock
  | token_transfer authority s d n =>
    simp only [step, bind_eq_ok, pure_eq_ok] at h
    obtain ⟨t, -, rfl⟩ := h
    rfl
  | create_ata owner mint =>
    simp only [step, bind_eq_ok, pure_eq_ok] at h
    obtain ⟨-, -, t, -, rfl⟩ := h
    rfl
  | create_account bytes owner mint =>
    simp only [step, bind_eq_ok, pure_eq_ok] at h
    obtain ⟨-, -, t, -, rfl⟩ := h
    rfl
  | tick ts =>
    obtain rfl := pure_eq_ok.mp h
    rfl

/-- The associated accounts of an owner gain from every step that he does not authorize. -/
theorem Frame.balance_ata_le (h : Frame a l l') (hwf : AtaWf l.tokens) {o m : Pubkey}
    (ho : ¬ a.Authorizes o) : l.tokens.balance (.ata o m) ≤ l'.tokens.balance (.ata o m) := by
  cases hx : l.tokens.lookup (.ata o m) with
  | none =>
    rw [Bank.balance_of_notMem (Finmap.lookup_eq_none.mp hx)]
    exact Nat.zero_le _
  | some c =>
    refine h.tokens.balance_le hx ?_
    rw [(hwf _ _ _ hx).1]
    exact ho

/-- The accounts of a pool gain from every step that is not about it. -/
theorem Frame.balance_le (h : Frame a l l') (hwf : AtaWf l.tokens) {b q m : Pubkey}
    (ha : a.pool ≠ some (.poolState b q)) :
    l.tokens.balance (.ata (.poolState b q) m) ≤ l'.tokens.balance (.ata (.poolState b q) m) := by
  refine h.balance_ata_le hwf ?_
  -- nobody else signs for the pool
  rintro (hs | hp)
  · exact a.signer_ne_poolState b q hs
  · exact ha hp

end AliPumpFun
