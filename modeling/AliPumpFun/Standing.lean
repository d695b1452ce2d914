/-
What others can do about a trade.

A trade that could be done can still be done, and moves the same tokens, whatever instructions,
token transfers and openings of accounts others have made since: as long as nobody has traded
on its pool, the trader has not signed anything, and the main state is the same, none of these
takes away what the trade rests on. Others can open accounts for the trader, pay into his
accounts and into those of the pool, and trade elsewhere. Contrast this with a creation, which
the opening of an account blocks.

This is not to say that nothing can. A trade needs the fee account to be the fee recipient's
and not frozen, and a token program lets an owner hand over an account and a freeze authority
freeze it. These are no actions of `Chain`.
-/
import AliPumpFun.Interleaving

set_option autoImplicit false

open Words Fallible

namespace AliPumpFun

variable {spl : TokenProgram Pubkey} {l l' m : Ledger} {a : Action} {as : List Action}
  {i : Instruction}

/-- The instruction works on a pool that exists. -/
def Instruction.UsesPool : Instruction → Prop
  | .buy_tokens_from_exact_quote _ _ _ => True
  | .buy_exact_tokens_from_quote _ _ _ => True
  | .sell _ _ _ => True
  | .withdraw _ => True
  | _ => False

theorem Instruction.UsesPool.deals (hu : i.UsesPool) : (Action.ix i).Deals := by
  cases i with
  | init_main_state => exact hu
  | transfer_ownership => exact hu
  | update_main_state => exact hu
  | _ => trivial

theorem exists_ata_of_mem {P : Pubkey → Prop} {o o' mint mint' x : Pubkey}
    (hx : x ∈ [Pubkey.ata o mint, .ata o' mint']) (ho : P o) (ho' : P o') :
    ∃ o mint, x = .ata o mint ∧ P o := by
  simp only [List.mem_cons, List.not_mem_nil, or_false] at hx
  rcases hx with rfl | rfl
  · exact ⟨o, mint, rfl, ho⟩
  · exact ⟨o', mint', rfl, ho'⟩

/-- It takes from associated accounts of its signer and of its pool. -/
theorem Instruction.UsesPool.debits (hu : i.UsesPool) {x : Pubkey}
    (hx : x ∈ (Action.ix i).debits) : ∃ o mint, x = .ata o mint ∧ (Action.ix i).Authorizes o := by
  cases i with
  | buy_tokens_from_exact_quote => exact exists_ata_of_mem hx (.inl rfl) (.inr rfl)
  | buy_exact_tokens_from_quote => exact exists_ata_of_mem hx (.inl rfl) (.inr rfl)
  | sell => exact exists_ata_of_mem hx (.inl rfl) (.inr rfl)
  | withdraw => exact exists_ata_of_mem hx (.inr rfl) (.inr rfl)
  | _ => exact hu.elim

/-! ## Apart -/

/-- The action is neither about the pool of the instruction nor signed by its signer. -/
structure Action.Apart (a : Action) (i : Instruction) : Prop where
  pool : a.pool ≠ i.pool
  signer : a.signer ≠ some i.signer.1

/-- Whom the instruction takes from, such an action does not. -/
theorem Action.Apart.not_authorizes (h : a.Apart i) {o : Pubkey}
    (ho : (Action.ix i).Authorizes o) : ¬ a.Authorizes o := by
  rcases ho with hs | hp
  · -- the signer, who is no pool
    rw [← Option.some_inj.mp hs]
    rintro (ha | ha)
    · exact h.signer ha
    · exact a.pool_ne_signer _ ha
  · -- the pool, which is no signer
    rintro (ha | ha)
    · exact (Action.ix i).pool_ne_signer ⟨o, Action.signer_is_signer ha⟩ hp
    · exact h.pool (ha.trans hp.symm)

/-- What an instruction rests on still stands: its pool is the same, and there is no less in the
accounts it takes from. -/
structure Stands (i : Instruction) (l l' : Ledger) : Prop where
  pool : ∀ k, i.pool = some k → l'.pools.lookup k = l.pools.lookup k
  balance : ∀ x ∈ (Action.ix i).debits, l.tokens.balance x ≤ l'.tokens.balance x

/-- The associated accounts of somebody who authorizes nothing gain. -/
theorem run_balance_ata_le {o mint : Pubkey} (hinv : Inv l)
    (hrun : Runs.run (step spl) l as = .ok l') (has : ∀ a ∈ as, ¬ a.Authorizes o) :
    l.tokens.balance (.ata o mint) ≤ l'.tokens.balance (.ata o mint) := by
  have key : Inv l' ∧ l.tokens.balance (.ata o mint) ≤ l'.tokens.balance (.ata o mint) := by
    refine Runs.run_preserves_of (P := fun m => Inv m ∧
      l.tokens.balance (.ata o mint) ≤ m.tokens.balance (.ata o mint))
      (C := fun _ a => ¬ a.Authorizes o) ?_ ⟨hinv, le_rfl⟩ hrun ?_
    · rintro m a m' ⟨hm, hle⟩ ha hstep
      exact ⟨hm.step hstep, hle.trans ((step_frame hm.ata hstep).balance_ata_le hm.ata ha)⟩
    · intro done a rest m hd _
      exact has a (by simp [hd])
  exact key.2

theorem run_stands (hu : i.UsesPool) (hinv : Inv l) (hrun : Runs.run (step spl) l as = .ok l')
    (has : ∀ a ∈ as, a.Apart i) : Stands i l l' where
  pool k hk := (run_retains hinv hrun).pools k fun a ha => by
    rw [← hk]
    exact (has a ha).pool
  balance x hx := by
    obtain ⟨o, mint, rfl, ho⟩ := hu.debits hx
    exact run_balance_ata_le hinv hrun fun a ha => (has a ha).not_authorizes ho

/-! ## The same deal -/

/-- Deals that differ in their events only. -/
structure Deal.Same (d d' : Deal) : Prop where
  opens : d'.opens = d.opens
  payments : d'.payments = d.payments
  written : d'.written = d.written

/-- **The deal still stands**, at its own time. -/
theorem Decides.stands {d : Deal} (hd : Decides l (.ix i) d) (hu : i.UsesPool)
    (hs : Stands i l l') (hms : l'.main_state = l.main_state) (hinv' : Inv l') :
    ∃ d', Decides l' (.ix i) d' ∧ d.Same d' := by
  cases hd with
  | create => exact hu.elim
  | exact_quote hx ha hsum hf =>
    have ha' := hinv'.accepts_buy (hms.trans ha.main_state) ha.fee_recipient
      ((hs.pool _ rfl).trans ha.pool_state)
    exact ⟨_, .exact_quote hx ha' hsum hf, rfl, rfl, rfl⟩
  | exact_tokens hx ha hsum hf =>
    have ha' := hinv'.accepts_buy (hms.trans ha.main_state) ha.fee_recipient
      ((hs.pool _ rfl).trans ha.pool_state)
    exact ⟨_, .exact_tokens hx ha' hsum hf, rfl, rfl, rfl⟩
  | sell hx ha hf =>
    have hfunded := ha.funded.trans (hs.balance _ (by simp [Action.debits]))
    have ha' := hinv'.accepts_sell (hms.trans ha.main_state) ha.fee_recipient
      ((hs.pool _ rfl).trans ha.pool_state) hx.amount_pos hfunded
    exact ⟨_, .sell hx ha' hf, rfl, rfl, rfl⟩
  | withdraw ha hc hb hq =>
    obtain ⟨ms, hmain, hw⟩ := ha.main_state
    have ha' := hinv'.accepts_withdraw (hms.trans hmain) hw.symm
      ((hs.pool _ rfl).trans ha.pool_state)
    exact ⟨_, .withdraw ha' hc hb hq, rfl, rfl, rfl⟩

/-- It can be made where its sources hold no less. -/
theorem Deal.Same.exists_done {d d' : Deal} (h : d.Same d') (hd : Decides l (.ix i) d)
    (hd' : Decides l' (.ix i) d') (hdone : d.Done l m) (hs : Stands i l l') (hinv : Inv l)
    (hinv' : Inv l') : ∃ m', d'.Done l' m' := by
  obtain ⟨t, ht⟩ := hdone.paid.replay (by rw [← h.payments]; exact hd'.payable hinv')
    (hinv'.total_lt d'.opens) fun x hx => by
      rw [balance_ensured, balance_ensured]
      exact hs.balance _ ((hd.within hinv).sources x hx)
  rw [← h.payments] at ht
  exact ⟨{ l' with
    tokens := t
    pools := d'.write l'.pools
    events := l'.events ++ d'.events }, ht, rfl⟩

/-- It writes the same pool. -/
theorem Deal.Same.lookup_write {d d' : Deal} (h : d.Same d') {k : Pubkey}
    {pools pools' : Finmap fun _ : Pubkey => PoolState}
    (hk : pools'.lookup k = pools.lookup k) :
    (d'.write pools').lookup k = (d.write pools).lookup k := by
  unfold Deal.write
  rw [h.written]
  split
  · exact hk
  · rename_i k' p hw
    by_cases hkk : k = k'
    · rw [hkk, Finmap.lookup_insert, Finmap.lookup_insert]
    · rw [Finmap.lookup_insert_of_ne _ hkk, Finmap.lookup_insert_of_ne _ hkk]
      exact hk

/-- **Other instructions, transfers and openings of accounts do not block a trade.** Let a buy, a
sell or a withdrawal succeed on a reachable ledger. After any run of the eight instructions, token
transfers, openings of accounts and ticks of the clock that are not about its pool and not signed
by its signer, and with the main state as it was, it succeeds as well, leaves the pool in the same
state and moves the same tokens. -/
theorem trades_outlast_other_actions (spl : TokenProgram Pubkey) (hl : Reachable spl l)
    (hu : i.UsesPool) (hok : i.execute spl l = .ok m) (hrun : Runs.run (step spl) l as = .ok l')
    (has : ∀ a ∈ as, a.Apart i) (hms : l'.main_state = l.main_state) :
    ∃ m', i.execute spl l' = .ok m' ∧
      (∀ k, i.pool = some k → m'.pools.lookup k = m.pools.lookup k) ∧
      ∀ x, m'.tokens.balance x + l.tokens.balance x =
        m.tokens.balance x + l'.tokens.balance x := by
  have hinv := hl.inv
  have hinv' := hinv.run hrun
  have hs := run_stands hu hinv hrun has
  obtain ⟨d, hd, hdone⟩ := (step_iff (a := .ix i) hinv hu.deals).mp hok
  obtain ⟨d', hd', hsame⟩ := hd.stands hu hs hms hinv'
  obtain ⟨m', hdone'⟩ := hsame.exists_done hd hd' hdone hs hinv hinv'
  refine ⟨m', (step_iff (a := .ix i) hinv' hu.deals).mpr ⟨d', hd', hdone'⟩, fun k hk => ?_,
    fun x => ?_⟩
  · rw [hdone.ledger, hdone'.ledger]
    exact hsame.lookup_write (hs.pool k hk)
  · have h1 := hdone.balance_eq x
    have h2 := hdone'.balance_eq x
    rw [hsame.payments] at h2
    omega

/-- `bob`'s account for the tokens is opened for him before he buys. -/
theorem trades_outlast_other_actions_sample : ∃ l l' m m' : Ledger,
    step .reference l (.create_ata bob.1 coin) = .ok l' ∧
    (∀ x, m'.tokens.balance x + l.tokens.balance x =
      m.tokens.balance x + l'.tokens.balance x) ∧
    m'.pools.lookup coin_pool = m.pools.lookup coin_pool ∧
    buy_tokens_from_exact_quote .reference ⟨bob, DEFAULT_OWNER, coin, QUOTE_MINT⟩ 1000 105599 l' =
      .ok m' := by
  let i : Instruction :=
    .buy_tokens_from_exact_quote ⟨bob, DEFAULT_OWNER, coin, QUOTE_MINT⟩ 1000 105599
  obtain ⟨l, hl, hreach, hms, -, -⟩ := exists_opened
  obtain ⟨m, hm, -⟩ := Runs.exists_step_eq_ok hl (a := .ix i) (f := fun _ => ()) (b := ())
    (by decide +kernel)
  obtain ⟨l', hl', hms'⟩ := Runs.exists_step_eq_ok hl (a := .create_ata bob.1 coin)
    (f := fun l => l.main_state) (b := some (.initial DEFAULT_OWNER)) (by decide +kernel)
  have hrun : Runs.run (step .reference) l [.create_ata bob.1 coin] = .ok l' :=
    Runs.run_cons.mpr ⟨l', hl', rfl⟩
  obtain ⟨m', hm', hpool, hbal⟩ := trades_outlast_other_actions .reference (i := i) hreach trivial
    hm hrun (by
      intro a ha
      rw [List.mem_singleton.mp ha]
      exact ⟨by decide, by decide⟩)
    (hms'.trans hms.symm)
  exact ⟨l, l', m, m', hl', hbal, hpool _ rfl, hm'⟩

end AliPumpFun
