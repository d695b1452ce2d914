/-
What can be taken from whom.

From an account of a wallet nothing is ever taken but what the arguments of the instructions
on it allow: the quote amount or the limit of a buy, the base amount of a sell, the supply
that a creation puts up, the amount of a transfer. Over a run these add up to a bound on what
the account can lose, whatever everybody else does. It needs the totals of the exact-tokens
buys to fit 64 bits.

From the accounts of a pool nothing is ever taken but the reserves the pool records. What is
there beyond them, and whatever is sent there later, stays for good: no trade and no
withdrawal pays it out.
-/
import AliPumpFun.Interleaving
import AliPumpFun.Limits

set_option autoImplicit false

open Words Fallible

namespace AliPumpFun

variable {spl : TokenProgram Pubkey} {l l' m : Ledger} {a : Action} {as : List Action}
  {k : Pubkey}

/-! ## Wallets -/

/-- What an action's arguments allow it to take from the account `k`. A creation takes the
whole supply. -/
def Action.spends (l : Ledger) (k : Pubkey) : Action → ℕ
  | .ix (.create_pool ctx) => if k = ctx.creator_base_ata then l.supply ctx.base_mint else 0
  | .ix (.buy_tokens_from_exact_quote ctx quote_amount _) =>
    if k = ctx.buyer_quote_ata then quote_amount.toNat else 0
  | .ix (.buy_exact_tokens_from_quote ctx _ max_quote_amount) =>
    if k = ctx.buyer_quote_ata then max_quote_amount.toNat else 0
  | .ix (.sell ctx base_amount _) => if k = ctx.seller_base_ata then base_amount.toNat else 0
  | .token_transfer _ source _ amount => if k = source then amount.toNat else 0
  | _ => 0

/-- The payments of a purchase out of an account that is not the pool's. -/
theorem ABuy.outgoing_payments {ctx : ABuy} {c : Purchase} (hk : k ≠ ctx.reserver_base_ata) :
    Bank.outgoing k (ctx.payments c) =
      if k = ctx.buyer_quote_ata then c.fee.toNat + c.input_quote_amount.toNat else 0 := by
  simp only [Bank.outgoing, payments, List.map_cons, List.map_nil, List.sum_cons, List.sum_nil,
    if_neg hk]
  split <;> omega

/-- A deal takes no more from a wallet than the arguments allow. -/
theorem Decides.outgoing_le {d : Deal} (hinv : Inv l) (hd : Decides l a d)
    (hk : ∀ b q mint, k ≠ .ata (.poolState b q) mint)
    (hfits : ∀ i, a = .ix i → k ∈ a.debits → i.TotalFits l) :
    Bank.outgoing k d.payments ≤ a.spends l k := by
  cases hd with
  | @create ctx ms mint ha hb hq hf =>
    rw [Action.spends, Ledger.supply_of_lookup ha.base_mint]
    simp [Bank.outgoing, ACreatePool.payments]
  | @exact_quote ctx q q' ms p c hx ha hs hf =>
    rw [Action.spends, ABuy.deal, ABuy.outgoing_payments (hk _ _ _), hx.gross]
    split
    · exact min_le_left _ _
    · exact le_rfl
  | @exact_tokens ctx b q ms p c hx ha hs hf =>
    rw [Action.spends, ABuy.deal, ABuy.outgoing_payments (hk _ _ _)]
    split
    · rename_i hbuyer
      -- the total fits, so what was compared with the limit is what is paid
      have htf := (hinv.main_state ms ha.main_state).trading_fee_lt
      have hfit := hfits _ rfl (by simp [Action.debits, hbuyer]) ms p ha.main_state ha.pool_state
      have hlt := (hx.total_fits_iff htf).mp hfit
      have hwithin := hx.within
      rw [Nat.mod_eq_of_lt hlt] at hwithin
      rw [hx.debit, GrossUp.debit_of_lt htf hlt]
      exact hwithin
    · exact le_rfl
  | @sell ctx s s' ms p c hx ha hf =>
    have hne : k ≠ ctx.reserver_quote_ata := hk _ _ _
    rw [Action.spends]
    simp only [Bank.outgoing, ASell.payments, List.map_cons, List.map_nil, List.sum_cons,
      List.sum_nil, if_neg hne]
    exact le_rfl
  | @withdraw ctx p ha hc hb hq =>
    have hne : k ≠ ctx.reserver_base_ata := hk _ _ _
    have hne' : k ≠ ctx.reserver_quote_ata := hk _ _ _
    simp [Bank.outgoing, AWithdraw.payments, hne, hne']
  | transfer hpay => simp [Bank.outgoing, Action.spends]
  | open_ata hM hnew => simp [Bank.outgoing]

/-- The actions that come to no deal move nothing. -/
theorem step_balance_of_not_deals (hwf : AtaWf l.tokens) (h : step spl l a = .ok l')
    (ha : ¬ a.Deals) (x : Pubkey) : l'.tokens.balance x = l.tokens.balance x := by
  cases a with
  | ix i =>
    cases i with
    | init_main_state ctx =>
      rw [(init_main_state_eq_ok.mp h).2]
      exact balance_ensure
    | transfer_ownership ctx new_owner =>
      obtain ⟨ms, -, -, -, rfl⟩ := transfer_ownership_eq_ok.mp h
      rfl
    | update_main_state ctx input =>
      obtain ⟨ms, ms', -, rfl⟩ := (update_main_state_eq_ok hwf).mp h
      exact balance_ensure
    | _ => exact absurd trivial ha
  | create_account bytes owner mint =>
    simp only [step, bind_eq_ok, load_eq_ok, mapError_eq_ok, spl.create_eq_ok, pure_eq_ok] at h
    obtain ⟨-, -, t, ⟨hnew, rfl⟩, rfl⟩ := h
    exact Bank.balance_opened hnew x
  | tick ts =>
    rw [← pure_eq_ok.mp h]
  | _ => exact absurd trivial ha

/-- **What a step takes from a wallet.** -/
theorem step_balance_le_add_spends (hinv : Inv l) (h : step spl l a = .ok l')
    (hk : ∀ b q mint, k ≠ .ata (.poolState b q) mint)
    (hfits : ∀ i, a = .ix i → k ∈ a.debits → i.TotalFits l) :
    l.tokens.balance k ≤ l'.tokens.balance k + a.spends l k := by
  by_cases ha : a.Deals
  · obtain ⟨d, hd, hdone⟩ := (step_iff hinv ha).mp h
    have hbal := hdone.balance_eq k
    have hout := hd.outgoing_le hinv hk hfits
    omega
  · rw [step_balance_of_not_deals hinv.ata h ha k]
    exact Nat.le_add_right _ _

theorem Action.spends_congr {l₁ l₂ : Ledger} (h : l₁.mints = l₂.mints) (a : Action) (k : Pubkey) :
    a.spends l₁ k = a.spends l₂ k := by
  have hsupply : ∀ mint, l₁.supply mint = l₂.supply mint := by
    intro mint
    rw [Ledger.supply, h, Ledger.supply]
  unfold Action.spends
  split <;> simp [hsupply]

/-- **What a wallet can lose.** In every run from a reachable ledger an account of a wallet
stays the wallet's and loses at most the sum of what the arguments of the actions on it allow,
if the totals of the exact-tokens buys paid out of it fit 64 bits. -/
theorem losses_bounded (spl : TokenProgram Pubkey) {c : TokenAccount Pubkey}
    (hl : Reachable spl l) (hrun : Runs.run (step spl) l as = .ok l')
    (hk : l.tokens.lookup k = some c) (ho : c.owner.is_signer = true)
    (hfits : ∀ done i rest m, as = done ++ .ix i :: rest → Runs.run (step spl) l done = .ok m →
      k ∈ (Action.ix i).debits → i.TotalFits m) :
    ∃ n, l'.tokens.lookup k = some ⟨c.mint, c.owner, n⟩ ∧
      c.amount.toNat ≤ n.toNat + (as.map fun a => a.spends l k).sum := by
  have hwallet : ∀ b q mint, k ≠ .ata (.poolState b q) mint := by
    intro b q mint hkk
    rw [hkk] at hk
    rw [(hl.inv.ata _ _ _ hk).1] at ho
    cases ho
  have key := Runs.run_le_add_sum
    (P := fun m => Inv m ∧ m.mints = l.mints ∧ ∃ n, m.tokens.lookup k = some ⟨c.mint, c.owner, n⟩)
    (C := fun m a => ∀ i, a = .ix i → k ∈ a.debits → i.TotalFits m)
    (f := fun m => m.tokens.balance k) (c := fun a => a.spends l k) ?_
    ⟨hl.inv, rfl, c.amount, hk⟩ hrun ?_
  · obtain ⟨⟨-, -, n, hn⟩, hle⟩ := key
    refine ⟨n, hn, ?_⟩
    rw [Bank.balance_of_lookup hk, Bank.balance_of_lookup hn] at hle
    exact hle
  · rintro m a m' ⟨hinv, hmints, n, hn⟩ hfit hstep
    have hf := step_frame hinv.ata hstep
    obtain ⟨n', hn'⟩ := hf.tokens.lookup hn
    refine ⟨⟨hinv.step hstep, hf.mints.trans hmints, n', hn'⟩, ?_⟩
    rw [← Action.spends_congr hmints]
    exact step_balance_le_add_spends hinv hstep hwallet hfit
  · intro done a rest m has hm i hi hki
    rw [hi] at has hki
    exact hfits done i rest m has hm hki

/-- `bob` sends 5 quote tokens and lets a buy take 1000 more. -/
theorem losses_bounded_sample : ∃ (l l' : Ledger) (n : U64), Reachable .reference l ∧
    l'.tokens.lookup (.ata bob.1 QUOTE_MINT) = some ⟨QUOTE_MINT, bob.1, n⟩ ∧
    1000000000000000000 ≤ n.toNat + 1005 := by
  let as : List Action := [.token_transfer bob (.ata bob.1 QUOTE_MINT)
      (.ata DEFAULT_OWNER QUOTE_MINT) 5,
    .ix (.buy_tokens_from_exact_quote ⟨bob, DEFAULT_OWNER, coin, QUOTE_MINT⟩ 1000 0)]
  obtain ⟨l', hl', -⟩ := exists_eq_ok (x := Runs.run (step .reference) launched (opening ++ as))
    (f := fun _ => ()) (b := ()) (by decide +kernel)
  obtain ⟨l, hl, has⟩ := Runs.run_append.mp hl'
  obtain ⟨l₁, hl₁, hv⟩ := exists_eq_ok (x := Runs.run (step .reference) launched opening)
    (f := fun l => l.tokens.lookup (.ata bob.1 QUOTE_MINT))
    (b := some ⟨QUOTE_MINT, bob.1, 1000000000000000000⟩) (by decide +kernel)
  rw [hl, Except.ok.injEq] at hl₁
  rw [← hl₁] at hv
  have hreach : Reachable .reference l := ⟨launched, opening, launched_genesis, hl⟩
  obtain ⟨n, hn, hle⟩ := losses_bounded .reference hreach has hv rfl (by
    intro done i rest m hsplit _ _
    -- the only instruction is an exact-quote buy
    have hmem : Action.ix i ∈ as := by simp [hsplit]
    simp only [as, List.mem_cons, List.not_mem_nil, or_false, reduceCtorEq, false_or,
      Action.ix.injEq] at hmem
    rw [hmem]
    trivial)
  exact ⟨l, l', n, hreach, hn, hle⟩

/-! ## Pools -/

/-- What an action sends to the account `k` directly. -/
def Action.gives (k : Pubkey) : Action → ℕ
  | .token_transfer _ _ destination amount => if k = destination then amount.toNat else 0
  | _ => 0

/-- From `l`, with the pool `p`, to `l'`, with the pool `p'`, what its accounts hold beyond the
reserves has grown by the gifts `b` and `q` at least. -/
structure Locked (l l' : Ledger) (p p' : PoolState) (b q : ℕ) : Prop where
  base : l.tokens.balance p.reserver_base_ata + b + p'.real_base_reserves.toNat ≤
    l'.tokens.balance p.reserver_base_ata + p.real_base_reserves.toNat
  quote : l.tokens.balance p.reserver_quote_ata + q + p'.real_quote_reserves.toNat ≤
    l'.tokens.balance p.reserver_quote_ata + p.real_quote_reserves.toNat

section Locked

variable {p p' : PoolState}

theorem Locked.refl (l : Ledger) (p : PoolState) : Locked l l p p 0 0 := ⟨le_rfl, le_rfl⟩

theorem Locked.trans {p'' : PoolState} {b q b' q' : ℕ} (h : Locked l m p p' b q)
    (hterms : p.SameTerms p') (h' : Locked m l' p' p'' b' q') :
    Locked l l' p p'' (b + b') (q + q') := by
  have hbase := h'.base
  have hquote := h'.quote
  rw [hterms.reserver_base_ata] at hbase
  rw [hterms.reserver_quote_ata] at hquote
  have h1 := h.base
  have h2 := h.quote
  exact ⟨by omega, by omega⟩

theorem Bought.locked {ctx : ABuy} {ms : MainState} {c : Purchase} (h : Bought ctx l l' ms p c)
    (hc : c.Buys p) (hinv : Inv l) : Locked l l' p c.settled 0 0 := by
  have hpair : ctx.base_mint ≠ ctx.quote_mint := hinv.pair_of_pool h.accepts.pool_state
  have hbase := h.balance_base_le hpair
  have hquote := h.le_balance_quote hpair
  rw [h.accepts.reserver_base_ata] at hbase
  rw [h.accepts.reserver_quote_ata] at hquote
  have h1 := hc.moves.base
  have h2 := hc.moves.quote
  refine ⟨?_, ?_⟩
  · rw [Purchase.settled_real_base_reserves]
    omega
  · rw [Purchase.settled_real_quote_reserves]
    omega

theorem Sold.locked {ctx : ASell} {s s' : U64} {ms : MainState} {c : Sale}
    (h : Sold ctx s l l' ms p c) (hc : Sell ms p s s' c) (hinv : Inv l) :
    Locked l l' p c.pool_state 0 0 := by
  have hpair : ctx.base_mint ≠ ctx.quote_mint := hinv.pair_of_pool h.accepts.pool_state
  have hbase := h.le_balance_base hpair
  have hquote := h.balance_quote_le hpair
  rw [h.accepts.reserver_base_ata] at hbase
  rw [h.accepts.reserver_quote_ata] at hquote
  have h1 := hc.moves.base
  have h2 := hc.moves.quote
  have h3 := hc.output
  exact ⟨by omega, by omega⟩

theorem Withdrawn.locked {ctx : AWithdraw} (h : Withdrawn ctx l l' p) (hinv : Inv l) :
    Locked l l' p p.emptied 0 0 := by
  have hd := h.drained (hinv.pair_of_pool h.accepts.pool_state)
  have hbase := hd.base_paid
  have hquote := hd.quote_paid
  rw [h.accepts.reserver_base_ata] at hbase
  rw [h.accepts.reserver_quote_ata] at hquote
  have hempty : p.emptied.real_base_reserves.toNat = 0 ∧
      p.emptied.real_quote_reserves.toNat = 0 := ⟨rfl, rfl⟩
  exact ⟨by omega, by omega⟩

/-- An action that is not about a pool leaves its accounts what they hold, and its gifts. -/
theorem step_gives (hinv : Inv l) (h : step spl l a = .ok l') {b q x : Pubkey}
    (ha : a.pool ≠ some (.poolState b q)) :
    l.tokens.balance (.ata (.poolState b q) x) + a.gives (.ata (.poolState b q) x) ≤
      l'.tokens.balance (.ata (.poolState b q) x) := by
  have hle := (step_frame hinv.ata h).balance_le hinv.ata (m := x) ha
  cases a with
  | token_transfer authority s d n =>
    simp only [step, bind_eq_ok, transfer_eq_ok, pure_eq_ok] at h
    obtain ⟨t, ⟨S, D, ht⟩, rfl⟩ := h
    -- the pool has not signed, so the account is not the source
    have hs : Pubkey.ata (.poolState b q) x ≠ s := by
      intro hs
      have hsource := ht.source
      rw [← hs] at hsource
      have howner := (hinv.ata _ _ _ hsource).1
      rw [ht.owned] at howner
      exact authority.ne_poolState _ _ howner
    have hbal := ht.balance_eq (.ata (.poolState b q) x)
    rw [if_neg hs] at hbal
    rw [Action.gives]
    dsimp only
    omega
  | _ => exact hle

theorem PoolMove.locked (hm : PoolMove l l' k p a p') (hinv : Inv l)
    (h : step spl l a = .ok l') (hp : l.pools.lookup k = some p) :
    Locked l l' p p' (a.gives p.reserver_base_ata) (a.gives p.reserver_quote_ata) := by
  cases hm with
  | other ha =>
    rw [hinv.address k p hp] at ha
    have hbase := step_gives (x := p.base_mint) hinv h ha
    have hquote := step_gives (x := p.quote_mint) hinv h ha
    refine ⟨?_, ?_⟩
    · rw [PoolState.reserver_base_ata, PoolState.address]
      omega
    · rw [PoolState.reserver_quote_ata, PoolState.address]
      omega
  | exact_quote hk hx hb => exact hb.locked hx.buys hinv
  | exact_tokens hk hx hb => exact hb.locked hx.buys hinv
  | sell hk hx hs => exact hs.locked hx hinv
  | withdraw hk hw => exact hw.locked hinv

end Locked

/-- **Gifts to a pool are locked.** Along every run from a reachable ledger, withdrawals
included, what the two accounts of a pool hold beyond its reserves grows by at least what is
sent to them directly, and is never paid out. -/
theorem gifts_locked (spl : TokenProgram Pubkey) {p : PoolState} (hl : Reachable spl l)
    (hp : l.pools.lookup k = some p) (hrun : Runs.run (step spl) l as = .ok l') :
    ∃ p', l'.pools.lookup k = some p' ∧
      Locked l l' p p' (as.map fun a => a.gives p.reserver_base_ata).sum
        (as.map fun a => a.gives p.reserver_quote_ata).sum := by
  have key : Inv l' ∧ ∃ p', l'.pools.lookup k = some p' ∧ p.SameTerms p' ∧
      Locked l l' p p' (as.map fun a => a.gives p.reserver_base_ata).sum
        (as.map fun a => a.gives p.reserver_quote_ata).sum := by
    refine Runs.run_induction (P := fun as m => Inv m ∧ ∃ p', m.pools.lookup k = some p' ∧
      p.SameTerms p' ∧ Locked l m p p' (as.map fun a => a.gives p.reserver_base_ata).sum
        (as.map fun a => a.gives p.reserver_quote_ata).sum) ?_ ?_ hrun
    · exact ⟨hl.inv, p, hp, .refl p, .refl l p⟩
    · rintro done m a m' - ⟨hm, p₁, hp₁, hterms, hlocked⟩ hstep
      obtain ⟨p₂, hp₂, hmove⟩ := step_move hm hstep hp₁
      have hone := hmove.locked hm hstep hp₁
      rw [hterms.reserver_base_ata, hterms.reserver_quote_ata] at hone
      refine ⟨hm.step hstep, p₂, hp₂, hterms.trans hmove.terms, ?_⟩
      simp only [List.map_append, List.map_singleton, List.sum_append, List.sum_singleton]
      exact hlocked.trans hterms hone
  obtain ⟨-, p', hp', -, hlocked⟩ := key
  exact ⟨p', hp', hlocked⟩

/-- `bob` gives the pool 500 quote tokens, and buys. -/
theorem gifts_locked_sample : ∃ (l l' : Ledger) (p p' : PoolState), Reachable .reference l ∧
    l.pools.lookup coin_pool = some p ∧ l'.pools.lookup coin_pool = some p' ∧
    Locked l l' p p' 0 500 := by
  let as : List Action := [.token_transfer bob (.ata bob.1 QUOTE_MINT)
      coin_created.reserver_quote_ata 500,
    .ix (.buy_tokens_from_exact_quote ⟨bob, DEFAULT_OWNER, coin, QUOTE_MINT⟩ 1000 0)]
  obtain ⟨l, hl, hreach, -, hp, -⟩ := exists_opened
  obtain ⟨l', hl', -⟩ := exists_eq_ok (x := Runs.run (step .reference) launched (opening ++ as))
    (f := fun _ => ()) (b := ()) (by decide +kernel)
  obtain ⟨m, hm, has⟩ := Runs.run_append.mp hl'
  rw [hl, Except.ok.injEq] at hm
  rw [← hm] at has
  obtain ⟨p', hp', hlocked⟩ := gifts_locked .reference hreach hp has
  exact ⟨l, l', coin_created, p', hreach, hp, hp', hlocked⟩

end AliPumpFun
