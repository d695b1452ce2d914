/-
The order of actions that have nothing to do with each other.

Two actions are independent when they are about different pools, neither takes from an
account that the other takes from or pays into, and neither opens an account whose existence
matters to the other. All trades of a chain pay the same fee account, and this is allowed:
what is only paid into can be shared.

Each action between the parties of the chain comes to a `Deal`, which its checks decide on
without looking at anything an independent action changes. So the same two deals are made in
either order, and the ledgers that result differ in the order of their events only, and not
in that of the events about one base mint.
-/
import AliPumpFun.Traces
import AliPumpFun.Admission
import AliPumpFun.EventLog

set_option autoImplicit false

open Words Fallible

namespace AliPumpFun

variable {spl : TokenProgram Pubkey} {l l' m n t : Ledger} {a b : Action}

/-! ## Deals -/

/-- What an action comes to: the associated accounts it opens where they are missing, the
payments it makes, the pool it writes and the events it emits. -/
structure Deal where
  opens : List (Pubkey × Pubkey)
  payments : List (Payment Pubkey)
  written : Option (Pubkey × PoolState)
  events : List Event

/-- The pools with the one the deal writes. -/
def Deal.write (d : Deal) (pools : Finmap fun _ : Pubkey => PoolState) :
    Finmap fun _ : Pubkey => PoolState :=
  match d.written with
  | none => pools
  | some (k, p) => pools.insert k p

/-- The deal is made on `l` and leaves `l'`. -/
structure Deal.Done (d : Deal) (l l' : Ledger) : Prop where
  paid : (ensured l.tokens d.opens).Paid d.payments l'.tokens
  ledger : l' = { l with
    tokens := l'.tokens
    pools := d.write l.pools
    events := l.events ++ d.events }

/-- The deal of a buy. -/
def ABuy.deal (ctx : ABuy) (c : Purchase) (timestamp : ℤ) : Deal where
  opens := ctx.opens
  payments := ctx.payments c
  written := some (ctx.pool_state, c.settled)
  events := c.events ctx.buyer.1 timestamp

/-- The actions decide on deals. The instructions on the main state, the clock and the
opening of plain accounts do not. -/
inductive Decides (l : Ledger) : Action → Deal → Prop
  | create {ctx : ACreatePool} {ms : MainState} {mint : Mint} :
      ctx.Accepts l ms mint → ctx.reserver_base_ata ∉ l.tokens →
      ctx.reserver_quote_ata ∉ l.tokens →
      ms.total_supply.toNat + ms.init_virt_base_reserves.toNat < 2 ^ 64 →
      Decides l (.ix (.create_pool ctx)) ⟨ctx.opens, ctx.payments mint.supply,
        some (ctx.pool_state, ctx.initial ms), [.create (ctx.event ms l.unix_timestamp)]⟩
  | exact_quote {ctx : ABuy} {q q' : U64} {ms : MainState} {p : PoolState} {c : Purchase} :
      ExactQuote ms p q q' c → ctx.Accepts l ms p →
      c.fee.toNat + c.input_quote_amount.toNat < 2 ^ 64 → c.pool_state.Fits →
      Decides l (.ix (.buy_tokens_from_exact_quote ctx q q')) (ctx.deal c l.unix_timestamp)
  | exact_tokens {ctx : ABuy} {q q' : U64} {ms : MainState} {p : PoolState} {c : Purchase} :
      ExactTokens ms p q q' c → ctx.Accepts l ms p →
      c.fee.toNat + c.input_quote_amount.toNat < 2 ^ 64 → c.pool_state.Fits →
      Decides l (.ix (.buy_exact_tokens_from_quote ctx q q')) (ctx.deal c l.unix_timestamp)
  | sell {ctx : ASell} {s s' : U64} {ms : MainState} {p : PoolState} {c : Sale} :
      Sell ms p s s' c → ctx.Accepts s l ms p → c.pool_state.Fits →
      Decides l (.ix (.sell ctx s s')) ⟨ctx.opens, ctx.payments s c,
        some (ctx.pool_state, c.pool_state),
        [.trade (c.trade ctx.seller.1 s l.unix_timestamp)]⟩
  | withdraw {ctx : AWithdraw} {p : PoolState} :
      ctx.Accepts l p → p.complete = true → 0 < p.real_base_reserves.toNat →
      0 < p.real_quote_reserves.toNat →
      Decides l (.ix (.withdraw ctx)) ⟨ctx.opens, ctx.payments p,
        some (ctx.pool_state, p.emptied),
        [.withdraw (p.withdrawal ctx.withdrawer.1 l.unix_timestamp)]⟩
  | transfer {authority : Signer} {s d : Pubkey} {k : U64} :
      l.tokens.Payable ⟨s, d, authority.1, k⟩ →
      Decides l (.token_transfer authority s d k) ⟨[], [⟨s, d, authority.1, k⟩], none, []⟩
  | open_ata {owner mint : Pubkey} {M : Mint} :
      l.mints.lookup mint = some M → .ata owner mint ∉ l.tokens →
      Decides l (.create_ata owner mint) ⟨[(owner, mint)], [], none, []⟩

/-- The actions that come to deals. -/
def Action.Deals : Action → Prop
  | .ix (.init_main_state _) => False
  | .ix (.transfer_ownership _ _) => False
  | .ix (.update_main_state _ _) => False
  | .create_account _ _ _ => False
  | .tick _ => False
  | _ => True

/-- What a deal of one payment does is what the transfer does. -/
theorem paid_singleton {b b' : Bank Pubkey} {x : Payment Pubkey} :
    b.Paid [x] b' ↔
      ∃ S D, b.Transferred x.source x.destination x.authority x.amount S D b' := by
  rw [Bank.paid_cons]
  constructor
  · rintro ⟨b₁, hx, hb⟩
    rw [Bank.paid_nil.mp hb]
    exact hx
  · intro hx
    exact ⟨b', hx, rfl⟩

/-- **An action is its deal.** -/
theorem step_iff (hinv : Inv l) (ha : a.Deals) :
    step spl l a = .ok l' ↔ ∃ d, Decides l a d ∧ d.Done l l' := by
  have hwf := hinv.ata
  constructor
  · intro h
    cases a with
    | ix i =>
      cases i with
      | create_pool ctx =>
        obtain ⟨ms, mint, hc⟩ := (create_pool_eq_ok hwf).mp h
        exact ⟨_, .create hc.accepts hc.base_new hc.quote_new hc.fits, hc.settles.paid,
          hc.settles.ledger⟩
      | buy_tokens_from_exact_quote ctx q q' =>
        obtain ⟨ms, p, c, hx, hb⟩ := hinv.exact_quote_iff.mp h
        exact ⟨_, .exact_quote hx hb.accepts hb.spent hb.fits, hb.settles.paid,
          hb.settles.ledger⟩
      | buy_exact_tokens_from_quote ctx q q' =>
        obtain ⟨ms, p, c, hx, hb⟩ := hinv.exact_tokens_iff.mp h
        exact ⟨_, .exact_tokens hx hb.accepts hb.spent hb.fits, hb.settles.paid,
          hb.settles.ledger⟩
      | sell ctx s s' =>
        obtain ⟨ms, p, c, hx, hs⟩ := hinv.sell_iff.mp h
        exact ⟨_, .sell hx hs.accepts hs.fits, hs.settles.paid, hs.settles.ledger⟩
      | withdraw ctx =>
        obtain ⟨p, hw⟩ := (withdraw_eq_ok hwf).mp h
        exact ⟨_, .withdraw hw.accepts hw.complete hw.base_pos hw.quote_pos, hw.settles.paid,
          hw.settles.ledger⟩
      | _ => exact ha.elim
    | token_transfer authority s d k =>
      simp only [step, bind_eq_ok, transfer_eq_ok, pure_eq_ok] at h
      obtain ⟨b', ⟨S, D, ht⟩, rfl⟩ := h
      have hpay : l.tokens.Payable ⟨s, d, authority.1, k⟩ := by
        refine ⟨S.mint, S.amount, D.owner, D.amount, ?_, ?_⟩
        · rw [← ht.owned]
          exact ht.source
        · rw [ht.same_mint]
          exact ht.destination
      refine ⟨_, .transfer hpay, paid_singleton.mpr ⟨S, D, ht⟩, ?_⟩
      simp [Deal.write]
    | create_ata owner mint =>
      simp only [step, bind_eq_ok, load_eq_ok, init_ata_eq_ensure, pure_eq_ok] at h
      obtain ⟨M, hM, _, ⟨hnew, rfl⟩, rfl⟩ := h
      refine ⟨_, .open_ata hM hnew, rfl, ?_⟩
      simp [Deal.write]
    | _ => exact ha.elim
  · rintro ⟨d, hd, hdone⟩
    have hledger := hdone.ledger
    have hpaid := hdone.paid
    cases hd with
    | create h hb hq hf =>
      exact (create_pool_eq_ok hwf).mpr ⟨_, _, h, hb, hq, hf, hpaid, hledger⟩
    | exact_quote hx h hs hf =>
      exact hinv.exact_quote_iff.mpr ⟨_, _, _, hx, h, hs, hf, hpaid, hledger⟩
    | exact_tokens hx h hs hf =>
      exact hinv.exact_tokens_iff.mpr ⟨_, _, _, hx, h, hs, hf, hpaid, hledger⟩
    | sell hx h hf => exact hinv.sell_iff.mpr ⟨_, _, _, hx, h, hf, hpaid, hledger⟩
    | withdraw h hc hb hq =>
      exact (withdraw_eq_ok hwf).mpr ⟨_, h, hc, hb, hq, hpaid, hledger⟩
    | transfer hpay =>
      simp only [step, bind_eq_ok, transfer_eq_ok, pure_eq_ok]
      refine ⟨l'.tokens, paid_singleton.mp hpaid, ?_⟩
      rw [hledger]
      simp [Deal.write]
    | open_ata hM hnew =>
      simp only [step, bind_eq_ok, load_eq_ok, init_ata_eq_ensure, pure_eq_ok]
      refine ⟨_, hM, l'.tokens, ⟨hnew, (Bank.paid_nil.mp hpaid).symm⟩, ?_⟩
      rw [hledger]
      simp [Deal.write]

/-! ## What an action touches -/

/-- The accounts an action takes from. -/
def Action.debits : Action → List Pubkey
  | .ix (.create_pool ctx) => [ctx.creator_base_ata]
  | .ix (.buy_tokens_from_exact_quote ctx _ _) => [ctx.buyer_quote_ata, ctx.reserver_base_ata]
  | .ix (.buy_exact_tokens_from_quote ctx _ _) => [ctx.buyer_quote_ata, ctx.reserver_base_ata]
  | .ix (.sell ctx _ _) => [ctx.seller_base_ata, ctx.reserver_quote_ata]
  | .ix (.withdraw ctx) => [ctx.reserver_base_ata, ctx.reserver_quote_ata]
  | .token_transfer _ source _ _ => [source]
  | _ => []

/-- The accounts an action pays into. -/
def Action.credits : Action → List Pubkey
  | .ix (.create_pool ctx) => [ctx.reserver_base_ata]
  | .ix (.buy_tokens_from_exact_quote ctx _ _) =>
    [ctx.fee_quote_ata, ctx.reserver_quote_ata, ctx.buyer_base_ata]
  | .ix (.buy_exact_tokens_from_quote ctx _ _) =>
    [ctx.fee_quote_ata, ctx.reserver_quote_ata, ctx.buyer_base_ata]
  | .ix (.sell ctx _ _) => [ctx.reserver_base_ata, ctx.fee_quote_ata, ctx.seller_quote_ata]
  | .ix (.withdraw ctx) => [ctx.withdrawer_base_ata, ctx.withdrawer_quote_ata]
  | .token_transfer _ _ destination _ => [destination]
  | _ => []

/-- The accounts of which it matters to an action whether they exist. -/
def Action.finds : Action → List Pubkey
  | .ix (.create_pool ctx) =>
    [ctx.creator_base_ata, ctx.reserver_base_ata, ctx.reserver_quote_ata]
  | .token_transfer _ source destination _ => [source, destination]
  | .create_ata owner mint => [.ata owner mint]
  | _ => []

/-- Two actions that have nothing to do with each other. -/
structure Independent (a b : Action) : Prop where
  left : a.Deals
  right : b.Deals
  pools : a.pool = none ∨ a.pool ≠ b.pool
  debits : ∀ x ∈ a.debits, x ∉ b.debits ∧ x ∉ b.credits
  credits : ∀ x ∈ a.credits, x ∉ b.debits
  finds : ∀ x ∈ a.finds, x ∉ b.inits
  inits : ∀ x ∈ a.inits, x ∉ b.finds

theorem Independent.symm (h : Independent a b) : Independent b a where
  left := h.right
  right := h.left
  pools := by
    rcases h.pools with hn | hne
    · by_cases hb : b.pool = none
      · exact .inl hb
      · rw [hn]
        exact .inr hb
    · exact .inr hne.symm
  debits x hx := ⟨fun ha => (h.debits x ha).1 hx, fun ha => h.credits x ha hx⟩
  credits x hx ha := (h.debits x ha).2 hx
  finds x hx ha := h.inits x ha hx
  inits x hx ha := h.finds x ha hx

/-- The deal stays within what the action touches, and its events are about the pool's mint. -/
structure Deal.Within (d : Deal) (a : Action) : Prop where
  sources : ∀ x ∈ d.payments, x.source ∈ a.debits
  destinations : ∀ x ∈ d.payments, x.destination ∈ a.credits
  opens : ∀ om ∈ d.opens, .ata om.1 om.2 ∈ a.inits
  written : ∀ k p, d.written = some (k, p) → a.pool = some k
  events : ∀ e ∈ d.events, ∃ b, e.base_mint = some b ∧ a.pool = some (.poolState b QUOTE_MINT)

theorem ABuy.deal_within {ctx : ABuy} {i : Instruction} {ms : MainState} {p : PoolState}
    {c : Purchase} (hinv : Inv l) (ha : ctx.Accepts l ms p) (hc : c.Buys p)
    (hd : (Action.ix i).debits = [ctx.buyer_quote_ata, ctx.reserver_base_ata])
    (hc' : (Action.ix i).credits =
      [ctx.fee_quote_ata, ctx.reserver_quote_ata, ctx.buyer_base_ata])
    (hi : i.inits = [ctx.fee_quote_ata, ctx.buyer_base_ata, ctx.buyer_quote_ata])
    (hk : i.pool = some ctx.pool_state) :
    (ctx.deal c l.unix_timestamp).Within (.ix i) where
  sources x hx := by
    rw [hd]
    simp only [deal, payments, List.mem_cons, List.not_mem_nil, or_false] at hx
    rcases hx with rfl | rfl | rfl <;> simp
  destinations x hx := by
    rw [hc']
    simp only [deal, payments, List.mem_cons, List.not_mem_nil, or_false] at hx
    rcases hx with rfl | rfl | rfl <;> simp
  opens om hom := by
    rw [Action.inits, hi]
    simp only [deal, ABuy.opens, List.mem_cons, List.not_mem_nil, or_false] at hom
    rcases hom with rfl | rfl | rfl <;>
      simp [fee_quote_ata, buyer_base_ata, buyer_quote_ata]
  written k q hw := by
    simp only [deal, Option.some.injEq, Prod.mk.injEq] at hw
    rw [← hw.1]
    exact hk
  events e he := by
    refine ⟨ctx.base_mint, ?_, ?_⟩
    · have hb : c.pool_state.base_mint = ctx.base_mint := by
        rw [ha.base_mint, ← hc.terms.base_mint]
        exact c.terms_settled.base_mint.symm
      simp only [deal, Purchase.events] at he
      split at he
      · simp only [List.mem_cons, List.not_mem_nil, or_false] at he
        rcases he with rfl | rfl
        · exact congrArg some hb
        · exact congrArg some hb
      · rw [List.mem_singleton] at he
        rw [he]
        exact congrArg some hb
    · rw [Action.pool, hk, ABuy.pool_state, ha.quote_mint,
        (hinv.pools _ p ha.pool_state).quote_mint]

/-- A deal stays within what its action touches. -/
theorem Decides.within {d : Deal} (hinv : Inv l) (hd : Decides l a d) : d.Within a := by
  cases hd with
  | @create ctx ms mint ha hb hq hf =>
    refine ⟨?_, ?_, ?_, ?_, ?_⟩
    · simp [ACreatePool.payments, Action.debits]
    · simp [ACreatePool.payments, Action.credits]
    · simp [ACreatePool.opens, Action.inits, Instruction.inits, ACreatePool.reserver_base_ata,
        ACreatePool.reserver_quote_ata]
    · rintro k p ⟨rfl, -⟩
      rfl
    · intro e he
      rw [List.mem_singleton.mp he]
      refine ⟨ctx.base_mint, rfl, ?_⟩
      rw [Action.pool, Instruction.pool, ACreatePool.pool_state, ha.quote_mint]
  | exact_quote hx ha => exact ABuy.deal_within hinv ha hx.buys rfl rfl rfl rfl
  | exact_tokens hx ha => exact ABuy.deal_within hinv ha hx.buys rfl rfl rfl rfl
  | @sell ctx s s' ms p c hx ha hf =>
    refine ⟨?_, ?_, ?_, ?_, ?_⟩
    · simp [ASell.payments, Action.debits]
    · simp [ASell.payments, Action.credits]
    · simp [ASell.opens, Action.inits, Instruction.inits, ASell.fee_quote_ata,
        ASell.seller_quote_ata]
    · rintro k p ⟨rfl, -⟩
      rfl
    · intro e he
      rw [List.mem_singleton.mp he]
      refine ⟨ctx.base_mint, ?_, ?_⟩
      · rw [ha.base_mint]
        exact congrArg some hx.moves.only.terms.base_mint
      · rw [Action.pool, Instruction.pool, ASell.pool_state, ha.quote_mint,
          (hinv.pools _ p ha.pool_state).quote_mint]
  | @withdraw ctx p ha hc hb hq =>
    refine ⟨?_, ?_, ?_, ?_, ?_⟩
    · simp [AWithdraw.payments, Action.debits]
    · simp [AWithdraw.payments, Action.credits]
    · simp [AWithdraw.opens, Action.inits, Instruction.inits, AWithdraw.withdrawer_base_ata,
        AWithdraw.withdrawer_quote_ata]
    · rintro k p ⟨rfl, -⟩
      rfl
    · intro e he
      rw [List.mem_singleton.mp he]
      refine ⟨ctx.base_mint, ?_, ?_⟩
      · rw [ha.base_mint]
        rfl
      · rw [Action.pool, Instruction.pool, AWithdraw.pool_state, ha.quote_mint,
          (hinv.pools _ p ha.pool_state).quote_mint]
  | transfer hpay => exact ⟨by simp [Action.debits], by simp [Action.credits], by simp, by simp,
      by simp⟩
  | open_ata hM hnew => exact ⟨by simp, by simp, by simp [Action.inits], by simp, by simp⟩

/-! ## Making a deal elsewhere -/

/-- The associated accounts after an opening: those before, and those opened. -/
theorem lookup_ensured {tokens : Bank Pubkey} (h : AtaWf tokens)
    (os : List (Pubkey × Pubkey)) (x mint owner : Pubkey) :
    (∃ n, (ensured tokens os).lookup x = some ⟨mint, owner, n⟩) ↔
      (∃ n, tokens.lookup x = some ⟨mint, owner, n⟩) ∨
        x = .ata owner mint ∧ (owner, mint) ∈ os := by
  induction os generalizing tokens with
  | nil => simp
  | cons om os ih =>
    rw [ensured_cons, ih h.ensure, List.mem_cons]
    have hone : (∃ n, (ensure tokens om.1 om.2).lookup x = some ⟨mint, owner, n⟩) ↔
        (∃ n, tokens.lookup x = some ⟨mint, owner, n⟩) ∨
          x = .ata owner mint ∧ (owner, mint) = om := by
      unfold ensure
      split
      · rename_i hk
        refine ⟨.inl, ?_⟩
        rintro (hx | ⟨rfl, rfl⟩)
        · exact hx
        · exact h.exists_lookup hk
      · rename_i hk
        by_cases hx : x = .ata om.1 om.2
        · have hnone : tokens.lookup x = none := by
            rw [hx]
            exact Finmap.lookup_eq_none.mpr hk
          rw [Bank.opened, hx, Finmap.lookup_insert, ← hx, hnone]
          simp only [Option.some.injEq, TokenAccount.mk.injEq, reduceCtorEq, exists_const,
            false_or]
          constructor
          · rintro ⟨n, hm, ho, -⟩
            rw [← hm, ← ho]
            exact ⟨hx, rfl⟩
          · rintro ⟨-, rfl⟩
            exact ⟨0, rfl, rfl, rfl⟩
        · rw [Bank.opened, Finmap.lookup_insert_of_ne _ hx]
          refine ⟨.inl, ?_⟩
          rintro (hn | ⟨rfl, rfl⟩)
          · exact hn
          · exact absurd rfl hx
    rw [hone, or_assoc, ← and_or_left]

/-- The two ledgers agree in what decides on the deal of `a`. -/
structure Agrees (a : Action) (l l' : Ledger) : Prop where
  mints : l'.mints = l.mints
  main_state : l'.main_state = l.main_state
  unix_timestamp : l'.unix_timestamp = l.unix_timestamp
  pool : ∀ k, a.pool = some k → l'.pools.lookup k = l.pools.lookup k
  balance : ∀ x ∈ a.debits, l'.tokens.balance x = l.tokens.balance x
  found : ∀ x ∈ a.finds, ∀ mint owner, (∃ n, l.tokens.lookup x = some ⟨mint, owner, n⟩) ↔
    ∃ n, l'.tokens.lookup x = some ⟨mint, owner, n⟩

theorem Agrees.symm (h : Agrees a l l') : Agrees a l' l where
  mints := h.mints.symm
  main_state := h.main_state.symm
  unix_timestamp := h.unix_timestamp.symm
  pool k hk := (h.pool k hk).symm
  balance x hx := (h.balance x hx).symm
  found x hx mint owner := (h.found x hx mint owner).symm

theorem Agrees.notMem (h : Agrees a l l') {x : Pubkey} (hx : x ∈ a.finds) (hn : x ∉ l.tokens) :
    x ∉ l'.tokens := by
  intro hm
  obtain ⟨c, hc⟩ := Finmap.mem_iff.mp hm
  obtain ⟨k, hk⟩ := (h.found x hx c.mint c.owner).mpr ⟨c.amount, hc⟩
  exact hn (Finmap.mem_of_lookup_eq_some hk)

theorem Agrees.accepts_buy {i : Instruction} {ctx : ABuy} {ms : MainState} {p : PoolState}
    (h : Agrees (.ix i) l l') (hinv' : Inv l') (hk : i.pool = some ctx.pool_state)
    (ha : ctx.Accepts l ms p) : ctx.Accepts l' ms p := by
  refine hinv'.accepts_buy ?_ ha.fee_recipient ?_
  · rw [h.main_state]
    exact ha.main_state
  · rw [h.pool _ hk]
    exact ha.pool_state

/-- **A deal is decided on in every ledger that agrees.** -/
theorem Agrees.decides {d : Deal} (h : Agrees a l l') (hinv' : Inv l') (hd : Decides l a d) :
    Decides l' a d := by
  cases hd with
  | @create ctx ms mint ha hb hq hf =>
    rw [← h.unix_timestamp]
    refine .create ⟨?_, ?_, ?_, ha.pair, ?_, ha.quote_mint, ?_, ha.total_supply,
      ha.mint_authority, ha.freeze_authority⟩ (h.notMem (by simp [Action.finds]) hb)
      (h.notMem (by simp [Action.finds]) hq) hf
    · rw [h.main_state]
      exact ha.main_state
    · rw [← Finmap.lookup_eq_none, h.pool _ rfl, Finmap.lookup_eq_none]
      exact ha.pool_new
    · rw [h.mints]
      exact ha.base_mint
    · rw [h.mints]
      exact ha.quote_minted
    · -- the account is there, and with the same balance
      obtain ⟨k, hk⟩ := (h.found ctx.creator_base_ata (by simp [Action.finds]) _ _).mp
        ⟨_, ha.creator_base⟩
      have hbal := h.balance ctx.creator_base_ata (by simp [Action.debits])
      rw [Bank.balance_of_lookup hk, Bank.balance_of_lookup ha.creator_base] at hbal
      rw [hk, show k = mint.supply from BitVec.eq_of_toNat_eq hbal]
  | exact_quote hx ha hs hf =>
    rw [← h.unix_timestamp]
    exact .exact_quote hx (h.accepts_buy hinv' rfl ha) hs hf
  | exact_tokens hx ha hs hf =>
    rw [← h.unix_timestamp]
    exact .exact_tokens hx (h.accepts_buy hinv' rfl ha) hs hf
  | @sell ctx s s' ms p c hx ha hf =>
    rw [← h.unix_timestamp]
    refine .sell hx (hinv'.accepts_sell ?_ ha.fee_recipient ?_ hx.amount_pos ?_) hf
    · rw [h.main_state]
      exact ha.main_state
    · rw [h.pool _ rfl]
      exact ha.pool_state
    · rw [h.balance _ (by simp [Action.debits])]
      exact ha.funded
  | @withdraw ctx p ha hc hb hq =>
    obtain ⟨ms, hms, hw⟩ := ha.main_state
    rw [← h.main_state] at hms
    rw [← h.unix_timestamp]
    refine .withdraw (hinv'.accepts_withdraw hms hw.symm ?_) hc hb hq
    rw [h.pool _ rfl]
    exact ha.pool_state
  | @transfer authority s d k hpay =>
    obtain ⟨M, k₁, o, k₂, hs, hd⟩ := hpay
    obtain ⟨k₁', hs'⟩ := (h.found s (by simp [Action.finds]) _ _).mp ⟨k₁, hs⟩
    obtain ⟨k₂', hd'⟩ := (h.found d (by simp [Action.finds]) _ _).mp ⟨k₂, hd⟩
    exact .transfer ⟨M, k₁', o, k₂', hs', hd'⟩
  | open_ata hM hnew =>
    rw [← h.mints] at hM
    exact .open_ata hM (h.notMem (by simp [Action.finds]) hnew)

/-- The payments of a deal go between accounts that exist, each to one of its mint. -/
theorem Decides.payable {d : Deal} (hinv : Inv l) (hd : Decides l a d) :
    ∀ x ∈ d.payments, (ensured l.tokens d.opens).Payable x := by
  cases hd with
  | @create ctx ms mint ha hb hq hf =>
    intro x hx
    rw [List.mem_singleton.mp hx]
    refine hinv.ata.ensured.payable ?_ ?_
    · exact mem_ensured.mpr (.inl (Finmap.mem_of_lookup_eq_some ha.creator_base))
    · exact ata_mem_ensured (by simp [ACreatePool.opens, ACreatePool.pool_state])
  | exact_quote hx ha hs hf => exact ha.payable hinv.ata _
  | exact_tokens hx ha hs hf => exact ha.payable hinv.ata _
  | sell hx ha hf => exact ha.payable hinv.ata hx.amount_pos _
  | withdraw ha hc hb hq => exact ha.payable hinv.ata
  | transfer hpay =>
    intro x hx
    rw [List.mem_singleton.mp hx]
    exact hpay
  | open_ata hM hnew =>
    intro x hx
    simp at hx

namespace Deal.Done

variable {d e : Deal}

theorem balance_eq (h : d.Done l l') (x : Pubkey) :
    l'.tokens.balance x + Bank.outgoing x d.payments =
      l.tokens.balance x + Bank.incoming x d.payments := by
  have := h.paid.balance_eq x
  rwa [balance_ensured] at this

/-- The accounts after a deal: those before, and those it opened. -/
theorem account_iff (h : d.Done l l') (hwf : AtaWf l.tokens) (x mint owner : Pubkey) :
    (∃ n, l'.tokens.lookup x = some ⟨mint, owner, n⟩) ↔
      (∃ n, l.tokens.lookup x = some ⟨mint, owner, n⟩) ∨
        x = .ata owner mint ∧ (owner, mint) ∈ d.opens := by
  rw [h.paid.lookup_iff, lookup_ensured hwf]

/-- **A deal does not change what decides on an independent action.** -/
theorem agrees (h : d.Done l l') (hd : d.Within a) (hi : Independent a b)
    (hwf : AtaWf l.tokens) : Agrees b l l' where
  mints := by rw [h.ledger]
  main_state := by rw [h.ledger]
  unix_timestamp := by rw [h.ledger]
  pool k hk := by
    rw [h.ledger]
    simp only [Deal.write]
    split
    · rfl
    · rename_i k' p hw
      have ha := hd.written k' p hw
      refine Finmap.lookup_insert_of_ne _ fun hkk => ?_
      rcases hi.pools with hn | hne
      · rw [hn] at ha
        cases ha
      · exact hne (by rw [ha, hk, hkk])
  balance x hx := by
    have hout : Bank.outgoing x d.payments = 0 :=
      Bank.outgoing_eq_zero fun p hp hxp => (hi.debits _ (hd.sources p hp)).1 (hxp ▸ hx)
    have hin : Bank.incoming x d.payments = 0 :=
      Bank.incoming_eq_zero fun p hp hxp => hi.credits _ (hd.destinations p hp) (hxp ▸ hx)
    have := h.balance_eq x
    omega
  found x hx mint owner := by
    rw [h.account_iff hwf]
    refine ⟨.inl, ?_⟩
    rintro (hn | ⟨rfl, ho⟩)
    · exact hn
    · exact absurd hx (hi.inits _ (hd.opens _ ho))

/-- **A deal can be made again** where it is decided on and its sources hold the same. -/
theorem again (h : d.Done l m) (hinv : Inv n) (hdec : Decides n a d) (ha : Agrees a l n) :
    ∃ t, d.Done n t := by
  have hw := hdec.within hinv
  obtain ⟨b', hb'⟩ := h.paid.replay (hdec.payable hinv) (hinv.total_lt d.opens) fun p hp => by
    rw [balance_ensured, balance_ensured, ha.balance _ (hw.sources p hp)]
  exact ⟨{ n with
    tokens := b'
    pools := d.write n.pools
    events := n.events ++ d.events }, hb', rfl⟩

end Deal.Done

/-! ## Two independent actions -/

/-- Ledgers that differ in the order of their events only, and not in the order of those about
one base mint. -/
structure Ledger.Same (l l' : Ledger) : Prop where
  mints : l'.mints = l.mints
  tokens : l'.tokens = l.tokens
  main_state : l'.main_state = l.main_state
  pools : l'.pools = l.pools
  unix_timestamp : l'.unix_timestamp = l.unix_timestamp
  events : ∀ mint, l'.events.filter (·.base_mint = mint) = l.events.filter (·.base_mint = mint)

namespace Ledger.Same

theorem refl (l : Ledger) : l.Same l := ⟨rfl, rfl, rfl, rfl, rfl, fun _ => rfl⟩

theorem symm (h : l.Same l') : l'.Same l :=
  ⟨h.mints.symm, h.tokens.symm, h.main_state.symm, h.pools.symm, h.unix_timestamp.symm,
    fun o => (h.events o).symm⟩

theorem trans (h : l.Same m) (h' : m.Same n) : l.Same n :=
  ⟨h'.mints.trans h.mints, h'.tokens.trans h.tokens, h'.main_state.trans h.main_state,
    h'.pools.trans h.pools, h'.unix_timestamp.trans h.unix_timestamp,
    fun o => (h'.events o).trans (h.events o)⟩

end Ledger.Same

/-- Deals within independent actions write different pools. -/
theorem Deal.write_comm {d e : Deal} (hi : Independent a b) (hd : d.Within a) (he : e.Within b)
    (pools : Finmap fun _ : Pubkey => PoolState) :
    e.write (d.write pools) = d.write (e.write pools) := by
  unfold Deal.write
  split
  · rfl
  · rename_i k p hw
    split
    · rfl
    · rename_i k' p' hw'
      have ha := hd.written k' p' hw'
      have hb := he.written k p hw
      have hne : k ≠ k' := by
        intro hk
        rcases hi.pools with hn | hne
        · rw [hn] at ha
          cases ha
        · exact hne (by rw [ha, hb, hk])
      exact (Finmap.insert_insert_of_ne _ hne.symm)

/-- No two independent deals emit events about one mint. -/
theorem Deal.filter_comm {d e : Deal} (hi : Independent a b) (hd : d.Within a)
    (he : e.Within b) (mint : Option Pubkey) :
    (d.events ++ e.events).filter (·.base_mint = mint) =
      (e.events ++ d.events).filter (·.base_mint = mint) := by
  rw [List.filter_append, List.filter_append]
  by_cases hany : ∃ x ∈ d.events, x.base_mint = mint
  · obtain ⟨x, hx, hxm⟩ := hany
    obtain ⟨b₁, hb₁, hk₁⟩ := hd.events x hx
    have hnone : e.events.filter (·.base_mint = mint) = [] := by
      rw [List.filter_eq_nil_iff]
      intro y hy hym
      rw [decide_eq_true_eq] at hym
      obtain ⟨b₂, hb₂, hk₂⟩ := he.events y hy
      -- both would be events of the pool of this mint
      rw [hym, ← hxm, hb₁, Option.some.injEq] at hb₂
      rw [← hb₂] at hk₂
      rcases hi.pools with hn | hne
      · rw [hn] at hk₁
        cases hk₁
      · exact hne (hk₁.trans hk₂.symm)
    rw [hnone, List.append_nil, List.nil_append]
  · have hnone : d.events.filter (·.base_mint = mint) = [] := by
      rw [List.filter_eq_nil_iff]
      intro x hx hxm
      exact hany ⟨x, hx, of_decide_eq_true hxm⟩
    rw [hnone, List.append_nil, List.nil_append]

/-- Two deals made in either order give the same ledger. -/
theorem Deal.Done.same {d e : Deal} {m' t' : Ledger} (hi : Independent a b) (hwd : d.Within a)
    (hwe : e.Within b) (hl : AtaWf l.tokens) (hm : AtaWf m.tokens) (hm' : AtaWf m'.tokens)
    (h₁ : d.Done l m) (h₂ : e.Done m t) (h₁' : e.Done l m') (h₂' : d.Done m' t') :
    t.Same t' := by
  have htokens : t'.tokens = t.tokens := by
    refine (Bank.Alike.eq ⟨fun x mint owner => ?_, fun x _ => ?_⟩).symm
    · rw [h₂.account_iff hm, h₁.account_iff hl, h₂'.account_iff hm', h₁'.account_iff hl, or_assoc,
        or_assoc, or_comm (a := x = _ ∧ _)]
    · have h1 := h₁.balance_eq x
      have h2 := h₂.balance_eq x
      have h3 := h₁'.balance_eq x
      have h4 := h₂'.balance_eq x
      omega
  refine ⟨?_, htokens, ?_, ?_, ?_, fun mint => ?_⟩
  · rw [h₂'.ledger, h₁'.ledger, h₂.ledger, h₁.ledger]
  · rw [h₂'.ledger, h₁'.ledger, h₂.ledger, h₁.ledger]
  · rw [h₂'.ledger, h₁'.ledger, h₂.ledger, h₁.ledger]
    exact (Deal.write_comm hi hwd hwe l.pools).symm
  · rw [h₂'.ledger, h₁'.ledger, h₂.ledger, h₁.ledger]
  · rw [h₂'.ledger, h₁'.ledger, h₂.ledger, h₁.ledger]
    dsimp only
    rw [List.append_assoc, List.append_assoc, List.filter_append l.events (e.events ++ _),
      List.filter_append l.events (d.events ++ _), Deal.filter_comm hi hwd hwe]

/-- **Independent actions can be done in either order.** -/
theorem step_swap (hinv : Inv l) (hi : Independent a b) (ha : step spl l a = .ok m)
    (hb : step spl m b = .ok t) :
    ∃ m' t', step spl l b = .ok m' ∧ step spl m' a = .ok t' ∧ t.Same t' := by
  have hinvm := hinv.step ha
  obtain ⟨d, hd, hdone⟩ := (step_iff hinv hi.left).mp ha
  obtain ⟨e, he, hedone⟩ := (step_iff hinvm hi.right).mp hb
  have hwd := hd.within hinv
  have hwe := he.within hinvm
  -- the second deal on the first ledger
  have hagree := (hdone.agrees hwd hi hinv.ata).symm
  have he' := hagree.decides hinv he
  obtain ⟨m', hm'⟩ := hedone.again hinv he' hagree
  have hb' : step spl l b = .ok m' := (step_iff hinv hi.right).mpr ⟨e, he', hm'⟩
  have hinvm' := hinv.step hb'
  -- and the first after it
  have hagree' := hm'.agrees hwe hi.symm hinv.ata
  have hd' := hagree'.decides hinvm' hd
  obtain ⟨t', ht'⟩ := hdone.again hinvm' hd' hagree'
  exact ⟨m', t', hb', (step_iff hinvm' hi.left).mpr ⟨d, hd', ht'⟩,
    hdone.same hi hwd hwe hinv.ata hinvm.ata hinvm'.ata hedone hm' ht'⟩

/-- **Independent actions that can each be done can both be done**, and what they move adds
up. -/
theorem step_both (hinv : Inv l) (hi : Independent a b) (ha : step spl l a = .ok m)
    (hb : step spl l b = .ok n) : ∃ t, step spl m b = .ok t ∧
      ∀ x, t.tokens.balance x + l.tokens.balance x =
        m.tokens.balance x + n.tokens.balance x := by
  have hinvm := hinv.step ha
  obtain ⟨d, hd, hdone⟩ := (step_iff hinv hi.left).mp ha
  obtain ⟨e, he, hedone⟩ := (step_iff hinv hi.right).mp hb
  have hagree := hdone.agrees (hd.within hinv) hi hinv.ata
  have he' := hagree.decides hinvm he
  obtain ⟨t, ht⟩ := hedone.again hinvm he' hagree
  refine ⟨t, (step_iff hinvm hi.right).mpr ⟨e, he', ht⟩, fun x => ?_⟩
  have h1 := hedone.balance_eq x
  have h2 := ht.balance_eq x
  omega

/-! ## All runs -/

/-- A deal made on ledgers that are the same leaves ledgers that are the same. -/
theorem Deal.Done.congr {d : Deal} (h : d.Done l m) (h' : d.Done l' n) (hs : l.Same l')
    (hwf : AtaWf l.tokens) : m.Same n := by
  have htokens : n.tokens = m.tokens := by
    refine (Bank.Alike.eq ⟨fun x mint owner => ?_, fun x _ => ?_⟩).symm
    · rw [h.account_iff hwf, h'.account_iff (hs.tokens ▸ hwf), hs.tokens]
    · have h1 := h.balance_eq x
      have h2 := h'.balance_eq x
      rw [hs.tokens] at h2
      omega
  refine ⟨?_, htokens, ?_, ?_, ?_, fun mint => ?_⟩
  · rw [h.ledger, h'.ledger]
    exact hs.mints
  · rw [h.ledger, h'.ledger]
    exact hs.main_state
  · rw [h.ledger, h'.ledger]
    exact congrArg d.write hs.pools
  · rw [h.ledger, h'.ledger]
    exact hs.unix_timestamp
  · rw [h.ledger, h'.ledger]
    dsimp only
    rw [List.filter_append, List.filter_append, hs.events]

theorem Ledger.Same.configured {tokens tokens' : Bank Pubkey} (hs : l.Same l')
    (ht : tokens' = tokens) (ms : MainState) (e : Event) :
    (l.configured tokens ms e).Same (l'.configured tokens' ms e) where
  mints := hs.mints
  tokens := ht
  main_state := rfl
  pools := hs.pools
  unix_timestamp := hs.unix_timestamp
  events o := by
    simp only [Ledger.configured]
    rw [List.filter_append, List.filter_append, hs.events]

/-- No action looks at the events. -/
theorem Ledger.Same.step (hs : l.Same l') (hinv : Inv l) (hinv' : Inv l')
    (h : step spl l a = .ok m) : ∃ m', step spl l' a = .ok m' ∧ m.Same m' := by
  have hdeal (ha : a.Deals) : ∃ m', AliPumpFun.step spl l' a = .ok m' ∧ m.Same m' := by
    obtain ⟨d, hd, hdone⟩ := (step_iff hinv ha).mp h
    have hagree : Agrees a l l' := by
      refine ⟨hs.mints, hs.main_state, hs.unix_timestamp, fun k _ => ?_, fun x _ => ?_,
        fun x _ mint owner => ?_⟩
      · rw [hs.pools]
      · rw [hs.tokens]
      · rw [hs.tokens]
    have hd' := hagree.decides hinv' hd
    obtain ⟨m', hm'⟩ := hdone.again hinv' hd' hagree
    exact ⟨m', (step_iff hinv' ha).mpr ⟨d, hd', hm'⟩, hdone.congr hm' hs hinv.ata⟩
  cases a with
  | ix i =>
    cases i with
    | init_main_state ctx =>
      obtain ⟨ha, rfl⟩ := init_main_state_eq_ok.mp h
      refine ⟨_, init_main_state_eq_ok.mpr ⟨⟨ha.owner, ?_, ?_, ha.quote_mint, ?_⟩, rfl⟩,
        hs.configured (by rw [hs.tokens]) _ _⟩
      · rw [hs.main_state]
        exact ha.main_state
      · rw [hs.mints]
        exact ha.quote_minted
      · rw [hs.tokens]
        exact ha.fee_quote
    | transfer_ownership ctx new_owner =>
      obtain ⟨ms, hms, ho, hne, rfl⟩ := transfer_ownership_eq_ok.mp h
      rw [← hs.main_state] at hms
      exact ⟨_, transfer_ownership_eq_ok.mpr ⟨ms, hms, ho, hne, rfl⟩,
        hs.configured hs.tokens _ _⟩
    | update_main_state ctx input =>
      obtain ⟨ms, ms', ha, rfl⟩ := (update_main_state_eq_ok hinv.ata).mp h
      have ha' : ctx.Accepts input l' ms ms' := { ha with
        main_state := by rw [hs.main_state]; exact ha.main_state
        quote_minted := by rw [hs.mints]; exact ha.quote_minted }
      exact ⟨_, (update_main_state_eq_ok hinv'.ata).mpr ⟨ms, ms', ha', rfl⟩,
        hs.configured (by rw [hs.tokens]) _ _⟩
    | _ => exact hdeal trivial
  | create_account bytes owner mint =>
    simp only [AliPumpFun.step, bind_eq_ok, load_eq_ok, mapError_eq_ok, spl.create_eq_ok,
      pure_eq_ok] at h ⊢
    obtain ⟨M, hM, t, ⟨hnew, rfl⟩, rfl⟩ := h
    rw [← hs.mints] at hM
    rw [← hs.tokens] at hnew
    refine ⟨_, ⟨M, hM, _, ⟨hnew, rfl⟩, rfl⟩, { hs with tokens := ?_ }⟩
    dsimp only
    rw [hs.tokens]
  | tick ts =>
    rw [← pure_eq_ok.mp h]
    exact ⟨_, rfl, { hs with unix_timestamp := rfl }⟩
  | _ => exact hdeal trivial

/-- Independent actions of the system can be exchanged. -/
theorem exchange (spl : TokenProgram Pubkey) : Runs.Exchange (step spl) Inv Ledger.Same
    Independent (fun l => l.tokens.balance) where
  kept := Inv.step
  refl := .refl
  symm := .symm
  trans := .trans
  counted h := by rw [h.tokens]
  independent_symm := .symm
  congr hs hs' hR h := hR.step hs hs' h
  swap := step_swap
  both := step_both

/-- What `m` has of the pools that `bs` is not about, `t` has as well. -/
structure Retains (m t : Ledger) (bs : List Action) : Prop where
  pools : ∀ k, (∀ b ∈ bs, b.pool ≠ some k) → t.pools.lookup k = m.pools.lookup k
  log : ∀ mint, (∀ b ∈ bs, b.pool ≠ some (.poolState mint QUOTE_MINT)) → t.log mint = m.log mint

theorem run_retains {bs : List Action} (hinv : Inv m) (h : Runs.run (step spl) m bs = .ok t) :
    Retains m t bs where
  pools k hk := by
    refine (Runs.run_preserves_of (P := fun s => Inv s ∧ s.pools.lookup k = m.pools.lookup k)
      (C := fun _ b => b.pool ≠ some k) ?_ ⟨hinv, rfl⟩ h ?_).2
    · rintro s b s' ⟨hs, hp⟩ hb hstep
      exact ⟨hs.step hstep, ((step_frame hs.ata hstep).pools k hb).trans hp⟩
    · intro done b rest s hbs _
      exact hk b (by simp [hbs])
  log mint hk := by
    refine (Runs.run_preserves_of (P := fun s => Inv s ∧ s.log mint = m.log mint)
      (C := fun _ b => b.pool ≠ some (.poolState mint QUOTE_MINT)) ?_ ⟨hinv, rfl⟩ h ?_).2
    · rintro s b s' ⟨hs, hlog⟩ hb hstep
      exact ⟨hs.step hstep, (log_of_other hs hstep hb).trans hlog⟩
    · intro done b rest s hbs _
      exact hk b (by simp [hbs])

theorem Ledger.Same.retains {bs : List Action} (h : t.Same l') (hr : Retains m l' bs) :
    Retains m t bs where
  pools k hk := by
    rw [← h.pools]
    exact hr.pools k hk
  log mint hk := by
    rw [← hr.log mint hk]
    exact (h.events (some mint)).symm

/-- What the first of two interleaved lists leads to is retained. -/
theorem interleaving_retains {as bs cs : List Action} (hinv : Inv l)
    (hcs : Runs.Interleaves as bs cs) (hind : ∀ a ∈ as, ∀ b ∈ bs, Independent a b)
    (hm : Runs.run (step spl) l as = .ok m) (ht : Runs.run (step spl) l cs = .ok t) :
    Retains m t bs := by
  obtain ⟨m', t', hm', ht', hsame⟩ := (exchange spl).run_interleaving hinv hcs hind ht
  rw [hm, Except.ok.injEq] at hm'
  rw [← hm'] at ht'
  exact hsame.retains (run_retains (hinv.run hm) ht')

/-! ## The results -/

/-- **The order of independent actions does not matter.** A run from a reachable ledger whose
independent neighbours are swapped, any number of times, is again a run, and what it leads to
differs in the order of events about different mints only. -/
theorem independent_actions_commute (spl : TokenProgram Pubkey) {as bs : List Action}
    (hl : Reachable spl l) (hre : Runs.Reorders Independent as bs)
    (hrun : Runs.run (step spl) l as = .ok t) :
    ∃ t', Runs.run (step spl) l bs = .ok t' ∧ t.Same t' :=
  (exchange spl).run_reorders hl.inv hre hrun

/-- **Sessions compose.** Two lists of actions, those of the one independent of those of the
other, can be interleaved in any way exactly when each can be done alone. Then every pool and
every log is as one of them alone leaves it, and what they move adds up. -/
theorem sessions_compose (spl : TokenProgram Pubkey) {as bs cs : List Action}
    (hl : Reachable spl l) (hcs : Runs.Interleaves as bs cs)
    (hind : ∀ a ∈ as, ∀ b ∈ bs, Independent a b) :
    ((∃ t, Runs.run (step spl) l cs = .ok t) ↔
      (∃ m, Runs.run (step spl) l as = .ok m) ∧ ∃ n, Runs.run (step spl) l bs = .ok n) ∧
    ∀ m n t, Runs.run (step spl) l as = .ok m → Runs.run (step spl) l bs = .ok n →
      Runs.run (step spl) l cs = .ok t → Retains m t bs ∧ Retains n t as ∧
        ∀ x, t.tokens.balance x + l.tokens.balance x =
          m.tokens.balance x + n.tokens.balance x := by
  have hex := exchange spl
  refine ⟨hex.interleaving_iff hl.inv hcs hind, fun m n t hm hn ht => ⟨?_, ?_, ?_⟩⟩
  · exact interleaving_retains hl.inv hcs hind hm ht
  · exact interleaving_retains hl.inv hcs.symm (fun b hb a ha => (hind a ha b hb).symm) hn ht
  · exact hex.interleaving_counter hl.inv hcs hind hm hn ht

/-- `bob` buys and sells all of it again. -/
def trading : List Action :=
  [.ix (.buy_tokens_from_exact_quote ⟨bob, DEFAULT_OWNER, coin, QUOTE_MINT⟩ 1000 0),
    .ix (.sell ⟨bob, DEFAULT_OWNER, coin, QUOTE_MINT⟩ 105599 0)]

/-- `alice` opens an account and moves quote tokens to it. -/
def moving : List Action :=
  [.create_ata alice.1 QUOTE_MINT, .token_transfer alice (.key 7) (.ata alice.1 QUOTE_MINT) 500]

theorem trading_independent : ∀ a ∈ trading, ∀ b ∈ moving, Independent a b := by
  intro a ha b hb
  simp only [trading, moving, List.mem_cons, List.not_mem_nil, or_false] at ha hb
  rcases ha with rfl | rfl <;> rcases hb with rfl | rfl <;>
    exact ⟨trivial, trivial, by decide, by decide, by decide, by decide, by decide⟩

/-- A ledger on which both can be done. -/
theorem exists_market : ∃ l m n, Reachable .reference l ∧
    Runs.run (step .reference) l trading = .ok m ∧
    Runs.run (step .reference) l moving = .ok n := by
  let market : List Action := opening ++ [.create_account 7 alice.1 QUOTE_MINT,
    .token_transfer bob (.ata bob.1 QUOTE_MINT) (.key 7) 1000]
  obtain ⟨m, hm, -⟩ := exists_eq_ok
    (x := Runs.run (step .reference) launched (market ++ trading)) (f := fun _ => ()) (b := ())
    (by decide +kernel)
  obtain ⟨n, hn, -⟩ := exists_eq_ok
    (x := Runs.run (step .reference) launched (market ++ moving)) (f := fun _ => ()) (b := ())
    (by decide +kernel)
  obtain ⟨l, hl, hm⟩ := Runs.run_append.mp hm
  obtain ⟨l', hl', hn⟩ := Runs.run_append.mp hn
  rw [hl, Except.ok.injEq] at hl'
  rw [← hl'] at hn
  exact ⟨l, m, n, ⟨launched, market, launched_genesis, hl⟩, hm, hn⟩

/-- `alice` opens her account before `bob` sells or after. -/
theorem independent_actions_commute_sample : ∃ (l t t' : Ledger),
    Runs.run (step .reference) l (trading ++ moving) = .ok t ∧
    Runs.run (step .reference) l (moving ++ trading) = .ok t' ∧ t.Same t' := by
  obtain ⟨l, m, n, hl, hm, hn⟩ := exists_market
  obtain ⟨t, ht, -⟩ := (exchange .reference).run_after hl.inv trading_independent hm hn
  have hrun := Runs.run_append.mpr ⟨m, hm, ht⟩
  have hre : Runs.Reorders Independent (trading ++ moving) (moving ++ trading) :=
    (Runs.Interleaves.append trading moving).symm.reorders fun b hb a ha =>
      trading_independent a ha b hb
  obtain ⟨t', ht', hsame⟩ := independent_actions_commute .reference hl hre hrun
  exact ⟨l, t, t', hrun, ht', hsame⟩

/-- The two sessions in turns. -/
theorem sessions_compose_sample : ∃ (l m n t : Ledger),
    Runs.run (step .reference) l trading = .ok m ∧ Runs.run (step .reference) l moving = .ok n ∧
    Retains m t moving ∧ Retains n t trading ∧
    ∀ x, t.tokens.balance x + l.tokens.balance x = m.tokens.balance x + n.tokens.balance x := by
  obtain ⟨l, m, n, hl, hm, hn⟩ := exists_market
  have hturns : Runs.Interleaves trading moving
      [trading[0], moving[0], trading[1], moving[1]] := .left (.right (.left (.right .nil)))
  have hcompose := sessions_compose .reference hl hturns trading_independent
  obtain ⟨t, ht⟩ := hcompose.1.mpr ⟨⟨m, hm⟩, n, hn⟩
  exact ⟨l, m, n, t, hm, hn, hcompose.2 m n t hm hn ht⟩

end AliPumpFun
