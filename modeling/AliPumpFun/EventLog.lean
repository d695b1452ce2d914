/-
The event log as an off-chain observer reads it.

The log of a pool is the list of the events about its base mint, in the order in which they
were emitted. An observer who keeps the reserves of the latest creation or trade knows the
pool's total reserves until it is withdrawn from, and can check each trade against the event
before it. The log is first treated as a list, with a rule for each event that can be added;
then each step is shown to add what its rule allows.
-/
import AliPumpFun.LifeCycle

set_option autoImplicit false

open Words Fallible

namespace AliPumpFun

variable {spl : TokenProgram Pubkey} {l l' : Ledger} {a : Action}

/-! ## Reading a log -/

/-- The events about a base mint, oldest first. -/
def Ledger.log (l : Ledger) (b : Pubkey) : List Event :=
  l.events.filter fun e => e.base_mint = some b

namespace Event

/-- The total reserves an event reports, in base and in quote tokens. -/
def reserves : Event → Option (ℕ × ℕ)
  | .create e => some (e.base_reserves.toNat, e.quote_reserves.toNat)
  | .trade e => some (e.base_reserves.toNat, e.quote_reserves.toNat)
  | _ => none

def is_complete : Event → Bool
  | .complete _ => true
  | _ => false

def is_withdraw : Event → Bool
  | .withdraw _ => true
  | _ => false

/-- A trade comes after an event whose base reserves differ from its own by exactly its base
amount. -/
def Follows (before : Event) : Event → Prop
  | .trade e => ∃ r, before.reserves = some r ∧
      if e.is_buy = true then e.base_reserves.toNat + e.base_amount.toNat = r.1
      else e.base_reserves.toNat = r.1 + e.base_amount.toNat
  | _ => True

end Event

/-- The reserves of the latest creation or trade in a log. -/
def reported (es : List Event) : Option (ℕ × ℕ) := (es.filterMap Event.reserves).getLast?

theorem reported_snoc {es : List Event} {e : Event} {r : ℕ × ℕ} (h : e.reserves = some r) :
    reported (es ++ [e]) = some r := by
  simp [reported, List.filterMap_append, h]

theorem reported_snoc_none {es : List Event} {e : Event} (h : e.reserves = none) :
    reported (es ++ [e]) = reported es := by
  simp [reported, List.filterMap_append, h]

/-- What the log `es` of a pool in the state `p` says after `n` withdrawals. -/
structure Logged (n : ℕ) (es : List Event) (p : PoolState) : Prop where
  created : ∃ e rest, es = .create e :: rest
  follows : es.IsChain Event.Follows
  /-- While the pool trades, its last event reports its reserves. -/
  last : p.complete = false → ∃ before e, es = before ++ [e] ∧ e.reserves = some (p.base, p.quote)
  latest : n = 0 → reported es = some (p.base, p.quote)
  completions : es.countP Event.is_complete = if p.complete = true then 1 else 0
  withdrawals : es.countP Event.is_withdraw = n

namespace Logged

variable {n : ℕ} {es : List Event} {p p' : PoolState}

/-- A log starts with the creation. -/
theorem create {e : CreateEvent} (hc : p.complete = false)
    (hr : (Event.create e).reserves = some (p.base, p.quote)) : Logged 0 [.create e] p where
  created := ⟨e, [], rfl⟩
  follows := List.isChain_singleton _
  last _ := ⟨[], .create e, rfl, hr⟩
  latest _ := by simp [reported, hr]
  completions := by rw [if_neg (by rw [hc]; decide)]; rfl
  withdrawals := rfl

/-- An event that is not a trade can follow any event. -/
theorem isChain_snoc {e : Event} (h : es.IsChain Event.Follows)
    (he : ∀ e' ∈ es.getLast?, e'.Follows e) : (es ++ [e]).IsChain Event.Follows :=
  h.append (List.isChain_singleton e) fun x hx y hy => by
    obtain rfl : e = y := by simpa using hy
    exact he x hx

/-- A trade is added while the pool is incomplete. -/
theorem trade (h : Logged n es p) {e : TradeEvent} (hc : p.complete = false)
    (hc' : p'.complete = false) (hr : (Event.trade e).reserves = some (p'.base, p'.quote))
    (hb : if e.is_buy = true then p'.base + e.base_amount.toNat = p.base
      else p'.base = p.base + e.base_amount.toNat) : Logged n (es ++ [.trade e]) p' := by
  obtain ⟨b, rest, hes⟩ := h.created
  obtain ⟨before, e₀, hlast, he₀⟩ := h.last hc
  have hbase : e.base_reserves.toNat = p'.base := congrArg Prod.fst (Option.some_inj.mp hr)
  refine ⟨⟨b, rest ++ [.trade e], by rw [hes]; rfl⟩, ?_, ?_, ?_, ?_, ?_⟩
  · refine isChain_snoc h.follows fun e' he' => ?_
    obtain rfl : e₀ = e' := by simpa [hlast] using he'
    refine ⟨_, he₀, ?_⟩
    rw [hbase]
    exact hb
  · exact fun _ => ⟨es, .trade e, rfl, hr⟩
  · exact fun _ => reported_snoc hr
  · rw [List.countP_append, h.completions, hc, hc']
    rfl
  · rw [List.countP_append, h.withdrawals]
    rfl

/-- The completion is added once. -/
theorem complete (h : Logged n es p) {e : CompleteEvent} (hc : p.complete = false) :
    Logged n (es ++ [.complete e]) { p with complete := true } := by
  obtain ⟨b, rest, hes⟩ := h.created
  refine ⟨⟨b, rest ++ [.complete e], by rw [hes]; rfl⟩, ?_, ?_, ?_, ?_, ?_⟩
  · exact isChain_snoc h.follows fun _ _ => trivial
  · intro hf
    cases hf
  · exact fun h0 => (reported_snoc_none rfl).trans (h.latest h0)
  · rw [List.countP_append, h.completions, hc]
    rfl
  · rw [List.countP_append, h.withdrawals]
    rfl

/-- A withdrawal is added to the log of a complete pool. -/
theorem withdraw (h : Logged n es p) {e : WithdrawEvent} (hc : p.complete = true) :
    Logged (n + 1) (es ++ [.withdraw e]) p.emptied := by
  obtain ⟨b, rest, hes⟩ := h.created
  refine ⟨⟨b, rest ++ [.withdraw e], by rw [hes]; rfl⟩, ?_, ?_, ?_, ?_, ?_⟩
  · exact isChain_snoc h.follows fun _ _ => trivial
  · intro hf
    rw [show p.emptied.complete = p.complete from rfl, hc] at hf
    cases hf
  · intro h0
    cases h0
  · rw [List.countP_append, h.completions]
    rfl
  · rw [List.countP_append, h.withdrawals]
    rfl

end Logged

/-! ## What a step adds -/

theorem Settles.log {t : Bank Pubkey} {ps : List (Payment Pubkey)} {k b : Pubkey} {p : PoolState}
    {es : List Event} (h : Settles t ps k p es l l') (hes : ∀ e ∈ es, e.base_mint = some b) :
    l'.log b = l.log b ++ es := by
  rw [Ledger.log, h.events, List.filter_append, Ledger.log]
  congr 1
  exact List.filter_eq_self.mpr fun e he => by simpa using hes e he

/-- The events of a purchase are about its pool's base mint. -/
theorem Purchase.base_mint_of_mem {c : Purchase} {user : Pubkey} {ts : ℤ} {e : Event}
    (h : e ∈ c.events user ts) : e.base_mint = some c.pool_state.base_mint := by
  unfold Purchase.events at h
  split at h
  · simp only [List.mem_cons, List.not_mem_nil, or_false] at h
    rcases h with rfl | rfl
    · rfl
    · rfl
  · rw [List.mem_singleton.mp h]
    rfl

/-- The events of a step about a pool carry the pool's base mint. -/
theorem PoolStep.events {k : Pubkey} {p' : PoolState} (h : PoolStep l l' a k p')
    (ha : a.pool = some k) :
    ∃ es, l'.events = l.events ++ es ∧ ∀ e ∈ es, e.base_mint = some p'.base_mint := by
  rcases h with ⟨ctx, ms, mint, -, -, rfl, hc⟩ | ⟨p, -, hm⟩
  · refine ⟨_, hc.settles.events, fun e he => ?_⟩
    rw [List.mem_singleton.mp he]
    rfl
  · cases hm with
    | other hne => exact absurd ha hne
    | exact_quote _ hc hb =>
      refine ⟨_, hb.settles.events, fun e he => ?_⟩
      rw [Purchase.base_mint_of_mem he, (Purchase.terms_settled _).base_mint]
    | exact_tokens _ hc hb =>
      refine ⟨_, hb.settles.events, fun e he => ?_⟩
      rw [Purchase.base_mint_of_mem he, (Purchase.terms_settled _).base_mint]
    | sell _ hc hs =>
      refine ⟨_, hs.settles.events, fun e he => ?_⟩
      rw [List.mem_singleton.mp he]
      rfl
    | withdraw _ hw =>
      refine ⟨_, hw.settles.events, fun e he => ?_⟩
      rw [List.mem_singleton.mp he]
      rfl

/-- A step that is not about the pool of `b` adds nothing to the log of `b`. -/
theorem log_of_other (hinv : Inv l) (h : step spl l a = .ok l') {b : Pubkey}
    (ha : a.pool ≠ some (.poolState b QUOTE_MINT)) : l'.log b = l.log b := by
  have hf := step_frame hinv.ata h
  have key : ∃ es, l'.events = l.events ++ es ∧ ∀ e ∈ es, e.base_mint ≠ some b := by
    -- an action is about no pool, or about the pool whose mint its events carry
    cases hk : a.pool with
    | none =>
      obtain ⟨es, hes, hnone⟩ := hf.events
      refine ⟨es, hes, fun e he => ?_⟩
      rw [hnone hk e he]
      exact fun e => by cases e
    | some k =>
      obtain ⟨p', hp'⟩ := Finmap.mem_iff.mp (hf.acted k hk)
      obtain ⟨es, hes, hmint⟩ := (step_pool hinv h hp').events hk
      refine ⟨es, hes, fun e he heq => ha ?_⟩
      -- the pool acted on is the one of its base mint
      have hinv' := hinv.step h
      rw [hk, hinv'.address k p' hp', PoolState.address, (hinv'.pools k p' hp').quote_mint,
        Option.some_inj.mp ((hmint e he).symm.trans heq)]
  obtain ⟨es, hes, hne⟩ := key
  have hnil : es.filter (fun e => e.base_mint = some b) = [] :=
    List.filter_eq_nil_iff.mpr fun e he => by simpa using hne e he
  rw [Ledger.log, hes, List.filter_append, hnil, List.append_nil, Ledger.log]

/-! ## What the events of a step say about the step -/

/-- The trader's balances have changed by the amounts of the event. -/
def TradeEvent.Moved (e : TradeEvent) (l l' : Ledger) : Prop :=
  let base := Pubkey.ata e.user e.base_mint
  let quote := Pubkey.ata e.user QUOTE_MINT
  if e.is_buy = true then
    l'.tokens.balance base = l.tokens.balance base + e.base_amount.toNat ∧
      l'.tokens.balance quote + e.quote_amount.toNat = l.tokens.balance quote
  else
    l'.tokens.balance base + e.base_amount.toNat = l.tokens.balance base ∧
      l'.tokens.balance quote = l.tokens.balance quote + e.quote_amount.toNat

/-- The amounts of the event have left the pool's accounts for the withdrawer's. -/
structure WithdrawEvent.Moved (e : WithdrawEvent) (l l' : Ledger) : Prop where
  base_received : l'.tokens.balance (.ata e.withdrawer e.base_mint) =
    l.tokens.balance (.ata e.withdrawer e.base_mint) + e.base_amount.toNat
  quote_received : l'.tokens.balance (.ata e.withdrawer QUOTE_MINT) =
    l.tokens.balance (.ata e.withdrawer QUOTE_MINT) + e.quote_amount.toNat
  base_paid : l'.tokens.balance (.ata (.poolState e.base_mint QUOTE_MINT) e.base_mint) +
      e.base_amount.toNat =
    l.tokens.balance (.ata (.poolState e.base_mint QUOTE_MINT) e.base_mint)
  quote_paid : l'.tokens.balance (.ata (.poolState e.base_mint QUOTE_MINT) QUOTE_MINT) +
      e.quote_amount.toNat =
    l.tokens.balance (.ata (.poolState e.base_mint QUOTE_MINT) QUOTE_MINT)

/-- The pool at `k` becomes complete. -/
def Completes (l l' : Ledger) (k : Pubkey) : Prop :=
  (∀ p, l.pools.lookup k = some p → p.complete = false) ∧
    ∃ p', l'.pools.lookup k = some p' ∧ p'.complete = true

/-- What the events `es` that a step adds to the log of the pool at `k` say about the step. -/
structure Truthful (l l' : Ledger) (k : Pubkey) (es : List Event) : Prop where
  trade : ∀ e ms, .trade e ∈ es → l.main_state = some ms → e.user ≠ ms.fee_recipient →
    e.Moved l l'
  complete : es.countP Event.is_complete = 1 ↔ Completes l l' k
  complete_le : es.countP Event.is_complete ≤ 1
  withdraw : ∀ e, .withdraw e ∈ es → e.Moved l l'

section Balances

variable {ms : MainState} {p : PoolState}

theorem Bought.buyer_balances {ctx : ABuy} {c : Purchase} (h : Bought ctx l l' ms p c)
    (hpair : ctx.base_mint ≠ ctx.quote_mint) (hfee : ctx.buyer.1 ≠ ctx.fee_recipient) :
    l'.tokens.balance ctx.buyer_base_ata =
        l.tokens.balance ctx.buyer_base_ata + c.base_amount.toNat ∧
      l'.tokens.balance ctx.buyer_quote_ata + (c.fee.toNat + c.input_quote_amount.toNat) =
        l.tokens.balance ctx.buyer_quote_ata := by
  have hbase := h.settles.paid.balance_eq ctx.buyer_base_ata
  have hquote := h.settles.paid.balance_eq ctx.buyer_quote_ata
  simp [Bank.outgoing, Bank.incoming, ABuy.payments, ABuy.reserver_base_ata,
    ABuy.reserver_quote_ata, ABuy.buyer_quote_ata, ABuy.buyer_base_ata, ABuy.fee_quote_ata,
    ABuy.pool_state, hpair, hpair.symm, hfee] at hbase hquote ⊢
  exact ⟨hbase, hquote⟩

theorem Sold.seller_balances {ctx : ASell} {s : U64} {c : Sale} (h : Sold ctx s l l' ms p c)
    (hpair : ctx.base_mint ≠ ctx.quote_mint) (hfee : ctx.seller.1 ≠ ctx.fee_recipient) :
    l'.tokens.balance ctx.seller_base_ata + s.toNat = l.tokens.balance ctx.seller_base_ata ∧
      l'.tokens.balance ctx.seller_quote_ata =
        l.tokens.balance ctx.seller_quote_ata + c.output_amount.toNat := by
  have hbase := h.settles.paid.balance_eq ctx.seller_base_ata
  have hquote := h.settles.paid.balance_eq ctx.seller_quote_ata
  simp [Bank.outgoing, Bank.incoming, ASell.payments, ASell.reserver_base_ata,
    ASell.reserver_quote_ata, ASell.seller_quote_ata, ASell.seller_base_ata, ASell.fee_quote_ata,
    ASell.pool_state, hpair, hpair.symm, hfee] at hbase hquote ⊢
  exact ⟨hbase, hquote⟩

end Balances

/-! ## What a step records -/

/-- A step that turns the pool `p` at `k` into `p'` adds `es` to its log, after which the log
is right about `p'` with `w` more withdrawals. -/
structure Records (l l' : Ledger) (k : Pubkey) (p p' : PoolState) (w : ℕ) (es : List Event) :
    Prop where
  log : l'.log p.base_mint = l.log p.base_mint ++ es
  logged : ∀ n log, Logged n log p → Logged (n + w) (log ++ es) p'
  truthful : Truthful l l' k es

theorem completes_iff {k : Pubkey} {p p' : PoolState} (hp : l.pools.lookup k = some p)
    (hp' : l'.pools.lookup k = some p') :
    Completes l l' k ↔ p.complete = false ∧ p'.complete = true := by
  constructor
  · rintro ⟨hinc, q, hq, hc⟩
    obtain rfl := Option.some_inj.mp (hp'.symm.trans hq)
    exact ⟨hinc p hp, hc⟩
  · rintro ⟨hinc, hc⟩
    refine ⟨fun q hq => ?_, p', hp', hc⟩
    obtain rfl := Option.some_inj.mp (hp.symm.trans hq)
    exact hinc

/-- A trade event reports the total reserves of the pool it leaves. -/
theorem Purchase.trade_reserves {c : Purchase} {user : Pubkey} {ts : ℤ}
    (hf : c.pool_state.Fits) :
    (Event.trade (c.trade user ts)).reserves = some (c.pool_state.base, c.pool_state.quote) := by
  simp only [Event.reserves, Purchase.trade]
  rw [hf.toNat_base, hf.toNat_quote]

theorem Sale.trade_reserves {c : Sale} {user : Pubkey} {s : U64} {ts : ℤ}
    (hf : c.pool_state.Fits) :
    (Event.trade (c.trade user s ts)).reserves = some (c.pool_state.base, c.pool_state.quote) := by
  simp only [Event.reserves, Sale.trade]
  rw [hf.toNat_base, hf.toNat_quote]

/-- A purchase reports a completion exactly when it completes its pool. -/
theorem Purchase.completions_events {c : Purchase} {user : Pubkey} {ts : ℤ}
    (h : c.pool_state.complete = false) :
    (c.events user ts).countP Event.is_complete = if c.settled.complete = true then 1 else 0 := by
  unfold Purchase.events Purchase.settled
  split
  · rfl
  · rw [h]
    rfl

theorem Purchase.trade_of_mem {c : Purchase} {user : Pubkey} {ts : ℤ} {e : TradeEvent}
    (h : .trade e ∈ c.events user ts) : e = c.trade user ts := by
  unfold Purchase.events at h
  split at h <;> simpa using h

/-- The trade event of a buy reports what the buyer got and what the buyer spent. -/
theorem Bought.moved {ctx : ABuy} {ms : MainState} {p : PoolState} {c : Purchase} {ts : ℤ}
    (h : Bought ctx l l' ms p c) (hc : c.Buys p) (hp : PoolInv l p)
    (hfee : ctx.buyer.1 ≠ ms.fee_recipient) : (c.trade ctx.buyer.1 ts).Moved l l' := by
  have hpair : ctx.base_mint ≠ ctx.quote_mint := by
    rw [h.accepts.base_mint, h.accepts.quote_mint]
    exact hp.pair
  rw [← h.accepts.fee_recipient] at hfee
  obtain ⟨hbase, hquote⟩ := h.buyer_balances hpair hfee
  have hsum : (c.fee + c.input_quote_amount).toNat =
      c.fee.toNat + c.input_quote_amount.toNat := by
    rw [BitVec.toNat_add, Nat.mod_eq_of_lt h.spent]
  rw [TradeEvent.Moved, Purchase.trade, if_pos rfl, hsum]
  rw [ABuy.buyer_base_ata, h.accepts.base_mint, ← hc.moves.only.terms.base_mint] at hbase
  rw [ABuy.buyer_quote_ata, h.accepts.quote_mint, hp.quote_mint] at hquote
  exact ⟨hbase, hquote⟩

theorem Bought.records {ctx : ABuy} {ms : MainState} {p : PoolState} {c : Purchase}
    (h : Bought ctx l l' ms p c) (hc : c.Buys p) (hp : PoolInv l p) :
    Records l l' ctx.pool_state p c.settled 0 (c.events ctx.buyer.1 l.unix_timestamp) := by
  have hopen := hc.moves.only.complete.trans hc.incomplete
  refine ⟨?_, fun n log hlog => ?_, ?_⟩
  · refine h.settles.log fun e he => ?_
    rw [Purchase.base_mint_of_mem he, hc.moves.only.terms.base_mint]
  · -- the trade is recorded first, then the completion if there is one
    have htrade : Logged n (log ++ [.trade (c.trade ctx.buyer.1 l.unix_timestamp)])
        c.pool_state := hlog.trade hc.incomplete hopen (Purchase.trade_reserves h.fits)
      hc.moves.base_eq
    unfold Purchase.events Purchase.settled
    split
    · have := htrade.complete (e := ⟨c.pool_state.base_mint, l.unix_timestamp⟩) hopen
      rwa [List.append_assoc] at this
    · exact htrade
  · have hcount : (c.events ctx.buyer.1 l.unix_timestamp).countP Event.is_complete =
        if c.settled.complete = true then 1 else 0 := Purchase.completions_events hopen
    refine ⟨fun e ms' he hms huser => ?_, ?_, ?_, fun e he => ?_⟩
    · obtain rfl := Purchase.trade_of_mem he
      obtain rfl : ms = ms' := Option.some_inj.mp (h.accepts.main_state.symm.trans hms)
      exact h.moved hc hp huser
    · -- one completion is logged exactly when the pool becomes complete
      rw [completes_iff h.accepts.pool_state h.settles.lookup_self, hcount]
      simp [hc.incomplete]
    · rw [hcount]
      split <;> omega
    · unfold Purchase.events at he
      split at he <;> simp at he

/-- The trade event of a sell reports what the seller gave and what the seller got. -/
theorem Sold.moved {ctx : ASell} {s m : U64} {ms : MainState} {p : PoolState} {c : Sale} {ts : ℤ}
    (h : Sold ctx s l l' ms p c) (hc : Sell ms p s m c) (hp : PoolInv l p)
    (hfee : ctx.seller.1 ≠ ms.fee_recipient) : (c.trade ctx.seller.1 s ts).Moved l l' := by
  have hpair : ctx.base_mint ≠ ctx.quote_mint := by
    rw [h.accepts.base_mint, h.accepts.quote_mint]
    exact hp.pair
  rw [← h.accepts.fee_recipient] at hfee
  obtain ⟨hbase, hquote⟩ := h.seller_balances hpair hfee
  rw [TradeEvent.Moved, Sale.trade, if_neg Bool.false_ne_true]
  rw [ASell.seller_base_ata, h.accepts.base_mint, ← hc.moves.only.terms.base_mint] at hbase
  rw [ASell.seller_quote_ata, h.accepts.quote_mint, hp.quote_mint] at hquote
  exact ⟨hbase, hquote⟩

theorem Sold.records {ctx : ASell} {s m : U64} {ms : MainState} {p : PoolState} {c : Sale}
    (h : Sold ctx s l l' ms p c) (hc : Sell ms p s m c) (hp : PoolInv l p) :
    Records l l' ctx.pool_state p c.pool_state 0
      [.trade (c.trade ctx.seller.1 s l.unix_timestamp)] := by
  have hopen := hc.moves.only.complete.trans hc.incomplete
  refine ⟨?_, fun n log hlog => ?_, ?_⟩
  · refine h.settles.log fun e he => ?_
    rw [List.mem_singleton.mp he]
    exact congrArg some hc.moves.only.terms.base_mint
  · exact hlog.trade hc.incomplete hopen (Sale.trade_reserves h.fits) hc.moves.base_eq
  · refine ⟨fun e ms' he hms huser => ?_, ?_, ?_, fun e he => ?_⟩
    · obtain rfl : e = _ := Event.trade.inj (List.mem_singleton.mp he)
      obtain rfl : ms = ms' := Option.some_inj.mp (h.accepts.main_state.symm.trans hms)
      exact h.moved hc hp huser
    · rw [completes_iff h.accepts.pool_state h.settles.lookup_self, hopen]
      simp [Event.is_complete]
    · simp [Event.is_complete]
    · simp at he

theorem Withdrawn.records {ctx : AWithdraw} {p : PoolState} (h : Withdrawn ctx l l' p)
    (hp : PoolInv l p) : Records l l' ctx.pool_state p p.emptied 1
      [.withdraw (p.withdrawal ctx.withdrawer.1 l.unix_timestamp)] := by
  refine ⟨?_, fun n log hlog => hlog.withdraw h.complete, ?_⟩
  · refine h.settles.log fun e he => ?_
    rw [List.mem_singleton.mp he]
    rfl
  · refine ⟨fun e ms he => ?_, ?_, ?_, fun e he => ?_⟩
    · simp at he
    · -- the pool was complete before, so nothing is completed
      rw [completes_iff h.accepts.pool_state h.settles.lookup_self, h.complete]
      simp [Event.is_complete]
    · simp [Event.is_complete]
    · obtain rfl : e = _ := Event.withdraw.inj (List.mem_singleton.mp he)
      have hpair : ctx.base_mint ≠ ctx.quote_mint := by
        rw [h.accepts.base_mint, h.accepts.quote_mint]
        exact hp.pair
      have hd := h.drained hpair
      have hb := h.accepts.base_mint
      have hq := h.accepts.quote_mint.trans hp.quote_mint
      constructor
      · have := hd.base_received
        rwa [AWithdraw.withdrawer_base_ata, hb] at this
      · have := hd.quote_received
        rwa [AWithdraw.withdrawer_quote_ata, hq] at this
      · have := hd.base_paid
        rwa [AWithdraw.reserver_base_ata, AWithdraw.pool_state, hb, hq] at this
      · have := hd.quote_paid
        rwa [AWithdraw.reserver_quote_ata, AWithdraw.pool_state, hb, hq] at this

/-- A creation reports the reserves the pool starts with. -/
theorem Created.logged {ctx : ACreatePool} {ms : MainState} {mint : Mint} {ts : ℤ}
    (h : Created ctx l l' ms mint) :
    Logged 0 [.create (ctx.event ms ts)] (ctx.initial ms) := by
  refine .create rfl ?_
  have hsum := h.fits
  simp only [Event.reserves, ACreatePool.event, PoolState.base, PoolState.quote,
    ACreatePool.initial]
  rw [BitVec.toNat_add, Nat.mod_eq_of_lt hsum, Nat.add_comm]
  rfl

theorem Created.log {ctx : ACreatePool} {ms : MainState} {mint : Mint}
    (h : Created ctx l l' ms mint) :
    l'.log ctx.base_mint = l.log ctx.base_mint ++ [.create (ctx.event ms l.unix_timestamp)] :=
  h.settles.log fun e he => by
    rw [List.mem_singleton.mp he]
    rfl

/-- Saying nothing of trades, completions and withdrawals is the truth about a step that
completes nothing. -/
theorem Truthful.of_quiet {k : Pubkey} {es : List Event} (h : ¬ Completes l l' k)
    (hes : ∀ e ∈ es, ∃ c, e = .create c) : Truthful l l' k es := by
  have hcount : es.countP Event.is_complete = 0 := by
    refine List.countP_eq_zero.mpr fun e he => ?_
    obtain ⟨c, rfl⟩ := hes e he
    exact Bool.false_ne_true
  refine ⟨fun e ms he => ?_, ?_, ?_, fun e he => ?_⟩
  · obtain ⟨c, hc⟩ := hes _ he
    cases hc
  · rw [hcount]
    exact iff_of_false Nat.zero_ne_one h
  · omega
  · obtain ⟨c, hc⟩ := hes _ he
    cases hc

theorem Action.pool_of_withdrawn {k : Pubkey} (h : a.withdrawn = some k) : a.pool = some k := by
  cases a with
  | ix i =>
    cases i with
    | withdraw ctx => exact h
    | _ => cases h
  | _ => cases h

/-- Whatever becomes of a pool is recorded. -/
theorem PoolMove.records {k : Pubkey} {p p' : PoolState} (hmove : PoolMove l l' k p a p')
    (hinv : Inv l) (h : step spl l a = .ok l') (hp : l.pools.lookup k = some p)
    (hp' : l'.pools.lookup k = some p') :
    ∃ es, Records l l' k p p' (if a.withdrawn = some k then 1 else 0) es := by
  have hpi := hinv.pools k p hp
  cases hmove with
  | other ha =>
    rw [if_neg fun hw => ha (Action.pool_of_withdrawn hw)]
    refine ⟨[], ?_, fun n log hlog => by rwa [List.append_nil], ?_⟩
    · rw [List.append_nil]
      refine log_of_other hinv h ?_
      rwa [← hpi.quote_mint, ← PoolState.address, ← hinv.address k p hp]
    · refine .of_quiet (fun hc => ?_) (by simp)
      obtain ⟨h0, h1⟩ := (completes_iff hp hp').mp hc
      rw [h0] at h1
      cases h1
  | exact_quote hk hc hb => exact ⟨_, hk ▸ hb.records hc.buys hpi⟩
  | exact_tokens hk hc hb => exact ⟨_, hk ▸ hb.records hc.buys hpi⟩
  | sell hk hc hs => exact ⟨_, hk ▸ hs.records hc hpi⟩
  | @withdraw ctx hk hw =>
    have hw' : (Action.ix (.withdraw ctx)).withdrawn = some k := congrArg some hk
    rw [if_pos hw']
    exact ⟨_, hk ▸ hw.records hpi⟩

/-- What a step adds to the log of `b` is the truth about the pool of `b`. -/
theorem step_truthful (hinv : Inv l) (h : step spl l a = .ok l') (b : Pubkey) :
    ∃ es, l'.log b = l.log b ++ es ∧ Truthful l l' (.poolState b QUOTE_MINT) es := by
  cases hp : l.pools.lookup (.poolState b QUOTE_MINT) with
  | some p =>
    obtain ⟨p', hp', hmove⟩ := step_move hinv h hp
    obtain ⟨es, hrec⟩ := hmove.records hinv h hp hp'
    refine ⟨es, ?_, hrec.truthful⟩
    rw [(hinv.mints_of_pool hp).1]
    exact hrec.log
  | none =>
    cases hp' : l'.pools.lookup (.poolState b QUOTE_MINT) with
    | none =>
      -- there is no pool before and none after
      refine ⟨[], ?_, .of_quiet (fun hc => ?_) (by simp)⟩
      · rw [List.append_nil]
        refine log_of_other hinv h fun ha => ?_
        have := (step_frame hinv.ata h).acted _ ha
        exact Finmap.lookup_eq_none.mp hp' this
      · obtain ⟨-, p', hq, -⟩ := hc
        rw [hp'] at hq
        cases hq
    | some p' =>
      -- a pool that appears was created, incomplete
      rcases step_pool hinv h hp' with ⟨ctx, ms, mint, -, hk, rfl, hc⟩ | ⟨p, hq, -⟩
      · obtain ⟨rfl, -⟩ := Pubkey.poolState.inj hk
        refine ⟨_, hc.log, .of_quiet (fun hcomp => ?_) (by simp)⟩
        obtain ⟨-, q, hq, hqc⟩ := hcomp
        obtain rfl := Option.some_inj.mp (hp'.symm.trans hq)
        cases hqc
      · rw [hp] at hq
        cases hq

/-! ## Whole runs -/

/-- The logs after a run: nothing about a mint without a pool, and the truth about the pools. -/
structure Replays (as : List Action) (l : Ledger) : Prop where
  empty : ∀ b, .poolState b QUOTE_MINT ∉ l.pools → l.log b = []
  logged : ∀ k p, l.pools.lookup k = some p →
    Logged (withdrawals k as) (l.log p.base_mint) p

theorem Replays.step {as : List Action} (hr : Replays as l) (hinv : Inv l)
    (honce : ∀ k, WithdrawnOnce k as l) (h : step spl l a = .ok l') : Replays (as ++ [a]) l' where
  empty b hb := by
    have hf := step_frame hinv.ata h
    rw [log_of_other hinv h fun ha => hb (hf.acted _ ha)]
    exact hr.empty b fun hm => hb (hf.pools_mem _ hm)
  logged k p' hp' := by
    rw [withdrawals_snoc]
    rcases step_pool hinv h hp' with ⟨ctx, ms, mint, rfl, rfl, rfl, hc⟩ | ⟨p, hp, hmove⟩
    · -- a new pool: its log was empty, and nothing was withdrawn from it
      have hnew := hc.accepts.pool_new
      have h0 : withdrawals ctx.pool_state as = 0 := by
        rcases honce ctx.pool_state with ⟨h0, -⟩ | ⟨-, p, hp, -⟩
        · exact h0
        · exact absurd (Finmap.mem_of_lookup_eq_some hp) hnew
      have hempty : l.log ctx.base_mint = [] := by
        refine hr.empty _ ?_
        rw [← hc.accepts.quote_mint]
        exact hnew
      rw [h0, show (ctx.initial ms).base_mint = ctx.base_mint from rfl, hc.log, hempty]
      exact hc.logged
    · obtain ⟨es, hrec⟩ := hmove.records hinv h hp hp'
      rw [hmove.terms.base_mint, hrec.log]
      exact hrec.logged _ _ (hr.logged k p hp)

theorem run_replays {g : Ledger} {as : List Action} (hg : Genesis g)
    (hrun : Runs.run (step spl) g as = .ok l) : Replays as l := by
  refine Runs.run_induction (P := fun as m => Replays as m) ?_ ?_ hrun
  · -- at first there is neither a log nor a pool
    refine ⟨fun b _ => ?_, fun k p hp => ?_⟩
    · rw [Ledger.log, hg.no_events]
      rfl
    · rw [hg.no_pools] at hp
      cases hp
  · intro done m a m' hdone hr hstep
    exact hr.step (hg.inv.run hdone) (run_withdrawnOnce hg hdone) hstep

/-- What the events of a run from `g` say about the pool at `k`, which it leaves as `p`. -/
structure EventLog (spl : TokenProgram Pubkey) (g : Ledger) (as : List Action) (l : Ledger)
    (k : Pubkey) (p : PoolState) : Prop
    extends Logged (AliPumpFun.withdrawals k as) (l.log p.base_mint) p where
  withdrawn_once : (l.log p.base_mint).countP Event.is_withdraw ≤ 1
  /-- Every step of the run adds to the log what it did, and nothing else. -/
  steps : ∀ (done : List Action) (a : Action) (rest : List Action) (l₀ l₁ : Ledger),
    as = done ++ a :: rest → Runs.run (step spl) g done = .ok l₀ → step spl l₀ a = .ok l₁ →
      ∃ es, l₁.log p.base_mint = l₀.log p.base_mint ++ es ∧ Truthful l₀ l₁ k es

/-- **The event log replays to the pool state**, in every run of any actions. -/
theorem event_log_replays (spl : TokenProgram Pubkey) {g l : Ledger} {as : List Action}
    {k : Pubkey} {p : PoolState} (hg : Genesis g) (hrun : Runs.run (step spl) g as = .ok l)
    (hp : l.pools.lookup k = some p) : EventLog spl g as l k p := by
  have hlog := (run_replays hg hrun).logged k p hp
  have hinv := hg.inv.run hrun
  refine ⟨hlog, ?_, ?_⟩
  · rw [hlog.withdrawals]
    rcases run_withdrawnOnce hg hrun k with ⟨h0, -⟩ | ⟨h1, -⟩
    · omega
    · omega
  · intro done a rest l₀ l₁ _ hdone hstep
    rw [hinv.address k p hp, PoolState.address, (hinv.pools k p hp).quote_mint]
    exact step_truthful (hg.inv.run hdone) hstep p.base_mint

/-- A buy, its completion and the withdrawal, as the log tells them. -/
theorem event_log_replays_sample : ∃ l p, EventLog .reference launched (opening ++
    [.ix (.buy_tokens_from_exact_quote ⟨bob, DEFAULT_OWNER, coin, QUOTE_MINT⟩ 31000000000000 0),
      .ix (.withdraw ⟨default_owner, coin, QUOTE_MINT⟩)]) l coin_pool p ∧
    (l.log coin).length = 4 := by
  obtain ⟨l, hl, hv⟩ := exists_eq_ok (x := Runs.run (step .reference) launched (opening ++
      [.ix (.buy_tokens_from_exact_quote ⟨bob, DEFAULT_OWNER, coin, QUOTE_MINT⟩ 31000000000000 0),
        .ix (.withdraw ⟨default_owner, coin, QUOTE_MINT⟩)]))
    (f := fun l => (l.pools.lookup coin_pool, (l.log coin).length))
    (b := (some { coin_created with real_base_reserves := 0, complete := true }, 4))
    (by decide +kernel)
  simp only [Prod.mk.injEq] at hv
  exact ⟨l, _, event_log_replays .reference launched_genesis hl hv.1, hv.2⟩

end AliPumpFun
