/-
The program refines the abstract curve.

Seen from one pool, every run of the system is a path of the machine of `Curve`: each
instruction on the pool is one move, nothing else moves it, and the log of the pool's base
mint shows exactly these moves. The mints, the token accounts, the owner, the fees and the
other pools are gone; what is left of the machine words is the modulus `2 ^ 64` of the
charge for an exact output.

The path is what later results about a pool are read off: its balance and its drift are
theorems of the machine.
-/
import AliPumpFun.Curve
import AliPumpFun.EventLog
import AliPumpFun.Backing

set_option autoImplicit false

open Words Fallible BondingCurve

namespace AliPumpFun

variable {spl : TokenProgram Pubkey} {l l' : Ledger} {a : Action} {t : Terms} {s : State t}

/-! ## Pools as states of a curve -/

/-- A pool on the terms `t`. -/
structure PoolState.OnTerms (t : Terms) (p : PoolState) : Prop where
  virt_base : p.virt_base_reserves.toNat = t.virt_base
  virt_quote : p.virt_quote_reserves.toNat = t.virt_quote
  threshold : p.real_quote_threshold.toNat = t.threshold

/-- The state of the curve that a pool stands for. A complete pool is at its threshold, or
it is empty. -/
inductive Represents (t : Terms) (p : PoolState) : State t → Prop
  | active {r : Reserves t} :
      p.OnTerms t → p.real_base_reserves.toNat = r.base → p.real_quote_reserves.toNat = r.quote →
      (p.complete = true ↔ r.quote = t.threshold) → Represents t p (.active r)
  | withdrawn :
      p.OnTerms t → p.complete = true → p.real_base_reserves.toNat = 0 →
      p.real_quote_reserves.toNat = 0 → Represents t p .withdrawn

/-- What an instruction asks for, and the limit it sets, are met by the move it makes. -/
def Instruction.Implements : Instruction → Move → Prop
  | .buy_tokens_from_exact_quote _ q m, .deposit n y => n ≤ q.toNat ∧ m.toNat ≤ y
  | .buy_exact_tokens_from_quote _ b _, .demand y _ => y = b.toNat
  -- a buy that is capped spends what remains, and gets what that is worth
  | .buy_exact_tokens_from_quote _ b _, .deposit _ y => y ≤ b.toNat
  | .sell _ b m, .restore x g => x = b.toNat ∧ m.toNat ≤ g
  | .withdraw _, .withdraw _ _ => True
  | _, _ => False

/-- How a move appears in the log. The base amount is the move's. The quote amount has the
fee on top in a buy, and is what the fee has left in a sell; a fee is a twentieth at the
most. -/
inductive Reports : Event → Move → Prop
  | deposit {e : TradeEvent} {n fee : ℕ} :
      e.is_buy = true → e.quote_amount.toNat = n + fee → 20 * fee ≤ e.quote_amount.toNat →
      Reports (.trade e) (.deposit n e.base_amount.toNat)
  | demand {e : TradeEvent} {n fee : ℕ} :
      e.is_buy = true → e.quote_amount.toNat = n + fee → 20 * fee ≤ e.quote_amount.toNat →
      Reports (.trade e) (.demand e.base_amount.toNat n)
  | restore {e : TradeEvent} {g fee : ℕ} :
      e.is_buy = false → g = e.quote_amount.toNat + fee → 20 * fee ≤ g →
      Reports (.trade e) (.restore e.base_amount.toNat g)
  | withdraw {e : WithdrawEvent} :
      Reports (.withdraw e) (.withdraw e.base_amount.toNat e.quote_amount.toNat)

/-- The events that report a move. -/
def Event.is_move : Event → Bool
  | .trade _ => true
  | .withdraw _ => true
  | _ => false

/-- The moves in the log of a base mint. -/
def Ledger.moves (l : Ledger) (b : Pubkey) : List Event := (l.log b).filter Event.is_move

namespace Represents

variable {p : PoolState}

theorem terms (h : Represents t p s) : p.OnTerms t := by
  cases h with
  | active ht => exact ht
  | withdrawn ht => exact ht

/-- The reserves of the pool are those of the state. -/
theorem base_eq (h : Represents t p s) : p.real_base_reserves.toNat = s.base := by
  cases h with
  | active _ hb => exact hb
  | withdrawn _ _ hb => exact hb

theorem quote_eq (h : Represents t p s) : p.real_quote_reserves.toNat = s.quote := by
  cases h with
  | active _ _ hq => exact hq
  | withdrawn _ _ _ hq => exact hq

/-- An incomplete pool stands for an open curve. -/
theorem exists_open (h : Represents t p s) (hc : p.complete = false) :
    ∃ r : Reserves t, s = .active r ∧ r.quote < t.threshold := by
  cases h with
  | @active r _ _ _ hcomp =>
    refine ⟨r, rfl, lt_of_le_of_ne r.quote_le fun heq => ?_⟩
    rw [hcomp.mpr heq] at hc
    cases hc
  | withdrawn _ hcomp =>
    rw [hc] at hcomp
    cases hcomp

end Represents

theorem PoolState.OnTerms.of_same {p p' : PoolState} (h : p.OnTerms t) (hs : p.SameTerms p') :
    p'.OnTerms t where
  virt_base := by rw [hs.virt_base_reserves, h.virt_base]
  virt_quote := by rw [hs.virt_quote_reserves, h.virt_quote]
  threshold := by rw [hs.real_quote_threshold, h.threshold]

/-- The totals a pool prices with are those of the curve. -/
theorem PoolState.OnTerms.base_eq {p : PoolState} {r : Reserves t} (h : p.OnTerms t)
    (hr : p.real_base_reserves.toNat = r.base) : p.base = r.total_base := by
  rw [PoolState.base, Reserves.total_base, h.virt_base, hr]

theorem PoolState.OnTerms.quote_eq {p : PoolState} {r : Reserves t} (h : p.OnTerms t)
    (hr : p.real_quote_reserves.toNat = r.quote) : p.quote = r.total_quote := by
  rw [PoolState.quote, Reserves.total_quote, h.virt_quote, hr]

/-- A pool that satisfies the invariant and is at its threshold if it is complete stands for
its reserves. -/
theorem PoolInv.represents {p : PoolState} (h : PoolInv l p) (ht : p.OnTerms t)
    (hb : p.real_base_reserves.toNat ≤ t.supply)
    (hc : p.complete = true → p.real_quote_reserves.toNat = p.real_quote_threshold.toNat) :
    ∃ r : Reserves t, Represents t p (.active r) ∧ r.base = p.real_base_reserves.toNat ∧
      r.quote = p.real_quote_reserves.toNat := by
  have hq : p.real_quote_reserves.toNat ≤ t.threshold := by
    rw [← ht.threshold]
    exact h.quote_le
  refine ⟨⟨_, _, hb, hq⟩, .active ht rfl rfl ?_, rfl, rfl⟩
  show p.complete = true ↔ p.real_quote_reserves.toNat = t.threshold
  rw [← ht.threshold]
  refine ⟨hc, fun heq => ?_⟩
  -- below the threshold as long as it is incomplete
  cases hcomp : p.complete with
  | true => rfl
  | false =>
    have := h.incomplete hcomp
    omega

/-! ## Fees -/

section Fees

variable {ms : MainState} {p : PoolState}

theorem MainState.Valid.mul_fee_le (h : ms.Valid) (n : ℕ) :
    20 * GrossUp.fee ms.trading_fee.toNat FEE_UNIT n ≤ n := by
  apply GrossUp.mul_fee_le
  · have := h.trading_fee
    unfold FEE_UNIT
    omega
  · decide

theorem ExactQuote.mul_fee_le {q m : U64} {c : Purchase} (h : ExactQuote ms p q m c)
    (hv : ms.Valid) : 20 * c.fee.toNat ≤ c.fee.toNat + c.input_quote_amount.toNat := by
  have hin := h.input
  have hsum := GrossUp.fee_add_net hv.trading_fee_lt.le
    (min q.toNat (GrossUp.gross ms.trading_fee.toNat FEE_UNIT p.remaining))
  rw [GrossUp.net_min_gross hv.trading_fee_lt, ← h.gross, ← hin] at hsum
  have hfee := hv.mul_fee_le (c.fee.toNat + c.input_quote_amount.toNat)
  omega

/-- The fee is computed from the total after its cast, which is paid in any case. -/
theorem ExactTokens.mul_fee_le {b m : U64} {c : Purchase} (h : ExactTokens ms p b m c)
    (hv : ms.Valid) : 20 * c.fee.toNat ≤ c.fee.toNat + c.input_quote_amount.toNat := by
  rw [h.debit]
  refine le_trans ?_ (GrossUp.gross_mod_le_debit hv.trading_fee_lt)
  rw [h.fee]
  exact hv.mul_fee_le _

theorem Sell.mul_fee_le {b m : U64} {c : Sale} (h : Sell ms p b m c) (hv : ms.Valid) :
    20 * c.fee.toNat ≤ c.gross_amount.toNat := by
  rw [h.fee]
  exact hv.mul_fee_le _

end Fees

/-! ## One step -/

theorem Settles.moves {tk : Bank Pubkey} {ps : List (Payment Pubkey)} {k b : Pubkey}
    {p : PoolState} {es : List Event} (h : Settles tk ps k p es l l')
    (hes : ∀ e ∈ es, e.base_mint = some b) :
    l'.moves b = l.moves b ++ es.filter Event.is_move := by
  rw [Ledger.moves, h.log hes, List.filter_append, Ledger.moves]

/-- A purchase reports one move, whether it completes the pool or not. -/
theorem Purchase.filter_events (c : Purchase) (user : Pubkey) (ts : ℤ) :
    (c.events user ts).filter Event.is_move = [.trade (c.trade user ts)] := by
  unfold Purchase.events
  split
  · rfl
  · rfl

theorem Bought.moves {ctx : ABuy} {ms : MainState} {p : PoolState} {c : Purchase}
    (h : Bought ctx l l' ms p c) (hc : c.Buys p) : l'.moves p.base_mint =
      l.moves p.base_mint ++ [.trade (c.trade ctx.buyer.1 l.unix_timestamp)] := by
  rw [h.settles.moves fun e he => ?_, Purchase.filter_events]
  rw [Purchase.base_mint_of_mem he, hc.moves.only.terms.base_mint]

/-- The quote amount of the event is the input with the fee on top. -/
theorem Bought.quote_amount {ctx : ABuy} {ms : MainState} {p : PoolState} {c : Purchase}
    (h : Bought ctx l l' ms p c) (user : Pubkey) (ts : ℤ) :
    (c.trade user ts).quote_amount.toNat = c.input_quote_amount.toNat + c.fee.toNat := by
  show (c.fee + c.input_quote_amount).toNat = _
  rw [BitVec.toNat_add, Nat.mod_eq_of_lt h.spent, Nat.add_comm]

/-- What the instruction `i` on the pool `p` does to the curve: it makes the move `m`, which
it asked for, and which the log reports. -/
structure Makes (l l' : Ledger) (i : Instruction) (p p' : PoolState) (s : State t) (m : Move)
    (s' : State t) : Prop where
  step : Step (2 ^ 64) s m s'
  represents : Represents t p' s'
  implements : i.Implements m
  reports : ∃ e, Reports e m ∧ l'.moves p.base_mint = l.moves p.base_mint ++ [e]

/-- The reserves a purchase leaves. -/
theorem Purchase.Buys.represents {p : PoolState} {c : Purchase} {r : Reserves t} (h : c.Buys p)
    (hr : Represents t p (.active r)) (hpi : PoolInv l' c.settled) :
    ∃ r' : Reserves t, Represents t c.settled (.active r') ∧
      r'.base + c.base_amount.toNat = r.base ∧
      r'.quote = r.quote + c.input_quote_amount.toNat := by
  have hbase := h.moves.base
  have hquote := h.moves.quote
  have hb : p.real_base_reserves.toNat = r.base := hr.base_eq
  have hq : p.real_quote_reserves.toNat = r.quote := hr.quote_eq
  have hle := r.base_le
  obtain ⟨r', hr', hb', hq'⟩ := hpi.represents (hr.terms.of_same h.terms)
    (by rw [c.settled_real_base_reserves]; omega) fun hc => by
      -- it was completed by this purchase, which found it incomplete
      rw [c.settled_complete (h.moves.only.complete.trans h.incomplete)] at hc
      have hpiq := hpi.quote_le
      rw [c.settled_real_quote_reserves, c.terms_settled.real_quote_threshold] at hpiq ⊢
      omega
  rw [c.settled_real_base_reserves] at hb'
  rw [c.settled_real_quote_reserves] at hq'
  exact ⟨r', hr', by omega, by omega⟩

theorem ExactQuote.makes {ctx : ABuy} {ms : MainState} {p : PoolState} {c : Purchase} {q m : U64}
    (h : ExactQuote ms p q m c) (hb : Bought ctx l l' ms p c) (hv : ms.Valid)
    (hpi : PoolInv l' c.settled) (hr : Represents t p s) :
    ∃ mv s', Makes l l' (.buy_tokens_from_exact_quote ctx q m) p c.settled s mv s' := by
  obtain ⟨r, rfl, hopen⟩ := hr.exists_open h.incomplete
  obtain ⟨r', hr', hbase, hquote⟩ := h.buys.represents hr hpi
  refine ⟨.deposit c.input_quote_amount.toNat c.base_amount.toNat, .active r', ?_, hr', ?_, ?_⟩
  · refine .deposit hopen ?_ hbase hquote
    rw [← hr.terms.quote_eq hr.quote_eq, ← hr.terms.base_eq hr.base_eq]
    exact h.base
  · refine ⟨?_, h.enough⟩
    have := h.gross
    omega
  · have hsum := hb.quote_amount ctx.buyer.1 l.unix_timestamp
    have hfee := h.mul_fee_le hv
    exact ⟨_, .deposit rfl hsum (by omega), hb.moves h.buys⟩

theorem ExactTokens.makes {ctx : ABuy} {ms : MainState} {p : PoolState} {c : Purchase}
    {b m : U64} (h : ExactTokens ms p b m c) (hb : Bought ctx l l' ms p c) (hv : ms.Valid)
    (hpi : PoolInv l' c.settled) (hr : Represents t p s) :
    ∃ mv s', Makes l l' (.buy_exact_tokens_from_quote ctx b m) p c.settled s mv s' := by
  obtain ⟨r, rfl, hopen⟩ := hr.exists_open h.incomplete
  obtain ⟨r', hr', hbase, hquote⟩ := h.buys.represents hr hpi
  have hsum := hb.quote_amount ctx.buyer.1 l.unix_timestamp
  have hfee := h.mul_fee_le hv
  have hQ := hr.terms.quote_eq hr.quote_eq
  have hB := hr.terms.base_eq hr.base_eq
  -- capped, it is a deposit of what remains
  rcases h.branch with ⟨-, -, -, hout⟩ | ⟨-, hin, hout⟩
  · refine ⟨.deposit c.input_quote_amount.toNat c.base_amount.toNat, .active r', ?_, hr',
      h.base_le, ⟨_, .deposit rfl hsum (by omega), hb.moves h.buys⟩⟩
    refine .deposit hopen ?_ hbase hquote
    rw [← hQ, ← hB]
    exact hout
  · refine ⟨.demand c.base_amount.toNat c.input_quote_amount.toNat, .active r', ?_, hr',
      congrArg _ hout, ⟨_, .demand rfl hsum (by omega), hb.moves h.buys⟩⟩
    refine .demand hopen ?_ hbase hquote
    rw [← hQ, ← hB, hout]
    exact hin

theorem Sell.makes {ctx : ASell} {ms : MainState} {p : PoolState} {c : Sale} {b m : U64}
    (h : Sell ms p b m c) (hs : Sold ctx b l l' ms p c) (hv : ms.Valid)
    (hpi : PoolInv l' c.pool_state) (hle : c.pool_state.real_base_reserves.toNat ≤ t.supply)
    (hr : Represents t p s) : ∃ mv s', Makes l l' (.sell ctx b m) p c.pool_state s mv s' := by
  obtain ⟨r, rfl, hopen⟩ := hr.exists_open h.incomplete
  have hterms := h.moves.only.terms
  obtain ⟨r', hr', hb', hq'⟩ := hpi.represents (hr.terms.of_same hterms) hle fun hc => by
    rw [h.moves.only.complete, h.incomplete] at hc
    cases hc
  have hb := hr.base_eq
  have hq := hr.quote_eq
  have hbase := h.moves.base
  have hquote := h.moves.quote
  simp only [State.base, State.quote] at hb hq
  refine ⟨.restore b.toNat c.gross_amount.toNat, .active r', ?_, hr', ?_, ?_⟩
  · refine .restore hopen ?_ (by omega) (by omega)
    rw [← hr.terms.quote_eq hq, ← hr.terms.base_eq hb]
    exact h.gross
  · refine ⟨rfl, ?_⟩
    have := h.enough
    have := h.output
    omega
  · have hout := h.output
    have hgross : c.gross_amount.toNat = c.output_amount.toNat + c.fee.toNat := by omega
    refine ⟨.trade (c.trade ctx.seller.1 b l.unix_timestamp),
      .restore rfl hgross (h.mul_fee_le hv), hs.settles.moves fun e he => ?_⟩
    rw [List.mem_singleton.mp he]
    exact congrArg some hterms.base_mint

theorem Withdrawn.makes {ctx : AWithdraw} {p : PoolState} (h : Withdrawn ctx l l' p)
    (hr : Represents t p s) : ∃ mv s', Makes l l' (.withdraw ctx) p p.emptied s mv s' := by
  cases hr with
  | @active r ht hb hq hc =>
    have hpos := h.base_pos
    refine ⟨.withdraw r.base r.quote, .withdrawn, .withdraw (hc.mp h.complete) (by omega),
      .withdrawn (ht.of_same p.terms_emptied) h.complete rfl rfl, trivial, ?_⟩
    rw [← hb, ← hq]
    refine ⟨_, .withdraw (e := p.withdrawal ctx.withdrawer.1 l.unix_timestamp),
      h.settles.moves fun e he => ?_⟩
    rw [List.mem_singleton.mp he]
    rfl
  | withdrawn _ _ hb =>
    -- nothing is left to withdraw
    have := h.base_pos
    omega

/-- **One instruction on a pool is one move of its curve.** -/
theorem PoolMove.makes {i : Instruction} {k : Pubkey} {p p' : PoolState}
    (h : PoolMove l l' k p (.ix i) p') (hinv : Inv l) (hpi : PoolInv l' p')
    (hle : p'.real_base_reserves.toNat ≤ t.supply) (hi : i.pool = some k)
    (hr : Represents t p s) : ∃ mv s', Makes l l' i p p' s mv s' := by
  cases h with
  | other ha => exact absurd hi ha
  | exact_quote _ hc hb => exact hc.makes hb (hinv.main_state _ hb.accepts.main_state) hpi hr
  | exact_tokens _ hc hb => exact hc.makes hb (hinv.main_state _ hb.accepts.main_state) hpi hr
  | sell _ hc hs => exact hc.makes hs (hinv.main_state _ hs.accepts.main_state) hpi hle hr
  | withdraw _ hw => exact hw.makes hr

/-! ## Whole runs -/

/-- The instruction of an action, if it is one on the pool at `k`. -/
def Action.on (k : Pubkey) : Action → Option Instruction
  | .ix i => if i.pool = some k then some i else none
  | _ => none

/-- The instructions on the pool at `k`, in their order. -/
def instructions (k : Pubkey) (as : List Action) : List Instruction := as.filterMap (Action.on k)

theorem Action.on_of_pool_ne {k : Pubkey} (h : a.pool ≠ some k) : a.on k = none := by
  cases a with
  | ix i => exact if_neg h
  | _ => rfl

theorem Action.exists_on {k : Pubkey} (h : a.pool = some k) :
    ∃ i, a = .ix i ∧ i.pool = some k ∧ a.on k = some i := by
  cases a with
  | ix i => exact ⟨i, rfl, h, if_pos h⟩
  | _ => cases h

/-- What a run from `l₀`, where the pool at `k` stands for `s₀`, has made of it in `l`: the
path `ms` from `s₀` to `s`, one move for each instruction, and the log of these moves. -/
structure Follows (k : Pubkey) (b : Pubkey) (l₀ : Ledger) (s₀ : State t) (as : List Action)
    (l : Ledger) (ms : List Move) (s : State t) (p : PoolState) : Prop where
  pool : l.pools.lookup k = some p
  path : Path (2 ^ 64) s₀ ms s
  represents : Represents t p s
  implements : List.Forall₂ Instruction.Implements (instructions k as) ms
  reports : ∃ es, l.moves b = l₀.moves b ++ es ∧ List.Forall₂ Reports es ms

theorem Follows.step {k b : Pubkey} {l₀ : Ledger} {s₀ : State t} {as : List Action}
    {ms : List Move} {p : PoolState} (h : Follows k b l₀ s₀ as l ms s p)
    (hinv : Inv l) (hb : p.base_mint = b) (hsupply : l.supply b ≤ t.supply)
    (hstep : AliPumpFun.step spl l a = .ok l') :
    ∃ ms' s' p', p'.base_mint = b ∧ Follows k b l₀ s₀ (as ++ [a]) l' ms' s' p' := by
  have hinv' := hinv.step hstep
  obtain ⟨p', hp', hmove⟩ := step_move hinv hstep h.pool
  have hb' : p'.base_mint = b := hmove.terms.base_mint.trans hb
  obtain ⟨es, hes, hrep⟩ := h.reports
  by_cases hk : a.pool = some k
  · obtain ⟨i, rfl, hi, hon⟩ := Action.exists_on hk
    -- no pool holds more than circulates
    have hpi := hinv'.pools k p' hp'
    have hle : p'.real_base_reserves.toNat ≤ t.supply := by
      have h1 := hpi.backed_base.trans (hpi.balance_base_le hinv')
      rw [hb', (step_frame hinv.ata hstep).supply] at h1
      exact h1.trans hsupply
    obtain ⟨mv, s', hm⟩ := hmove.makes hinv hpi hle hi h.represents
    obtain ⟨e, he, hlog⟩ := hm.reports
    refine ⟨ms ++ [mv], s', p', hb', hp', h.path.snoc hm.step, hm.represents, ?_, es ++ [e], ?_,
      List.rel_append hrep (.cons he .nil)⟩
    · rw [instructions, List.filterMap_append, List.filterMap_cons_some hon, List.filterMap_nil]
      exact List.rel_append h.implements (.cons hm.implements .nil)
    · rw [← hb, hlog, hb, hes, List.append_assoc]
  · -- the pool is left alone, and so is its log
    have heq : p' = p := by
      have := (step_frame hinv.ata hstep).pools k hk
      rw [hp', h.pool] at this
      exact Option.some_inj.mp this
    subst heq
    refine ⟨ms, s, p', hb', hp', h.path, h.represents, ?_, es, ?_, hrep⟩
    · rw [instructions, List.filterMap_append, List.filterMap_cons_none (Action.on_of_pool_ne hk),
        List.filterMap_nil, List.append_nil]
      exact h.implements
    · rw [Ledger.moves, log_of_other hinv hstep, ← Ledger.moves, hes]
      rwa [← hb, ← (hinv.pools k p' h.pool).quote_mint, ← PoolState.address,
        ← hinv.address k p' h.pool]

/-- From a pool that stands for `s₀` on, every run follows the curve. -/
theorem run_follows {k : Pubkey} {p₀ : PoolState} {s₀ : State t} {as : List Action}
    (hinv : Inv l) (hrun : Runs.run (step spl) l as = .ok l')
    (hp₀ : l.pools.lookup k = some p₀) (hr₀ : Represents t p₀ s₀)
    (hsupply : l.supply p₀.base_mint ≤ t.supply) :
    ∃ ms s p, Follows k p₀.base_mint l s₀ as l' ms s p := by
  have key : Inv l' ∧ l'.mints = l.mints ∧
      ∃ ms s p, p.base_mint = p₀.base_mint ∧ Follows k p₀.base_mint l s₀ as l' ms s p := by
    refine Runs.run_induction (P := fun as m => Inv m ∧ m.mints = l.mints ∧
      ∃ ms s p, p.base_mint = p₀.base_mint ∧ Follows k p₀.base_mint l s₀ as m ms s p) ?_ ?_ hrun
    · exact ⟨hinv, rfl, [], s₀, p₀, rfl, hp₀, .nil, hr₀, .nil, [], (List.append_nil _).symm, .nil⟩
    · rintro done m a m' - ⟨hm, hmints, ms, s, p, hb, hf⟩ hstep
      refine ⟨hm.step hstep, (step_frame hm.ata hstep).mints.trans hmints, ?_⟩
      refine hf.step hm hb ?_ hstep
      rw [Ledger.supply, hmints]
      exact hsupply
  obtain ⟨-, -, ms, s, p, -, hf⟩ := key
  exact ⟨ms, s, p, hf⟩

/-! ## From the creation on -/

/-- The curve that a pool created under the main state `ms` runs. -/
def MainState.terms (ms : MainState) (hv : ms.Valid) : Terms where
  virt_base := ms.init_virt_base_reserves.toNat
  virt_quote := ms.init_virt_quote_reserves.toNat
  supply := ms.total_supply.toNat
  threshold := ms.real_quote_threshold.toNat
  virt_base_pos := hv.init_virt_base_reserves
  virt_quote_pos := hv.init_virt_quote_reserves

section Creation

variable {ctx : ACreatePool} {ms : MainState} {mint : Mint} {l₀ l₁ : Ledger}

/-- A new pool stands for a new curve. -/
theorem ACreatePool.represents_initial (ctx : ACreatePool) (hv : ms.Valid) :
    Represents (ms.terms hv) (ctx.initial ms) (.active (ms.terms hv).start) := by
  refine .active ⟨rfl, rfl, rfl⟩ rfl rfl ?_
  have hpos := hv.real_quote_threshold
  show false = true ↔ 0 = ms.real_quote_threshold.toNat
  constructor
  · intro h
    cases h
  · intro h
    omega

theorem Created.run_follows {as : List Action} (h : Created ctx l₀ l₁ ms mint) (hv : ms.Valid)
    (hinv : Inv l₁) (hrun : Runs.run (step spl) l₁ as = .ok l) :
    ∃ mv s p, Follows (t := ms.terms hv) ctx.pool_state ctx.base_mint l₁
      (.active (ms.terms hv).start) as l mv s p := by
  refine AliPumpFun.run_follows hinv hrun h.settles.lookup_self (ctx.represents_initial hv) ?_
  show l₁.supply ctx.base_mint ≤ ms.total_supply.toNat
  rw [Ledger.supply, h.settles.mints, h.accepts.base_mint, ← h.accepts.total_supply]

/-- The log of a new pool shows no move. -/
theorem Created.moves_eq_nil (h : Created ctx l₀ l₁ ms mint) (hl : Reachable spl l₀) :
    l₁.moves ctx.base_mint = [] := by
  obtain ⟨g, as, hg, hrun⟩ := hl
  have hempty : l₀.log ctx.base_mint = [] := by
    refine (run_replays hg hrun).empty _ ?_
    rw [← h.accepts.quote_mint]
    exact h.accepts.pool_new
  rw [Ledger.moves, h.log, hempty]
  rfl

/-- Every run after the creation of a pool follows the curve of the main state at that
moment. -/
theorem exists_follows {ctx : ACreatePool} {as : List Action} (hl : Reachable spl l₀)
    (hcreate : create_pool spl ctx l₀ = .ok l₁) (hrun : Runs.run (step spl) l₁ as = .ok l) :
    ∃ (ms : MainState) (mint : Mint) (hv : ms.Valid) (mv : List Move) (s : State (ms.terms hv))
      (p : PoolState), Created ctx l₀ l₁ ms mint ∧ Follows ctx.pool_state ctx.base_mint l₁
        (.active (ms.terms hv).start) as l mv s p := by
  have hinv := hl.inv
  obtain ⟨ms, mint, hc⟩ := (create_pool_eq_ok hinv.ata).mp hcreate
  have hv := hinv.main_state ms hc.accepts.main_state
  have hinv₁ : Inv l₁ := hinv.step (a := .ix (.create_pool ctx)) hcreate
  obtain ⟨mv, s, p, hf⟩ := hc.run_follows hv hinv₁ hrun
  exact ⟨ms, mint, hv, mv, s, p, hc, hf⟩

end Creation

/-- **The program refines the curve.** Whatever happens on the chain after a pool was created,
its instructions make the moves of a path of the curve that the main state of that moment
describes, the log of its base mint shows these moves and no others, and the pool stands for
the state the path leads to. -/
theorem pools_refine_curves (spl : TokenProgram Pubkey) {l₀ l₁ : Ledger} {ctx : ACreatePool}
    {as : List Action} (hl : Reachable spl l₀) (hcreate : create_pool spl ctx l₀ = .ok l₁)
    (hrun : Runs.run (step spl) l₁ as = .ok l) :
    ∃ (ms : MainState) (hv : ms.Valid) (mv : List Move) (s : State (ms.terms hv)) (p : PoolState),
      l₀.main_state = some ms ∧ l.pools.lookup ctx.pool_state = some p ∧
      Path (2 ^ 64) (.active (ms.terms hv).start) mv s ∧ Represents (ms.terms hv) p s ∧
      List.Forall₂ Instruction.Implements (instructions ctx.pool_state as) mv ∧
      List.Forall₂ Reports (l.moves ctx.base_mint) mv := by
  obtain ⟨ms, mint, hv, mv, s, p, hc, hf⟩ := exists_follows hl hcreate hrun
  obtain ⟨es, hes, hrep⟩ := hf.reports
  rw [hc.moves_eq_nil hl, List.nil_append] at hes
  exact ⟨ms, hv, mv, s, p, hc.accepts.main_state, hf.pool, hf.path, hf.represents, hf.implements,
    hes ▸ hrep⟩

/-- `bob` buys one base token, at a price that is rounded down to zero, and then for all that
remains: a demand and a deposit. -/
theorem pools_refine_curves_sample : ∃ (ms : MainState) (hv : ms.Valid) (mv : List Move)
    (r : Reserves (ms.terms hv)), Path (2 ^ 64) (.active (ms.terms hv).start) mv (.active r) ∧
      mv.length = 2 ∧ r.quote = (ms.terms hv).threshold := by
  let ctx : ABuy := ⟨bob, DEFAULT_OWNER, coin, QUOTE_MINT⟩
  let as : List Action := [.ix (.buy_exact_tokens_from_quote ctx 1 0),
    .ix (.buy_tokens_from_exact_quote ctx 31000000000000 0)]
  obtain ⟨l₀, l₁, l, hl₀, hcreate, -, -, hrun, hp⟩ := exists_opening as
    (p := { coin_created with
      real_base_reserves := 200000000500000
      real_quote_reserves := 30000000000000
      complete := true }) (by decide +kernel)
  obtain ⟨ms, hv, mv, s, p, -, hp', hpath, hr, hix, -⟩ :=
    pools_refine_curves .reference hl₀ hcreate hrun
  obtain rfl := Option.some_inj.mp (hp.symm.trans hp')
  refine ⟨ms, hv, mv, ?_⟩
  cases hr with
  | active _ _ _ hc => exact ⟨_, hpath, hix.length_eq.symm, hc.mp rfl⟩
  | withdrawn _ _ hb => exact absurd hb (by decide)

end AliPumpFun
