/-
The events as a second copy of the program's accounts.

`EventLog` reads the total reserves of one pool off its log. Here an indexer folds all the
events, in the order in which they were emitted, into a main state and pools of its own, and
ends up with the program's accounts, member by member. Nothing of the state is hidden from
the events: what a creation does not report of its pool is in the main state at that moment,
which the events before it determine, and the quote mint is the constant one.

An event is wrong about the accounts as soon as one of its members is taken at the wrong
moment, so this is also a check of every `emit!`.
-/
import AliPumpFun.EventLog

set_option autoImplicit false

open Words Fallible

namespace AliPumpFun

variable {spl : TokenProgram Pubkey} {l l' : Ledger} {a : Action}

/-! ## The indexer -/

/-- What an indexer keeps. -/
structure Index where
  main_state : Option MainState
  pools : Finmap fun _ : Pubkey => PoolState

namespace Index

/-- Before the first event. -/
def empty : Index := ⟨none, ∅⟩

/-- Change the pool of a base mint. -/
def update (v : Index) (b : Pubkey) (f : PoolState → PoolState) : Index :=
  match v.pools.lookup (.poolState b QUOTE_MINT) with
  | some p => { v with pools := v.pools.insert (.poolState b QUOTE_MINT) (f p) }
  | none => v

/-- What the indexer does with an event. -/
def apply (v : Index) : Event → Index
  | .initialized e => { v with main_state := some {
      owner := e.owner
      withdrawer := e.withdrawer
      fee_recipient := e.fee_recipient
      trading_fee := e.trading_fee
      total_supply := e.total_supply
      init_virt_base_reserves := e.init_virt_base_reserves
      init_virt_quote_reserves := e.init_virt_quote_reserves
      real_quote_threshold := e.real_quote_threshold } }
  | .ownership e =>
    { v with main_state := v.main_state.map fun ms => { ms with owner := e.new_owner } }
  | .updated e => { v with main_state := v.main_state.map fun ms => {
      owner := ms.owner
      withdrawer := e.withdrawer
      fee_recipient := e.fee_recipient
      trading_fee := e.trading_fee
      total_supply := e.total_supply
      init_virt_base_reserves := e.init_virt_base_reserves
      init_virt_quote_reserves := e.init_virt_quote_reserves
      real_quote_threshold := e.real_quote_threshold } }
  | .create e =>
    match v.main_state with
    | some ms => { v with pools := v.pools.insert (.poolState e.base_mint QUOTE_MINT) {
        owner := e.creator
        base_mint := e.base_mint
        virt_base_reserves := ms.init_virt_base_reserves
        -- the event has the sum of the two
        real_base_reserves := e.base_reserves - ms.init_virt_base_reserves
        quote_mint := QUOTE_MINT
        virt_quote_reserves := e.quote_reserves
        real_quote_reserves := 0
        real_quote_threshold := ms.real_quote_threshold
        complete := false } }
    | none => v
  | .trade e => v.update e.base_mint fun p => { p with
      real_base_reserves := e.base_reserves - p.virt_base_reserves
      real_quote_reserves := e.quote_reserves - p.virt_quote_reserves }
  | .complete e => v.update e.base_mint fun p => { p with complete := true }
  | .withdraw e => v.update e.base_mint PoolState.emptied

/-- What the indexer makes of a list of events. -/
def replay (v : Index) (es : List Event) : Index := es.foldl apply v

@[simp] theorem replay_nil (v : Index) : v.replay [] = v := rfl

@[simp] theorem replay_cons (v : Index) (e : Event) (es : List Event) :
    v.replay (e :: es) = (v.apply e).replay es := rfl

theorem update_eq {v : Index} {b : Pubkey} {p : PoolState} (f : PoolState → PoolState)
    (h : v.pools.lookup (.poolState b QUOTE_MINT) = some p) :
    v.update b f = { v with pools := v.pools.insert (.poolState b QUOTE_MINT) (f p) } := by
  rw [update, h]

/-- A change to a pool just written. -/
theorem update_insert {v : Index} {b : Pubkey} {p : PoolState} (f : PoolState → PoolState) :
    update { v with pools := v.pools.insert (.poolState b QUOTE_MINT) p } b f =
      { v with pools := v.pools.insert (.poolState b QUOTE_MINT) (f p) } := by
  rw [update_eq f (Finmap.lookup_insert _)]
  exact congrArg (Index.mk v.main_state) (Finmap.insert_insert _)

/-- A trade event gives the reserves away: the virtual ones are known. -/
theorem apply_trade {v : Index} {e : TradeEvent} {p p' : PoolState}
    (h : v.pools.lookup (.poolState e.base_mint QUOTE_MINT) = some p) (hp : p.OnlyReserves p')
    (hb : e.base_reserves = p'.real_base_reserves + p'.virt_base_reserves)
    (hq : e.quote_reserves = p'.virt_quote_reserves + p'.real_quote_reserves) :
    v.apply (.trade e) =
      { v with pools := v.pools.insert (.poolState e.base_mint QUOTE_MINT) p' } := by
  have hbase : e.base_reserves - p.virt_base_reserves = p'.real_base_reserves := by
    rw [hb, hp.terms.virt_base_reserves, BitVec.add_sub_cancel]
  have hquote : e.quote_reserves - p.virt_quote_reserves = p'.real_quote_reserves := by
    rw [hq, hp.terms.virt_quote_reserves, BitVec.add_comm, BitVec.add_sub_cancel]
  rw [apply, update_eq _ h]
  rw [hbase, hquote, ← hp]

end Index

/-- The accounts of the program, as an indexer keeps them. -/
def Ledger.index (l : Ledger) : Index := ⟨l.main_state, l.pools⟩

/-! ## One step -/

theorem Settles.index {t : Bank Pubkey} {ps : List (Payment Pubkey)} {k : Pubkey} {p : PoolState}
    {es : List Event} (h : Settles t ps k p es l l') :
    l'.index = ⟨l.main_state, l.pools.insert k p⟩ := by
  rw [Ledger.index, h.main_state, h.ledger]

/-- The event of an update reads the amount after it is set. -/
theorem getD_of_update_amount {current r : U64} {input : Option U64} {e : PumpFunError}
    (h : update_amount current input e = .ok r) : input.getD r = r := by
  rw [eq_getD_of_update_amount h]
  cases input with
  | none => rfl
  | some value => rfl

/-- The event of an update has the members it wrote, given or not. -/
theorem AUpdateMainState.Accepts.updated_eq {ctx : AUpdateMainState}
    {input : UpdateMainStateInput} {ms ms' : MainState} (h : ctx.Accepts input l ms ms') :
    ms'.updated input = ⟨ms'.withdrawer, ms'.fee_recipient, ms'.trading_fee, ms'.total_supply,
      ms'.init_virt_base_reserves, ms'.init_virt_quote_reserves, ms'.real_quote_threshold⟩ := by
  obtain ⟨-, hw, hf, ht⟩ := h.others
  rw [MainState.updated, hw, hf, ht, getD_of_update_amount h.total_supply,
    getD_of_update_amount h.init_virt_base_reserves,
    getD_of_update_amount h.init_virt_quote_reserves,
    getD_of_update_amount h.real_quote_threshold]

theorem Bought.index {ctx : ABuy} {ms : MainState} {p : PoolState} {c : Purchase}
    (h : Bought ctx l l' ms p c) (hc : c.Buys p) (hpi : PoolInv l p) :
    l.index.replay (c.events ctx.buyer.1 l.unix_timestamp) = l'.index := by
  have hk : ctx.pool_state = .poolState c.pool_state.base_mint QUOTE_MINT := by
    rw [hc.moves.only.terms.base_mint, ← hpi.quote_mint]
    exact h.accepts.address
  have htrade := Index.apply_trade (v := l.index)
    (e := c.trade ctx.buyer.1 l.unix_timestamp) (hk ▸ h.accepts.pool_state) hc.moves.only rfl rfl
  rw [h.settles.index, hk, Purchase.events, Purchase.settled]
  split
  · rw [Index.replay_cons, htrade, Index.replay_cons, Index.replay_nil, Index.apply]
    exact Index.update_insert _
  · rw [Index.replay_cons, htrade, Index.replay_nil]
    rfl

theorem Instruction.index {i : Instruction} (hinv : Inv l) (h : i.execute spl l = .ok l') :
    ∃ es, l'.events = l.events ++ es ∧ l.index.replay es = l'.index := by
  have hwf := hinv.ata
  cases i with
  | init_main_state ctx =>
    obtain ⟨-, rfl⟩ := init_main_state_eq_ok.mp h
    exact ⟨_, rfl, rfl⟩
  | transfer_ownership ctx new_owner =>
    obtain ⟨ms, hms, -, -, rfl⟩ := transfer_ownership_eq_ok.mp h
    refine ⟨_, rfl, ?_⟩
    rw [Index.replay_cons, Index.replay_nil, Index.apply, Ledger.index, hms]
    rfl
  | update_main_state ctx input =>
    obtain ⟨ms, ms', ha, rfl⟩ := (update_main_state_eq_ok hwf).mp h
    refine ⟨_, rfl, ?_⟩
    rw [Index.replay_cons, Index.replay_nil, ha.updated_eq, Index.apply, Ledger.index,
      ha.main_state, Option.map_some, ← ha.others.1]
    rfl
  | create_pool ctx =>
    obtain ⟨ms, mint, hc⟩ := (create_pool_eq_ok hwf).mp h
    refine ⟨_, hc.settles.events, ?_⟩
    rw [hc.settles.index, Index.replay_cons, Index.replay_nil, Index.apply, Ledger.index,
      hc.accepts.main_state, ACreatePool.pool_state, ACreatePool.initial, hc.accepts.quote_mint]
    dsimp only [ACreatePool.event]
    rw [BitVec.add_sub_cancel]
  | buy_tokens_from_exact_quote ctx q m =>
    obtain ⟨ms, p, c, hx, hb⟩ := hinv.exact_quote_iff.mp h
    exact ⟨_, hb.settles.events, hb.index hx.buys (hinv.pools _ p hb.accepts.pool_state)⟩
  | buy_exact_tokens_from_quote ctx b m =>
    obtain ⟨ms, p, c, hx, hb⟩ := hinv.exact_tokens_iff.mp h
    exact ⟨_, hb.settles.events, hb.index hx.buys (hinv.pools _ p hb.accepts.pool_state)⟩
  | sell ctx s m =>
    obtain ⟨ms, p, c, hx, hs⟩ := hinv.sell_iff.mp h
    have hpi := hinv.pools _ p hs.accepts.pool_state
    have hk : ctx.pool_state = .poolState c.pool_state.base_mint QUOTE_MINT := by
      rw [hx.moves.only.terms.base_mint, ← hpi.quote_mint]
      exact hs.accepts.address
    refine ⟨_, hs.settles.events, ?_⟩
    rw [hs.settles.index, hk, Index.replay_cons, Index.replay_nil]
    exact Index.apply_trade (e := c.trade ctx.seller.1 s l.unix_timestamp)
      (hk ▸ hs.accepts.pool_state) hx.moves.only rfl rfl
  | withdraw ctx =>
    obtain ⟨p, hw⟩ := (withdraw_eq_ok hwf).mp h
    have hpi := hinv.pools _ p hw.accepts.pool_state
    have hk : ctx.pool_state = .poolState p.base_mint QUOTE_MINT := by
      rw [← hpi.quote_mint]
      exact hw.accepts.address
    refine ⟨_, hw.settles.events, ?_⟩
    rw [hw.settles.index, hk, Index.replay_cons, Index.replay_nil, Index.apply]
    exact Index.update_eq _ (hk ▸ hw.accepts.pool_state)

/-- Every step is replayed by the events it emits. -/
theorem step_index (hinv : Inv l) (h : step spl l a = .ok l') :
    ∃ es, l'.events = l.events ++ es ∧ l.index.replay es = l'.index := by
  cases a with
  | ix i => exact Instruction.index hinv h
  -- the rest emits nothing and touches no account of the program
  | token_transfer authority s d n =>
    simp only [step, bind_eq_ok, pure_eq_ok] at h
    obtain ⟨t, -, rfl⟩ := h
    exact ⟨[], (List.append_nil _).symm, rfl⟩
  | create_ata owner mint =>
    simp only [step, bind_eq_ok, pure_eq_ok] at h
    obtain ⟨-, -, t, -, rfl⟩ := h
    exact ⟨[], (List.append_nil _).symm, rfl⟩
  | create_account bytes owner mint =>
    simp only [step, bind_eq_ok, pure_eq_ok] at h
    obtain ⟨-, -, t, -, rfl⟩ := h
    exact ⟨[], (List.append_nil _).symm, rfl⟩
  | tick ts =>
    obtain rfl := pure_eq_ok.mp h
    exact ⟨[], (List.append_nil _).symm, rfl⟩

/-! ## Whole runs -/

/-- **The events determine the program's accounts.** Folding all events of any run gives the
main state and every pool, in every member. -/
theorem events_replay_to_accounts (spl : TokenProgram Pubkey) {g : Ledger} {as : List Action}
    (hg : Genesis g) (hrun : Runs.run (step spl) g as = .ok l) :
    Index.empty.replay l.events = ⟨l.main_state, l.pools⟩ := by
  have hstep : ∀ {m : Ledger} {a : Action} {m' : Ledger}, Inv m → step spl m a = .ok m' →
      Inv m' ∧ ∃ es, m'.events = m.events ++ es ∧ es.foldl Index.apply m.index = m'.index :=
    fun hm h => ⟨hm.step h, step_index hm h⟩
  obtain ⟨es, hlog, hview⟩ := Runs.run_replay hstep hg.inv hrun
  have hempty : g.index = .empty := by
    rw [Ledger.index, hg.no_main_state, hg.no_pools]
    rfl
  rw [hg.no_events, List.nil_append] at hlog
  rw [hlog, Index.replay, ← hempty]
  exact hview

/-- Five events, from the initialization to a withdrawal. -/
theorem events_replay_to_accounts_sample : ∃ l : Ledger,
    Index.empty.replay l.events = ⟨l.main_state, l.pools⟩ ∧ l.events.length = 5 ∧
      l.pools.lookup coin_pool =
        some { coin_created with real_base_reserves := 0, complete := true } := by
  obtain ⟨l, hl, hv⟩ := exists_eq_ok (x := Runs.run (step .reference) launched (opening ++
      [.ix (.buy_tokens_from_exact_quote ⟨bob, DEFAULT_OWNER, coin, QUOTE_MINT⟩ 31000000000000 0),
        .ix (.withdraw ⟨default_owner, coin, QUOTE_MINT⟩)]))
    (f := fun l => (l.events.length, l.pools.lookup coin_pool))
    (b := (5, some { coin_created with real_base_reserves := 0, complete := true }))
    (by decide +kernel)
  rw [Prod.mk.injEq] at hv
  exact ⟨l, events_replay_to_accounts .reference launched_genesis hl, hv⟩

end AliPumpFun
