/-
The life of a pool, from its creation through its completion to its withdrawal.

The terms are fixed, completion is final, and a complete pool moves only once more: when
the withdrawer takes out everything. `withdraw` recognises a pool that was withdrawn
from by its reserves being empty, so it also refuses a pool that was completed by buying
the last base token; the last section says exactly when this happens.
-/
import AliPumpFun.Invariant

set_option autoImplicit false

open Words Fallible

namespace AliPumpFun

variable {spl : TokenProgram Pubkey} {l l' : Ledger} {a : Action}

/-! ## A complete pool -/

/-- A complete pool is left alone or withdrawn from. -/
theorem PoolMove.of_complete {k : Pubkey} {p p' : PoolState} (h : PoolMove l l' k p a p')
    (hc : p.complete = true) :
    (a.pool ≠ some k ∧ p' = p) ∨
      ∃ ctx, a = .ix (.withdraw ctx) ∧ ctx.pool_state = k ∧ Withdrawn ctx l l' p ∧
        p' = p.emptied := by
  cases h with
  | other ha => exact .inl ⟨ha, rfl⟩
  | exact_quote _ hx _ =>
    rw [hx.incomplete] at hc
    cases hc
  | exact_tokens _ hx _ =>
    rw [hx.incomplete] at hc
    cases hc
  | sell _ hx _ =>
    rw [hx.incomplete] at hc
    cases hc
  | @withdraw ctx hk hw => exact .inr ⟨ctx, rfl, hk, hw, rfl⟩

/-- A pool that a step completes is at its threshold. -/
theorem PoolMove.quote_of_completed {k : Pubkey} {p p' : PoolState} (h : PoolMove l l' k p a p')
    (hinv : PoolInv l' p') (hc : p.complete = false) (hc' : p'.complete = true) :
    p'.real_quote_reserves.toNat = p'.real_quote_threshold.toNat := by
  rcases hinv.complete hc' with heq | ⟨-, h0⟩
  · exact heq
  · -- an empty pool was not completed by this step
    exfalso
    have hthr := hinv.threshold
    cases h with
    | other =>
      rw [hc] at hc'
      cases hc'
    | exact_quote _ hx _ =>
      have := (Purchase.settled_complete _ (hx.moves.only.complete.trans hc)).mp hc'
      rw [Purchase.settled_real_quote_reserves] at h0
      rw [(Purchase.terms_settled _).real_quote_threshold] at hthr
      omega
    | exact_tokens _ hx _ =>
      have := (Purchase.settled_complete _ (hx.moves.only.complete.trans hc)).mp hc'
      rw [Purchase.settled_real_quote_reserves] at h0
      rw [(Purchase.terms_settled _).real_quote_threshold] at hthr
      omega
    | sell _ hx _ =>
      rw [hx.moves.only.complete, hc] at hc'
      cases hc'
    | withdraw _ hw =>
      rw [hw.complete] at hc
      cases hc

/-- No trade succeeds on a complete pool. -/
theorem not_traded_of_complete (hinv : Inv l) {k : Pubkey} {p : PoolState}
    (hp : l.pools.lookup k = some p) (hc : p.complete = true) {i : Instruction}
    (hi : i.traded = some k) : i.execute spl l ≠ .ok l' := by
  intro h
  obtain ⟨p', -, hmove⟩ := step_move (a := .ix i) hinv h hp
  -- only a withdrawal touches a complete pool
  rcases hmove.of_complete hc with ⟨hne, -⟩ | ⟨ctx, ha, -⟩
  · refine hne ?_
    cases i <;> first | exact hi | cases hi
  · cases ha
    cases hi

/-! ## Withdrawals -/

/-- How often a run withdraws from the pool at `k`. -/
def withdrawals (k : Pubkey) (as : List Action) : ℕ :=
  as.countP fun a => a.withdrawn = some k

/-- A run has not withdrawn from the pool at `k`, and then the pool is at its threshold if
it is complete; or it has done so once, and then the pool is empty. -/
def WithdrawnOnce (k : Pubkey) (as : List Action) (l : Ledger) : Prop :=
  (withdrawals k as = 0 ∧ ∀ p, l.pools.lookup k = some p → p.complete = true →
    p.real_quote_reserves.toNat = p.real_quote_threshold.toNat) ∨
  (withdrawals k as = 1 ∧ ∃ p, l.pools.lookup k = some p ∧ p.complete = true ∧
    p.real_quote_reserves.toNat = 0)

theorem withdrawals_snoc {k : Pubkey} {as : List Action} :
    withdrawals k (as ++ [a]) = withdrawals k as + if a.withdrawn = some k then 1 else 0 := by
  simp [withdrawals, List.countP_append, List.countP_cons]

/-- A withdrawal that succeeds is one from a complete pool with tokens in it. -/
theorem withdrawn_of_step (hinv : Inv l) (h : step spl l a = .ok l') {k : Pubkey}
    (ha : a.withdrawn = some k) : ∃ ctx p, a = .ix (.withdraw ctx) ∧ ctx.pool_state = k ∧
      Withdrawn ctx l l' p := by
  cases a with
  | ix i =>
    cases i with
    | withdraw ctx =>
      obtain ⟨p, hw⟩ := (withdraw_eq_ok hinv.ata).mp h
      exact ⟨ctx, p, rfl, Option.some_inj.mp ha, hw⟩
    | _ => cases ha
  | _ => cases ha

theorem WithdrawnOnce.step {k : Pubkey} {as : List Action} (hw : WithdrawnOnce k as l)
    (hinv : Inv l) (h : step spl l a = .ok l') : WithdrawnOnce k (as ++ [a]) l' := by
  unfold WithdrawnOnce
  rw [withdrawals_snoc]
  by_cases ha : a.withdrawn = some k
  · rw [if_pos ha]
    obtain ⟨ctx, p, rfl, rfl, hwd⟩ := withdrawn_of_step hinv h ha
    rcases hw with ⟨h0, -⟩ | ⟨-, p', hp', -, hq⟩
    · exact .inr ⟨by rw [h0], p.emptied, hwd.settles.lookup_self, hwd.complete, rfl⟩
    · -- a second withdrawal finds nothing to withdraw
      obtain rfl := Option.some_inj.mp (hp'.symm.trans hwd.accepts.pool_state)
      have := hwd.quote_pos
      omega
  · rw [if_neg ha, Nat.add_zero]
    -- no withdrawal: a pool is completed at its threshold and then stays as it is
    rcases hw with ⟨h0, hthr⟩ | ⟨h1, p, hp, hc, hq⟩
    · refine .inl ⟨h0, fun p' hp' hc' => ?_⟩
      rcases step_pool hinv h hp' with ⟨ctx, ms, mint, -, -, rfl, -⟩ | ⟨p, hp, hmove⟩
      · cases hc'
      · cases hc : p.complete with
        | false => exact hmove.quote_of_completed ((hinv.step h).pools k p' hp') hc hc'
        | true =>
          rcases hmove.of_complete hc with ⟨-, rfl⟩ | ⟨ctx, rfl, rfl, -⟩
          · exact hthr p' hp hc
          · exact absurd rfl ha
    · obtain ⟨p', hp', hmove⟩ := step_move hinv h hp
      rcases hmove.of_complete hc with ⟨-, rfl⟩ | ⟨ctx, rfl, rfl, -⟩
      · exact .inr ⟨h1, p', hp', hc, hq⟩
      · exact absurd rfl ha

theorem run_withdrawnOnce {g : Ledger} {as : List Action} (hg : Genesis g)
    (hrun : Runs.run (step spl) g as = .ok l) (k : Pubkey) : WithdrawnOnce k as l := by
  refine Runs.run_induction (P := fun as m => WithdrawnOnce k as m) ?_ ?_ hrun
  · refine .inl ⟨rfl, fun p hp => ?_⟩
    rw [hg.no_pools] at hp
    cases hp
  · intro done m a m' hdone hw hstep
    exact hw.step (hg.inv.run hdone) hstep

/-! ## What a withdrawal pays -/

/-- The withdrawer gets exactly the two reserves of `p`, and the pool is left empty. -/
structure Drained (ctx : AWithdraw) (l l' : Ledger) (p : PoolState) : Prop where
  base_paid : l'.tokens.balance ctx.reserver_base_ata + p.real_base_reserves.toNat =
    l.tokens.balance ctx.reserver_base_ata
  base_received : l'.tokens.balance ctx.withdrawer_base_ata =
    l.tokens.balance ctx.withdrawer_base_ata + p.real_base_reserves.toNat
  quote_paid : l'.tokens.balance ctx.reserver_quote_ata + p.real_quote_reserves.toNat =
    l.tokens.balance ctx.reserver_quote_ata
  quote_received : l'.tokens.balance ctx.withdrawer_quote_ata =
    l.tokens.balance ctx.withdrawer_quote_ata + p.real_quote_reserves.toNat
  emptied : l'.pools.lookup ctx.pool_state = some p.emptied

theorem Withdrawn.drained {ctx : AWithdraw} {p : PoolState} (h : Withdrawn ctx l l' p)
    (hpair : ctx.base_mint ≠ ctx.quote_mint) : Drained ctx l l' p := by
  have hbal := h.settles.paid.balance_eq
  simp only [Bank.outgoing, Bank.incoming, AWithdraw.payments, balance_ensured] at hbal
  have hne : ctx.reserver_base_ata ≠ ctx.reserver_quote_ata := by
    simp [AWithdraw.reserver_base_ata, AWithdraw.reserver_quote_ata, hpair]
  have hne' : ctx.withdrawer_base_ata ≠ ctx.withdrawer_quote_ata := by
    simp [AWithdraw.withdrawer_base_ata, AWithdraw.withdrawer_quote_ata, hpair]
  have hrw : ∀ m m', Pubkey.ata ctx.pool_state m ≠ .ata ctx.withdrawer.1 m' := by
    simp [AWithdraw.pool_state]
  -- four accounts, all different, so each balance moves once
  refine ⟨?_, ?_, ?_, ?_, h.settles.lookup_self⟩
  · simpa [hne, show ctx.reserver_base_ata ≠ ctx.withdrawer_base_ata from hrw _ _,
      show ctx.reserver_base_ata ≠ ctx.withdrawer_quote_ata from hrw _ _]
      using hbal ctx.reserver_base_ata
  · simpa [hne', show ctx.withdrawer_base_ata ≠ ctx.reserver_base_ata from (hrw _ _).symm,
      show ctx.withdrawer_base_ata ≠ ctx.reserver_quote_ata from (hrw _ _).symm]
      using hbal ctx.withdrawer_base_ata
  · simpa [hne.symm, show ctx.reserver_quote_ata ≠ ctx.withdrawer_base_ata from hrw _ _,
      show ctx.reserver_quote_ata ≠ ctx.withdrawer_quote_ata from hrw _ _]
      using hbal ctx.reserver_quote_ata
  · simpa [hne'.symm, show ctx.withdrawer_quote_ata ≠ ctx.reserver_base_ata from (hrw _ _).symm,
      show ctx.withdrawer_quote_ata ≠ ctx.reserver_quote_ata from (hrw _ _).symm]
      using hbal ctx.withdrawer_quote_ata

/-! ## The life cycle -/

/-- What a run that leads to `l`, where the pool at `k` is `p`, says about this pool. -/
structure LifeCycle (spl : TokenProgram Pubkey) (as : List Action) (l : Ledger) (k : Pubkey)
    (p : PoolState) : Prop where
  reserves_le : p.real_quote_reserves.toNat ≤ p.real_quote_threshold.toNat
  incomplete : p.complete = false → p.real_quote_reserves.toNat < p.real_quote_threshold.toNat
  complete : p.complete = true → withdrawals k as = 0 →
    p.real_quote_reserves.toNat = p.real_quote_threshold.toNat
  /-- The terms are final, and so is completion. -/
  final : ∀ bs l', Runs.run (step spl) l bs = .ok l' → ∃ p', l'.pools.lookup k = some p' ∧
    p.SameTerms p' ∧ (p.complete = true → p'.complete = true)
  no_trade : p.complete = true → ∀ (i : Instruction) (l' : Ledger), i.traded = some k →
    i.execute spl l ≠ .ok l'
  /-- Once complete, the reserves move only by the withdrawer's hand. -/
  moved : p.complete = true → ∀ a l' p', step spl l a = .ok l' → l'.pools.lookup k = some p' →
    p' ≠ p → ∃ ctx ms, a = .ix (.withdraw ctx) ∧ ctx.pool_state = k ∧
      l.main_state = some ms ∧ ms.withdrawer = ctx.withdrawer.1
  withdrawn_once : withdrawals k as ≤ 1
  payout : ∀ ctx l', ctx.pool_state = k → withdraw spl ctx l = .ok l' →
    l'.tokens.balance ctx.withdrawer_quote_ata =
        l.tokens.balance ctx.withdrawer_quote_ata + p.real_quote_threshold.toNat ∧
      l'.tokens.balance ctx.reserver_quote_ata + p.real_quote_threshold.toNat =
        l.tokens.balance ctx.reserver_quote_ata

/-- **The life cycle of a pool**, in every run of any actions. -/
theorem life_cycle (spl : TokenProgram Pubkey) {g l : Ledger} {as : List Action} {k : Pubkey}
    {p : PoolState} (hg : Genesis g) (hrun : Runs.run (step spl) g as = .ok l)
    (hp : l.pools.lookup k = some p) : LifeCycle spl as l k p := by
  have hinv := hg.inv.run hrun
  have hpi := hinv.pools k p hp
  have honce := run_withdrawnOnce hg hrun k
  refine ⟨hpi.quote_le, hpi.incomplete, ?_, ?_, ?_, ?_, ?_, ?_⟩
  · intro hc h0
    rcases honce with ⟨-, hthr⟩ | ⟨h1, -⟩
    · exact hthr p hp hc
    · omega
  · intro bs l' hbs
    exact run_pool hinv hbs hp
  · intro hc i l' hi
    exact not_traded_of_complete hinv hp hc hi
  · intro hc a l' p' hstep hp' hne
    rcases (PoolMove.of_step hinv hstep hp hp').of_complete hc with ⟨-, rfl⟩ | ⟨ctx, ha, hk, hw, -⟩
    · exact absurd rfl hne
    · obtain ⟨ms, hms, hwd⟩ := hw.accepts.main_state
      exact ⟨ctx, ms, ha, hk, hms, hwd⟩
  · rcases honce with ⟨h0, -⟩ | ⟨h1, -⟩
    · omega
    · omega
  · rintro ctx l' rfl hok
    obtain ⟨q, hw⟩ := (withdraw_eq_ok hinv.ata).mp hok
    obtain rfl := Option.some_inj.mp (hp.symm.trans hw.accepts.pool_state)
    have hpair : ctx.base_mint ≠ ctx.quote_mint := by
      rw [hw.accepts.base_mint, hw.accepts.quote_mint]
      exact hpi.pair
    have hd := hw.drained hpair
    have hthr : p.real_quote_reserves.toNat = p.real_quote_threshold.toNat := by
      -- a withdrawal succeeds only before the pool is emptied
      rcases hpi.complete hw.complete with heq | ⟨-, h0⟩
      · exact heq
      · have := hw.quote_pos
        omega
    rw [← hthr]
    exact ⟨hd.quote_received, hd.quote_paid⟩

/-- A life that is over: `bob` completes the default pool, and it is withdrawn from. -/
theorem life_cycle_sample : ∃ l p, LifeCycle .reference (opening ++
    [.ix (.buy_tokens_from_exact_quote ⟨bob, DEFAULT_OWNER, coin, QUOTE_MINT⟩ 31000000000000 0),
      .ix (.withdraw ⟨default_owner, coin, QUOTE_MINT⟩)]) l coin_pool p ∧ p.complete = true := by
  obtain ⟨l, hl, hp⟩ := exists_eq_ok (x := Runs.run (step .reference) launched (opening ++
      [.ix (.buy_tokens_from_exact_quote ⟨bob, DEFAULT_OWNER, coin, QUOTE_MINT⟩ 31000000000000 0),
        .ix (.withdraw ⟨default_owner, coin, QUOTE_MINT⟩)]))
    (f := fun l => l.pools.lookup coin_pool)
    (b := some { coin_created with real_base_reserves := 0, complete := true })
    (by decide +kernel)
  exact ⟨l, _, life_cycle .reference launched_genesis hl hp, rfl⟩

/-! ## When a withdrawal succeeds -/

/-- The withdrawer's context for a pool that exists passes the account checks. -/
theorem Inv.accepts_withdraw {ctx : AWithdraw} {ms : MainState} {p : PoolState} (hinv : Inv l)
    (hms : l.main_state = some ms) (hw : ctx.withdrawer.1 = ms.withdrawer)
    (hp : l.pools.lookup ctx.pool_state = some p) : ctx.Accepts l p := by
  obtain ⟨hb, hq⟩ := hinv.mints_of_pool hp
  have hpi := hinv.pools _ p hp
  have haddr := hinv.address _ p hp
  refine ⟨⟨ms, hms, hw.symm⟩, hp, ?_, hb, ?_, hq, ?_, ?_⟩
  · rw [hb]
    exact hpi.base_minted
  · rw [hq]
    exact hpi.quote_minted
  · rw [AWithdraw.reserver_base_ata, haddr, hb]
    exact hpi.reserver_base
  · rw [AWithdraw.reserver_quote_ata, haddr, hq]
    exact hpi.reserver_quote

/-- The payments of a withdrawal go between accounts that exist, each to one of its mint. -/
theorem AWithdraw.Accepts.payable {ctx : AWithdraw} {p : PoolState} (h : ctx.Accepts l p)
    (hwf : AtaWf l.tokens) : ∀ x ∈ ctx.payments p, (ensured l.tokens ctx.opens).Payable x := by
  have hopen : ∀ om ∈ ctx.opens, .ata om.1 om.2 ∈ ensured l.tokens ctx.opens :=
    fun _ => ata_mem_ensured
  have hwb := hopen (ctx.withdrawer.1, ctx.base_mint) (by simp [opens])
  have hwq := hopen (ctx.withdrawer.1, ctx.quote_mint) (by simp [opens])
  intro x hx
  simp only [payments, List.mem_cons, List.not_mem_nil, or_false] at hx
  rcases hx with rfl | rfl
  · exact hwf.ensured.payable (mem_ensured.mpr (.inl h.reserver_base)) hwb
  · exact hwf.ensured.payable (mem_ensured.mpr (.inl h.reserver_quote)) hwq

/-- A withdrawal from a complete pool with tokens of both kinds goes through. -/
theorem exists_withdrawn {ctx : AWithdraw} {p : PoolState} (hinv : Inv l)
    (ha : ctx.Accepts l p) (hc : p.complete = true) (hb : 0 < p.real_base_reserves.toNat)
    (hq : 0 < p.real_quote_reserves.toNat) : ∃ l', Withdrawn ctx l l' p := by
  have hpi := hinv.pools _ p ha.pool_state
  obtain ⟨t, ht⟩ := Bank.exists_paid (ha.payable hinv.ata) (hinv.total_lt ctx.opens) <| by
    intro x
    rw [balance_ensured]
    exact ha.outgoing_le hpi x
  exact ⟨{ l with
    tokens := t
    pools := l.pools.insert ctx.pool_state p.emptied
    events := l.events ++ [.withdraw (p.withdrawal ctx.withdrawer.1 l.unix_timestamp)] },
    ha, hc, hb, hq, ht, rfl⟩

/-- **When completed funds can be withdrawn**: exactly when the completing buys have left a
base token in the pool. -/
theorem withdraw_succeeds_iff (spl : TokenProgram Pubkey) {ctx : AWithdraw} {ms : MainState}
    {p : PoolState} (hl : Reachable spl l) (hms : l.main_state = some ms)
    (hw : ctx.withdrawer.1 = ms.withdrawer) (hp : l.pools.lookup ctx.pool_state = some p)
    (hc : p.complete = true) (hq : 0 < p.real_quote_reserves.toNat) :
    (∃ l', withdraw spl ctx l = .ok l' ∧ Drained ctx l l' p) ↔
      0 < p.real_base_reserves.toNat := by
  have hinv := hl.inv
  have ha := hinv.accepts_withdraw hms hw hp
  constructor
  · rintro ⟨l', hok, -⟩
    obtain ⟨q, hwd⟩ := (withdraw_eq_ok hinv.ata).mp hok
    obtain rfl := Option.some_inj.mp (hp.symm.trans hwd.accepts.pool_state)
    exact hwd.base_pos
  · intro hb
    obtain ⟨l', hwd⟩ := exists_withdrawn hinv ha hc hb hq
    have hpair : ctx.base_mint ≠ ctx.quote_mint := by
      rw [ha.base_mint, ha.quote_mint]
      exact (hinv.pools _ p hp).pair
    exact ⟨l', (withdraw_eq_ok hinv.ata).mpr ⟨p, hwd⟩, hwd.drained hpair⟩

/-- `bob` completes the default pool, and the withdrawer gets what is in it. -/
theorem withdraw_succeeds_sample : ∃ l l' p, Reachable .reference l ∧
    withdraw .reference ⟨default_owner, coin, QUOTE_MINT⟩ l = .ok l' ∧
    Drained ⟨default_owner, coin, QUOTE_MINT⟩ l l' p := by
  let p : PoolState := { coin_created with
    real_base_reserves := 200000000500000
    real_quote_reserves := REAL_QUOTE_THRESHOLD
    complete := true }
  obtain ⟨l, hl, hv⟩ := exists_eq_ok (x := Runs.run (step .reference) launched (opening ++
      [.ix (.buy_tokens_from_exact_quote ⟨bob, DEFAULT_OWNER, coin, QUOTE_MINT⟩ 31000000000000 0)]))
    (f := fun l => (l.main_state, l.pools.lookup coin_pool))
    (b := (some (.initial DEFAULT_OWNER), some p)) (by decide +kernel)
  simp only [Prod.mk.injEq] at hv
  have hreach : Reachable .reference l := ⟨launched, _, launched_genesis, hl⟩
  let ctx : AWithdraw := ⟨default_owner, coin, QUOTE_MINT⟩
  have hp : l.pools.lookup ctx.pool_state = some p := hv.2
  obtain ⟨l', hok, hd⟩ :=
    (withdraw_succeeds_iff .reference hreach hv.1 rfl hp rfl (by decide)).mpr (by decide)
  exact ⟨l, l', p, hreach, hok, hd⟩

/-- With all four amounts set to 1, accepted by `update_main_state`, one quote token buys the
only base token and completes the pool. It is then taken for a pool that was withdrawn
from. -/
theorem withdrawal_fails :
    ¬ ∀ (spl : TokenProgram Pubkey) (l : Ledger) (ctx : AWithdraw) (ms : MainState)
      (p : PoolState), Reachable spl l → l.main_state = some ms →
      ctx.withdrawer.1 = ms.withdrawer → l.pools.lookup ctx.pool_state = some p →
      p.complete = true → 0 < p.real_quote_reserves.toNat →
      ∃ l', withdraw spl ctx l = .ok l' ∧ Drained ctx l l' p := by
  intro h
  let g : Ledger := .launch alice bob coin 1 1000
  have hg : Genesis g := Ledger.launch_genesis (by decide) _ _
  let as : List Action := opening_with 1 1 1 1 ++
    [.ix (.buy_tokens_from_exact_quote ⟨bob, DEFAULT_OWNER, coin, QUOTE_MINT⟩ 1 0)]
  let ctx : AWithdraw := ⟨default_owner, coin, QUOTE_MINT⟩
  obtain ⟨l, hl, hv⟩ := exists_eq_ok (x := Runs.run (step .reference) g as)
    (f := fun l => (l.main_state, l.pools.lookup coin_pool))
    (b := (some ⟨DEFAULT_OWNER, DEFAULT_OWNER, DEFAULT_OWNER, 0, 1, 1, 1, 1⟩,
      some ⟨alice.1, coin, 1, 0, QUOTE_MINT, 1, 1, 1, true⟩)) (by decide +kernel)
  simp only [Prod.mk.injEq] at hv
  obtain ⟨l', hok, -⟩ := h .reference l ctx _ _ ⟨g, as, hg, hl⟩ hv.1 rfl hv.2 rfl (by decide)
  -- but the run that ends with this withdrawal fails
  have hrun : Runs.run (step .reference) g (as ++ [.ix (.withdraw ctx)]) = .ok l' :=
    Runs.run_snoc.mpr ⟨l, hl, hok⟩
  have hfail : (Runs.run (step .reference) g
      (as ++ [.ix (.withdraw ctx)])).toOption.isSome = false := by
    decide +kernel
  rw [hrun] at hfail
  cases hfail

end AliPumpFun
