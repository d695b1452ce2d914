/-
First come, first served.

A buy makes a pool dearer and a sell makes it cheaper, whatever the amounts and however they are
rounded. As long as no quote tokens leave a pool, then, time works for those who have bought: a
buyer who comes later gets no more for the same amount and pays no less for the same tokens, and
who sells later gets no less. The fee rate is the only other thing a price depends on, and the
comparison is for two moments at which it is the same.
-/
import AliPumpFun.Monotone
import AliPumpFun.Narrowing
import AliPumpFun.Solvency

set_option autoImplicit false

open Words Fallible

namespace AliPumpFun

variable {spl : TokenProgram Pubkey} {l l' : Ledger} {a : Action}

/-! ## Dearer pools -/

/-- The pool `p` is no cheaper later, as `p'`: no more base tokens and no fewer quote tokens. -/
structure PoolState.Dearer (p p' : PoolState) : Prop where
  terms : p.SameTerms p'
  base_le : p'.base ≤ p.base
  quote_le : p.quote ≤ p'.quote

namespace PoolState.Dearer

variable {p p' p'' : PoolState}

theorem refl (p : PoolState) : p.Dearer p := ⟨.refl p, le_rfl, le_rfl⟩

theorem trans (h : p.Dearer p') (h' : p'.Dearer p'') : p.Dearer p'' :=
  ⟨h.terms.trans h'.terms, h'.base_le.trans h.base_le, h.quote_le.trans h'.quote_le⟩

/-- Less remains to the threshold of a dearer pool. -/
theorem remaining_le (h : p.Dearer p') : p'.remaining ≤ p.remaining := by
  have hq := h.quote_le
  rw [PoolState.quote, PoolState.quote, h.terms.virt_quote_reserves] at hq
  rw [PoolState.remaining, PoolState.remaining, h.terms.real_quote_threshold]
  omega

end PoolState.Dearer

/-- The action takes quote tokens out of the pool at `k`. -/
def Action.TakesQuote (k : Pubkey) : Action → Prop
  | .ix (.sell ctx _ _) => ctx.pool_state = k
  | .ix (.withdraw ctx) => ctx.pool_state = k
  | _ => False

/-- Both buys make a pool dearer. -/
theorem Purchase.Buys.dearer {p : PoolState} {c : Purchase} (h : c.Buys p) :
    p.Dearer c.settled where
  terms := h.terms
  base_le := by
    have := h.moves.base_eq
    rw [Purchase.settled_base]
    omega
  quote_le := by
    have := h.moves.quote_eq
    rw [Purchase.settled_quote]
    omega

theorem PoolMove.dearer {k : Pubkey} {p p' : PoolState} (h : PoolMove l l' k p a p')
    (ha : ¬ a.TakesQuote k) : p.Dearer p' := by
  cases h with
  | other => exact .refl p
  | exact_quote _ hc => exact hc.buys.dearer
  | exact_tokens _ hc => exact hc.buys.dearer
  | sell hk => exact absurd hk ha
  | withdraw hk => exact absurd hk ha

/-- A pool that no quote tokens leave gets dearer. -/
theorem run_dearer {k : Pubkey} {p : PoolState} {as : List Action} (hinv : Inv l)
    (hrun : Runs.run (step spl) l as = .ok l') (hp : l.pools.lookup k = some p)
    (has : ∀ a ∈ as, ¬ a.TakesQuote k) : ∃ p', l'.pools.lookup k = some p' ∧ p.Dearer p' := by
  have key : Inv l' ∧ ∃ p', l'.pools.lookup k = some p' ∧ p.Dearer p' := by
    refine Runs.run_preserves_of (P := fun m => Inv m ∧ ∃ q, m.pools.lookup k = some q ∧
      p.Dearer q) (C := fun _ a => ¬ a.TakesQuote k) ?_ ⟨hinv, p, hp, .refl p⟩ hrun ?_
    · rintro m a m' ⟨hm, q, hq, hd⟩ ha hstep
      obtain ⟨q', hq', hmove⟩ := step_move hm hstep hq
      exact ⟨hm.step hstep, q', hq', hd.trans (hmove.dearer ha)⟩
    · intro done a rest m hd _
      exact has a (by simp [hd])
  exact key.2

/-! ## Dearer prices -/

section Prices

variable {ms ms' : MainState} {p p' : PoolState} {q b s m m' : U64}

/-- The same amount of quote tokens gets no more from a dearer pool. -/
theorem ExactQuote.le_of_dearer {c c' : Purchase} (h : ExactQuote ms p q m c)
    (h' : ExactQuote ms' p' q m' c') (hd : p.Dearer p') (hfee : ms'.trading_fee = ms.trading_fee) :
    c'.base_amount.toNat ≤ c.base_amount.toNat := by
  have hin : c'.input_quote_amount.toNat ≤ c.input_quote_amount.toNat := by
    rw [h.input, h'.input, hfee]
    exact min_le_min_left _ hd.remaining_le
  rw [h.base, h'.base]
  exact (ConstantProduct.output_anti hd.quote_le hd.base_le).trans
    (ConstantProduct.output_mono hin)

/-- Where the casts lose nothing, the same tokens are no cheaper in a dearer pool, and no more of
them are left by its cap. -/
theorem ExactTokens.le_of_dearer {c c' : Purchase} (h : ExactTokens ms p b m c)
    (h' : ExactTokens ms' p' b m' c') (hd : p.Dearer p') (hfee : ms'.trading_fee = ms.trading_fee)
    (hpr' : Priceable ms' p') (hrange : p'.InRange ms'.trading_fee b) :
    c'.base_amount.toNat ≤ c.base_amount.toNat ∧
      (c'.settled.complete = false → c.fee.toNat + c.input_quote_amount.toNat ≤
        c'.fee.toNat + c'.input_quote_amount.toNat) := by
  have htf := hpr'.trading_fee_lt
  obtain ⟨hlt, hgross⟩ := (h'.in_range_iff htf).mp hrange
  have hcharge : p.charge b ≤ p'.charge b := by
    rw [PoolState.charge_of_lt hlt]
    exact (Nat.mod_le _ _).trans
      (ConstantProduct.input_le_input hd.quote_le hd.base_le h'.below)
  constructor
  · rcases h.branch with ⟨hcap, hin, -, hout⟩ | ⟨-, -, hb⟩
    · -- the dearer pool caps what the cheaper one capped
      have hcap' : p'.Capped b := by
        have hq := hd.quote_le
        rw [PoolState.quote, PoolState.quote, hd.terms.virt_quote_reserves] at hq
        rw [PoolState.Capped] at hcap ⊢
        rw [hd.terms.real_quote_threshold]
        omega
      rcases h'.branch with ⟨-, hin', -, hout'⟩ | ⟨hnot, -, -⟩
      · rw [hout, hout', hin, hin']
        exact (ConstantProduct.output_anti hd.quote_le hd.base_le).trans
          (ConstantProduct.output_mono hd.remaining_le)
      · exact absurd hcap' hnot
    · rw [hb]
      exact h'.base_le
  · intro hopen
    have hin' : c'.input_quote_amount.toNat = p'.charge b := by
      rcases h'.branch with ⟨-, hin', -, -⟩ | ⟨-, hin', -⟩
      · rw [c'.settled_completes h'.buys hpr'.quote_le hin'] at hopen
        cases hopen
      · exact hin'
    have hin : c.input_quote_amount.toNat ≤ c'.input_quote_amount.toNat := by
      rw [h.input, hin']
      exact (min_le_left _ _).trans hcharge
    have hle := (GrossUp.gross_strictMono htf).monotone hin
    rw [h.fee, h'.fee, ← hfee, Nat.mod_eq_of_lt hgross, Nat.mod_eq_of_lt (hle.trans_lt hgross)]
    exact Nat.add_le_add (GrossUp.fee_mono hle) hin

/-- A seller gets the net of the curve's output. -/
theorem Sell.output_eq_net {c : Sale} (h : Sell ms p s m c)
    (htf : ms.trading_fee.toNat < FEE_UNIT) :
    c.output_amount.toNat = GrossUp.net ms.trading_fee.toNat FEE_UNIT
      (ConstantProduct.output s.toNat p.base p.quote) := by
  have h1 := GrossUp.fee_add_net htf.le c.gross_amount.toNat
  have h2 := h.output
  rw [h.fee] at h2
  rw [← h.gross]
  omega

/-- The same base tokens bring no less in a dearer pool. -/
theorem Sell.le_of_dearer {c c' : Sale} (h : Sell ms p s m c) (h' : Sell ms' p' s m' c')
    (hd : p.Dearer p') (hfee : ms'.trading_fee = ms.trading_fee)
    (htf : ms.trading_fee.toNat < FEE_UNIT) :
    c.output_amount.toNat ≤ c'.output_amount.toNat := by
  rw [h.output_eq_net htf, h'.output_eq_net (hfee ▸ htf), hfee]
  apply GrossUp.net_mono htf
  exact ConstantProduct.output_anti hd.base_le hd.quote_le

end Prices

/-! ## Earlier and later trades -/

/-- **First come, first served.** Let a run take no quote tokens out of a pool, and the fee be the
same before and after it. Then for the same amount a buy after the run gets no more base tokens
than one before it; for the same tokens, where the casts lose nothing and it does not complete the
pool, it costs no less; and a sell of the same tokens brings no less. -/
theorem first_come_first_served (spl : TokenProgram Pubkey) {l l' : Ledger} {as : List Action}
    {k : Pubkey} {ms ms' : MainState} (hl : Reachable spl l)
    (hrun : Runs.run (step spl) l as = .ok l') (has : ∀ a ∈ as, ¬ a.TakesQuote k)
    (hms : l.main_state = some ms) (hms' : l'.main_state = some ms')
    (hfee : ms'.trading_fee = ms.trading_fee) :
    (∀ (ctx ctx' : ABuy) (q m m' : U64) (l₁ l₁' : Ledger),
      ctx.pool_state = k → ctx'.pool_state = k →
      buy_tokens_from_exact_quote spl ctx q m l = .ok l₁ →
      buy_tokens_from_exact_quote spl ctx' q m' l' = .ok l₁' →
      ∃ p p' c c', Bought ctx l l₁ ms p c ∧ Bought ctx' l' l₁' ms' p' c' ∧
        c'.base_amount.toNat ≤ c.base_amount.toNat) ∧
    (∀ (ctx ctx' : ABuy) (b m m' : U64) (l₁ l₁' : Ledger),
      ctx.pool_state = k → ctx'.pool_state = k →
      buy_exact_tokens_from_quote spl ctx b m l = .ok l₁ →
      buy_exact_tokens_from_quote spl ctx' b m' l' = .ok l₁' →
      (Instruction.buy_exact_tokens_from_quote ctx' b m').InRange l' →
      ∃ p p' c c', Bought ctx l l₁ ms p c ∧ Bought ctx' l' l₁' ms' p' c' ∧
        c'.base_amount.toNat ≤ c.base_amount.toNat ∧
        (c'.settled.complete = false → c.fee.toNat + c.input_quote_amount.toNat ≤
          c'.fee.toNat + c'.input_quote_amount.toNat)) ∧
    ∀ (ctx ctx' : ASell) (s m m' : U64) (l₁ l₁' : Ledger),
      ctx.pool_state = k → ctx'.pool_state = k → AliPumpFun.sell spl ctx s m l = .ok l₁ →
      AliPumpFun.sell spl ctx' s m' l' = .ok l₁' →
      ∃ p p' c c', Sold ctx s l l₁ ms p c ∧ Sold ctx' s l' l₁' ms' p' c' ∧
        c.output_amount.toNat ≤ c'.output_amount.toNat := by
  have hinv := hl.inv
  have hinv' := hinv.run hrun
  have hdearer : ∀ {p p'}, l.pools.lookup k = some p → l'.pools.lookup k = some p' →
      p.Dearer p' := by
    intro p p' hp hp'
    obtain ⟨p'', hp'', hd⟩ := run_dearer hinv hrun hp has
    rw [Option.some_inj.mp (hp'.symm.trans hp'')]
    exact hd
  refine ⟨?_, ?_, ?_⟩
  · intro ctx ctx' q m m' l₁ l₁' hk hk' hok hok'
    obtain ⟨ms₁, p, c, hx, hb⟩ := hinv.exact_quote_iff.mp hok
    obtain ⟨ms₂, p', c', hx', hb'⟩ := hinv'.exact_quote_iff.mp hok'
    obtain rfl := Option.some_inj.mp (hms.symm.trans hb.accepts.main_state)
    obtain rfl := Option.some_inj.mp (hms'.symm.trans hb'.accepts.main_state)
    have hd := hdearer (hk ▸ hb.accepts.pool_state) (hk' ▸ hb'.accepts.pool_state)
    exact ⟨p, p', c, c', hb, hb', hx.le_of_dearer hx' hd hfee⟩
  · intro ctx ctx' b m m' l₁ l₁' hk hk' hok hok' hrange
    obtain ⟨ms₁, p, c, hx, hb⟩ := hinv.exact_tokens_iff.mp hok
    obtain ⟨ms₂, p', c', hx', hb'⟩ := hinv'.exact_tokens_iff.mp hok'
    obtain rfl := Option.some_inj.mp (hms.symm.trans hb.accepts.main_state)
    obtain rfl := Option.some_inj.mp (hms'.symm.trans hb'.accepts.main_state)
    have hd := hdearer (hk ▸ hb.accepts.pool_state) (hk' ▸ hb'.accepts.pool_state)
    exact ⟨p, p', c, c', hb, hb', hx.le_of_dearer hx' hd hfee
      (hinv'.priceable hms' hb'.accepts.pool_state) (hrange _ _ hms' hb'.accepts.pool_state)⟩
  · intro ctx ctx' s m m' l₁ l₁' hk hk' hok hok'
    obtain ⟨ms₁, p, c, hx, hs⟩ := hinv.sell_iff.mp hok
    obtain ⟨ms₂, p', c', hx', hs'⟩ := hinv'.sell_iff.mp hok'
    obtain rfl := Option.some_inj.mp (hms.symm.trans hs.accepts.main_state)
    obtain rfl := Option.some_inj.mp (hms'.symm.trans hs'.accepts.main_state)
    have hd := hdearer (hk ▸ hs.accepts.pool_state) (hk' ▸ hs'.accepts.pool_state)
    exact ⟨p, p', c, c', hs, hs', hx.le_of_dearer hx' hd hfee
      (hinv.main_state _ hms).trading_fee_lt⟩

/-- `bob` buys twice for 1000 quote tokens, and the second time he gets no more. -/
theorem first_come_first_served_sample : ∃ l l' l₂ ms p p' c c', Reachable .reference l ∧
    Bought ⟨bob, DEFAULT_OWNER, coin, QUOTE_MINT⟩ l l' ms p c ∧
    Bought ⟨bob, DEFAULT_OWNER, coin, QUOTE_MINT⟩ l' l₂ ms p' c' ∧
    c'.base_amount.toNat ≤ c.base_amount.toNat := by
  let buy : Action :=
    .ix (.buy_tokens_from_exact_quote ⟨bob, DEFAULT_OWNER, coin, QUOTE_MINT⟩ 1000 0)
  obtain ⟨l, hl, hreach, hms, -, -⟩ := exists_opened
  obtain ⟨l', hl', hms'⟩ := exists_eq_ok
    (x := Runs.run (step .reference) launched (opening ++ [buy])) (f := fun l => l.main_state)
    (b := some (.initial DEFAULT_OWNER)) (by decide +kernel)
  obtain ⟨l₂, hstep₂, -⟩ := Runs.exists_step_eq_ok hl' (a := buy) (f := fun _ => ()) (b := ())
    (by decide +kernel)
  obtain ⟨m, hm, hstep⟩ := Runs.run_snoc.mp hl'
  obtain rfl := Except.ok.inj (hl.symm.trans hm)
  have hrun : Runs.run (step .reference) l [buy] = .ok l' :=
    Runs.run_cons.mpr ⟨l', hstep, rfl⟩
  obtain ⟨p, p', c, c', hb, hb', hle⟩ := (first_come_first_served .reference hreach hrun
    (by simp [buy, Action.TakesQuote]) hms hms' rfl).1 _ _ _ _ _ _ _ rfl rfl hstep hstep₂
  exact ⟨l, l', l₂, _, p, p', c, c', hreach, hb, hb', hle⟩

end AliPumpFun
