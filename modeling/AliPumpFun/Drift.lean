/-
How far the product of a pool can drift, and what a completed pool has left.

The two buys and the sell round, each in its own direction. On the curve a pool refines, a
move costs or earns less than one price unit, so over a run the product stays within a
distance of its first value that only counts the trades, whoever makes them and whatever
their amounts. At the completion the quote side is known, and the product pins the base
side: `state.rs` says that about a fifth of the supply is left, and the last section says
how exactly.
-/
import AliPumpFun.Refinement

set_option autoImplicit false

open Words Fallible BondingCurve

namespace AliPumpFun

variable {spl : TokenProgram Pubkey} {l l' : Ledger} {t : Terms} {s : State t}

/-! ## Counting trades -/

def Instruction.is_buy : Instruction → Bool
  | .buy_tokens_from_exact_quote _ _ _ => true
  | .buy_exact_tokens_from_quote _ _ _ => true
  | _ => false

def Instruction.is_exact_tokens : Instruction → Bool
  | .buy_exact_tokens_from_quote _ _ _ => true
  | _ => false

def Instruction.is_sell : Instruction → Bool
  | .sell _ _ _ => true
  | _ => false

/-- How many instructions of a kind a run makes on the pool at `k`. -/
def trades (kind : Instruction → Bool) (k : Pubkey) (as : List Action) : ℕ :=
  (instructions k as).countP kind

section Kinds

variable {i : Instruction} {m : Move}

theorem Instruction.Implements.is_exact_tokens (h : i.Implements m) (hm : m.is_demand = true) :
    i.is_exact_tokens = true := by
  cases i <;> cases m <;> first | rfl | exact h.elim | cases hm

theorem Instruction.Implements.is_buy (h : i.Implements m) (hm : m.is_deposit = true) :
    i.is_buy = true := by
  cases i <;> cases m <;> first | rfl | exact h.elim | cases hm

theorem Instruction.Implements.is_sell (h : i.Implements m) (hm : m.is_restore = true) :
    i.is_sell = true := by
  cases i <;> cases m <;> first | rfl | exact h.elim | cases hm

theorem Instruction.Implements.exists_withdraw {b q : ℕ} (h : i.Implements (.withdraw b q)) :
    ∃ ctx, i = .withdraw ctx := by
  cases i with
  | withdraw ctx => exact ⟨ctx, rfl⟩
  | _ => exact h.elim

end Kinds

theorem mem_instructions {k : Pubkey} {as : List Action} {i : Instruction}
    (h : i ∈ instructions k as) : .ix i ∈ as ∧ i.pool = some k := by
  obtain ⟨a, ha, hon⟩ := List.mem_filterMap.mp h
  cases a with
  | ix j =>
    rw [Action.on, Option.ite_none_right_eq_some] at hon
    obtain ⟨hk, hj⟩ := hon
    rw [Option.some_inj] at hj
    exact ⟨hj ▸ ha, hj ▸ hk⟩
  | _ => cases hon

/-! ## The drift of a pool -/

section Follows

variable {k b : Pubkey} {l₀ : Ledger} {r₀ : Reserves t} {as : List Action} {ms : List Move}
  {p : PoolState}

/-- A pool that was not withdrawn from stands for a curve with its reserves. -/
theorem Follows.exists_active (h : Follows k b l₀ (.active r₀) as l ms s p)
    (hw : ∀ a ∈ as, a.withdrawn ≠ some k) : ∃ r, s = .active r := by
  cases s with
  | active r => exact ⟨r, rfl⟩
  | withdrawn =>
    obtain ⟨x, y, hmem⟩ := h.path.exists_withdraw rfl (by simp)
    obtain ⟨i, hi, himp⟩ := Runs.exists_of_forall₂ h.implements hmem
    obtain ⟨ctx, rfl⟩ := himp.exists_withdraw
    obtain ⟨ha, hk⟩ := mem_instructions hi
    exact absurd hk (hw _ ha)

/-- The product of a pool is that of its curve. -/
theorem Represents.product_eq {r : Reserves t} (h : Represents t p (.active r)) :
    p.product = r.product := by
  rw [PoolState.product, Reserves.product, h.terms.base_eq h.base_eq, h.terms.quote_eq h.quote_eq]

/-- The drift of the path, with the trades for the moves. -/
theorem Follows.drift {r : Reserves t}
    (h : Follows k b l₀ (.active r₀) as l ms (.active r) p) :
    (t.Fits (2 ^ 64) →
      r₀.product ≤ p.product + trades Instruction.is_exact_tokens k as * t.base_max) ∧
    p.product ≤ r₀.product + (trades Instruction.is_buy k as * t.quote_max +
      trades Instruction.is_sell k as * t.base_max) := by
  have hdemands : ms.countP Move.is_demand ≤ trades Instruction.is_exact_tokens k as :=
    Runs.countP_le_of_forall₂ h.implements fun _ _ => Instruction.Implements.is_exact_tokens
  have hdeposits : ms.countP Move.is_deposit ≤ trades Instruction.is_buy k as :=
    Runs.countP_le_of_forall₂ h.implements fun _ _ => Instruction.Implements.is_buy
  have hrestores : ms.countP Move.is_restore ≤ trades Instruction.is_sell k as :=
    Runs.countP_le_of_forall₂ h.implements fun _ _ => Instruction.Implements.is_sell
  rw [h.represents.product_eq]
  constructor
  · intro hfit
    refine (h.path.product_le hfit r rfl).trans ?_
    exact Nat.add_le_add_left (Nat.mul_le_mul_right _ hdemands) _
  · refine (h.path.le_product r rfl).trans ?_
    apply Nat.add_le_add_left
    exact Nat.add_le_add (Nat.mul_le_mul_right _ hdeposits) (Nat.mul_le_mul_right _ hrestores)

end Follows

/-- **The drift of the product.** From the creation on, and as long as nothing is withdrawn,
the product of a pool falls by one total base reserve of the creation for each exact-tokens
buy at the most, where the terms exclude a lossy cast, and rises by one completed quote
reserve for each buy and one total base reserve for each sell at the most. -/
theorem product_drift (spl : TokenProgram Pubkey) {l₀ l₁ : Ledger} {ctx : ACreatePool}
    {as : List Action} {p₁ p : PoolState} (hl : Reachable spl l₀)
    (hcreate : create_pool spl ctx l₀ = .ok l₁)
    (hp₁ : l₁.pools.lookup ctx.pool_state = some p₁)
    (hrun : Runs.run (step spl) l₁ as = .ok l) (hp : l.pools.lookup ctx.pool_state = some p)
    (hw : ∀ a ∈ as, a.withdrawn ≠ some ctx.pool_state) :
    (p₁.real_base_reserves.toNat *
          (p₁.virt_quote_reserves.toNat + p₁.real_quote_threshold.toNat) <
        2 ^ 64 * p₁.virt_base_reserves.toNat →
      p₁.product ≤ p.product +
        trades Instruction.is_exact_tokens ctx.pool_state as * p₁.base) ∧
    p.product ≤ p₁.product +
      (trades Instruction.is_buy ctx.pool_state as *
          (p₁.virt_quote_reserves.toNat + p₁.real_quote_threshold.toNat) +
        trades Instruction.is_sell ctx.pool_state as * p₁.base) := by
  obtain ⟨ms, mint, hv, mv, s, p', hc, hf⟩ := exists_follows hl hcreate hrun
  obtain rfl := Option.some_inj.mp (hp₁.symm.trans hc.settles.lookup_self)
  obtain rfl := Option.some_inj.mp (hp.symm.trans hf.pool)
  obtain ⟨r, rfl⟩ := hf.exists_active hw
  exact hf.drift

/-- One exact-tokens buy lowers the product, by less than a total base reserve. -/
theorem product_drift_sample : ∃ l p, Reachable .reference l ∧
    l.pools.lookup coin_pool = some p ∧ p.product < coin_created.product ∧
    coin_created.product ≤ p.product + coin_created.base := by
  let buy : Action :=
    .ix (.buy_exact_tokens_from_quote ⟨bob, DEFAULT_OWNER, coin, QUOTE_MINT⟩ 1 0)
  obtain ⟨l₀, l₁, l, hl₀, hcreate, hl₁, hp₁, hrun, hp⟩ := exists_opening [buy]
    (p := { coin_created with real_base_reserves := TOTAL_SUPPLY - 1 }) (by decide +kernel)
  have hdrift := (product_drift .reference hl₀ hcreate hp₁ hrun hp (by decide)).1 (by decide)
  rw [show trades Instruction.is_exact_tokens (ACreatePool.pool_state ⟨alice, coin, QUOTE_MINT⟩)
    [buy] = 1 by decide, Nat.one_mul] at hdrift
  exact ⟨l, _, hl₁.run hrun, hp, by decide, hdrift⟩

/-! ## A completed pool -/

/-- **A completed default pool has about a fifth of the supply left**: 200000000500000 base
tokens of 1000000000000000, less 27 for each exact-tokens buy, and more by 1 for each buy and
by 27 for each sell, at the most. -/
theorem completed_default_pool (spl : TokenProgram Pubkey) {l₀ l₁ : Ledger} {ctx : ACreatePool}
    {as : List Action} {p₁ p : PoolState} (hl : Reachable spl l₀)
    (hcreate : create_pool spl ctx l₀ = .ok l₁)
    (hp₁ : l₁.pools.lookup ctx.pool_state = some p₁)
    (hbase : p₁.real_base_reserves = TOTAL_SUPPLY ∧
      p₁.virt_base_reserves = INIT_VIRT_BASE_RESERVE)
    (hquote : p₁.real_quote_threshold = REAL_QUOTE_THRESHOLD ∧
      p₁.virt_quote_reserves = INIT_VIRT_QUOTE_RESERVE)
    (hrun : Runs.run (step spl) l₁ as = .ok l) (hp : l.pools.lookup ctx.pool_state = some p)
    (hw : ∀ a ∈ as, a.withdrawn ≠ some ctx.pool_state) (hcomplete : p.complete = true) :
    200000000500000 ≤ p.real_base_reserves.toNat +
        27 * trades Instruction.is_exact_tokens ctx.pool_state as ∧
      p.real_base_reserves.toNat ≤ 200000000500000 +
        (trades Instruction.is_buy ctx.pool_state as +
          27 * trades Instruction.is_sell ctx.pool_state as) := by
  obtain ⟨ms, mint, hv, mv, s, p', hc, hf⟩ := exists_follows hl hcreate hrun
  obtain rfl := Option.some_inj.mp (hp₁.symm.trans hc.settles.lookup_self)
  obtain rfl := Option.some_inj.mp (hp.symm.trans hf.pool)
  obtain ⟨r, rfl⟩ := hf.exists_active hw
  -- the terms are numbers
  have hvb : (ms.terms hv).virt_base = 66666666000000 := congrArg BitVec.toNat hbase.2
  have hsupply : (ms.terms hv).supply = 1000000000000000 := congrArg BitVec.toNat hbase.1
  have hvq : (ms.terms hv).virt_quote = 10000000000000 := congrArg BitVec.toNat hquote.2
  have hthr : (ms.terms hv).threshold = 30000000000000 := congrArg BitVec.toNat hquote.1
  have hbmax : (ms.terms hv).base_max = 1066666666000000 := by
    rw [Terms.base_max, hvb, hsupply]
  have hqmax : (ms.terms hv).quote_max = 40000000000000 := by
    rw [Terms.quote_max, hvq, hthr]
  have hfit : (ms.terms hv).Fits (2 ^ 64) := by
    rw [Terms.Fits, hsupply, hqmax, hvb]
    decide
  -- complete, the quote side is the largest there is, so the product is linear in the base
  have hproduct : p.product = (66666666000000 + p.real_base_reserves.toNat) * 40000000000000 := by
    cases hf.represents with
    | active ht _ hq hcomp =>
      rw [PoolState.product, PoolState.base, PoolState.quote, ht.virt_base, ht.virt_quote, hq,
        hcomp.mp hcomplete, hvb, hvq, hthr]
  have hstart : (ms.terms hv).start.product = 1066666666000000 * 10000000000000 := by
    show ((ms.terms hv).virt_base + (ms.terms hv).supply) * ((ms.terms hv).virt_quote + 0) = _
    rw [hvb, hsupply, hvq]
  obtain ⟨hlow, hhigh⟩ := hf.drift
  have hlow := hlow hfit
  rw [hstart, hproduct, hbmax] at hlow
  rw [hstart, hproduct, hbmax, hqmax] at hhigh
  constructor
  · omega
  · omega

/-- `bob` completes the default pool with one buy. -/
theorem completed_default_pool_sample : ∃ l p, Reachable .reference l ∧
    l.pools.lookup coin_pool = some p ∧ p.complete = true ∧
    200000000500000 ≤ p.real_base_reserves.toNat ∧
    p.real_base_reserves.toNat ≤ 200000000500001 := by
  let buy : Action := .ix
    (.buy_tokens_from_exact_quote ⟨bob, DEFAULT_OWNER, coin, QUOTE_MINT⟩ 31000000000000 0)
  obtain ⟨l₀, l₁, l, hl₀, hcreate, hl₁, hp₁, hrun, hp⟩ := exists_opening [buy]
    (p := { coin_created with
      real_base_reserves := 200000000500000
      real_quote_reserves := 30000000000000
      complete := true }) (by decide +kernel)
  exact ⟨l, _, hl₁.run hrun, hp, rfl, completed_default_pool .reference hl₀ hcreate hp₁
    ⟨rfl, rfl⟩ ⟨rfl, rfl⟩ hrun hp (by decide) rfl⟩

end AliPumpFun
