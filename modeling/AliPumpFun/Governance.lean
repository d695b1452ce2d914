/-
Who governs the program.

The main state belongs to an owner, which the owner alone can change and hand over. Along a
run this makes a chain: the owner in force was appointed by the last transfer, which the owner
before signed, and so on back to the default owner, and every setting in force is the default or
was written by the last update that set it, which the owner at the time signed.

Nothing in the chain can be skipped, so without the owner's signature the main state is
frozen. A transfer does not ask the new owner. An owner that is no signer is the last one.
-/
import AliPumpFun.Creation

set_option autoImplicit false

open Words Fallible

namespace AliPumpFun

variable {spl : TokenProgram Pubkey} {l l' : Ledger} {a : Action} {as : List Action}

/-! ## Owners and settings -/

/-- After the actions `as` the owner in force is `o`: the first transfer is signed by the default
owner, each other one by whom the one before it names, and the last one names `o`. -/
inductive Appointed : List Action → Pubkey → Prop where
  | default : Appointed [] DEFAULT_OWNER
  | kept {as : List Action} {a : Action} {o : Pubkey} (h : Appointed as o)
      (ha : ∀ ctx o', a ≠ .ix (.transfer_ownership ctx o')) : Appointed (as ++ [a]) o
  | transfer {as : List Action} {ctx : ATransferOwnership} {o : Pubkey}
      (h : Appointed as ctx.owner.1) : Appointed (as ++ [.ix (.transfer_ownership ctx o)]) o

/-- After the actions `as` the member `f` of the main state is `value`: the default, or what the
last update that sets it gives it, signed by the owner in force at the time. -/
inductive Chosen {α : Type} (f : MainState → α) (g : UpdateMainStateInput → Option α) :
    List Action → α → Prop where
  | default : Chosen f g [] (f (.initial DEFAULT_OWNER))
  | kept {as : List Action} {a : Action} {value : α} (h : Chosen f g as value)
      (ha : ∀ ctx input, a = .ix (.update_main_state ctx input) → g input = none) :
      Chosen f g (as ++ [a]) value
  | update {as : List Action} {ctx : AUpdateMainState} {input : UpdateMainStateInput} {value : α}
      (ho : Appointed as ctx.owner.1) (hg : g input = some value) :
      Chosen f g (as ++ [.ix (.update_main_state ctx input)]) value

/-- All of a main state is the choice of the owners in force. -/
structure Governed (as : List Action) (ms : MainState) : Prop where
  owner : Appointed as ms.owner
  withdrawer : Chosen (·.withdrawer) (fun input => some input.withdrawer) as ms.withdrawer
  fee_recipient :
    Chosen (·.fee_recipient) (fun input => some input.fee_recipient) as ms.fee_recipient
  trading_fee : Chosen (·.trading_fee) (fun input => some input.trading_fee) as ms.trading_fee
  total_supply : Chosen (·.total_supply) (·.total_supply) as ms.total_supply
  init_virt_base_reserves :
    Chosen (·.init_virt_base_reserves) (·.init_virt_base_reserves) as ms.init_virt_base_reserves
  init_virt_quote_reserves : Chosen (·.init_virt_quote_reserves) (·.init_virt_quote_reserves) as
    ms.init_virt_quote_reserves
  real_quote_threshold :
    Chosen (·.real_quote_threshold) (·.real_quote_threshold) as ms.real_quote_threshold

section Chain

variable {α : Type} {f : MainState → α} {g : UpdateMainStateInput → Option α} {x y : α}
  {ms ms' : MainState}

/-- What is no update keeps the settings. -/
theorem Governed.kept (h : Governed as ms) {o : Pubkey} (ho : Appointed (as ++ [a]) o)
    (ha : ∀ ctx input, a ≠ .ix (.update_main_state ctx input)) :
    Governed (as ++ [a]) { ms with owner := o } := by
  have hg : ∀ {β : Type} {g : UpdateMainStateInput → Option β} (ctx : AUpdateMainState)
      (input : UpdateMainStateInput), a = .ix (.update_main_state ctx input) → g input = none := by
    intro β g ctx input he
    exact absurd he (ha ctx input)
  exact {
    owner := ho
    withdrawer := h.withdrawer.kept hg
    fee_recipient := h.fee_recipient.kept hg
    trading_fee := h.trading_fee.kept hg
    total_supply := h.total_supply.kept hg
    init_virt_base_reserves := h.init_virt_base_reserves.kept hg
    init_virt_quote_reserves := h.init_virt_quote_reserves.kept hg
    real_quote_threshold := h.real_quote_threshold.kept hg }

/-- An update of the owner chooses what it sets and leaves the rest. -/
theorem Chosen.updated {ctx : AUpdateMainState} {input : UpdateMainStateInput}
    (h : Chosen f g as x) (ho : Appointed as ctx.owner.1) (hy : y = (g input).getD x) :
    Chosen f g (as ++ [.ix (.update_main_state ctx input)]) y := by
  by_cases hset : g input = none
  · rw [hset, Option.getD_none] at hy
    rw [hy]
    refine h.kept ?_
    intro ctx' input' he
    rw [← (Instruction.update_main_state.inj (Action.ix.inj he)).2]
    exact hset
  · obtain ⟨value, hvalue⟩ := Option.ne_none_iff_exists'.mp hset
    rw [hvalue, Option.getD_some] at hy
    rw [hy]
    exact .update ho hvalue

end Chain

/-- Whose signature the next change of the main state needs. -/
def Ledger.authority (l : Ledger) : Pubkey :=
  match l.main_state with
  | some ms => ms.owner
  | none => DEFAULT_OWNER

/-- Nobody but the authority changes the main state. -/
theorem step_frozen (hwf : AtaWf l.tokens) (h : step spl l a = .ok l')
    (ha : a.signer ≠ some l.authority) : l'.main_state = l.main_state := by
  cases hms : l.main_state with
  | some ms =>
    rw [Ledger.authority, hms] at ha
    exact main_state_of_signer_ne hwf h hms ha
  | none =>
    rw [Ledger.authority, hms] at ha
    by_cases hpool : ∀ i, a = .ix i → i.pool ≠ none
    · rw [step_main_state hwf h hpool]
      exact hms
    · push Not at hpool
      obtain ⟨i, rfl, hi⟩ := hpool
      cases i with
      | init_main_state ctx =>
        obtain ⟨hacc, -⟩ := init_main_state_eq_ok.mp h
        exact absurd (congrArg some hacc.owner) ha
      | transfer_ownership ctx new_owner =>
        obtain ⟨ms, hms', -⟩ := transfer_ownership_eq_ok.mp h
        rw [hms] at hms'
        cases hms'
      | update_main_state ctx input =>
        obtain ⟨ms, ms', hu, -⟩ := (update_main_state_eq_ok hwf).mp h
        rw [hu.main_state] at hms
        cases hms
      | _ => cases hi

/-- Every instruction writes a main state, or finds one and leaves it. -/
theorem Instruction.main_state_ne_none {i : Instruction} (hwf : AtaWf l.tokens)
    (h : i.execute spl l = .ok l') : l'.main_state ≠ none := by
  intro hn
  by_cases hi : i.pool = none
  · cases i with
    | init_main_state ctx =>
      rw [(init_main_state_eq_ok.mp h).2] at hn
      cases hn
    | transfer_ownership ctx new_owner =>
      obtain ⟨ms, -, -, -, rfl⟩ := transfer_ownership_eq_ok.mp h
      cases hn
    | update_main_state ctx input =>
      obtain ⟨ms, ms', -, rfl⟩ := (update_main_state_eq_ok hwf).mp h
      cases hn
    | _ => cases hi
  · have hms : l.main_state = none := by
      rw [← (step_frame (a := .ix i) hwf h).main_state hi]
      exact hn
    cases i with
    | create_pool ctx =>
      obtain ⟨ms, mint, hc⟩ := (create_pool_eq_ok hwf).mp h
      rw [hc.accepts.main_state] at hms
      cases hms
    | buy_tokens_from_exact_quote ctx q m =>
      obtain ⟨ms, p, c, -, hb⟩ := (buy_tokens_from_exact_quote_eq_ok hwf).mp h
      rw [hb.accepts.main_state] at hms
      cases hms
    | buy_exact_tokens_from_quote ctx b m =>
      obtain ⟨ms, p, c, -, hb⟩ := (buy_exact_tokens_from_quote_eq_ok hwf).mp h
      rw [hb.accepts.main_state] at hms
      cases hms
    | sell ctx s m =>
      obtain ⟨ms, p, c, -, hs⟩ := (sell_eq_ok hwf).mp h
      rw [hs.accepts.main_state] at hms
      cases hms
    | withdraw ctx =>
      obtain ⟨p, hw⟩ := (withdraw_eq_ok hwf).mp h
      obtain ⟨ms, hms', -⟩ := hw.accepts.main_state
      rw [hms'] at hms
      cases hms
    | _ => exact hi rfl

/-- While there is no main state, nothing happens to the pools and nothing is emitted. -/
theorem step_uninitialized (hwf : AtaWf l.tokens) (h : step spl l a = .ok l')
    (hn : l'.main_state = none) :
    l.main_state = none ∧ l'.pools = l.pools ∧ l'.events = l.events := by
  cases a with
  | ix i => exact absurd hn (i.main_state_ne_none hwf h)
  | token_transfer authority s d n =>
    simp only [step, bind_eq_ok, pure_eq_ok] at h
    obtain ⟨t, -, rfl⟩ := h
    exact ⟨hn, rfl, rfl⟩
  | create_ata owner mint =>
    simp only [step, bind_eq_ok, pure_eq_ok] at h
    obtain ⟨-, -, t, -, rfl⟩ := h
    exact ⟨hn, rfl, rfl⟩
  | create_account bytes owner mint =>
    simp only [step, bind_eq_ok, pure_eq_ok] at h
    obtain ⟨-, -, t, -, rfl⟩ := h
    exact ⟨hn, rfl, rfl⟩
  | tick ts =>
    rw [← pure_eq_ok.mp h] at hn ⊢
    exact ⟨hn, rfl, rfl⟩

/-- A reachable ledger without a main state has no pools and no events. -/
theorem Reachable.uninitialized (hl : Reachable spl l) (hn : l.main_state = none) :
    l.pools = ∅ ∧ l.events = [] := by
  obtain ⟨g, as, hg, hrun⟩ := hl
  refine Runs.run_induction (P := fun _ m => m.main_state = none → m.pools = ∅ ∧ m.events = [])
    ?_ ?_ hrun hn
  · intro _
    exact ⟨hg.no_pools, hg.no_events⟩
  · intro done m a m' hdone ih hstep hn'
    obtain ⟨hm, hp, he⟩ := step_uninitialized (hg.inv.run hdone).ata hstep hn'
    rw [hp, he]
    exact ih hm

/-- **Without the owner nothing changes.** A run in which the authority signs nothing, as is
every run when it is no signer, leaves the main state as it is. Without the default owner no
run creates a pool or emits an event. -/
theorem main_state_frozen (spl : TokenProgram Pubkey) (hl : Reachable spl l)
    (hrun : Runs.run (step spl) l as = .ok l')
    (hsig : l.authority.is_signer = false ∨ ∀ a ∈ as, a.signer ≠ some l.authority) :
    l'.main_state = l.main_state ∧ (l.main_state = none → l'.pools = ∅ ∧ l'.events = []) := by
  have hquiet : ∀ a ∈ as, a.signer ≠ some l.authority := by
    rcases hsig with hno | hsig
    · intro a _ ha
      rw [Action.signer_is_signer ha] at hno
      cases hno
    · exact hsig
  have hkept : Inv l' ∧ l'.main_state = l.main_state := by
    refine Runs.run_preserves_of (P := fun m => Inv m ∧ m.main_state = l.main_state)
      (C := fun _ a => a.signer ≠ some l.authority) ?_ ⟨hl.inv, rfl⟩ hrun ?_
    · rintro m a m' ⟨hinv, hms⟩ ha hstep
      refine ⟨hinv.step hstep, ?_⟩
      rw [← hms]
      refine step_frozen hinv.ata hstep ?_
      rw [Ledger.authority, hms]
      exact ha
    · intro done a rest m has _
      exact hquiet a (by simp [has])
  refine ⟨hkept.2, fun hn => (hl.run hrun).uninitialized ?_⟩
  rw [hkept.2]
  exact hn

/-- Given to the pool's address, the ownership is lost. -/
theorem main_state_frozen_sample : ∃ (l l' : Ledger), Reachable .reference l ∧
    l.authority = coin_pool ∧
    Runs.run (step .reference) l [.ix (.buy_tokens_from_exact_quote
      ⟨bob, DEFAULT_OWNER, coin, QUOTE_MINT⟩ 1000 0), .tick 5] = .ok l' ∧
    l'.main_state = l.main_state := by
  let lost : List Action := opening ++ [.ix (.transfer_ownership ⟨default_owner⟩ coin_pool)]
  let later : List Action := [.ix (.buy_tokens_from_exact_quote
    ⟨bob, DEFAULT_OWNER, coin, QUOTE_MINT⟩ 1000 0), .tick 5]
  obtain ⟨l, hl, hv⟩ := exists_eq_ok (x := Runs.run (step .reference) launched lost)
    (f := Ledger.authority) (b := coin_pool) (by decide +kernel)
  obtain ⟨l', hl', -⟩ := exists_eq_ok
    (x := Runs.run (step .reference) launched (lost ++ later)) (f := fun _ => ()) (b := ())
    (by decide +kernel)
  obtain ⟨m, hm, hrun⟩ := Runs.run_append.mp hl'
  rw [hl, Except.ok.injEq] at hm
  rw [← hm] at hrun
  have hreach : Reachable .reference l := ⟨launched, lost, launched_genesis, hl⟩
  have hfrozen := main_state_frozen .reference hreach hrun (.inl (by rw [hv]; rfl))
  exact ⟨l, l', hreach, hv, hrun, hfrozen.1⟩

end AliPumpFun
