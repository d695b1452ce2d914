/-
Sequences of transfers, and the closure of a bank under everything that can happen to it.

`Paid` is a list of transfers done one after the other. Its one lemma says what it does
to a balance: what came in is added and what went out is taken off, whatever the order
and however the accounts of the list coincide.

`Evolves` forgets the amounts. It is what holds of a bank between any two moments when
accounts are only debited by authorities in `auth` and only opened at addresses allowed
by `fresh`: accounts stay where they are, nothing enters or leaves circulation, and an
account whose owner is not an authority is never debited.

`Alike` compares two banks that differ in the balances of some accounts only. Payments
that these accounts can afford on both sides go through on both sides.
-/
import AliPumpFun.Bank
import Mathlib.Logic.Relation

set_option autoImplicit false

open Words

/-- An order to move `amount` from `source` to `destination`, signed for by
`authority`. -/
structure Payment (K : Type*) where
  source : K
  destination : K
  authority : K
  amount : U64

namespace Bank

variable {K : Type*} [DecidableEq K]

/-! ## Payments -/

/-- The bank `b'` after the payments in order. -/
def Paid (b : Bank K) : List (Payment K) → Bank K → Prop
  | [], b' => b' = b
  | p :: ps, b' => ∃ b₁,
      (∃ S D, b.Transferred p.source p.destination p.authority p.amount S D b₁) ∧ Paid b₁ ps b'

/-- What a list of payments takes out of `x`. -/
def outgoing (x : K) (ps : List (Payment K)) : ℕ :=
  (ps.map fun p => if x = p.source then p.amount.toNat else 0).sum

/-- What a list of payments brings into `x`. -/
def incoming (x : K) (ps : List (Payment K)) : ℕ :=
  (ps.map fun p => if x = p.destination then p.amount.toNat else 0).sum

/-- Whether the account at `k` is one of those selected by `P`. -/
def selects (b : Bank K) (P : K → K → K → Bool) (k : K) : Bool :=
  match b.lookup k with
  | some a => P k a.mint a.owner
  | none => false

@[simp] theorem paid_nil {b b' : Bank K} : Paid b [] b' ↔ b' = b := Iff.rfl

@[simp] theorem paid_cons {b b' : Bank K} {p : Payment K} {ps : List (Payment K)} :
    Paid b (p :: ps) b' ↔ ∃ b₁,
      (∃ S D, b.Transferred p.source p.destination p.authority p.amount S D b₁) ∧
        Paid b₁ ps b' := Iff.rfl

/-- **What payments do to a balance.** -/
theorem Paid.balance_eq {b b' : Bank K} {ps : List (Payment K)} (h : Paid b ps b') (x : K) :
    b'.balance x + outgoing x ps = b.balance x + incoming x ps := by
  induction ps generalizing b with
  | nil =>
    rw [paid_nil.mp h]
    rfl
  | cons p ps ih =>
    obtain ⟨b₁, ⟨S, D, ht⟩, hps⟩ := h
    have h1 := ht.balance_eq x
    have h2 := ih hps
    simp only [outgoing, incoming, List.map_cons, List.sum_cons] at h2 ⊢
    omega

/-- Payments neither open nor close an account. -/
theorem Paid.mem_iff {b b' : Bank K} {ps : List (Payment K)} (h : Paid b ps b') (x : K) :
    x ∈ b' ↔ x ∈ b := by
  induction ps generalizing b with
  | nil => rw [paid_nil.mp h]
  | cons p ps ih =>
    obtain ⟨b₁, ⟨S, D, ht⟩, hps⟩ := h
    rw [ih hps, ht.mem_iff]

/-- Payments change amounts only. -/
theorem Paid.lookup_iff {b b' : Bank K} {ps : List (Payment K)} (h : Paid b ps b')
    (x mint owner : K) : (∃ n, b'.lookup x = some ⟨mint, owner, n⟩) ↔
      ∃ n, b.lookup x = some ⟨mint, owner, n⟩ := by
  induction ps generalizing b with
  | nil => rw [paid_nil.mp h]
  | cons p ps ih =>
    obtain ⟨b₁, ⟨S, D, ht⟩, hps⟩ := h
    rw [ih hps, ht.lookup_iff]

omit [DecidableEq K] in
theorem sum_map_eq_zero {ps : List (Payment K)} {f : Payment K → ℕ} (h : ∀ p ∈ ps, f p = 0) :
    (ps.map f).sum = 0 := by
  rw [List.sum_eq_zero]
  intro n hn
  rw [List.mem_map] at hn
  obtain ⟨p, hp, hpn⟩ := hn
  rw [← hpn]
  exact h p hp

/-- Nothing is taken out of an account that is no source. -/
theorem outgoing_eq_zero {x : K} {ps : List (Payment K)} (h : ∀ p ∈ ps, p.source ≠ x) :
    outgoing x ps = 0 := by
  refine sum_map_eq_zero fun p hp => ?_
  rw [if_neg (h p hp).symm]

/-- Nothing is brought into an account that is no destination. -/
theorem incoming_eq_zero {x : K} {ps : List (Payment K)} (h : ∀ p ∈ ps, p.destination ≠ x) :
    incoming x ps = 0 := by
  refine sum_map_eq_zero fun p hp => ?_
  rw [if_neg (h p hp).symm]

/-- A transfer does not change which accounts are selected. -/
theorem Transferred.selects_eq {b b' : Bank K} {s d authority : K} {n : U64}
    {S D : TokenAccount K} (h : Transferred b s d authority n S D b') (P : K → K → K → Bool)
    (k : K) : b'.selects P k = b.selects P k := by
  unfold selects
  cases hk : b.lookup k with
  | none =>
    have : k ∉ b' := by
      rw [h.mem_iff]
      exact Finmap.lookup_eq_none.mp hk
    rw [Finmap.lookup_eq_none.mpr this]
  | some a =>
    obtain ⟨n', hn⟩ := (h.lookup_iff k a.mint a.owner).mpr ⟨a.amount, hk⟩
    rw [hn]

/-- **What payments do to a sum over accounts**: only what crosses its border counts. -/
theorem Paid.holdings_eq {b b' : Bank K} {ps : List (Payment K)} (h : Paid b ps b')
    (P : K → K → K → Bool) :
    b'.holdings P + (ps.map fun p => if b.selects P p.source then p.amount.toNat else 0).sum =
      b.holdings P +
        (ps.map fun p => if b.selects P p.destination then p.amount.toNat else 0).sum := by
  induction ps generalizing b with
  | nil =>
    rw [paid_nil.mp h]
    rfl
  | cons p ps ih =>
    obtain ⟨b₁, ⟨S, D, ht⟩, hps⟩ := h
    have h1 := ht.holdings_eq P
    have h2 := ih hps
    have hs : b.selects P p.source = P p.source S.mint S.owner := by
      simp [selects, ht.source]
    have hd : b.selects P p.destination = P p.destination D.mint D.owner := by
      simp [selects, ht.destination]
    simp only [ht.selects_eq] at h2
    simp only [List.map_cons, List.sum_cons, hs, hd]
    omega

/-- Whether a payment can be made once it is funded: both accounts exist and are of one
mint, and its authority owns the source. -/
def Payable (b : Bank K) (p : Payment K) : Prop :=
  ∃ m n o n', b.lookup p.source = some ⟨m, p.authority, n⟩ ∧
    b.lookup p.destination = some ⟨m, o, n'⟩

/-- A transfer does not change what can be paid. -/
theorem Transferred.payable {b b' : Bank K} {s d authority : K} {n : U64} {S D : TokenAccount K}
    (h : Transferred b s d authority n S D b') {p : Payment K} (hp : b.Payable p) :
    b'.Payable p := by
  obtain ⟨m, n₁, o, n₂, hS, hD⟩ := hp
  obtain ⟨n₁', hS'⟩ := (h.lookup_iff p.source m p.authority).mpr ⟨n₁, hS⟩
  obtain ⟨n₂', hD'⟩ := (h.lookup_iff p.destination m o).mpr ⟨n₂, hD⟩
  exact ⟨m, n₁', o, n₂', hS', hD'⟩

/-- **Payments succeed** when each can be made and every account holds all that the list
takes out of it, whatever it brings in. -/
theorem exists_paid {b : Bank K} {ps : List (Payment K)} (hpay : ∀ p ∈ ps, b.Payable p)
    (hfit : ∀ m, b.total m < 2 ^ 64) (hfund : ∀ x, outgoing x ps ≤ b.balance x) :
    ∃ b', b.Paid ps b' := by
  induction ps generalizing b with
  | nil => exact ⟨b, rfl⟩
  | cons p ps ih =>
    obtain ⟨m, n, o, n', hS, hD⟩ := hpay p List.mem_cons_self
    have hn : p.amount.toNat ≤ b.balance p.source := by
      have := hfund p.source
      rw [outgoing, List.map_cons, List.sum_cons, if_pos rfl] at this
      exact le_of_add_le_left this
    obtain ⟨b₁, ht⟩ := exists_transferred hS hD rfl hn (hfit m)
    obtain ⟨b', hb'⟩ := ih (fun q hq => ht.payable (hpay q (List.mem_cons_of_mem _ hq)))
      (fun m => by rw [ht.total_eq]; exact hfit m) fun x => by
        have h1 := ht.balance_eq x
        have h2 := hfund x
        rw [outgoing, List.map_cons, List.sum_cons] at h2
        rw [outgoing]
        omega
    exact ⟨b', b₁, ⟨_, _, ht⟩, hb'⟩

/-- A payment is funded when it is made. -/
theorem Paid.head_le {b b' : Bank K} {p : Payment K} {ps : List (Payment K)}
    (h : Paid b (p :: ps) b') : p.amount.toNat ≤ b.balance p.source := by
  obtain ⟨b₁, ⟨S, D, ht⟩, -⟩ := h
  rw [balance_of_lookup ht.source]
  exact ht.funded

/-- **Replay.** Payments that were made from one bank can be made from another in which each
can be made, when its sources hold no less. -/
theorem Paid.replay {b b' c : Bank K} {ps : List (Payment K)} (h : Paid b ps b')
    (hpay : ∀ p ∈ ps, c.Payable p) (hfit : ∀ m, c.total m < 2 ^ 64)
    (hbal : ∀ p ∈ ps, b.balance p.source ≤ c.balance p.source) : ∃ c', c.Paid ps c' := by
  induction ps generalizing b c with
  | nil => exact ⟨c, rfl⟩
  | cons p ps ih =>
    have hhead := h.head_le.trans (hbal p List.mem_cons_self)
    obtain ⟨b₁, ⟨S, D, ht⟩, hps⟩ := h
    obtain ⟨m, n, o, n', hS, hD⟩ := hpay p List.mem_cons_self
    obtain ⟨c₁, hc₁⟩ := exists_transferred hS hD rfl hhead (hfit m)
    obtain ⟨c', hc'⟩ := ih hps (fun q hq => hc₁.payable (hpay q (List.mem_cons_of_mem _ hq)))
      (fun m => by rw [hc₁.total_eq]; exact hfit m) fun q hq => by
        -- the first payment changes both sides alike
        have h1 := ht.balance_eq q.source
        have h2 := hc₁.balance_eq q.source
        have h3 := hbal q (List.mem_cons_of_mem _ hq)
        omega
    exact ⟨c', c₁, ⟨_, _, hc₁⟩, hc'⟩

/-- Payments succeed also where the first of them funds the others. -/
theorem exists_paid_cons {b : Bank K} {p : Payment K} {ps : List (Payment K)}
    (hpay : ∀ q ∈ p :: ps, b.Payable q) (hfit : ∀ m, b.total m < 2 ^ 64)
    (hhead : p.amount.toNat ≤ b.balance p.source)
    (hfund : ∀ x, outgoing x ps + (if x = p.source then p.amount.toNat else 0) ≤
      b.balance x + (if x = p.destination then p.amount.toNat else 0)) :
    ∃ b', b.Paid (p :: ps) b' := by
  obtain ⟨m, n, o, n', hS, hD⟩ := hpay p List.mem_cons_self
  obtain ⟨b₁, ht⟩ := exists_transferred hS hD rfl hhead (hfit m)
  obtain ⟨b', hb'⟩ := exists_paid
    (fun q hq => ht.payable (hpay q (List.mem_cons_of_mem _ hq)))
    (fun m => by rw [ht.total_eq]; exact hfit m) fun x => by
      have h1 := ht.balance_eq x
      have h2 := hfund x
      omega
  exact ⟨b', b₁, ⟨_, _, ht⟩, hb'⟩

/-! ## Evolution -/

/-- One thing that happens to a bank: an account is opened, or an authority transfers. -/
inductive Step (fresh : K → K → K → Prop) (auth : K → Prop) (b : Bank K) : Bank K → Prop
  | create {k owner mint : K} : k ∉ b → fresh k owner mint → Step fresh auth b
      (b.opened k owner mint)
  | transfer {s d authority : K} {n : U64} {S D : TokenAccount K} {b' : Bank K} :
      Transferred b s d authority n S D b' → auth authority → Step fresh auth b b'

/-- Any number of such things. -/
abbrev Evolves (fresh : K → K → K → Prop) (auth : K → Prop) : Bank K → Bank K → Prop :=
  Relation.ReflTransGen (Step fresh auth)

section Evolution

variable {fresh : K → K → K → Prop} {auth : K → Prop} {b b' : Bank K}

theorem Step.mem (h : Step fresh auth b b') {k : K} (hk : k ∈ b) : k ∈ b' := by
  cases h with
  | create => exact Finmap.mem_insert.mpr (.inr hk)
  | transfer ht => exact (ht.mem_iff k).mpr hk

theorem Step.total_eq (h : Step fresh auth b b') (m : K) : b'.total m = b.total m := by
  cases h with
  | create hk => exact holdings_opened hk _
  | transfer ht => exact ht.total_eq m

/-- An account keeps its mint and owner. -/
theorem Step.lookup (h : Step fresh auth b b') {k : K} {a : TokenAccount K}
    (hk : b.lookup k = some a) : ∃ n, b'.lookup k = some ⟨a.mint, a.owner, n⟩ := by
  cases h with
  | @create k' owner mint hnot =>
    have hne : k ≠ k' := by
      rintro rfl
      exact hnot (Finmap.mem_of_lookup_eq_some hk)
    refine ⟨a.amount, ?_⟩
    rw [opened, Finmap.lookup_insert_of_ne _ hne, hk]
  | transfer ht => exact (ht.lookup_iff k a.mint a.owner).mpr ⟨a.amount, hk⟩

/-- An account comes from an account of the same mint and owner, or was opened. -/
theorem Step.lookup_inv (h : Step fresh auth b b') {k : K} {a : TokenAccount K}
    (hk : b'.lookup k = some a) :
    (∃ n, b.lookup k = some ⟨a.mint, a.owner, n⟩) ∨ fresh k a.owner a.mint := by
  cases h with
  | @create k' owner mint hnot hfresh =>
    by_cases hkk : k = k'
    · subst hkk
      rw [opened, Finmap.lookup_insert] at hk
      obtain rfl := Option.some_inj.mp hk
      exact .inr hfresh
    · rw [opened, Finmap.lookup_insert_of_ne _ hkk] at hk
      exact .inl ⟨a.amount, hk⟩
  | transfer ht => exact .inl ((ht.lookup_iff k a.mint a.owner).mp ⟨a.amount, hk⟩)

/-- Only accounts of authorities are debited. -/
theorem Step.balance_le (h : Step fresh auth b b') {k : K} {a : TokenAccount K}
    (hk : b.lookup k = some a) (ho : ¬ auth a.owner) : b.balance k ≤ b'.balance k := by
  cases h with
  | create hnot => exact (balance_opened hnot k).ge
  | @transfer s d authority n S D _ ht hauth =>
    exact ht.balance_le hk fun e => ho (e ▸ hauth)

namespace Evolves

theorem mem (h : Evolves fresh auth b b') {k : K} (hk : k ∈ b) : k ∈ b' := by
  induction h with
  | refl => exact hk
  | tail _ hs ih => exact hs.mem ih

theorem total_eq (h : Evolves fresh auth b b') (m : K) : b'.total m = b.total m := by
  induction h with
  | refl => rfl
  | tail _ hs ih => rw [hs.total_eq, ih]

theorem lookup (h : Evolves fresh auth b b') {k : K} {a : TokenAccount K}
    (hk : b.lookup k = some a) : ∃ n, b'.lookup k = some ⟨a.mint, a.owner, n⟩ := by
  induction h with
  | refl => exact ⟨a.amount, hk⟩
  | tail _ hs ih =>
    obtain ⟨n, hn⟩ := ih
    have := hs.lookup hn
    exact this

theorem lookup_inv (h : Evolves fresh auth b b') {k : K} {a : TokenAccount K}
    (hk : b'.lookup k = some a) :
    (∃ n, b.lookup k = some ⟨a.mint, a.owner, n⟩) ∨ fresh k a.owner a.mint := by
  induction h generalizing a with
  | refl => exact .inl ⟨a.amount, hk⟩
  | tail _ hs ih =>
    rcases hs.lookup_inv hk with ⟨n, hn⟩ | hf
    · have := ih hn
      exact this
    · exact .inr hf

theorem balance_le (h : Evolves fresh auth b b') {k : K} {a : TokenAccount K}
    (hk : b.lookup k = some a) (ho : ¬ auth a.owner) : b.balance k ≤ b'.balance k := by
  induction h with
  | refl => exact le_rfl
  | tail hb hs ih =>
    obtain ⟨n, hn⟩ := Evolves.lookup hb hk
    exact ih.trans (hs.balance_le hn ho)

theorem of_opened {k owner mint : K} (hk : k ∉ b) (hf : fresh k owner mint) :
    Evolves fresh auth b (b.opened k owner mint) := .single (.create hk hf)

theorem of_paid {ps : List (Payment K)} (h : Paid b ps b')
    (hauth : ∀ p ∈ ps, auth p.authority) : Evolves fresh auth b b' := by
  induction ps generalizing b with
  | nil =>
    rw [paid_nil.mp h]
  | cons p ps ih =>
    obtain ⟨b₁, ⟨S, D, ht⟩, hps⟩ := h
    refine .head (.transfer ht (hauth p List.mem_cons_self)) ?_
    exact ih hps fun q hq => hauth q (List.mem_cons_of_mem _ hq)

end Evolves

end Evolution

/-! ## Two banks side by side -/

/-- Banks with the same accounts, and with the same balances but for the accounts in `U`. -/
structure Alike (U : K → Prop) (b b' : Bank K) : Prop where
  account : ∀ k mint owner, (∃ n, b.lookup k = some ⟨mint, owner, n⟩) ↔
    ∃ n, b'.lookup k = some ⟨mint, owner, n⟩
  balance : ∀ k, ¬ U k → b.balance k = b'.balance k

namespace Alike

variable {U : K → Prop} {b b' : Bank K}

theorem refl : Alike U b b := ⟨fun _ _ _ => Iff.rfl, fun _ _ => rfl⟩

theorem symm (h : Alike U b b') : Alike U b' b :=
  ⟨fun k m o => (h.account k m o).symm, fun k hk => (h.balance k hk).symm⟩

theorem trans {b'' : Bank K} (h : Alike U b b') (h' : Alike U b' b'') : Alike U b b'' :=
  ⟨fun k m o => (h.account k m o).trans (h'.account k m o),
    fun k hk => (h.balance k hk).trans (h'.balance k hk)⟩

theorem mem_of_mem (h : Alike U b b') {k : K} (hk : k ∈ b) : k ∈ b' := by
  obtain ⟨a, ha⟩ := Finmap.mem_iff.mp hk
  obtain ⟨n, hn⟩ := (h.account k a.mint a.owner).mp ⟨a.amount, ha⟩
  exact Finmap.mem_of_lookup_eq_some hn

theorem mem_iff (h : Alike U b b') (k : K) : k ∈ b ↔ k ∈ b' := ⟨h.mem_of_mem, h.symm.mem_of_mem⟩

/-- Outside `U` the accounts are equal. -/
theorem lookup_eq (h : Alike U b b') {k : K} (hk : ¬ U k) {a : TokenAccount K}
    (ha : b.lookup k = some a) : b'.lookup k = some a := by
  obtain ⟨n, hn⟩ := (h.account k a.mint a.owner).mp ⟨a.amount, ha⟩
  have hbal := h.balance k hk
  rw [balance_of_lookup ha, balance_of_lookup hn] at hbal
  have hn' : a.amount = n := BitVec.eq_of_toNat_eq hbal
  rw [hn, ← hn']

/-- Banks that are alike in all accounts are equal. -/
theorem eq (h : Alike (fun _ => False) b b') : b = b' := by
  refine Finmap.ext_lookup fun x => ?_
  cases hx : b.lookup x with
  | some a => exact (h.lookup_eq not_false hx).symm
  | none =>
    have hnot : x ∉ b' := by
      rw [← h.mem_iff]
      exact Finmap.lookup_eq_none.mp hx
    exact (Finmap.lookup_eq_none.mpr hnot).symm

/-- Opening an account on both sides. -/
theorem opened (h : Alike U b b') {k owner mint : K} (hk : k ∉ b) :
    Alike U (b.opened k owner mint) (b'.opened k owner mint) where
  account x m o := by
    by_cases hx : x = k
    · rw [hx, Bank.opened, Bank.opened, Finmap.lookup_insert, Finmap.lookup_insert]
    · rw [Bank.opened, Bank.opened, Finmap.lookup_insert_of_ne _ hx,
        Finmap.lookup_insert_of_ne _ hx]
      exact h.account x m o
  balance x hx := by
    rw [balance_opened hk, balance_opened fun hk' => hk ((h.mem_iff k).mpr hk')]
    exact h.balance x hx

/-- Only balances in `U` are changed by a transfer between accounts in `U`. -/
theorem of_transferred {s d authority : K} {n : U64} {S D : TokenAccount K}
    (ht : Transferred b s d authority n S D b') (hs : U s) (hd : U d) : Alike U b b' where
  account k m o := (ht.lookup_iff k m o).symm
  balance k hk := by
    have := ht.balance_eq k
    have hks : k ≠ s := by
      rintro rfl
      exact hk hs
    have hkd : k ≠ d := by
      rintro rfl
      exact hk hd
    rw [if_neg hks, if_neg hkd] at this
    exact this.symm

/-- A transfer goes through on the other side, where an account of `U` must be able to
afford it. -/
theorem transferred (h : Alike U b b') {p : Payment K} {S D : TokenAccount K} {t : Bank K}
    (ht : b.Transferred p.source p.destination p.authority p.amount S D t)
    (hfit : ∀ m, b'.total m < 2 ^ 64) (hfund : U p.source → p.amount.toNat ≤ b'.balance p.source) :
    ∃ S' D' t', b'.Transferred p.source p.destination p.authority p.amount S' D' t' ∧
      Alike U t t' := by
  obtain ⟨n, hS⟩ := (h.account p.source S.mint S.owner).mp ⟨S.amount, ht.source⟩
  obtain ⟨n', hD⟩ := (h.account p.destination D.mint D.owner).mp ⟨D.amount, ht.destination⟩
  have hn : p.amount.toNat ≤ b'.balance p.source := by
    by_cases hU : U p.source
    · exact hfund hU
    · rw [← h.balance _ hU, balance_of_lookup ht.source]
      exact ht.funded
  obtain ⟨t', ht'⟩ := exists_transferred hS hD ht.same_mint hn (hfit _)
  dsimp only at ht'
  rw [ht.owned] at ht'
  refine ⟨_, _, t', ht', fun k m o => ?_, fun k hk => ?_⟩
  · rw [ht.lookup_iff, ht'.lookup_iff]
    exact h.account k m o
  · have h1 := ht.balance_eq k
    have h2 := ht'.balance_eq k
    have h3 := h.balance k hk
    omega

/-- **Payments go through on the other side**, where the accounts of `U` must be able to
afford all that is taken out of them. -/
theorem paid (h : Alike U b b') {ps : List (Payment K)} {t : Bank K} (hpaid : b.Paid ps t)
    (hfit : ∀ m, b'.total m < 2 ^ 64) (hfund : ∀ x, U x → outgoing x ps ≤ b'.balance x) :
    ∃ t', b'.Paid ps t' ∧ Alike U t t' := by
  induction ps generalizing b b' with
  | nil =>
    rw [paid_nil.mp hpaid]
    exact ⟨b', rfl, h⟩
  | cons p ps ih =>
    obtain ⟨b₁, ⟨S, D, ht⟩, hps⟩ := hpaid
    have hhead : U p.source → p.amount.toNat ≤ b'.balance p.source := fun hU => by
      have := hfund p.source hU
      rw [outgoing, List.map_cons, List.sum_cons, if_pos rfl] at this
      exact le_of_add_le_left this
    obtain ⟨S', D', b₁', ht', h₁⟩ := h.transferred ht hfit hhead
    obtain ⟨t', ht'', halike⟩ := ih h₁ hps (fun m => by rw [ht'.total_eq]; exact hfit m)
      fun x hx => by
        have h1 := ht'.balance_eq x
        have h2 := hfund x hx
        rw [outgoing, List.map_cons, List.sum_cons] at h2
        rw [outgoing]
        omega
    exact ⟨t', ⟨b₁', ⟨S', D', ht'⟩, ht''⟩, halike⟩

end Alike

end Bank
