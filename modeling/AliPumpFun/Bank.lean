/-
Token banks: a finite map from addresses to token accounts, and a token program that
moves amounts between them.

The token program is not defined here. It is a structure of two operations together
with their documented behaviour, so that everything below holds of any program that
behaves as documented; `TokenProgram.reference` is one such program.

An account here has a mint, an owner and an amount. What else a token program knows is left
out: handing an account to another owner (`SetAuthority`), delegates and their approvals,
frozen accounts, minting and burning, closing accounts, and the lamports that pay for them.

What the rest of the file establishes is what a bank owner relies on. A transfer
neither opens nor closes an account, keeps every account's mint and owner, and moves
the amount from the source to the destination and nowhere else (`balance_eq`). This
last equation has no side condition for a transfer from an account to itself. Sums
over accounts (`holdings`) change by what crosses the border of the set summed over;
for the set of all accounts of a mint nothing does.
-/
import AliPumpFun.Words
import Mathlib.Data.Finmap
import Mathlib.Algebra.Order.BigOperators.Group.Multiset
import Mathlib.Algebra.Order.Ring.Nat

set_option autoImplicit false

open Words

/-- A token account: so much of `mint`, at the disposal of `owner`. -/
structure TokenAccount (K : Type*) where
  mint : K
  owner : K
  amount : U64
deriving DecidableEq

/-- The token accounts by address. -/
abbrev Bank (K : Type*) := Finmap fun _ : K => TokenAccount K

namespace Bank

variable {K : Type*} [DecidableEq K]

/-- The amount at an address, `0` where there is no account. -/
def balance (b : Bank K) (k : K) : ℕ :=
  match b.lookup k with
  | some a => a.amount.toNat
  | none => 0

/-- What the account `a` at `k` counts for in a sum over the accounts selected by `P`.
The selection sees the address, the mint and the owner, never the amount. -/
def weight (P : K → K → K → Bool) (k : K) (a : TokenAccount K) : ℕ :=
  if P k a.mint a.owner then a.amount.toNat else 0

/-- The total amount in the accounts selected by `P`. -/
def holdings (b : Bank K) (P : K → K → K → Bool) : ℕ :=
  (b.entries.map fun e => weight P e.1 e.2).sum

/-- The accounts of one mint. -/
def ofMint (m : K) : K → K → K → Bool := fun _ mint _ => mint = m

/-- The total amount of a mint in circulation. -/
def total (b : Bank K) (m : K) : ℕ := b.holdings (ofMint m)

theorem balance_of_lookup {b : Bank K} {k : K} {a : TokenAccount K}
    (h : b.lookup k = some a) : b.balance k = a.amount.toNat := by
  simp [balance, h]

theorem balance_of_notMem {b : Bank K} {k : K} (h : k ∉ b) : b.balance k = 0 := by
  simp [balance, Finmap.lookup_eq_none.mpr h]

theorem balance_lt (b : Bank K) (k : K) : b.balance k < 2 ^ 64 := by
  unfold balance
  split
  · exact BitVec.isLt _
  · decide

/-! ## Sums over accounts -/

omit [DecidableEq K] in
/-- Two sums over disjoint parts of a third selection stay below its sum. -/
theorem holdings_add_le {b : Bank K} {P Q R : K → K → K → Bool}
    (hP : ∀ k m o, P k m o → R k m o) (hQ : ∀ k m o, Q k m o → R k m o)
    (hPQ : ∀ k m o, P k m o → Q k m o → False) :
    b.holdings P + b.holdings Q ≤ b.holdings R := by
  unfold holdings
  rw [← Multiset.sum_map_add]
  refine Multiset.sum_map_le_sum_map _ _ fun e _ => ?_
  have h1 := hP e.1 e.2.mint e.2.owner
  have h2 := hQ e.1 e.2.mint e.2.owner
  have h3 := hPQ e.1 e.2.mint e.2.owner
  simp only [weight]
  split_ifs <;> grind

omit [DecidableEq K] in
theorem holdings_empty (P : K → K → K → Bool) : holdings (∅ : Bank K) P = 0 := rfl

theorem holdings_insert_of_notMem {b : Bank K} {k : K} {a : TokenAccount K} (h : k ∉ b)
    (P : K → K → K → Bool) :
    holdings (b.insert k a) P = holdings b P + weight P k a := by
  unfold holdings
  rw [Finmap.entries_insert_of_notMem h, Multiset.map_cons, Multiset.sum_cons, Nat.add_comm]

/-- A bank is what is left without one of its accounts, plus that account. -/
theorem eq_insert_erase {b : Bank K} {k : K} {a : TokenAccount K} (h : b.lookup k = some a) :
    b = (b.erase k).insert k a := by
  refine Finmap.ext_lookup fun x => ?_
  by_cases hx : x = k
  · subst hx
    rw [h, Finmap.lookup_insert]
  · rw [Finmap.lookup_insert_of_ne _ hx, Finmap.lookup_erase_ne hx]

/-- Replacing an account exchanges its weight in every sum. -/
theorem holdings_insert_of_lookup {b : Bank K} {k : K} {a : TokenAccount K}
    (h : b.lookup k = some a) (a' : TokenAccount K) (P : K → K → K → Bool) :
    holdings (b.insert k a') P + weight P k a = holdings b P + weight P k a' := by
  -- both banks are the same bank without `k`, plus one account
  have herase : k ∉ b.erase k := Finmap.notMem_erase_self
  have hb' : b.insert k a' = (b.erase k).insert k a' := by
    conv_lhs => rw [eq_insert_erase h]
    exact Finmap.insert_insert _
  rw [hb', holdings_insert_of_notMem herase]
  conv_rhs => rw [eq_insert_erase h, holdings_insert_of_notMem herase]
  omega

/-- The accounts at one address hold its balance. -/
theorem holdings_singleton (b : Bank K) (k : K) :
    b.holdings (fun k' _ _ => k' = k) = b.balance k := by
  by_cases h : k ∈ b
  · obtain ⟨a, ha⟩ := Finmap.mem_iff.mp h
    -- empty the account: what is left selects nothing
    have hw : weight (fun k' _ _ => decide (k' = k)) k a = a.amount.toNat := by simp [weight]
    have h0 := holdings_insert_of_lookup ha ⟨a.mint, a.owner, 0⟩
      (fun k' _ _ => decide (k' = k))
    have hz : holdings (b.insert k ⟨a.mint, a.owner, 0⟩) (fun k' _ _ => decide (k' = k)) = 0 := by
      refine Multiset.sum_eq_zero fun n hn => ?_
      obtain ⟨e, he, rfl⟩ := Multiset.mem_map.mp hn
      by_cases hek : e.1 = k
      · have hl : (b.insert k ⟨a.mint, a.owner, 0⟩).lookup e.1 = some e.2 :=
          Finmap.lookup_eq_some_iff.mpr he
        rw [hek, Finmap.lookup_insert] at hl
        have : e.2 = ⟨a.mint, a.owner, 0⟩ := by simpa using hl.symm
        simp [weight, this]
      · simp [weight, hek]
    rw [hz, hw] at h0
    rw [balance_of_lookup ha]
    simp [weight] at h0
    omega
  · rw [balance_of_notMem h]
    refine Multiset.sum_eq_zero fun n hn => ?_
    obtain ⟨e, he, rfl⟩ := Multiset.mem_map.mp hn
    have hek : e.1 ≠ k := by
      rintro rfl
      exact h (Finmap.mem_of_lookup_eq_some (Finmap.lookup_eq_some_iff.mpr he))
    simp [weight, hek]

/-- The same for the account at one address as an account of its mint. -/
theorem holdings_key_mint {b : Bank K} {k m : K} {a : TokenAccount K} (h : b.lookup k = some a)
    (ha : a.mint = m) : b.holdings (fun x mint _ => x = k ∧ mint = m) = b.balance k := by
  rw [← holdings_singleton]
  refine congrArg Multiset.sum (Multiset.map_congr rfl fun e he => ?_)
  have hl : b.lookup e.1 = some e.2 := Finmap.lookup_eq_some_iff.mpr he
  by_cases hex : e.1 = k
  · rw [hex, h] at hl
    have hec : e.2.mint = m := by
      rw [← Option.some_inj.mp hl]
      exact ha
    simp [weight, hec]
  · simp [weight, hex]

/-- Two accounts of one mint hold at most what circulates. -/
theorem balance_add_le_total {b : Bank K} {k k' m : K} {a a' : TokenAccount K} (hne : k ≠ k')
    (h : b.lookup k = some a) (h' : b.lookup k' = some a') (ha : a.mint = m) (ha' : a'.mint = m) :
    b.balance k + b.balance k' ≤ b.total m := by
  rw [← holdings_key_mint h ha, ← holdings_key_mint h' ha']
  refine holdings_add_le ?_ ?_ ?_
  · simp [ofMint]
  · simp [ofMint]
  · intro x mint _ hx hx'
    simp only [decide_eq_true_eq] at hx hx'
    exact hne (hx.1.symm.trans hx'.1)

/-- One account holds at most what circulates. -/
theorem balance_le_total {b : Bank K} {k : K} {a : TokenAccount K} (h : b.lookup k = some a) :
    b.balance k ≤ b.total a.mint := by
  rw [balance_of_lookup h, total, eq_insert_erase h,
    holdings_insert_of_notMem Finmap.notMem_erase_self]
  simp [weight, ofMint]

/-! ## Opening an account -/

/-- An empty account opened at a free address. -/
def opened (b : Bank K) (k owner mint : K) : Bank K := b.insert k ⟨mint, owner, 0⟩

theorem holdings_opened {b : Bank K} {k owner mint : K} (h : k ∉ b) (P : K → K → K → Bool) :
    (b.opened k owner mint).holdings P = b.holdings P := by
  rw [opened, holdings_insert_of_notMem h]
  simp [weight]

theorem balance_opened {b : Bank K} {k owner mint : K} (h : k ∉ b) (x : K) :
    (b.opened k owner mint).balance x = b.balance x := by
  by_cases hx : x = k
  · subst hx
    rw [balance_of_notMem h, opened, balance_of_lookup (Finmap.lookup_insert _)]
    rfl
  · simp only [balance, opened, Finmap.lookup_insert_of_ne _ hx]

/-! ## Transfers -/

/-- The bank after `n` moved from the account `S` at `s` to the account `D` at `d`. -/
def moved (b : Bank K) (s d : K) (S D : TokenAccount K) (n : U64) : Bank K :=
  if s = d then b
  else (b.insert s { S with amount := S.amount - n }).insert d { D with amount := D.amount + n }

/-- **The documented effect of a transfer** of `n` from `s` to `d` by `authority`: both
accounts exist and are of one mint, `authority` owns the source, the source has the
amount, and the destination has room for it. A bank has no frozen accounts and no delegates,
so neither is asked about. -/
structure Transferred (b : Bank K) (s d authority : K) (n : U64) (S D : TokenAccount K)
    (b' : Bank K) : Prop where
  source : b.lookup s = some S
  destination : b.lookup d = some D
  same_mint : S.mint = D.mint
  owned : S.owner = authority
  funded : n.toNat ≤ S.amount.toNat
  room : s ≠ d → D.amount.toNat + n.toNat < 2 ^ 64
  result : b' = b.moved s d S D n

namespace Transferred

variable {b b' : Bank K} {s d authority : K} {n : U64} {S D : TokenAccount K}

/-- A transfer changes amounts only. -/
theorem lookup_iff (h : Transferred b s d authority n S D b') (x mint owner : K) :
    (∃ amount, b'.lookup x = some ⟨mint, owner, amount⟩) ↔
      ∃ amount, b.lookup x = some ⟨mint, owner, amount⟩ := by
  rw [h.result, moved]
  split
  · rfl
  · rename_i hsd
    by_cases hd : x = d
    · subst hd
      rw [Finmap.lookup_insert, h.destination]
      cases D
      simp
    · rw [Finmap.lookup_insert_of_ne _ hd]
      by_cases hs : x = s
      · subst hs
        rw [Finmap.lookup_insert, h.source]
        cases S
        simp
      · rw [Finmap.lookup_insert_of_ne _ hs]

/-- A transfer neither opens nor closes an account. -/
theorem mem_iff (h : Transferred b s d authority n S D b') (x : K) : x ∈ b' ↔ x ∈ b := by
  simp only [Finmap.mem_iff]
  constructor
  · rintro ⟨a, ha⟩
    obtain ⟨amount, hx⟩ := (h.lookup_iff x a.mint a.owner).mp ⟨a.amount, ha⟩
    exact ⟨_, hx⟩
  · rintro ⟨a, ha⟩
    obtain ⟨amount, hx⟩ := (h.lookup_iff x a.mint a.owner).mpr ⟨a.amount, ha⟩
    exact ⟨_, hx⟩

/-- **What a transfer does to a balance.** The equation also covers a transfer of an
account to itself, which adds the amount on both sides. -/
theorem balance_eq (h : Transferred b s d authority n S D b') (x : K) :
    b'.balance x + (if x = s then n.toNat else 0) =
      b.balance x + (if x = d then n.toNat else 0) := by
  rw [h.result, moved]
  -- to itself: both sides add the amount
  split
  · rename_i hsd
    rw [hsd]
  · rename_i hsd
    by_cases hd : x = d
    · subst hd
      rw [balance_of_lookup (Finmap.lookup_insert _), balance_of_lookup h.destination,
        if_neg (Ne.symm hsd), if_pos rfl, BitVec.toNat_add, Nat.mod_eq_of_lt (h.room hsd),
        Nat.add_zero]
    · rw [if_neg hd]
      by_cases hs : x = s
      · subst hs
        have hl : ((b.insert x { S with amount := S.amount - n }).insert d
            { D with amount := D.amount + n }).lookup x =
              some { S with amount := S.amount - n } := by
          rw [Finmap.lookup_insert_of_ne _ hd, Finmap.lookup_insert]
        have := h.funded
        rw [balance_of_lookup hl, balance_of_lookup h.source, if_pos rfl,
          BitVec.toNat_sub_of_le (BitVec.le_def.mpr h.funded)]
        omega
      · rw [if_neg hs]
        simp only [balance, Finmap.lookup_insert_of_ne _ hd, Finmap.lookup_insert_of_ne _ hs]

/-- What a transfer does to a sum over accounts. -/
theorem holdings_eq (h : Transferred b s d authority n S D b') (P : K → K → K → Bool) :
    b'.holdings P + (if P s S.mint S.owner then n.toNat else 0) =
      b.holdings P + (if P d D.mint D.owner then n.toNat else 0) := by
  rw [h.result, moved]
  split
  · rename_i hsd
    have hSD : S = D := by
      have := h.source
      rw [hsd, h.destination] at this
      exact (Option.some_inj.mp this).symm
    rw [hsd, hSD]
  · rename_i hsd
    -- two replacements, the second in the bank after the first
    have hd : (b.insert s { S with amount := S.amount - n }).lookup d = some D := by
      rw [Finmap.lookup_insert_of_ne _ (Ne.symm hsd), h.destination]
    have h1 := holdings_insert_of_lookup h.source { S with amount := S.amount - n } P
    have h2 := holdings_insert_of_lookup hd { D with amount := D.amount + n } P
    have hS : (S.amount - n).toNat = S.amount.toNat - n.toNat :=
      BitVec.toNat_sub_of_le (BitVec.le_def.mpr h.funded)
    have hD : (D.amount + n).toNat = D.amount.toNat + n.toNat := by
      rw [BitVec.toNat_add, Nat.mod_eq_of_lt (h.room hsd)]
    have hf := h.funded
    simp only [weight, hS, hD] at h1 h2
    split_ifs at h1 h2 ⊢ <;> omega

/-- Nothing enters or leaves circulation. -/
theorem total_eq (h : Transferred b s d authority n S D b') (m : K) : b'.total m = b.total m := by
  have := h.holdings_eq (ofMint m)
  rw [show ofMint m s S.mint S.owner = ofMint m d D.mint D.owner by simp [ofMint, h.same_mint]]
    at this
  exact Nat.add_right_cancel this

/-- Only the authority's own accounts are debited. -/
theorem balance_le (h : Transferred b s d authority n S D b') {x : K} {a : TokenAccount K}
    (hx : b.lookup x = some a) (ho : a.owner ≠ authority) : b.balance x ≤ b'.balance x := by
  have hne : x ≠ s := by
    rintro rfl
    rw [h.source] at hx
    exact ho (Option.some_inj.mp hx ▸ h.owned)
  have := h.balance_eq x
  rw [if_neg hne] at this
  omega

end Transferred

/-- A funded transfer between accounts of one mint succeeds: the destination has room,
because no more than `2 ^ 64 - 1` is in circulation. -/
theorem exists_transferred {b : Bank K} {s d : K} {n : U64} {S D : TokenAccount K}
    (hS : b.lookup s = some S) (hD : b.lookup d = some D) (hm : S.mint = D.mint)
    (hn : n.toNat ≤ b.balance s) (hb : b.total S.mint < 2 ^ 64) :
    ∃ b', b.Transferred s d S.owner n S D b' := by
  rw [balance_of_lookup hS] at hn
  have hroom : s ≠ d → D.amount.toNat + n.toNat < 2 ^ 64 := by
    intro hsd
    have := balance_add_le_total hsd hS hD rfl hm.symm
    rw [balance_of_lookup hS, balance_of_lookup hD] at this
    omega
  exact ⟨_, hS, hD, hm, rfl, hn, hroom, rfl⟩

end Bank

/-! ## Token programs -/

/-- Why a token program refuses. -/
inductive TokenError where
  | insufficientFunds
  | invalidAccount
  | mintMismatch
  | ownerMismatch
  | overflow
  | alreadyInUse
deriving DecidableEq

/-- A token program: transfers between accounts and the opening of accounts, behaving as
documented. Its other instructions are left out, see above. -/
structure TokenProgram (K : Type) [DecidableEq K] where
  /-- Move `n` from `s` to `d`, signed for by `authority`. -/
  transfer : Bank K → (s d authority : K) → (n : U64) → Except TokenError (Bank K)
  /-- Open an account at a free address. -/
  create : Bank K → (k owner mint : K) → Except TokenError (Bank K)
  transfer_eq_ok : ∀ {b s d authority n b'},
    transfer b s d authority n = .ok b' ↔ ∃ S D, b.Transferred s d authority n S D b'
  /-- A transfer refused for lack of funds is one the source could not pay. -/
  transfer_insufficient : ∀ {b s d authority n},
    transfer b s d authority n = .error .insufficientFunds → b.balance s < n.toNat
  create_eq_ok : ∀ {b k owner mint b'},
    create b k owner mint = .ok b' ↔ k ∉ b ∧ b' = b.opened k owner mint

namespace TokenProgram

variable {K : Type} [DecidableEq K]

/-- The transfer of a token program that checks exactly what is documented. -/
def referenceTransfer (b : Bank K) (s d authority : K) (n : U64) : Except TokenError (Bank K) :=
  match b.lookup s, b.lookup d with
  | some S, some D =>
    if S.amount.toNat < n.toNat then .error .insufficientFunds
    else if S.mint ≠ D.mint then .error .mintMismatch
    else if S.owner ≠ authority then .error .ownerMismatch
    -- a transfer to itself never adds up
    else if s ≠ d ∧ 2 ^ 64 ≤ D.amount.toNat + n.toNat then .error .overflow
    else .ok (b.moved s d S D n)
  | _, _ => .error .invalidAccount

/-- The opening of accounts of a token program that checks exactly what is documented. -/
def referenceCreate (b : Bank K) (k owner mint : K) : Except TokenError (Bank K) :=
  if k ∈ b then .error .alreadyInUse else .ok (b.opened k owner mint)

/-- A token program that behaves as documented. -/
def reference : TokenProgram K where
  transfer := referenceTransfer
  create := referenceCreate
  transfer_eq_ok := by
    intro b s d authority n b'
    unfold referenceTransfer
    constructor
    · intro h
      split at h
      · rename_i S D hS hD
        split_ifs at h with h1 h2 h3 h4
        exact ⟨S, D, hS, hD, not_not.mp h2, not_not.mp h3, by omega,
          fun hsd => by grind, (Except.ok.inj h).symm⟩
      · cases h
    · rintro ⟨S, D, hS, hD, hm, ho, hf, hr, rfl⟩
      rw [hS, hD]
      simp only
      rw [if_neg (by omega), if_neg (by simp [hm]), if_neg (by simp [ho]), if_neg (by grind)]
  transfer_insufficient := by
    intro b s d authority n h
    unfold referenceTransfer at h
    split at h
    · rename_i S D hS hD
      by_cases h1 : S.amount.toNat < n.toNat
      · rw [Bank.balance_of_lookup hS]
        exact h1
      · rw [if_neg h1] at h
        split_ifs at h <;> cases h
    · cases h
  create_eq_ok := by
    intro b k owner mint b'
    unfold referenceCreate
    split
    · rename_i h
      simp [h]
    · rename_i h
      simp [h, eq_comm]

end TokenProgram
