/-
The account checks that the handlers share, and the calls into the token programs.

What a `#[derive(Accounts)]` struct promises is checked by a function here: a loaded
account exists, an associated token account belongs to its authority, `init` opens an
account that must not exist, and `init_if_needed` opens it or checks the one that does.
A context keeps the addresses the client chooses; the addresses its constraints
determine are functions of these.
-/
import AliPumpFun.State

set_option autoImplicit false

open Words Fallible

namespace AliPumpFun

/-- An account of the program or a mint that must exist. -/
def load {α : Type} (account : Option α) : Result α :=
  getOrError account (.account .AccountNotInitialized)

/-- `token::transfer`. -/
def transfer (spl : TokenProgram Pubkey) (tokens : Bank Pubkey)
    (source destination authority : Pubkey) (amount : U64) : Result (Bank Pubkey) :=
  (spl.transfer tokens source destination authority amount).mapError (.token source)

/-- `init` with `associated_token::mint` and `associated_token::authority`. -/
def init_ata (spl : TokenProgram Pubkey) (tokens : Bank Pubkey) (authority mint : Pubkey) :
    Result (Bank Pubkey) :=
  (spl.create tokens (.ata authority mint) authority mint).mapError
    (.token (.ata authority mint))

/-- `init_if_needed` with `associated_token::mint` and `associated_token::authority`. -/
def init_ata_if_needed (spl : TokenProgram Pubkey) (tokens : Bank Pubkey)
    (authority mint : Pubkey) : Result (Bank Pubkey) :=
  match tokens.lookup (.ata authority mint) with
  | none => init_ata spl tokens authority mint
  | some account => do
    constraint (account.mint = mint) .ConstraintTokenMint
    constraint (account.owner = authority) .ConstraintTokenOwner
    return tokens

/-- An existing associated token account, `associated_token::authority` checked. -/
def associated_token (tokens : Bank Pubkey) (authority mint : Pubkey) :
    Result (TokenAccount Pubkey) := do
  let account ← load (tokens.lookup (.ata authority mint))
  constraint (account.owner = authority) .ConstraintTokenOwner
  return account

theorem mapError_eq_ok {ε ε' α : Type} {f : ε → ε'} {x : Except ε α} {a : α} :
    x.mapError f = .ok a ↔ x = .ok a := by
  cases x <;> simp [Except.mapError]

section Calls

variable {spl : TokenProgram Pubkey} {tokens tokens' : Bank Pubkey}

@[simp] theorem load_eq_ok {α : Type} {o : Option α} {a : α} : load o = .ok a ↔ o = some a :=
  getOrError_eq_ok

theorem transfer_eq_ok {s d authority : Pubkey} {n : U64} :
    transfer spl tokens s d authority n = .ok tokens' ↔
      ∃ S D, tokens.Transferred s d authority n S D tokens' := by
  rw [transfer, mapError_eq_ok, spl.transfer_eq_ok]

theorem init_ata_eq_ok {o m : Pubkey} :
    init_ata spl tokens o m = .ok tokens' ↔
      .ata o m ∉ tokens ∧ tokens' = tokens.opened (.ata o m) o m := by
  rw [init_ata, mapError_eq_ok, spl.create_eq_ok]

theorem init_ata_if_needed_eq_ok {o m : Pubkey} :
    init_ata_if_needed spl tokens o m = .ok tokens' ↔
      (.ata o m ∉ tokens ∧ tokens' = tokens.opened (.ata o m) o m) ∨
      (∃ n, tokens.lookup (.ata o m) = some ⟨m, o, n⟩) ∧ tokens' = tokens := by
  unfold init_ata_if_needed
  split
  · rename_i h
    have hnot : Pubkey.ata o m ∉ tokens := Finmap.lookup_eq_none.mp h
    rw [init_ata_eq_ok]
    simp [h, hnot]
  · rename_i a h
    have hmem : Pubkey.ata o m ∈ tokens := Finmap.mem_of_lookup_eq_some h
    simp only [bind_eq_ok, constraint_eq_ok, pure_eq_ok, hmem, not_true_eq_false, false_and,
      false_or, h, Option.some.injEq, exists_const]
    constructor
    · rintro ⟨hm, ho, rfl⟩
      exact ⟨⟨a.amount, by rw [← hm, ← ho]⟩, rfl⟩
    · rintro ⟨⟨n, rfl⟩, rfl⟩
      exact ⟨rfl, rfl, rfl⟩

theorem associated_token_eq_ok {o m : Pubkey} {a : TokenAccount Pubkey} :
    associated_token tokens o m = .ok a ↔
      tokens.lookup (.ata o m) = some a ∧ a.owner = o := by
  simp only [associated_token, bind_eq_ok, load_eq_ok, constraint_eq_ok, pure_eq_ok, exists_const]
  constructor
  · rintro ⟨a', ha, ho, rfl⟩
    exact ⟨ha, ho⟩
  · rintro ⟨ha, ho⟩
    exact ⟨a, ha, ho, rfl⟩

end Calls

/-! ## Opening accounts

Where the associated accounts are those of their owners, `init_if_needed` cannot fail,
and what it does is a function of the bank. -/

/-- An associated token account is the account of its owner for its mint. No action of
`Chain` changes this; `SetAuthority`, which is not among them, would. -/
def AtaWf (tokens : Bank Pubkey) : Prop :=
  ∀ o m a, tokens.lookup (.ata o m) = some a → a.owner = o ∧ a.mint = m

theorem AtaWf.exists_lookup {tokens : Bank Pubkey} (h : AtaWf tokens) {o m : Pubkey}
    (hk : .ata o m ∈ tokens) : ∃ n, tokens.lookup (.ata o m) = some ⟨m, o, n⟩ := by
  obtain ⟨⟨am, ao, n⟩, ha⟩ := Finmap.mem_iff.mp hk
  obtain ⟨rfl, rfl⟩ := h o m _ ha
  exact ⟨n, ha⟩

/-- The bank with the associated account of `o` for `m`, opened where it is missing. -/
def ensure (tokens : Bank Pubkey) (o m : Pubkey) : Bank Pubkey :=
  if .ata o m ∈ tokens then tokens else tokens.opened (.ata o m) o m

/-- The bank with the associated accounts of these owners and mints. -/
def ensured (tokens : Bank Pubkey) (os : List (Pubkey × Pubkey)) : Bank Pubkey :=
  os.foldl (fun tokens om => ensure tokens om.1 om.2) tokens

section Opening

variable {spl : TokenProgram Pubkey} {t t' : Bank Pubkey} {o m k : Pubkey}
  {os : List (Pubkey × Pubkey)}

@[simp] theorem ensured_nil : ensured t [] = t := rfl

@[simp] theorem ensured_cons {om : Pubkey × Pubkey} :
    ensured t (om :: os) = ensured (ensure t om.1 om.2) os := rfl

theorem mem_ensure : k ∈ ensure t o m ↔ k ∈ t ∨ k = .ata o m := by
  unfold ensure
  split
  · rename_i h
    refine ⟨.inl, ?_⟩
    rintro (hk | rfl)
    · exact hk
    · exact h
  · rw [Bank.opened, Finmap.mem_insert, or_comm]

theorem balance_ensure : (ensure t o m).balance k = t.balance k := by
  unfold ensure
  split
  · rfl
  · rename_i h
    exact Bank.balance_opened h k

theorem holdings_ensure (P : Pubkey → Pubkey → Pubkey → Bool) :
    (ensure t o m).holdings P = t.holdings P := by
  unfold ensure
  split
  · rfl
  · rename_i h
    exact Bank.holdings_opened h P

theorem AtaWf.ensure (h : AtaWf t) : AtaWf (ensure t o m) := by
  intro o' m' a ha
  unfold AliPumpFun.ensure at ha
  split at ha
  · exact h o' m' a ha
  · by_cases hk : Pubkey.ata o' m' = .ata o m
    · rw [hk, Bank.opened, Finmap.lookup_insert] at ha
      obtain ⟨rfl, rfl⟩ := Pubkey.ata.inj hk
      obtain rfl := Option.some_inj.mp ha
      exact ⟨rfl, rfl⟩
    · rw [Bank.opened, Finmap.lookup_insert_of_ne _ hk] at ha
      exact h o' m' a ha

theorem mem_ensured : k ∈ ensured t os ↔ k ∈ t ∨ ∃ om ∈ os, k = .ata om.1 om.2 := by
  induction os generalizing t with
  | nil => simp
  | cons om os ih =>
    rw [ensured_cons, ih, mem_ensure, List.exists_mem_cons_iff, or_assoc]

theorem ata_mem_ensured (h : (o, m) ∈ os) : .ata o m ∈ ensured t os :=
  mem_ensured.mpr (.inr ⟨(o, m), h, rfl⟩)

@[simp] theorem balance_ensured : (ensured t os).balance k = t.balance k := by
  induction os generalizing t with
  | nil => rfl
  | cons om os ih => rw [ensured_cons, ih, balance_ensure]

@[simp] theorem holdings_ensured (P : Pubkey → Pubkey → Pubkey → Bool) :
    (ensured t os).holdings P = t.holdings P := by
  induction os generalizing t with
  | nil => rfl
  | cons om os ih => rw [ensured_cons, ih, holdings_ensure]

theorem AtaWf.ensured (h : AtaWf t) : AtaWf (ensured t os) := by
  induction os generalizing t with
  | nil => exact h
  | cons om os ih => exact ih h.ensure

/-- `init` is `init_if_needed` on an account that does not exist. -/
theorem init_ata_eq_ensure :
    init_ata spl t o m = .ok t' ↔ .ata o m ∉ t ∧ ensure t o m = t' := by
  rw [init_ata_eq_ok]
  refine and_congr_right fun h => ?_
  rw [AliPumpFun.ensure, if_neg h, eq_comm]

theorem init_ata_if_needed_eq_ensure (hwf : AtaWf t) :
    init_ata_if_needed spl t o m = .ok t' ↔ ensure t o m = t' := by
  rw [init_ata_if_needed_eq_ok, AliPumpFun.ensure]
  by_cases hk : Pubkey.ata o m ∈ t
  · obtain ⟨a, ha⟩ := Finmap.mem_iff.mp hk
    obtain ⟨rfl, rfl⟩ := hwf o m a ha
    rw [if_pos hk]
    refine ⟨?_, fun h => .inr ⟨⟨a.amount, ha⟩, h.symm⟩⟩
    rintro (⟨hnot, -⟩ | ⟨-, rfl⟩)
    · exact absurd hk hnot
    · rfl
  · rw [if_neg hk]
    refine ⟨?_, fun h => .inl ⟨hk, h.symm⟩⟩
    rintro (⟨-, rfl⟩ | ⟨⟨n, hn⟩, -⟩)
    · rfl
    · exact absurd (Finmap.mem_of_lookup_eq_some hn) hk

/-- An associated account passes its check when it exists. -/
theorem exists_associated_token (hwf : AtaWf t) :
    (∃ a, associated_token t o m = .ok a) ↔ .ata o m ∈ t := by
  simp only [associated_token_eq_ok, Finmap.mem_iff]
  exact ⟨fun ⟨a, ha, _⟩ => ⟨a, ha⟩, fun ⟨a, ha⟩ => ⟨a, ha, (hwf o m a ha).1⟩⟩

end Opening

end AliPumpFun
