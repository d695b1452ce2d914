/-
Independent actions, and the orders in which they can be done.

`Exchange` says what it takes for a relation `D` on actions to be an independence relation of
a step function: two neighbours that `D` relates can be done the other way round, and two
actions that it relates and that can each be done can be done one after the other. Results
are compared up to a relation `R` that the steps respect, so that a log may record the order,
and by counters of the state, to which independent actions add up.

From this follow the two facts about whole runs: a run can be reordered by swapping
independent neighbours (`run_reorders`), and two lists of pairwise independent actions can be
interleaved in any way exactly when each of them can be done alone (`interleaving_iff`).
-/
import AliPumpFun.Runs
import Mathlib.Logic.Relation

set_option autoImplicit false

open Fallible

namespace Runs

variable {σ α ε ι : Type*} {step : σ → α → Except ε σ}

/-! ## Orders -/

/-- `cs` is made of `as` and `bs`, each in its own order. -/
inductive Interleaves : List α → List α → List α → Prop
  | nil : Interleaves [] [] []
  | left {a : α} {as bs cs : List α} : Interleaves as bs cs → Interleaves (a :: as) bs (a :: cs)
  | right {b : α} {as bs cs : List α} : Interleaves as bs cs → Interleaves as (b :: bs) (b :: cs)

/-- Two neighbours that `D` relates change places. -/
inductive Swap (D : α → α → Prop) : List α → List α → Prop
  | swap (as bs : List α) {a b : α} : D a b → Swap D (as ++ a :: b :: bs) (as ++ b :: a :: bs)

/-- Any number of such swaps. -/
abbrev Reorders (D : α → α → Prop) : List α → List α → Prop := Relation.ReflTransGen (Swap D)

section Orders

variable {D : α → α → Prop} {a b : α} {as bs cs : List α}

theorem Swap.cons (c : α) (h : Swap D as bs) : Swap D (c :: as) (c :: bs) := by
  cases h with
  | swap xs ys hab => exact .swap (c :: xs) ys hab

theorem Reorders.cons (c : α) (h : Reorders D as bs) : Reorders D (c :: as) (c :: bs) := by
  induction h with
  | refl => exact .refl
  | tail _ hs ih => exact ih.tail (hs.cons c)

/-- An action independent of a list can be done after it as well as before. -/
theorem reorders_cons_append (h : ∀ a ∈ as, D b a) :
    Reorders D (b :: as ++ bs) (as ++ b :: bs) := by
  induction as with
  | nil => exact .refl
  | cons a as ih =>
    have hswap : Swap D (b :: a :: (as ++ bs)) (a :: b :: (as ++ bs)) :=
      .swap [] _ (h a List.mem_cons_self)
    exact .head hswap ((ih fun c hc => h c (List.mem_cons_of_mem _ hc)).cons a)

theorem reorders_append_cons (h : ∀ a ∈ as, D a b) :
    Reorders D (as ++ b :: bs) (b :: as ++ bs) := by
  induction as with
  | nil => exact .refl
  | cons a as ih =>
    have hswap : Swap D (a :: b :: (as ++ bs)) (b :: a :: (as ++ bs)) :=
      .swap [] _ (h a List.mem_cons_self)
    exact ((ih fun c hc => h c (List.mem_cons_of_mem _ hc)).cons a).tail hswap

/-- Every interleaving can be sorted out, -/
theorem Interleaves.reorders (h : Interleaves as bs cs) (hD : ∀ a ∈ as, ∀ b ∈ bs, D b a) :
    Reorders D cs (as ++ bs) := by
  induction h with
  | nil => exact .refl
  | left _ ih => exact (ih fun a ha => hD a (List.mem_cons_of_mem _ ha)).cons _
  | @right b as bs cs _ ih =>
    have hcs := ih fun a ha b hb => hD a ha b (List.mem_cons_of_mem _ hb)
    exact (hcs.cons b).trans (reorders_cons_append fun a ha => hD a ha b List.mem_cons_self)

/-- and reached from there. -/
theorem Interleaves.reorders_of_append (h : Interleaves as bs cs)
    (hD : ∀ a ∈ as, ∀ b ∈ bs, D a b) : Reorders D (as ++ bs) cs := by
  induction h with
  | nil => exact .refl
  | left _ ih => exact (ih fun a ha => hD a (List.mem_cons_of_mem _ ha)).cons _
  | @right b as bs cs _ ih =>
    have hcs := ih fun a ha b hb => hD a ha b (List.mem_cons_of_mem _ hb)
    exact (reorders_append_cons fun a ha => hD a ha b List.mem_cons_self).trans (hcs.cons b)

/-- One list after the other is an interleaving. -/
theorem Interleaves.append (as bs : List α) : Interleaves as bs (as ++ bs) := by
  induction as with
  | nil =>
    induction bs with
    | nil => exact .nil
    | cons b bs ih => exact .right ih
  | cons a as ih => exact .left ih

/-- An interleaving of the one list with the other is one of the other with the one. -/
theorem Interleaves.symm (h : Interleaves as bs cs) : Interleaves bs as cs := by
  induction h with
  | nil => exact .nil
  | left _ ih => exact .right ih
  | right _ ih => exact .left ih

end Orders

/-! ## Runs -/

/-- `D` is an independence relation of `step` on the states in `I`. -/
structure Exchange (step : σ → α → Except ε σ) (I : σ → Prop) (R : σ → σ → Prop)
    (D : α → α → Prop) (counter : σ → ι → ℕ) : Prop where
  kept : ∀ {s a t}, I s → step s a = .ok t → I t
  refl : ∀ s, R s s
  symm : ∀ {s t}, R s t → R t s
  trans : ∀ {s t u}, R s t → R t u → R s u
  counted : ∀ {s t}, R s t → counter s = counter t
  independent_symm : ∀ {a b}, D a b → D b a
  congr : ∀ {s s' a t}, I s → I s' → R s s' → step s a = .ok t → ∃ t', step s' a = .ok t' ∧ R t t'
  swap : ∀ {s a b m t}, I s → D a b → step s a = .ok m → step m b = .ok t →
    ∃ m' t', step s b = .ok m' ∧ step m' a = .ok t' ∧ R t t'
  both : ∀ {s a b m n}, I s → D a b → step s a = .ok m → step s b = .ok n →
    ∃ t, step m b = .ok t ∧ ∀ x, counter t x + counter s x = counter m x + counter n x

namespace Exchange

variable {I : σ → Prop} {R : σ → σ → Prop} {D : α → α → Prop} {counter : σ → ι → ℕ}
  {s s' m n t : σ} {b : α} {as bs cs : List α}

theorem run_kept (h : Exchange step I R D counter) (hs : I s) (hr : run step s as = .ok t) : I t :=
  run_preserves (P := I) h.kept hs hr

/-- Related states have related runs. -/
theorem run_congr (h : Exchange step I R D counter) (hs : I s) (hs' : I s') (hR : R s s')
    (hr : run step s as = .ok t) : ∃ t', run step s' as = .ok t' ∧ R t t' := by
  induction as generalizing s s' with
  | nil =>
    rw [run_nil] at hr
    rw [← hr]
    exact ⟨s', run_nil.mpr rfl, hR⟩
  | cons a as ih =>
    obtain ⟨s₁, h₁, hrest⟩ := run_cons.mp hr
    obtain ⟨s₁', h₁', hR₁⟩ := h.congr hs hs' hR h₁
    obtain ⟨t', ht', hRt⟩ := ih (h.kept hs h₁) (h.kept hs' h₁') hR₁ hrest
    exact ⟨t', run_cons.mpr ⟨s₁', h₁', ht'⟩, hRt⟩

/-- **Reordering.** Swapping independent neighbours of a run gives a run with a related
result. -/
theorem run_reorders (h : Exchange step I R D counter) (hs : I s) (hre : Reorders D as bs)
    (hr : run step s as = .ok t) : ∃ t', run step s bs = .ok t' ∧ R t t' := by
  induction hre with
  | refl => exact ⟨t, hr, h.refl t⟩
  | tail _ hswap ih =>
    obtain ⟨t₁, h₁, hR₁⟩ := ih
    cases hswap with
    | @swap xs ys a b hab =>
      -- up to the two neighbours the runs are the same, and after them related
      obtain ⟨m, hm, hrest⟩ := run_append.mp h₁
      obtain ⟨m₁, ha, hrest⟩ := run_cons.mp hrest
      obtain ⟨m₂, hb, hrest⟩ := run_cons.mp hrest
      have hIm := h.run_kept hs hm
      obtain ⟨n₁, n₂, hb', ha', hR⟩ := h.swap hIm hab ha hb
      obtain ⟨t', ht', hR'⟩ := h.run_congr (h.kept (h.kept hIm ha) hb)
        (h.kept (h.kept hIm hb') ha') hR hrest
      refine ⟨t', run_append.mpr ⟨m, hm, ?_⟩, h.trans hR₁ hR'⟩
      exact run_cons.mpr ⟨n₁, hb', run_cons.mpr ⟨n₂, ha', ht'⟩⟩

/-- An action that can be done before a list of independent ones can be done after it. -/
theorem step_after (h : Exchange step I R D counter) (hs : I s) (hD : ∀ a ∈ as, D a b)
    (hm : run step s as = .ok m) (hn : step s b = .ok n) :
    ∃ t, step m b = .ok t ∧ ∀ x, counter t x + counter s x = counter m x + counter n x := by
  induction as generalizing s n with
  | nil =>
    rw [run_nil] at hm
    rw [← hm]
    exact ⟨n, hn, fun x => Nat.add_comm _ _⟩
  | cons a as ih =>
    obtain ⟨s₁, h₁, hrest⟩ := run_cons.mp hm
    obtain ⟨t₁, ht₁, hc₁⟩ := h.both hs (hD a List.mem_cons_self) h₁ hn
    obtain ⟨t, ht, hc⟩ := ih (h.kept hs h₁) (fun c hc => hD c (List.mem_cons_of_mem _ hc))
      hrest ht₁
    refine ⟨t, ht, fun x => ?_⟩
    have h1 := hc₁ x
    have h2 := hc x
    omega

/-- **Composition.** Two lists of independent actions that can each be done can be done one
after the other, and the counters add up. -/
theorem run_after (h : Exchange step I R D counter) (hs : I s)
    (hD : ∀ a ∈ as, ∀ b ∈ bs, D a b) (hm : run step s as = .ok m) (hn : run step s bs = .ok n) :
    ∃ t, run step m bs = .ok t ∧ ∀ x, counter t x + counter s x = counter m x + counter n x := by
  induction bs generalizing s m with
  | nil =>
    rw [run_nil] at hn
    rw [← hn]
    exact ⟨m, run_nil.mpr rfl, fun x => rfl⟩
  | cons b bs ih =>
    obtain ⟨s₁, hb, hrest⟩ := run_cons.mp hn
    have hDb : ∀ a ∈ as, D a b := fun a ha => hD a ha b List.mem_cons_self
    obtain ⟨t₁, ht₁, hc₁⟩ := h.step_after hs hDb hm hb
    -- the first list after `b`, which leads where `b` after the first list leads
    have hswapped : Reorders D (as ++ [b]) (b :: as) := by
      have hre : Reorders D (as ++ b :: []) (b :: as ++ []) := reorders_append_cons hDb
      rwa [List.append_nil] at hre
    obtain ⟨m₁, hm₁, hR⟩ := h.run_reorders hs hswapped (run_snoc.mpr ⟨m, hm, ht₁⟩)
    obtain ⟨s₁', hb', hm₁⟩ := run_cons.mp hm₁
    rw [hb, Except.ok.injEq] at hb'
    rw [← hb'] at hm₁
    have hI₁ := h.kept hs hb
    obtain ⟨u, hu, hc₂⟩ := ih hI₁
      (fun a ha c hc => hD a ha c (List.mem_cons_of_mem _ hc)) hm₁ hrest
    have hIt₁ : I t₁ := h.kept (h.run_kept hs hm) ht₁
    obtain ⟨t, ht, hRt⟩ := h.run_congr (h.run_kept hI₁ hm₁) hIt₁ (h.symm hR) hu
    refine ⟨t, run_cons.mpr ⟨t₁, ht₁, ht⟩, fun x => ?_⟩
    have h1 := hc₁ x
    have h2 := hc₂ x
    rw [h.counted hRt, ← h.counted hR] at h2
    omega

/-- An interleaving leads where one list after the other leads. -/
theorem run_interleaving (h : Exchange step I R D counter) (hs : I s)
    (hcs : Interleaves as bs cs) (hD : ∀ a ∈ as, ∀ b ∈ bs, D a b) (ht : run step s cs = .ok t) :
    ∃ m t', run step s as = .ok m ∧ run step m bs = .ok t' ∧ R t t' := by
  have hre := hcs.reorders fun a ha b hb => h.independent_symm (hD a ha b hb)
  obtain ⟨t', ht', hR⟩ := h.run_reorders hs hre ht
  obtain ⟨m, hm, hbs⟩ := run_append.mp ht'
  exact ⟨m, t', hm, hbs, hR⟩

/-- **Interleaving.** Two lists of independent actions can be interleaved in any way exactly
when each can be done alone. -/
theorem interleaving_iff (h : Exchange step I R D counter) (hs : I s)
    (hcs : Interleaves as bs cs) (hD : ∀ a ∈ as, ∀ b ∈ bs, D a b) :
    (∃ t, run step s cs = .ok t) ↔
      (∃ m, run step s as = .ok m) ∧ ∃ n, run step s bs = .ok n := by
  constructor
  · rintro ⟨t, ht⟩
    obtain ⟨m, -, hm, -⟩ := h.run_interleaving hs hcs hD ht
    obtain ⟨n, -, hn, -⟩ := h.run_interleaving hs hcs.symm
      (fun b hb a ha => h.independent_symm (hD a ha b hb)) ht
    exact ⟨⟨m, hm⟩, n, hn⟩
  · rintro ⟨⟨m, hm⟩, n, hn⟩
    obtain ⟨t, ht, -⟩ := h.run_after hs hD hm hn
    obtain ⟨t', ht', -⟩ := h.run_reorders hs (hcs.reorders_of_append hD)
      (run_append.mpr ⟨m, hm, ht⟩)
    exact ⟨t', ht'⟩

/-- The counters of an interleaving add up. -/
theorem interleaving_counter (h : Exchange step I R D counter) (hs : I s)
    (hcs : Interleaves as bs cs) (hD : ∀ a ∈ as, ∀ b ∈ bs, D a b) (hm : run step s as = .ok m)
    (hn : run step s bs = .ok n) (ht : run step s cs = .ok t) (x : ι) :
    counter t x + counter s x = counter m x + counter n x := by
  obtain ⟨m', t', hm', ht', hR⟩ := h.run_interleaving hs hcs hD ht
  rw [hm, Except.ok.injEq] at hm'
  obtain ⟨u, hu, hc⟩ := h.run_after hs hD hm hn
  rw [← hm', hu, Except.ok.injEq] at ht'
  rw [h.counted hR, ← ht']
  exact hc x

end Exchange

end Runs
