/-
A bonding curve as an abstract machine.

A curve sells a supply for a quote asset along the hyperbola of `ConstantProduct` until
what it has taken in reaches a threshold. Then it stands still, and what it holds is
taken out, once. It prices with virtual reserves on top of the real ones.

The machine is over the natural numbers, and its states carry their bounds. The one
concession to an implementation is the parameter `M`: the charge for an exact output is
reduced modulo `M`. `Terms.Fits` is the condition on the terms under which no reduction
is ever seen.

The results are about whole paths: what went in and out is accounted for to the unit, and
the product of the reserves drifts by less than one price unit in a move, in a direction
that only depends on the kind of the move.
-/
import AliPumpFun.ConstantProduct

set_option autoImplicit false

open ConstantProduct

namespace BondingCurve

/-! ## States and moves -/

/-- What a curve is set up with: the virtual reserves, the supply it sells, and the amount
of quote at which it is complete. -/
structure Terms where
  virt_base : ℕ
  virt_quote : ℕ
  supply : ℕ
  threshold : ℕ
  virt_base_pos : 0 < virt_base
  virt_quote_pos : 0 < virt_quote

/-- The real reserves of a curve that still holds them. -/
structure Reserves (t : Terms) where
  base : ℕ
  quote : ℕ
  base_le : base ≤ t.supply
  quote_le : quote ≤ t.threshold

/-- A curve holds its reserves until they are taken out. -/
inductive State (t : Terms) where
  | active (r : Reserves t)
  | withdrawn

/-- What can be done to a curve, with the amounts that change hands. -/
inductive Move where
  /-- An exact amount of quote is paid in, and base comes out for it. -/
  | deposit (quote base : ℕ)
  /-- An exact amount of base is asked for, and quote is charged for it. -/
  | demand (base quote : ℕ)
  /-- An exact amount of base is given back, and quote comes out for it. -/
  | restore (base quote : ℕ)
  /-- Everything is taken out. -/
  | withdraw (base quote : ℕ)

namespace Terms

variable (t : Terms)

/-- The most base a curve ever prices with. -/
def base_max : ℕ := t.virt_base + t.supply

/-- The most quote a curve ever prices with: that of a complete curve. -/
def quote_max : ℕ := t.virt_quote + t.threshold

/-- A new curve holds the supply, and no quote. -/
def start : Reserves t := ⟨t.supply, 0, le_rfl, Nat.zero_le _⟩

/-- Whatever is asked for costs less than `M`. -/
def Fits (M : ℕ) : Prop := t.supply * t.quote_max < M * t.virt_base

end Terms

namespace Reserves

variable {t : Terms} (r : Reserves t)

def total_base : ℕ := t.virt_base + r.base
def total_quote : ℕ := t.virt_quote + r.quote
def product : ℕ := r.total_base * r.total_quote

theorem total_base_le : r.total_base ≤ t.base_max := Nat.add_le_add_left r.base_le _

theorem total_quote_le : r.total_quote ≤ t.quote_max := Nat.add_le_add_left r.quote_le _

theorem total_base_pos : 0 < r.total_base := Nat.add_pos_left t.virt_base_pos _

theorem total_quote_pos : 0 < r.total_quote := Nat.add_pos_left t.virt_quote_pos _

variable {r} {r' : Reserves t} {n : ℕ}

theorem total_base_sub (h : r'.base + n = r.base) : r.total_base - n = r'.total_base := by
  rw [total_base, total_base]
  omega

theorem total_base_add (h : r'.base = r.base + n) : r.total_base + n = r'.total_base := by
  rw [total_base, total_base, h, Nat.add_assoc]

theorem total_quote_sub (h : r'.quote + n = r.quote) : r.total_quote - n = r'.total_quote := by
  rw [total_quote, total_quote]
  omega

theorem total_quote_add (h : r'.quote = r.quote + n) : r.total_quote + n = r'.total_quote := by
  rw [total_quote, total_quote, h, Nat.add_assoc]

/-- What a curve holds is less than what it prices with. -/
theorem lt_total_base (h : n ≤ r.base) : n < r.total_base := by
  have := t.virt_base_pos
  rw [total_base]
  omega

end Reserves

namespace State

variable {t : Terms}

/-- The base a curve holds. -/
def base : State t → ℕ
  | active r => r.base
  | withdrawn => 0

/-- The quote a curve holds. -/
def quote : State t → ℕ
  | active r => r.quote
  | withdrawn => 0

end State

namespace Move

def base_in : Move → ℕ
  | restore x _ => x
  | _ => 0

def base_out : Move → ℕ
  | deposit _ y => y
  | demand y _ => y
  | withdraw y _ => y
  | _ => 0

def quote_in : Move → ℕ
  | deposit n _ => n
  | demand _ n => n
  | _ => 0

def quote_out : Move → ℕ
  | restore _ g => g
  | withdraw _ g => g
  | _ => 0

def is_deposit : Move → Bool
  | deposit _ _ => true
  | _ => false

def is_demand : Move → Bool
  | demand _ _ => true
  | _ => false

def is_restore : Move → Bool
  | restore _ _ => true
  | _ => false

end Move

variable {t : Terms} {M : ℕ}

/-- One move. While the curve is open it quotes on the hyperbola through its total reserves;
once complete it can only be withdrawn from. -/
inductive Step (M : ℕ) : State t → Move → State t → Prop
  | deposit {r r' : Reserves t} {n y : ℕ} :
      r.quote < t.threshold → y = output n r.total_quote r.total_base →
      r'.base + y = r.base → r'.quote = r.quote + n →
      Step M (.active r) (.deposit n y) (.active r')
  | demand {r r' : Reserves t} {y n : ℕ} :
      r.quote < t.threshold → n = input y r.total_quote r.total_base % M →
      r'.base + y = r.base → r'.quote = r.quote + n →
      Step M (.active r) (.demand y n) (.active r')
  | restore {r r' : Reserves t} {x g : ℕ} :
      r.quote < t.threshold → g = output x r.total_base r.total_quote →
      r'.base = r.base + x → r'.quote + g = r.quote →
      Step M (.active r) (.restore x g) (.active r')
  | withdraw {r : Reserves t} :
      r.quote = t.threshold → 0 < r.base →
      Step M (.active r) (.withdraw r.base r.quote) .withdrawn

/-- The moves of a curve from `s₀` on, in their order. -/
inductive Path (M : ℕ) (s₀ : State t) : List Move → State t → Prop
  | nil : Path M s₀ [] s₀
  | snoc {ms : List Move} {m : Move} {s s' : State t} :
      Path M s₀ ms s → Step M s m s' → Path M s₀ (ms ++ [m]) s'

/-! ## What goes in and out -/

theorem Step.balance {s s' : State t} {m : Move} (h : Step M s m s') :
    s'.base + m.base_out = s.base + m.base_in ∧
      s'.quote + m.quote_out = s.quote + m.quote_in := by
  cases h with
  | deposit _ _ hb hq => exact ⟨hb, hq⟩
  | demand _ _ hb hq => exact ⟨hb, hq⟩
  | restore _ _ hb hq => exact ⟨hb, hq⟩
  | withdraw => exact ⟨Nat.zero_add _, Nat.zero_add _⟩

/-- **A path is accounted for to the unit**, on both sides. -/
theorem Path.balance {s₀ s : State t} {ms : List Move} (h : Path M s₀ ms s) :
    s.base + (ms.map Move.base_out).sum = s₀.base + (ms.map Move.base_in).sum ∧
      s.quote + (ms.map Move.quote_out).sum = s₀.quote + (ms.map Move.quote_in).sum := by
  induction h with
  | nil => exact ⟨rfl, rfl⟩
  | snoc _ hstep ih =>
    have hb := hstep.balance.1
    have hq := hstep.balance.2
    rw [List.map_append, List.map_append, List.map_append, List.map_append,
      List.sum_append, List.sum_append, List.sum_append, List.sum_append]
    simp only [List.map_cons, List.map_nil, List.sum_cons, List.sum_nil, Nat.add_zero]
    constructor
    · have := ih.1
      omega
    · have := ih.2
      omega

/-- What is gone was taken out. -/
theorem Path.exists_withdraw {s₀ s : State t} {ms : List Move} (h : Path M s₀ ms s)
    (hs : s = .withdrawn) (hs₀ : s₀ ≠ .withdrawn) : ∃ b q, .withdraw b q ∈ ms := by
  induction h with
  | nil => exact absurd hs hs₀
  | snoc _ hstep _ =>
    subst hs
    cases hstep with
    | withdraw => exact ⟨_, _, List.mem_append_right _ List.mem_cons_self⟩

/-! ## How the product drifts -/

section Drift

variable {r r' : Reserves t} {m : Move}

/-- What is asked for and held costs less than `M`. -/
theorem Terms.Fits.input_lt (hfit : t.Fits M) {y : ℕ} (hy : y ≤ r.base) :
    input y r.total_quote r.total_base < M := by
  have hleft : t.virt_base ≤ r.total_base - y := by
    rw [Reserves.total_base]
    omega
  have hpos := t.virt_base_pos
  rw [input, Nat.div_lt_iff_lt_mul (by omega)]
  calc y * r.total_quote ≤ t.supply * t.quote_max :=
        Nat.mul_le_mul (hy.trans r.base_le) r.total_quote_le
    _ < M * t.virt_base := hfit
    _ ≤ M * (r.total_base - y) := Nat.mul_le_mul_left M hleft

/-- Only a demand lowers the product, by less than one unit of quote at the new price. -/
theorem Step.product_le (hfit : t.Fits M) (h : Step M (.active r) m (.active r')) :
    r.product ≤ r'.product + if m.is_demand then t.base_max else 0 := by
  cases h with
  | @deposit _ _ n y _ hy hb hq =>
    have hkey := product_le_of_output n r.total_quote r.total_base
    rw [← hy, Reserves.total_base_sub hb, Reserves.total_quote_add hq, Nat.mul_comm,
      Nat.mul_comm r'.total_quote] at hkey
    exact hkey
  | @demand _ _ y n _ hn hb hq =>
    have hle : y ≤ r.base := by omega
    rw [Nat.mod_eq_of_lt (hfit.input_lt hle)] at hn
    have hkey := product_lt_of_input (X := r.total_quote) (Reserves.lt_total_base hle)
    have hmax := r'.total_base_le
    rw [← hn, Reserves.total_base_sub hb, Reserves.total_quote_add hq, Nat.mul_comm,
      Nat.mul_comm r'.total_quote] at hkey
    exact (hkey.trans_le (Nat.add_le_add_left hmax _)).le
  | @restore _ _ x g _ hg hb hq =>
    have hkey := product_le_of_output x r.total_base r.total_quote
    rw [← hg, Reserves.total_base_add hb, Reserves.total_quote_sub hq] at hkey
    exact hkey

/-- What a move adds to the product at the most. A demand adds nothing. -/
def Move.gain (t : Terms) : Move → ℕ
  | .deposit _ _ => t.quote_max
  | .restore _ _ => t.base_max
  | _ => 0

/-- A deposit and a restoration raise the product, by less than one unit of what comes out at
the new price. -/
theorem Step.le_product (h : Step M (.active r) m (.active r')) :
    r'.product ≤ r.product + m.gain t := by
  cases h with
  | @deposit _ _ n y _ hy hb hq =>
    have hkey := product_lt_of_output (x := n) (Y := r.total_base)
      (Nat.add_pos_left r.total_quote_pos n)
    rw [← hy, Reserves.total_base_sub hb, Reserves.total_quote_add hq, Nat.mul_comm,
      Nat.mul_comm r.total_quote] at hkey
    exact (hkey.trans_le (Nat.add_le_add_left r'.total_quote_le _)).le
  | @demand _ _ y n _ hn hb hq =>
    have hkey := product_le_of_le_input (X := r.total_quote) (hn.trans_le (Nat.mod_le _ _))
      (Reserves.lt_total_base (by omega))
    rw [Reserves.total_base_sub hb, Reserves.total_quote_add hq, Nat.mul_comm,
      Nat.mul_comm r.total_quote] at hkey
    exact hkey
  | @restore _ _ x g _ hg hb hq =>
    have hkey := product_lt_of_output (x := x) (Y := r.total_quote)
      (Nat.add_pos_left r.total_base_pos x)
    rw [← hg, Reserves.total_base_add hb, Reserves.total_quote_sub hq] at hkey
    exact (hkey.trans_le (Nat.add_le_add_left r'.total_base_le _)).le

/-- A curve that still holds its reserves has held them all along. -/
theorem Step.exists_active {s : State t} (h : Step M s m (.active r')) :
    ∃ r, s = .active r := by
  cases h with
  | deposit => exact ⟨_, rfl⟩
  | demand => exact ⟨_, rfl⟩
  | restore => exact ⟨_, rfl⟩

/-- **The product of a path falls by its demands at the most.** -/
theorem Path.product_le (hfit : t.Fits M) {ms : List Move} {r₀ : Reserves t} {s : State t}
    (h : Path M (.active r₀) ms s) :
    ∀ r, s = .active r → r₀.product ≤ r.product + ms.countP Move.is_demand * t.base_max := by
  induction h with
  | nil =>
    intro r hr
    cases hr
    exact Nat.le_add_right _ _
  | @snoc ms m s s' _ hstep ih =>
    rintro r' rfl
    obtain ⟨r, rfl⟩ := hstep.exists_active
    have h1 := ih r rfl
    have h2 := hstep.product_le hfit
    rw [List.countP_append, List.countP_singleton, Nat.add_mul]
    split_ifs at h2 ⊢
    · omega
    · omega

/-- **The product of a path rises by its deposits and restorations at the most.** -/
theorem Path.le_product {ms : List Move} {r₀ : Reserves t} {s : State t}
    (h : Path M (.active r₀) ms s) :
    ∀ r, s = .active r → r.product ≤ r₀.product +
      (ms.countP Move.is_deposit * t.quote_max + ms.countP Move.is_restore * t.base_max) := by
  induction h with
  | nil =>
    intro r hr
    cases hr
    exact Nat.le_add_right _ _
  | @snoc ms m s s' _ hstep ih =>
    rintro r' rfl
    obtain ⟨r, rfl⟩ := hstep.exists_active
    have h1 := ih r rfl
    have h2 := hstep.le_product
    rw [List.countP_append, List.countP_append, List.countP_singleton, List.countP_singleton,
      Nat.add_mul, Nat.add_mul]
    -- one of the two counts goes up by one, or none
    cases m with
    | deposit =>
      simp only [Move.gain, Move.is_deposit, Move.is_restore, if_true, Bool.false_eq_true,
        if_false, Nat.one_mul, Nat.zero_mul] at h2 ⊢
      omega
    | demand =>
      simp only [Move.gain, Move.is_deposit, Move.is_restore, Bool.false_eq_true, if_false,
        Nat.zero_mul] at h2 ⊢
      omega
    | restore =>
      simp only [Move.gain, Move.is_deposit, Move.is_restore, if_true, Bool.false_eq_true,
        if_false, Nat.one_mul, Nat.zero_mul] at h2 ⊢
      omega
    | withdraw => cases hstep

end Drift

end BondingCurve
