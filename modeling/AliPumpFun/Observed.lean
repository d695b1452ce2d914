/-
Fallible computations that report their calls.

An observed computation is a fallible one together with the list of the calls it made, in
order, a failing one included. `result` forgets the calls and commutes with everything here
by definition, so an observed program has the result of the plain one, and what is shown of
its calls is shown of the calls the plain one makes.
-/
import AliPumpFun.Runs

set_option autoImplicit false

open Fallible

/-- A fallible computation with the calls it made. -/
structure Observed (κ ε α : Type*) where
  calls : List κ
  result : Except ε α

namespace Observed

universe u v w

variable {κ : Type w} {ε : Type v} {α β : Type u}

/-- A computation that makes no call. -/
def lift (x : Except ε α) : Observed κ ε α := ⟨[], x⟩

/-- The call `k`, answered by `run`. -/
def call (run : κ → Except ε α) (k : κ) : Observed κ ε α := ⟨[k], run k⟩

/-- The calls of a sequence: those of its first part and, if that succeeds, those of the
second. -/
def callsThen (x : Observed κ ε α) (f : α → Observed κ ε β) : List κ :=
  match x.result with
  | .ok a => x.calls ++ (f a).calls
  | .error _ => x.calls

instance : Monad (Observed κ ε) where
  pure a := ⟨[], .ok a⟩
  bind x f := ⟨callsThen x f, x.result >>= fun a => (f a).result⟩

/-! ## Forgetting the calls -/

@[simp] theorem result_pure (a : α) : (pure a : Observed κ ε α).result = .ok a := rfl

@[simp] theorem result_lift (x : Except ε α) : (lift x : Observed κ ε α).result = x := rfl

@[simp] theorem result_call (run : κ → Except ε α) (k : κ) : (call run k).result = run k := rfl

@[simp] theorem result_bind (x : Observed κ ε α) (f : α → Observed κ ε β) :
    (x >>= f).result = x.result >>= fun a => (f a).result := rfl

/-! ## The calls of a sequence -/

/-- The computation `x` after the call `k`. -/
def cons (k : κ) (x : Observed κ ε α) : Observed κ ε α := ⟨k :: x.calls, x.result⟩

section Sequences

variable {k : κ} {run : κ → Except ε α} {x : Observed κ ε α} {y : Except ε α}
  {f : α → Observed κ ε β} {a : α} {e : ε}

@[simp] theorem calls_cons : (cons k x).calls = k :: x.calls := rfl

theorem pure_bind : (pure a : Observed κ ε α) >>= f = f a := rfl

theorem cons_bind : cons k x >>= f = cons k (x >>= f) := by
  obtain ⟨cs, y⟩ := x
  cases y with
  | ok a => rfl
  | error e => rfl

theorem call_bind_of_ok (h : run k = .ok a) : call run k >>= f = cons k (f a) := by
  change Observed.mk (callsThen (call run k) f) (run k >>= _) = _
  rw [callsThen, result_call, h]
  rfl

theorem lift_bind_of_ok (h : y = .ok a) : lift y >>= f = f a := by
  rw [h]
  rfl

theorem lift_bind_of_error (h : y = .error e) : lift y >>= f = lift (.error e) := by
  rw [h]
  rfl

/-- What comes last and makes no call adds none. -/
theorem calls_bind_of_forall_nil (hf : ∀ a, (f a).calls = []) : (x >>= f).calls = x.calls := by
  change callsThen x f = _
  unfold callsThen
  split
  · rw [hf, List.append_nil]
  · rfl

end Sequences

/-! ## What holds of every call -/

/-- Every call of `x` satisfies `P`. -/
def CallsIn (P : κ → Prop) (x : Observed κ ε α) : Prop := ∀ k ∈ x.calls, P k

variable {P : κ → Prop}

@[simp] theorem callsIn_pure {a : α} : CallsIn P (pure a : Observed κ ε α) := by
  intro k hk
  cases hk

@[simp] theorem callsIn_lift {x : Except ε α} : CallsIn P (lift x : Observed κ ε α) := by
  intro k hk
  cases hk

@[simp] theorem callsIn_call {run : κ → Except ε α} {k : κ} : CallsIn P (call run k) ↔ P k := by
  simp [CallsIn, call]

/-- The rule for a sequence. The second part is only looked at after a success. -/
theorem callsIn_bind {x : Observed κ ε α} {f : α → Observed κ ε β} (hx : CallsIn P x)
    (hf : ∀ a, x.result = .ok a → CallsIn P (f a)) : CallsIn P (x >>= f) := by
  intro k hk
  change k ∈ callsThen x f at hk
  unfold callsThen at hk
  split at hk
  · rename_i a ha
    rcases List.mem_append.mp hk with h | h
    · exact hx k h
    · exact hf a ha k h
  · exact hx k hk

/-- The calls of a sequence whose first part succeeds. -/
theorem callsIn_bind_of_ok {x : Observed κ ε α} {f : α → Observed κ ε β} {a : α}
    (ha : x.result = .ok a) : CallsIn P (x >>= f) ↔ CallsIn P x ∧ CallsIn P (f a) := by
  have hcalls : (x >>= f).calls = x.calls ++ (f a).calls := by
    change callsThen x f = _
    rw [callsThen, ha]
  simp only [CallsIn, hcalls, List.forall_mem_append]

end Observed
