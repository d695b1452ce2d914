/-
Fallible computations and the runs of a fallible step function.

A step either fails with an error and leaves the state alone, or succeeds with the
next state. There are two ways to read a list of actions. `run` asks every action to
succeed, which is the notion for invariants: an action that fails changes nothing,
so the reachable states are those of the successful ones. `exec` drops the actions
that fail, which is the notion for comparing what happens to one list of actions in
two different environments.

A property of runs is an instance of one of the rules here (`Traces` has those about the order
of the actions); the actions themselves are looked at one at a time.
-/
import Mathlib.Data.List.Forall2
import Mathlib.Data.List.Induction
import Mathlib.Tactic.Common
import Mathlib.Algebra.Order.BigOperators.Group.Multiset
import Mathlib.Algebra.Order.Ring.Nat

set_option autoImplicit false

/-! ## Computations that may fail -/

namespace Fallible

universe u v w

variable {ε : Type v} {α β : Type u}

/-- A guard: fail with `e` unless `c` holds. -/
def require (c : Prop) [Decidable c] (e : ε) : Except ε Unit :=
  if c then .ok () else .error e

/-- The value of an option, or the error `e`. -/
def getOrError (o : Option α) (e : ε) : Except ε α :=
  match o with
  | some a => .ok a
  | none => .error e

@[simp] theorem require_eq_ok {c : Prop} [Decidable c] {e : ε} {u : Unit} :
    require c e = .ok u ↔ c := by
  unfold require
  split <;> simp_all

@[simp] theorem getOrError_eq_ok {o : Option α} {e : ε} {a : α} :
    getOrError o e = .ok a ↔ o = some a := by
  cases o <;> simp [getOrError]

@[simp] theorem pure_eq_ok {a b : α} : (pure a : Except ε α) = .ok b ↔ a = b :=
  Except.ok.injEq a b ▸ Iff.rfl

/-- A sequence of two computations succeeds when both do. -/
@[simp] theorem bind_eq_ok {x : Except ε α} {f : α → Except ε β} {b : β} :
    (x >>= f) = .ok b ↔ ∃ a, x = .ok a ∧ f a = .ok b := by
  cases x <;> simp [bind, Except.bind]

/-- A computation succeeds with a result of which `f` is known. -/
theorem exists_eq_ok {γ : Type w} {x : Except ε α} {f : α → γ} {b : γ}
    (h : x.toOption.map f = some b) :
    ∃ a, x = .ok a ∧ f a = b := by
  cases x with
  | error e => cases h
  | ok a => exact ⟨a, rfl, Option.some_inj.mp h⟩

/-! The rules for what a computation can fail with. -/

/-- Every error of `x` satisfies `P`. -/
def ErrorsIn (P : ε → Prop) (x : Except ε α) : Prop := ∀ e, x = .error e → P e

section ErrorsIn

variable {P : ε → Prop}

theorem errorsIn_pure {a : α} : ErrorsIn P (pure a : Except ε α) := by
  rintro e ⟨⟩

theorem errorsIn_bind {x : Except ε α} {f : α → Except ε β} (hx : ErrorsIn P x)
    (hf : ∀ a, x = .ok a → ErrorsIn P (f a)) : ErrorsIn P (x >>= f) := by
  intro e he
  cases h : x with
  | error e' =>
    rw [h] at he
    obtain rfl : e' = e := Except.error.inj he
    exact hx e' h
  | ok a =>
    rw [h] at he
    exact hf a h e he

theorem errorsIn_require {c : Prop} [Decidable c] {e : ε} (h : ¬ c → P e) :
    ErrorsIn P (require c e) := by
  unfold require
  split
  · exact errorsIn_pure
  · rintro _ ⟨⟩
    exact h ‹_›

theorem errorsIn_getOrError {o : Option α} {e : ε} (h : P e) : ErrorsIn P (getOrError o e) := by
  cases o with
  | none =>
    rintro _ ⟨⟩
    exact h
  | some a => exact errorsIn_pure

end ErrorsIn

/-! The rules for when a computation fails with a given error. -/

theorem bind_eq_error {x : Except ε α} {f : α → Except ε β} {e : ε} :
    (x >>= f) = .error e ↔ x = .error e ∨ ∃ a, x = .ok a ∧ f a = .error e := by
  cases x <;> simp [bind, Except.bind]

theorem require_eq_error {c : Prop} [Decidable c] {e e' : ε} :
    require c e = .error e' ↔ ¬ c ∧ e = e' := by
  unfold require
  split <;> simp_all

theorem getOrError_eq_error {o : Option α} {e e' : ε} :
    getOrError o e = .error e' ↔ o = none ∧ e = e' := by
  cases o <;> simp [getOrError]

end Fallible

/-! ## Runs -/

namespace Runs

open Fallible

variable {σ α ε : Type*} {step : σ → α → Except ε σ}

/-- Do the actions one after the other; the first failure is the result. -/
def run (step : σ → α → Except ε σ) (s : σ) : List α → Except ε σ
  | [] => .ok s
  | a :: as => step s a >>= fun s' => run step s' as

/-- One action, or nothing at all when it fails. -/
def exec (step : σ → α → Except ε σ) (s : σ) (a : α) : σ :=
  match step s a with
  | .ok s' => s'
  | .error _ => s

/-- Do the actions one after the other, each failing one without effect. -/
def execs (step : σ → α → Except ε σ) (s : σ) (as : List α) : σ :=
  as.foldl (exec step) s

@[simp] theorem run_nil {s t : σ} : run step s [] = .ok t ↔ s = t := by
  simp [run]

@[simp] theorem run_cons {s t : σ} {a : α} {as : List α} :
    run step s (a :: as) = .ok t ↔ ∃ s', step s a = .ok s' ∧ run step s' as = .ok t := by
  simp [run]

theorem run_append {s t : σ} {as bs : List α} :
    run step s (as ++ bs) = .ok t ↔ ∃ m, run step s as = .ok m ∧ run step m bs = .ok t := by
  induction as generalizing s with
  | nil => simp
  | cons a as ih =>
    simp only [List.cons_append, run_cons, ih]
    constructor
    · rintro ⟨s', hs, m, hm, ht⟩
      exact ⟨m, ⟨s', hs, hm⟩, ht⟩
    · rintro ⟨m, ⟨s', hs, hm⟩, ht⟩
      exact ⟨s', hs, m, hm, ht⟩

/-- A run with its last action split off. -/
theorem run_snoc {s t : σ} {as : List α} {a : α} :
    run step s (as ++ [a]) = .ok t ↔ ∃ m, run step s as = .ok m ∧ step m a = .ok t := by
  simp [run_append]

/-- What one more action leads to, read off the longer run. -/
theorem exists_step_eq_ok {γ : Type*} {s t : σ} {as : List α} {a : α} {f : σ → γ} {b : γ}
    (hs : run step s as = .ok t) (h : (run step s (as ++ [a])).toOption.map f = some b) :
    ∃ u, step t a = .ok u ∧ f u = b := by
  obtain ⟨u, hu, hb⟩ := exists_eq_ok h
  obtain ⟨t', ht', hstep⟩ := run_snoc.mp hu
  obtain rfl := Except.ok.inj (hs.symm.trans ht')
  exact ⟨u, hstep, hb⟩

/-- **Induction along a run, with its history.** `P as s` may speak of the actions
done so far as well as of the state they lead to. -/
theorem run_induction {P : List α → σ → Prop} {s t : σ} {as : List α}
    (h0 : P [] s)
    (hstep : ∀ {done m a m'}, run step s done = .ok m → P done m → step m a = .ok m' →
      P (done ++ [a]) m')
    (h : run step s as = .ok t) : P as t := by
  induction as using List.reverseRecOn generalizing t with
  | nil =>
    obtain rfl := run_nil.mp h
    exact h0
  | append_singleton as a ih =>
    obtain ⟨m, hm, ht⟩ := run_snoc.mp h
    exact hstep hm (ih hm) ht

/-- A property kept by every step is kept by every run. -/
theorem run_preserves {P : σ → Prop}
    (hstep : ∀ {m a m'}, P m → step m a = .ok m' → P m')
    {s t : σ} {as : List α} (hs : P s) (h : run step s as = .ok t) : P t :=
  run_induction (P := fun _ m => P m) hs (fun _ hm ha => hstep hm ha) h

/-- **Induction along the runs all of whose steps meet `C`**, with their history. `C` sees the
state before the step and the action. -/
theorem run_induction_of {P : List α → σ → Prop} {C : σ → α → Prop} {s t : σ} {as : List α}
    (h0 : P [] s)
    (hstep : ∀ {done m a m'}, P done m → C m a → step m a = .ok m' → P (done ++ [a]) m')
    (h : run step s as = .ok t)
    (hC : ∀ done a rest m, as = done ++ a :: rest → run step s done = .ok m → C m a) :
    P as t := by
  induction as using List.reverseRecOn generalizing t with
  | nil =>
    obtain rfl := run_nil.mp h
    exact h0
  | append_singleton as a ih =>
    obtain ⟨m, hm, ht⟩ := run_snoc.mp h
    have hP : P as m := ih hm fun done b rest m' hd hr =>
      hC done b (rest ++ [a]) m' (by simp [hd]) hr
    exact hstep hP (hC as a [] m rfl hm) ht

/-- A property kept by the steps that meet `C` is kept by the runs all of whose steps do. -/
theorem run_preserves_of {P : σ → Prop} {C : σ → α → Prop}
    (hstep : ∀ {m a m'}, P m → C m a → step m a = .ok m' → P m')
    {s t : σ} {as : List α} (hs : P s) (h : run step s as = .ok t)
    (hC : ∀ done a rest m, as = done ++ a :: rest → run step s done = .ok m → C m a) : P t :=
  run_induction_of (P := fun _ m => P m) hs hstep h hC

/-- **Spending.** Where each step that meets `C` takes at most `c` off the counter `f`, a run of
such steps takes off at most the sum. -/
theorem run_le_add_sum {P : σ → Prop} {C : σ → α → Prop} {f : σ → ℕ} {c : α → ℕ}
    (hstep : ∀ {m a m'}, P m → C m a → step m a = .ok m' → P m' ∧ f m ≤ f m' + c a)
    {s t : σ} {as : List α} (hs : P s) (h : run step s as = .ok t)
    (hC : ∀ done a rest m, as = done ++ a :: rest → run step s done = .ok m → C m a) :
    P t ∧ f s ≤ f t + (as.map c).sum := by
  refine run_induction_of (P := fun as t => P t ∧ f s ≤ f t + (as.map c).sum)
    ⟨hs, Nat.le_add_right _ _⟩ ?_ h hC
  rintro done m a m' ⟨hP, hle⟩ ha hm
  obtain ⟨hP', hle'⟩ := hstep hP ha hm
  refine ⟨hP', ?_⟩
  rw [List.map_append, List.sum_append, List.map_singleton, List.sum_singleton]
  omega

/-- **Replay.** Where what each step adds to a log folds the view of the state before into the
view of the state after, what a run adds to the log does so too. -/
theorem run_replay {β γ : Type*} {I : σ → Prop} {log : σ → List β} {view : σ → γ}
    {apply : γ → β → γ}
    (hstep : ∀ {m a m'}, I m → step m a = .ok m' →
      I m' ∧ ∃ es, log m' = log m ++ es ∧ es.foldl apply (view m) = view m')
    {s t : σ} {as : List α} (hs : I s) (h : run step s as = .ok t) :
    ∃ es, log t = log s ++ es ∧ es.foldl apply (view s) = view t := by
  have key : I t ∧ ∃ es, log t = log s ++ es ∧ es.foldl apply (view s) = view t := by
    refine run_preserves (P := fun m => I m ∧ ∃ es, log m = log s ++ es ∧
      es.foldl apply (view s) = view m) ?_ ⟨hs, [], (List.append_nil _).symm, rfl⟩ h
    rintro m a m' ⟨hm, es, hlog, hview⟩ ha
    obtain ⟨hm', es', hlog', hview'⟩ := hstep hm ha
    refine ⟨hm', es ++ es', ?_, ?_⟩
    · rw [hlog', hlog, List.append_assoc]
    · rw [List.foldl_append, hview, hview']
  exact key.2

/-! ## Executions with failures -/

theorem exec_of_ok {s s' : σ} {a : α} (h : step s a = .ok s') : exec step s a = s' := by
  simp [exec, h]

theorem exec_of_error {s : σ} {a : α} {e : ε} (h : step s a = .error e) :
    exec step s a = s := by
  simp [exec, h]

theorem execs_snoc {s : σ} {as : List α} {a : α} :
    execs step s (as ++ [a]) = exec step (execs step s as) a := by
  simp [execs]

/-- A property kept by every successful step is kept by one action. -/
theorem exec_preserves {P : σ → Prop} {s : σ} {a : α}
    (hstep : ∀ {t}, step s a = .ok t → P t) (hs : P s) : P (exec step s a) := by
  cases h : step s a with
  | ok t => exact exec_of_ok h ▸ hstep h
  | error e => exact (exec_of_error h).symm ▸ hs

/-- **Two environments, one action.** If each success is matched on the other side by a
success with related results, the results are related, failures included. -/
theorem exec_related {R : σ → σ → Prop} {s s' : σ} {a : α} (h : R s s')
    (hok : ∀ {t}, step s a = .ok t → ∃ t', step s' a = .ok t' ∧ R t t')
    (hok' : ∀ {t'}, step s' a = .ok t' → ∃ t, step s a = .ok t) :
    R (exec step s a) (exec step s' a) := by
  cases hs : step s a with
  | ok t =>
    obtain ⟨t', ht', hR⟩ := hok hs
    rw [exec_of_ok hs, exec_of_ok ht']
    exact hR
  | error e =>
    cases hs' : step s' a with
    | ok t' =>
      obtain ⟨t, ht⟩ := hok' hs'
      rw [ht] at hs
      cases hs
    | error e' =>
      rw [exec_of_error hs, exec_of_error hs']
      exact h

/-- An entry of a script for two executions: an action of both, or one that is inserted into
the second. -/
inductive Entry (α : Type*) where
  | both (a : α)
  | inserted (a : α)

/-- The action of the first execution, if the entry has one. -/
def Entry.shared : Entry α → Option α
  | .both a => some a
  | .inserted _ => none

/-- The action of the second execution. -/
def Entry.action : Entry α → α
  | .both a => a
  | .inserted a => a

/-- The first execution of a script. -/
def without (es : List (Entry α)) : List α := es.filterMap Entry.shared

/-- The second execution of a script. -/
def within (es : List (Entry α)) : List α := es.map Entry.action

/-- **Two executions of a script.** What holds initially, is kept by the actions of both, and
is kept by the inserted ones, holds of the two executions. -/
theorem execs_related {R : σ → σ → Prop} {C : Entry α → Prop}
    (hboth : ∀ {s s' a}, R s s' → C (.both a) → R (exec step s a) (exec step s' a))
    (hinserted : ∀ {s s' a}, R s s' → C (.inserted a) → R s (exec step s' a))
    {s s' : σ} (h : R s s') {es : List (Entry α)} (hes : ∀ e ∈ es, C e) :
    R (execs step s (without es)) (execs step s' (within es)) := by
  induction es using List.reverseRecOn with
  | nil => exact h
  | append_singleton es e ih =>
    have hR := ih fun e' he' => hes e' (List.mem_append_left _ he')
    have he := hes e (by simp)
    cases e with
    | both a =>
      have h1 : without (es ++ [.both a]) = without es ++ [a] := by
        simp [without, Entry.shared]
      have h2 : within (es ++ [.both a]) = within es ++ [a] := by
        simp [within, Entry.action]
      rw [h1, h2, execs_snoc, execs_snoc]
      exact hboth hR he
    | inserted a =>
      have h1 : without (es ++ [.inserted a]) = without es := by
        simp [without, Entry.shared]
      have h2 : within (es ++ [.inserted a]) = within es ++ [a] := by
        simp [within, Entry.action]
      rw [h1, h2, execs_snoc]
      exact hinserted hR he

/-! ## Steps for steps

A run that simulates another makes a list of moves that are related to the actions one for one. -/

section Related

variable {α β : Type*} {R : α → β → Prop} {as : List α} {bs : List β}

/-- Where related steps are related in kind, one kind is counted by the other. -/
theorem countP_le_of_forall₂ {p : α → Bool} {q : β → Bool} (h : List.Forall₂ R as bs)
    (hkind : ∀ a b, R a b → q b = true → p a = true) : bs.countP q ≤ as.countP p := by
  induction h with
  | nil => exact le_rfl
  | @cons a b as bs hab _ ih =>
    rw [List.countP_cons, List.countP_cons]
    by_cases hq : q b = true
    · rw [if_pos hq, if_pos (hkind a b hab hq)]
      omega
    · rw [if_neg hq]
      omega

/-- Each step is related to one of the other list. -/
theorem exists_of_forall₂ (h : List.Forall₂ R as bs) {b : β} (hb : b ∈ bs) :
    ∃ a ∈ as, R a b := by
  induction h with
  | nil => cases hb
  | @cons a b' as bs hab _ ih =>
    rcases List.mem_cons.mp hb with rfl | hb
    · exact ⟨a, List.mem_cons_self, hab⟩
    · obtain ⟨a', ha', hR⟩ := ih hb
      exact ⟨a', List.mem_cons_of_mem _ ha', hR⟩

end Related

end Runs
