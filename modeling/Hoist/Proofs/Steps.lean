import Mathlib

/-!
Running steps that may fail, and looking things up.
-/

namespace Hoist

variable {ε α β : Type}

@[simp] theorem ok_bind (value : α) (next : α → Except ε β) :
    (Except.ok value >>= next) = next value := rfl

@[simp] theorem error_bind (error : ε) (next : α → Except ε β) :
    (Except.error error >>= next) = .error error := rfl

/-- A run of two steps succeeds when both do. -/
theorem bind_eq_ok {first : Except ε α} {next : α → Except ε β} {result : β} :
    (first >>= next) = .ok result ↔ ∃ value, first = .ok value ∧ next value = .ok result := by
  cases first with
  | error error => simp
  | ok value => simp

theorem map_eq_ok {first : Except ε α} {change : α → β} {result : β} :
    first.map change = .ok result ↔ ∃ value, first = .ok value ∧ change value = result := by
  cases first with
  | error error => simp [Except.map]
  | ok value => simp [Except.map]

theorem exists_ok_of_any {run : Except ε α} {holds : α → Bool}
    (any : run.toOption.any holds = true) : ∃ value, run = .ok value ∧ holds value = true := by
  cases run with
  | error error => cases any
  | ok value => exact ⟨value, rfl, any⟩

section State

variable {σ : Type} {state middle : σ} {first : ExceptT ε (StateM σ) α}
  {next : α → ExceptT ε (StateM σ) β}

theorem steps_bind {value : α} (ran : first state = (.ok value, middle)) :
    (first >>= next) state = next value middle := by
  simp only [bind, ExceptT.bind, ExceptT.mk, StateT.bind, ran]
  rfl

theorem steps_bind_error {error : ε} (ran : first state = (.error error, middle)) :
    (first >>= next) state = (.error error, middle) := by
  simp only [bind, ExceptT.bind, ExceptT.mk, StateT.bind, ran]
  rfl

theorem steps_tryCatch_ok {run : ExceptT ε (StateM σ) α} {handler : ε → ExceptT ε (StateM σ) α}
    {value : α} (ran : run state = (.ok value, middle)) :
    tryCatch run handler state = (.ok value, middle) := by
  simp only [tryCatch, tryCatchThe, MonadExceptOf.tryCatch, ExceptT.tryCatch, ExceptT.mk, bind,
    StateT.bind, ran]
  rfl

theorem steps_tryCatch_error {run : ExceptT ε (StateM σ) α}
    {handler : ε → ExceptT ε (StateM σ) α} {error : ε} (ran : run state = (.error error, middle)) :
    tryCatch run handler state = handler error middle := by
  simp only [tryCatch, tryCatchThe, MonadExceptOf.tryCatch, ExceptT.tryCatch, ExceptT.mk, bind,
    StateT.bind, ran]

theorem steps_get {next : σ → ExceptT ε (StateM σ) β} :
    (get >>= next) state = next state state := rfl

end State

theorem mem_of_lookup {κ : Type} [BEq κ] [LawfulBEq κ] {α : Type} {key : κ} {value : α}
    {entries : List (κ × α)} (found : entries.lookup key = some value) :
    (key, value) ∈ entries := by
  obtain ⟨before, after, rfl, -⟩ := List.lookup_eq_some_iff.1 found
  simp

end Hoist
