set_option autoImplicit false

/-! Runs of a machine whose steps are a partial function of the state and a label, and whose
environment keeps to a condition on what it asks for in which state. -/
namespace Machine

section
variable {S A : Type} (step : S → A → Option S)

inductive Run (ok : S → A → Prop) (start : S) : List A → S → Prop where
  | nil : Run ok start [] start
  | snoc {as : List A} {a : A} {s s' : S} (before : Run ok start as s) (meets : ok s a)
      (last : step s a = some s') : Run ok start (as ++ [a]) s'

variable {step}

theorem Run.invariant {ok : S → A → Prop} {P : S → Prop} {start s : S} {as : List A}
    (h : Run step ok start as s) (init : P start)
    (keep : ∀ {s s' a}, P s → ok s a → step s a = some s' → P s') : P s := by
  induction h with
  | nil => exact init
  | snoc _ meets last ih => exact keep ih meets last

theorem Run.weaken {ok ok' : S → A → Prop} {start s : S} {as : List A}
    (h : Run step ok start as s) (le : ∀ {s a}, ok s a → ok' s a) : Run step ok' start as s := by
  induction h with
  | nil => exact .nil
  | snoc _ meets last ih => exact .snoc ih (le meets) last

theorem Run.append {ok : S → A → Prop} {s₁ s₂ s₃ : S} {as as' : List A}
    (h : Run step ok s₁ as s₂) (h' : Run step ok s₂ as' s₃) : Run step ok s₁ (as ++ as') s₃ := by
  induction h' with
  | nil => simpa using h
  | snoc _ meets last ih => simpa only [List.append_assoc] using Run.snoc ih meets last

theorem Run.one {ok : S → A → Prop} {s s' : S} {a : A} (meets : ok s a)
    (last : step s a = some s') : Run step ok s [a] s' :=
  .snoc .nil meets last

variable (step)

def execute (ok : S → A → Bool) : S → List A → Option S
  | s, [] => some s
  | s, a :: as => if ok s a then (step s a).bind fun s' => execute ok s' as else none

theorem execute_run {ok : S → A → Bool} {s s' : S} {as : List A}
    (h : execute step ok s as = some s') : Run step (fun s a => ok s a = true) s as s' := by
  induction as generalizing s with
  | nil => exact Option.some.inj h ▸ .nil
  | cons a as ih =>
    rw [execute] at h
    split at h
    · rename_i meets
      obtain ⟨t, last, rest⟩ := Option.bind_eq_some_iff.1 h
      have first : Run step (fun s a => ok s a = true) s [a] t := .one meets last
      exact first.append (ih rest)
    · cases h

theorem exists_run (ok : S → A → Bool) (s : S) (as : List A) (p : S → Bool)
    (h : (execute step ok s as).any p = true) :
    ∃ s', Run step (fun s a => ok s a = true) s as s' ∧ p s' = true := by
  obtain ⟨s', found, holds⟩ := (Option.any_eq_true ..).1 h
  exact ⟨s', execute_run step found, holds⟩

end

end Machine
