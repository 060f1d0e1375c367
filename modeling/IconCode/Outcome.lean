import IconCode.Diagnostic
import IconCode.Error

/-!
# Outcomes of reading

Reading gives a value or an error, and in both cases the diagnostics reported on the way. An error
ends the reading: what was reported before it is kept.

* `bind_assoc`, `pure_bind`, `bind_pure`: outcomes compose as one expects.
-/

namespace IconCode

/-- The diagnostics in the order of their report, and a value or the first error. -/
structure Outcome (α : Type) where
  diagnostics : List Diagnostic
  result : Except ReadError α

namespace Outcome

variable {α β γ : Type}

protected def pure (a : α) : Outcome α := ⟨[], .ok a⟩

protected def bind (x : Outcome α) (f : α → Outcome β) : Outcome β :=
  match x.result with
  | .ok a => ⟨x.diagnostics ++ (f a).diagnostics, (f a).result⟩
  | .error e => ⟨x.diagnostics, .error e⟩

instance : Monad Outcome where
  pure := Outcome.pure
  bind := Outcome.bind

/-- An error without a report. -/
def fail (e : ReadError) : Outcome α := ⟨[], .error e⟩

/-- A result without a report. -/
def ofExcept (x : Except ReadError α) : Outcome α := ⟨[], x⟩

def report (d : Diagnostic) : Outcome Unit := ⟨[d], .ok ()⟩

@[ext] theorem ext {x y : Outcome α} (hd : x.diagnostics = y.diagnostics)
    (hr : x.result = y.result) : x = y := by
  cases x; cases y; simp_all

theorem pure_bind (a : α) (f : α → Outcome β) : (pure a : Outcome α) >>= f = f a := by
  apply ext <;> simp [bind, pure, Outcome.bind, Outcome.pure]

theorem bind_pure (x : Outcome α) : x >>= pure = x := by
  obtain ⟨d, r⟩ := x
  cases r <;> apply ext <;> simp [bind, pure, Outcome.bind, Outcome.pure]

theorem bind_assoc (x : Outcome α) (f : α → Outcome β) (g : β → Outcome γ) :
    x >>= f >>= g = x >>= fun a => f a >>= g := by
  obtain ⟨d, r⟩ := x
  cases r with
  | error e => rfl
  | ok a =>
    simp only [bind, Outcome.bind]
    cases (f a).result <;> simp [List.append_assoc]

instance : LawfulMonad Outcome := LawfulMonad.mk' Outcome bind_pure pure_bind bind_assoc

end Outcome

end IconCode
