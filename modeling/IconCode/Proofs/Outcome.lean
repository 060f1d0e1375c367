import IconCode.Outcome

/-!
# Results and errors of outcomes

What a composed outcome results in follows from the results of its parts; the first error is the
error of the whole.

* `result_bind_ok_iff`, `result_bind_error_iff`: inversion of a composition.
* `error?_bind`: the first error is the one that counts.
* `error?_foldlM`: so it is with the errors of the steps of a run.
* `foldlM_error_iff`: where a run fails.
* `foldlM_preserves`: what every step preserves is preserved by a whole run.
* `foldlM_map`: a map of states that every step respects is respected by a whole run.
-/

namespace IconCode

theorem findSome?_cons_eq_or {α β : Type} (f : α → Option β) (x : α) (xs : List α) :
    (x :: xs).findSome? f = (f x).or (xs.findSome? f) := by
  rw [List.findSome?_cons]
  cases f x <;> rfl

theorem map_ok_iff {ε α β : Type} {f : α → β} {x : Except ε α} {b : β} :
    x.map f = .ok b ↔ ∃ a, x = .ok a ∧ f a = b := by
  cases x <;> simp [Except.map]

theorem toOption_eq_some_iff {ε α : Type} {x : Except ε α} {a : α} :
    x.toOption = some a ↔ x = .ok a := by
  cases x <;> simp [Except.toOption]

theorem isSome_toOption_iff {ε α : Type} (x : Except ε α) :
    x.toOption.isSome = true ↔ ∃ a, x = .ok a := by
  cases x <;> simp [Except.toOption]

namespace Outcome

variable {α β σ τ : Type}

@[simp] theorem result_pure (a : α) : (pure a : Outcome α).result = .ok a := rfl

theorem result_bind_ok_iff {x : Outcome α} {f : α → Outcome β} {b : β} :
    (x >>= f).result = .ok b ↔ ∃ a, x.result = .ok a ∧ (f a).result = .ok b := by
  obtain ⟨d, r⟩ := x
  cases r with
  | error e => simp [bind, Outcome.bind]
  | ok a => simp [bind, Outcome.bind]

theorem result_bind_error_iff {x : Outcome α} {f : α → Outcome β} {e : ReadError} :
    (x >>= f).result = .error e ↔
      x.result = .error e ∨ ∃ a, x.result = .ok a ∧ (f a).result = .error e := by
  obtain ⟨d, r⟩ := x
  cases r with
  | error e' => simp [bind, Outcome.bind]
  | ok a => simp [bind, Outcome.bind]

theorem result_map (f : α → β) (x : Outcome α) : (f <$> x).result = x.result.map f := by
  obtain ⟨d, r⟩ := x
  cases r <;> rfl

theorem diagnostics_map (f : α → β) (x : Outcome α) : (f <$> x).diagnostics = x.diagnostics := by
  obtain ⟨d, r⟩ := x
  cases r with
  | error e => rfl
  | ok a => exact List.append_nil d

theorem result_map_ok_iff {f : α → β} {x : Outcome α} {b : β} :
    (f <$> x).result = .ok b ↔ ∃ a, x.result = .ok a ∧ f a = b := by
  rw [result_map, map_ok_iff]

theorem result_map_error_iff {f : α → β} {x : Outcome α} {e : ReadError} :
    (f <$> x).result = .error e ↔ x.result = .error e := by
  rw [result_map]
  cases x.result <;> simp [Except.map]

/-! ## Errors -/

/-- The error of an outcome without a value. -/
def error? (x : Outcome α) : Option ReadError :=
  match x.result with
  | .ok _ => none
  | .error e => some e

theorem error?_eq_none_iff {x : Outcome α} : x.error? = none ↔ ∃ a, x.result = .ok a := by
  obtain ⟨d, r⟩ := x
  cases r <;> simp [error?]

theorem error?_eq_some_iff {x : Outcome α} {e : ReadError} :
    x.error? = some e ↔ x.result = .error e := by
  obtain ⟨d, r⟩ := x
  cases r <;> simp [error?]

@[simp] theorem error?_map (f : α → β) (x : Outcome α) : (f <$> x).error? = x.error? := by
  obtain ⟨d, r⟩ := x
  cases r <;> rfl

@[simp] theorem error?_ofExcept_map (f : α → β) (x : Except ReadError α) :
    (ofExcept (x.map f)).error? = (ofExcept x).error? := by
  cases x <;> rfl

/-- If what follows has the same error for every value, that is the error whenever the first part
has none. -/
theorem error?_bind {x : Outcome α} {f : α → Outcome β} {e? : Option ReadError}
    (h : ∀ a, (f a).error? = e?) : (x >>= f).error? = x.error?.or e? := by
  obtain ⟨d, r⟩ := x
  cases r with
  | error e => rfl
  | ok a => exact h a

/-! ## Runs -/

theorem foldlM_map (g : σ → τ) {step : σ → α → Outcome σ} {step' : τ → α → Outcome τ}
    (h : ∀ s a, step' (g s) a = g <$> step s a) (xs : List α) (s : σ) :
    xs.foldlM step' (g s) = g <$> xs.foldlM step s := by
  induction xs generalizing s with
  | nil => simp
  | cons x xs ih => simp only [List.foldlM_cons, map_bind, ← ih, h, bind_map_left]

/-- What every successful step preserves holds at the end of a successful run. -/
theorem foldlM_preserves (P : σ → Prop) {step : σ → α → Outcome σ}
    (hstep : ∀ s a s', P s → (step s a).result = .ok s' → P s') {xs : List α} {s s' : σ}
    (hs : P s) (h : (xs.foldlM step s).result = .ok s') : P s' := by
  induction xs generalizing s with
  | nil =>
    cases h
    exact hs
  | cons x xs ih =>
    rw [List.foldlM_cons, result_bind_ok_iff] at h
    obtain ⟨t, ht, h⟩ := h
    exact ih (hstep s x t hs ht) h

/-- If the error of a step depends on the element alone, a run has the first of these errors. -/
theorem error?_foldlM {step : σ → α → Outcome σ} {fault? : α → Option ReadError}
    (h : ∀ s a, (step s a).error? = fault? a) (xs : List α) (s : σ) :
    (xs.foldlM step s).error? = xs.findSome? fault? := by
  induction xs generalizing s with
  | nil => rfl
  | cons x xs ih =>
    rw [List.foldlM_cons, error?_bind ih, h, findSome?_cons_eq_or]

/-- A run that fails does so at one of its steps, in the state that the steps before it lead to. -/
theorem foldlM_error_split {step : σ → α → Outcome σ} {xs : List α} {s : σ} {e : ReadError}
    (h : (xs.foldlM step s).result = .error e) :
    ∃ before x after s', xs = before ++ x :: after ∧ (before.foldlM step s).result = .ok s' ∧
      (step s' x).result = .error e := by
  induction xs generalizing s with
  | nil => cases h
  | cons x xs ih =>
    rw [List.foldlM_cons, result_bind_error_iff] at h
    rcases h with h | ⟨s', hs, h⟩
    · exact ⟨[], x, xs, s, rfl, rfl, h⟩
    · obtain ⟨before, y, after, t, rfl, hb, hy⟩ := ih h
      refine ⟨x :: before, y, after, t, rfl, ?_, hy⟩
      rw [List.foldlM_cons, result_bind_ok_iff]
      exact ⟨s', hs, hb⟩

theorem foldlM_error_iff {step : σ → α → Outcome σ} {xs : List α} {s : σ} {e : ReadError} :
    (xs.foldlM step s).result = .error e ↔
      ∃ before x after s', xs = before ++ x :: after ∧ (before.foldlM step s).result = .ok s' ∧
        (step s' x).result = .error e := by
  refine ⟨foldlM_error_split, ?_⟩
  rintro ⟨before, x, after, s', rfl, hs, hx⟩
  rw [List.foldlM_append, result_bind_error_iff]
  refine .inr ⟨s', hs, ?_⟩
  rw [List.foldlM_cons, result_bind_error_iff]
  exact .inl hx

end Outcome

end IconCode
