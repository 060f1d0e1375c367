import IconCode.Proofs.Outcome

/-!
# Comparing outcomes

Two runs that read almost the same have outcomes that differ in a few diagnostics at most, or that
report the same on the way to different but related values.

* `Without.bind`, `Without.bind_right`: outcomes that differ in diagnostics, beside others.
* `Without.foldlM`: so it is with a run if one part of it gives way to another.
* `Alike.bind`, `Alike.eq`: outcomes of related values.
-/

namespace IconCode.Outcome

variable {α β γ δ σ : Type}

theorem bind_of_ok {x : Outcome α} {a : α} (h : x.result = .ok a) (f : α → Outcome β) :
    x >>= f = ⟨x.diagnostics ++ (f a).diagnostics, (f a).result⟩ := by
  obtain ⟨ds, r⟩ := x
  cases h
  rfl

theorem bind_of_error {x : Outcome α} {e : ReadError} (h : x.result = .error e)
    (f : α → Outcome β) : x >>= f = ⟨x.diagnostics, .error e⟩ := by
  obtain ⟨ds, r⟩ := x
  cases h
  rfl

theorem ok_or_error (x : Outcome α) : (∃ a, x.result = .ok a) ∨ ∃ e, x.result = .error e := by
  cases h : x.result with
  | ok a => exact .inl ⟨a, rfl⟩
  | error e => exact .inr ⟨e, rfl⟩

/-! ## Fewer diagnostics -/

/-- The second outcome is the first one without some diagnostics that stand together, unless an
error came before they were reported. -/
inductive Without (own : List Diagnostic) (x y : Outcome α) : Prop where
  | reported (front back : List Diagnostic) (hx : x.diagnostics = front ++ own ++ back)
      (hy : y.diagnostics = front ++ back) (hr : x.result = y.result)
  | failed (e : ReadError) (hx : x.result = .error e) (hy : x = y)

namespace Without

variable {own : List Diagnostic} {x y : Outcome α}

theorem refl (x : Outcome α) : Without [] x x :=
  .reported x.diagnostics [] (by simp) (by simp) rfl

/-- Without nothing, everything is the same. -/
theorem eq (h : Without [] x y) : x = y := by
  cases h with
  | reported front back hx hy hr => exact ext (by rw [hx, hy, List.append_nil]) hr
  | failed e hx hy => exact hy

/-- What is reported first and then not. -/
theorem of_report (own : List Diagnostic) (y : Outcome α) :
    Without own ⟨own ++ y.diagnostics, y.result⟩ y :=
  .reported [] y.diagnostics rfl rfl rfl

theorem bind (h : Without own x y) (f : α → Outcome β) : Without own (x >>= f) (y >>= f) := by
  cases h with
  | failed e hx hy =>
    subst hy
    exact .failed e (by rw [bind_of_error hx]) rfl
  | reported front back hx hy hr =>
    rcases ok_or_error x with ⟨a, ha⟩ | ⟨e, he⟩
    · rw [bind_of_ok ha, bind_of_ok (hr ▸ ha)]
      exact .reported front (back ++ (f a).diagnostics) (by simp [hx]) (by simp [hy]) rfl
    · rw [bind_of_error he, bind_of_error (hr ▸ he)]
      exact .reported front back hx hy rfl

theorem bind_right (x : Outcome α) {f g : α → Outcome β}
    (h : ∀ a, x.result = .ok a → Without own (f a) (g a)) : Without own (x >>= f) (x >>= g) := by
  rcases ok_or_error x with ⟨a, ha⟩ | ⟨e, he⟩
  · rw [bind_of_ok ha, bind_of_ok ha]
    cases h a ha with
    | reported front back hx hy hr =>
      exact .reported (x.diagnostics ++ front) back (by simp [hx]) (by simp [hy]) hr
    | failed e hx hy => exact .failed e hx (by rw [hy])
  · rw [bind_of_error he, bind_of_error he]
    exact .failed e rfl rfl

/-- One part of a run gives way to another. -/
theorem foldlM {step : σ → α → Outcome σ} (before item item' after : List α) (s : σ)
    (h : ∀ s', (before.foldlM step s).result = .ok s' →
      Without own (item.foldlM step s') (item'.foldlM step s')) :
    Without own ((before ++ (item ++ after)).foldlM step s)
      ((before ++ (item' ++ after)).foldlM step s) := by
  simp only [List.foldlM_append]
  exact bind_right _ fun s' hs => (h s' hs).bind _

end Without

/-! ## Related values -/

/-- Both outcomes report the same, and both have the same error or values that are related. -/
inductive Alike (R : α → β → Prop) (x : Outcome α) (y : Outcome β) : Prop where
  | ok (a : α) (b : β) (hx : x.result = .ok a) (hy : y.result = .ok b)
      (hd : x.diagnostics = y.diagnostics) (h : R a b)
  | error (e : ReadError) (hx : x.result = .error e) (hy : y.result = .error e)
      (hd : x.diagnostics = y.diagnostics)

namespace Alike

variable {R : α → β → Prop} {S : γ → δ → Prop}

theorem pure {a : α} {b : β} (h : R a b) : Alike R (pure a) (pure b) := .ok a b rfl rfl rfl h

theorem fail (e : ReadError) : Alike R (Outcome.fail e) (Outcome.fail e) := .error e rfl rfl rfl

theorem bind {x : Outcome α} {y : Outcome β} (h : Alike R x y) {f : α → Outcome γ}
    {g : β → Outcome δ} (hfg : ∀ a b, R a b → Alike S (f a) (g b)) :
    Alike S (x >>= f) (y >>= g) := by
  cases h with
  | ok a b hx hy hd hab =>
    rw [bind_of_ok hx, bind_of_ok hy, hd]
    cases hfg a b hab with
    | ok c d hc hd' he hcd => exact .ok c d hc hd' (by simp [he]) hcd
    | error e hc hd' he => exact .error e hc hd' (by simp [he])
  | error e hx hy hd =>
    rw [bind_of_error hx, bind_of_error hy]
    exact .error e rfl rfl hd

/-- The same outcome, followed by what is alike for each of its values. -/
theorem bind_right (x : Outcome α) {f : α → Outcome γ} {g : α → Outcome δ}
    (h : ∀ a, Alike S (f a) (g a)) : Alike S (x >>= f) (x >>= g) := by
  have hself : Alike Eq x x := by
    rcases ok_or_error x with ⟨a, ha⟩ | ⟨e, he⟩
    · exact .ok a a ha ha rfl rfl
    · exact .error e he he rfl
  refine hself.bind ?_
  rintro a _ rfl
  exact h a

theorem eq {x y : Outcome α} (h : Alike Eq x y) : x = y := by
  cases h with
  | ok a b hx hy hd hab => exact ext hd (by rw [hx, hy, hab])
  | error e hx hy hd => exact ext hd (by rw [hx, hy])

end Alike

end IconCode.Outcome
