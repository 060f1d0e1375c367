import IconCode.Reader.Attributes

/-!
# The attributes that count

Attributes are kept in the order of their names, with one of each name. So an attribute has one
place among them, and taking it away or changing its value changes them in that place only.

* `sorted_ordered`: the names increase.
* `ordered_filter`: without an attribute, the others are in the same order.
* `ordered_map`: so they are with other values.
* `Sorted.exists_split`: where an attribute stands.
-/

namespace IconCode.Reader

open Markup (Attribute)

/-- Whether the names increase. -/
def Sorted (attributes : List Attribute) : Prop :=
  attributes.Pairwise fun a b => a.name < b.name

/-! ## Insertion -/

section Insert

variable {a b : Attribute} {rest : List Attribute}

theorem insert_of_lt (h : a.name < b.name) : insert a (b :: rest) = a :: b :: rest := by
  rw [insert, if_pos h]

theorem insert_of_eq (h : a.name = b.name) : insert a (b :: rest) = a :: rest := by
  have hlt : ¬ a.name < b.name := h ▸ String.lt_irrefl _
  rw [insert, if_neg hlt, if_pos h]

theorem insert_of_gt (h : b.name < a.name) : insert a (b :: rest) = b :: insert a rest := by
  have hlt : ¬ a.name < b.name := fun hab => String.lt_irrefl _ (String.lt_trans hab h)
  have hne : a.name ≠ b.name := fun hab => String.lt_irrefl _ (hab ▸ h)
  rw [insert, if_neg hlt, if_neg hne]

theorem lt_or_eq_or_gt (a b : Attribute) :
    a.name < b.name ∨ a.name = b.name ∨ b.name < a.name := by
  by_cases hab : a.name < b.name
  · exact .inl hab
  · by_cases hba : b.name < a.name
    · exact .inr (.inr hba)
    · exact .inr (.inl (String.le_antisymm (String.not_lt.1 hba) (String.not_lt.1 hab)))

/-- An attribute that comes before all others is put in front. -/
theorem insert_eq_cons (h : ∀ x ∈ rest, a.name < x.name) : insert a rest = a :: rest := by
  cases rest with
  | nil => rfl
  | cons b rest => exact insert_of_lt (h b (by simp))

end Insert

theorem eq_or_mem_of_mem_insert {a x : Attribute} {sorted : List Attribute}
    (h : x ∈ insert a sorted) : x = a ∨ x ∈ sorted := by
  induction sorted with
  | nil => simpa [insert] using h
  | cons b rest ih =>
    rcases lt_or_eq_or_gt a b with hab | hab | hab
    · rw [insert_of_lt hab] at h
      exact List.mem_cons.1 h
    · rw [insert_of_eq hab] at h
      rcases List.mem_cons.1 h with rfl | hx
      · exact .inl rfl
      · exact .inr (List.mem_cons_of_mem _ hx)
    · rw [insert_of_gt hab] at h
      rcases List.mem_cons.1 h with rfl | hx
      · exact .inr (by simp)
      · exact (ih hx).imp_right (List.mem_cons_of_mem _)

theorem Sorted.insert {sorted : List Attribute} (h : Sorted sorted) (a : Attribute) :
    Sorted (insert a sorted) := by
  induction sorted with
  | nil => exact List.pairwise_singleton _ _
  | cons b rest ih =>
    obtain ⟨hb, hrest⟩ := List.pairwise_cons.1 h
    rcases lt_or_eq_or_gt a b with hab | hab | hab
    · rw [insert_of_lt hab]
      refine List.pairwise_cons.2 ⟨?_, h⟩
      intro x hx
      rcases List.mem_cons.1 hx with rfl | hx
      · exact hab
      · exact String.lt_trans hab (hb x hx)
    · rw [insert_of_eq hab]
      exact List.pairwise_cons.2 ⟨fun x hx => hab ▸ hb x hx, hrest⟩
    · rw [insert_of_gt hab]
      refine List.pairwise_cons.2 ⟨?_, ih hrest⟩
      intro x hx
      rcases eq_or_mem_of_mem_insert hx with rfl | hx
      · exact hab
      · exact hb x hx

/-- The attributes that come in one after the other stay sorted. -/
theorem Sorted.foldl {sorted : List Attribute} (h : Sorted sorted) (attributes : List Attribute) :
    Sorted (attributes.foldl (fun sorted a => Reader.insert a sorted) sorted) := by
  induction attributes generalizing sorted with
  | nil => exact h
  | cons a attributes ih => exact ih (h.insert a)

theorem sorted_ordered (attributes : List Attribute) : Sorted (ordered attributes) :=
  Sorted.foldl List.Pairwise.nil attributes

/-! ## Taking an attribute away -/

/-- The attributes of other names. -/
def without (name : String) (attributes : List Attribute) : List Attribute :=
  attributes.filter (·.name ≠ name)

theorem without_cons_self {a : Attribute} {name : String} (h : a.name = name)
    (rest : List Attribute) : without name (a :: rest) = without name rest := by
  simp [without, h]

theorem without_cons_of_ne {a : Attribute} {name : String} (h : a.name ≠ name)
    (rest : List Attribute) : without name (a :: rest) = a :: without name rest := by
  simp [without, h]

theorem without_insert_self {name : String} {a : Attribute} (ha : a.name = name)
    (sorted : List Attribute) : without name (insert a sorted) = without name sorted := by
  induction sorted with
  | nil => exact without_cons_self ha []
  | cons b rest ih =>
    rcases lt_or_eq_or_gt a b with hab | hab | hab
    · rw [insert_of_lt hab, without_cons_self ha]
    · rw [insert_of_eq hab, without_cons_self ha, without_cons_self (hab ▸ ha)]
    · rw [insert_of_gt hab, without, without, List.filter_cons, List.filter_cons]
      rw [without, without] at ih
      rw [ih]

theorem without_insert {name : String} {a : Attribute} {sorted : List Attribute}
    (h : Sorted sorted) (ha : a.name ≠ name) :
    without name (insert a sorted) = insert a (without name sorted) := by
  induction sorted with
  | nil => exact without_cons_of_ne ha []
  | cons b rest ih =>
    obtain ⟨hb, hrest⟩ := List.pairwise_cons.1 h
    by_cases hn : b.name = name
    · -- The attribute that goes stands where the new one may come in.
      rw [without_cons_self hn]
      rcases lt_or_eq_or_gt a b with hab | hab | hab
      · have hall : ∀ x ∈ without name rest, a.name < x.name :=
          fun x hx => String.lt_trans hab (hb x (List.mem_filter.1 hx).1)
        rw [insert_of_lt hab, without_cons_of_ne ha, without_cons_self hn, insert_eq_cons hall]
      · exact absurd (hab.trans hn) ha
      · rw [insert_of_gt hab, without_cons_self hn, ih hrest]
    · rw [without_cons_of_ne hn]
      rcases lt_or_eq_or_gt a b with hab | hab | hab
      · rw [insert_of_lt hab, insert_of_lt hab, without_cons_of_ne ha, without_cons_of_ne hn]
      · rw [insert_of_eq hab, insert_of_eq hab, without_cons_of_ne ha]
      · rw [insert_of_gt hab, insert_of_gt hab, without_cons_of_ne hn, ih hrest]

theorem ordered_filter (name : String) (attributes : List Attribute) :
    ordered (without name attributes) = without name (ordered attributes) := by
  have hfold : ∀ (sorted : List Attribute), Sorted sorted →
      (without name attributes).foldl (fun sorted a => insert a sorted) (without name sorted) =
        without name (attributes.foldl (fun sorted a => insert a sorted) sorted) := by
    induction attributes with
    | nil =>
      intro sorted _
      rfl
    | cons a attributes ih =>
      intro sorted h
      have hrest := ih (insert a sorted) (h.insert a)
      by_cases ha : a.name = name
      · rw [without_cons_self ha]
        rwa [without_insert_self ha] at hrest
      · rw [without_cons_of_ne ha]
        rwa [without_insert h ha] at hrest
  exact hfold [] List.Pairwise.nil

/-! ## Changing a value -/

theorem insert_map {f : Attribute → Attribute} (hf : ∀ a, (f a).name = a.name) (a : Attribute)
    (sorted : List Attribute) : insert (f a) (sorted.map f) = (insert a sorted).map f := by
  induction sorted with
  | nil => rfl
  | cons b rest ih =>
    have hlt : a.name < b.name → (f a).name < (f b).name := fun hab => by rwa [hf, hf]
    have heq : a.name = b.name → (f a).name = (f b).name := fun hab => by rwa [hf, hf]
    have hgt : b.name < a.name → (f b).name < (f a).name := fun hab => by rwa [hf, hf]
    rw [List.map_cons]
    rcases lt_or_eq_or_gt a b with hab | hab | hab
    · rw [insert_of_lt hab, insert_of_lt (hlt hab)]
      rfl
    · rw [insert_of_eq hab, insert_of_eq (heq hab)]
      rfl
    · rw [insert_of_gt hab, insert_of_gt (hgt hab), ih]
      rfl

theorem ordered_map {f : Attribute → Attribute} (hf : ∀ a, (f a).name = a.name)
    (attributes : List Attribute) : ordered (attributes.map f) = (ordered attributes).map f := by
  have hfold : ∀ sorted : List Attribute,
      (attributes.map f).foldl (fun sorted a => insert a sorted) (sorted.map f) =
        (attributes.foldl (fun sorted a => insert a sorted) sorted).map f := by
    induction attributes with
    | nil =>
      intro sorted
      rfl
    | cons a attributes ih =>
      intro sorted
      rw [List.map_cons, List.foldl_cons, List.foldl_cons, insert_map hf]
      exact ih (insert a sorted)
  exact hfold []

/-! ## The place of an attribute -/

theorem Sorted.exists_split {attributes : List Attribute} (h : Sorted attributes) {a : Attribute}
    (ha : a ∈ attributes) :
    ∃ before after, attributes = before ++ a :: after ∧
      ∀ x ∈ before ++ after, x.name ≠ a.name := by
  obtain ⟨before, after, rfl⟩ := List.append_of_mem ha
  obtain ⟨-, hafter, hbefore⟩ := List.pairwise_append.1 h
  refine ⟨before, after, rfl, ?_⟩
  intro x hx heq
  rcases List.mem_append.1 hx with hx | hx
  · exact String.lt_irrefl _ (heq ▸ hbefore x hx a (by simp))
  · exact String.lt_irrefl _ (heq ▸ (List.pairwise_cons.1 hafter).1 x hx)

end IconCode.Reader
