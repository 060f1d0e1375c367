import IconCode.Proofs.Paint.Block
import IconCode.Proofs.Reader.Precedence

/-!
# Two ways to write a declaration

A property can be declared by its own attribute or by a clause of a block. The two say the same of
every value that a clause can have. Only an error shows the difference: it repeats the value as it
was read, and of a clause the blanks around the value are taken away before.

* `Style.ofBlock_clause`: a block of one clause.
* `declare?_clause`: an attribute and a clause with one value.
-/

namespace IconCode

open Text (trim lowered)

/-! ## Clauses -/

namespace Property

theorem not_mem_name (p : Property) : ';' ∉ p.name.toList ∧ ':' ∉ p.name.toList := by
  cases p <;> decide

theorem ofName?_lowered_name (p : Property) :
    ofName? (String.ofList (lowered (trim p.name.toList))) = some p := by
  cases p <;> decide

/-- The text with the name of a property, a colon and a value is a declaration of the trimmed
value, which may have colons of its own. -/
theorem clause_ofText (p : Property) (value : List Char) :
    Style.Clause.ofText (p.name.toList ++ ':' :: value) = .declaration p (trim value) := by
  have hne : (trim (p.name.toList ++ ':' :: value)).isEmpty = false := by
    rw [List.isEmpty_eq_false_iff, Ne, Text.trim_eq_nil_iff]
    intro h
    exact absurd (h ':' (by simp)) (by decide)
  rw [Style.Clause.ofText, hne, Text.cut?_append p.not_mem_name.2]
  simp [ofName?_lowered_name]

end Property

theorem Style.ofBlock_clause (p : Property) {value : List Char} (h : ';' ∉ value) :
    ofBlock (p.name.toList ++ ':' :: value) = Outcome.ofExcept (p.declare (trim value)) := by
  have hclause : ';' ∉ p.name.toList ++ ':' :: value := by
    simpa [h] using p.not_mem_name.1
  rw [ofBlock_eq, Text.pieces_of_not_mem hclause, List.foldlM_cons, addText, p.clause_ofText]
  simp only [addClause, empty_merge, List.foldlM_nil, bind_pure]

namespace Reader

open Markup (Attribute)

/-! ## Attributes -/

theorem declare?_property (p : Property) (value : String) :
    declare? .empty ⟨p.name, value⟩ = some (Outcome.ofExcept (p.declare value.toList)) := by
  rw [declare?_of_property rfl]
  simp only [Style.merge_empty, id_map']

theorem declare?_block (value : String) :
    declare? .empty ⟨"style", value⟩ = some (Style.ofBlock value.toList) := by
  have hmerge : Style.empty.merge = id := funext Style.empty_merge
  rw [declare?_of_style rfl, hmerge, id_map]

/-- From the empty style, the attribute of a property and a block with this property only do the
same with every value that has no semicolon: both set the property to the same value, or both fail
with the same kind of error, of the value and of the trimmed value. Nothing is reported. -/
theorem declare?_clause (p : Property) {value : String} (h : ';' ∉ value.toList) :
    (∃ x, declare? .empty ⟨p.name, value⟩ = some (pure (.only p x)) ∧
      declare? .empty ⟨"style", p.name ++ ":" ++ value⟩ = some (pure (.only p x))) ∨
    (declare? .empty ⟨p.name, value⟩ = some (.fail (p.malformed value)) ∧
      declare? .empty ⟨"style", p.name ++ ":" ++ value⟩ =
        some (.fail (p.malformed (String.ofList (trim value.toList))))) := by
  have htext : (p.name ++ ":" ++ value).toList = p.name.toList ++ ':' :: value.toList := by
    simp [String.toList_append]
  rw [declare?_property, declare?_block, htext, Style.ofBlock_clause p h, p.declare_eq, p.declare_eq,
    p.read_eq, p.read_eq, Text.trim_trim, String.ofList_toList]
  cases p.ofTrimmed? (trim value.toList) with
  | some x => exact .inl ⟨x, rfl, rfl⟩
  | none => exact .inr ⟨rfl, rfl⟩

theorem declare?_clause_padded :
    (declare? .empty ⟨"stroke", " a:b\t"⟩ = some (.fail (.invalidColor " a:b\t")) ∧
      declare? .empty ⟨"style", "stroke: a:b\t"⟩ = some (.fail (.invalidColor "a:b"))) ∧
    ∃ x, declare? .empty ⟨"stroke-width", " 2 px"⟩ = some (pure (.only .strokeWidth x)) ∧
      declare? .empty ⟨"style", "stroke-width: 2 px"⟩ = some (pure (.only .strokeWidth x)) := by
  refine ⟨?_, ?_⟩
  · obtain ⟨x, hx, -⟩ | hfail := declare?_clause .stroke (show ';' ∉ " a:b\t".toList by decide)
    · have herror : ((declare? .empty ⟨Property.stroke.name, " a:b\t"⟩).bind
          (·.error?)).isSome = true := by decide +kernel
      rw [hx] at herror
      cases herror
    · exact hfail
  · obtain hset | ⟨hfail, -⟩ :=
      declare?_clause .strokeWidth (show ';' ∉ " 2 px".toList by decide)
    · exact hset
    · have herror : (declare? .empty ⟨Property.strokeWidth.name, " 2 px"⟩).bind
          (·.error?) = none := by decide +kernel
      rw [hfail] at herror
      cases herror

end Reader

end IconCode
