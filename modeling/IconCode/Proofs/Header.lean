import IconCode.Proofs.Generate
import IconCode.Proofs.Reader.Title

/-!
# The header of generated code

A title is text of any kind, and the header of the code repeats it. Whatever it contains, the header
is one line and a comment, so that nothing of a title is read as code: below the header stands the
code that there is without it.

* `isComment_comment`: no title ends the comment.
* `belowFirstLine_append`: what stands below a comment.
* `ofDocument_congr`: of its title, an accessor depends on the name alone.
* `Document.render_below_comment`: rendering with a header and without one.
-/

namespace IconCode

/-! ## Lines -/

/-- A line that is a comment from its beginning, without any control character and so without an
end of line. -/
structure IsComment (line : String) : Prop where
  slashes : "//".toList <+: line.toList
  printed : ∀ c ∈ line.toList, isControl c = false

/-- What stands below the first line of a text. -/
def belowFirstLine (s : String) : String := String.ofList (s.toList.dropWhile (· ≠ '\n')).tail

theorem IsComment.newline_notMem {line : String} (h : IsComment line) : '\n' ∉ line.toList := by
  intro hmem
  have hcontrol : isControl '\n' = true := by decide
  rw [h.printed _ hmem] at hcontrol
  cases hcontrol

theorem belowFirstLine_append {line : String} (h : IsComment line) (code : String) :
    belowFirstLine (line ++ "\n" ++ code) = code := by
  have hkept : ∀ c ∈ line.toList, decide (c ≠ '\n') = true := by
    intro c hc
    rw [decide_eq_true_eq]
    rintro rfl
    exact h.newline_notMem hc
  have hdrop : (line.toList ++ '\n' :: code.toList).dropWhile (· ≠ '\n') = '\n' :: code.toList := by
    rw [List.dropWhile_append_of_pos hkept]
    rfl
  have htext : (line ++ "\n" ++ code).toList = line.toList ++ '\n' :: code.toList := by
    simp
  rw [belowFirstLine, htext, hdrop, List.tail_cons, String.ofList_toList]

/-! ## Headers -/

namespace Document

/-- The title with a blank for every control character. -/
def printedTitle (d : Document) : List Char :=
  d.title.toList.map fun c => if isControl c then ' ' else c

/-- The header without its end of line. -/
def comment (d : Document) : String :=
  "// Generated by vectorgen from \"" ++ String.ofList d.printedTitle ++ "\". Do not edit."

theorem header_eq (d : Document) : d.header = d.comment ++ "\n" := by
  have hend : "\". Do not edit.\n" = "\". Do not edit." ++ "\n" := by decide +kernel
  unfold header comment printedTitle
  dsimp only
  rw [hend, ← String.append_assoc]

theorem isControl_of_mem_printedTitle {d : Document} {c : Char} (h : c ∈ d.printedTitle) :
    isControl c = false := by
  obtain ⟨x, -, rfl⟩ := List.mem_map.1 h
  split
  · decide
  · rename_i hx
    simpa using hx

theorem isComment_comment (d : Document) : IsComment d.comment := by
  have hslashes : "// Generated by vectorgen from \"" =
      "//" ++ " Generated by vectorgen from \"" := by
    decide +kernel
  have hfront : "// Generated by vectorgen from \"".toList.all (!isControl ·) = true := by
    decide +kernel
  have hback : "\". Do not edit.".toList.all (!isControl ·) = true := by
    decide +kernel
  simp only [List.all_eq_true, Bool.not_eq_true'] at hfront hback
  constructor
  · unfold comment
    rw [hslashes, String.append_assoc, String.append_assoc, String.toList_append]
    exact List.prefix_append _ _
  · intro c hc
    unfold comment at hc
    rw [String.toList_append, String.toList_append, List.mem_append, List.mem_append] at hc
    rcases hc with (hc | hc) | hc
    · exact hfront c hc
    · rw [String.toList_ofList] at hc
      exact isControl_of_mem_printedTitle hc
    · exact hback c hc

/-! ## Rendering -/

/-- Of the title, an accessor depends on the name that it gives. -/
theorem ofDocument_congr {d other : Document} (hsame : other.untitled = d.untitled)
    (hname : Naming.Identifier.ofTitle? other.title = Naming.Identifier.ofTitle? d.title)
    (options : Options) : Accessor.ofDocument other options = Accessor.ofDocument d options := by
  have hchildren : other.untitled.children = d.untitled.children := by rw [hsame]
  have hsize : other.untitled.size = d.untitled.size := by rw [hsame]
  have hviewBox : other.untitled.viewBox = d.untitled.viewBox := by rw [hsame]
  simp only [untitled] at hchildren hsize hviewBox
  rw [Accessor.ofDocument, Accessor.ofDocument, hname, hchildren, hsize, hviewBox]

theorem code_congr {d other : Document} (hsame : other.untitled = d.untitled)
    (hname : Naming.Identifier.ofTitle? other.title = Naming.Identifier.ofTitle? d.title)
    (format : Code.Formatter) (options : Options) :
    other.code format options = d.code format options := by
  rw [code, code, tokens, tokens, ofDocument_congr hsame hname]

theorem render_plain (format : Code.Formatter) (d : Document) (options : Options) :
    d.render format { options with header := false } = d.code format options := by
  have hcode : d.code format { options with header := false } = d.code format options := rfl
  simp only [render, hcode, Bool.false_eq_true, if_false]
  cases d.code format options <;> rfl

theorem render_headed (format : Code.Formatter) (d : Document) (options : Options) :
    d.render format { options with header := true } =
      (d.code format options).map (d.comment ++ "\n" ++ ·) := by
  rw [render_header format d _ rfl, header_eq]
  exact congrArg _ (render_plain format d options)

/-- With its first line taken away, the code with a header is the code without one. -/
theorem map_belowFirstLine_render (format : Code.Formatter) (d : Document) (options : Options) :
    (d.render format { options with header := true }).map belowFirstLine =
      d.code format options := by
  have hbelow : ∀ code, belowFirstLine (d.comment ++ "\n" ++ code) = code :=
    belowFirstLine_append d.isComment_comment
  rw [render_headed]
  cases d.code format options with
  | error e => rfl
  | ok code => exact congrArg Except.ok (hbelow code)

/-- Rendering with a header fails as it does without one, be it that the formatter refuses the code.
Otherwise it gives one line that is a comment, whatever the title contains, and below it the code
without the header. Documents that differ in their titles only, with the same name, have the same
code apart from that line. -/
theorem render_below_comment (format : Code.Formatter) (d : Document) (options : Options) :
    (∀ e, d.render format { options with header := true } = .error e ↔
        d.render format { options with header := false } = .error e) ∧
      (∃ line, IsComment line ∧
        ∀ text, d.render format { options with header := true } = .ok text ↔
          ∃ code, d.render format { options with header := false } = .ok code ∧
            text = line ++ "\n" ++ code) ∧
      ∀ other : Document, other.untitled = d.untitled →
        Naming.Identifier.ofTitle? other.title = Naming.Identifier.ofTitle? d.title →
          other.render format { options with header := false } =
              d.render format { options with header := false } ∧
            (other.render format { options with header := true }).map belowFirstLine =
              (d.render format { options with header := true }).map belowFirstLine := by
  refine ⟨?_, ⟨d.comment, d.isComment_comment, ?_⟩, ?_⟩
  · intro e
    rw [render_headed, render_plain]
    cases d.code format options <;> simp [Except.map]
  · intro text
    rw [render_headed, render_plain, map_ok_iff]
    simp only [eq_comm]
  · intro other hsame hname
    have hcode := code_congr hsame hname format options
    refine ⟨?_, ?_⟩
    · rw [render_plain, render_plain, hcode]
    · rw [map_belowFirstLine_render, map_belowFirstLine_render, hcode]

/-- A title that would go on with code of its own if its line ended. -/
def brokenTitle : Document := { title := "Note\n\u0085*/ Tag" }

theorem render_below_comment_broken :
    ∃ line code, IsComment line ∧
      brokenTitle.render layout { header := true } = .ok (line ++ "\n" ++ code) ∧
      Document.render layout { title := "note tag" } { header := false } = .ok code := by
  have hname : Naming.Identifier.ofTitle? "note tag" =
      Naming.Identifier.ofTitle? brokenTitle.title := by
    decide +kernel
  have hfault : brokenTitle.drawError? = none := by decide +kernel
  obtain ⟨code, hcode⟩ := exists_render_eq_ok accepts_layout hfault { header := false }
  obtain ⟨-, ⟨line, hline, htext⟩, hother⟩ :=
    render_below_comment layout brokenTitle { header := false }
  refine ⟨line, code, hline, (htext _).2 ⟨code, hcode, rfl⟩, ?_⟩
  rw [← hcode]
  exact (hother { title := "note tag" } rfl hname).1

end Document

end IconCode
