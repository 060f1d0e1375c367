import IconCode.Proofs.Generate

/-!
# Where a document is read from

Text, its bytes, these bytes in pieces from a stream and a file of them are one source: the same
document or error, and the same diagnostics. Bytes that are no text and streams that fail are errors
before any diagnostics.

* `gatherBytes_of_delivers`, `gatherBytes_of_breaks`: what comes of a stream.
* `decode_error_iff`: which bytes are no text.
* `isStem_stem`: what a file without a title is called.
* `sources_agree`: all sources of a text, of other bytes, and streams that fail.
-/

namespace IconCode.Reader

variable (scan : Markup.Scanner)

/-! ## Streams -/

/-- What a stream hands out until its end, in pieces that are not empty. Requests may be interrupted
in between. -/
inductive Delivers : List Delivery → List ByteArray → Prop where
  | exhausted : Delivers [] []
  | ended {chunk : ByteArray} (rest : List Delivery) (h : chunk.isEmpty = true) :
      Delivers (.bytes chunk :: rest) []
  | interrupted {ds : List Delivery} {chunks : List ByteArray} (h : Delivers ds chunks) :
      Delivers (.interrupted :: ds) chunks
  | chunk {ds : List Delivery} {chunk : ByteArray} {chunks : List ByteArray}
      (hc : chunk.isEmpty = false) (h : Delivers ds chunks) :
      Delivers (.bytes chunk :: ds) (chunk :: chunks)

/-- Whether a request fails before the end of a stream, and why. -/
inductive Breaks : List Delivery → String → Prop where
  | failed (reason : String) (rest : List Delivery) : Breaks (.failed reason :: rest) reason
  | interrupted {ds : List Delivery} {reason : String} (h : Breaks ds reason) :
      Breaks (.interrupted :: ds) reason
  | chunk {ds : List Delivery} {chunk : ByteArray} {reason : String}
      (hc : chunk.isEmpty = false) (h : Breaks ds reason) :
      Breaks (.bytes chunk :: ds) reason

/-- The pieces put together. -/
def joined (chunks : List ByteArray) : ByteArray := chunks.foldr (· ++ ·) .empty

theorem gatherBytes_of_delivers {ds : List Delivery} {chunks : List ByteArray}
    (h : Delivers ds chunks) : gatherBytes ds = .ok (joined chunks) := by
  induction h with
  | exhausted => rfl
  | ended rest h => simp [gatherBytes, h, joined]
  | interrupted _ ih => exact ih
  | chunk hc _ ih => simp [gatherBytes, hc, ih, joined]

theorem gatherBytes_of_breaks {ds : List Delivery} {reason : String} (h : Breaks ds reason) :
    gatherBytes ds = .error (.inaccessible (.failed reason)) := by
  induction h with
  | failed reason rest => rfl
  | interrupted _ ih => exact ih
  | chunk hc _ ih => simp [gatherBytes, hc, ih]

theorem ofStream_of_delivers {ds : List Delivery} {chunks : List ByteArray}
    (h : Delivers ds chunks) : ofStream scan ds = ofBytes scan (joined chunks) := by
  rw [ofStream, gatherBytes_of_delivers h]

theorem ofStream_of_breaks {ds : List Delivery} {reason : String} (h : Breaks ds reason) :
    ofStream scan ds = Outcome.fail (.inaccessible (.failed reason)) := by
  rw [ofStream, gatherBytes_of_breaks h]

/-! ## Bytes -/

theorem toUTF8_of_fromUTF8? {bytes : ByteArray} {s : String}
    (h : String.fromUTF8? bytes = some s) : s.toUTF8 = bytes := by
  unfold String.fromUTF8? at h
  split at h
  · cases h
    rfl
  · cases h

/-- Bytes are not decoded exactly if they are the bytes of no text. -/
theorem decode_error_iff (bytes : ByteArray) :
    (∃ fault, Text.Utf8.decode bytes = .error fault) ↔ ∀ s : String, s.toUTF8 ≠ bytes := by
  unfold Text.Utf8.decode
  cases hs : String.fromUTF8? bytes with
  | none =>
    refine ⟨?_, fun _ => ⟨_, rfl⟩⟩
    rintro - s rfl
    rw [Text.Utf8.fromUTF8?_toUTF8] at hs
    cases hs
  | some s =>
    have htext := toUTF8_of_fromUTF8? hs
    refine ⟨?_, fun h => absurd htext (h s)⟩
    rintro ⟨fault, h⟩
    cases h

/-! ## Files -/

/-- What a file is called without its extension: what stands before the last point of its name,
unless that is nothing or there is no point. -/
inductive IsStem (name : List Char) : List Char → Prop where
  | whole (h : '.' ∉ name) : IsStem name name
  | hidden {rest : List Char} (h : name = '.' :: rest) (hr : '.' ∉ rest) : IsStem name name
  | before {front extension : List Char} (h : name = front ++ '.' :: extension) (hf : front ≠ [])
      (he : '.' ∉ extension) : IsStem name front

theorem dropWhile_append_of_not_mem {s : List Char} (h : '.' ∉ s) (rest : List Char) :
    (s ++ rest).dropWhile (· != '.') = rest.dropWhile (· != '.') := by
  refine List.dropWhile_append_of_pos ?_
  intro c hc
  rw [bne_iff_ne]
  rintro rfl
  exact h hc

theorem stem_of_not_mem {name : List Char} (h : '.' ∉ name) : stem name = name := by
  have hnone : name.reverse.dropWhile (· != '.') = [] := by
    have hskip := dropWhile_append_of_not_mem (mt List.mem_reverse.1 h) []
    rwa [List.append_nil] at hskip
  rw [stem, hnone]
  rfl

/-- A name with a point is divided at the last one. -/
theorem stem_append (front : List Char) {extension : List Char} (h : '.' ∉ extension) :
    stem (front ++ '.' :: extension) =
      if front.isEmpty then front ++ '.' :: extension else front := by
  have hpoint : ((front ++ '.' :: extension).reverse.dropWhile (· != '.')).reverse =
      front ++ ['.'] := by
    rw [List.reverse_append, List.reverse_cons, List.append_assoc,
      dropWhile_append_of_not_mem (mt List.mem_reverse.1 h)]
    simp
  rw [stem, hpoint]
  cases front with
  | nil => rfl
  | cons c front =>
    simp only [List.cons_append]
    rw [← List.cons_append, List.dropLast_concat]

theorem isStem_stem (name : List Char) : IsStem name (stem name) := by
  by_cases hpoint : '.' ∈ name
  · obtain ⟨after, before, hname, hafter⟩ :=
      List.eq_append_cons_of_mem (List.mem_reverse.2 hpoint)
    have hsplit : name = before.reverse ++ '.' :: after.reverse := by
      simpa using congrArg List.reverse hname
    have hextension : '.' ∉ after.reverse := mt List.mem_reverse.1 hafter
    rw [hsplit, stem_append _ hextension]
    cases hbefore : before.reverse with
    | nil => exact .hidden rfl hextension
    | cons c front => exact .before rfl (by simp) hextension
  · rw [stem_of_not_mem hpoint]
    exact .whole hpoint

theorem ofFile_toUTF8 (name s : String) :
    ofFile scan name (.ok s.toUTF8) =
      (·.titled (String.ofList (stem name.toList))) <$> ofText scan s := by
  rw [ofFile, ofBytes_toUTF8]
  exact (map_eq_pure_bind _ _).symm

/-! ## Sources -/

/-- The text, its bytes, a stream of them in any pieces and a file of them are read alike, except
that a file without a title is called by the stem of its name. Bytes of no text are the same error
in all pieces, and a stream that breaks is an error of its own; neither is reported about. -/
theorem sources_agree :
    (∀ s : String,
      ofBytes scan s.toUTF8 = ofText scan s ∧
      (∀ ds chunks, Delivers ds chunks → joined chunks = s.toUTF8 →
        ofStream scan ds = ofText scan s) ∧
      ∀ name : String, ∃ title, IsStem name.toList title ∧
        ofFile scan name (.ok s.toUTF8) =
          (·.titled (String.ofList title)) <$> ofText scan s) ∧
    (∀ bytes : ByteArray, (∀ s : String, s.toUTF8 ≠ bytes) → ∃ fault,
      ofBytes scan bytes = ⟨[], .error (.invalidMarkup (.undecodable fault))⟩ ∧
      ∀ ds chunks, Delivers ds chunks → joined chunks = bytes →
        ofStream scan ds = ⟨[], .error (.invalidMarkup (.undecodable fault))⟩) ∧
    ∀ ds reason, Breaks ds reason →
      ofStream scan ds = ⟨[], .error (.inaccessible (.failed reason))⟩ := by
  refine ⟨?_, ?_, ?_⟩
  · intro s
    refine ⟨ofBytes_toUTF8 scan s, ?_, ?_⟩
    · intro ds chunks hds hjoined
      rw [ofStream_of_delivers scan hds, hjoined, ofBytes_toUTF8]
    · intro name
      exact ⟨_, isStem_stem _, ofFile_toUTF8 scan name s⟩
  · intro bytes hbytes
    obtain ⟨fault, hfault⟩ := (decode_error_iff bytes).2 hbytes
    have herror : ofBytes scan bytes = ⟨[], .error (.invalidMarkup (.undecodable fault))⟩ := by
      rw [ofBytes, hfault]
      rfl
    refine ⟨fault, herror, ?_⟩
    intro ds chunks hds hjoined
    rw [ofStream_of_delivers scan hds, hjoined, herror]
  · intro ds reason h
    exact ofStream_of_breaks scan h

/-- A drawing with a title of more bytes than characters, and an element to report about. -/
def accentedText : String := "<svg><title>\u00e9</title><bogus/></svg>"

/-- The bytes of the drawing, cut within a character. -/
def accentedCut : List ByteArray :=
  [accentedText.toUTF8.extract 0 13, accentedText.toUTF8.extract 13 accentedText.toUTF8.size]

/-- The pieces of the drawing, with an interruption between them. -/
def accentedStream : List Delivery :=
  (accentedCut.map .bytes).intersperse .interrupted

theorem delivers_accentedStream : Delivers accentedStream accentedCut :=
  .chunk (by decide +kernel) (.interrupted (.chunk (by decide +kernel) .exhausted))

/-- Bytes that end within a character, after an element to report about. -/
def cutShort : ByteArray := "<svg><bogus/>".toUTF8 ++ ⟨#[0xC3]⟩

/-- A stream that breaks after markup that is not well nested. -/
def brokenStream : List Delivery := [.bytes "<svg><bogus></a>".toUTF8, .interrupted, .failed "lost"]

theorem sources_agree_accented :
    (Delivers accentedStream accentedCut ∧ joined accentedCut = accentedText.toUTF8 ∧
      ofStream Markup.scan accentedStream = ofText Markup.scan accentedText) ∧
    ((∀ s : String, s.toUTF8 ≠ cutShort) ∧
      ∃ fault, ofStream Markup.scan [.bytes cutShort] =
        ⟨[], .error (.invalidMarkup (.undecodable fault))⟩) ∧
    Breaks brokenStream "lost" ∧
      ofStream Markup.scan brokenStream = ⟨[], .error (.inaccessible (.failed "lost"))⟩ := by
  obtain ⟨htext, hbytes, hbreaks⟩ := sources_agree Markup.scan
  have hjoined : joined accentedCut = accentedText.toUTF8 := by decide +kernel
  have hdecode : (Text.Utf8.decode cutShort).toOption = none := by decide +kernel
  have hcut : ∀ s : String, s.toUTF8 ≠ cutShort := by
    rw [← decode_error_iff]
    cases h : Text.Utf8.decode cutShort with
    | error fault => exact ⟨fault, rfl⟩
    | ok s => simp [h, Except.toOption] at hdecode
  have hone : Delivers [.bytes cutShort] [cutShort] := .chunk (by decide +kernel) .exhausted
  have hbroken : Breaks brokenStream "lost" :=
    .chunk (by decide +kernel) (.interrupted (.failed _ _))
  obtain ⟨fault, -, hstream⟩ := hbytes cutShort hcut
  refine ⟨⟨delivers_accentedStream, hjoined, ?_⟩, ⟨hcut, fault, ?_⟩, hbroken, ?_⟩
  · exact (htext accentedText).2.1 _ _ delivers_accentedStream hjoined
  · exact hstream _ _ hone (by decide +kernel)
  · exact hbreaks _ _ hbroken

end IconCode.Reader
