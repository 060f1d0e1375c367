import IconCode.Markup.Entity

/-!
# Reading entities once

Entities are replaced one name after the other, each in the whole text. This is the same as going
through the text once: no character that a name stands for belongs to a later name, and the
ampersand, with which all of them begin, is put in last.

* `replace_decodeOnce`: replacing one more name is reading with one more name.
* `decode_escape`: what is escaped is read back.
* `decode_reads_once`: decoding is a single pass.
-/

namespace IconCode.Markup.Entity

variable {table : List (List Char × Char)} {e : List Char × Char}

/-! ## A single pass -/

/-- The text with the character of every name that is met on the way from its beginning to its end;
reading goes on behind the name. -/
def decodeOnce (table : List (List Char × Char)) : List Char → List Char
  | [] => []
  | c :: s =>
    match table.find? fun e => e.1.isPrefixOf (c :: s) with
    | some e => e.2 :: decodeOnce table (s.drop (e.1.length - 1))
    | none => c :: decodeOnce table s
termination_by s => s.length
decreasing_by
  · simp only [List.length_drop, List.length_cons]
    omega
  · simp

/-- The form of an entity: there is one ampersand, at its beginning. -/
def IsName (name : List Char) : Prop := ∃ letters, name = '&' :: letters ∧ '&' ∉ letters

/-- Whether one entity can be replaced before another one is looked for: it does not bring about
the other one, and no place in a text is the beginning of both. -/
def Apart (e e' : List Char × Char) : Prop := e.2 ∉ e'.1 ∧ ¬ e.1 <+: e'.1 ∧ ¬ e'.1 <+: e.1

theorem isName_of_mem_predefined (h : e ∈ predefined) : IsName e.1 := by
  simp only [predefined, List.mem_cons, List.not_mem_nil, or_false] at h
  rcases h with rfl | rfl | rfl | rfl | rfl <;> exact ⟨_, rfl, by decide⟩

theorem pairwise_apart_predefined : predefined.Pairwise Apart := by
  unfold Apart
  decide

/-! ## One name -/

theorem replaceFrom_eq_replace_drop (name : List Char) (c : Char) (skip : Nat) (s : List Char) :
    replaceFrom name c skip s = replace name c (s.drop skip) := by
  induction skip generalizing s with
  | zero => rfl
  | succ skip ih =>
    cases s with
    | nil => rfl
    | cons d s => exact ih s

theorem replace_append {name : List Char} (h : name ≠ []) (c : Char) (s : List Char) :
    replace name c (name ++ s) = c :: replace name c s := by
  obtain ⟨d, name, rfl⟩ := List.exists_cons_of_ne_nil h
  have hprefix : (d :: name).isPrefixOf (d :: (name ++ s)) = true :=
    List.isPrefixOf_iff_prefix.2 (List.prefix_append _ _)
  rw [replace, List.cons_append, replaceFrom, if_pos hprefix, replaceFrom_eq_replace_drop]
  simp

theorem replace_cons {name : List Char} {d : Char} {s : List Char} (h : ¬ name <+: d :: s)
    (c : Char) : replace name c (d :: s) = d :: replace name c s := by
  rw [replace, replaceFrom, if_neg (mt List.isPrefixOf_iff_prefix.1 h)]
  rfl

theorem decodeOnce_append {name s : List Char} {c : Char} (h : name ≠ [])
    (hfind : table.find? (fun e => e.1.isPrefixOf (name ++ s)) = some (name, c)) :
    decodeOnce table (name ++ s) = c :: decodeOnce table s := by
  obtain ⟨d, name, rfl⟩ := List.exists_cons_of_ne_nil h
  rw [List.cons_append] at hfind ⊢
  rw [decodeOnce, hfind]
  simp

theorem decodeOnce_cons {d : Char} {s : List Char} (h : ∀ e ∈ table, ¬ e.1 <+: d :: s) :
    decodeOnce table (d :: s) = d :: decodeOnce table s := by
  have hfind : table.find? (fun e => e.1.isPrefixOf (d :: s)) = none := by
    rw [List.find?_eq_none]
    exact fun e he hp => h e he (List.isPrefixOf_iff_prefix.1 hp)
  rw [decodeOnce, hfind]

/-- Texts are made up of the names that a pass meets and of the characters between them. -/
theorem text_induction {motive : List Char → Prop} (table : List (List Char × Char))
    (hne : ∀ e ∈ table, e.1 ≠ []) (nil : motive [])
    (char : ∀ c s, (∀ e ∈ table, ¬ e.1 <+: c :: s) → motive s → motive (c :: s))
    (name : ∀ e s, table.find? (fun d => d.1.isPrefixOf (e.1 ++ s)) = some e → motive s →
      motive (e.1 ++ s)) (s : List Char) : motive s := by
  cases s with
  | nil => exact nil
  | cons c s =>
    cases hfind : table.find? fun d => d.1.isPrefixOf (c :: s) with
    | none =>
      rw [List.find?_eq_none] at hfind
      exact char c s (fun e he hp => hfind e he (List.isPrefixOf_iff_prefix.2 hp))
        (text_induction table hne nil char name s)
    | some e =>
      have hp : e.1.isPrefixOf (c :: s) = true := by simpa using List.find?_some hfind
      obtain ⟨r, hr⟩ := List.isPrefixOf_iff_prefix.1 hp
      have hpos : 0 < e.1.length :=
        List.length_pos_iff.2 (hne e (List.mem_of_find?_eq_some hfind))
      rw [← hr] at hfind ⊢
      exact name e r hfind (text_induction table hne nil char name r)
termination_by s.length
decreasing_by
  · simp
  · simp only [← hr, List.length_append]
    omega

/-- Of names that are apart only one begins at a place. -/
theorem Apart.not_prefix_append {e e' : List Char × Char} (h : Apart e e') (s : List Char) :
    ¬ e.1 <+: e'.1 ++ s := by
  intro hp
  rcases List.prefix_or_prefix_of_prefix hp (List.prefix_append e'.1 s) with hp | hp
  · exact h.2.1 hp
  · exact h.2.2 hp

theorem find?_append_of_apart (h : ∀ d ∈ table, Apart d e) (s : List Char) :
    (table ++ [e]).find? (fun d => d.1.isPrefixOf (e.1 ++ s)) = some e := by
  have hnone : table.find? (fun d => d.1.isPrefixOf (e.1 ++ s)) = none := by
    rw [List.find?_eq_none]
    exact fun d hd hp => (h d hd).not_prefix_append s (List.isPrefixOf_iff_prefix.1 hp)
  have hself : e.1.isPrefixOf (e.1 ++ s) = true :=
    List.isPrefixOf_iff_prefix.2 (List.prefix_append _ _)
  rw [List.find?_append, hnone, Option.none_or, List.find?_singleton, if_pos hself]

/-! ## One more name -/

theorem IsName.ne_nil {name : List Char} (h : IsName name) : name ≠ [] := by
  obtain ⟨letters, rfl, -⟩ := h
  simp

theorem IsName.head_of_begins {name s : List Char} {c : Char} (h : IsName name)
    (hp : name <+: c :: s) : c = '&' ∧ c ∈ name := by
  obtain ⟨letters, rfl, -⟩ := h
  obtain rfl := (List.cons_prefix_cons.1 hp).1
  exact ⟨rfl, List.mem_cons_self⟩

/-- What is neither part of a name nor put in for one is read as it is. -/
theorem prefix_decodeOnce_iff {t : List Char} (hnames : ∀ e ∈ table, IsName e.1) (hamp : '&' ∉ t)
    (hnew : ∀ e ∈ table, e.2 ∉ t) (s : List Char) : t <+: decodeOnce table s ↔ t <+: s := by
  induction s using text_induction table fun e he => (hnames e he).ne_nil generalizing t with
  | nil => simp [decodeOnce]
  | char c s hnone ih =>
    rw [decodeOnce_cons hnone]
    cases t with
    | nil => simp
    | cons a t =>
      rw [List.cons_prefix_cons, List.cons_prefix_cons,
        ih (List.not_mem_of_not_mem_cons hamp) fun e he => List.not_mem_of_not_mem_cons (hnew e he)]
  | name e s hfind _ =>
    -- The text goes on with an ampersand, and the pass with a character of the table.
    have he := List.mem_of_find?_eq_some hfind
    obtain ⟨letters, hletters, -⟩ := hnames e he
    rw [decodeOnce_append (hnames e he).ne_nil hfind, hletters, List.cons_append]
    cases t with
    | nil => simp
    | cons a t =>
      have hamp' : a ≠ '&' := fun h => hamp (by simp [h])
      have hnew' : a ≠ e.2 := fun h => hnew e he (by simp [h])
      simp [List.cons_prefix_cons, hamp', hnew']

/-- A text without ampersands is copied. -/
theorem decodeOnce_copy {t : List Char} (hnames : ∀ e ∈ table, IsName e.1) (ht : '&' ∉ t)
    (s : List Char) : decodeOnce table (t ++ s) = t ++ decodeOnce table s := by
  induction t with
  | nil => rfl
  | cons d t ih =>
    have hnone : ∀ e ∈ table, ¬ e.1 <+: d :: (t ++ s) := by
      intro e he hp
      exact ht (by simp [((hnames e he).head_of_begins hp).1])
    rw [List.cons_append, decodeOnce_cons hnone, ih (List.not_mem_of_not_mem_cons ht),
      List.cons_append]

/-- So is a name that is not in the table. -/
theorem decodeOnce_name_append (hnames : ∀ d ∈ table, IsName d.1) (hname : IsName e.1)
    (hapart : ∀ d ∈ table, Apart d e) (s : List Char) :
    decodeOnce table (e.1 ++ s) = e.1 ++ decodeOnce table s := by
  have hnone : ∀ d ∈ table, ¬ d.1 <+: e.1 ++ s := fun d hd => (hapart d hd).not_prefix_append s
  obtain ⟨letters, hletters, hamp⟩ := hname
  rw [hletters, List.cons_append] at hnone ⊢
  rw [decodeOnce_cons hnone, decodeOnce_copy hnames hamp, List.cons_append]

theorem prefix_cons_decodeOnce_iff (hnames : ∀ d ∈ table, IsName d.1) (hname : IsName e.1)
    (hapart : ∀ d ∈ table, Apart d e) (c : Char) (s : List Char) :
    e.1 <+: c :: decodeOnce table s ↔ e.1 <+: c :: s := by
  obtain ⟨letters, hletters, hamp⟩ := hname
  have hnew : ∀ d ∈ table, d.2 ∉ letters := by
    intro d hd hm
    exact (hapart d hd).1 (by simp [hletters, hm])
  rw [hletters, List.cons_prefix_cons, List.cons_prefix_cons,
    prefix_decodeOnce_iff hnames hamp hnew]

/-- Replacing one more name is reading with one more name. -/
theorem replace_decodeOnce (hnames : ∀ d ∈ table, IsName d.1) (hname : IsName e.1)
    (hapart : ∀ d ∈ table, Apart d e) (s : List Char) :
    replace e.1 e.2 (decodeOnce table s) = decodeOnce (table ++ [e]) s := by
  have hall : ∀ d ∈ table ++ [e], d.1 ≠ [] := by
    intro d hd
    rcases List.mem_append.1 hd with hd | hd
    · exact (hnames d hd).ne_nil
    · exact List.mem_singleton.1 hd ▸ hname.ne_nil
  induction s using text_induction (table ++ [e]) hall with
  | nil => simp [decodeOnce, replace, replaceFrom]
  | char c s hnone ih =>
    have htable : ∀ d ∈ table, ¬ d.1 <+: c :: s := fun d hd => hnone d (by simp [hd])
    have hself : ¬ e.1 <+: c :: decodeOnce table s := by
      rw [prefix_cons_decodeOnce_iff hnames hname hapart]
      exact hnone e (by simp)
    rw [decodeOnce_cons htable, replace_cons hself, decodeOnce_cons hnone, ih]
  | name d s hfind ih =>
    have hd := hall d (List.mem_of_find?_eq_some hfind)
    rw [decodeOnce_append hd hfind, ← ih]
    rw [List.find?_append, Option.or_eq_some_iff] at hfind
    rcases hfind with hfirst | ⟨-, hlast⟩
    · -- The name has been replaced already, by a character that no name begins with.
      have hmem := List.mem_of_find?_eq_some hfirst
      have hchar : ¬ e.1 <+: d.2 :: decodeOnce table s := fun hp =>
        (hapart d hmem).1 (hname.head_of_begins hp).2
      rw [decodeOnce_append hd hfirst, replace_cons hchar]
    · obtain rfl : d = e := List.mem_singleton.1 (List.mem_of_find?_eq_some hlast)
      rw [decodeOnce_name_append hnames hname hapart, replace_append hname.ne_nil]

/-! ## All names -/

theorem decodeOnce_nil (s : List Char) : decodeOnce [] s = s := by
  induction s with
  | nil => simp [decodeOnce]
  | cons c s ih => rw [decodeOnce_cons (by simp), ih]

theorem foldl_replace_decodeOnce (table rest : List (List Char × Char))
    (hnames : ∀ e ∈ table ++ rest, IsName e.1) (hapart : (table ++ rest).Pairwise Apart)
    (s : List Char) :
    rest.foldl (fun s e => replace e.1 e.2 s) (decodeOnce table s) =
      decodeOnce (table ++ rest) s := by
  induction rest generalizing table with
  | nil => simp
  | cons e rest ih =>
    have hbefore : ∀ d ∈ table, Apart d e := fun d hd =>
      (List.pairwise_append.1 hapart).2.2 d hd e (by simp)
    have hstep := replace_decodeOnce (fun d hd => hnames d (by simp [hd])) (hnames e (by simp))
      hbefore s
    rw [List.append_cons] at hnames hapart ⊢
    rw [List.foldl_cons, hstep, ih (table ++ [e]) hnames hapart]

theorem decode_eq_decodeOnce (s : List Char) : decode s = decodeOnce predefined s := by
  have h := foldl_replace_decodeOnce [] predefined (fun e he => isName_of_mem_predefined he)
    pairwise_apart_predefined s
  rwa [decodeOnce_nil] at h

example : decode "&amp;lt; &quot;".toList = "&lt; \"".toList := by decide

/-- Only nothing is decoded to nothing. -/
theorem decode_eq_nil_iff (s : List Char) : decode s = [] ↔ s = [] := by
  have hne : ∀ e ∈ predefined, e.1 ≠ [] := fun e he => (isName_of_mem_predefined he).ne_nil
  rw [decode_eq_decodeOnce]
  cases s using text_induction predefined hne with
  | nil => simp [decodeOnce]
  | char c s hnone => simp [decodeOnce_cons hnone]
  | name e s hfind =>
    have he := hne e (List.mem_of_find?_eq_some hfind)
    simp [decodeOnce_append he hfind, he]

theorem decodeOnce_of_not_infix {s : List Char} (h : ∀ e ∈ table, ¬ e.1 <:+: s) :
    decodeOnce table s = s := by
  induction s with
  | nil => simp [decodeOnce]
  | cons c s ih =>
    have hnone : ∀ e ∈ table, ¬ e.1 <+: c :: s := fun e he hp => h e he hp.isInfix
    rw [decodeOnce_cons hnone, ih fun e he hi => h e he (List.infix_cons hi)]

/-! ## Escaping -/

/-- A character as it can stand in markup. -/
def escapeChar : Char → List Char
  | '&' => ['&', 'a', 'm', 'p', ';']
  | '<' => ['&', 'l', 't', ';']
  | '>' => ['&', 'g', 't', ';']
  | '"' => ['&', 'q', 'u', 'o', 't', ';']
  | '\'' => ['&', 'a', 'p', 'o', 's', ';']
  | c => [c]

/-- A text with every character that has an entity written as that entity. -/
def escape (s : List Char) : List Char := s.flatMap escapeChar

theorem escapeChar_eq (c : Char) :
    (escapeChar c, c) ∈ predefined ∨ c ≠ '&' ∧ escapeChar c = [c] := by
  unfold escapeChar
  split
  · exact .inl (by decide)
  · exact .inl (by decide)
  · exact .inl (by decide)
  · exact .inl (by decide)
  · exact .inl (by decide)
  · exact .inr ⟨by assumption, rfl⟩

theorem decodeOnce_name (he : e ∈ predefined) (s : List Char) :
    decodeOnce predefined (e.1 ++ s) = e.2 :: decodeOnce predefined s := by
  have hfind : predefined.find? (fun d => d.1.isPrefixOf (e.1 ++ s)) = some e := by
    obtain ⟨before, after, hsplit⟩ := List.append_of_mem he
    have hpairwise := pairwise_apart_predefined
    rw [hsplit, List.pairwise_append] at hpairwise
    have hfirst := find?_append_of_apart (fun d hd => hpairwise.2.2 d hd e (by simp)) s
    rw [hsplit, List.append_cons, List.find?_append, hfirst, Option.some_or]
  exact decodeOnce_append (isName_of_mem_predefined he).ne_nil hfind

theorem decode_escape (s : List Char) : decode (escape s) = s := by
  rw [decode_eq_decodeOnce]
  induction s with
  | nil => simp [escape, decodeOnce]
  | cons c s ih =>
    rw [escape, List.flatMap_cons, ← escape]
    rcases escapeChar_eq c with hc | ⟨hamp, hc⟩
    · rw [decodeOnce_name hc, ih]
    · have hmem : '&' ∉ [c] := by simpa using hamp.symm
      rw [hc, decodeOnce_copy (fun e he => isName_of_mem_predefined he) hmem, ih,
        List.singleton_append]

/-- Decoding undoes escaping, and it is a single pass over the text, from left to right, that
replaces the entities of the text and copies everything else. A text without entities stays as it
is. -/
theorem decode_reads_once (s : List Char) :
    decode (escape s) = s ∧ decode s = decodeOnce predefined s ∧
      ((∀ e ∈ predefined, ¬ e.1 <:+: s) → decode s = s) := by
  refine ⟨decode_escape s, decode_eq_decodeOnce s, ?_⟩
  intro h
  rw [decode_eq_decodeOnce]
  exact decodeOnce_of_not_infix h

end IconCode.Markup.Entity
