import CueScript.Proofs.Syntax.Cursor
import CueScript.Proofs.Syntax.Name
import CueScript.Syntax.LoopHeader

/-!
# CueScript.Proofs.Syntax.LoopHeader — the grammar of loop headers

1. **Grammar**: `HeaderSpelled` lists the written forms of a header together with the pieces that
   each form shows; `Denotes` says which header the pieces stand for.
2. **Soundness**: what is read as a header has a written form with the pieces that were cut out.
3. **Completeness**: every written form is read, with exactly its pieces, so no text has two.
4. **Padding**: blanks around a header neither make nor break a written form.
5. **Exactness**: `loopHeader_parse_exact` puts both together and settles all other texts.
-/

namespace CueScript.Syntax

/-! ## Grammar -/

/-- The part of a header that shows the control variables: one token, or two with a comma between
them. A gap must stand behind the last token; blanks around the comma are free. -/
inductive VarsSpelled : List Char → List Char → Option (List Char) → Prop where
  | one {t w : List Char} (token : IsToken t) (gap : Text.Gap w) : VarsSpelled (t ++ w) t none
  | two {t₁ w₂ w₃ t₂ w₄ : List Char} (first : IsToken t₁) (before : Text.Blanks w₂)
      (after : Text.Blanks w₃) (second : IsToken t₂) (gap : Text.Gap w₄) :
      VarsSpelled (t₁ ++ w₂ ++ [','] ++ w₃ ++ t₂ ++ w₄) t₁ (some t₂)

/-- The written forms of a header with their pieces: `for`, the control variables, `in` and an
expression, with gaps between them and padding around the whole. -/
def HeaderSpelled (header : List Char) (p : HeaderPieces) : Prop :=
  ∃ w₀ w₁ vars w₅ w₆, Text.Blanks w₀ ∧ Text.Gap w₁ ∧ VarsSpelled vars p.first p.second ∧
    Text.Gap w₅ ∧ Text.Blanks w₆ ∧ p.expression ≠ [] ∧ Text.Tight p.expression ∧
    header = w₀ ++ ['f', 'o', 'r'] ++ w₁ ++ vars ++ ['i', 'n'] ++ w₅ ++ p.expression ++ w₆

/-- The header that pieces stand for: the names that the tokens spell, and the expression as it is
written. -/
def Denotes (p : HeaderPieces) (h : LoopHeader) : Prop :=
  h.expression = String.ofList p.expression ∧
  match p.second with
  | none => ∃ n, parseName (String.ofList p.first) = .ok n ∧ h.vars = .single n
  | some t => ∃ n m, parseName (String.ofList p.first) = .ok n ∧
      parseName (String.ofList t) = .ok m ∧ h.vars = .pair n m

/-- A token of a header always spells a name. -/
theorem IsToken.exists_name {t : List Char} (ht : IsToken t) :
    ∃ n, parseName (String.ofList t) = .ok n := by
  rcases ht.exists_cons with ⟨inner, rfl⟩
  exact exists_parseName_of_dollar String.toList_ofList

/-- Spelled control variables start with their first token. -/
theorem VarsSpelled.exists_first {vars first : List Char} {second : Option (List Char)}
    (h : VarsSpelled vars first second) : ∃ inner, vars = '$' :: inner ∧ IsToken first := by
  cases h with
  | one token gap =>
      rcases token.exists_cons with ⟨inner, rfl⟩
      exact ⟨_, rfl, token⟩
  | two token before after second gap =>
      rcases token.exists_cons with ⟨inner, rfl⟩
      exact ⟨_, rfl, token⟩

/-- The second token, if there is one, is a token. -/
theorem VarsSpelled.isToken_second {vars first t : List Char}
    (h : VarsSpelled vars first (some t)) : IsToken t := by
  cases h with
  | two token before after second gap => exact second

/-! ## Soundness -/

/-- Behind the first token either nothing is read, or a comma and a second token with the blanks
around it. -/
theorem secondToken?_sound {spaced spaced' : Bool} {c d : Cursor} {second : Option (List Char)}
    (h : secondToken? spaced c = some (second, spaced', d)) :
    (second = none ∧ spaced' = spaced ∧ d = c) ∨
    ∃ t w₃ w₄, second = some t ∧ IsToken t ∧ Text.Blanks w₃ ∧ Text.Blanks w₄ ∧
      c.rest = [','] ++ w₃ ++ t ++ w₄ ++ d.rest ∧ (spaced' = true → w₄ ≠ []) := by
  rw [secondToken?] at h
  split at h
  · next r hcomma =>
    right
    have hone : (c.advance 1).rest = r := Cursor.rest_advance_of_rest (w := [',']) hcomma
    rcases Cursor.exists_skipBlanks (c.advance 1) with ⟨w₃, hw₃, hrest₃, -, -⟩
    split at h
    · next t e hread =>
      obtain ⟨ht, hsplit⟩ := Cursor.isToken_of_readToken hread
      rcases Cursor.exists_skipBlanks e with ⟨w₄, hw₄, hrest₄, -, hspaced⟩
      simp only [Option.some.injEq, Prod.mk.injEq] at h
      obtain ⟨rfl, hskip⟩ := h
      rw [hskip] at hrest₄ hspaced
      refine ⟨t, w₃, w₄, rfl, ht, hw₃, hw₄, ?_, hspaced.1⟩
      rw [hcomma, ← hone, hrest₃, hsplit, hrest₄]
      simp
    · simp at h
  · simp only [Option.some.injEq, Prod.mk.injEq] at h
    exact .inl ⟨h.1.symm, h.2.1.symm, h.2.2.symm⟩

/-- The tokens that are read, with a blank before what follows, are spelled control variables. -/
theorem varsSpelled_of_read {c c' d : Cursor} {first : List Char} {second : Option (List Char)}
    (hfirst : c.readToken = (some first, c'))
    (hsecond : secondToken? c'.skipBlanks.1 c'.skipBlanks.2 = some (second, true, d)) :
    ∃ vars, VarsSpelled vars first second ∧ c.rest = vars ++ d.rest := by
  obtain ⟨htoken, hrest⟩ := Cursor.isToken_of_readToken hfirst
  rcases Cursor.exists_skipBlanks c' with ⟨w₂, hw₂, hrest₂, -, hspaced⟩
  rcases secondToken?_sound hsecond with
    ⟨rfl, hgap, rfl⟩ | ⟨t, w₃, w₄, rfl, ht, hw₃, hw₄, hrest₄, hgap⟩
  · -- one variable: the gap is the one behind its token
    refine ⟨first ++ w₂, .one htoken ⟨hw₂, hspaced.1 hgap.symm⟩, ?_⟩
    rw [hrest, hrest₂, List.append_assoc]
  · -- two variables: the gap follows the second token
    refine ⟨first ++ w₂ ++ [','] ++ w₃ ++ t ++ w₄, .two htoken hw₂ hw₃ ht ⟨hw₄, hgap rfl⟩, ?_⟩
    rw [hrest, hrest₂, hrest₄]
    simp

/-- Behind a passed keyword there is a gap. -/
theorem gap_of_eatKeyword {k : List Char} {c d : Cursor} (h : c.eatKeyword k = (true, d)) :
    ∃ w, Text.Gap w ∧ c.rest = k ++ w ++ d.skipBlanks.2.rest ∧
      Text.TightStart d.skipBlanks.2.rest := by
  obtain ⟨b, r, hb, hrest, rfl⟩ := Cursor.eatKeyword_eq_true_iff.1 h
  rcases Cursor.exists_skipBlanks (c.advance k.length) with ⟨w, hw, hsplit, htight, -⟩
  rw [Cursor.rest_advance_of_rest hrest] at hsplit
  refine ⟨w, hw.gap htight hb hsplit, ?_, htight⟩
  rw [hrest, List.append_assoc, hsplit]

/-- What is read as a header is one, with the pieces that were cut out of it. -/
theorem headerSpelled_of_pieces {header : List Char} {p : HeaderPieces}
    (h : headerPieces? header = some p) : HeaderSpelled header p := by
  -- each test of the reader that holds shows one more part of the header
  unfold headerPieces? at h
  dsimp only at h
  rcases Cursor.exists_skipBlanks (Cursor.start header) with ⟨w₀, hw₀, hrest₀, -, -⟩
  split at h
  · next c hfor =>
    rcases gap_of_eatKeyword hfor with ⟨w₁, hw₁, hrest₁, -⟩
    split at h
    · next first c' hfirst =>
      simp only [Option.bind_eq_bind, Option.bind_eq_some_iff] at h
      obtain ⟨⟨second, spaced, d⟩, hsecond, h⟩ := h
      split at h
      · next e hin =>
        simp only [Prod.mk.injEq, Bool.and_eq_true] at hin
        obtain ⟨⟨rfl, hkey⟩, hpassed⟩ := hin
        rcases varsSpelled_of_read hfirst hsecond with ⟨vars, hvars, hrest₂⟩
        rcases gap_of_eatKeyword (Prod.ext hkey hpassed) with ⟨w₅, hw₅, hrest₅, htight⟩
        split at h
        · simp at h
        · next hne =>
          obtain rfl := Option.some.inj h
          -- the expression starts where the last gap ends, so only its end is trimmed
          rcases Text.exists_trimEnd e.skipBlanks.2.rest with ⟨w₆, hw₆, hrest₆, hend⟩
          refine ⟨w₀, w₁, vars, w₅, w₆, hw₀, hw₁, hvars, hw₅, hw₆, ?_, ⟨htight.trimEnd, hend⟩, ?_⟩
          · simpa using hne
          · calc header = w₀ ++ (Cursor.start header).skipBlanks.2.rest := hrest₀
              _ = w₀ ++ (['f', 'o', 'r'] ++ w₁ ++ (vars ++ d.rest)) := by rw [hrest₁, hrest₂]
              _ = w₀ ++ (['f', 'o', 'r'] ++ w₁ ++ (vars ++ (['i', 'n'] ++ w₅ ++
                    (Text.trimEnd e.skipBlanks.2.rest ++ w₆)))) := by rw [hrest₅, ← hrest₆]
              _ = _ := by simp
      · simp at h
    · simp at h
  · simp at h

/-! ## Completeness -/

/-- Spelled control variables are read when neither a blank nor a comma follows them. -/
theorem read_of_varsSpelled {c : Cursor} {vars first r : List Char} {second : Option (List Char)}
    (h : VarsSpelled vars first second) (hr : Text.TightStart r) (hcomma : r.head? ≠ some ',')
    (hrest : c.rest = vars ++ r) :
    ∃ c' d, c.readToken = (some first, c') ∧
      secondToken? c'.skipBlanks.1 c'.skipBlanks.2 = some (second, true, d) ∧ d.rest = r := by
  cases h with
  | @one t w token gap =>
      rcases gap.exists_cons with ⟨b, v, hb, rfl⟩
      rw [List.append_assoc] at hrest
      rcases Cursor.readToken_of_rest token (by simp [Cursor.isTokenChar, hb]) hrest with
        ⟨c', hread, hrest'⟩
      rcases Cursor.skipBlanks_of_rest gap.blanks hr hrest' with ⟨d, hskip, hrestd⟩
      refine ⟨c', d, hread, ?_, hrestd⟩
      -- without a comma there is no second token, and the gap counts as it is
      rw [hskip, secondToken?, hrestd]
      split
      · next s => exact absurd rfl hcomma
      · simp
  | @two _ w₂ w₃ t₂ w₄ token before after token' gap =>
      rcases gap.exists_cons with ⟨b, v, hb, rfl⟩
      rcases token'.exists_cons with ⟨inner, ht₂⟩
      have hrest₁ : c.rest = first ++ (w₂ ++ ([','] ++ (w₃ ++ (t₂ ++ (b :: v ++ r))))) := by
        rw [hrest]
        simp
      -- the first token ends at a blank or, without one, at the comma
      have hstop : ∀ x ∈ (w₂ ++ ([','] ++ (w₃ ++ (t₂ ++ (b :: v ++ r))))).head?,
          Cursor.isTokenChar x = false := by
        cases w₂ with
        | nil => simp [Cursor.isTokenChar]
        | cons y w₂ => simp [Cursor.isTokenChar, before y (by simp)]
      rcases Cursor.readToken_of_rest token hstop hrest₁ with ⟨c₁, hread₁, hrest₂⟩
      rcases Cursor.skipBlanks_of_rest before (Text.tightStart_cons.2 (by decide)) hrest₂ with
        ⟨c₂, hskip₂, hrest₃⟩
      have hrest₄ : (c₂.advance 1).rest = w₃ ++ (t₂ ++ (b :: v ++ r)) :=
        Cursor.rest_advance_of_rest (w := [',']) hrest₃
      have htight : Text.TightStart (t₂ ++ (b :: v ++ r)) := by
        rw [ht₂]
        exact Text.tightStart_cons.2 (by decide)
      rcases Cursor.skipBlanks_of_rest after htight hrest₄ with ⟨c₃, hskip₃, hrest₅⟩
      rcases Cursor.readToken_of_rest token' (by simp [Cursor.isTokenChar, hb]) hrest₅ with
        ⟨c₄, hread₄, hrest₆⟩
      rcases Cursor.skipBlanks_of_rest gap.blanks hr hrest₆ with ⟨d, hskip₄, hrestd⟩
      refine ⟨c₁, d, hread₁, ?_, hrestd⟩
      rw [hskip₂, secondToken?, hrest₃]
      simp [hskip₃, hread₄, hskip₄]

/-- Every written form of a header is cut into its pieces. -/
theorem pieces_of_headerSpelled {header : List Char} {p : HeaderPieces}
    (h : HeaderSpelled header p) : headerPieces? header = some p := by
  obtain ⟨w₀, w₁, vars, w₅, w₆, hw₀, hw₁, hvars, hw₅, hw₆, hne, htight, hheader⟩ := h
  rcases hw₁.exists_cons with ⟨b₁, v₁, hb₁, rfl⟩
  rcases hw₅.exists_cons with ⟨b₅, v₅, hb₅, rfl⟩
  rcases hvars.exists_first with ⟨inner, hdollar, -⟩
  -- each part is passed up to the first character of the next one
  have hrest : (Cursor.start header).rest = w₀ ++ (['f', 'o', 'r'] ++ b₁ :: (v₁ ++ (vars ++
      (['i', 'n'] ++ b₅ :: (v₅ ++ (p.expression ++ w₆)))))) := by
    rw [Cursor.rest_start, hheader]
    simp
  rcases Cursor.skipBlanks_of_rest hw₀ (Text.tightStart_cons.2 (by decide)) hrest with
    ⟨c₁, hskip₁, hrest₁⟩
  rcases Cursor.eatKeyword_of_rest (k := ['f', 'o', 'r']) hb₁ hrest₁ with ⟨c₂, hfor, hrest₂⟩
  have htight₂ : Text.TightStart (vars ++ (['i', 'n'] ++ b₅ :: (v₅ ++ (p.expression ++ w₆)))) := by
    rw [hdollar]
    exact Text.tightStart_cons.2 (by decide)
  rcases Cursor.skipBlanks_of_rest hw₁.blanks htight₂ hrest₂ with ⟨c₃, hskip₃, hrest₃⟩
  rcases read_of_varsSpelled hvars (Text.tightStart_cons.2 (by decide)) (by simp) hrest₃ with
    ⟨c₄, c₅, hfirst, hsecond, hrest₅⟩
  rcases Cursor.eatKeyword_of_rest (k := ['i', 'n']) hb₅ hrest₅ with ⟨c₆, hin, hrest₆⟩
  have htight₆ : Text.TightStart (p.expression ++ w₆) := by
    rw [Text.tightStart_append hne]
    exact htight.front
  rcases Cursor.skipBlanks_of_rest hw₅.blanks htight₆ hrest₆ with ⟨c₇, hskip₇, hrest₇⟩
  have hexpr : Text.trimEnd c₇.rest = p.expression := by
    rw [hrest₇]
    exact Text.trimEnd_append htight.back hw₆
  simp [headerPieces?, hskip₁, hfor, hskip₃, hfirst, hsecond, hin, hskip₇, hexpr, hne]

/-- A text is cut into pieces exactly when they are those of a written form. -/
theorem headerPieces?_eq_some_iff {header : List Char} {p : HeaderPieces} :
    headerPieces? header = some p ↔ HeaderSpelled header p :=
  ⟨headerSpelled_of_pieces, pieces_of_headerSpelled⟩

-- braces swallow blanks, a comma and the keyword
example : headerPieces? "for $\x7ba, in b\x7d,$c in $(ls) ".toList
    = some ⟨"$\x7ba, in b\x7d".toList, some "$c".toList, "$(ls)".toList⟩ := by
  decide

/-- No text has two readings. -/
theorem HeaderSpelled.unique {header : List Char} {p q : HeaderPieces}
    (hp : HeaderSpelled header p) (hq : HeaderSpelled header q) : p = q := by
  have hread := headerPieces?_eq_some_iff.2 hp
  rw [headerPieces?_eq_some_iff.2 hq] at hread
  exact (Option.some.inj hread).symm

/-! ## Padding -/

/-- More padding makes no difference. -/
theorem HeaderSpelled.padded {header v w : List Char} {p : HeaderPieces}
    (h : HeaderSpelled header p) (hv : Text.Blanks v) (hw : Text.Blanks w) :
    HeaderSpelled (v ++ header ++ w) p := by
  obtain ⟨w₀, w₁, vars, w₅, w₆, hw₀, hw₁, hvars, hw₅, hw₆, hne, htight, rfl⟩ := h
  refine ⟨v ++ w₀, w₁, vars, w₅, w₆ ++ w, Text.blanks_append.2 ⟨hv, hw₀⟩, hw₁, hvars, hw₅,
    Text.blanks_append.2 ⟨hw₆, hw⟩, hne, htight, ?_⟩
  simp

/-- What is left of a written form without its padding is a written form of the same pieces that
starts with the keyword itself. -/
theorem HeaderSpelled.trimmed {header : List Char} {p : HeaderPieces} (h : HeaderSpelled header p) :
    HeaderSpelled (Text.trim header) p ∧
      ∃ b l, Text.isBlank b = true ∧ Text.trim header = 'f' :: 'o' :: 'r' :: b :: l := by
  obtain ⟨w₀, w₁, vars, w₅, w₆, hw₀, hw₁, hvars, hw₅, hw₆, hne, htight, rfl⟩ := h
  -- between the paddings the form starts with `for` and ends with the expression
  have hcore : Text.Tight (['f', 'o', 'r'] ++ w₁ ++ vars ++ ['i', 'n'] ++ w₅ ++ p.expression) :=
    ⟨Text.tightStart_cons.2 (by decide), (Text.tightEnd_append hne).2 htight.back⟩
  have htrim := Text.trim_padded hw₀ hcore hw₆
  simp only [← List.append_assoc] at htrim
  rw [htrim]
  constructor
  · exact ⟨[], w₁, vars, w₅, [], Text.blanks_nil, hw₁, hvars, hw₅, Text.blanks_nil, hne, htight,
      by simp⟩
  · rcases hw₁.exists_cons with ⟨b, v, hb, rfl⟩
    exact ⟨b, v ++ vars ++ ['i', 'n'] ++ w₅ ++ p.expression, hb, by simp⟩

/-- Trimming neither makes nor breaks a written form. -/
theorem headerSpelled_trim {header : List Char} {p : HeaderPieces} :
    HeaderSpelled (Text.trim header) p ↔ HeaderSpelled header p := by
  constructor
  · intro h
    rcases Text.exists_trim header with ⟨v, w, hv, hw, hsplit, -⟩
    rw [hsplit]
    exact h.padded hv hw
  · intro h
    exact h.trimmed.1

/-! ## Exactness -/

/-- The pieces of a written form stand for a header: its tokens spell names. -/
theorem HeaderSpelled.exists_denoted {header : List Char} {p : HeaderPieces}
    (hp : HeaderSpelled header p) : ∃ h, Denotes p h := by
  obtain ⟨w₀, w₁, vars, w₅, w₆, -, -, hvars, -⟩ := hp
  rcases hvars.exists_first with ⟨-, -, hfirst⟩
  rcases hfirst.exists_name with ⟨n, hn⟩
  rcases p with ⟨first, second, expression⟩
  cases second with
  | none => exact ⟨⟨.single n, String.ofList expression⟩, rfl, n, hn, rfl⟩
  | some t =>
      rcases hvars.isToken_second.exists_name with ⟨m, hm⟩
      exact ⟨⟨.pair n m, String.ofList expression⟩, rfl, n, m, hn, hm, rfl⟩

/-- What the pieces of a text stand for is what it is read as. -/
theorem parse_of_denotes {header : String} {p : HeaderPieces} {h : LoopHeader}
    (hp : headerPieces? header.toList = some p) (hd : Denotes p h) :
    LoopHeader.parse header = .ok h := by
  rcases p with ⟨first, second, expression⟩
  rcases h with ⟨vars, text⟩
  cases second with
  | none =>
      obtain ⟨rfl, n, hn, rfl⟩ := hd
      simp only [LoopHeader.parse, hp, hn]
      rfl
  | some t =>
      obtain ⟨rfl, n, m, hn, hm, rfl⟩ := hd
      simp only [LoopHeader.parse, hp, hn, hm]
      rfl

/-- A text is either a written form, and is read, or none, and is reported whole. -/
theorem loopHeader_parse_cases (header : String) :
    (∃ p h, HeaderSpelled header.toList p ∧ Denotes p h ∧ LoopHeader.parse header = .ok h) ∨
    ((∀ p, ¬ HeaderSpelled header.toList p) ∧
      LoopHeader.parse header = .error (.forHeader header)) := by
  cases hpieces : headerPieces? header.toList with
  | none =>
      right
      constructor
      · intro p hp
        rw [headerPieces?_eq_some_iff.2 hp] at hpieces
        exact absurd hpieces (by simp)
      · simp only [LoopHeader.parse, hpieces]
  | some p =>
      left
      have hp := headerPieces?_eq_some_iff.1 hpieces
      rcases hp.exists_denoted with ⟨h, hd⟩
      exact ⟨p, h, hp, hd, parse_of_denotes hpieces hd⟩

/-- A header that is read has a written form. -/
theorem exists_spelled_of_parse {header : String} {h : LoopHeader}
    (hparse : LoopHeader.parse header = .ok h) :
    ∃ p, HeaderSpelled header.toList p ∧ Denotes p h := by
  rcases loopHeader_parse_cases header with ⟨p, h', hp, hd, hread⟩ | ⟨-, hread⟩
  · rw [hread] at hparse
    obtain rfl := Except.ok.inj hparse
    exact ⟨p, hp, hd⟩
  · rw [hread] at hparse
    exact absurd hparse (by simp)

/-- A text is read as the header that the pieces of a written form stand for. -/
theorem loopHeader_parse_eq_ok_iff {header : String} {h : LoopHeader} :
    LoopHeader.parse header = .ok h ↔ ∃ p, HeaderSpelled header.toList p ∧ Denotes p h := by
  constructor
  · exact exists_spelled_of_parse
  · rintro ⟨p, hp, hd⟩
    exact parse_of_denotes (headerPieces?_eq_some_iff.2 hp) hd

/-- Padding plays no part. -/
theorem loopHeader_parse_trim {header : String} {h : LoopHeader} :
    LoopHeader.parse (String.ofList (Text.trim header.toList)) = .ok h ↔
      LoopHeader.parse header = .ok h := by
  simp only [loopHeader_parse_eq_ok_iff, String.toList_ofList, headerSpelled_trim]

-- an expression is missed whether the blanks behind `in` are there or not
example : LoopHeader.parse "for $x in  " = .error (.forHeader "for $x in  ") := rfl

example : LoopHeader.parse "for $x in" = .error (.forHeader "for $x in") := rfl

/-- A text that is no header is reported whole. -/
theorem error_of_parse {header : String} {e : SyntaxError}
    (hparse : LoopHeader.parse header = .error e) : e = .forHeader header := by
  rcases loopHeader_parse_cases header with ⟨p, h, -, -, hread⟩ | ⟨-, hread⟩
  · rw [hread] at hparse
    exact absurd hparse (by simp)
  · rw [hread] at hparse
    exact (Except.error.inj hparse).symm

/-- A text is read as a header exactly when it is a written form of it; it is a written form of at
most one header. Every other text is reported whole, and no part of it is blamed as a bad name. A
name in braces is what stands between them. -/
theorem loopHeader_parse_exact (header : String) :
    (∀ h, LoopHeader.parse header = .ok h ↔ ∃ p, HeaderSpelled header.toList p ∧ Denotes p h) ∧
    (∀ p, HeaderSpelled header.toList p → ∃ h, LoopHeader.parse header = .ok h) ∧
    (∀ p q, HeaderSpelled header.toList p → HeaderSpelled header.toList q → p = q) ∧
    ((∀ p, ¬ HeaderSpelled header.toList p) →
      LoopHeader.parse header = .error (.forHeader header)) ∧
    (∀ token, LoopHeader.parse header ≠ .error (.variableName token)) ∧
    (∀ name, parseName (braced name) = .ok name) := by
  have hread : ∀ p h, HeaderSpelled header.toList p → Denotes p h →
      LoopHeader.parse header = .ok h := by
    intro p h hp hd
    exact parse_of_denotes (headerPieces?_eq_some_iff.2 hp) hd
  refine ⟨?_, ?_, ?_, ?_, ?_, ?_⟩
  · intro h
    constructor
    · intro hparse
      rcases loopHeader_parse_cases header with ⟨p, h', hp, hd, hparse'⟩ | ⟨-, herror⟩
      · rw [hparse'] at hparse
        obtain rfl := Except.ok.inj hparse
        exact ⟨p, hp, hd⟩
      · simp [herror] at hparse
    · rintro ⟨p, hp, hd⟩
      exact hread p h hp hd
  · intro p hp
    rcases hp.exists_denoted with ⟨h, hd⟩
    exact ⟨h, hread p h hp hd⟩
  · intro p q hp hq
    exact hp.unique hq
  · intro hnone
    rcases loopHeader_parse_cases header with ⟨p, -, hp, -⟩ | ⟨-, herror⟩
    · exact absurd hp (hnone p)
    · exact herror
  · intro token hname
    rcases loopHeader_parse_cases header with ⟨p, h, -, -, hparse⟩ | ⟨-, herror⟩
    · simp [hparse] at hname
    · simp [herror] at hname
  · exact parseName_braced

end CueScript.Syntax
