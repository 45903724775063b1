import CueScript.Proofs.Syntax.Name

/-!
# CueScript.Proofs.Syntax.Layers — the grammar of variable tokens

A token is a name in layers: braces, a `$` in front of them, quotes, and padding. Each layer but the
`$` may be missing at either end, whatever stands at the other one.

1. **Layers**: `Layers.around` writes a name with its layers. The layers are `Full` when nothing
   more could come off from the outside to the inside.
2. **Names**: a token spells a name exactly when it is the name in full layers.
3. **Exactness**: `name_parse_exact` settles all tokens; every name has its spellings.
-/

namespace CueScript.Syntax

/-! ## Layers -/

/-- What stands around a name, from the outside to the inside at the front and back again behind
it. -/
structure Layers where
  padFront : List Char
  quoteFront : List Char
  braceFront : List Char
  braceBack : List Char
  quoteBack : List Char
  padBack : List Char
  blanks_padFront : Text.Blanks padFront
  layer_quoteFront : Text.Layer isQuote quoteFront
  layer_braceFront : Text.Layer (· == '{') braceFront
  layer_braceBack : Text.Layer (· == '}') braceBack
  layer_quoteBack : Text.Layer isQuote quoteBack
  blanks_padBack : Text.Blanks padBack

namespace Layers

/-- What follows the `$` up to the closing quote. -/
def inner (l : Layers) (name : List Char) : List Char :=
  l.braceFront ++ name ++ l.braceBack

/-- The token without padding. -/
def core (l : Layers) (name : List Char) : List Char :=
  l.quoteFront ++ '$' :: l.inner name ++ l.quoteBack

/-- The token that shows a name in its layers. -/
def around (l : Layers) (name : List Char) : List Char :=
  l.padFront ++ l.core name ++ l.padBack

/-- Nothing more can come off: all outer blanks are padding, no quote is left at the end, no opening
brace behind the `$`, and no closing brace in front of the closing quote. -/
structure Full (l : Layers) (name : List Char) : Prop where
  tight : Text.Tight (l.core name)
  quoteBack : l.quoteBack = [] →
    ∀ c ∈ (l.quoteFront ++ '$' :: l.inner name).getLast?, isQuote c = false
  braceFront : l.braceFront = [] → (l.inner name ++ l.quoteBack).head? ≠ some '{'
  braceBack : l.braceBack = [] →
    (l.quoteFront ++ '$' :: (l.braceFront ++ name)).getLast? ≠ some '}'

/-! ## Names -/

variable {l : Layers} {name : List Char}

/-- A brace in front of the closing quote is one in front of the whole name, since no quote is a
brace. -/
theorem braceFront_iff (l : Layers) (name : List Char) :
    (l.inner name ++ l.quoteBack).head? ≠ some '{' ↔
      ∀ c ∈ (l.inner name).head?, (c == '{') = false := by
  cases l.inner name with
  | cons c s => simp
  | nil =>
      rcases l.layer_quoteBack with hq | ⟨q, hq, hq'⟩
      · simp [hq]
      · have hne : q ≠ '{' := by
          rintro rfl
          exact absurd hq (by decide)
        simp [hq', hne]

/-- A brace at the end is the end of the name, since neither the `$` nor an opening brace is one. -/
theorem braceBack_iff (l : Layers) (name : List Char) :
    (l.quoteFront ++ '$' :: (l.braceFront ++ name)).getLast? ≠ some '}' ↔
      ∀ c ∈ name.getLast?, (c == '}') = false := by
  rcases List.eq_nil_or_concat' name with rfl | ⟨s, c, rfl⟩
  · rcases l.layer_braceFront with ho | ⟨o, ho, ho'⟩
    · simp [ho]
    · obtain rfl : o = '{' := by simpa using ho
      simp [ho']
  · have hlast : (l.quoteFront ++ '$' :: (l.braceFront ++ (s ++ [c]))).getLast? = some c := by
      rw [← List.cons_append, ← List.append_assoc, ← List.append_assoc, List.getLast?_concat]
    rw [hlast]
    simp

end Layers

variable {token name : List Char}

/-- The two layers come off one after the other, with the `$` between them. -/
theorem nameOf?_eq_some_iff :
    nameOf? token = some name ↔
      ∃ inner, Text.peel isQuote isQuote (Text.trim token) = '$' :: inner ∧
        Text.peel (· == '{') (· == '}') inner = name := by
  rw [nameOf?]
  split
  · next inner heq => simp [heq]
  · next hnone =>
    simp only [reduceCtorEq, false_iff]
    rintro ⟨inner, heq, -⟩
    exact hnone inner heq

/-- A token spells the name that it shows in full layers. -/
theorem nameOf?_eq_some_iff_layers :
    nameOf? token = some name ↔ ∃ l : Layers, token = l.around name ∧ l.Full name := by
  rw [nameOf?_eq_some_iff]
  constructor
  · rintro ⟨inner, hquotes, hbraces⟩
    rcases Text.trim_eq_iff.1 (rfl : Text.trim token = _) with ⟨htight, w, w', hw, hw', htoken⟩
    rcases Text.peel_eq_iff.1 hquotes with ⟨q, q', hq, hq', hcore, -, hlast⟩
    rcases Text.peel_eq_iff.1 hbraces with ⟨o, c, ho, hc, hinner, hfirst, hend⟩
    let l : Layers := ⟨w, q, o, c, q', w', hw, hq, ho, hc, hq', hw'⟩
    have hl : l.core name = Text.trim token := by
      rw [hcore, hinner]
      rfl
    refine ⟨l, ?_, ?_, ?_, ?_, ?_⟩
    · rw [Layers.around, hl]
      exact htoken
    · rw [hl]
      exact htight
    · intro hnone
      rw [List.getLast?_append_cons, Layers.inner, ← hinner]
      exact hlast hnone
    · intro hnone
      rw [Layers.braceFront_iff]
      obtain rfl : o = [] := hnone
      exact hfirst rfl
    · intro hnone
      rw [Layers.braceBack_iff]
      exact hend hnone
  · rintro ⟨l, rfl, hfull⟩
    have htrim : Text.trim (l.around name) = l.core name :=
      Text.trim_padded l.blanks_padFront hfull.tight l.blanks_padBack
    refine ⟨l.inner name, ?_, ?_⟩
    · rw [htrim, Text.peel_eq_iff]
      refine ⟨_, _, l.layer_quoteFront, l.layer_quoteBack, rfl, ?_, ?_⟩
      · -- the `$` is no quote
        intro _ c hc
        obtain rfl : '$' = c := by simpa using hc
        decide
      · intro hnone
        have hlast := hfull.quoteBack hnone
        rw [List.getLast?_append_cons] at hlast
        exact hlast
    · rw [Text.peel_eq_iff]
      refine ⟨_, _, l.layer_braceFront, l.layer_braceBack, rfl, ?_, ?_⟩
      · intro hnone
        have hfirst := (l.braceFront_iff name).1 (hfull.braceFront hnone)
        rw [Layers.inner, hnone] at hfirst
        exact hfirst
      · intro hnone
        exact (l.braceBack_iff name).1 (hfull.braceBack hnone)

/-- A name is a piece of every token that spells it. -/
theorem isInfix_of_parseName {t n : String} (h : parseName t = .ok n) : n.toList <:+: t.toList := by
  rw [parseName_eq_ok_iff, nameOf?_eq_some_iff_layers] at h
  rcases h with ⟨l, ht, -⟩
  refine ⟨l.padFront ++ l.quoteFront ++ '$' :: l.braceFront,
    l.braceBack ++ l.quoteBack ++ l.padBack, ?_⟩
  rw [ht]
  simp [Layers.around, Layers.core, Layers.inner]

/-! ## Spellings -/

namespace Layers

variable {l : Layers} {name : List Char}

/-- Only an end without a quote can have a blank. -/
theorem tight_core (hback : l.quoteBack = [] → Text.TightEnd ('$' :: l.inner name)) :
    Text.Tight (l.core name) := by
  constructor
  · rcases l.layer_quoteFront with hq | ⟨q, hq, hq'⟩
    · rw [core, hq]
      exact Text.tightStart_cons.2 (by decide)
    · rw [core, hq']
      exact Text.tightStart_cons.2 (isBlank_of_isQuote hq)
  · rcases l.layer_quoteBack with hq | ⟨q, hq, hq'⟩
    · rw [core, hq, List.append_nil, Text.tightEnd_append (by simp)]
      exact hback hq
    · rw [core, hq']
      exact Text.tightEnd_append_singleton.2 (isBlank_of_isQuote hq)

/-- Both braces keep every name from being stripped any further. -/
theorem full_of_braces (hfront : l.braceFront = ['{']) (hback : l.braceBack = ['}']) :
    l.Full name := by
  have hlast : ∀ s, s ++ '$' :: l.inner name = s ++ '$' :: '{' :: name ++ ['}'] := by
    intro s
    simp [inner, hfront, hback]
  refine ⟨tight_core ?_, ?_, ?_, ?_⟩
  · intro _
    rw [← List.nil_append ('$' :: l.inner name), hlast]
    exact Text.tightEnd_append_singleton.2 (by decide)
  · intro _ c hc
    rw [hlast, List.getLast?_concat] at hc
    obtain rfl := Option.some.inj hc
    decide
  · intro hnone
    rw [hfront] at hnone
    exact absurd hnone (by simp)
  · intro hnone
    rw [hback] at hnone
    exact absurd hnone (by simp)

/-- Without braces, the ends of the name must not look like layers. -/
theorem full_of_plain (hfront : l.braceFront = []) (hback : l.braceBack = [])
    (hfirst : name.head? ≠ some '{')
    (hlast : ∀ c ∈ name.getLast?, c ≠ '}' ∧ isQuote c = false ∧ Text.isBlank c = false) :
    l.Full name := by
  have hinner : l.inner name = name := by simp [inner, hfront, hback]
  -- what stands at the end is the `$` or the end of the name
  have hend : ∀ c ∈ ('$' :: name).getLast?, isQuote c = false ∧ Text.isBlank c = false := by
    intro c hc
    rw [List.getLast?_cons] at hc
    cases hname : name.getLast? with
    | none =>
        rw [hname] at hc
        obtain rfl : '$' = c := by simpa using hc
        decide
    | some d =>
        rw [hname] at hc
        obtain rfl : d = c := by simpa using hc
        exact (hlast d hname).2
  refine ⟨tight_core ?_, ?_, ?_, ?_⟩
  · intro _ c hc
    rw [hinner] at hc
    exact (hend c hc).2
  · intro _ c hc
    rw [hinner, List.getLast?_append_cons] at hc
    exact (hend c hc).1
  · intro _
    rw [braceFront_iff, hinner]
    intro c hc
    have hne : c ≠ '{' := by
      rintro rfl
      exact hfirst hc
    simpa using hne
  · intro _
    rw [braceBack_iff]
    intro c hc
    simpa using (hlast c hc).1

end Layers

/-- A token in full layers spells its name. -/
theorem parseName_of_full {t n : String} (l : Layers) (ht : t.toList = l.around n.toList)
    (hl : l.Full n.toList) : parseName t = .ok n :=
  parseName_eq_ok_iff.2 (nameOf?_eq_some_iff_layers.2 ⟨l, ht, hl⟩)

section Spellings

variable {p q q' p' : String}

/-- Braces protect every name, whatever quotes and padding stand around them. -/
theorem parseName_braced_in_layers (hp : Text.Blanks p.toList) (hq : Text.Layer isQuote q.toList)
    (hq' : Text.Layer isQuote q'.toList) (hp' : Text.Blanks p'.toList) (name : String) :
    parseName (p ++ q ++ braced name ++ q' ++ p') = .ok name := by
  let l : Layers := ⟨p.toList, q.toList, ['{'], ['}'], q'.toList, p'.toList, hp, hq,
    .inr ⟨'{', rfl, rfl⟩, .inr ⟨'}', rfl, rfl⟩, hq', hp'⟩
  apply parseName_of_full l
  · simp [l, Layers.around, Layers.core, Layers.inner]
  · exact Layers.full_of_braces rfl rfl

/-- Without braces, a name must not start or end like a layer. -/
theorem parseName_plain_in_layers (hp : Text.Blanks p.toList) (hq : Text.Layer isQuote q.toList)
    (hq' : Text.Layer isQuote q'.toList) (hp' : Text.Blanks p'.toList) {name : String}
    (hfirst : name.toList.head? ≠ some '{')
    (hlast : ∀ c ∈ name.toList.getLast?, c ≠ '}' ∧ isQuote c = false ∧ Text.isBlank c = false) :
    parseName (p ++ q ++ "$" ++ name ++ q' ++ p') = .ok name := by
  let l : Layers := ⟨p.toList, q.toList, [], [], q'.toList, p'.toList, hp, hq, Text.layer_nil,
    Text.layer_nil, hq', hp'⟩
  apply parseName_of_full l
  · simp [l, Layers.around, Layers.core, Layers.inner]
  · exact Layers.full_of_plain rfl rfl hfirst hlast

end Spellings

/-! ## Exactness -/

/-- Reading a token is exact. A token spells a name exactly when it is that name in full layers:
padding, at most one quote at each end, a `$`, and at most one brace at each end of the name. Every
other token is reported as it was given, padding included. With both braces every name has its
spellings, quoted and padded in any way; without them, so has every name that does not start with an
opening brace and does not end in a closing brace, a quote or a blank. -/
theorem name_parse_exact :
    (∀ token name : String, parseName token = .ok name ↔
      ∃ l : Layers, token.toList = l.around name.toList ∧ l.Full name.toList) ∧
    (∀ (token : String) (e : SyntaxError), parseName token = .error e ↔
      (∀ (l : Layers) (name : String), token.toList = l.around name.toList →
        ¬ l.Full name.toList) ∧ e = .variableName token) ∧
    (∀ p q q' p' : String, Text.Blanks p.toList → Text.Layer isQuote q.toList →
      Text.Layer isQuote q'.toList → Text.Blanks p'.toList →
      (∀ name, parseName (p ++ q ++ braced name ++ q' ++ p') = .ok name) ∧
      (∀ name : String, name.toList.head? ≠ some '{' →
        (∀ c ∈ name.toList.getLast?, c ≠ '}' ∧ isQuote c = false ∧ Text.isBlank c = false) →
        parseName (p ++ q ++ "$" ++ name ++ q' ++ p') = .ok name)) := by
  have hread : ∀ token name : String, parseName token = .ok name ↔
      ∃ l : Layers, token.toList = l.around name.toList ∧ l.Full name.toList := by
    intro token name
    rw [parseName_eq_ok_iff, nameOf?_eq_some_iff_layers]
  refine ⟨hread, ?_, ?_⟩
  · intro token e
    constructor
    · intro herror
      refine ⟨?_, (parseName_eq_error_iff.1 herror).2⟩
      intro l name htoken hfull
      rw [parseName_of_full l htoken hfull] at herror
      exact absurd herror (by simp)
    · rintro ⟨hnone, rfl⟩
      cases hparse : parseName token with
      | ok name =>
          rcases (hread token name).1 hparse with ⟨l, htoken, hfull⟩
          exact absurd hfull (hnone l name htoken)
      | error e => rw [(parseName_eq_error_iff.1 hparse).2]
  · intro p q q' p' hp hq hq' hp'
    exact ⟨parseName_braced_in_layers hp hq hq' hp',
      fun name => parseName_plain_in_layers hp hq hq' hp'⟩

/-- Two kinds of quotes around a name with blanks at its ends, and one quote behind a name that
holds a brace and a quote. -/
theorem name_parse_exact_of_stray_quotes :
    parseName ("\t" ++ "\"" ++ braced " a b " ++ "'" ++ " ") = .ok " a b " ∧
    parseName ("" ++ "" ++ "$" ++ "a\x7d'b" ++ "'" ++ "") = .ok "a\x7d'b" := by
  have hquote : Text.Layer isQuote "'".toList := .inr ⟨'\'', by decide, by decide⟩
  have hquote' : Text.Layer isQuote "\"".toList := .inr ⟨'"', by decide, by decide⟩
  have htab : Text.Blanks "\t".toList := by
    intro c hc
    obtain rfl : c = '\t' := by simpa using hc
    decide
  refine ⟨?_, ?_⟩
  · exact (name_parse_exact.2.2 _ _ _ _ htab hquote' hquote Text.gap_space.blanks).1 " a b "
  · apply (name_parse_exact.2.2 "" "" "'" "" Text.blanks_nil Text.layer_nil hquote
      Text.blanks_nil).2
    · simp
    · intro c hc
      obtain rfl : c = 'b' := by simpa [eq_comm] using hc
      decide

end CueScript.Syntax
