import CueScript.Proofs.Syntax.LoopHeader

/-!
# CueScript.Proofs.Syntax.Nameless — loop headers that bind the empty name

The cursor refuses the bare `$` and `${}`, which name nothing. It looks at the token as it is
written; the name is what is left when a quote and a brace come off the end.

1. **Tokens**: `hollowTokens` lists the tokens that the cursor accepts and that name nothing.
2. **Headers**: a header binds a variable without a name exactly when one of its tokens is hollow.
-/

namespace CueScript

namespace Syntax

variable {t r : List Char}

/-! ## Tokens -/

/-- The tokens in which nothing but a closing brace and a closing quote follows the `$`. -/
def hollowTokens : List (List Char) :=
  [['$', '}'], ['$', '"'], ['$', '\''], ['$', '}', '"'], ['$', '}', '\'']]

/-- Without an opening brace, only the end of a token is taken off. -/
theorem nameBehind_of_unbraced (hr : r.head? ≠ some '{') :
    nameBehind r = Text.dropLastIf (· == '}') (Text.dropLastIf isQuote r) := by
  have hfront : Text.dropFirstIf (· == '{') (Text.dropLastIf isQuote r)
      = Text.dropLastIf isQuote r := by
    rcases Text.exists_dropLastIf isQuote r with ⟨w, hsplit, -⟩
    cases hs : Text.dropLastIf isQuote r with
    | nil => rfl
    | cons c s =>
        -- what is left starts as the whole does
        rw [hs] at hsplit
        have hc : c ≠ '{' := by
          rintro rfl
          exact hr (by rw [hsplit]; rfl)
        rw [Text.dropFirstIf_cons, if_neg (by simpa using hc)]
  rw [nameBehind, Text.peel, hfront]

/-- A run that opens no brace leaves no name exactly when its token is hollow. -/
theorem nameBehind_eq_nil_iff (hne : r ≠ []) (hr : r.head? ≠ some '{') :
    nameBehind r = [] ↔ '$' :: r ∈ hollowTokens := by
  rw [nameBehind_of_unbraced hr, Text.dropLastIf_eq_nil_iff]
  rcases Text.exists_dropLastIf isQuote r with ⟨w, hsplit, hw⟩
  constructor
  · intro h
    -- a brace or nothing, then a quote or nothing, but not nothing at all
    have hbrace : Text.dropLastIf isQuote r = [] ∨ Text.dropLastIf isQuote r = ['}'] := by
      rcases h with h | ⟨c, hc, h⟩
      · exact .inl h
      · obtain rfl : c = '}' := by simpa using hc
        exact .inr h
    rcases hw with rfl | ⟨q, hq, rfl⟩
    · rcases hbrace with h | h
      · rw [h] at hsplit
        exact absurd hsplit hne
      · rw [hsplit, h]
        decide
    · have hquote : q = '"' ∨ q = '\'' := by simpa [isQuote] using hq
      rcases hquote with rfl | rfl
      · rcases hbrace with h | h
        · rw [hsplit, h]
          decide
        · rw [hsplit, h]
          decide
      · rcases hbrace with h | h
        · rw [hsplit, h]
          decide
        · rw [hsplit, h]
          decide
  · intro h
    simp only [hollowTokens, List.mem_cons, List.cons.injEq, true_and, List.not_mem_nil,
      or_false] at h
    rcases h with rfl | rfl | rfl | rfl | rfl
    · exact .inr ⟨'}', by decide, by decide⟩
    · exact .inl (by decide)
    · exact .inl (by decide)
    · exact .inr ⟨'}', by decide, by decide⟩
    · exact .inr ⟨'}', by decide, by decide⟩

/-- The cursor accepts a hollow token like any other. -/
theorem isToken_of_hollow (ht : t ∈ hollowTokens) : IsToken t := by
  simp only [hollowTokens, List.mem_cons, List.not_mem_nil, or_false] at ht
  rcases ht with rfl | rfl | rfl | rfl | rfl
  all_goals exact Cursor.isToken_of_all (by decide) (by decide) (by decide)

/-- A token names nothing exactly when it is hollow. -/
theorem IsToken.name_eq_empty_iff {n : String} (ht : IsToken t)
    (hn : parseName (String.ofList t) = .ok n) : n = "" ↔ t ∈ hollowTokens := by
  rw [parseName_eq_ok_iff, String.toList_ofList] at hn
  have hempty : n = "" ↔ nameOf? t = some [] := by
    rw [hn, Option.some.injEq, String.toList_eq_nil_iff]
  rw [hempty]
  cases ht with
  | @braced b nonempty closed =>
      have htrim : Text.trim ('$' :: '{' :: (b ++ ['}'])) = '$' :: '{' :: (b ++ ['}']) :=
        (IsToken.braced nonempty closed).tight.trim_eq
      rw [nameOf?_of_dollar htrim, nameBehind_braced]
      -- a name in braces is never empty, and no hollow token has two braces
      simp [nonempty, hollowTokens]
  | @plain r nonempty run unbraced =>
      have htrim : Text.trim ('$' :: r) = '$' :: r :=
        (IsToken.plain nonempty run unbraced).tight.trim_eq
      rw [nameOf?_of_dollar htrim, Option.some.injEq, nameBehind_eq_nil_iff nonempty unbraced]

/-! ## Headers -/

def HeaderPieces.tokens (p : HeaderPieces) : List (List Char) :=
  p.first :: p.second.toList

/-- A header that is read binds only variables with names exactly when none of its tokens, the first
or the second one, is hollow. The cursor accepts each of these tokens. -/
theorem loop_names_nonempty_iff {header : String} {h : LoopHeader}
    (hparse : LoopHeader.parse header = .ok h) :
    (∀ t ∈ hollowTokens, IsToken t) ∧
    ∃ p, HeaderSpelled header.toList p ∧ Denotes p h ∧
      ((∀ n ∈ h.vars.names, n ≠ "") ↔ ∀ t ∈ p.tokens, t ∉ hollowTokens) := by
  refine ⟨fun t => isToken_of_hollow, ?_⟩
  rcases exists_spelled_of_parse hparse with ⟨p, hp, hd⟩
  refine ⟨p, hp, hd, ?_⟩
  obtain ⟨-, -, vars, -, -, -, -, hvars, -⟩ := hp
  rcases hvars.exists_first with ⟨-, -, hfirst⟩
  rcases p with ⟨first, second, expression⟩
  cases second with
  | none =>
      obtain ⟨-, n, hn, hname⟩ := hd
      simp [hname, ControlVars.names, HeaderPieces.tokens, hfirst.name_eq_empty_iff hn]
  | some t =>
      obtain ⟨-, n, m, hn, hm, hname⟩ := hd
      simp [hname, ControlVars.names, HeaderPieces.tokens, hfirst.name_eq_empty_iff hn,
        hvars.isToken_second.name_eq_empty_iff hm]

/-- A blank in braces is a name. -/
theorem loop_names_nonempty_iff_of_blank :
    LoopHeader.parse "for $\x7b \x7d, $v' in $m" = .ok ⟨.pair " " "v", "$m"⟩ ∧
    ∀ n ∈ (ControlVars.pair " " "v").names, n ≠ "" := by
  have hparse : LoopHeader.parse "for $\x7b \x7d, $v' in $m" = .ok ⟨.pair " " "v", "$m"⟩ := by
    decide
  obtain ⟨-, p, hp, -, hnames⟩ := loop_names_nonempty_iff hparse
  have hpieces : headerPieces? "for $\x7b \x7d, $v' in $m".toList
      = some ⟨"$\x7b \x7d".toList, some "$v'".toList, "$m".toList⟩ := by
    decide
  obtain rfl := (headerPieces?_eq_some_iff.1 hpieces).unique hp
  refine ⟨hparse, hnames.2 ?_⟩
  decide

/-- A header may bind the empty name: the cursor takes a quote for the name, and the quote comes
off. -/
theorem nameless_loop_variable :
    ¬ ∀ (header : String) (h : LoopHeader), LoopHeader.parse header = .ok h →
      ∀ n ∈ h.vars.names, n ≠ "" := by
  intro hall
  have hparse : LoopHeader.parse "for $\" in $x" = .ok ⟨.single "", "$x"⟩ := by decide
  exact hall _ _ hparse "" (by decide) rfl

end Syntax

end CueScript
