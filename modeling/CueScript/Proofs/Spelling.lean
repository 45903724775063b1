import CueScript.Proofs.Assignment
import CueScript.Proofs.Readings
import CueScript.Proofs.Syntax.Expression
import CueScript.Proofs.Syntax.LoopHeader
import CueScript.Proofs.Syntax.Targets

/-!
# CueScript.Proofs.Spelling — a token spells one variable in every position

Tokens are cut out of a text in three ways: by the cursor of loop headers, at the comma of targets,
and as what is left of an expression behind its opening.

1. **Tokens**: `IsCommonToken` lists the tokens that all three cut out whole. A comma in braces
   would be taken for one between targets, and `$(` opens a command line.
2. **Positions**: what each reader makes of such a token, alone or beside a second one.
3. **Agreement**: `token_spells_one_variable` puts the positions together. What is assigned through
   a token is what the token reads afterwards.
-/

namespace CueScript.Syntax

/-! ## Tokens -/

/-- The written forms of a variable that every reader takes whole: braces around characters other
than `}` and the comma, or a run without blanks and commas that opens neither a brace nor a
parenthesis. -/
inductive IsCommonToken : List Char → Prop where
  | braced {b : List Char} (nonempty : b ≠ []) (closed : '}' ∉ b) (noComma : ',' ∉ b) :
      IsCommonToken ('$' :: '{' :: (b ++ ['}']))
  | plain {r : List Char} (nonempty : r ≠ []) (run : ∀ c ∈ r, Text.isBlank c = false ∧ c ≠ ',')
      (unbraced : r.head? ≠ some '{') (noCommand : r.head? ≠ some '(') : IsCommonToken ('$' :: r)

namespace IsCommonToken

variable {t : List Char}

/-- Loop headers read more tokens, those with a comma in braces. -/
theorem isToken (ht : IsCommonToken t) : IsToken t := by
  cases ht with
  | braced nonempty closed noComma => exact .braced nonempty closed
  | plain nonempty run unbraced noCommand => exact .plain nonempty run unbraced

theorem comma_not_mem (ht : IsCommonToken t) : ',' ∉ t := by
  cases ht with
  | braced nonempty closed noComma => simp [noComma]
  | plain nonempty run unbraced noCommand =>
      rw [List.mem_cons, not_or]
      exact ⟨by decide, fun hmem => (run ',' hmem).2 rfl⟩

theorem tight (ht : IsCommonToken t) : Text.Tight t :=
  ht.isToken.tight

/-- No command line is opened. -/
theorem no_command (ht : IsCommonToken t) : ¬ ['$', '('] <+: t := by
  rintro ⟨inner, hinner⟩
  cases ht with
  | braced nonempty closed noComma => simp at hinner
  | plain nonempty run unbraced noCommand =>
      obtain ⟨-, rfl⟩ := List.cons.inj hinner
      exact noCommand rfl

end IsCommonToken

/-! ## Positions -/

variable {t t₁ t₂ n n₁ n₂ : String}

/-- Padding does not change the name. -/
theorem parseName_padded (ht : IsCommonToken t.toList) (hn : parseName t = .ok n) {p q : String}
    (hp : Text.Blanks p.toList) (hq : Text.Blanks q.toList) : parseName (p ++ t ++ q) = .ok n := by
  have htrim : Text.trim (p ++ t ++ q).toList = Text.trim t.toList := by
    rw [String.toList_append, String.toList_append, Text.trim_padded hp ht.tight hq,
      ht.tight.trim_eq]
  rw [parseName_eq_ok_iff, nameOf?] at hn ⊢
  rw [htrim]
  exact hn

/-- A tight text without a mark in front is read as the form that it spells. -/
theorem parse_of_tight {text : String} {f : Form} (ht : Text.Tight text.toList)
    (hmark : ¬ "not ".toList <+: text.toList) (hf : FormSpelled text.toList f) :
    Expression.parse text = .ok ⟨false, f⟩ := by
  have hframed : Framed text.toList false text.toList := by
    refine ⟨[], [], Text.blanks_nil, Text.blanks_nil, ?_, ht, fun _ => hmark⟩
    simp [notMark]
  exact parse_of_spelled hframed hf

theorem parse_token (ht : IsCommonToken t.toList) (hn : parseName t = .ok n) :
    Expression.parse t = .ok ⟨false, .lookup n⟩ := by
  rcases ht.isToken.exists_cons with ⟨inner, hinner⟩
  apply parse_of_tight ht.tight
  · rintro ⟨rest, hrest⟩
    rw [hinner] at hrest
    simp at hrest
  · apply FormSpelled.lookup
    · left
      exact ⟨inner, hinner.symm⟩
    · exact ht.no_command
    · rw [String.ofList_toList]
      exact hn

theorem parse_defined_token (ht : IsCommonToken t.toList) (hn : parseName t = .ok n) :
    Expression.parse ("defined " ++ t) = .ok ⟨false, .defined n⟩ := by
  rcases ht.isToken.exists_cons with ⟨inner, hinner⟩
  have htoken : parseName (String.ofList t.toList) = .ok n := by
    rw [String.ofList_toList]
    exact hn
  apply parse_of_tight
  · rw [String.toList_append]
    refine ⟨Text.tightStart_cons.2 (by decide), ?_⟩
    rw [Text.tightEnd_append (by simp [hinner])]
    exact ht.tight.back
  · rintro ⟨rest, hrest⟩
    simp at hrest
  · rw [String.toList_append]
    exact .defined htoken

theorem parse_target (ht : IsCommonToken t.toList) (hn : parseName t = .ok n) :
    Targets.parse t = .ok (.value n) :=
  (TargetsSpelled.one ht.comma_not_mem hn).parse_eq

theorem parse_two_targets (ht₁ : IsCommonToken t₁.toList) (ht₂ : IsCommonToken t₂.toList)
    (hn₁ : parseName t₁ = .ok n₁) (hn₂ : parseName t₂ = .ok n₂) {w w' : String}
    (hw : Text.Blanks w.toList) (hw' : Text.Blanks w'.toList) :
    Targets.parse (t₁ ++ w ++ "," ++ w' ++ t₂) = .ok (.logicalAndValue n₁ n₂) := by
  have hok : parseName (t₁ ++ w) = .ok n₁ := by
    have h := parseName_padded ht₁ hn₁ (p := "") Text.blanks_nil hw
    rwa [String.empty_append] at h
  have hname : parseName (w' ++ t₂) = .ok n₂ := by
    have h := parseName_padded ht₂ hn₂ (q := "") hw' Text.blanks_nil
    rwa [String.append_empty] at h
  have hspelled : TargetsSpelled ((t₁ ++ w) ++ "," ++ (w' ++ t₂)) (.logicalAndValue n₁ n₂) := by
    apply TargetsSpelled.two _ _ hok hname
    · simp [ht₁.comma_not_mem, comma_not_mem_blanks hw]
    · simp [ht₂.comma_not_mem, comma_not_mem_blanks hw']
  rw [← String.append_assoc] at hspelled
  exact hspelled.parse_eq

/-- A header in which the control variables are spelled, and which holds an expression. -/
theorem headerSpelled_of_vars {header w₁ vars first w₅ e : List Char} {second : Option (List Char)}
    (hw₁ : Text.Gap w₁) (hvars : VarsSpelled vars first second) (hw₅ : Text.Gap w₅)
    (he : Text.trim e ≠ [])
    (hheader : header = ['f', 'o', 'r'] ++ w₁ ++ vars ++ ['i', 'n'] ++ w₅ ++ e) :
    HeaderSpelled header ⟨first, second, Text.trim e⟩ := by
  rcases Text.exists_trim e with ⟨p, q, hp, hq, hsplit, htight⟩
  -- the padding in front of the expression widens the gap behind `in`
  have hgap : Text.Gap (w₅ ++ p) :=
    ⟨Text.blanks_append.2 ⟨hw₅.blanks, hp⟩, by simp [hw₅.nonempty]⟩
  refine ⟨[], w₁, vars, w₅ ++ p, q, Text.blanks_nil, hw₁, hvars, hgap, hq, he, htight, ?_⟩
  rw [hheader]
  conv_lhs => rw [hsplit]
  simp

theorem parse_loop (ht : IsCommonToken t.toList) (hn : parseName t = .ok n) {w₁ w₂ w₅ e : String}
    (hw₁ : Text.Gap w₁.toList) (hw₂ : Text.Gap w₂.toList) (hw₅ : Text.Gap w₅.toList)
    (he : Text.trim e.toList ≠ []) :
    LoopHeader.parse ("for" ++ w₁ ++ t ++ w₂ ++ "in" ++ w₅ ++ e)
      = .ok ⟨.single n, String.ofList (Text.trim e.toList)⟩ := by
  have hspelled : HeaderSpelled ("for" ++ w₁ ++ t ++ w₂ ++ "in" ++ w₅ ++ e).toList
      ⟨t.toList, none, Text.trim e.toList⟩ :=
    headerSpelled_of_vars hw₁ (.one ht.isToken hw₂) hw₅ he (by simp)
  apply parse_of_denotes (headerPieces?_eq_some_iff.2 hspelled)
  refine ⟨rfl, n, ?_, rfl⟩
  rw [String.ofList_toList]
  exact hn

/-- Two tokens are the control variables of a header, whatever blanks stand around them. -/
theorem parse_pair_header (ht₁ : IsToken t₁.toList) (ht₂ : IsToken t₂.toList)
    (hn₁ : parseName t₁ = .ok n₁) (hn₂ : parseName t₂ = .ok n₂) {w₁ w₂ w₃ w₄ w₅ e : String}
    (hw₁ : Text.Gap w₁.toList) (hw₂ : Text.Blanks w₂.toList) (hw₃ : Text.Blanks w₃.toList)
    (hw₄ : Text.Gap w₄.toList) (hw₅ : Text.Gap w₅.toList) (he : Text.trim e.toList ≠ []) :
    LoopHeader.parse ("for" ++ w₁ ++ t₁ ++ w₂ ++ "," ++ w₃ ++ t₂ ++ w₄ ++ "in" ++ w₅ ++ e)
      = .ok ⟨.pair n₁ n₂, String.ofList (Text.trim e.toList)⟩ := by
  have hspelled : HeaderSpelled
      ("for" ++ w₁ ++ t₁ ++ w₂ ++ "," ++ w₃ ++ t₂ ++ w₄ ++ "in" ++ w₅ ++ e).toList
      ⟨t₁.toList, some t₂.toList, Text.trim e.toList⟩ :=
    headerSpelled_of_vars hw₁ (.two ht₁ hw₂ hw₃ ht₂ hw₄) hw₅ he (by simp)
  apply parse_of_denotes (headerPieces?_eq_some_iff.2 hspelled)
  refine ⟨rfl, n₁, n₂, ?_, ?_, rfl⟩
  · rw [String.ofList_toList]
    exact hn₁
  · rw [String.ofList_toList]
    exact hn₂

theorem parse_pair_loop (ht₁ : IsCommonToken t₁.toList) (ht₂ : IsCommonToken t₂.toList)
    (hn₁ : parseName t₁ = .ok n₁) (hn₂ : parseName t₂ = .ok n₂) {w₁ w₂ w₃ w₄ w₅ e : String}
    (hw₁ : Text.Gap w₁.toList) (hw₂ : Text.Blanks w₂.toList) (hw₃ : Text.Blanks w₃.toList)
    (hw₄ : Text.Gap w₄.toList) (hw₅ : Text.Gap w₅.toList) (he : Text.trim e.toList ≠ []) :
    LoopHeader.parse ("for" ++ w₁ ++ t₁ ++ w₂ ++ "," ++ w₃ ++ t₂ ++ w₄ ++ "in" ++ w₅ ++ e)
      = .ok ⟨.pair n₁ n₂, String.ofList (Text.trim e.toList)⟩ :=
  parse_pair_header ht₁.isToken ht₂.isToken hn₁ hn₂ hw₁ hw₂ hw₃ hw₄ hw₅ he

/-! ## Agreement -/

/-- All readers take the token for one variable: as a name, as an expression, behind `defined`, as
the target of an assignment, and as the control variable of a loop. -/
structure Spells (t n : String) : Prop where
  name : parseName t = .ok n
  lookup : Expression.parse t = .ok ⟨false, .lookup n⟩
  defined : Expression.parse ("defined " ++ t) = .ok ⟨false, .defined n⟩
  target : Targets.parse t = .ok (.value n)
  loop : ∀ e : String, Text.trim e.toList ≠ [] →
    LoopHeader.parse ("for " ++ t ++ " in " ++ e)
      = .ok ⟨.single n, String.ofList (Text.trim e.toList)⟩

theorem IsCommonToken.spells {t n : String} (ht : IsCommonToken t.toList)
    (hn : parseName t = .ok n) : Spells t n where
  name := hn
  lookup := parse_token ht hn
  defined := parse_defined_token ht hn
  target := parse_target ht hn
  loop e he := by
    have h := parse_loop ht hn Text.gap_space Text.gap_space Text.gap_space he
    have hfor : "for" ++ " " ++ t ++ " " ++ "in" ++ " " ++ e = "for " ++ t ++ " in " ++ e := by
      rw [← String.toList_inj]
      simp
    rw [hfor] at h
    exact h

/-- A token spells one variable in every position. All readers agree on its name, alone and beside a
second token, as two targets or as two control variables, whatever blanks stand around the comma and
between the words of a header. So what is assigned through a token is what the token reads
afterwards: the value itself behind `defined`, and alone its truth with the value when that is
true. -/
theorem token_spells_one_variable :
    (∀ t : String, IsCommonToken t.toList → ∃! n, Spells t n) ∧
    (∀ t₁ t₂ n₁ n₂ : String, IsCommonToken t₁.toList → IsCommonToken t₂.toList →
      Spells t₁ n₁ → Spells t₂ n₂ →
      (∀ w w' : String, Text.Blanks w.toList → Text.Blanks w'.toList →
        Targets.parse (t₁ ++ w ++ "," ++ w' ++ t₂) = .ok (.logicalAndValue n₁ n₂)) ∧
      (∀ w₁ w₂ w₃ w₄ w₅ e : String, Text.Gap w₁.toList → Text.Blanks w₂.toList →
        Text.Blanks w₃.toList → Text.Gap w₄.toList → Text.Gap w₅.toList →
        Text.trim e.toList ≠ [] →
        LoopHeader.parse ("for" ++ w₁ ++ t₁ ++ w₂ ++ "," ++ w₃ ++ t₂ ++ w₄ ++ "in" ++ w₅ ++ e)
          = .ok ⟨.pair n₁ n₂, String.ofList (Text.trim e.toList)⟩)) ∧
    (∀ t n : String, IsCommonToken t.toList → Spells t n →
      ∀ (host : Host) (env : Environment) (rhs : Value) (r : Evaluation),
        (evaluate host env rhs).result = .ok r →
        ∃ env', (assign host env t rhs).result = (env', .ok ()) ∧ env'.get? n = some r.value ∧
          ∀ host' : Host,
            evaluateText host' env' t = .quiet
              (.ok ⟨r.value.isTruthy, if r.value.isTruthy then r.value else .empty⟩) ∧
            evaluateText host' env' ("defined " ++ t) = .quiet (.ok ⟨true, r.value⟩)) := by
  refine ⟨?_, ?_, ?_⟩
  · intro t ht
    rcases ht.isToken.exists_name with ⟨n, hn⟩
    rw [String.ofList_toList] at hn
    refine ⟨n, ht.spells hn, ?_⟩
    intro m hm
    rw [hm.name] at hn
    exact Except.ok.inj hn
  · intro t₁ t₂ n₁ n₂ ht₁ ht₂ hn₁ hn₂
    refine ⟨?_, ?_⟩
    · intro w w' hw hw'
      exact parse_two_targets ht₁ ht₂ hn₁.name hn₂.name hw hw'
    · intro w₁ w₂ w₃ w₄ w₅ e hw₁ hw₂ hw₃ hw₄ hw₅ he
      exact parse_pair_loop ht₁ ht₂ hn₁.name hn₂.name hw₁ hw₂ hw₃ hw₄ hw₅ he
  · intro t n ht hn host env rhs r hr
    have hget : (env.set n r.value).get? n = some r.value := by
      rw [Environment.get?_set, if_pos rfl]
    refine ⟨env.set n r.value, ?_, hget, ?_⟩
    · rw [assign_of_value hn.target hr]
      rfl
    · intro host'
      exact ⟨evaluateText_lookup host' hn.lookup hget, evaluateText_defined host' hn.defined hget⟩

/-- A name with a blank in braces beside a keyword with a stray quote. -/
theorem token_spells_one_variable_in_odd_spellings :
    IsCommonToken "$\x7ba b\x7d".toList ∧ IsCommonToken "$in'".toList ∧
    (∃! n, Spells "$in'" n) ∧
    Targets.parse ("$\x7ba b\x7d" ++ " " ++ "," ++ "" ++ "$in'")
      = .ok (.logicalAndValue "a b" "in") := by
  have hbraced : IsCommonToken "$\x7ba b\x7d".toList :=
    .braced (b := "a b".toList) (by decide) (by decide) (by decide)
  have hrun : ∀ c ∈ "in'".toList, Text.isBlank c = false ∧ c ≠ ',' := by
    intro c hc
    simp only [String.reduceToList, List.mem_cons, List.not_mem_nil, or_false] at hc
    rcases hc with rfl | rfl | rfl
    all_goals decide
  have hplain : IsCommonToken "$in'".toList :=
    .plain (r := "in'".toList) (by decide) hrun (by decide) (by decide)
  have hname : Spells "$\x7ba b\x7d" "a b" := hbraced.spells (by decide)
  have hname' : Spells "$in'" "in" := hplain.spells (by decide)
  refine ⟨hbraced, hplain, ?_, ?_⟩
  · exact token_spells_one_variable.1 "$in'" hplain
  · apply (token_spells_one_variable.2.1 _ _ _ _ hbraced hplain hname hname').1 " " ""
    · simp [Text.Blanks]
      decide
    · exact Text.blanks_nil

-- the two spellings on which the readers part
example : Targets.parse "$\x7ba,b\x7d" = .error (.variableName "b\x7d") := by decide

example : Expression.parse "$(a" = .error (.unterminatedSubstitution "$(a") := by decide

end CueScript.Syntax
