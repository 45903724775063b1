import CueScript.Proofs.Except
import CueScript.Proofs.Syntax.Name
import CueScript.Syntax.Expression

/-!
# CueScript.Proofs.Syntax.Expression — the grammar of expressions

1. **Written forms**: `Expression.written` writes an expression out. The command line or the name
   in it may be any text.
2. **Grammar**: `FormSpelled` lists the texts that are read as a form, `FormRefused` all others with
   the error that each of them meets. `Framed` takes the padding and one `not ` off an input.
3. **Exactness**: `expression_parse_exact` says that reading loses nothing, accepts nothing outside
   the grammar and reports every other input with the cause that the grammar names.
-/

namespace CueScript

/-! ## Written forms -/

/-- What stands in front of a negated form. -/
def notMark (negated : Bool) : String :=
  if negated then "not " else ""

/-- A form as it is written, with braces around its name. -/
def Form.written : Form → String
  | command line => "$(" ++ line ++ ")"
  | lookup name => Syntax.braced name
  | defined name => "defined " ++ Syntax.braced name

def Expression.written (e : Expression) : String :=
  notMark e.negated ++ e.form.written

namespace Syntax

/-! ## Grammar -/

/-- The texts that are read as a form: a command line between `$(` and a final `)`, a token that
starts with `$` or with a double quote and `$`, or any token behind `defined `. -/
inductive FormSpelled : List Char → Form → Prop where
  | command (line : List Char) :
      FormSpelled (['$', '('] ++ line ++ [')']) (.command (String.ofList line))
  | lookup {text : List Char} {name : String} (opens : ['$'] <+: text ∨ ['"', '$'] <+: text)
      (noCommand : ¬ ['$', '('] <+: text) (spells : parseName (String.ofList text) = .ok name) :
      FormSpelled text (.lookup name)
  | defined {token : List Char} {name : String}
      (spells : parseName (String.ofList token) = .ok name) :
      FormSpelled ("defined ".toList ++ token) (.defined name)

/-- The texts that are read as no form, with the errors they meet in the input `whole`: a command
line that is not closed at the end, a bad name behind `defined `, or none of the three openings. -/
inductive FormRefused (whole : String) : List Char → SyntaxError → Prop where
  | unterminated {inner : List Char} (unclosed : ¬ [')'] <:+ inner) :
      FormRefused whole (['$', '('] ++ inner) (.unterminatedSubstitution whole)
  | nameless {token : List Char} (bad : ∀ name, parseName (String.ofList token) ≠ .ok name) :
      FormRefused whole ("defined ".toList ++ token) (.variableName (String.ofList token))
  | formless {text : List Char} (noDollar : ¬ ['$'] <+: text) (noQuote : ¬ ['"', '$'] <+: text)
      (noDefined : ¬ "defined ".toList <+: text) : FormRefused whole text (.expression whole)

/-- An input is padding around a text with at most one `not ` in front; without the mark, the text
itself does not start with it. -/
def Framed (input : List Char) (negated : Bool) (text : List Char) : Prop :=
  ∃ p q, Text.Blanks p ∧ Text.Blanks q ∧ input = p ++ ((notMark negated).toList ++ text) ++ q ∧
    Text.Tight ((notMark negated).toList ++ text) ∧ (negated = false → ¬ "not ".toList <+: text)

/-! ## Forms -/

variable {text : List Char} {whole : String} {f : Form} {e : SyntaxError}

/-- A text that opens a command line is closed by its last character or not at all. -/
theorem parseForm_command (inner : List Char) (whole : String) :
    (∃ line, inner = line ++ [')'] ∧
      parseForm (['$', '('] ++ inner) whole = .ok (.command (String.ofList line))) ∨
    (¬ [')'] <:+ inner ∧
      parseForm (['$', '('] ++ inner) whole = .error (.unterminatedSubstitution whole)) := by
  have hopen : "$(".toList.isPrefixOf? (['$', '('] ++ inner) = some inner := by
    rw [List.isPrefixOf?_eq_some_iff_append_eq]
    rfl
  cases hclose : [')'].isSuffixOf? inner with
  | some line =>
      left
      refine ⟨line, (List.isSuffixOf?_eq_some_iff_append_eq.1 hclose).symm, ?_⟩
      simp only [parseForm, hopen, hclose]
  | none =>
      right
      constructor
      · rintro ⟨line, hline⟩
        rw [List.isSuffixOf?_eq_some_iff_append_eq.2 hline] at hclose
        exact absurd hclose (by simp)
      · simp only [parseForm, hopen, hclose]

/-- A text with `$` in front, or a double quote and `$`, is a look-up unless it opens a command
line. -/
theorem parseForm_lookup (hopens : ['$'] <+: text ∨ ['"', '$'] <+: text)
    (hcommand : ¬ ['$', '('] <+: text) :
    parseForm text whole = (parseName (String.ofList text)).map .lookup := by
  have hnone : "$(".toList.isPrefixOf? text = none := by
    rw [Option.eq_none_iff_forall_ne_some]
    intro inner hinner
    exact hcommand ⟨inner, List.append_eq_of_isPrefixOf?_eq_some hinner⟩
  have hif : (['$'].isPrefixOf text || ['"', '$'].isPrefixOf text) = true := by
    rw [Bool.or_eq_true, List.isPrefixOf_iff_prefix, List.isPrefixOf_iff_prefix]
    exact hopens
  simp only [parseForm, hnone, hif, if_true]

/-- Behind `defined ` stands a token. -/
theorem parseForm_defined (token : List Char) (whole : String) :
    parseForm ("defined ".toList ++ token) whole
      = (parseName (String.ofList token)).map .defined := by
  have hopen : "defined ".toList.isPrefixOf? ("defined ".toList ++ token) = some token :=
    List.isPrefixOf?_eq_some_iff_append_eq.2 rfl
  have hnone : "$(".toList.isPrefixOf? ("defined ".toList ++ token) = none := rfl
  have hif : ¬ (['$'].isPrefixOf ("defined ".toList ++ token) ||
      ['"', '$'].isPrefixOf ("defined ".toList ++ token)) = true := by
    simp
  simp only [parseForm, hnone, if_neg hif, hopen]

/-- A text with none of the openings is reported with the whole input. -/
theorem parseForm_formless (hdollar : ¬ ['$'] <+: text) (hquote : ¬ ['"', '$'] <+: text)
    (hdefined : ¬ "defined ".toList <+: text) :
    parseForm text whole = .error (.expression whole) := by
  have hcommand : "$(".toList.isPrefixOf? text = none := by
    rw [Option.eq_none_iff_forall_ne_some]
    intro inner hinner
    have hsplit := List.append_eq_of_isPrefixOf?_eq_some hinner
    exact hdollar ⟨'(' :: inner, hsplit⟩
  have hif : ¬ (['$'].isPrefixOf text || ['"', '$'].isPrefixOf text) = true := by
    rw [Bool.or_eq_true, List.isPrefixOf_iff_prefix, List.isPrefixOf_iff_prefix]
    rintro (h | h)
    · exact hdollar h
    · exact hquote h
  have hnone : "defined ".toList.isPrefixOf? text = none := by
    rw [Option.eq_none_iff_forall_ne_some]
    intro token htoken
    exact hdefined ⟨token, List.append_eq_of_isPrefixOf?_eq_some htoken⟩
  simp only [parseForm, hcommand, if_neg hif, hnone]

/-- A look-up always finds a name in its text. -/
theorem exists_name_of_opens (hopens : ['$'] <+: text ∨ ['"', '$'] <+: text) :
    ∃ name, parseName (String.ofList text) = .ok name := by
  rcases hopens with ⟨inner, rfl⟩ | ⟨inner, rfl⟩
  · exact exists_parseName_of_dollar String.toList_ofList
  · exact exists_parseName_of_quote (q := '"') (by decide) String.toList_ofList

/-- Every text is spelled or refused, and read accordingly. -/
theorem parseForm_cases (text : List Char) (whole : String) :
    (∃ f, FormSpelled text f ∧ parseForm text whole = .ok f) ∨
    (∃ e, FormRefused whole text e ∧ parseForm text whole = .error e) := by
  -- the openings overlap: they are split in the order in which they are tried
  by_cases hcommand : ['$', '('] <+: text
  · rcases hcommand with ⟨inner, rfl⟩
    rcases parseForm_command inner whole with ⟨line, rfl, hread⟩ | ⟨hopen, hread⟩
    · left
      refine ⟨_, ?_, hread⟩
      rw [← List.append_assoc]
      exact .command line
    · exact .inr ⟨_, .unterminated hopen, hread⟩
  by_cases hopens : ['$'] <+: text ∨ ['"', '$'] <+: text
  · left
    rcases exists_name_of_opens hopens with ⟨name, hname⟩
    refine ⟨.lookup name, .lookup hopens hcommand hname, ?_⟩
    rw [parseForm_lookup hopens hcommand, hname]
    rfl
  rw [not_or] at hopens
  by_cases hdefined : "defined ".toList <+: text
  · rcases hdefined with ⟨token, rfl⟩
    rw [parseForm_defined]
    rcases parseName_cases (String.ofList token) with ⟨name, hname⟩ | ⟨hbad, hname⟩
    · rw [hname]
      exact .inl ⟨.defined name, .defined hname, rfl⟩
    · rw [hname]
      exact .inr ⟨_, .nameless hbad, rfl⟩
  · exact .inr ⟨_, .formless hopens.1 hopens.2 hdefined,
      parseForm_formless hopens.1 hopens.2 hdefined⟩

/-- A spelled form is read, whatever the whole input is. -/
theorem FormSpelled.parseForm_eq (h : FormSpelled text f) (whole : String) :
    parseForm text whole = .ok f := by
  cases h with
  | command line =>
      rw [List.append_assoc]
      rcases parseForm_command (line ++ [')']) whole with ⟨line', hline, hread⟩ | ⟨hopen, -⟩
      · -- the line may hold parentheses of its own: only the last one closes it
        rw [hread, List.append_cancel_right hline]
      · exact absurd ⟨line, rfl⟩ hopen
  | lookup opens noCommand spells =>
      rw [parseForm_lookup opens noCommand, spells]
      rfl
  | defined spells =>
      rw [parseForm_defined, spells]
      rfl

/-- A refused text meets its error. -/
theorem FormRefused.parseForm_eq (h : FormRefused whole text e) :
    parseForm text whole = .error e := by
  cases h with
  | @unterminated inner unclosed =>
      rcases parseForm_command inner whole with ⟨line, rfl, -⟩ | ⟨-, hread⟩
      · exact absurd ⟨line, rfl⟩ unclosed
      · exact hread
  | nameless bad =>
      rw [parseForm_defined, parseName_of_bad bad]
      rfl
  | formless noDollar noQuote noDefined => exact parseForm_formless noDollar noQuote noDefined

/-- A text is read as a form exactly when it spells it. -/
theorem parseForm_eq_ok_iff : parseForm text whole = .ok f ↔ FormSpelled text f := by
  constructor
  · intro h
    rcases parseForm_cases text whole with ⟨f', hspelled, hread⟩ | ⟨e, -, hread⟩
    · rw [hread] at h
      exact Except.ok.inj h ▸ hspelled
    · simp [hread] at h
  · intro h
    exact h.parseForm_eq whole

-- even an empty command line needs its closing parenthesis
example : parseForm "$()".toList "$()" = .ok (.command "") := rfl

example : parseForm "$(".toList "$(" = .error (.unterminatedSubstitution "$(") := rfl

/-- A form starts with the dollar sign or the quote of a token, or with `defined`. -/
theorem FormSpelled.exists_cons (h : FormSpelled text f) :
    ∃ c l, text = c :: l ∧ c ∈ ['$', '"', 'd'] := by
  cases h with
  | command line => exact ⟨'$', '(' :: (line ++ [')']), rfl, by simp⟩
  | lookup opens noCommand spells =>
      rcases opens with ⟨inner, rfl⟩ | ⟨inner, rfl⟩
      · exact ⟨'$', inner, rfl, by simp⟩
      · exact ⟨'"', '$' :: inner, rfl, by simp⟩
  | @defined token name spells => exact ⟨'d', "efined ".toList ++ token, by simp, by simp⟩

/-- A form starts neither with a blank nor with `n`, so no `not ` is mistaken for a part of it. -/
theorem FormSpelled.front (h : FormSpelled text f) :
    ∃ c l, text = c :: l ∧ Text.isBlank c = false ∧ c ≠ 'n' := by
  rcases h.exists_cons with ⟨c, l, htext, hc⟩
  simp only [List.mem_cons, List.not_mem_nil, or_false] at hc
  have hchar : Text.isBlank c = false ∧ c ≠ 'n' := by
    rcases hc with rfl | rfl | rfl <;> decide
  exact ⟨c, l, htext, hchar⟩

/-- A text meets an error exactly when the grammar refuses it with that error. -/
theorem parseForm_eq_error_iff : parseForm text whole = .error e ↔ FormRefused whole text e := by
  constructor
  · intro h
    rcases parseForm_cases text whole with ⟨f, -, hread⟩ | ⟨e', hrefused, hread⟩
    · simp [hread] at h
    · rw [hread] at h
      exact Except.error.inj h ▸ hrefused
  · exact FormRefused.parseForm_eq

/-! ## Frames -/

variable {input : List Char} {negated : Bool}

/-- An input shows its frame once it is trimmed. -/
theorem framed_iff_trim : Framed input negated text ↔
    Text.trim input = (notMark negated).toList ++ text ∧
      (negated = false → ¬ "not ".toList <+: text) := by
  rw [Text.trim_eq_iff]
  constructor
  · rintro ⟨p, q, hp, hq, hsplit, htight, hplain⟩
    exact ⟨⟨htight, p, q, hp, hq, hsplit⟩, hplain⟩
  · rintro ⟨⟨htight, p, q, hp, hq, hsplit⟩, hplain⟩
    exact ⟨p, q, hp, hq, hsplit, htight, hplain⟩

/-- The frame of an input shows what trimming leaves. -/
theorem Framed.trim_eq (h : Framed input negated text) :
    Text.trim input = (notMark negated).toList ++ text :=
  (framed_iff_trim.1 h).1

/-- A trimmed input keeps its frame. -/
theorem framed_trim : Framed (Text.trim input) negated text ↔ Framed input negated text := by
  rw [framed_iff_trim, framed_iff_trim, Text.trim_trim]

/-- Every input has a frame. -/
theorem exists_framed (input : List Char) : ∃ negated text, Framed input negated text := by
  rcases Text.exists_trim input with ⟨p, q, hp, hq, hsplit, htight⟩
  by_cases hmark : "not ".toList <+: Text.trim input
  · -- a second mark would be a part of the text: only one is taken off
    rcases hmark with ⟨text, htext⟩
    refine ⟨true, text, p, q, hp, hq, ?_, ?_, by simp⟩
    · rw [hsplit, ← htext]
      rfl
    · rw [← htext] at htight
      exact htight
  · exact ⟨false, Text.trim input, p, q, hp, hq, hsplit, htight, fun _ => hmark⟩

/-- An input has one frame only. -/
theorem Framed.unique {negated' : Bool} {text' : List Char} (h : Framed input negated text)
    (h' : Framed input negated' text') : negated = negated' ∧ text = text' := by
  -- both frames show the same trimmed text, so they agree on the mark in front of it
  have heq := h.trim_eq.symm.trans h'.trim_eq
  obtain ⟨-, -, -, -, -, -, hplain⟩ := h
  obtain ⟨-, -, -, -, -, -, hplain'⟩ := h'
  cases negated with
  | true =>
      cases negated' with
      | true => exact ⟨rfl, List.append_cancel_left heq⟩
      | false => exact absurd ⟨text, heq⟩ (hplain' rfl)
  | false =>
      cases negated' with
      | true => exact absurd ⟨text', heq.symm⟩ (hplain rfl)
      | false => exact ⟨rfl, heq⟩

/-- An input is read as the form that its frame shows. -/
theorem parse_of_framed {input : String} (h : Framed input.toList negated text) :
    Expression.parse input = (parseForm text input).map fun form => ⟨negated, form⟩ := by
  have htrim := h.trim_eq
  obtain ⟨-, -, -, -, -, -, hplain⟩ := h
  cases negated with
  | true =>
      have hmark : "not ".toList.isPrefixOf? (Text.trim input.toList) = some text :=
        List.isPrefixOf?_eq_some_iff_append_eq.2 htrim.symm
      simp only [Expression.parse, hmark]
  | false =>
      have htext : Text.trim input.toList = text := htrim
      have hmark : "not ".toList.isPrefixOf? text = none := by
        rw [Option.eq_none_iff_forall_ne_some]
        intro rest hrest
        exact hplain rfl ⟨rest, List.append_eq_of_isPrefixOf?_eq_some hrest⟩
      simp only [Expression.parse, htext, hmark]

/-- A spelled form is read in any frame. -/
theorem parse_of_spelled {input : String} (h : Framed input.toList negated text)
    (hf : FormSpelled text f) : Expression.parse input = .ok ⟨negated, f⟩ := by
  rw [parse_of_framed h, hf.parseForm_eq]
  rfl

/-- What is read is spelled in the frame of the input. -/
theorem exists_spelled {input : String} {e : Expression} (h : Expression.parse input = .ok e) :
    ∃ text, Framed input.toList e.negated text ∧ FormSpelled text e.form := by
  rcases exists_framed input.toList with ⟨negated, text, hframe⟩
  rw [parse_of_framed hframe, Except.map_eq_ok_iff] at h
  rcases h with ⟨form, hread, rfl⟩
  exact ⟨text, hframe, parseForm_eq_ok_iff.1 hread⟩

/-- An input is read as an expression exactly when its frame holds the spelled form. -/
theorem expression_parse_eq_ok_iff {input : String} {e : Expression} :
    Expression.parse input = .ok e ↔
      ∃ text, Framed input.toList e.negated text ∧ FormSpelled text e.form := by
  constructor
  · exact exists_spelled
  · rintro ⟨text, hframe, hspelled⟩
    exact parse_of_spelled hframe hspelled

/-- Padding plays no part. -/
theorem expression_parse_trim {input : String} {e : Expression} :
    Expression.parse (String.ofList (Text.trim input.toList)) = .ok e ↔
      Expression.parse input = .ok e := by
  simp only [expression_parse_eq_ok_iff, String.toList_ofList, framed_trim]

/-- A text that spells an expression starts with a token, with `defined` or with the mark of a
negation. -/
theorem exists_trim_cons {input : String} {e : Expression} (h : Expression.parse input = .ok e) :
    ∃ c l, Text.trim input.toList = c :: l ∧ c ∈ ['$', '"', 'd', 'n'] := by
  rcases exists_spelled h with ⟨text, hframe, hspelled⟩
  rw [hframe.trim_eq]
  cases e.negated with
  | true => exact ⟨'n', "ot ".toList ++ text, by simp [notMark], by simp⟩
  | false =>
      rcases hspelled.exists_cons with ⟨c, l, rfl, hc⟩
      refine ⟨c, l, by simp [notMark], ?_⟩
      exact List.mem_append_left ['n'] hc

theorem trim_ne_nil {input : String} {e : Expression} (h : Expression.parse input = .ok e) :
    Text.trim input.toList ≠ [] := by
  rcases exists_trim_cons h with ⟨c, l, htrim, -⟩
  simp [htrim]

/-- A written form is read as that form. -/
theorem formSpelled_written (f : Form) : FormSpelled f.written.toList f := by
  cases f with
  | command line =>
      have h := FormSpelled.command line.toList
      rw [String.ofList_toList] at h
      simpa [Form.written] using h
  | lookup name =>
      apply FormSpelled.lookup
      · left
        exact ⟨'{' :: (name.toList ++ ['}']), by simp [Form.written]⟩
      · simp [Form.written]
      · rw [String.ofList_toList]
        exact parseName_braced name
  | defined name =>
      have hname : parseName (String.ofList (braced name).toList) = .ok name := by
        rw [String.ofList_toList]
        exact parseName_braced name
      have h := FormSpelled.defined hname
      simpa [Form.written] using h

/-- A written form ends with a parenthesis or a brace. -/
theorem Form.written_back (f : Form) :
    ∃ l c, f.written.toList = l ++ [c] ∧ Text.isBlank c = false := by
  cases f with
  | command line => exact ⟨"$(".toList ++ line.toList, ')', by simp [Form.written], by decide⟩
  | lookup name => exact ⟨['$', '{'] ++ name.toList, '}', by simp [Form.written], by decide⟩
  | defined name =>
      exact ⟨"defined ".toList ++ ['$', '{'] ++ name.toList, '}', by simp [Form.written], by decide⟩

/-- Padding around a written expression is its frame. -/
theorem framed_written {p q : String} (hp : Text.Blanks p.toList) (hq : Text.Blanks q.toList)
    (e : Expression) : Framed (p ++ e.written ++ q).toList e.negated e.form.written.toList := by
  rcases (formSpelled_written e.form).front with ⟨c, l, hfront, hblank, hmark⟩
  rcases Form.written_back e.form with ⟨l', c', hback, hblank'⟩
  refine ⟨p.toList, q.toList, hp, hq, ?_, ⟨?_, ?_⟩, ?_⟩
  · simp [Expression.written]
  · cases e.negated with
    | true => exact Text.tightStart_cons.2 (by decide)
    | false =>
        rw [hfront]
        exact Text.tightStart_cons.2 hblank
  · rw [hback, ← List.append_assoc]
    exact Text.tightEnd_append_singleton.2 hblank'
  · -- a form without the mark does not start with `n`
    rintro - ⟨rest, hrest⟩
    rw [hfront] at hrest
    exact hmark (List.cons.inj hrest).1.symm

/-- What is written out is read back. -/
theorem parse_written (e : Expression) : Expression.parse e.written = .ok e := by
  have hframed : Framed e.written.toList e.negated e.form.written.toList := by
    simpa using framed_written (p := "") (q := "") Text.blanks_nil Text.blanks_nil e
  exact parse_of_spelled hframed (formSpelled_written e.form)

theorem parse_braced (name : String) : Expression.parse (braced name) = .ok ⟨false, .lookup name⟩ := by
  simpa [Expression.written, notMark, Form.written] using parse_written ⟨false, .lookup name⟩

theorem parse_defined_braced (name : String) :
    Expression.parse ("defined " ++ braced name) = .ok ⟨false, .defined name⟩ := by
  simpa [Expression.written, notMark, Form.written] using parse_written ⟨false, .defined name⟩

/-! ## Exactness -/

/-- Reading an expression is exact. A written expression is read back from any padding; an input is
read exactly when its frame holds a spelled form, and refused exactly when the grammar refuses what
its frame holds, with that error. Every input has one frame. -/
theorem expression_parse_exact :
    (∀ (e : Expression) (p q : String), Text.Blanks p.toList → Text.Blanks q.toList →
      Expression.parse (p ++ e.written ++ q) = .ok e) ∧
    (∀ (input : String) (e : Expression), Expression.parse input = .ok e ↔
      ∃ text, Framed input.toList e.negated text ∧ FormSpelled text e.form) ∧
    (∀ (input : String) (error : SyntaxError), Expression.parse input = .error error ↔
      ∃ negated text, Framed input.toList negated text ∧ FormRefused input text error) ∧
    (∀ input : List Char, ∃! frame : Bool × List Char, Framed input frame.1 frame.2) := by
  refine ⟨?_, ?_, ?_, ?_⟩
  · intro e p q hp hq
    rw [parse_of_framed (framed_written hp hq e), (formSpelled_written e.form).parseForm_eq]
    rfl
  · rintro input ⟨negated, form⟩
    rcases exists_framed input.toList with ⟨negated', text, hframe⟩
    rw [parse_of_framed hframe, Except.map_eq_ok_iff]
    constructor
    · rintro ⟨form', hread, heq⟩
      obtain ⟨rfl, rfl⟩ := Expression.mk.inj heq
      exact ⟨text, hframe, parseForm_eq_ok_iff.1 hread⟩
    · rintro ⟨text', hframe', hspelled⟩
      obtain ⟨rfl, rfl⟩ := hframe.unique hframe'
      exact ⟨form, hspelled.parseForm_eq input, rfl⟩
  · intro input error
    rcases exists_framed input.toList with ⟨negated, text, hframe⟩
    rw [parse_of_framed hframe, Except.map_eq_error_iff]
    constructor
    · intro hread
      exact ⟨negated, text, hframe, parseForm_eq_error_iff.1 hread⟩
    · rintro ⟨negated', text', hframe', hrefused⟩
      obtain ⟨rfl, rfl⟩ := hframe.unique hframe'
      exact hrefused.parseForm_eq
  · intro input
    rcases exists_framed input with ⟨negated, text, hframe⟩
    refine ⟨(negated, text), hframe, ?_⟩
    rintro ⟨negated', text'⟩ hframe'
    obtain ⟨rfl, rfl⟩ := hframe.unique hframe'
    rfl

end Syntax

end CueScript
