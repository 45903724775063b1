import CueScript.Cli.Parser
import CueScript.Proofs.Except
import CueScript.Proofs.Syntax.Decoding
import CueScript.Proofs.Syntax.Expression
import CueScript.Proofs.Syntax.Json
import CueScript.Proofs.Syntax.LoopHeader
import CueScript.Proofs.Text.Utf8

/-!
# CueScript.Proofs.Cli.Parser — the parser program accepts both languages and mixes nothing up

1. **Dispatch**: a loop header always opens like one and an expression never does, so the two
   languages share no text.
2. **Trees**: the document of a text is the one of the construct that it spells, blanks around it or
   not.
3. **Endings**: what is printed tells which construct was read.
-/

namespace CueScript.Cli

variable {text : List Char} {s : String} {header : LoopHeader} {e : Expression}

/-! ## Dispatch -/

theorem opensLoop_iff :
    opensLoop text = true ↔
      ∃ b l, Text.isBlank b = true ∧ text = 'f' :: 'o' :: 'r' :: b :: l := by
  constructor
  · intro h
    rw [opensLoop] at h
    split at h
    · next b l hprefix =>
      exact ⟨b, l, h, (List.append_eq_of_isPrefixOf?_eq_some hprefix).symm⟩
    · exact absurd h (by simp)
  · rintro ⟨b, l, hb, rfl⟩
    have hprefix : ['f', 'o', 'r'].isPrefixOf? ('f' :: 'o' :: 'r' :: b :: l) = some (b :: l) :=
      List.isPrefixOf?_eq_some_iff_append_eq.2 rfl
    simp only [opensLoop, hprefix, hb]

/-- Every loop header is sent to the reader of loop headers. -/
theorem opensLoop_of_header (h : LoopHeader.parse s = .ok header) :
    opensLoop (Text.trim s.toList) = true := by
  rcases Syntax.exists_spelled_of_parse h with ⟨p, hp, -⟩
  exact opensLoop_iff.2 hp.trimmed.2

/-- No expression is sent there: none of them starts with `f`. -/
theorem opensLoop_of_expression (h : Expression.parse s = .ok e) :
    opensLoop (Text.trim s.toList) = false := by
  rw [Bool.eq_false_iff]
  intro hopens
  rcases opensLoop_iff.1 hopens with ⟨b, l, -, hfor⟩
  rcases Syntax.exists_trim_cons h with ⟨c, l', hcons, hc⟩
  rw [hfor] at hcons
  obtain rfl := (List.cons.inj hcons).1
  exact absurd hc (by decide)

/-- No text is a loop header and an expression. -/
theorem not_header_and_expression (header : LoopHeader) (e : Expression) :
    ¬ (LoopHeader.parse s = .ok header ∧ Expression.parse s = .ok e) := by
  rintro ⟨hheader, he⟩
  have hopens := opensLoop_of_header hheader
  rw [opensLoop_of_expression he] at hopens
  exact absurd hopens (by decide)

/-! ## Trees -/

theorem trim_ne_nil_of_header (h : LoopHeader.parse s = .ok header) :
    Text.trim s.toList ≠ [] := by
  rcases opensLoop_iff.1 (opensLoop_of_header h) with ⟨b, l, -, hfor⟩
  simp [hfor]

theorem parseTree_of_blank (h : Text.trim s.toList = []) :
    parseTree (Text.trim s.toList) = .ok .null := by
  rw [h]
  rfl

theorem parseTree_of_header (h : LoopHeader.parse s = .ok header) :
    parseTree (Text.trim s.toList) = .ok header.toNode := by
  have hne : ¬ (Text.trim s.toList).isEmpty := by simpa using trim_ne_nil_of_header h
  rw [parseTree, if_neg hne, if_pos (opensLoop_of_header h), Syntax.loopHeader_parse_trim.2 h]
  -- a header is printed as a table, which has the members of its document in the same order
  exact congrArg Except.ok header.toTable_eq_toNode

theorem parseTree_of_expression (h : Expression.parse s = .ok e) :
    parseTree (Text.trim s.toList) = .ok e.toNode := by
  have hne : ¬ (Text.trim s.toList).isEmpty := by simpa using Syntax.trim_ne_nil h
  have hopens : ¬ opensLoop (Text.trim s.toList) = true := by simp [opensLoop_of_expression h]
  rw [parseTree, if_neg hne, if_neg hopens, Syntax.expression_parse_trim.2 h]
  rfl

/-- The document of a text is `null` when the text is blank, and that of a construct when the text
spells the construct. There are no others. -/
theorem parseTree_trim_eq_ok_iff {node : Json.Node} :
    parseTree (Text.trim s.toList) = .ok node ↔
      (Text.trim s.toList = [] ∧ node = .null) ∨
      (∃ header, LoopHeader.parse s = .ok header ∧ node = header.toNode) ∨
      (∃ e, Expression.parse s = .ok e ∧ node = e.toNode) := by
  constructor
  · intro h
    rw [parseTree] at h
    split at h
    · next hnil => exact .inl ⟨by simpa using hnil, (Except.ok.inj h).symm⟩
    split at h
    · rcases Except.map_eq_ok_iff.1 h with ⟨header, hread, rfl⟩
      exact .inr (.inl ⟨header, Syntax.loopHeader_parse_trim.1 hread, header.toTable_eq_toNode⟩)
    · rcases Except.map_eq_ok_iff.1 h with ⟨e, hread, rfl⟩
      exact .inr (.inr ⟨e, Syntax.expression_parse_trim.1 hread, rfl⟩)
  · rintro (⟨hnil, rfl⟩ | ⟨header, hread, rfl⟩ | ⟨e, hread, rfl⟩)
    · exact parseTree_of_blank hnil
    · exact parseTree_of_header hread
    · exact parseTree_of_expression hread

theorem parseTree_trim_eq_null_iff :
    parseTree (Text.trim s.toList) = .ok .null ↔ Text.trim s.toList = [] := by
  rw [parseTree_trim_eq_ok_iff]
  constructor
  · rintro (⟨hnil, -⟩ | ⟨header, -, hnode⟩ | ⟨e, -, hnode⟩)
    · exact hnil
    · exact absurd hnode.symm header.toNode_ne_null
    · exact absurd hnode.symm e.toNode_ne_null
  · intro hnil
    exact .inl ⟨hnil, rfl⟩

theorem parseTree_trim_eq_header_iff :
    parseTree (Text.trim s.toList) = .ok header.toNode ↔ LoopHeader.parse s = .ok header := by
  rw [parseTree_trim_eq_ok_iff]
  constructor
  · rintro (⟨-, hnode⟩ | ⟨header', hread, hnode⟩ | ⟨e, -, hnode⟩)
    · exact absurd hnode header.toNode_ne_null
    · obtain rfl := LoopHeader.toNode_injective hnode
      exact hread
    · exact absurd hnode (header.toNode_ne e)
  · intro hread
    exact .inr (.inl ⟨header, hread, rfl⟩)

theorem parseTree_trim_eq_expression_iff :
    parseTree (Text.trim s.toList) = .ok e.toNode ↔ Expression.parse s = .ok e := by
  rw [parseTree_trim_eq_ok_iff]
  constructor
  · rintro (⟨-, hnode⟩ | ⟨header, -, hnode⟩ | ⟨e', hread, hnode⟩)
    · exact absurd hnode e.toNode_ne_null
    · exact absurd hnode.symm (header.toNode_ne e)
    · obtain rfl := Expression.toNode_injective hnode
      exact hread
  · intro hread
    exact .inr (.inr ⟨e, hread, rfl⟩)

/-- There is no document exactly when something is left of the text and both readers refuse it. -/
theorem exists_parseTree_trim_error_iff :
    (∃ error, parseTree (Text.trim s.toList) = .error error) ↔
      Text.trim s.toList ≠ [] ∧
        (∃ error, LoopHeader.parse (String.ofList (Text.trim s.toList)) = .error error) ∧
        ∃ error, Expression.parse (String.ofList (Text.trim s.toList)) = .error error := by
  constructor
  · rintro ⟨error, herror⟩
    -- any other outcome would show a document
    have hnone : ∀ node, parseTree (Text.trim s.toList) ≠ .ok node := by simp [herror]
    refine ⟨?_, ?_, ?_⟩
    · intro hnil
      exact hnone _ (parseTree_of_blank hnil)
    · cases hread : LoopHeader.parse (String.ofList (Text.trim s.toList)) with
      | ok header =>
          have hheader := Syntax.loopHeader_parse_trim.1 hread
          exact absurd (parseTree_of_header hheader) (hnone _)
      | error error => exact ⟨error, rfl⟩
    · cases hread : Expression.parse (String.ofList (Text.trim s.toList)) with
      | ok e =>
          have he := Syntax.expression_parse_trim.1 hread
          exact absurd (parseTree_of_expression he) (hnone _)
      | error error => exact ⟨error, rfl⟩
  · rintro ⟨hne, ⟨error, hheader⟩, ⟨error', he⟩⟩
    cases htree : parseTree (Text.trim s.toList) with
    | error error => exact ⟨error, rfl⟩
    | ok node =>
        rcases parseTree_trim_eq_ok_iff.1 htree with ⟨hnil, -⟩ | ⟨_, hread, -⟩ | ⟨_, hread, -⟩
        · exact absurd hnil hne
        · rw [← Syntax.loopHeader_parse_trim, hheader] at hread
          exact absurd hread (by simp)
        · rw [← Syntax.expression_parse_trim, he] at hread
          exact absurd hread (by simp)

/-! ## Endings -/

variable {input : List UInt8}

/-- The printed line shows the document. -/
theorem parser_eq_success_iff {node : Json.Node} (h : Text.Utf8.decode? input = some text) :
    parser input = .success (node.compact ++ "\n") ↔ parseTree (Text.trim text) = .ok node := by
  simp only [parser, h]
  cases parseTree (Text.trim text) with
  | error error => simp
  | ok node' =>
      simp only [Ending.success.injEq, Except.ok.injEq, String.append_left_inj]
      exact Json.Node.compact_injective.eq_iff

theorem exists_parser_eq_failure_iff (h : Text.Utf8.decode? input = some text) :
    (∃ message, parser input = .failure message) ↔
      ∃ error, parseTree (Text.trim text) = .error error := by
  simp only [parser, h]
  cases parseTree (Text.trim text) <;> simp

/-- The parser program is complete and unambiguous, whatever text it is given. It prints `null` for
a blank text, the document of a loop header for a text that spells the header, that of an expression
for a text that spells the expression, and fails on all others; each ending occurs in its case only.
No text spells both constructs. Looking at the first characters never sends a text to the wrong
reader, and taking the outer blanks off first changes no result. -/
theorem parser_exact (h : Text.Utf8.decode? input = some s.toList) :
    (∀ header e, ¬ (LoopHeader.parse s = .ok header ∧ Expression.parse s = .ok e)) ∧
    (parser input = .success "null\n" ↔ Text.trim s.toList = []) ∧
    (∀ header : LoopHeader, parser input = .success (header.toNode.compact ++ "\n") ↔
      LoopHeader.parse s = .ok header) ∧
    (∀ e : Expression, parser input = .success (e.toNode.compact ++ "\n") ↔
      Expression.parse s = .ok e) ∧
    ((∃ message, parser input = .failure message) ↔
      Text.trim s.toList ≠ [] ∧
        (∃ error, LoopHeader.parse (String.ofList (Text.trim s.toList)) = .error error) ∧
        ∃ error, Expression.parse (String.ofList (Text.trim s.toList)) = .error error) ∧
    (∀ header, LoopHeader.parse s = .ok header → opensLoop (Text.trim s.toList) = true) ∧
    (∀ e, Expression.parse s = .ok e → opensLoop (Text.trim s.toList) = false) ∧
    (∀ header, LoopHeader.parse (String.ofList (Text.trim s.toList)) = .ok header ↔
      LoopHeader.parse s = .ok header) ∧
    (∀ e, Expression.parse (String.ofList (Text.trim s.toList)) = .ok e ↔
      Expression.parse s = .ok e) := by
  refine ⟨not_header_and_expression, ?_, ?_, ?_, ?_, ?_, ?_, ?_, ?_⟩
  · have hnull : "null\n" = Json.Node.null.compact ++ "\n" := rfl
    rw [← parseTree_trim_eq_null_iff, hnull]
    exact parser_eq_success_iff h
  · intro header
    rw [← parseTree_trim_eq_header_iff]
    exact parser_eq_success_iff h
  · intro e
    rw [← parseTree_trim_eq_expression_iff]
    exact parser_eq_success_iff h
  · rw [← exists_parseTree_trim_error_iff]
    exact exists_parser_eq_failure_iff h
  · intro header
    exact opensLoop_of_header
  · intro e
    exact opensLoop_of_expression
  · intro header
    exact Syntax.loopHeader_parse_trim
  · intro e
    exact Syntax.expression_parse_trim

/-- A padded loop over a negated expression is printed as a loop, the expression alone is not. -/
theorem parser_exact_of_negated_loop :
    (parser (Text.Utf8.encode " for $k, $v in not $x\n".toList)
        = .success "\x7b\"control_vars\":[\"k\",\"v\"],\"expression\":\"not $x\"\x7d\n" ∧
      opensLoop (Text.trim " for $k, $v in not $x\n".toList) = true) ∧
    (parser (Text.Utf8.encode "not $x\n".toList)
        = .success "\x7b\"negated\":true,\"expr\":\x7b\"Variable\":\"x\"\x7d\x7d\n" ∧
      opensLoop (Text.trim "not $x\n".toList) = false) := by
  have hheader : LoopHeader.parse " for $k, $v in not $x\n" = .ok ⟨.pair "k" "v", "not $x"⟩ := rfl
  have he : Expression.parse "not $x\n" = .ok ⟨true, .lookup "x"⟩ := rfl
  have hline : (LoopHeader.toNode ⟨.pair "k" "v", "not $x"⟩).compact ++ "\n"
      = "\x7b\"control_vars\":[\"k\",\"v\"],\"expression\":\"not $x\"\x7d\n" := rfl
  have hline' : (Expression.toNode ⟨true, .lookup "x"⟩).compact ++ "\n"
      = "\x7b\"negated\":true,\"expr\":\x7b\"Variable\":\"x\"\x7d\x7d\n" := rfl
  obtain ⟨-, -, hloop, -, -, hopens, -⟩ :=
    parser_exact (Text.Utf8.decode?_encode " for $k, $v in not $x\n".toList)
  obtain ⟨-, -, -, hplain, -, -, hstays, -⟩ :=
    parser_exact (Text.Utf8.decode?_encode "not $x\n".toList)
  rw [← hline, ← hline']
  exact ⟨⟨(hloop _).2 hheader, hopens _ hheader⟩, (hplain _).2 he, hstays _ he⟩

end CueScript.Cli
