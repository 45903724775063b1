import CueScript.Condition
import CueScript.Host.Scripted
import CueScript.Proofs.Except
import CueScript.Proofs.Text.Runs

/-!
# CueScript.Proofs.Condition — which body a condition selects

1. **Headers**: a header opens a condition exactly when it starts with `if`. The blanks around the
   condition do not count.
2. **Selection**: `Branch.select` is the branch of a logical result. Which section is stepped over
   does not depend on that result.
3. **Conditions**: a condition fails at its header, or as its expression does, or it selects.
   `resolveCondition_exact` settles every pair of sections.
-/

namespace CueScript

/-! ## Headers -/

namespace Syntax

variable {header condition : String} {e : SyntaxError}

theorem ifCondition_of_if (rest : String) :
    ifCondition ("if" ++ rest) = .ok (String.ofList (Text.trim rest.toList)) := by
  have hopen : ['i', 'f'].isPrefixOf? ("if" ++ rest).toList = some rest.toList := by
    rw [List.isPrefixOf?_eq_some_iff_append_eq]
    simp
  simp only [ifCondition, hopen]

theorem ifCondition_of_not_if (h : ∀ rest : String, header ≠ "if" ++ rest) :
    ifCondition header = .error (.ifHeader header) := by
  rw [ifCondition]
  split
  · next rest hopen =>
    refine absurd ?_ (h (String.ofList rest))
    rw [← String.toList_inj, ← List.append_eq_of_isPrefixOf?_eq_some hopen]
    simp
  · rfl

/-- The condition is what follows `if`, without the blanks around it. -/
theorem ifCondition_eq_ok_iff :
    ifCondition header = .ok condition ↔
      ∃ rest : String, header = "if" ++ rest ∧
        condition = String.ofList (Text.trim rest.toList) := by
  constructor
  · intro h
    by_cases hif : ∃ rest : String, header = "if" ++ rest
    · rcases hif with ⟨rest, rfl⟩
      rw [ifCondition_of_if] at h
      exact ⟨rest, rfl, (Except.ok.inj h).symm⟩
    · rw [ifCondition_of_not_if (not_exists.1 hif)] at h
      exact absurd h (by simp)
  · rintro ⟨rest, rfl, rfl⟩
    exact ifCondition_of_if rest

/-- A header that does not start with `if` is reported as it was given. -/
theorem ifCondition_eq_error_iff :
    ifCondition header = .error e ↔
      (∀ rest : String, header ≠ "if" ++ rest) ∧ e = .ifHeader header := by
  constructor
  · intro h
    have hif : ∀ rest : String, header ≠ "if" ++ rest := by
      rintro rest rfl
      rw [ifCondition_of_if] at h
      exact absurd h (by simp)
    rw [ifCondition_of_not_if hif] at h
    exact ⟨hif, (Except.error.inj h).symm⟩
  · rintro ⟨hif, rfl⟩
    exact ifCondition_of_not_if hif

theorem isElse_iff : isElse header = true ↔ header = "else" := by
  simp [isElse]

end Syntax

/-! ## Selection -/

section Selection

variable {β : Type}

/-- The branch that the logical result of a condition selects. -/
def Branch.select (taken : Bool) (body : β) (next : Option (Section β)) : Branch β :=
  { kind := .ofLogical taken
    skipNext := (next.filter fun s => Syntax.isElse s.header).isSome
    body := if taken then some body
      else (next.filter fun s => Syntax.isElse s.header).map (·.body) }

variable {taken : Bool} {body : β} {next : Option (Section β)} {s : Section β}

theorem Branch.select_kind : (select taken body next).kind = .onTrue ↔ taken = true := by
  cases taken with
  | true => exact ⟨fun _ => rfl, fun _ => rfl⟩
  | false => simp [select, BranchKind.ofLogical]

theorem Branch.select_kind_onFalse : (select taken body next).kind = .onFalse ↔ taken = false := by
  cases taken with
  | true => simp [select, BranchKind.ofLogical]
  | false => exact ⟨fun _ => rfl, fun _ => rfl⟩

/-- The next section is stepped over when it is an alternative, whichever side applies. -/
theorem Branch.select_skipNext :
    (select taken body next).skipNext = true ↔ ∃ s, next = some s ∧ s.header = "else" := by
  cases next with
  | none => simp [select]
  | some s => simp [select, Syntax.isElse_iff]

theorem Branch.select_true_body : (select true body next).body = some body := rfl

/-- A false condition selects the alternative. -/
theorem Branch.select_false_body (h : (select false body (some s)).skipNext = true) :
    (select false body (some s)).body = some s.body := by
  rcases select_skipNext.1 h with ⟨s', hs, helse⟩
  obtain rfl := Option.some.inj hs
  simp [select, Syntax.isElse_iff.2 helse]

/-- Without an alternative, a false condition selects nothing. -/
theorem Branch.select_false_body_eq_none (h : (select false body next).skipNext = false) :
    (select false body next).body = none := by
  have hnone : next.filter (fun s => Syntax.isElse s.header) = none :=
    Option.not_isSome_iff_eq_none.1 (by simpa [select] using h)
  simp [select, hnone]

end Selection

/-! ## Conditions -/

section Conditions

variable {β : Type} {host : Host} {env : Environment} {ifSection : Section β}
  {next : Option (Section β)} {condition : String} {e : SyntaxError}

/-- Nothing is run for a header that opens no condition. -/
theorem resolveCondition_of_bad_header (h : Syntax.ifCondition ifSection.header = .error e) :
    resolveCondition host env ifSection next = .quiet (.error e) := by
  simp only [resolveCondition, h]

/-- A condition is evaluated once, and its logical result selects. -/
theorem resolveCondition_of_header (h : Syntax.ifCondition ifSection.header = .ok condition) :
    resolveCondition host env ifSection next = (evaluateText host env condition).map
      fun r => r.map fun evaluation => Branch.select evaluation.logical ifSection.body next := by
  simp only [resolveCondition, h]
  rfl

/-- A branch that is returned was selected. -/
theorem exists_select_of_resolveCondition {b : Branch β}
    (h : (resolveCondition host env ifSection next).result = .ok b) :
    ∃ taken, b = .select taken ifSection.body next := by
  cases hread : Syntax.ifCondition ifSection.header with
  | error e =>
      rw [resolveCondition_of_bad_header hread] at h
      exact absurd h (by simp)
  | ok condition =>
      rw [resolveCondition_of_header hread, Traced.result_map, Except.map_eq_ok_iff] at h
      rcases h with ⟨evaluation, -, rfl⟩
      exact ⟨evaluation.logical, rfl⟩

/-- Only the condition of a header counts, not the blanks around it. -/
theorem resolveCondition_padded (host : Host) (env : Environment) {w w' : String}
    (hw : Text.Blanks w.toList) (hw' : Text.Blanks w'.toList) (rest : String) (body : β)
    (next : Option (Section β)) :
    resolveCondition host env ⟨"if" ++ w ++ rest ++ w', body⟩ next
      = resolveCondition host env ⟨"if" ++ rest, body⟩ next := by
  have hread : Syntax.ifCondition (Section.mk ("if" ++ w ++ rest ++ w') body).header
      = .ok (String.ofList (Text.trim rest.toList)) := by
    -- both runs of blanks are a part of what follows `if`
    rw [String.append_assoc, String.append_assoc, Syntax.ifCondition_of_if, ← String.append_assoc,
      String.toList_append, String.toList_append, Text.trim_append hw hw']
  have hread' : Syntax.ifCondition (Section.mk ("if" ++ rest) body).header
      = .ok (String.ofList (Text.trim rest.toList)) := Syntax.ifCondition_of_if rest
  rw [resolveCondition_of_header hread, resolveCondition_of_header hread']

end Conditions

/-- What a condition selects, for every section and the one behind it. A header that does not start
with `if` is reported as it was given, and nothing is run for it. Otherwise the text behind `if`,
without the blanks around it, is evaluated: the condition makes the same calls, fails exactly as that
text does, and selects the section exactly when the text is true. The next section is stepped over
exactly when its header is `else`; its body is selected when it is stepped over and the condition is
false, and without an `else` a false condition selects nothing. So a body of the next section is
returned only when that section is stepped over, and which section is stepped over depends neither
on the environment nor on the host. Blanks behind `if` and at the end of the header never count. -/
theorem resolveCondition_exact {β : Type} (ifSection : Section β) (next : Option (Section β)) :
    ((∀ rest : String, ifSection.header ≠ "if" ++ rest) → ∀ (host : Host) (env : Environment),
      resolveCondition host env ifSection next
        = .quiet (.error (.ifHeader ifSection.header))) ∧
    (∀ rest condition : String, ifSection.header = "if" ++ rest →
      condition = String.ofList (Text.trim rest.toList) →
      ∀ (host : Host) (env : Environment),
        (resolveCondition host env ifSection next).calls
          = (evaluateText host env condition).calls ∧
        (∀ e, (resolveCondition host env ifSection next).result = .error e ↔
          (evaluateText host env condition).result = .error e) ∧
        (∀ r, (evaluateText host env condition).result = .ok r →
          ∃ b, (resolveCondition host env ifSection next).result = .ok b ∧
            (b.kind = .onTrue ↔ r.logical = true))) ∧
    (∀ (host : Host) (env : Environment) (b : Branch β),
      (resolveCondition host env ifSection next).result = .ok b →
      (b.skipNext = true ↔ ∃ s, next = some s ∧ s.header = "else") ∧
      (b.kind = .onTrue → b.body = some ifSection.body) ∧
      (∀ s, b.kind = .onFalse → b.skipNext = true → next = some s → b.body = some s.body) ∧
      (b.kind = .onFalse → b.skipNext = false → b.body = none) ∧
      (∀ s, next = some s → s.body ≠ ifSection.body → b.body = some s.body → b.skipNext = true) ∧
      (∀ (host' : Host) (env' : Environment) (b' : Branch β),
        (resolveCondition host' env' ifSection next).result = .ok b' →
        b'.skipNext = b.skipNext)) ∧
    (∀ w v w' v' rest : String, Text.Blanks w.toList → Text.Blanks v.toList →
      Text.Blanks w'.toList → Text.Blanks v'.toList →
      ∀ (host : Host) (env : Environment) (body : β),
        resolveCondition host env ⟨"if" ++ w ++ rest ++ v, body⟩ next
          = resolveCondition host env ⟨"if" ++ w' ++ rest ++ v', body⟩ next) := by
  refine ⟨?_, ?_, ?_, ?_⟩
  · intro hif host env
    exact resolveCondition_of_bad_header (Syntax.ifCondition_of_not_if hif)
  · rintro rest condition hheader rfl host env
    have hread : Syntax.ifCondition ifSection.header
        = .ok (String.ofList (Text.trim rest.toList)) := by
      rw [hheader, Syntax.ifCondition_of_if]
    rw [resolveCondition_of_header hread]
    refine ⟨Traced.calls_map _ _, ?_, ?_⟩
    · intro e
      rw [Traced.result_map, Except.map_eq_error_iff]
    · intro r hr
      refine ⟨.select r.logical ifSection.body next, ?_, Branch.select_kind⟩
      rw [Traced.result_map, hr]
      rfl
  · intro host env b hb
    rcases exists_select_of_resolveCondition hb with ⟨taken, rfl⟩
    refine ⟨Branch.select_skipNext, ?_, ?_, ?_, ?_, ?_⟩
    · intro hkind
      obtain rfl := Branch.select_kind.1 hkind
      exact Branch.select_true_body
    · rintro s hkind hskip rfl
      obtain rfl := Branch.select_kind_onFalse.1 hkind
      exact Branch.select_false_body hskip
    · intro hkind hskip
      obtain rfl := Branch.select_kind_onFalse.1 hkind
      exact Branch.select_false_body_eq_none hskip
    · intro s hnext hne hbody
      -- the body is not the one of the section, so the condition was false
      cases taken with
      | true => exact absurd (Option.some.inj hbody).symm hne
      | false =>
          by_contra hskip
          rw [Branch.select_false_body_eq_none (by simpa using hskip)] at hbody
          exact absurd hbody (by simp)
    · intro host' env' b' hb'
      rcases exists_select_of_resolveCondition hb' with ⟨taken', rfl⟩
      rfl
  · intro w v w' v' rest hw hv hw' hv' host env body
    rw [resolveCondition_padded host env hw hv, resolveCondition_padded host env hw' hv']

/-- Without a blank behind `if`, under a host that succeeds and one that fails: each body is selected
once, and the `else` is stepped over both times. -/
theorem resolveCondition_exact_of_two_hosts :
    (∃ b b' : Branch String,
      (resolveCondition (Host.scripted [("make", .outcome ⟨0, ""⟩)]) .empty
        ⟨"if$(make) ", "done"⟩ (some ⟨"else", "failed"⟩)).result = .ok b ∧
      (resolveCondition (Host.scripted []) .empty
        ⟨"if$(make) ", "done"⟩ (some ⟨"else", "failed"⟩)).result = .ok b' ∧
      b.body = some "done" ∧ b'.body = some "failed" ∧ b.skipNext = true ∧ b'.skipNext = true) ∧
    resolveCondition (Host.scripted []) .empty ⟨"if" ++ "" ++ "$(make)" ++ " ", "done"⟩ none
      = resolveCondition (Host.scripted []) .empty ⟨"if" ++ " " ++ "$(make)" ++ "", "done"⟩ none := by
  have hread : (evaluateText (Host.scripted [("make", .outcome ⟨0, ""⟩)]) .empty "$(make)").result
      = .ok ⟨true, .text ""⟩ := rfl
  have hread' : (evaluateText (Host.scripted []) .empty "$(make)").result
      = .ok ⟨false, .text "make: command not found"⟩ := rfl
  refine ⟨?_, ?_⟩
  · obtain ⟨-, hresult, hbranch, -⟩ :=
      resolveCondition_exact (Section.mk "if$(make) " "done") (some ⟨"else", "failed"⟩)
    have hruns := hresult "$(make) " "$(make)" rfl (by decide)
    obtain ⟨b, hb, hkind⟩ := (hruns _ _).2.2 _ hread
    obtain ⟨b', hb', hkind'⟩ := (hruns _ _).2.2 _ hread'
    obtain ⟨hskip, htrue, -, -, -, hother⟩ := hbranch _ _ b hb
    obtain ⟨-, -, hfalse, -⟩ := hbranch _ _ b' hb'
    have honFalse : b'.kind = .onFalse := by
      cases hk : b'.kind with
      | onTrue => exact absurd (hkind'.1 hk) (by simp)
      | onFalse => rfl
    have helse : b.skipNext = true := hskip.2 ⟨_, rfl, rfl⟩
    have helse' : b'.skipNext = true := by
      rw [hother _ _ b' hb']
      exact helse
    exact ⟨b, b', hb, hb', htrue (hkind.2 rfl), hfalse _ honFalse helse' rfl, helse, helse'⟩
  · exact (resolveCondition_exact (Section.mk "" "done") none).2.2.2 "" " " " " "" "$(make)"
      Text.blanks_nil Text.gap_space.blanks Text.gap_space.blanks Text.blanks_nil _ _ "done"

end CueScript
