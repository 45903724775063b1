import CueScript.Proofs.Text.Affix
import CueScript.Proofs.Text.Runs
import CueScript.Syntax.Name

/-!
# CueScript.Proofs.Syntax.Name — which tokens spell a variable

A token whose trimmed form starts with `$`, or with a quote and `$`, always spells a name; `${n}`,
written `braced n`, spells `n`, whatever `n` is. A refused token is reported as it was given.
-/

namespace CueScript.Syntax

variable {token inner : List Char} {q : Char}

/-- The name behind a `$`: one quote comes off the end, then one layer of braces. -/
def nameBehind (inner : List Char) : List Char :=
  Text.peel (· == '{') (· == '}') (Text.dropLastIf isQuote inner)

/-- A token that starts with `$` spells a name. -/
theorem nameOf?_of_dollar (h : Text.trim token = '$' :: inner) :
    nameOf? token = some (nameBehind inner) := by
  -- no quote is in front, but one at the end comes off all the same
  have hpeel : Text.peel isQuote isQuote (Text.trim token)
      = '$' :: Text.dropLastIf isQuote inner := by
    rw [h, Text.peel, Text.dropFirstIf_cons, if_neg (by decide), Text.dropLastIf_cons (by decide)]
  simp only [nameOf?, hpeel, nameBehind]

/-- A quote in front of the `$` makes no difference. -/
theorem nameOf?_of_quote (hq : isQuote q = true) (h : Text.trim token = q :: '$' :: inner) :
    nameOf? token = some (nameBehind inner) := by
  have hpeel : Text.peel isQuote isQuote (Text.trim token)
      = '$' :: Text.dropLastIf isQuote inner := by
    rw [h, Text.peel, Text.dropFirstIf_cons, if_pos hq, Text.dropLastIf_cons (by decide)]
  simp only [nameOf?, hpeel, nameBehind]

/-- Braces come off whole. -/
theorem nameBehind_braced (name : List Char) : nameBehind ('{' :: (name ++ ['}'])) = name := by
  -- the brace keeps a quote at the end of the name from coming off
  have hquote : Text.dropLastIf isQuote ('{' :: (name ++ ['}'])) = '{' :: (name ++ ['}']) := by
    rw [← List.cons_append, Text.dropLastIf_append_singleton, if_neg (by decide)]
  rw [nameBehind, hquote, Text.peel, Text.dropFirstIf_cons, if_pos (by decide),
    Text.dropLastIf_append_singleton, if_pos (by decide)]

theorem parseName_eq_ok_iff {t n : String} :
    parseName t = .ok n ↔ nameOf? t.toList = some n.toList := by
  rw [parseName]
  cases nameOf? t.toList with
  | none => simp
  | some name =>
      simp only [Except.ok.injEq, Option.some.injEq]
      constructor
      · rintro rfl
        rw [String.toList_ofList]
      · rintro rfl
        rw [String.ofList_toList]

/-- A refused token is reported as it was given. -/
theorem parseName_eq_error_iff {t : String} {e : SyntaxError} :
    parseName t = .error e ↔ nameOf? t.toList = none ∧ e = .variableName t := by
  rw [parseName]
  cases nameOf? t.toList with
  | none => simp [eq_comm]
  | some name => simp

/-- A name is found, or the token is reported. -/
theorem parseName_cases (token : String) :
    (∃ name, parseName token = .ok name) ∨
    ((∀ name, parseName token ≠ .ok name) ∧ parseName token = .error (.variableName token)) := by
  cases hname : parseName token with
  | ok name => exact .inl ⟨name, rfl⟩
  | error e =>
      obtain ⟨-, rfl⟩ := parseName_eq_error_iff.1 hname
      exact .inr ⟨by simp, rfl⟩

/-- A bad token is reported as it was given. -/
theorem parseName_of_bad {token : String} (h : ∀ name, parseName token ≠ .ok name) :
    parseName token = .error (.variableName token) := by
  rcases parseName_cases token with ⟨name, hname⟩ | ⟨-, hname⟩
  · exact absurd hname (h name)
  · exact hname

/-- The token `${name}`. -/
def braced (name : String) : String :=
  "$\x7b" ++ name ++ "\x7d"

@[simp] theorem toList_braced (name : String) :
    (braced name).toList = '$' :: '{' :: (name.toList ++ ['}']) := by
  simp [braced]

theorem tight_braced (name : String) : Text.Tight (braced name).toList := by
  rw [toList_braced]
  refine ⟨Text.tightStart_cons.2 (by decide), ?_⟩
  rw [← List.cons_append, ← List.cons_append]
  exact Text.tightEnd_append_singleton.2 (by decide)

/-- A token in braces spells what stands between them, whatever that is. -/
theorem parseName_braced (name : String) : parseName (braced name) = .ok name := by
  have htrim : Text.trim (braced name).toList = '$' :: '{' :: (name.toList ++ ['}']) := by
    rw [(tight_braced name).trim_eq, toList_braced]
  rw [parseName_eq_ok_iff, nameOf?_of_dollar htrim, nameBehind_braced]

/-- A token with `$` in front is never refused. -/
theorem exists_parseName_of_dollar {t : String} (ht : t.toList = '$' :: inner) :
    ∃ n, parseName t = .ok n := by
  refine ⟨String.ofList (nameBehind (Text.trimEnd inner)), ?_⟩
  rw [parseName_eq_ok_iff, ht, nameOf?_of_dollar (Text.trim_cons (by decide)),
    String.toList_ofList]

/-- A quote is no blank. -/
theorem isBlank_of_isQuote (hq : isQuote q = true) : Text.isBlank q = false := by
  simp only [isQuote, Bool.or_eq_true, beq_iff_eq] at hq
  rcases hq with rfl | rfl
  · decide
  · decide

/-- A token with a quote and `$` in front is never refused. -/
theorem exists_parseName_of_quote {t : String} (hq : isQuote q = true)
    (ht : t.toList = q :: '$' :: inner) : ∃ n, parseName t = .ok n := by
  have htrim : Text.trim (q :: '$' :: inner) = q :: '$' :: Text.trimEnd inner := by
    rw [Text.trim_cons (isBlank_of_isQuote hq), Text.trimEnd_cons (by decide)]
  refine ⟨String.ofList (nameBehind (Text.trimEnd inner)), ?_⟩
  rw [parseName_eq_ok_iff, ht, nameOf?_of_quote hq htrim, String.toList_ofList]

end CueScript.Syntax
