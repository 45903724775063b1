import Mathlib.Data.List.Count
import CueScript.Proofs.Except
import CueScript.Proofs.Syntax.Layers
import CueScript.Syntax.Targets

/-!
# CueScript.Proofs.Syntax.Targets — the grammar of assignment targets

1. **Grammar**: `TargetsSpelled` lists the texts that are read as targets, `TargetsRefused` all others
   with the error that each of them meets. The commas are counted before any name is looked at.
2. **Reading**: a text has no comma, one, or more; each case is read in its own way.
3. **Exactness**: `targets_parse_exact` settles all texts. The names that are read hold no comma, and
   in braces every name without a comma can be a target.
-/

namespace CueScript.Syntax

/-! ## Grammar -/

/-- The texts that are read as targets: one token, or two with the only comma between them. -/
inductive TargetsSpelled : String → Targets → Prop where
  | one {lhs name : String} (noComma : ',' ∉ lhs.toList) (spells : parseName lhs = .ok name) :
      TargetsSpelled lhs (.value name)
  | two {l r ok name : String} (left : ',' ∉ l.toList) (right : ',' ∉ r.toList)
      (logical : parseName l = .ok ok) (value : parseName r = .ok name) :
      TargetsSpelled (l ++ "," ++ r) (.logicalAndValue ok name)

/-- The texts that are read as no targets, with the errors they meet. Of two bad tokens the first one
is reported. -/
inductive TargetsRefused : String → SyntaxError → Prop where
  | tooMany {lhs : String} (commas : 2 ≤ lhs.toList.count ',') :
      TargetsRefused lhs (.tooManyTargets lhs)
  | one {lhs : String} (noComma : ',' ∉ lhs.toList) (bad : ∀ name, parseName lhs ≠ .ok name) :
      TargetsRefused lhs (.variableName lhs)
  | first {l r : String} (left : ',' ∉ l.toList) (right : ',' ∉ r.toList)
      (bad : ∀ name, parseName l ≠ .ok name) : TargetsRefused (l ++ "," ++ r) (.variableName l)
  | second {l r ok : String} (left : ',' ∉ l.toList) (right : ',' ∉ r.toList)
      (logical : parseName l = .ok ok) (bad : ∀ name, parseName r ≠ .ok name) :
      TargetsRefused (l ++ "," ++ r) (.variableName r)

/-! ## Reading -/

variable {lhs l r : String} {t : Targets} {e : SyntaxError}

/-- A text without a comma is one target. -/
theorem parse_one (h : ',' ∉ lhs.toList) : Targets.parse lhs = (parseName lhs).map .value := by
  rw [Targets.parse, Text.cutAt?_of_not_mem h]

/-- A single comma stands between two targets, which are read from left to right. -/
theorem parse_two (hl : ',' ∉ l.toList) (hr : ',' ∉ r.toList) :
    Targets.parse (l ++ "," ++ r)
      = (parseName l).bind fun ok => (parseName r).map (.logicalAndValue ok) := by
  have hcut : Text.cutAt? ',' (l ++ "," ++ r).toList = some (l.toList, r.toList) := by
    have hsplit : (l ++ "," ++ r).toList = l.toList ++ ',' :: r.toList := by simp
    rw [hsplit, Text.cutAt?_append hl]
  rw [Targets.parse, hcut]
  simp only [if_neg hr, String.ofList_toList]
  cases parseName l with
  | error e => rfl
  | ok ok => cases parseName r <;> rfl

/-- Behind the first comma no second one may stand. -/
theorem parse_tooMany (h : 2 ≤ lhs.toList.count ',') :
    Targets.parse lhs = .error (.tooManyTargets lhs) := by
  have hmem : ',' ∈ lhs.toList := List.count_pos_iff.1 (by omega)
  obtain ⟨s, s', hsplit, hs⟩ := List.eq_append_cons_of_mem hmem
  have hmem' : ',' ∈ s' := by
    rw [hsplit, List.count_append, List.count_eq_zero.2 hs, List.count_cons_self] at h
    exact List.count_pos_iff.1 (by omega)
  rw [Targets.parse, hsplit, Text.cutAt?_append hs]
  simp only [if_pos hmem']

/-- A text has no comma, one, or more. -/
theorem comma_cases (lhs : String) :
    ',' ∉ lhs.toList ∨
    (∃ l r : String, ',' ∉ l.toList ∧ ',' ∉ r.toList ∧ lhs = l ++ "," ++ r) ∨
    2 ≤ lhs.toList.count ',' := by
  by_cases hmem : ',' ∈ lhs.toList
  · obtain ⟨s, s', hsplit, hs⟩ := List.eq_append_cons_of_mem hmem
    right
    by_cases hmem' : ',' ∈ s'
    · right
      have hpos := List.count_pos_iff.2 hmem'
      rw [hsplit, List.count_append, List.count_cons_self]
      omega
    · left
      refine ⟨String.ofList s, String.ofList s', by simpa using hs, by simpa using hmem', ?_⟩
      rw [← String.toList_inj, hsplit]
      simp
  · exact .inl hmem

/-- Every text is spelled or refused, and read accordingly. -/
theorem parse_targets_cases (lhs : String) :
    (∃ t, TargetsSpelled lhs t ∧ Targets.parse lhs = .ok t) ∨
    (∃ e, TargetsRefused lhs e ∧ Targets.parse lhs = .error e) := by
  rcases comma_cases lhs with hnone | ⟨l, r, hl, hr, rfl⟩ | hmany
  · rw [parse_one hnone]
    rcases parseName_cases lhs with ⟨name, hname⟩ | ⟨hbad, hname⟩
    · rw [hname]
      exact .inl ⟨_, .one hnone hname, rfl⟩
    · rw [hname]
      exact .inr ⟨_, .one hnone hbad, rfl⟩
  · rw [parse_two hl hr]
    rcases parseName_cases l with ⟨ok, hok⟩ | ⟨hbad, hok⟩
    · rw [hok]
      rcases parseName_cases r with ⟨name, hname⟩ | ⟨hbad, hname⟩
      · rw [hname]
        exact .inl ⟨_, .two hl hr hok hname, rfl⟩
      · rw [hname]
        exact .inr ⟨_, .second hl hr hok hbad, rfl⟩
    · rw [hok]
      exact .inr ⟨_, .first hl hr hbad, rfl⟩
  · exact .inr ⟨_, .tooMany hmany, parse_tooMany hmany⟩

/-- Spelled targets are read. -/
theorem TargetsSpelled.parse_eq (h : TargetsSpelled lhs t) : Targets.parse lhs = .ok t := by
  cases h with
  | one noComma spells =>
      rw [parse_one noComma, spells]
      rfl
  | two left right logical value =>
      rw [parse_two left right, logical, value]
      rfl

/-- Refused targets meet their error. -/
theorem TargetsRefused.parse_eq (h : TargetsRefused lhs e) : Targets.parse lhs = .error e := by
  cases h with
  | tooMany commas => exact parse_tooMany commas
  | one noComma bad =>
      rw [parse_one noComma, parseName_of_bad bad]
      rfl
  | first left right bad =>
      rw [parse_two left right, parseName_of_bad bad]
      rfl
  | second left right logical bad =>
      rw [parse_two left right, logical, parseName_of_bad bad]
      rfl

theorem parse_targets_eq_ok_iff : Targets.parse lhs = .ok t ↔ TargetsSpelled lhs t := by
  constructor
  · intro h
    rcases parse_targets_cases lhs with ⟨t', hspelled, hread⟩ | ⟨e, -, hread⟩
    · rw [hread] at h
      exact Except.ok.inj h ▸ hspelled
    · simp [hread] at h
  · exact TargetsSpelled.parse_eq

theorem parse_targets_eq_error_iff : Targets.parse lhs = .error e ↔ TargetsRefused lhs e := by
  constructor
  · intro h
    rcases parse_targets_cases lhs with ⟨t, -, hread⟩ | ⟨e', hrefused, hread⟩
    · simp [hread] at h
    · rw [hread] at h
      exact Except.error.inj h ▸ hrefused
  · exact TargetsRefused.parse_eq

/-! ## Names without commas -/

/-- A name holds no comma unless its token does. -/
theorem comma_not_mem_name {token name : String} (h : parseName token = .ok name)
    (hcomma : ',' ∉ token.toList) : ',' ∉ name.toList :=
  fun hmem => hcomma ((isInfix_of_parseName h).subset hmem)

theorem TargetsSpelled.comma_not_mem (h : TargetsSpelled lhs t) :
    ∀ name ∈ t.names, ',' ∉ name.toList := by
  intro name hname
  cases h with
  | one noComma spells =>
      obtain rfl := List.mem_singleton.1 hname
      exact comma_not_mem_name spells noComma
  | two left right logical value =>
      simp only [Targets.names, List.mem_cons, List.not_mem_nil, or_false] at hname
      rcases hname with rfl | rfl
      · exact comma_not_mem_name logical left
      · exact comma_not_mem_name value right

/-- A run of blanks holds no comma. -/
theorem comma_not_mem_blanks {w : List Char} (hw : Text.Blanks w) : ',' ∉ w := by
  intro hmem
  exact absurd (hw ',' hmem) (by decide)

section Braces

variable {a b w w' v v' : String}

/-- A padded token in braces holds no comma of its own. -/
theorem comma_not_mem_braced (ha : ',' ∉ a.toList) (hw : Text.Blanks w.toList)
    (hw' : Text.Blanks w'.toList) : ',' ∉ (w ++ braced a ++ w').toList := by
  simp [comma_not_mem_blanks hw, comma_not_mem_blanks hw', ha]

theorem parseName_padded_braced (hw : Text.Blanks w.toList) (hw' : Text.Blanks w'.toList) :
    parseName (w ++ braced a ++ w') = .ok a := by
  have hquote : Text.Layer isQuote "".toList := Text.layer_nil
  have h := parseName_braced_in_layers hw hquote hquote hw' a
  rwa [String.append_empty, String.append_empty] at h

theorem targetsSpelled_braced (ha : ',' ∉ a.toList) (hw : Text.Blanks w.toList)
    (hw' : Text.Blanks w'.toList) : TargetsSpelled (w ++ braced a ++ w') (.value a) :=
  .one (comma_not_mem_braced ha hw hw') (parseName_padded_braced hw hw')

theorem targetsSpelled_two_braced (ha : ',' ∉ a.toList) (hb : ',' ∉ b.toList)
    (hw : Text.Blanks w.toList) (hw' : Text.Blanks w'.toList) (hv : Text.Blanks v.toList)
    (hv' : Text.Blanks v'.toList) :
    TargetsSpelled (w ++ braced a ++ w' ++ "," ++ v ++ braced b ++ v') (.logicalAndValue a b) := by
  have h : TargetsSpelled ((w ++ braced a ++ w') ++ "," ++ (v ++ braced b ++ v'))
      (.logicalAndValue a b) :=
    .two (comma_not_mem_braced ha hw hw') (comma_not_mem_braced hb hv hv')
      (parseName_padded_braced hw hw') (parseName_padded_braced hv hv')
  simpa only [String.append_assoc] using h

end Braces

/-! ## Exactness -/

/-- Reading targets is exact: a text is read exactly when it spells the targets, and refused exactly
when the grammar refuses it, with that error. Every name that is read is free of commas, and every
name that is free of commas, the empty one included, can be a target, alone or beside another one,
with any padding. -/
theorem targets_parse_exact :
    (∀ (lhs : String) (t : Targets), Targets.parse lhs = .ok t ↔ TargetsSpelled lhs t) ∧
    (∀ (lhs : String) (e : SyntaxError), Targets.parse lhs = .error e ↔ TargetsRefused lhs e) ∧
    (∀ (lhs : String) (t : Targets), Targets.parse lhs = .ok t →
      ∀ name ∈ t.names, ',' ∉ name.toList) ∧
    (∀ a w w' : String, ',' ∉ a.toList → Text.Blanks w.toList → Text.Blanks w'.toList →
      Targets.parse (w ++ braced a ++ w') = .ok (.value a) ∧
      ∀ b v v' : String, ',' ∉ b.toList → Text.Blanks v.toList → Text.Blanks v'.toList →
        Targets.parse (w ++ braced a ++ w' ++ "," ++ v ++ braced b ++ v')
          = .ok (.logicalAndValue a b)) := by
  refine ⟨fun lhs t => parse_targets_eq_ok_iff, fun lhs e => parse_targets_eq_error_iff, ?_, ?_⟩
  · intro lhs t hread
    exact (parse_targets_eq_ok_iff.1 hread).comma_not_mem
  · intro a w w' ha hw hw'
    refine ⟨(targetsSpelled_braced ha hw hw').parse_eq, ?_⟩
    intro b v v' hb hv hv'
    exact (targetsSpelled_two_braced ha hb hw hw' hv hv').parse_eq

/-- The empty name beside one with a brace and a quote at its end. -/
theorem targets_parse_exact_of_empty_name :
    Targets.parse ("" ++ braced "" ++ " " ++ "," ++ "" ++ braced "x\x7d'" ++ " ")
      = .ok (.logicalAndValue "" "x\x7d'") ∧
    ∀ name ∈ (Targets.logicalAndValue "" "x\x7d'").names, ',' ∉ name.toList := by
  have hread := (targets_parse_exact.2.2.2 "" "" " " (by decide) Text.blanks_nil
    Text.gap_space.blanks).2 "x\x7d'" "" " " (by decide) Text.blanks_nil Text.gap_space.blanks
  exact ⟨hread, targets_parse_exact.2.2.1 _ _ hread⟩

-- a second comma is reported although the first token is bad, and in braces too
example : Targets.parse "a,$\x7bb,c\x7d" = .error (.tooManyTargets "a,$\x7bb,c\x7d") := by decide

end CueScript.Syntax
