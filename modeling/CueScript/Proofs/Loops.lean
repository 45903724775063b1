import CueScript.Host.Scripted
import CueScript.Loop
import CueScript.Proofs.Spelling
import CueScript.Proofs.Text.Words

/-!
# CueScript.Proofs.Loops — what a loop runs over

1. **Values**: the items of each kind of value, for one control variable and for two.
2. **Loops**: a loop fails at its header or at its expression, or it takes the items of the value.
   `resolveLoop_exact` settles every header.
3. **Mappings**: two control variables run over the entries of a variable that is bound to a mapping.
   The empty mapping is false, so that its variable reads as a text, which can not be taken apart.
-/

namespace CueScript

/-! ## Values -/

section Values

variable {name key text : String} {v : Value}

/-- One control variable runs over the words of a text. -/
theorem Loop.ofValue_text {s : String} (l : Text.WordLayout s.toList) :
    ofValue (.single name) text (.text s)
      = .ok (l.words.map fun w => .scalar (.text (String.ofList w))) := by
  rw [← l.words_eq]
  rfl

/-- Nothing else has words. -/
theorem Loop.ofValue_single (hv : ∀ s, v ≠ .text s) : ofValue (.single name) text v = .ok [] := by
  cases v with
  | text s => exact absurd rfl (hv s)
  | bool b => rfl
  | list items => rfl
  | mapping entries => rfl

/-- Two control variables run over the entries of a mapping. -/
theorem Loop.ofValue_mapping {entries : List (String × Value)} :
    ofValue (.pair key name) text (.mapping entries)
      = .ok (entries.map fun e => .pair e.1 e.2) := rfl

/-- Nothing else has entries. -/
theorem Loop.ofValue_pair (hv : ∀ entries, v ≠ .mapping entries) :
    ofValue (.pair key name) text v = .error (.destructure v.typeName text) := by
  cases v with
  | mapping entries => exact absurd rfl (hv entries)
  | text s => rfl
  | bool b => rfl
  | list items => rfl

end Values

/-! ## Loops -/

section Loops

variable {host : Host} {env : Environment} {header text : String} {vars : ControlVars}
  {e : SyntaxError}

/-- Nothing is run for a text that opens no loop. -/
theorem resolveLoop_of_bad_header (h : LoopHeader.parse header = .error e) :
    resolveLoop host env header = .quiet (.error e) := by
  rw [resolveLoop, h]

/-- A loop evaluates its expression once. The items depend on the value alone, whatever the logical
result is. -/
theorem resolveLoop_of_header (h : LoopHeader.parse header = .ok ⟨vars, text⟩) :
    resolveLoop host env header = (evaluateText host env text).map
      fun result => result.bind fun r => (Loop.ofValue vars text r.value).map (Loop.mk vars) := by
  simp only [resolveLoop, h, Traced.map]
  cases (evaluateText host env text).result with
  | error e => rfl
  | ok r =>
      simp only [bind, Except.bind]
      cases Loop.ofValue vars text r.value with
      | error e => rfl
      | ok items => rfl

end Loops

/-- What a loop runs over, for every header. A text that is no header is reported whole, and nothing
is run for it. Otherwise the header has a written form, and its expression, without the blanks
around it, is evaluated; an error of the expression is handed on. The items depend on its value
alone. One control variable runs over the words of a text: the text has one layout as words with
blanks around them, and no other character is lost, doubled or moved. Over other values it does not
run at all. Two control variables run over the entries of a mapping, in order; any other value is
reported by its type, with the expression. -/
theorem resolveLoop_exact (host : Host) (env : Environment) (header : String) :
    (∀ e, LoopHeader.parse header = .error e →
      resolveLoop host env header = .quiet (.error (.forHeader header))) ∧
    (∀ vars text, LoopHeader.parse header = .ok ⟨vars, text⟩ →
      (∃ p, Syntax.HeaderSpelled header.toList p ∧ Syntax.Denotes p ⟨vars, text⟩) ∧
      (resolveLoop host env header).calls = (evaluateText host env text).calls ∧
      (∀ e, (evaluateText host env text).result = .error e →
        (resolveLoop host env header).result = .error e) ∧
      (∀ r, (evaluateText host env text).result = .ok r →
        (∀ name s, vars = .single name → r.value = .text s →
          ∃ l : Text.WordLayout s.toList, (∀ l', l' = l) ∧
            l.words.flatten = (s.toList.filter fun c => !Text.isBlank c) ∧
            (resolveLoop host env header).result
              = .ok ⟨vars, l.words.map fun w => .scalar (.text (String.ofList w))⟩) ∧
        (∀ name, vars = .single name → (∀ s, r.value ≠ .text s) →
          (resolveLoop host env header).result = .ok ⟨vars, []⟩) ∧
        (∀ key name entries, vars = .pair key name → r.value = .mapping entries →
          (resolveLoop host env header).result
            = .ok ⟨vars, entries.map fun e => .pair e.1 e.2⟩) ∧
        (∀ key name, vars = .pair key name → (∀ entries, r.value ≠ .mapping entries) →
          (resolveLoop host env header).result
            = .error (.destructure r.value.typeName text)))) := by
  refine ⟨?_, ?_⟩
  · intro e hparse
    obtain rfl := Syntax.error_of_parse hparse
    exact resolveLoop_of_bad_header hparse
  · intro vars text hparse
    refine ⟨Syntax.exists_spelled_of_parse hparse, ?_, ?_, ?_⟩
    · rw [resolveLoop_of_header hparse, Traced.calls_map]
    · intro e he
      rw [resolveLoop_of_header hparse, Traced.result_map, he]
      rfl
    · intro r hr
      have hresult : (resolveLoop host env header).result
          = (Loop.ofValue vars text r.value).map (Loop.mk vars) := by
        rw [resolveLoop_of_header hparse, Traced.result_map, hr]
        rfl
      rw [hresult]
      refine ⟨?_, ?_, ?_, ?_⟩
      · rintro name s rfl hs
        obtain ⟨l⟩ := Text.exists_wordLayout s.toList
        refine ⟨l, fun l' => l'.eq l, l.flatten_words, ?_⟩
        rw [hs, Loop.ofValue_text l]
        rfl
      · rintro name rfl hv
        rw [Loop.ofValue_single hv]
        rfl
      · rintro key name entries rfl hentries
        rw [hentries, Loop.ofValue_mapping]
        rfl
      · rintro key name rfl hv
        rw [Loop.ofValue_pair hv]
        rfl

/-- A command that fails is looped over all the same; its words stand between blanks of three
kinds. -/
theorem resolveLoop_exact_of_failing_command :
    LoopHeader.parse "for $f in $(ls) " = .ok ⟨.single "f", "$(ls)"⟩ ∧
    (evaluateText (Host.scripted [("ls", .outcome ⟨2, "ls:\u3000no \t dir\n"⟩)]) .empty
      "$(ls)").result = .ok ⟨false, .text "ls:\u3000no \t dir\n"⟩ ∧
    (resolveLoop (Host.scripted [("ls", .outcome ⟨2, "ls:\u3000no \t dir\n"⟩)]) .empty
      "for $f in $(ls) ").result = .ok ⟨.single "f",
        [.scalar (.text "ls:"), .scalar (.text "no"), .scalar (.text "dir")]⟩ := by
  have hparse : LoopHeader.parse "for $f in $(ls) " = .ok ⟨.single "f", "$(ls)"⟩ := by decide
  have hvalue : (evaluateText (Host.scripted [("ls", .outcome ⟨2, "ls:\u3000no \t dir\n"⟩)]) .empty
      "$(ls)").result = .ok ⟨false, .text "ls:\u3000no \t dir\n"⟩ := rfl
  refine ⟨hparse, hvalue, ?_⟩
  obtain ⟨-, -, -, hitems⟩ := (resolveLoop_exact _ _ _).2 _ _ hparse
  obtain ⟨l, -, -, hresult⟩ := (hitems _ hvalue).1 _ _ rfl rfl
  have hwords : l.words = ["ls:".toList, "no".toList, "dir".toList] := by
    rw [← l.words_eq]
    simp only [String.reduceToList]
    decide
  rw [hresult, hwords]
  simp

/-! ## Mappings -/

section Mappings

variable {host : Host} {env : Environment} {header text key name m : String}
  {entries : List (String × Value)}

/-- The variable of a mapping is taken apart, unless the mapping is empty. -/
theorem resolveLoop_of_mapping (h : LoopHeader.parse header = .ok ⟨.pair key name, text⟩)
    (hread : Expression.parse text = .ok ⟨false, .lookup m⟩)
    (hm : env.get? m = some (.mapping entries)) :
    resolveLoop host env header = .quiet (if entries = [] then .error (.destructure "text" text)
      else .ok ⟨.pair key name, entries.map fun e => .pair e.1 e.2⟩) := by
  rw [resolveLoop_of_header h, evaluateText_lookup host hread hm]
  cases entries with
  | nil => rfl
  | cons e entries => rfl

theorem parse_mapping_loop {t₁ t₂ : String} (ht₁ : Syntax.IsToken t₁.toList)
    (ht₂ : Syntax.IsToken t₂.toList) (m : String) :
    ∃ key name, Syntax.parseName t₁ = .ok key ∧ Syntax.parseName t₂ = .ok name ∧
      LoopHeader.parse ("for " ++ t₁ ++ ", " ++ t₂ ++ " in " ++ Syntax.braced m)
        = .ok ⟨.pair key name, Syntax.braced m⟩ := by
  rcases ht₁.exists_name with ⟨key, hkey⟩
  rcases ht₂.exists_name with ⟨name, hname⟩
  rw [String.ofList_toList] at hkey hname
  have htrim : Text.trim (Syntax.braced m).toList = (Syntax.braced m).toList :=
    (Syntax.tight_braced m).trim_eq
  have hne : Text.trim (Syntax.braced m).toList ≠ [] := by
    rw [htrim, Syntax.toList_braced]
    simp
  have hparse : LoopHeader.parse
      ("for" ++ " " ++ t₁ ++ "" ++ "," ++ " " ++ t₂ ++ " " ++ "in" ++ " " ++ Syntax.braced m)
        = .ok ⟨.pair key name, String.ofList (Text.trim (Syntax.braced m).toList)⟩ :=
    Syntax.parse_pair_header ht₁ ht₂ hkey hname Text.gap_space Text.blanks_nil
      Text.gap_space.blanks Text.gap_space Text.gap_space hne
  refine ⟨key, name, hkey, hname, ?_⟩
  have hheader : "for " ++ t₁ ++ ", " ++ t₂ ++ " in " ++ Syntax.braced m
      = "for" ++ " " ++ t₁ ++ "" ++ "," ++ " " ++ t₂ ++ " " ++ "in" ++ " " ++ Syntax.braced m := by
    rw [← String.toList_inj]
    simp
  rw [hheader, hparse, htrim, String.ofList_toList]

end Mappings

/-- A loop with two control variables over a variable that is bound to a mapping calls no host. Its
items are the entries of the mapping, in order, as long as there are any. The empty mapping is
false, so that its variable has the empty text for its value, and a text is what is reported. -/
theorem mapping_loop_items (host : Host) (env : Environment) {m t₁ t₂ : String}
    {entries : List (String × Value)} (hm : env.get? m = some (.mapping entries))
    (ht₁ : Syntax.IsToken t₁.toList) (ht₂ : Syntax.IsToken t₂.toList) :
    ∃ key name, Syntax.parseName t₁ = .ok key ∧ Syntax.parseName t₂ = .ok name ∧
      (entries ≠ [] →
        resolveLoop host env ("for " ++ t₁ ++ ", " ++ t₂ ++ " in " ++ Syntax.braced m)
          = .quiet (.ok ⟨.pair key name, entries.map fun e => .pair e.1 e.2⟩)) ∧
      (entries = [] →
        resolveLoop host env ("for " ++ t₁ ++ ", " ++ t₂ ++ " in " ++ Syntax.braced m)
          = .quiet (.error (.destructure "text" (Syntax.braced m)))) := by
  rcases parse_mapping_loop ht₁ ht₂ m with ⟨key, name, hkey, hname, hparse⟩
  refine ⟨key, name, hkey, hname, ?_, ?_⟩
  · intro hne
    rw [resolveLoop_of_mapping hparse (Syntax.parse_braced m) hm, if_neg hne]
  · intro hnil
    rw [resolveLoop_of_mapping hparse (Syntax.parse_braced m) hm, if_pos hnil]

/-- A variable with a blank in its name, with one entry that is a list, and tokens with a comma in
braces and with a stray quote. -/
theorem mapping_loop_items_of_one_entry :
    (Environment.ofPairs [("a b", .mapping [("k", .list [])])]).get? "a b"
      = some (.mapping [("k", .list [])]) ∧
    Syntax.IsToken "$\x7bx, y\x7d".toList ∧ Syntax.IsToken "$v'".toList ∧
    ∃ key name, Syntax.parseName "$\x7bx, y\x7d" = .ok key ∧ Syntax.parseName "$v'" = .ok name ∧
      resolveLoop (Host.scripted []) (.ofPairs [("a b", .mapping [("k", .list [])])])
          ("for " ++ "$\x7bx, y\x7d" ++ ", " ++ "$v'" ++ " in " ++ Syntax.braced "a b")
        = .quiet (.ok ⟨.pair key name, [.pair "k" (.list [])]⟩) := by
  have hm : (Environment.ofPairs [("a b", .mapping [("k", .list [])])]).get? "a b"
      = some (.mapping [("k", .list [])]) := by decide
  have hbraced : Syntax.IsToken "$\x7bx, y\x7d".toList :=
    .braced (b := "x, y".toList) (by decide) (by decide)
  have hplain : Syntax.IsToken "$v'".toList :=
    Syntax.Cursor.isToken_of_all (n := "v'".toList) (by decide) (by decide) (by decide)
  rcases mapping_loop_items (Host.scripted []) _ hm hbraced hplain with
    ⟨key, name, hkey, hname, hitems, -⟩
  exact ⟨hm, hbraced, hplain, key, name, hkey, hname, hitems (by decide)⟩

/-- A loop over the variable of a mapping does not always run: the empty mapping is refused. -/
theorem empty_mapping_loop_refused :
    ¬ ∀ (host : Host) (env : Environment) (m t₁ t₂ : String) (entries : List (String × Value)),
      env.get? m = some (.mapping entries) → Syntax.IsToken t₁.toList → Syntax.IsToken t₂.toList →
      ∃ l, (resolveLoop host env
          ("for " ++ t₁ ++ ", " ++ t₂ ++ " in " ++ Syntax.braced m)).result = .ok l ∧
        l.items = entries.map fun e => .pair e.1 e.2 := by
  intro hall
  have hkey : Syntax.IsToken "$k".toList :=
    Syntax.Cursor.isToken_of_all (n := ['k']) (by decide) (by decide) (by decide)
  have hvalue : Syntax.IsToken "$v".toList :=
    Syntax.Cursor.isToken_of_all (n := ['v']) (by decide) (by decide) (by decide)
  have herror : (resolveLoop (Host.scripted []) (.ofPairs [("m", .mapping [])])
      ("for " ++ "$k" ++ ", " ++ "$v" ++ " in " ++ Syntax.braced "m")).result
        = .error (.destructure "text" (Syntax.braced "m")) := by decide
  obtain ⟨l, hl, -⟩ := hall (Host.scripted []) (.ofPairs [("m", .mapping [])]) "m" "$k" "$v" []
    (by decide) hkey hvalue
  rw [herror] at hl
  exact absurd hl (by simp)

end CueScript
