import CueScript.Toml.Document
import CueScript.Proofs.Text.Runs
import CueScript.Proofs.Toml.Text

/-!
# CueScript.Proofs.Toml.Document — documents of settings are read line by line

1. **Tokens**: words and spelled strings are tokens, whatever follows that cannot extend them.
2. **Reading on**: `ReadState.run?` is the state behind a text; a token or a blank at the front of
   the text moves the state by one step.
3. **Keys and values**: `KeySpelled` and `SettingSpelled` are the ways to write them; each is read as
   what it spells.
4. **Lines**: `LineSpelled` is `key = value`; the reader takes a document of such lines to their
   settings in order.
5. **Commitment**: once a key and its equals sign have been read, a document that is accepted holds
   a setting of that key, whatever follows.
-/

namespace CueScript.Toml

/-! ## Tokens -/

/-- One token after the other, with the fill in front of each. -/
theorem tokens?_eq (s : List Char) :
    tokens? s = if skipFill s = [] then some []
      else (token? (skipFill s)).bind fun p => (tokens? p.2).map (p.1 :: ·) := by
  rw [tokens?]
  split
  · rfl
  · split
    · next h => simp only [h, Option.bind_none]
    · next h => simp only [h, Option.bind_some]

/-- A word: at least one character, all of them of words. -/
structure IsWord (w : List Char) : Prop where
  ne_nil : w ≠ []
  word : ∀ c ∈ w, isWordChar c = true

theorem IsWord.of_all {w : List Char} (hne : w ≠ []) (hall : w.all isWordChar = true) : IsWord w :=
  ⟨hne, List.all_eq_true.1 hall⟩

/-- The text cannot extend a word or a string in front of it. -/
def EndsToken (rest : List Char) : Prop :=
  ∀ c ∈ rest.head?, isWordChar c = false ∧ c ≠ '"'

theorem EndsToken.of_mark {c : Char} {rest : List Char} (hword : isWordChar c = false)
    (hquote : c ≠ '"') : EndsToken (c :: rest) := by
  intro d hd
  cases hd
  exact ⟨hword, hquote⟩

/-- The text starts with a word or a string. -/
def StartsToken (w : List Char) : Prop :=
  ∃ c v, w = c :: v ∧ (isWordChar c = true ∨ c = '"')

theorem IsWord.startsToken {w : List Char} (h : IsWord w) : StartsToken w := by
  obtain ⟨c, v, rfl⟩ := List.exists_cons_of_ne_nil h.ne_nil
  exact ⟨c, v, rfl, .inl (h.word c List.mem_cons_self)⟩

theorem StringSpelled.startsToken {s : String} {w : List Char} (h : StringSpelled s w) :
    StartsToken w := by
  obtain ⟨ws, -, rfl⟩ := h
  exact ⟨'"', _, rfl, .inr rfl⟩

/-- No blank and no comment stands in front of a token. -/
theorem StartsToken.skipFill_append {w : List Char} (h : StartsToken w) (rest : List Char) :
    skipFill (w ++ rest) = w ++ rest := by
  obtain ⟨c, v, rfl, hc⟩ := h
  have hblank : (c == ' ' || c == '\t') = false := by
    rcases hc with hc | rfl
    · simp only [Bool.or_eq_false_iff, beq_eq_false_iff_ne]
      constructor <;> rintro rfl <;> exact absurd hc (by decide)
    · decide
  rw [List.cons_append, skipFill, List.dropWhile_cons_of_neg (by simp [hblank])]
  split
  · next heq =>
    cases heq
    exact absurd hc (by decide)
  · rfl

/-- A token is not taken for a byte order mark. -/
theorem StartsToken.head?_ne {w : List Char} (h : StartsToken w) (rest : List Char) :
    (w ++ rest).head? ≠ some '\uFEFF' := by
  obtain ⟨c, v, rfl, hc⟩ := h
  rw [List.cons_append, List.head?_cons]
  rintro ⟨⟩
  exact absurd hc (by decide)

theorem isForbidden_of_isWordChar {c : Char} (h : isWordChar c = true) : isForbidden c = false := by
  simp only [isWordChar, Bool.or_eq_true, Bool.and_eq_true, decide_eq_true_eq, beq_iff_eq,
    Char.le_def, UInt32.le_iff_toNat_le] at h
  have hrange : 0x2D ≤ c.toNat ∧ c.toNat ≤ 0x7A := by
    rcases h with (((h | h) | h) | rfl) | rfl
    · exact ⟨Nat.le_trans (by decide) h.1, h.2⟩
    · exact ⟨Nat.le_trans (by decide) h.1, Nat.le_trans h.2 (by decide)⟩
    · exact ⟨Nat.le_trans (by decide) h.1, Nat.le_trans h.2 (by decide)⟩
    · decide
    · decide
  exact isForbidden_of_range (by omega) (by omega)

theorem token?_word {w rest : List Char} (hw : IsWord w) (hrest : EndsToken rest) :
    token? (w ++ rest) = some (.word w, rest) := by
  obtain ⟨hne, hall⟩ := hw
  cases w with
  | nil => exact absurd rfl hne
  | cons c w =>
    obtain ⟨hc, hw⟩ := List.forall_mem_cons.1 hall
    have hstop : ∀ d ∈ rest.head?, isWordChar d = false := fun d hd => (hrest d hd).1
    rw [List.cons_append, token?, if_pos hc, Text.takeWhile_run hw hstop,
      Text.dropWhile_run hw hstop]
    -- no punctuation and no quote is a character of words
    all_goals
      intros
      subst_vars
      exact absurd hc (by decide)

theorem token?_string {s : String} {w rest : List Char} (hw : StringSpelled s w)
    (hrest : EndsToken rest) : token? (w ++ rest) = some (.text s.toList, rest) := by
  obtain ⟨ws, hws, rfl⟩ := hw
  have hread := readBasic?_flatten hws rest
  rw [List.cons_append, List.append_assoc, List.singleton_append, token?, hread, Option.map_some]
  -- three quotes: the text would be empty with a quote behind it
  intro r hr
  cases hflat : ws.flatten with
  | nil =>
    rw [hflat, List.nil_append, List.cons.injEq] at hr
    exact (hrest '"' (by rw [hr.2]; rfl)).2 rfl
  | cons a v =>
    rw [hflat, List.cons_append, List.cons.injEq] at hr
    exact flatten_head?_ne hws (by rw [hflat, List.head?_cons, hr.1])

/-! ## Reading on -/

namespace ReadState

/-- The state behind the tokens of a text. -/
def run? (st : ReadState) (s : List Char) : Option ReadState :=
  (tokens? s).bind fun ts => ts.foldlM step st

variable {st st' : ReadState} {s rest : List Char} {t : Token}

theorem run?_nil (st : ReadState) : st.run? [] = some st := by
  rw [run?, tokens?_eq]
  rfl

theorem run?_blank (st : ReadState) (s : List Char) : st.run? (' ' :: s) = st.run? s := by
  have hskip : skipFill (' ' :: s) = skipFill s := rfl
  rw [run?, run?, tokens?_eq, tokens?_eq s, hskip]

theorem run?_token (hfill : skipFill s = s) (ht : token? s = some (t, rest))
    (hstep : st.step t = some st') : st.run? s = st'.run? rest := by
  have hne : s ≠ [] := by
    rintro rfl
    simp [token?] at ht
  rw [run?, tokens?_eq, hfill, if_neg hne, ht, Option.bind_some, Option.bind_map]
  simp only [Function.comp_def, List.foldlM_cons, hstep, Option.bind_eq_bind, Option.bind_some]
  rfl

end ReadState

/-- The settings of a document, from the state that its reader ends in. -/
theorem settings?_eq (s : List Char) :
    settings? (String.ofList s)
      = ((sourceLines? s).bind (ReadState.run? ⟨[], .key⟩)).bind ReadState.result? := by
  rw [settings?, String.toList_ofList, Option.bind_assoc, Option.bind_assoc]
  simp only [ReadState.run?, Option.bind_assoc]
  rfl

/-! ## Keys and values -/

/-- A key as a word or as a basic string. -/
inductive KeySpelled : String → List Char → Prop
  | word {key : String} (h : IsWord key.toList) : KeySpelled key key.toList
  | string {key : String} {w : List Char} (h : StringSpelled key w) : KeySpelled key w

theorem IsWord.clean {w : List Char} (h : IsWord w) : Clean w := by
  intro c hc
  exact isForbidden_of_isWordChar (h.word c hc)

theorem KeySpelled.startsToken {key : String} {w : List Char} (h : KeySpelled key w) :
    StartsToken w := by
  cases h with
  | word h => exact h.startsToken
  | string h => exact h.startsToken

theorem KeySpelled.clean {key : String} {w : List Char} (h : KeySpelled key w) : Clean w := by
  cases h with
  | word h => exact h.clean
  | string h => exact h.clean

/-- A value: a basic string, a flag, or strings in brackets with a comma and a blank in between. -/
inductive SettingSpelled : Setting → List Char → Prop
  | text {s : String} {w : List Char} (h : StringSpelled s w) : SettingSpelled (.text s) w
  | yes : SettingSpelled (.flag true) ['t', 'r', 'u', 'e']
  | no : SettingSpelled (.flag false) ['f', 'a', 'l', 's', 'e']
  | texts {ss : List String} {ws : List (List Char)} (h : List.Forall₂ StringSpelled ss ws) :
      SettingSpelled (.texts ss) ('[' :: (ws.intersperse [',', ' ']).flatten ++ [']'])

theorem settingSpelled_write (v : Setting) : SettingSpelled v v.write := by
  cases v with
  | text s => exact .text (stringSpelled_quote s)
  | flag b =>
    cases b with
    | false => exact .no
    | true => exact .yes
  | texts ss =>
    refine .texts ?_
    rw [List.forall₂_map_right_iff]
    exact List.forall₂_same.2 fun s _ => stringSpelled_quote s

/-- The first item, then each of the others with the separator in front of it. -/
theorem flatten_intersperse_cons (sep w : List Char) (ws : List (List Char)) :
    ((w :: ws).intersperse sep).flatten = w ++ ws.flatMap (sep ++ ·) := by
  induction ws generalizing w with
  | nil => simp
  | cons v ws ih =>
    rw [List.intersperse_cons_cons, List.flatten_cons, List.flatten_cons, ih, List.flatMap_cons,
      List.append_assoc]

theorem clean_items {ss : List String} {ws : List (List Char)}
    (h : List.Forall₂ StringSpelled ss ws) : Clean (ws.flatMap ([',', ' '] ++ ·)) := by
  induction h with
  | nil => exact Clean.nil
  | cons hw _ ih =>
    have hsep : Clean [',', ' '] := Clean.cons (by decide) (Clean.cons (by decide) Clean.nil)
    exact Clean.append (Clean.append hsep hw.clean) ih

theorem SettingSpelled.clean {v : Setting} {w : List Char} (h : SettingSpelled v w) : Clean w := by
  cases h with
  | text h => exact h.clean
  | yes =>
    have hword : IsWord ['t', 'r', 'u', 'e'] := .of_all (by decide) (by decide)
    exact hword.clean
  | no =>
    have hword : IsWord ['f', 'a', 'l', 's', 'e'] := .of_all (by decide) (by decide)
    exact hword.clean
  | texts h =>
    have hclose : Clean [']'] := Clean.cons (by decide) Clean.nil
    refine Clean.cons (by decide) (Clean.append ?_ hclose)
    cases h with
    | nil => exact Clean.nil
    | cons hw hws =>
      rw [flatten_intersperse_cons]
      exact Clean.append hw.clean (clean_items hws)

namespace ReadState

variable {st st' : ReadState} {rest : List Char} (done : List (String × Setting)) (key : String)

theorem run?_word {w : List Char} (hw : IsWord w) (hrest : EndsToken rest)
    (hstep : st.step (.word w) = some st') : st.run? (w ++ rest) = st'.run? rest :=
  run?_token (hw.startsToken.skipFill_append rest) (token?_word hw hrest) hstep

theorem run?_string {s : String} {w : List Char} (hw : StringSpelled s w) (hrest : EndsToken rest)
    (hstep : st.step (.text s.toList) = some st') : st.run? (w ++ rest) = st'.run? rest :=
  run?_token (hw.startsToken.skipFill_append rest) (token?_string hw hrest) hstep

/-- A key and its equals sign. -/
theorem run?_key {kt : List Char} (hk : KeySpelled key kt) (rest : List Char) :
    run? ⟨done, .key⟩ (kt ++ [' ', '=', ' '] ++ rest) = run? ⟨done, .value key⟩ rest := by
  have hends : EndsToken (' ' :: '=' :: ' ' :: rest) := EndsToken.of_mark (by decide) (by decide)
  have hequals : run? ⟨done, .equals key⟩ (' ' :: '=' :: ' ' :: rest)
      = run? ⟨done, .value key⟩ rest := by
    rw [run?_blank]
    refine (run?_token rfl rfl rfl).trans ?_
    exact run?_blank _ rest
  rw [List.append_assoc]
  cases hk with
  | word h => exact (run?_word h hends (by simp [step])).trans hequals
  | string h => exact (run?_string h hends (by simp [step])).trans hequals

theorem endsToken_items (ws : List (List Char)) (rest : List Char) :
    EndsToken (ws.flatMap ([',', ' '] ++ ·) ++ ']' :: rest) := by
  cases ws with
  | nil => exact EndsToken.of_mark (by decide) (by decide)
  | cons w ws => exact EndsToken.of_mark (by decide) (by decide)

/-- The items behind the first one, and the end of their list. -/
theorem run?_items {ss : List String} {ws : List (List Char)}
    (h : List.Forall₂ StringSpelled ss ws) (items : List String) :
    run? ⟨done, .separator key items⟩ (ws.flatMap ([',', ' '] ++ ·) ++ ']' :: rest)
      = run? ⟨(key, .texts (items.reverse ++ ss)) :: done, .lineEnd⟩ rest := by
  induction h generalizing items with
  | nil =>
    rw [List.append_nil]
    exact run?_token rfl rfl rfl
  | @cons s w ss ws hw _ ih =>
    rw [List.flatMap_cons, List.append_assoc, List.append_assoc]
    refine (run?_token rfl rfl rfl).trans ?_
    refine (run?_blank _ _).trans ?_
    refine (run?_string hw (endsToken_items ws rest) rfl).trans ?_
    rw [String.ofList_toList, ih, List.reverse_cons, List.append_assoc, List.singleton_append]

/-- A value up to the end of its line. -/
theorem run?_setting {v : Setting} {w : List Char} (hv : SettingSpelled v w) (rest : List Char) :
    run? ⟨done, .value key⟩ (w ++ '\n' :: rest) = run? ⟨(key, v) :: done, .key⟩ rest := by
  have hends : EndsToken ('\n' :: rest) := EndsToken.of_mark (by decide) (by decide)
  have hline : run? ⟨(key, v) :: done, .lineEnd⟩ ('\n' :: rest)
      = run? ⟨(key, v) :: done, .key⟩ rest := run?_token rfl rfl rfl
  rw [← hline]
  cases hv with
  | text h => exact run?_string h hends (by simp [step, bind])
  | yes => exact run?_word (.of_all (by decide) (by decide)) hends rfl
  | no => exact run?_word (.of_all (by decide) (by decide)) hends rfl
  | texts h =>
    rw [List.cons_append, List.cons_append, List.append_assoc]
    refine (run?_token rfl rfl rfl).trans ?_
    cases h with
    | nil => exact run?_token rfl rfl rfl
    | cons hw hws =>
      rw [flatten_intersperse_cons, List.append_assoc]
      refine (run?_string hw (endsToken_items _ _) rfl).trans ?_
      rw [String.ofList_toList]
      exact run?_items done key hws [_]

end ReadState

/-! ## Lines -/

/-- A setting on a line of its own. -/
def LineSpelled (s : String × Setting) (l : List Char) : Prop :=
  ∃ kt w, KeySpelled s.1 kt ∧ SettingSpelled s.2 w ∧ l = kt ++ [' ', '=', ' '] ++ w ++ ['\n']

theorem lineSpelled_writeLine {s : String × Setting} (hkey : IsWord s.1.toList) :
    LineSpelled s (writeLine s) :=
  ⟨_, _, .word hkey, settingSpelled_write s.2, rfl⟩

/-- The lines that are written for settings spell them. -/
theorem lineSpelled_map_writeLine {ss : List (String × Setting)}
    (h : ∀ s ∈ ss, IsWord s.1.toList) : List.Forall₂ LineSpelled ss (ss.map writeLine) := by
  rw [List.forall₂_map_right_iff, List.forall₂_same]
  intro s hs
  exact lineSpelled_writeLine (h s hs)

theorem clean_equals : Clean [' ', '=', ' '] :=
  Clean.cons (by decide) (Clean.cons (by decide) (Clean.cons (by decide) Clean.nil))

theorem LineSpelled.clean {s : String × Setting} {l : List Char} (h : LineSpelled s l) :
    Clean l := by
  obtain ⟨kt, w, hk, hv, rfl⟩ := h
  have hline : Clean ['\n'] := Clean.cons (by decide) Clean.nil
  exact ((hk.clean.append clean_equals).append hv.clean).append hline

theorem LineSpelled.head?_ne {s : String × Setting} {l : List Char} (h : LineSpelled s l)
    (rest : List Char) : (l ++ rest).head? ≠ some '\uFEFF' := by
  obtain ⟨kt, w, hk, -, rfl⟩ := h
  simp only [List.append_assoc]
  exact hk.startsToken.head?_ne _

section Lines

variable {ss : List (String × Setting)} {ls : List (List Char)}

theorem clean_lines (h : List.Forall₂ LineSpelled ss ls) : Clean ls.flatten := by
  induction h with
  | nil => exact Clean.nil
  | cons hl _ ih => exact Clean.append hl.clean ih

/-- The reader takes one line after the other. -/
theorem ReadState.run?_lines (h : List.Forall₂ LineSpelled ss ls)
    (done : List (String × Setting)) (rest : List Char) :
    run? ⟨done, .key⟩ (ls.flatten ++ rest) = run? ⟨ss.reverse ++ done, .key⟩ rest := by
  induction h generalizing done with
  | nil => rfl
  | @cons s l ss ls hl _ ih =>
    obtain ⟨kt, w, hk, hv, rfl⟩ := hl
    rw [List.flatten_cons, List.append_assoc, List.append_assoc _ ['\n'],
      List.append_assoc _ w, run?_key _ _ hk, List.singleton_append, run?_setting _ _ hv, ih,
      List.reverse_cons, List.append_assoc, List.singleton_append]

/-- A document of spelled lines is read as their settings, in order. -/
theorem settings?_lines (h : List.Forall₂ LineSpelled ss ls) :
    settings? (String.ofList ls.flatten) = some ss := by
  have hmark : (ls.flatten ++ []).head? ≠ some '\uFEFF' := by
    cases h with
    | nil => simp
    | cons hl _ =>
      rw [List.flatten_cons, List.append_assoc]
      exact hl.head?_ne _
  have hsource := sourceLines?_append (clean_lines h) hmark
  rw [List.append_nil] at hsource
  have hread := ReadState.run?_lines h [] []
  rw [List.append_nil, List.append_nil, ReadState.run?_nil] at hread
  rw [settings?_eq, hsource, unixLines?, Option.map_some, List.append_nil, Option.bind_some, hread,
    Option.bind_some, ReadState.result?, List.reverse_reverse]

/-! ## Commitment -/

/-- The key of the setting that is being read. -/
def Expected.key? : Expected → Option String
  | .equals k | .value k | .item k _ | .separator k _ => some k
  | .key | .lineEnd => none

namespace ReadState

/-- A setting of the key has been read behind the settings `base`, or it is being read. -/
def Committed (base : List (String × Setting)) (key : String) (st : ReadState) : Prop :=
  (∃ v more, st.done = more ++ (key, v) :: base) ∨
    (st.done = base ∧ st.expected.key? = some key)

/-- A step goes on with the key that is being read, or it completes its setting. -/
theorem step_cases {st st' : ReadState} {t : Token} (h : st.step t = some st') :
    (st'.done = st.done ∧ ∀ k, st.expected.key? = some k → st'.expected.key? = some k) ∨
      ∃ k v, st.expected.key? = some k ∧ st' = st.bind k v := by
  unfold step at h
  split at h
  case h_18 => cases h
  case h_1 | h_2 | h_3 | h_17 =>
    -- no setting is being read
    next hexpected =>
      cases h
      refine .inl ⟨rfl, ?_⟩
      intro k hk
      rw [hexpected] at hk
      cases hk
  case h_5 | h_6 | h_7 | h_8 | h_13 | h_16 =>
    -- its value is complete
    next hexpected =>
      refine .inr ⟨_, _, ?_, (Option.some.inj h).symm⟩
      rw [hexpected]
      rfl
  all_goals
    next hexpected =>
      cases h
      refine .inl ⟨rfl, ?_⟩
      intro k hk
      rw [hexpected] at hk
      exact hk

theorem Committed.step {base : List (String × Setting)} {key : String} {st st' : ReadState}
    {t : Token} (h : Committed base key st) (hstep : st.step t = some st') :
    Committed base key st' := by
  rcases step_cases hstep with ⟨hdone, hkey⟩ | ⟨k, v, hkey, rfl⟩
  · rcases h with ⟨v, more, hbase⟩ | ⟨hbase, hexpected⟩
    · exact .inl ⟨v, more, hdone.trans hbase⟩
    · exact .inr ⟨hdone.trans hbase, hkey key hexpected⟩
  · rcases h with ⟨w, more, hbase⟩ | ⟨hbase, hexpected⟩
    · refine .inl ⟨w, (k, v) :: more, ?_⟩
      rw [bind, hbase, List.cons_append]
    · -- the setting that is completed is the one of the key
      obtain rfl : k = key := Option.some.inj (hkey.symm.trans hexpected)
      refine .inl ⟨v, [], ?_⟩
      rw [bind, hbase, List.nil_append]

theorem Committed.foldlM {base : List (String × Setting)} {key : String} {st st' : ReadState}
    {ts : List Token} (h : Committed base key st)
    (hrun : ts.foldlM ReadState.step st = some st') : Committed base key st' := by
  induction ts generalizing st with
  | nil =>
    cases hrun
    exact h
  | cons t ts ih =>
    rw [List.foldlM_cons] at hrun
    obtain ⟨next, hstep, hrun⟩ := Option.bind_eq_some_iff.1 hrun
    exact ih (h.step hstep) hrun

/-- A document may only end when the setting is complete. -/
theorem Committed.result {base ss : List (String × Setting)} {key : String} {st : ReadState}
    (h : Committed base key st) (hss : st.result? = some ss) :
    ∃ v more, ss = base.reverse ++ (key, v) :: more := by
  unfold result? at hss
  split at hss
  case h_3 => cases hss
  all_goals
    next hend =>
      cases hss
      rcases h with ⟨v, more, hbase⟩ | ⟨-, hexpected⟩
      · refine ⟨v, more.reverse, ?_⟩
        rw [hbase, List.reverse_append, List.reverse_cons, List.append_assoc, List.singleton_append]
      · rw [hend] at hexpected
        cases hexpected

end ReadState

/-- Whatever stands behind a key and its equals sign: when the document is accepted, it holds a
setting of that key. -/
theorem exists_of_settings?_key (h : List.Forall₂ LineSpelled ss ls) {key : String}
    {kt body : List Char} (hk : KeySpelled key kt) {read : List (String × Setting)}
    (hread : settings? (String.ofList (ls.flatten ++ (kt ++ [' ', '=', ' '] ++ body)))
      = some read) :
    ∃ v more, read = ss ++ (key, v) :: more := by
  have hclean : Clean (ls.flatten ++ (kt ++ [' ', '=', ' '])) :=
    (clean_lines h).append (hk.clean.append clean_equals)
  have hmark : (ls.flatten ++ (kt ++ [' ', '=', ' ']) ++ body).head? ≠ some '\uFEFF' := by
    cases h with
    | nil =>
      rw [List.flatten_nil, List.nil_append, List.append_assoc]
      exact hk.startsToken.head?_ne _
    | cons hl _ =>
      rw [List.flatten_cons, List.append_assoc, List.append_assoc]
      exact hl.head?_ne _
  rw [settings?_eq, ← List.append_assoc, sourceLines?_append hclean hmark] at hread
  obtain ⟨st, hrun, hresult⟩ := Option.bind_eq_some_iff.1 hread
  obtain ⟨s, hs, hrun⟩ := Option.bind_eq_some_iff.1 hrun
  obtain ⟨body', -, rfl⟩ := Option.map_eq_some_iff.1 hs
  rw [List.append_assoc, ReadState.run?_lines h, ReadState.run?_key _ _ hk, List.append_nil] at hrun
  obtain ⟨ts, -, hts⟩ := Option.bind_eq_some_iff.1 hrun
  have hstart : ReadState.Committed ss.reverse key ⟨ss.reverse, .value key⟩ := .inr ⟨rfl, rfl⟩
  have hmore := (hstart.foldlM hts).result hresult
  rwa [List.reverse_reverse] at hmore

end Lines

end CueScript.Toml
