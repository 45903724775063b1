import CueScript.Toml.Text

/-!
# CueScript.Toml.Token — the tokens of a TOML document

Tokens are the words and strings of a document, its punctuation, and its line ends; spaces, tabs and
comments stand between them. Only the tokens that flat documents of texts, flags and lists of texts
need are known.
-/

namespace CueScript.Toml

inductive Token where
  /-- A run of letters, digits, hyphens and underscores. -/
  | word (w : List Char)
  /-- A string on one line, which may also be a key. -/
  | text (s : List Char)
  /-- A string in three quotes. -/
  | lines (s : List Char)
  | equals
  | arrayOpen
  | arrayClose
  | comma
  | lineEnd
deriving Repr, DecidableEq

def isWordChar (c : Char) : Bool :=
  ('a' ≤ c && c ≤ 'z') || ('A' ≤ c && c ≤ 'Z') || ('0' ≤ c && c ≤ '9') || c == '-' || c == '_'

/-- The token that a text starts with, and what follows it. -/
def token? : List Char → Option (Token × List Char)
  | '\n' :: rest => some (.lineEnd, rest)
  | '=' :: rest => some (.equals, rest)
  | '[' :: rest => some (.arrayOpen, rest)
  | ']' :: rest => some (.arrayClose, rest)
  | ',' :: rest => some (.comma, rest)
  | '"' :: '"' :: '"' :: rest =>
    (readBasicLines? (dropLineFeed rest)).map fun p => (.lines p.1, p.2)
  | '"' :: rest => (readBasic? rest).map fun p => (.text p.1, p.2)
  | '\'' :: '\'' :: '\'' :: rest =>
    (readLiteralLines? (dropLineFeed rest)).map fun p => (.lines p.1, p.2)
  | '\'' :: rest => (readLiteral? rest).map fun p => (.text p.1, p.2)
  | c :: rest =>
    if isWordChar c then some (.word (c :: rest.takeWhile isWordChar), rest.dropWhile isWordChar)
    else none
  | [] => none

/-- What may stand between tokens comes off the front: spaces and tabs, and a comment up to the end
of its line. -/
def skipFill (s : List Char) : List Char :=
  match s.dropWhile fun c => c == ' ' || c == '\t' with
  | '#' :: comment => comment.dropWhile (· != '\n')
  | rest => rest

/-! ## Progress -/

theorem readBasic?_length {s : List Char} {p : List Char × List Char}
    (h : readBasic? s = some p) : p.2.length < s.length := by
  fun_induction readBasic? s generalizing p with
  | case1 => simp at h
  | case2 => simp_all [← Option.some.inj h]
  | case3 => simp at h
  | case4 rest c after _ hlt ih =>
    obtain ⟨q, hq, rfl⟩ := Option.map_eq_some_iff.1 h
    have := ih hq
    simp only [consChar, List.length_cons]
    omega
  | case5 => simp at h
  | case6 c rest _ _ _ ih =>
    obtain ⟨q, hq, rfl⟩ := Option.map_eq_some_iff.1 h
    have := ih hq
    simp only [consChar, List.length_cons]
    omega

theorem readLiteral?_length {s : List Char} {p : List Char × List Char}
    (h : readLiteral? s = some p) : p.2.length < s.length := by
  fun_induction readLiteral? s generalizing p with
  | case1 => simp at h
  | case2 => simp_all [← Option.some.inj h]
  | case3 => simp at h
  | case4 c rest _ _ ih =>
    obtain ⟨q, hq, rfl⟩ := Option.map_eq_some_iff.1 h
    have := ih hq
    simp only [consChar, List.length_cons]
    omega

theorem readBasicLines?_length {s : List Char} {p : List Char × List Char}
    (h : readBasicLines? s = some p) : p.2.length < s.length := by
  fun_induction readBasicLines? s generalizing p with
  | case1 => simp at h
  | case2 | case3 | case4 =>
    simp only [Option.some.injEq] at h
    simp only [← h, List.length_cons]
    omega
  | case5 rest after _ hlt ih =>
    have := ih h
    simp only [List.length_cons]
    omega
  | case6 rest _ c after _ hlt ih =>
    obtain ⟨q, hq, rfl⟩ := Option.map_eq_some_iff.1 h
    have := ih hq
    simp only [consChar, List.length_cons]
    omega
  | case7 => simp at h
  | case8 c rest _ _ _ _ ih =>
    obtain ⟨q, hq, rfl⟩ := Option.map_eq_some_iff.1 h
    have := ih hq
    simp only [consChar, List.length_cons]
    omega

theorem readLiteralLines?_length {s : List Char} {p : List Char × List Char}
    (h : readLiteralLines? s = some p) : p.2.length < s.length := by
  fun_induction readLiteralLines? s generalizing p with
  | case1 => simp at h
  | case2 | case3 | case4 =>
    simp only [Option.some.injEq] at h
    simp only [← h, List.length_cons]
    omega
  | case5 c rest _ _ _ ih =>
    obtain ⟨q, hq, rfl⟩ := Option.map_eq_some_iff.1 h
    have := ih hq
    simp only [consChar, List.length_cons]
    omega

theorem dropLineFeed_length (s : List Char) : (dropLineFeed s).length ≤ s.length := by
  unfold dropLineFeed
  split <;> simp

/-- What follows a token is shorter than the text that starts with it. -/
theorem token?_length {s r : List Char} {t : Token} (h : token? s = some (t, r)) :
    r.length < s.length := by
  unfold token? at h
  split at h
  case h_6 rest =>
    obtain ⟨q, hq, he⟩ := Option.map_eq_some_iff.1 h
    have := readBasicLines?_length hq
    have := dropLineFeed_length rest
    simp only [Prod.mk.injEq] at he
    simp only [← he.2, List.length_cons]
    omega
  case h_7 rest _ =>
    obtain ⟨q, hq, he⟩ := Option.map_eq_some_iff.1 h
    have := readBasic?_length hq
    simp only [Prod.mk.injEq] at he
    simp only [← he.2, List.length_cons]
    omega
  case h_8 rest =>
    obtain ⟨q, hq, he⟩ := Option.map_eq_some_iff.1 h
    have := readLiteralLines?_length hq
    have := dropLineFeed_length rest
    simp only [Prod.mk.injEq] at he
    simp only [← he.2, List.length_cons]
    omega
  case h_9 rest _ =>
    obtain ⟨q, hq, he⟩ := Option.map_eq_some_iff.1 h
    have := readLiteral?_length hq
    simp only [Prod.mk.injEq] at he
    simp only [← he.2, List.length_cons]
    omega
  case h_10 c rest _ _ _ _ _ _ _ _ _ =>
    split at h
    · simp only [Option.some.injEq, Prod.mk.injEq] at h
      have := dropWhile_length_le isWordChar rest
      simp only [← h.2, List.length_cons]
      omega
    · simp at h
  case h_11 => simp at h
  all_goals
    simp only [Option.some.injEq, Prod.mk.injEq] at h
    simp [← h.2]

theorem skipFill_length (s : List Char) : (skipFill s).length ≤ s.length := by
  unfold skipFill
  split
  · next comment hd =>
    have h₁ := dropWhile_length_le (fun c => c == ' ' || c == '\t') s
    have h₂ := dropWhile_length_le (· != '\n') comment
    rw [hd, List.length_cons] at h₁
    omega
  · exact dropWhile_length_le _ s

/-! ## Sequences -/

def tokens? (s : List Char) : Option (List Token) :=
  if skipFill s = [] then some []
  else
    match h : token? (skipFill s) with
    | none => none
    | some (t, rest) =>
      have := Nat.lt_of_lt_of_le (token?_length h) (skipFill_length s)
      (tokens? rest).map (t :: ·)
termination_by s.length

end CueScript.Toml
