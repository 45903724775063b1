import CueScript.Toml.Token

/-!
# CueScript.Toml.Document — flat documents of settings

A settings document is a TOML document that binds keys at its top level to texts, flags and lists of
texts: one `key = value` a line, with empty lines and comments anywhere. A list may extend over
several lines and may have a comma behind its last item.

1. **Settings**: keys with the values that such a document can hold.
2. **Reading**: `step` takes one token; a document is complete at the end of a line.
3. **Writing**: one line for each setting.
-/

namespace CueScript.Toml

/-! ## Settings -/

/-- A value of a settings document. -/
inductive Setting where
  | text (s : String)
  | flag (b : Bool)
  | texts (ss : List String)
deriving Repr, DecidableEq

/-! ## Reading -/

/-- What may come next in a document. -/
inductive Expected where
  /-- A key, or the end of an empty line. -/
  | key
  /-- The equals sign behind a key. -/
  | equals (key : String)
  /-- The value of a key. -/
  | value (key : String)
  /-- An item of a list or its end; the items so far stand last first. -/
  | item (key : String) (done : List String)
  /-- A comma behind an item, or the end of the list. -/
  | separator (key : String) (done : List String)
  /-- The end of a line. -/
  | lineEnd
deriving Repr, DecidableEq

/-- The settings that have been read, last first, and what may come next. -/
structure ReadState where
  done : List (String × Setting)
  expected : Expected
deriving Repr, DecidableEq

namespace ReadState

/-- Completes a setting. -/
def bind (st : ReadState) (key : String) (s : Setting) : ReadState :=
  ⟨(key, s) :: st.done, .lineEnd⟩

def step (st : ReadState) (t : Token) : Option ReadState :=
  match st.expected, t with
  | .key, .lineEnd => some ⟨st.done, .key⟩
  | .key, .word w => some ⟨st.done, .equals (String.ofList w)⟩
  | .key, .text s => some ⟨st.done, .equals (String.ofList s)⟩
  | .equals k, .equals => some ⟨st.done, .value k⟩
  | .value k, .text s => some (st.bind k (.text (String.ofList s)))
  | .value k, .lines s => some (st.bind k (.text (String.ofList s)))
  | .value k, .word ['t', 'r', 'u', 'e'] => some (st.bind k (.flag true))
  | .value k, .word ['f', 'a', 'l', 's', 'e'] => some (st.bind k (.flag false))
  | .value k, .arrayOpen => some ⟨st.done, .item k []⟩
  | .item k ss, .lineEnd => some ⟨st.done, .item k ss⟩
  | .item k ss, .text s => some ⟨st.done, .separator k (String.ofList s :: ss)⟩
  | .item k ss, .lines s => some ⟨st.done, .separator k (String.ofList s :: ss)⟩
  | .item k ss, .arrayClose => some (st.bind k (.texts ss.reverse))
  | .separator k ss, .lineEnd => some ⟨st.done, .separator k ss⟩
  | .separator k ss, .comma => some ⟨st.done, .item k ss⟩
  | .separator k ss, .arrayClose => some (st.bind k (.texts ss.reverse))
  | .lineEnd, .lineEnd => some ⟨st.done, .key⟩
  | _, _ => none

/-- The settings in order, when the document may end here. -/
def result? (st : ReadState) : Option (List (String × Setting)) :=
  match st.expected with
  | .key | .lineEnd => some st.done.reverse
  | _ => none

end ReadState

/-- The settings that a sequence of tokens spells. -/
def settingsOfTokens? (ts : List Token) : Option (List (String × Setting)) :=
  (ts.foldlM ReadState.step ⟨[], .key⟩).bind ReadState.result?

/-- The settings of a document, in order and with repeated keys. -/
def settings? (document : String) : Option (List (String × Setting)) :=
  ((sourceLines? document.toList).bind tokens?).bind settingsOfTokens?

/-! ## Writing -/

def Setting.write : Setting → List Char
  | text s => quote s
  | flag true => ['t', 'r', 'u', 'e']
  | flag false => ['f', 'a', 'l', 's', 'e']
  | texts ss => '[' :: ((ss.map quote).intersperse [',', ' ']).flatten ++ [']']

/-- The line of a setting whose key is a word. -/
def writeLine (s : String × Setting) : List Char :=
  s.1.toList ++ [' ', '=', ' '] ++ s.2.write ++ ['\n']

/-- The document of settings whose keys are words. -/
def writeSettings (ss : List (String × Setting)) : String :=
  String.ofList (ss.flatMap writeLine)

end CueScript.Toml
