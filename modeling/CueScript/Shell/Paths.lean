import CueScript.Shell.Pattern
import CueScript.World

/-!
# CueScript.Shell.Paths — the paths that fit a pattern

A pattern for a path is cut at its first part with an active sign: what stands in front of that part
leads to a directory, the names in the directory are compared with the part, and what stands behind
it is looked for under each of them.
-/

namespace CueScript.Shell

/-! ## Parts of patterns -/

/-- Whether a bracket is closed within its part of the path, behind the opening one. -/
def closesBracket (s : Text) : Bool :=
  go (match s with
    | '!' :: s => s
    | s => s)
where
  /-- Passes a character and looks whether the closing bracket follows. -/
  go : Text → Bool
    | [] | ['\\'] | '/' :: _ | '\\' :: '/' :: _ => false
    | '\\' :: _ :: s => s.head? == some ']' || go s
    | _ :: s => s.head? == some ']' || go s

/-- A pattern around its first part with an active sign. -/
structure PathPattern where
  /-- What leads to the directory. -/
  front : Text
  part : Text
  /-- What stands behind the slash that ends the part, if there is one. -/
  rest : Option Text
deriving Repr, DecidableEq

/-- Cuts a pattern around its first part with an active sign. `front` and `part` are what has been
passed, last character first; `active` tells whether the part has such a sign. -/
def cutPattern? (front part : Text) (active : Bool) : Text → Option PathPattern
  | [] => if active then some ⟨front.reverse, part.reverse, none⟩ else none
  | '\\' :: '/' :: s =>
    if active then some ⟨front.reverse, part.reverse, some s⟩
    else cutPattern? ('/' :: '\\' :: (part ++ front)) [] false s
  | '\\' :: c :: s => cutPattern? front (c :: '\\' :: part) active s
  | '/' :: s =>
    if active then some ⟨front.reverse, part.reverse, some s⟩
    else cutPattern? ('/' :: (part ++ front)) [] false s
  | c :: s =>
    cutPattern? front (c :: part)
      (active || c == '*' || c == '?' || (c == '[' && closesBracket s)) s

/-- A pattern without active signs as the text that fits it. -/
def unescaped : Text → Text
  | '\\' :: c :: s => c :: unescaped s
  | c :: s => c :: unescaped s
  | [] => []

/-! ## Search -/

/-- The names in a directory, with the directory itself and the one around it. -/
def namesIn (w : World) (path : Text) : List Text :=
  match w.find (ofBytes (if path.isEmpty then ['.'] else path)) with
  | .ok (names, .directory) => ['.'] :: ['.', '.'] :: (w.list names).map toBytes
  | _ => []

/-- Whether there is anything under a path, be it a link to nothing. -/
def exists? (w : World) (path : Text) : Bool :=
  match w.locate false (ofBytes path) with
  | .ok (_, some _) => true
  | _ => false

/-- The paths that fit a pattern, behind a path that leads to where it starts. The bound is on the
number of parts. -/
def pathsBehind (w : World) : Nat → Text → Text → List Text
  | 0, _, _ => []
  | n + 1, start, pattern =>
    match cutPattern? [] [] false pattern with
    | none =>
      let path := start ++ unescaped pattern
      if !start.isEmpty ∧ exists? w path then [path] else []
    | some p =>
      let directory := start ++ unescaped p.front
      let hidden := p.part.head? == some '.' || "\\.".toList.isPrefixOf p.part
      let elements := toPattern p.part
      let names := (namesIn w directory).filter fun name =>
        (hidden || name.head? != some '.') && fits elements name
      names.flatMap fun name =>
        match p.rest with
        | none => [directory ++ name]
        | some rest => pathsBehind w n (directory ++ name ++ ['/']) rest

def pathsOf (w : World) (pattern : Text) : List Text :=
  (pathsBehind w (pattern.length + 1) [] pattern).mergeSort fun a b =>
    String.ofList a ≤ String.ofList b

/-- Whether a text has a character that may be active in patterns. -/
def hasSigns (s : Text) : Bool :=
  s.any fun c => c == '*' || c == '?' || c == '['

end CueScript.Shell
