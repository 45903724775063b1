import CueScript.Json.Node

/-!
# CueScript.Json.Layout — writing JSON documents

One writer serves every layout: a `Layout` says what stands where a line may break and behind a key.
`compact` has no white space at all; `pretty` puts each item and member on a line of its own and
indents it by two spaces for each open container. Empty containers have no inner white space.
-/

namespace CueScript.Json

/-- The white space of a written document. -/
structure Layout where
  /-- What stands before an item or a closing bracket, inside so many containers. -/
  lineBreak : Nat → List Char
  /-- What stands between the colon and the value of a member. -/
  afterColon : List Char

def Layout.compact : Layout :=
  ⟨fun _ => [], []⟩

/-- One item or member a line, two spaces for each open container. -/
def Layout.pretty : Layout :=
  ⟨fun level => '\n' :: List.replicate (2 * level) ' ', [' ']⟩

namespace Node

mutual
/-- The text of a document inside `level` containers. -/
def write (l : Layout) (level : Nat) : Node → List Char
  | .null => ['n', 'u', 'l', 'l']
  | .bool true => ['t', 'r', 'u', 'e']
  | .bool false => ['f', 'a', 'l', 's', 'e']
  | .number n => n.write
  | .string s => quote s
  | .array [] => ['[', ']']
  | .array (x :: xs) =>
    '[' :: (l.lineBreak (level + 1) ++ write l (level + 1) x ++ writeItems l (level + 1) xs
      ++ l.lineBreak level ++ [']'])
  | .object [] => ['{', '}']
  | .object ((k, x) :: ms) =>
    '{' :: (l.lineBreak (level + 1) ++ quote k ++ ':' :: l.afterColon ++ write l (level + 1) x
      ++ writeMembers l (level + 1) ms ++ l.lineBreak level ++ ['}'])

/-- The items behind the first one, each behind a comma. -/
def writeItems (l : Layout) (level : Nat) : List Node → List Char
  | [] => []
  | x :: xs => ',' :: (l.lineBreak level ++ write l level x ++ writeItems l level xs)

/-- The members behind the first one, each behind a comma. -/
def writeMembers (l : Layout) (level : Nat) : List (List StringUnit × Node) → List Char
  | [] => []
  | (k, x) :: ms =>
    ',' :: (l.lineBreak level ++ quote k ++ ':' :: l.afterColon ++ write l level x
      ++ writeMembers l level ms)
end

/-- The text of a document without white space. -/
def compact (node : Node) : String :=
  String.ofList (write .compact 0 node)

/-- The text of a document with indented lines and the keys of all objects in order. -/
def prettySorted (node : Node) : String :=
  String.ofList (write .pretty 0 node.sortKeys)

end Node

end CueScript.Json
