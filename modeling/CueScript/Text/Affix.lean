/-!
# CueScript.Text.Affix — taking single characters off the ends of a text

`peel open close` takes at most one character off each end; the two ends are judged one after the
other and independently. `cutAt?` splits a text at the first occurrence of a character.
-/

namespace CueScript.Text

/-- Takes off the first character when it satisfies `p`. -/
def dropFirstIf (p : Char → Bool) : List Char → List Char
  | [] => []
  | c :: cs => if p c then cs else c :: cs

/-- Takes off the last character when it satisfies `p`. -/
def dropLastIf (p : Char → Bool) (s : List Char) : List Char :=
  (dropFirstIf p s.reverse).reverse

/-- Takes off one leading character in `opening` and then one trailing character in `closing`. -/
def peel (opening closing : Char → Bool) (s : List Char) : List Char :=
  dropLastIf closing (dropFirstIf opening s)

/-- The parts before and after the first `sep`, if there is one. -/
def cutAt? (sep : Char) : List Char → Option (List Char × List Char)
  | [] => none
  | c :: cs => if c = sep then some ([], cs) else (cutAt? sep cs).map fun p => (c :: p.1, p.2)

end CueScript.Text
