import CueScript.Proofs.Value.Json

/-!
# CueScript.Proofs.Value.Integer — integers are read with all their digits

1. **Literals**: the decimal digits of an integer are a document, and within 64 bits, signed or
   unsigned, the text of that document is these digits.
2. **Places**: a document with one place left open in its arrays and objects. What it denotes
   depends on what the document in this place denotes, and on nothing else of it.
3. **Values**: a value with an open place is written around a document, and read back around what
   the document denotes.
-/

namespace CueScript

namespace Json

/-! ## Literals -/

namespace Number

theorem write_ofInt (i : Int) :
    (ofInt i).write = (if i < 0 then ['-'] else []) ++ Decimal.digitsOf i.natAbs := by
  simp [write, ofInt]

/-- The literal of an integer is its decimal digits. -/
theorem toString_eq_write (i : Int) : toString i = String.ofList (ofInt i).write := by
  rw [write_ofInt, Int.toString_eq_repr, Int.repr_eq_if, ← String.toList_inj, String.toList_ofList]
  by_cases hneg : i < 0
  · have habs : (-i).toNat = i.natAbs := by omega
    rw [if_neg (Int.not_le.2 hneg), if_pos hneg, habs, String.toList_append, Nat.toList_repr]
    rfl
  · have habs : i.toNat = i.natAbs := by omega
    rw [if_pos (Int.not_lt.1 hneg), if_neg hneg, habs, Nat.toList_repr]
    rfl

/-- Within 64 bits, signed or unsigned, no digit is lost. -/
theorem text?_ofInt {i : Int} (hlow : -Int.pow 2 63 ≤ i) (hhigh : i < Int.pow 2 64) :
    (ofInt i).text? = some (toString i) := by
  rw [toString_eq_write, write_ofInt, text?, int?_ofInt]
  exact if_pos ⟨hlow, hhigh⟩

end Number

theorem Node.read?_toString (i : Int) : read? (toString i) = some (.ofInt i) := by
  have htext : toString i = (ofInt i).compact := by
    rw [Number.toString_eq_write, compact, ofInt, write]
  rw [htext, read?_compact]

/-! ## Places -/

/-- A document with one place left open. -/
inductive Place where
  /-- The place is all of the document. -/
  | whole
  /-- It lies in an item of an array. -/
  | item (before : List Node) (inside : Place) (after : List Node)
  /-- It lies in the value of a member of an object. -/
  | member (before : List (List StringUnit × Node)) (key : List StringUnit) (inside : Place)
      (after : List (List StringUnit × Node))

def Place.fill (x : Node) : Place → Node
  | whole => x
  | item before inside after => .array (before ++ inside.fill x :: after)
  | member before key inside after => .object (before ++ (key, inside.fill x) :: after)

namespace Node

theorem depthItems_append (xs ys : List Node) :
    depthItems (xs ++ ys) = max (depthItems xs) (depthItems ys) := by
  induction xs with
  | nil => simp [depthItems]
  | cons x xs ih => rw [List.cons_append, depthItems, depthItems, ih, Nat.max_assoc]

theorem depthMembers_append (ms ns : List (List StringUnit × Node)) :
    depthMembers (ms ++ ns) = max (depthMembers ms) (depthMembers ns) := by
  induction ms with
  | nil => simp [depthMembers]
  | cons m ms ih =>
      rcases m with ⟨k, x⟩
      rw [List.cons_append, depthMembers, depthMembers, ih, Nat.max_assoc]

end Node

/-- Documents of one depth go equally deep in any place. -/
theorem Place.depth_fill_congr {x y : Node} (h : x.depth = y.depth) (p : Place) :
    (p.fill x).depth = (p.fill y).depth := by
  induction p with
  | whole => exact h
  | item before inside after ih =>
      simp only [fill, Node.depth, Node.depthItems_append, Node.depthItems, ih]
  | member before key inside after ih =>
      simp only [fill, Node.depth, Node.depthMembers_append, Node.depthMembers, ih]

end Json

namespace Value

section Places

variable {x y : Json.Node}

/-- An item counts by what it denotes. -/
theorem itemsOf?_congr (h : ofNode? x = ofNode? y) (before after : List Json.Node) :
    itemsOf? (before ++ x :: after) = itemsOf? (before ++ y :: after) := by
  induction before with
  | nil => rw [List.nil_append, List.nil_append, itemsOf?, itemsOf?, h]
  | cons z before ih => rw [List.cons_append, List.cons_append, itemsOf?, itemsOf?, ih]

/-- A member counts by its key and by what its value denotes. -/
theorem pairsOf?_congr (h : ofNode? x = ofNode? y) (key : List Json.StringUnit)
    (before after : List (List Json.StringUnit × Json.Node)) :
    pairsOf? (before ++ (key, x) :: after) = pairsOf? (before ++ (key, y) :: after) := by
  induction before with
  | nil => rw [List.nil_append, List.nil_append, pairsOf?, pairsOf?, h]
  | cons m before ih =>
      rcases m with ⟨k, z⟩
      rw [List.cons_append, List.cons_append, pairsOf?, pairsOf?, ih]

/-- Documents that denote the same do so in any place. -/
theorem ofNode?_fill_congr (h : ofNode? x = ofNode? y) (p : Json.Place) :
    ofNode? (p.fill x) = ofNode? (p.fill y) := by
  induction p with
  | whole => exact h
  | item before inside after ih =>
      rw [Json.Place.fill, Json.Place.fill, ofNode?, ofNode?, itemsOf?_congr ih]
  | member before key inside after ih =>
      rw [Json.Place.fill, Json.Place.fill, ofNode?, ofNode?, pairsOf?_congr ih]

/-- Texts are read alike when they differ in one place, by documents of one depth that denote the
same. -/
theorem ofJson?_fill_congr (h : ofNode? x = ofNode? y) (hdepth : x.depth = y.depth) (p : Json.Place)
    {text text' : String} (hread : Json.Node.read? text = some (p.fill x))
    (hread' : Json.Node.read? text' = some (p.fill y)) : ofJson? text = ofJson? text' := by
  rw [ofJson?, ofJson?, hread, hread']
  simp only [p.depth_fill_congr hdepth, ofNode?_fill_congr h p]

end Places

/-- The literal of an integer denotes what the string of its digits does. -/
theorem ofNode?_ofInt {n : Int} (hlow : -Int.pow 2 63 ≤ n) (hhigh : n < Int.pow 2 64) :
    ofNode? (.ofInt n) = ofNode? (.ofString (toString n)) := by
  simp [Json.Node.ofInt, Json.Node.ofString, ofNode?, Json.Number.text?_ofInt hlow hhigh]

/-! ## Values -/

/-- A value with one place left open. -/
inductive Place where
  /-- The place is all of the value. -/
  | whole
  /-- It lies in an item of a list. -/
  | item (before : List Value) (inside : Place) (after : List Value)
  /-- It lies in the value of an entry of a mapping. -/
  | entry (before : List (String × Value)) (key : String) (inside : Place)
      (after : List (String × Value))

namespace Place

def fill (v : Value) : Place → Value
  | whole => v
  | item before inside after => .list (before ++ inside.fill v :: after)
  | entry before key inside after => .mapping (before ++ (key, inside.fill v) :: after)

def toNode : Place → Json.Place
  | whole => .whole
  | item before inside after => .item (nodesOf before) inside.toNode (nodesOf after)
  | entry before key inside after =>
    .member (membersOf before) (Json.unitsOf key) inside.toNode (membersOf after)

theorem toNode_fill (v : Value) (p : Place) : (p.fill v).toNode = p.toNode.fill v.toNode := by
  induction p with
  | whole => rfl
  | item before inside after ih =>
      simp only [fill, toNode, Json.Place.fill, Value.toNode, nodesOf_eq_map, List.map_append,
        List.map_cons, ih]
  | entry before key inside after ih =>
      simp only [fill, toNode, Json.Place.fill, Value.toNode, membersOf_eq_map, List.map_append,
        List.map_cons, ih]

end Place

/-- Integers within 64 bits, signed or unsigned, are read with all their digits. The literal of such
an integer denotes the text of its decimal digits. In any place of any document it is read as the
string of these digits would be, so that the document is refused with both or with none; and in any
place of a written value it is read back as this text, with the rest of the value unchanged. -/
theorem integer_literals_exact {n : Int} (hlow : -Int.pow 2 63 ≤ n)
    (hhigh : n ≤ Int.pow 2 64 - 1) :
    ofJson? (toString n) = some (.text (toString n)) ∧
    (∀ text, Json.Node.read? text = some (.ofInt n) → ofJson? text = some (.text (toString n))) ∧
    (∀ (p : Json.Place) (text text' : String), Json.Node.read? text = some (p.fill (.ofInt n)) →
      Json.Node.read? text' = some (p.fill (.ofString (toString n))) →
      ofJson? text = ofJson? text') ∧
    (∀ p : Place, (p.fill (.text (toString n))).DistinctKeys →
      (p.fill (.text (toString n))).depth ≤ 127 → ∀ text,
      Json.Node.read? text = some (p.toNode.fill (.ofInt n)) →
      ofJson? text = some (p.fill (.text (toString n)))) := by
  have hsame := ofNode?_ofInt hlow (Int.lt_of_le_sub_one hhigh)
  have hplace : ∀ (p : Json.Place) (text text' : String),
      Json.Node.read? text = some (p.fill (.ofInt n)) →
      Json.Node.read? text' = some (p.fill (.ofString (toString n))) →
      ofJson? text = ofJson? text' := by
    intro p text text' hread hread'
    exact ofJson?_fill_congr hsame rfl p hread hread'
  have hvalue : ∀ p : Place, (p.fill (.text (toString n))).DistinctKeys →
      (p.fill (.text (toString n))).depth ≤ 127 → ∀ text,
      Json.Node.read? text = some (p.toNode.fill (.ofInt n)) →
      ofJson? text = some (p.fill (.text (toString n))) := by
    intro p hkeys hdepth text hread
    -- the text in the place of the number is written as the string of its digits
    have hwritten : Json.Node.read? (p.fill (.text (toString n))).toJson
        = some (p.toNode.fill (.ofString (toString n))) := by
      rw [toJson, Json.Node.read?_compact, Place.toNode_fill, toNode]
    rw [hplace p.toNode text _ hread hwritten, ofJson?_toJson hkeys]
    exact if_pos hdepth
  have hwhole : ∀ text, Json.Node.read? text = some (.ofInt n) →
      ofJson? text = some (.text (toString n)) :=
    hvalue .whole trivial (Nat.zero_le _)
  exact ⟨hwhole _ (Json.Node.read?_toString n), hwhole, hplace, hvalue⟩

/-- The least and the greatest of these integers, the latter in a list in a mapping. -/
theorem integer_literals_exact_at_bounds :
    ofJson? (toString (-9223372036854775808 : Int)) = some (.text "-9223372036854775808") ∧
    ofJson? (Json.Node.object [(Json.unitsOf "ids",
      .array [.ofString "", .ofInt 18446744073709551615])]).compact
      = some (.mapping [("ids", .list [.text "", .text "18446744073709551615"])]) := by
  constructor
  · exact (integer_literals_exact (by decide) (by decide)).1
  · exact (integer_literals_exact (by decide) (by decide)).2.2.2
      (.entry [] "ids" (.item [.text ""] .whole []) [])
      ⟨by decide, ⟨trivial, trivial, trivial⟩, trivial⟩ (by decide) _ (Json.Node.read?_compact _)

end Value

end CueScript
