import Mathlib.Data.List.Basic
import CueScript.Json.Layout
import CueScript.Json.Reader
import CueScript.Proofs.Json.Number
import CueScript.Proofs.Json.Text

/-!
# CueScript.Proofs.Json.Node — documents are read back as they are written

1. **Trees**: `Node.induct` is induction over a document, with all items and all members at hand.
2. **Tokens**: `Node.tokens` is the sequence of tokens that spells a document. Every layout with
   white space only writes a text with these tokens.
3. **Grammar**: the reader takes these tokens to the document, in front of any open containers.
4. **Documents**: both layouts are read back, the indented one up to the order of its keys.
5. **Names and texts**: `ofString` and `ofMembers` keep all of them apart.
-/

namespace CueScript.Json

/-! ## Trees -/

/-- Induction over a document. -/
@[elab_as_elim]
theorem Node.induct {P : Node → Prop} (null : P .null) (bool : ∀ b, P (.bool b))
    (number : ∀ n, P (.number n)) (string : ∀ us, P (.string us))
    (array : ∀ items, (∀ x ∈ items, P x) → P (.array items))
    (object : ∀ members, (∀ m ∈ members, P m.2) → P (.object members)) : ∀ x : Node, P x
  | .null => null
  | .bool b => bool b
  | .number n => number n
  | .string us => string us
  | .array items => array items fun x hx => by
      have hlt : sizeOf x < sizeOf items := List.sizeOf_lt_of_mem hx
      exact Node.induct null bool number string array object x
  | .object members => object members fun m hm => by
      have hlt : sizeOf m < sizeOf members := List.sizeOf_lt_of_mem hm
      have hsnd : sizeOf m.2 < sizeOf m := by
        rcases m with ⟨k, x⟩
        simp only [Prod.mk.sizeOf_spec]
        omega
      exact Node.induct null bool number string array object m.2

/-! ## Tokens -/

namespace Node

mutual
/-- The tokens that spell a document. -/
def tokens : Node → List Token
  | .null => [.null]
  | .bool b => [.bool b]
  | .number n => [.number n]
  | .string us => [.string us]
  | .array [] => [.arrayOpen, .arrayClose]
  | .array (x :: xs) => .arrayOpen :: (tokens x ++ itemTokens xs ++ [.arrayClose])
  | .object [] => [.objectOpen, .objectClose]
  | .object ((k, x) :: ms) =>
    .objectOpen :: .string k :: .colon :: (tokens x ++ memberTokens ms ++ [.objectClose])

/-- The tokens of the items behind the first one. -/
def itemTokens : List Node → List Token
  | [] => []
  | x :: xs => .comma :: (tokens x ++ itemTokens xs)

/-- The tokens of the members behind the first one. -/
def memberTokens : List (List StringUnit × Node) → List Token
  | [] => []
  | (k, x) :: ms => .comma :: .string k :: .colon :: (tokens x ++ memberTokens ms)
end

end Node

def Spaces (w : List Char) : Prop :=
  ∀ c ∈ w, isSpace c = true

/-- A layout puts white space between tokens, and nothing else. -/
structure Layout.Spaced (l : Layout) : Prop where
  lineBreak : ∀ level, Spaces (l.lineBreak level)
  afterColon : Spaces l.afterColon

theorem spaced_compact : Layout.compact.Spaced := by
  constructor
  · intro level c hc
    simp [Layout.compact] at hc
  · intro c hc
    simp [Layout.compact] at hc

theorem spaced_pretty : Layout.pretty.Spaced := by
  constructor
  · intro level c hc
    simp only [Layout.pretty, List.mem_cons, List.mem_replicate] at hc
    rcases hc with rfl | ⟨-, rfl⟩
    · decide
    · decide
  · intro c hc
    obtain rfl := List.mem_singleton.1 hc
    decide

section Tokenizing

variable {c : Char} {s r w : List Char} {t : Token}

/-- White space is passed, then one token is cut off. -/
theorem tokens?_eq (s : List Char) :
    tokens? s = if s.dropWhile isSpace = [] then some []
      else (token? (s.dropWhile isSpace)).bind fun p => (tokens? p.2).map (p.1 :: ·) := by
  rw [tokens?]
  split
  · rfl
  · split
    · next h => simp only [h, Option.bind_none]
    · next h => simp only [h, Option.bind_some]

theorem tokens?_spaces (hw : Spaces w) : tokens? (w ++ s) = tokens? s := by
  rw [tokens?_eq, tokens?_eq s, List.dropWhile_append_of_pos hw]

theorem tokens?_of_token (hc : isSpace c = false) (h : token? (c :: s) = some (t, r)) :
    tokens? (c :: s) = (tokens? r).map (t :: ·) := by
  have hdrop : (c :: s).dropWhile isSpace = c :: s := by simp [hc]
  rw [tokens?_eq, hdrop, if_neg (by simp), h, Option.bind_some]

/-- A number is a token when nothing goes on with it. -/
theorem tokens?_number (n : Number) (hr : Number.Ends r) :
    tokens? (n.write ++ r) = (tokens? r).map (.number n :: ·) := by
  have hread := Number.read?_write n hr
  rcases n.exists_write_cons with ⟨c, cs, hcons, hc⟩
  -- neither a minus nor a digit starts a token of another kind
  have hother : isSpace c = false ∧
      c ∉ ['[', ']', '\x7b', '\x7d', ',', ':', '"', 'n', 't', 'f'] := by
    rcases hc with rfl | ⟨d, rfl⟩
    · decide
    · have hall : ∀ d : Fin 10, isSpace (Decimal.digitChar d) = false ∧ Decimal.digitChar d ∉
          ['[', ']', '\x7b', '\x7d', ',', ':', '"', 'n', 't', 'f'] := by decide
      exact hall d
  rw [hcons, List.cons_append] at hread ⊢
  apply tokens?_of_token hother.1
  rw [token?]
  · rw [hread]
    rfl
  all_goals
    intro rest heq
    obtain ⟨rfl, -⟩ := List.cons.inj heq
    exact hother.2 (by simp)

theorem tokens?_quote (us : List StringUnit) :
    tokens? (quote us ++ r) = (tokens? r).map (.string us :: ·) := by
  have htext : quote us ++ r = '"' :: (us.flatMap StringUnit.escape ++ '"' :: r) := by
    simp [quote]
  rw [htext]
  apply tokens?_of_token (by decide)
  rw [token?, readBody?_units]
  rfl

/-- No number goes on with white space. -/
theorem ends_of_isSpace (hc : isSpace c = true) : Number.Ends (c :: r) := by
  simp only [isSpace, Bool.or_eq_true, beq_iff_eq] at hc
  rw [Number.ends_cons]
  rcases hc with ((rfl | rfl) | rfl) | rfl
  · decide
  · decide
  · decide
  · decide

/-- No number goes on behind an item. -/
theorem ends_of_spaces (hw : Spaces w) (hc : c = ',' ∨ c = ']' ∨ c = '\x7d') :
    Number.Ends (w ++ c :: r) := by
  cases w with
  | nil =>
      rw [List.nil_append, Number.ends_cons]
      rcases hc with rfl | rfl | rfl
      · decide
      · decide
      · decide
  | cons d w => exact ends_of_isSpace (hw d (by simp))

variable {l : Layout} (level : Nat)

/-- The text of a document has the tokens of the document, whatever follows. -/
def Node.Tokenized (l : Layout) (x : Node) : Prop :=
  ∀ level r, Number.Ends r → tokens? (x.write l level ++ r) = (tokens? r).map (x.tokens ++ ·)

/-- What follows an item does not go on with a number. -/
theorem ends_writeItems (hl : l.Spaced) (xs : List Node) :
    Number.Ends (Node.writeItems l (level + 1) xs ++ (l.lineBreak level ++ ']' :: r)) := by
  cases xs with
  | nil => exact ends_of_spaces (hl.lineBreak level) (.inr (.inl rfl))
  | cons x xs => exact ends_of_spaces (w := []) (by simp [Spaces]) (.inl rfl)

theorem ends_writeMembers (hl : l.Spaced) (ms : List (List StringUnit × Node)) :
    Number.Ends (Node.writeMembers l (level + 1) ms ++ (l.lineBreak level ++ '\x7d' :: r)) := by
  cases ms with
  | nil => exact ends_of_spaces (hl.lineBreak level) (.inr (.inr rfl))
  | cons m ms => exact ends_of_spaces (w := []) (by simp [Spaces]) (.inl rfl)

theorem tokens?_writeItems (hl : l.Spaced) (xs : List Node) (hxs : ∀ x ∈ xs, x.Tokenized l) :
    tokens? (Node.writeItems l (level + 1) xs ++ (l.lineBreak level ++ ']' :: r))
      = (tokens? r).map (Node.itemTokens xs ++ .arrayClose :: ·) := by
  induction xs with
  | nil =>
      rw [Node.writeItems, List.nil_append, tokens?_spaces (hl.lineBreak level)]
      exact tokens?_of_token (by decide) rfl
  | cons x xs ih =>
      have hrest := ih fun y hy => hxs y (by simp [hy])
      have hx := hxs x (by simp) (level + 1) _ (ends_writeItems level hl xs (r := r))
      have htext : Node.writeItems l (level + 1) (x :: xs) ++ (l.lineBreak level ++ ']' :: r)
          = ',' :: (l.lineBreak (level + 1) ++ (x.write l (level + 1)
            ++ (Node.writeItems l (level + 1) xs ++ (l.lineBreak level ++ ']' :: r)))) := by
        simp [Node.writeItems]
      rw [htext, tokens?_of_token (by decide) rfl, tokens?_spaces (hl.lineBreak (level + 1)), hx,
        hrest, Option.map_map, Option.map_map]
      congr 1
      funext ts
      simp [Node.itemTokens]

theorem tokens?_writeMember (hl : l.Spaced) (k : List StringUnit) {x : Node} (hx : x.Tokenized l)
    (hr : Number.Ends r) :
    tokens? (l.lineBreak level ++ (quote k ++ ':' :: (l.afterColon ++ (x.write l level ++ r))))
      = (tokens? r).map (.string k :: .colon :: x.tokens ++ ·) := by
  rw [tokens?_spaces (hl.lineBreak level), tokens?_quote, tokens?_of_token (by decide) rfl,
    tokens?_spaces hl.afterColon, hx level r hr, Option.map_map, Option.map_map]
  rfl

theorem tokens?_writeMembers (hl : l.Spaced) (ms : List (List StringUnit × Node))
    (hms : ∀ m ∈ ms, m.2.Tokenized l) :
    tokens? (Node.writeMembers l (level + 1) ms ++ (l.lineBreak level ++ '\x7d' :: r))
      = (tokens? r).map (Node.memberTokens ms ++ .objectClose :: ·) := by
  induction ms with
  | nil =>
      rw [Node.writeMembers, List.nil_append, tokens?_spaces (hl.lineBreak level)]
      exact tokens?_of_token (by decide) rfl
  | cons m ms ih =>
      rcases m with ⟨k, x⟩
      have hrest := ih fun m hm => hms m (by simp [hm])
      have hx := tokens?_writeMember (level + 1) hl k (hms (k, x) (by simp))
        (ends_writeMembers level hl ms (r := r))
      have htext : Node.writeMembers l (level + 1) ((k, x) :: ms)
            ++ (l.lineBreak level ++ '\x7d' :: r)
          = ',' :: (l.lineBreak (level + 1) ++ (quote k ++ ':' :: (l.afterColon
            ++ (x.write l (level + 1) ++ (Node.writeMembers l (level + 1) ms
            ++ (l.lineBreak level ++ '\x7d' :: r)))))) := by
        simp [Node.writeMembers]
      rw [htext, tokens?_of_token (by decide) rfl, hx, hrest, Option.map_map, Option.map_map]
      congr 1
      funext ts
      simp [Node.memberTokens]

/-- Every layout writes the tokens of the document. -/
theorem Node.tokenized (hl : l.Spaced) (x : Node) : x.Tokenized l := by
  induction x using Node.induct with
  | null => exact fun level r hr => tokens?_of_token (by decide) rfl
  | bool b =>
      intro level r hr
      cases b with
      | true => exact tokens?_of_token (by decide) rfl
      | false => exact tokens?_of_token (by decide) rfl
  | number n => exact fun level r hr => tokens?_number n hr
  | string us => exact fun level r hr => tokens?_quote us
  | array items ih =>
      intro level r hr
      cases items with
      | nil =>
          have htext : write l level (.array []) ++ r = '[' :: ']' :: r := by simp [write]
          rw [htext, tokens?_of_token (by decide) rfl, tokens?_of_token (by decide) rfl,
            Option.map_map]
          simp [tokens, Function.comp_def]
      | cons x xs =>
          have hx := ih x (by simp) (level + 1) _ (ends_writeItems level hl xs (r := r))
          have hxs := tokens?_writeItems (r := r) level hl xs
            fun y hy => ih y (by simp [hy])
          have htext : write l level (.array (x :: xs)) ++ r
              = '[' :: (l.lineBreak (level + 1) ++ (x.write l (level + 1)
                ++ (writeItems l (level + 1) xs ++ (l.lineBreak level ++ ']' :: r)))) := by
            simp [write]
          rw [htext, tokens?_of_token (by decide) rfl, tokens?_spaces (hl.lineBreak (level + 1)),
            hx, hxs, Option.map_map, Option.map_map]
          simp [tokens, Function.comp_def]
  | object members ih =>
      intro level r hr
      cases members with
      | nil =>
          have htext : write l level (.object []) ++ r = '\x7b' :: '\x7d' :: r := by simp [write]
          rw [htext, tokens?_of_token (by decide) rfl, tokens?_of_token (by decide) rfl,
            Option.map_map]
          simp [tokens, Function.comp_def]
      | cons m ms =>
          rcases m with ⟨k, x⟩
          have hx := tokens?_writeMember (level + 1) hl k (ih (k, x) (by simp))
            (ends_writeMembers level hl ms (r := r))
          have hms := tokens?_writeMembers (r := r) level hl ms
            fun m hm => ih m (by simp [hm])
          have htext : write l level (.object ((k, x) :: ms)) ++ r
              = '\x7b' :: (l.lineBreak (level + 1) ++ (quote k ++ ':' :: (l.afterColon
                ++ (x.write l (level + 1) ++ (writeMembers l (level + 1) ms
                ++ (l.lineBreak level ++ '\x7d' :: r)))))) := by
            simp [write]
          rw [htext, tokens?_of_token (by decide) rfl, hx, hms, Option.map_map, Option.map_map]
          simp [tokens, Function.comp_def]

end Tokenizing

/-! ## Grammar -/

section Grammar

variable (stack : List Frame) (ts : List Token)

/-- The reader takes the tokens of the document to the document. -/
def Node.Derived (x : Node) : Prop :=
  ∀ stack ts, (x.tokens ++ ts).foldlM ReadState.step (.value stack)
    = ts.foldlM ReadState.step (.complete stack x)

/-- No document starts with a closing bracket. -/
theorem Node.exists_tokens_cons (x : Node) :
    ∃ t ts, x.tokens = t :: ts ∧ t ≠ .arrayClose := by
  cases x with
  | null => exact ⟨_, _, rfl, by simp⟩
  | bool b => exact ⟨_, _, rfl, by simp⟩
  | number n => exact ⟨_, _, rfl, by simp⟩
  | string us => exact ⟨_, _, rfl, by simp⟩
  | array items =>
      cases items with
      | nil => exact ⟨_, _, rfl, by simp⟩
      | cons x xs => exact ⟨_, _, rfl, by simp⟩
  | object members =>
      cases members with
      | nil => exact ⟨_, _, rfl, by simp⟩
      | cons m ms => exact ⟨_, _, rfl, by simp⟩

/-- The first item of an array is read as any value is. -/
theorem Node.Derived.firstItem {x : Node} (hx : x.Derived) :
    (x.tokens ++ ts).foldlM ReadState.step (.firstItem stack)
      = ts.foldlM ReadState.step (.complete (.array [] :: stack) x) := by
  rw [← hx]
  rcases x.exists_tokens_cons with ⟨t, ts', hcons, hopen⟩
  have hstep : ReadState.step (.firstItem stack) t
      = ReadState.step (.value (.array [] :: stack)) t := by
    cases t with
    | arrayClose => exact absurd rfl hopen
    | _ => rfl
  rw [hcons, List.cons_append, List.foldlM_cons, List.foldlM_cons, hstep]

theorem foldlM_itemTokens (xs : List Node) (hxs : ∀ x ∈ xs, x.Derived) (done : List Node)
    (x : Node) :
    (Node.itemTokens xs ++ .arrayClose :: ts).foldlM ReadState.step
        (.complete (.array done :: stack) x)
      = ts.foldlM ReadState.step (.complete stack (.array ((x :: done).reverse ++ xs))) := by
  -- the items that are read go from the tokens to the front of the open container
  induction xs generalizing done x with
  | nil =>
      rw [List.append_nil]
      rfl
  | cons y ys ih =>
      have hy := hxs y (by simp) (.array (x :: done) :: stack)
        (Node.itemTokens ys ++ .arrayClose :: ts)
      have hrest := ih (fun z hz => hxs z (by simp [hz])) (x :: done) y
      have htokens : Node.itemTokens (y :: ys) ++ .arrayClose :: ts
          = .comma :: (y.tokens ++ (Node.itemTokens ys ++ .arrayClose :: ts)) := by
        simp [Node.itemTokens]
      rw [htokens, List.foldlM_cons]
      calc _ = (y.tokens ++ (Node.itemTokens ys ++ .arrayClose :: ts)).foldlM ReadState.step
              (.value (.array (x :: done) :: stack)) := rfl
        _ = ts.foldlM ReadState.step
              (.complete stack (.array ((y :: x :: done).reverse ++ ys))) := by rw [hy, hrest]
        _ = _ := by simp

theorem foldlM_memberTokens (ms : List (List StringUnit × Node)) (hms : ∀ m ∈ ms, m.2.Derived)
    (done : List (List StringUnit × Node)) (k : List StringUnit) (x : Node) :
    (Node.memberTokens ms ++ .objectClose :: ts).foldlM ReadState.step
        (.complete (.object done k :: stack) x)
      = ts.foldlM ReadState.step (.complete stack (.object (((k, x) :: done).reverse ++ ms))) := by
  induction ms generalizing done k x with
  | nil =>
      rw [List.append_nil]
      rfl
  | cons m ms ih =>
      rcases m with ⟨j, y⟩
      have hy := hms (j, y) (by simp) (.object ((k, x) :: done) j :: stack)
        (Node.memberTokens ms ++ .objectClose :: ts)
      have hrest := ih (fun m hm => hms m (by simp [hm])) ((k, x) :: done) j y
      have htokens : Node.memberTokens ((j, y) :: ms) ++ .objectClose :: ts
          = .comma :: .string j :: .colon
            :: (y.tokens ++ (Node.memberTokens ms ++ .objectClose :: ts)) := by
        simp [Node.memberTokens]
      rw [htokens]
      calc _ = (y.tokens ++ (Node.memberTokens ms ++ .objectClose :: ts)).foldlM ReadState.step
              (.value (.object ((k, x) :: done) j :: stack)) := rfl
        _ = ts.foldlM ReadState.step
              (.complete stack (.object (((j, y) :: (k, x) :: done).reverse ++ ms))) := by
            rw [hy, hrest]
        _ = _ := by simp

/-- The tokens of a document are read as it, in front of any open containers. -/
theorem Node.derived (x : Node) : x.Derived := by
  induction x using Node.induct with
  | null => exact fun stack ts => rfl
  | bool b => exact fun stack ts => rfl
  | number n => exact fun stack ts => rfl
  | string us => exact fun stack ts => rfl
  | array items ih =>
      intro stack ts
      cases items with
      | nil => rfl
      | cons x xs =>
          have hx := (ih x (by simp)).firstItem stack (itemTokens xs ++ .arrayClose :: ts)
          have hxs := foldlM_itemTokens stack ts xs (fun y hy => ih y (by simp [hy])) [] x
          have htokens : tokens (.array (x :: xs)) ++ ts
              = .arrayOpen :: (x.tokens ++ (itemTokens xs ++ .arrayClose :: ts)) := by
            simp [tokens]
          rw [htokens]
          calc _ = (x.tokens ++ (itemTokens xs ++ .arrayClose :: ts)).foldlM ReadState.step
                  (.firstItem stack) := rfl
            _ = _ := by
              rw [hx, hxs]
              rfl
  | object members ih =>
      intro stack ts
      cases members with
      | nil => rfl
      | cons m ms =>
          rcases m with ⟨k, x⟩
          have hx := ih (k, x) (by simp) (.object [] k :: stack)
            (memberTokens ms ++ .objectClose :: ts)
          have hms := foldlM_memberTokens stack ts ms (fun m hm => ih m (by simp [hm])) [] k x
          have htokens : tokens (.object ((k, x) :: ms)) ++ ts
              = .objectOpen :: .string k :: .colon
                :: (x.tokens ++ (memberTokens ms ++ .objectClose :: ts)) := by
            simp [tokens]
          rw [htokens]
          calc _ = (x.tokens ++ (memberTokens ms ++ .objectClose :: ts)).foldlM ReadState.step
                  (.value (.object [] k :: stack)) := rfl
            _ = _ := by
              rw [hx, hms]
              rfl

theorem Node.ofTokens?_tokens (x : Node) : Node.ofTokens? x.tokens = some x := by
  have h := x.derived [] []
  rw [List.append_nil] at h
  rw [ofTokens?, h]
  rfl

end Grammar

/-! ## Documents -/

namespace Node

/-- A written document is read back; white space behind it does not count. -/
theorem read?_write {l : Layout} (hl : l.Spaced) (x : Node) {w : List Char} (hw : Spaces w) :
    read? (String.ofList (x.write l 0 ++ w)) = some x := by
  have hend : tokens? w = some [] := by
    have h := tokens?_spaces hw (s := [])
    rw [List.append_nil] at h
    rw [h, tokens?_eq]
    rfl
  have hends : Number.Ends w := by
    cases w with
    | nil => exact Number.ends_nil
    | cons c w => exact ends_of_isSpace (hw c (by simp))
  rw [read?, String.toList_ofList, x.tokenized hl 0 w hends, hend, Option.map_some, List.append_nil,
    Option.bind_some, ofTokens?_tokens]

theorem read?_compact (x : Node) : read? x.compact = some x := by
  have h := read?_write spaced_compact x (w := []) (by simp [Spaces])
  rw [List.append_nil] at h
  exact h

/-- Two documents are never printed as the same text. -/
theorem compact_injective : Function.Injective compact := by
  intro x y h
  have hread : read? y.compact = some x := by rw [← h, read?_compact]
  rw [read?_compact] at hread
  exact (Option.some.inj hread).symm

/-- A printed document is read back with its keys in order. -/
theorem read?_prettySorted (x : Node) : read? (x.prettySorted ++ "\n") = some x.sortKeys := by
  have hw : Spaces ['\n'] := by
    intro c hc
    obtain rfl := List.mem_singleton.1 hc
    decide
  have h := read?_write spaced_pretty x.sortKeys hw
  rw [String.ofList_append] at h
  exact h

/-! ## Names and texts -/

theorem ofString_injective : Function.Injective ofString := by
  intro s t h
  exact unitsOf_injective (Node.string.inj h)

/-- Objects are the same when they have the same names and values in the same order. -/
theorem ofMembers_injective : Function.Injective ofMembers := by
  have hmember : Function.Injective fun m : String × Node => (unitsOf m.1, m.2) := by
    rintro ⟨k, x⟩ ⟨l, y⟩ h
    obtain ⟨hkey, rfl⟩ := Prod.mk.inj h
    obtain rfl := unitsOf_injective hkey
    rfl
  intro ms ns h
  exact hmember.list_map (Node.object.inj h)

end Node

end CueScript.Json
