import CueScript.Proofs.Cli.SavedEnvironment
import CueScript.Proofs.History
import CueScript.Proofs.Text.Affix
import CueScript.Proofs.Value.Denotation

/-!
# CueScript.Proofs.Cli.Loading — the environment that a file of variables and pairs make

1. **Pairs**: a pair spells a name and a text when its first `=` stands between them. Pairs that
   all spell something bind texts in order; the first one that spells nothing is reported.
2. **Files**: a file of variables has members, with repeated keys and in the order in which they
   are written.
3. **Environment**: `Loaded` says from members and pairs alone what is bound, to which value and in
   which order, and determines the environment. `loadEnvironment_exact` puts the three together.
-/

namespace CueScript.Cli

/-! ## Pairs -/

/-- A pair spells a name and a text. The first `=` stands between them. -/
def PairSpells (pair : String) (flag : String × String) : Prop :=
  pair = flag.1 ++ "=" ++ flag.2 ∧ '=' ∉ flag.1.toList

theorem PairSpells.cutAt?_eq {pair : String} {flag : String × String} (h : PairSpells pair flag) :
    Text.cutAt? '=' pair.toList = some (flag.1.toList, flag.2.toList) := by
  have hchars : pair.toList = flag.1.toList ++ '=' :: flag.2.toList := by
    rw [h.1]
    simp
  rw [hchars, Text.cutAt?_append h.2]

/-- A pair with an equals sign spells something. -/
theorem exists_pairSpells {pair : String} (h : '=' ∈ pair.toList) : ∃ flag, PairSpells pair flag := by
  obtain ⟨name, value, hchars, hname⟩ := List.eq_append_cons_of_mem h
  refine ⟨(String.ofList name, String.ofList value), ?_, ?_⟩
  · rw [← String.toList_inj, hchars]
    simp
  · rw [String.toList_ofList]
    exact hname

theorem exists_flags {pairs : List String} (h : ∀ pair ∈ pairs, '=' ∈ pair.toList) :
    ∃ flags, List.Forall₂ PairSpells pairs flags := by
  induction pairs with
  | nil => exact ⟨[], .nil⟩
  | cons pair pairs ih =>
      obtain ⟨flag, hflag⟩ := exists_pairSpells (h pair List.mem_cons_self)
      obtain ⟨flags, hflags⟩ := ih fun p hp => h p (List.mem_cons_of_mem pair hp)
      exact ⟨flag :: flags, .cons hflag hflags⟩

/-- The bindings that names and texts make. A text stays a text, whatever it looks like. -/
def textBindings (flags : List (String × String)) : List (String × Value) :=
  flags.map fun flag => (flag.1, .text flag.2)

theorem keys_textBindings (flags : List (String × String)) :
    Bindings.keys (textBindings flags) = Bindings.keys flags := by
  simp [Bindings.keys, textBindings]

/-- Pairs bind what they spell, in order. -/
theorem bindPairs_of_spelled {pairs : List String} {flags : List (String × String)}
    (h : List.Forall₂ PairSpells pairs flags) (env : Environment) :
    bindPairs env pairs = .ok (env.bindAll (textBindings flags)) := by
  induction h generalizing env with
  | nil => rfl
  | cons hpair _ ih =>
      rw [bindPairs, hpair.cutAt?_eq]
      simp only [String.ofList_toList]
      exact ih _

/-- The first pair without an equals sign is reported. -/
theorem bindPairs_of_malformed {before after : List String} {pair : String}
    (hbefore : ∀ p ∈ before, '=' ∈ p.toList) (hpair : '=' ∉ pair.toList) (env : Environment) :
    bindPairs env (before ++ pair :: after) = .error (.malformedPair pair) := by
  induction before generalizing env with
  | nil =>
      rw [List.nil_append, bindPairs, Text.cutAt?_of_not_mem hpair]
  | cons p before ih =>
      obtain ⟨flag, hflag⟩ := exists_pairSpells (hbefore p List.mem_cons_self)
      rw [List.cons_append, bindPairs, hflag.cutAt?_eq]
      exact ih (fun q hq => hbefore q (List.mem_cons_of_mem p hq)) _

/-! ## Files -/

/-- The members that are written in a file of variables, in order and with repeated keys. Without a
file there are none. -/
inductive HasMembers (files : Files) :
    Option String → List (List Json.StringUnit × Json.Node) → Prop
  | nofile : HasMembers files none []
  | object {path text : String} {members : List (List Json.StringUnit × Json.Node)} :
      readText files path = .ok text → Json.Node.read? text = some (.object members) →
      HasMembers files (some path) members

/-- Members may be written in any layout, and with any white space behind them. -/
theorem hasMembers_of_written {files : Files} {path : String} {l : Json.Layout} (hl : l.Spaced)
    {w : List Char} (hw : Json.Spaces w) {members : List (List Json.StringUnit × Json.Node)}
    (hfile : files path = .ok (Text.Utf8.encode ((Json.Node.object members).write l 0 ++ w))) :
    HasMembers files (some path) members := by
  refine .object (readText_of_text ?_) (Json.Node.read?_write hl _ hw)
  rw [hfile, String.toList_ofList]

section Accepted

variable {files : Files} {varsFile : Option String}
  {members : List (List Json.StringUnit × Json.Node)}

/-- A file is accepted when its members are not too deep and all of them denote something. -/
theorem accepted_iff (hfile : HasMembers files varsFile members) :
    (∃ stored, loadEnvironment files varsFile [] = .ok stored) ↔
      (Json.Node.object members).depth ≤ Value.maxDepth ∧
      ∃ ps, List.Forall₂ (Value.MemberDenotes Value.Denotes) members ps := by
  cases hfile with
  | nofile => exact iff_of_true ⟨_, rfl⟩ ⟨by decide, [], .nil⟩
  | object htext hread =>
      simp only [loadEnvironment, htext]
      constructor
      · rintro ⟨stored, h⟩
        split at h
        · next env henv =>
          obtain ⟨hdepth, ps, hps, -⟩ := (Environment.ofJson?_eq_some_iff hread).1 henv
          exact ⟨hdepth, ps, hps⟩
        · simp at h
      · rintro ⟨hdepth, ps, hps⟩
        have henv := (Environment.ofJson?_eq_some_iff hread).2
          ⟨hdepth, ps, hps, Bindings.merged_ofPairs ps⟩
        rw [henv]
        exact ⟨_, rfl⟩

/-- An accepted file holds the merge of its members, and pairs are bound on top of it. -/
theorem loadEnvironment_of_members {stored : Environment} (hfile : HasMembers files varsFile members)
    (hstored : loadEnvironment files varsFile [] = .ok stored) :
    (∃ ps, List.Forall₂ (Value.MemberDenotes Value.Denotes) members ps ∧
      Bindings.Merged ps stored.bindings) ∧
    ∀ pairs, loadEnvironment files varsFile pairs = bindPairs stored pairs := by
  cases hfile with
  | nofile =>
      obtain rfl := Except.ok.inj hstored
      exact ⟨⟨[], .nil, Bindings.merged_ofPairs []⟩, fun _ => rfl⟩
  | object htext hread =>
      simp only [loadEnvironment, htext] at hstored ⊢
      split at hstored
      · next env henv =>
        obtain rfl := Except.ok.inj hstored
        exact ⟨((Environment.ofJson?_eq_some_iff hread).1 henv).2, fun _ => rfl⟩
      · simp at hstored

end Accepted

/-! ## Environment -/

/-- The environment that members of a file and flags make. The last flag for a name counts, as a
text; without one, the last member with that key. Keys of the file come first, in the order of their
first occurrences; the names that only flags bind follow in the same manner. -/
structure Loaded (ps : List (String × Value)) (flags : List (String × String))
    (env : Environment) : Prop where
  flag : ∀ name value earlier later, flags = earlier ++ (name, value) :: later →
    name ∉ Bindings.keys later → env.get? name = some (.text value)
  member : ∀ name v earlier later, ps = earlier ++ (name, v) :: later →
    name ∉ Bindings.keys later → name ∉ Bindings.keys flags → env.get? name = some v
  bound : ∀ name, env.contains name = true ↔
    name ∈ Bindings.keys ps ∨ name ∈ Bindings.keys flags
  distinct : env.names.Nodup
  order : ∃ first more, env.names = first ++ more ∧
    Bindings.FirstOccurrences [] (Bindings.keys ps) first ∧
    Bindings.FirstOccurrences (Bindings.keys ps) (Bindings.keys flags) more

variable {ps : List (String × Value)} {flags : List (String × String)} {env : Environment}

/-- Flags that are bound on top of merged members load the environment. -/
theorem loaded_bindAll (h : Bindings.Merged ps env.bindings) :
    Loaded ps flags (env.bindAll (textBindings flags)) where
  flag := by
    rintro name value earlier later rfl hlater
    have hsplit : textBindings (earlier ++ (name, value) :: later)
        = textBindings earlier ++ (name, .text value) :: textBindings later := by
      simp [textBindings]
    rw [hsplit]
    apply Environment.get?_bindAll_of_last
    rw [keys_textBindings]
    exact hlater
  member := by
    intro name v earlier later hps hlater hflags
    rw [← keys_textBindings] at hflags
    rw [Environment.get?_bindAll_of_not_mem hflags]
    exact h.last name v earlier later hps hlater
  bound name := by
    rw [Environment.contains_iff, Environment.mem_names_bindAll, keys_textBindings]
    exact or_congr_left h.mem_keys
  distinct := Environment.nodup_names_bindAll h.nodup_keys
  order := by
    refine ⟨env.names, _, Environment.names_bindAll, h.order, ?_⟩
    rw [keys_textBindings]
    exact (Bindings.firstOccurrences_newKeys _ _).of_bound_iff fun k => h.mem_keys

namespace Loaded

variable {env' : Environment}

theorem names_eq (h : Loaded ps flags env) :
    env.names = Bindings.newKeys [] (Bindings.keys ps)
      ++ Bindings.newKeys (Bindings.keys ps) (Bindings.keys flags) := by
  obtain ⟨first, more, hnames, hfirst, hmore⟩ := h.order
  rw [hnames, hfirst.eq_newKeys, hmore.eq_newKeys]

/-- Members and flags say what every name stands for. -/
theorem get?_eq (h : Loaded ps flags env) (h' : Loaded ps flags env') (name : String) :
    env.get? name = env'.get? name := by
  by_cases hflag : name ∈ Bindings.keys flags
  · obtain ⟨value, earlier, later, hflags, hlater⟩ := Bindings.exists_last hflag
    rw [h.flag name value earlier later hflags hlater,
      h'.flag name value earlier later hflags hlater]
  · by_cases hmember : name ∈ Bindings.keys ps
    · obtain ⟨v, earlier, later, hps, hlater⟩ := Bindings.exists_last hmember
      rw [h.member name v earlier later hps hlater hflag,
        h'.member name v earlier later hps hlater hflag]
    · -- the name is bound by neither
      have hnone : ∀ {e : Environment}, Loaded ps flags e → e.get? name = none := by
        intro e he
        have hcontains : ¬ (e.get? name).isSome = true := fun hname =>
          ((he.bound name).1 hname).elim hmember hflag
        exact Option.not_isSome_iff_eq_none.1 hcontains
      rw [hnone h, hnone h']

/-- No other environment is loaded. -/
theorem unique (h : Loaded ps flags env) (h' : Loaded ps flags env') : env = env' := by
  have hbindings : env.bindings = env'.bindings :=
    Bindings.eq_of_find?_eq (h.names_eq.trans h'.names_eq.symm) h.distinct (h.get?_eq h')
  rcases env with ⟨m⟩
  rcases env' with ⟨n⟩
  exact congrArg Environment.mk hbindings

end Loaded

/-- What a file of variables and pairs make. The file holds members in the order in which they are
written, with keys repeated or not, and is accepted. The first pair without an equals sign is
reported. When all pairs spell a name and a text, exactly the environment is loaded that the decoded
members and the flags determine: its names, their values and their order. Objects inside the members
are decoded by the rule for repeated keys that holds for the file itself. -/
theorem loadEnvironment_exact {files : Files} {varsFile : Option String}
    {members : List (List Json.StringUnit × Json.Node)} (hfile : HasMembers files varsFile members)
    (haccepted : ∃ stored, loadEnvironment files varsFile [] = .ok stored) (pairs : List String) :
    (∀ before pair after, pairs = before ++ pair :: after →
      (∀ p ∈ before, '=' ∈ p.toList) → '=' ∉ pair.toList →
      loadEnvironment files varsFile pairs = .error (.malformedPair pair) ∧
      (Failure.malformedPair pair).message = "--var expects NAME=VALUE, got: " ++ pair) ∧
    (∃ ps, List.Forall₂ (Value.MemberDenotes Value.Denotes) members ps) ∧
    ((∀ pair ∈ pairs, '=' ∈ pair.toList) → ∃ flags, List.Forall₂ PairSpells pairs flags) ∧
    (∀ ps flags, List.Forall₂ (Value.MemberDenotes Value.Denotes) members ps →
      List.Forall₂ PairSpells pairs flags →
      ∃ env, loadEnvironment files varsFile pairs = .ok env ∧ Loaded ps flags env ∧
        ∀ env', Loaded ps flags env' → env' = env) := by
  obtain ⟨stored, hstored⟩ := haccepted
  obtain ⟨⟨ps, hps, hmerged⟩, hload⟩ := loadEnvironment_of_members hfile hstored
  refine ⟨?_, ⟨ps, hps⟩, exists_flags, ?_⟩
  · rintro before pair after rfl hbefore hpair
    rw [hload]
    exact ⟨bindPairs_of_malformed hbefore hpair stored, rfl⟩
  · intro ps' flags hps' hflags
    -- members are decoded in one way only
    obtain rfl : ps = ps' := Option.some.inj
      ((Value.pairsOf?_iff_denotes.2 hps).symm.trans (Value.pairsOf?_iff_denotes.2 hps'))
    rw [hload]
    refine ⟨_, bindPairs_of_spelled hflags stored, loaded_bindAll hmerged, ?_⟩
    intro env' henv'
    exact henv'.unique (loaded_bindAll hmerged)

/-- Members with a key that is repeated, also inside an object. -/
def repeatingMembers : List (List Json.StringUnit × Json.Node) :=
  [(Json.unitsOf "a", .number (.ofInt 1)),
    (Json.unitsOf "b", .object [(Json.unitsOf "x", .ofString "1"),
      (Json.unitsOf "y", .number (.ofInt 2)), (Json.unitsOf "x", .ofString "3")]),
    (Json.unitsOf "a", .ofString "2"), (Json.unitsOf "c", .array [.null])]

/-- One name of the file is bound over twice, and a new name is bound to nothing. In a second list of
pairs, one has no equals sign. -/
theorem loadEnvironment_exact_of_repeated :
    ∃ files : Files, files "vars.json" = .ok (Text.Utf8.encode
      "\x7b\"a\":1,\"b\":\x7b\"x\":\"1\",\"y\":2,\"x\":\"3\"\x7d,\"a\":\"2\",\"c\":[null]\x7d".toList) ∧
    HasMembers files (some "vars.json") repeatingMembers ∧
    (∃ stored, loadEnvironment files (some "vars.json") [] = .ok stored) ∧
    (∃ env, loadEnvironment files (some "vars.json") ["c=true=1", "d=", "c=x=false"] = .ok env ∧
      env.names = ["a", "b", "c", "d"] ∧ env.get? "a" = some (.text "2") ∧
      env.get? "b" = some (.mapping [("x", .text "3"), ("y", .text "2")]) ∧
      env.get? "c" = some (.text "x=false")) ∧
    loadEnvironment files (some "vars.json") ["c=1", "d", "e"] = .error (.malformedPair "d") := by
  let files : Files := fun _ => .ok (Text.Utf8.encode
    ((Json.Node.object repeatingMembers).write .compact 0 ++ []))
  let b : Value := .mapping [("x", .text "3"), ("y", .text "2")]
  have hfile : HasMembers files (some "vars.json") repeatingMembers :=
    hasMembers_of_written Json.spaced_compact (by simp [Json.Spaces]) rfl
  have hps : List.Forall₂ (Value.MemberDenotes Value.Denotes) repeatingMembers
      [("a", .text "1"), ("b", b), ("a", .text "2"), ("c", .list [.text ""])] :=
    Value.pairsOf?_iff_denotes.1 rfl
  have haccepted : ∃ stored, loadEnvironment files (some "vars.json") [] = .ok stored :=
    (accepted_iff hfile).2 ⟨by decide, _, hps⟩
  have hflags : List.Forall₂ PairSpells ["c=true=1", "d=", "c=x=false"]
      [("c", "true=1"), ("d", ""), ("c", "x=false")] := by
    refine .cons ?_ (.cons ?_ (.cons ?_ .nil))
    · exact ⟨by decide, by decide⟩
    · exact ⟨by decide, by decide⟩
    · exact ⟨by decide, by decide⟩
  refine ⟨files, ?_, hfile, haccepted, ?_, ?_⟩
  · exact congrArg (fun cs => Except.ok (Text.Utf8.encode cs)) (by decide)
  · obtain ⟨env, hload, hloaded, -⟩ :=
      (loadEnvironment_exact hfile haccepted _).2.2.2 _ _ hps hflags
    refine ⟨env, hload, ?_, ?_, ?_, ?_⟩
    · rw [hloaded.names_eq]
      decide
    · exact hloaded.member "a" (.text "2") [("a", .text "1"), ("b", b)] [("c", .list [.text ""])]
        rfl (by decide) (by decide)
    · exact hloaded.member "b" b [("a", .text "1")] [("a", .text "2"), ("c", .list [.text ""])]
        rfl (by decide) (by decide)
    · exact hloaded.flag "c" "x=false" [("c", "true=1"), ("d", "")] [] rfl (by decide)
  · exact ((loadEnvironment_exact hfile haccepted _).1 ["c=1"] "d" ["e"] rfl (by decide)
      (by decide)).1

end CueScript.Cli
