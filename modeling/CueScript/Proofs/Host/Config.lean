import Mathlib.Data.List.Perm.Subperm
import CueScript.Host.Config
import CueScript.Proofs.Toml.Document

/-!
# CueScript.Proofs.Host.Config — configurations are read as they are written

1. **Settings**: the five keys. Settings of a configuration, any of them in any order, give its
   values for their keys and leave all other values as they are.
2. **Documents**: a document with one line for each of some settings is read as these settings over
   the default; one more line with an unknown or a repeated key makes it refused.
-/

namespace CueScript.Config

open Bindings (keys)

/-! ## Settings -/

def settingKeys : List String :=
  ["shell", "shell_args", "cwd", "export_variables", "strip_trailing_newlines"]

/-- The values of `c` for the given keys, and those of `d` for all others. -/
def overlay (c d : Config) (ks : List String) : Config where
  shell := if "shell" ∈ ks then c.shell else d.shell
  shellArgs := if "shell_args" ∈ ks then c.shellArgs else d.shellArgs
  cwd := if "cwd" ∈ ks then c.cwd else d.cwd
  exportVariables := if "export_variables" ∈ ks then c.exportVariables else d.exportVariables
  stripTrailingNewlines :=
    if "strip_trailing_newlines" ∈ ks then c.stripTrailingNewlines else d.stripTrailingNewlines

theorem overlay_nil (c d : Config) : c.overlay d [] = d := by
  simp [overlay]

theorem overlay_cons (c d : Config) (k : String) (ks : List String) :
    c.overlay (c.overlay d [k]) ks = c.overlay d (k :: ks) := by
  have hfield : ∀ {α : Type} (f : String) (a b : α),
      (if f ∈ ks then a else if f ∈ [k] then a else b) = if f ∈ k :: ks then a else b := by
    intro α f a b
    by_cases hk : f = k
    · simp [hk]
    · simp [hk]
  simp only [overlay, hfield]

/-- A setting of a configuration carries its value over. -/
theorem withSetting?_of_mem {c : Config} {s : String × Toml.Setting} (h : s ∈ c.settings)
    (d : Config) : d.withSetting? s = some (c.overlay d [s.1]) := by
  simp only [settings, List.mem_append, List.mem_cons, List.not_mem_nil, or_false,
    Option.mem_toList, Option.map_eq_some_iff] at h
  rcases h with ((rfl | rfl) | ⟨dir, hdir, rfl⟩) | (rfl | rfl)
  · simp [withSetting?, overlay]
  · simp [withSetting?, overlay]
  · simp [withSetting?, overlay, hdir]
  · simp [withSetting?, overlay]
  · simp [withSetting?, overlay]

theorem foldlM_withSetting? {c : Config} {ss : List (String × Toml.Setting)}
    (h : ∀ s ∈ ss, s ∈ c.settings) (d : Config) :
    ss.foldlM withSetting? d = some (c.overlay d (keys ss)) := by
  induction ss generalizing d with
  | nil => exact congrArg some (overlay_nil c d).symm
  | cons s ss ih =>
    obtain ⟨hs, hss⟩ := List.forall_mem_cons.1 h
    rw [List.foldlM_cons, withSetting?_of_mem hs, Option.bind_eq_bind, Option.bind_some, ih hss,
      overlay_cons]
    rfl

theorem keys_settings_sublist (c : Config) : (keys c.settings).Sublist settingKeys := by
  cases hcwd : c.cwd with
  | none => simp [keys, settings, hcwd, settingKeys]
  | some dir => simp [keys, settings, hcwd, settingKeys]

theorem mem_settingKeys_of_withSetting? {d d' : Config} {s : String × Toml.Setting}
    (h : d.withSetting? s = some d') : s.1 ∈ settingKeys := by
  unfold withSetting? at h
  split at h
  case h_6 => cases h
  all_goals simp [settingKeys]

theorem foldlM_withSetting?_keys {ss : List (String × Toml.Setting)} {d d' : Config}
    (h : ss.foldlM withSetting? d = some d') : ∀ k ∈ keys ss, k ∈ settingKeys := by
  induction ss generalizing d with
  | nil =>
    intro k hk
    cases hk
  | cons s ss ih =>
    rw [List.foldlM_cons] at h
    obtain ⟨next, hs, hss⟩ := Option.bind_eq_some_iff.1 h
    exact List.forall_mem_cons.2 ⟨mem_settingKeys_of_withSetting? hs, ih hss⟩

/-- Settings that are accepted have known keys, and each of them once. -/
theorem keys_of_ofSettings? {ss : List (String × Toml.Setting)} {d : Config}
    (h : ofSettings? ss = some d) : (keys ss).Nodup ∧ ∀ k ∈ keys ss, k ∈ settingKeys := by
  unfold ofSettings? at h
  split at h
  · next hnodup => exact ⟨hnodup, foldlM_withSetting?_keys h⟩
  · cases h

section Chosen

variable {c : Config} {ss : List (String × Toml.Setting)}

/-- Settings of a configuration, any of them in any order, have different keys. -/
theorem nodup_keys_of_subperm (h : ss.Subperm c.settings) : (keys ss).Nodup := by
  obtain ⟨chosen, hperm, hsub⟩ := h
  have hkeys : settingKeys.Nodup := by decide
  have hchosen : (keys chosen).Nodup :=
    hkeys.sublist ((hsub.map Prod.fst).trans (keys_settings_sublist c))
  exact (hperm.map Prod.fst).nodup_iff.1 hchosen

theorem mem_settingKeys_of_subperm (h : ss.Subperm c.settings) :
    ∀ k ∈ keys ss, k ∈ settingKeys := by
  intro k hk
  obtain ⟨s, hs, rfl⟩ := List.mem_map.1 hk
  exact (keys_settings_sublist c).subset (List.mem_map_of_mem (h.subset hs))

theorem ofSettings?_of_subperm (h : ss.Subperm c.settings) :
    ofSettings? ss = some (c.overlay default (keys ss)) := by
  rw [ofSettings?, if_pos (nodup_keys_of_subperm h)]
  exact foldlM_withSetting? (fun s hs => h.subset hs) default

/-! ## Documents -/

theorem isWord_of_mem_settingKeys {k : String} (h : k ∈ settingKeys) : Toml.IsWord k.toList := by
  have hall : ∀ k ∈ settingKeys, k.toList ≠ [] ∧ k.toList.all Toml.isWordChar = true := by decide
  exact .of_all (hall k h).1 (hall k h).2

theorem isWord_of_subperm (h : ss.Subperm c.settings) :
    ∀ s ∈ ss, Toml.IsWord s.1.toList := by
  intro s hs
  have hkey : s.1 ∈ settingKeys := mem_settingKeys_of_subperm h s.1 (List.mem_map_of_mem hs)
  exact isWord_of_mem_settingKeys hkey

theorem ofToml?_eq_none {document : String}
    (h : ∀ read, Toml.settings? document = some read →
      ¬ ((keys read).Nodup ∧ ∀ k ∈ keys read, k ∈ settingKeys)) : ofToml? document = none := by
  rw [ofToml?, Option.bind_eq_none_iff]
  intro read hread
  cases hconfig : ofSettings? read with
  | none => rfl
  | some d => exact absurd (keys_of_ofSettings? hconfig) (h read hread)

/-- Behind lines of settings, a line whose key is unknown or stands in one of them. -/
theorem ofToml?_refused {ls : List (List Char)} (hls : List.Forall₂ Toml.LineSpelled ss ls)
    {key : String} {kt : List Char} (hk : Toml.KeySpelled key kt)
    (hkey : key ∉ settingKeys ∨ key ∈ keys ss) (body : List Char) :
    ofToml? (String.ofList (ls.flatten ++ (kt ++ [' ', '=', ' '] ++ body))) = none := by
  refine ofToml?_eq_none ?_
  rintro read hread ⟨hnodup, hknown⟩
  obtain ⟨v, more, rfl⟩ := Toml.exists_of_settings?_key hls hk hread
  have hkeys : keys (ss ++ (key, v) :: more) = keys ss ++ key :: keys more := by
    simp [keys]
  rw [hkeys] at hnodup hknown
  rcases hkey with hkey | hkey
  · exact hkey (hknown key (List.mem_append_right _ List.mem_cons_self))
  · exact (List.nodup_append.1 hnodup).2.2 key hkey key List.mem_cons_self rfl

/-- A further line with the key of one of the lines, wherever it stands. -/
theorem ofToml?_repeated {ls : List (List Char)} (hls : List.Forall₂ Toml.LineSpelled ss ls)
    {s : String × Toml.Setting} {l : List Char} (hl : Toml.LineSpelled s l)
    (hs : s.1 ∈ keys ss) (n : Nat) :
    ofToml? (String.ofList ((ls.take n).flatten ++ l ++ (ls.drop n).flatten)) = none := by
  refine ofToml?_eq_none ?_
  rintro read hread ⟨hnodup, -⟩
  have hlines : List.Forall₂ Toml.LineSpelled (ss.take n ++ s :: ss.drop n)
      (ls.take n ++ l :: ls.drop n) :=
    List.rel_append (List.forall₂_take n hls) (.cons hl (List.forall₂_drop n hls))
  have hall := Toml.settings?_lines hlines
  rw [List.flatten_append, List.flatten_cons, ← List.append_assoc, hread] at hall
  obtain rfl := Option.some.inj hall
  have hkeys : keys (ss.take n ++ s :: ss.drop n) = keys (ss.take n) ++ s.1 :: keys (ss.drop n) := by
    simp [keys]
  have hmem : s.1 ∈ keys (ss.take n) ++ keys (ss.drop n) := by
    rwa [keys, keys, ← List.map_append, List.take_append_drop]
  rw [hkeys, List.perm_middle.nodup_iff, List.nodup_cons] at hnodup
  exact hnodup.1 hmem

end Chosen

/-- A document with one line for each of some settings of a configuration, in any order and however
keys and texts are escaped, is read as the values of the configuration for their keys and the default
for all others; the document that is written for the settings is one of these. Such a document with
one more line in front of line `n` is refused if the key of that line is unknown or stands above,
whatever is behind the equals sign, and if it sets any key of the document a second time. -/
theorem documents_exact (c : Config) {ss : List (String × Toml.Setting)}
    (hss : ss.Subperm c.settings) {ls : List (List Char)}
    (hls : List.Forall₂ Toml.LineSpelled ss ls) :
    ofToml? (Toml.writeSettings ss) = some (c.overlay default (keys ss)) ∧
      ofToml? (String.ofList ls.flatten) = some (c.overlay default (keys ss)) ∧
      ∀ n,
        (∀ key kt, Toml.KeySpelled key kt → key ∉ settingKeys ∨ key ∈ keys (ss.take n) →
          ∀ body, ofToml? (String.ofList ((ls.take n).flatten ++ (kt ++ [' ', '=', ' '] ++ body)
            ++ (ls.drop n).flatten)) = none) ∧
        ∀ s l, s.1 ∈ keys ss → Toml.LineSpelled s l →
          ofToml? (String.ofList ((ls.take n).flatten ++ l ++ (ls.drop n).flatten)) = none := by
  have hread : ∀ {ls : List (List Char)}, List.Forall₂ Toml.LineSpelled ss ls →
      ofToml? (String.ofList ls.flatten) = some (c.overlay default (keys ss)) := by
    intro ls hls
    rw [ofToml?, Toml.settings?_lines hls, Option.bind_some, ofSettings?_of_subperm hss]
  refine ⟨?_, hread hls, ?_⟩
  · rw [Toml.writeSettings, List.flatMap_def]
    exact hread (Toml.lineSpelled_map_writeLine (isWord_of_subperm hss))
  · intro n
    refine ⟨?_, ?_⟩
    · intro key kt hk hkey body
      have hrefused := ofToml?_refused (List.forall₂_take n hls) hk hkey
        (body ++ (ls.drop n).flatten)
      rwa [← List.append_assoc (kt ++ _), ← List.append_assoc] at hrefused
    · intro s l hs hl
      exact ofToml?_repeated hls hl hs n

/-- A configuration with a quote, a line end and a control character in its texts. -/
def oddConfig : Config :=
  ⟨"say \"sh\"\n", ["", "\x00é"], some "/tmp", true, false⟩

/-- Three of its settings, the working directory first. -/
def oddSettings : List (String × Toml.Setting) :=
  [("cwd", .text "/tmp"), ("strip_trailing_newlines", .flag false),
   ("shell_args", .texts ["", "\x00é"])]

/-- Their lines, with an escape in the first key. -/
def oddLines : List (List Char) :=
  ["\"\\u0063wd\" = \"/tmp\"\n".toList, "strip_trailing_newlines = false\n".toList,
   "shell_args = [\"\", \"\\u0000é\"]\n".toList]

theorem documents_exact_of_odd_lines :
    oddSettings.Subperm oddConfig.settings ∧ List.Forall₂ Toml.LineSpelled oddSettings oddLines ∧
      ofToml? (String.ofList oddLines.flatten) = some ⟨"sh", ["", "\x00é"], some "/tmp", true, false⟩ ∧
      ofToml? (String.ofList (oddLines.flatten ++ "\"cwd\" = 7".toList)) = none ∧
      ofToml? (String.ofList ("user = \"root\"\n".toList ++ oddLines.flatten)) = none := by
  have hkey : Toml.KeySpelled "cwd" "\"\\u0063wd\"".toList := by
    refine .string ⟨[['\\', 'u', '0', '0', '6', '3'], ['w'], ['d']], ?_, by decide⟩
    exact .cons (.code (by decide)) (.cons (.plain (by decide) (by decide) (by decide) (by decide))
      (.cons (.plain (by decide) (by decide) (by decide) (by decide)) .nil))
  have hcwd : Toml.LineSpelled ("cwd", .text "/tmp") "\"\\u0063wd\" = \"/tmp\"\n".toList :=
    ⟨_, _, hkey, Toml.settingSpelled_write _, by decide⟩
  have hss : oddSettings.Subperm oddConfig.settings := by
    have hnodup : oddSettings.Nodup := by decide
    exact hnodup.subperm (by decide)
  have hwritten : ∀ s ∈ oddSettings, Toml.LineSpelled s (Toml.writeLine s) := by
    intro s hs
    exact Toml.lineSpelled_writeLine (isWord_of_subperm hss s hs)
  have hls : List.Forall₂ Toml.LineSpelled oddSettings oddLines :=
    .cons hcwd (.cons (hwritten _ (by decide)) (.cons (hwritten _ (by decide)) .nil))
  obtain ⟨-, hread, hrefused⟩ := documents_exact oddConfig hss hls
  refine ⟨hss, hls, hread, ?_, ?_⟩
  · exact (hrefused 3).1 "cwd" _ (.string (Toml.stringSpelled_quote "cwd")) (.inr (by decide)) ['7']
  · exact (hrefused 0).1 "user" _ (.word (.of_all (by decide) (by decide))) (.inl (by decide))
      "\"root\"\n".toList

end CueScript.Config
