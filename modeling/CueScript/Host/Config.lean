import CueScript.Bindings
import CueScript.Toml.Document

/-!
# CueScript.Host.Config — how command lines are run

A configuration names the shell that runs command lines, the arguments it gets before the script,
the working directory, and two flags. It is read from a settings document: every key is optional,
none may stand twice, and no other key is known.
-/

namespace CueScript

/-- How command lines are run. -/
structure Config where
  /-- The program that interprets command lines. -/
  shell : String
  /-- The arguments before the script. -/
  shellArgs : List String
  /-- The working directory, inherited when it is not set. -/
  cwd : Option String
  /-- Whether variables are exported to commands. -/
  exportVariables : Bool
  /-- Whether line ends at the end of the output are dropped. -/
  stripTrailingNewlines : Bool
deriving Repr, DecidableEq

namespace Config

/-- The configuration without any settings: `sh -c`, in the inherited directory, with variables
exported and line ends dropped. -/
def default : Config :=
  ⟨"sh", ["-c"], none, true, true⟩

/-- Takes a setting over; `none` when the key is unknown or the value is not of its type. -/
def withSetting? (c : Config) : String × Toml.Setting → Option Config
  | ("shell", .text s) => some { c with shell := s }
  | ("shell_args", .texts ss) => some { c with shellArgs := ss }
  | ("cwd", .text s) => some { c with cwd := some s }
  | ("export_variables", .flag b) => some { c with exportVariables := b }
  | ("strip_trailing_newlines", .flag b) => some { c with stripTrailingNewlines := b }
  | _ => none

def ofSettings? (ss : List (String × Toml.Setting)) : Option Config :=
  if (Bindings.keys ss).Nodup then ss.foldlM withSetting? default else none

def ofToml? (document : String) : Option Config :=
  (Toml.settings? document).bind ofSettings?

/-- The settings that describe a configuration, all of them; the working directory only when it is
set. -/
def settings (c : Config) : List (String × Toml.Setting) :=
  [("shell", .text c.shell), ("shell_args", .texts c.shellArgs)]
    ++ (c.cwd.map fun d => ("cwd", Toml.Setting.text d)).toList
    ++ [("export_variables", .flag c.exportVariables),
        ("strip_trailing_newlines", .flag c.stripTrailingNewlines)]

end Config

end CueScript
