import CueScript.Shell.Bytes

/-!
# CueScript.Shell.Setting — the options of a shell

Each option has a name and most have a letter. The order of the options is the one in which they are
listed.
-/

namespace CueScript.Shell

inductive Setting where
  /-- The shell ends when a command fails. -/
  | errexit
  /-- Words are no patterns for paths. -/
  | noglob
  | ignoreeof
  | interactive
  | monitor
  /-- Commands are read and not run. -/
  | noexec
  /-- Commands come from standard input. -/
  | stdin
  /-- Commands are shown before they are run. -/
  | xtrace
  /-- Lines are shown when they are read. -/
  | verbose
  | vi
  | emacs
  /-- Files that are there are not written anew. -/
  | noclobber
  /-- Programs get every variable that takes a value. -/
  | allexport
  | notify
  /-- A parameter without a value is an error. -/
  | nounset
  | privileged
  | nolog
  | debug
deriving Repr, DecidableEq

namespace Setting

/-- The options in order, with their names and letters. -/
def table : List (Setting × String × Option Char) :=
  [(errexit, "errexit", some 'e'), (noglob, "noglob", some 'f'), (ignoreeof, "ignoreeof", some 'I'),
    (interactive, "interactive", some 'i'), (monitor, "monitor", some 'm'),
    (noexec, "noexec", some 'n'), (stdin, "stdin", some 's'), (xtrace, "xtrace", some 'x'),
    (verbose, "verbose", some 'v'), (vi, "vi", some 'V'), (emacs, "emacs", some 'E'),
    (noclobber, "noclobber", some 'C'), (allexport, "allexport", some 'a'),
    (notify, "notify", some 'b'), (nounset, "nounset", some 'u'),
    (privileged, "privileged", some 'p'), (nolog, "nolog", none), (debug, "debug", none)]

def ofLetter? (c : Char) : Option Setting :=
  (table.find? fun e => e.2.2 = some c).map Prod.fst

def ofName? (s : Text) : Option Setting :=
  (table.find? fun e => e.2.1.toList = s).map Prod.fst

/-- Sets an option or takes it away. -/
def set (on : Bool) (o : Setting) (settings : List Setting) : List Setting :=
  let others := settings.filter (· ≠ o)
  if on then o :: others else others

/-- Sets an option that is given by its letter. The two ways to edit lines then exclude each other. -/
def setLetter (on : Bool) (o : Setting) (settings : List Setting) : List Setting :=
  let excluded := if !on then none else if o = vi then some emacs else if o = emacs then some vi else none
  set on o (settings.filter fun s => some s ≠ excluded)

/-- The letters of the options that are set, last option first. -/
def letters (settings : List Setting) : Text :=
  table.reverse.filterMap fun e => if e.1 ∈ settings then e.2.2 else none

/-- The options and whether they are set, in columns. -/
def columns (settings : List Setting) : Text :=
  "Current option settings\n".toList ++ table.flatMap fun e =>
    let name := e.2.1.toList
    name ++ repeated ' ' (16 - name.length)
      ++ (if e.1 ∈ settings then "on\n" else "off\n").toList

/-- The commands that would set the options as they are. -/
def commands (settings : List Setting) : Text :=
  table.flatMap fun e =>
    (if e.1 ∈ settings then "set -o " else "set +o ").toList ++ e.2.1.toList ++ ['\n']

end Setting

end CueScript.Shell
