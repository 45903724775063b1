/-!
# CueScript.Cli.Arguments — the command line of the evaluator

`[--var NAME=VALUE]… [--vars FILE] [--config FILE] [-v]… (eval EXPR | for HEADER | if HEADER
[--else] | assign TARGETS EXPR)`

Options come before the subcommand. A value may stand behind `=` or as the next argument, where it
must not look like an option. A subcommand takes an exact number of arguments; behind `--` they may
look like options. Everything else is a usage error.
-/

namespace CueScript.Cli

/-- The options in front of the subcommand. -/
structure Options where
  /-- The values of `--var`, in order. -/
  pairs : List String
  varsFile : Option String
  configFile : Option String
  verbosity : Nat
deriving Repr, DecidableEq

def Options.none : Options := ⟨[], .none, .none, 0⟩

inductive Task where
  | eval (expression : String)
  | loop (header : String)
  | condition (header : String) (hasElse : Bool)
  | assign (targets expression : String)
deriving Repr, DecidableEq

/-- What a command line asks for. -/
inductive Invocation where
  | version
  | run (options : Options) (task : Task)
deriving Repr, DecidableEq

/-! ## Subcommands -/

/-- Whether an argument looks like an option; a hyphen alone does not. -/
def looksLikeOption (arg : String) : Bool :=
  match arg.toList with
  | '-' :: _ :: _ => true
  | _ => false

/-- The positional arguments of a subcommand and whether `flag` was among the arguments. The flag
may stand once, in front of `--`; no other option is known. -/
def positionals? (flag : Option String) : List String → Option (List String × Bool)
  | [] => some ([], false)
  | arg :: args =>
    if arg = "--" then some (args, false)
    else if looksLikeOption arg then
      if flag = some arg then (positionals? none args).map fun p => (p.1, true) else none
    else (positionals? flag args).map fun p => (arg :: p.1, p.2)

def task? (name : String) (args : List String) : Option Task :=
  match name, positionals? (if name = "if" then some "--else" else none) args with
  | "eval", some ([e], _) => some (.eval e)
  | "for", some ([h], _) => some (.loop h)
  | "if", some ([h], hasElse) => some (.condition h hasElse)
  | "assign", some ([t, e], _) => some (.assign t e)
  | _, _ => none

/-! ## Options -/

/-- An argument in front of the subcommand. -/
inductive OptionArgument where
  /-- An option with a value, which stands behind `=` or is the next argument. -/
  | valued (name : String) (value : Option String)
  /-- A cluster of `-v`, with `-V` behind it or not. -/
  | flags (count : Nat) (version : Bool)
  /-- A subcommand. -/
  | subcommand (name : String)
deriving Repr, DecidableEq

/-- Reads a cluster of one-letter flags; letters behind `V` are not looked at. -/
def cluster? : List Char → Option OptionArgument
  | [] => some (.flags 0 false)
  | 'V' :: _ => some (.flags 0 true)
  | 'v' :: cs =>
    match cluster? cs with
    | some (.flags n version) => some (.flags (n + 1) version)
    | _ => none
  | _ => none

/-- Reads an argument in front of the subcommand. -/
def optionArgument? (arg : String) : Option OptionArgument :=
  match arg.toList with
  | '-' :: '-' :: long =>
    let name := String.ofList (long.takeWhile (· != '='))
    match long.dropWhile (· != '=') with
    | '=' :: value =>
      if name ∈ ["var", "vars", "config"] then some (.valued name (some (String.ofList value)))
      else none
    | _ =>
      if name ∈ ["var", "vars", "config"] then some (.valued name none)
      else if name = "verbose" then some (.flags 1 false)
      else if name = "version" then some (.flags 0 true)
      else none
  | '-' :: short => if short.isEmpty then none else cluster? short
  | _ => some (.subcommand arg)

/-- Takes over a value of an option. Paths must not be empty and may be given once. -/
def Options.withValue? (o : Options) (name value : String) : Option Options :=
  match name with
  | "var" => some { o with pairs := o.pairs ++ [value] }
  | "vars" =>
    if o.varsFile.isNone ∧ value ≠ "" then some { o with varsFile := some value } else .none
  | "config" =>
    if o.configFile.isNone ∧ value ≠ "" then some { o with configFile := some value } else .none
  | _ => .none

/-- Reads a command line behind options that were read already. -/
def invocationWith? (o : Options) (args : List String) : Option Invocation :=
  match args with
  | [] => none
  | arg :: args =>
    match optionArgument? arg with
    | none => none
    | some (.subcommand name) => (task? name args).map (.run o)
    | some (.flags count version) =>
      if version then some .version
      else invocationWith? { o with verbosity := o.verbosity + count } args
    | some (.valued name (some value)) =>
      match o.withValue? name value with
      | some o => invocationWith? o args
      | none => none
    | some (.valued name none) =>
      match args with
      | [] => none
      | value :: args =>
        if looksLikeOption value then none
        else
          match o.withValue? name value with
          | some o => invocationWith? o args
          | none => none

/-- What a command line asks for; `none` for a usage error. -/
def invocation? (args : List String) : Option Invocation :=
  invocationWith? .none args

def Invocation.paths : Invocation → List String
  | version => []
  | run options _ => options.configFile.toList ++ options.varsFile.toList

end CueScript.Cli
