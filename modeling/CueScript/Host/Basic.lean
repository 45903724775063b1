import CueScript.Environment

/-!
# CueScript.Host.Basic — what a script asks its host for

A host runs command lines. It answers with the outcome of a completed run, or with a fault; in
checked mode a non-zero exit status is a fault, in unchecked mode an outcome.
-/

namespace CueScript

/-- How a non-zero exit status is reported. -/
inductive CommandMode where
  /-- As a fault. -/
  | checked
  /-- As an outcome. -/
  | unchecked
deriving Repr, DecidableEq

def CommandMode.name : CommandMode → String
  | checked => "Checked"
  | unchecked => "Unchecked"

/-- A completed run: its exit status and all that it wrote. -/
structure CommandOutcome where
  exitCode : Int32
  output : String
deriving Repr, DecidableEq

/-- A run succeeds when its exit status is zero. -/
def CommandOutcome.succeeded (o : CommandOutcome) : Bool :=
  o.exitCode = 0

/-- Why a host has no outcome to report. -/
inductive Fault where
  /-- A checked command ended with a status other than zero. -/
  | nonZeroExit (code : Int32) (output : String)
  /-- The program could not be started. -/
  | spawn (program message : String)
deriving Repr, DecidableEq

namespace Fault

def message : Fault → String
  | nonZeroExit code _ => "command exited with status " ++ toString code.toInt
  | spawn program reason => "failed to spawn `" ++ program ++ "`: " ++ reason

/-- What the command wrote before the fault. -/
def output : Fault → String
  | nonZeroExit _ written => written
  | spawn _ _ => ""

end Fault

/-- A host answers a command line, in a mode, with the variables it may see. -/
abbrev Host := CommandMode → String → Environment → Except Fault CommandOutcome

end CueScript
