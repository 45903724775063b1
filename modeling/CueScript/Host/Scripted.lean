import CueScript.Host.Basic

/-!
# CueScript.Host.Scripted — a host with prepared replies

Each reply is kept under the command line that it answers; the first entry for a line counts. A line
without an entry is an unknown command, with the exit status that shells give to those.
-/

namespace CueScript

/-- A prepared reply to a command line. -/
inductive Reply where
  /-- This outcome. -/
  | outcome (o : CommandOutcome)
  /-- This fault. -/
  | fault (f : Fault)
  /-- Success; the output is the display of a variable, or nothing when it is not bound. -/
  | display (name : String)
deriving Repr, DecidableEq

def Reply.answer (env : Environment) : Reply → Except Fault CommandOutcome
  | outcome o => .ok o
  | fault f => .error f
  | display name => .ok ⟨0, ((env.get? name).map Value.display).getD ""⟩

/-- The host that gives prepared replies. -/
def Host.scripted (replies : List (String × Reply)) : Host := fun _ line env =>
  match Bindings.find? line replies with
  | some reply => reply.answer env
  | none => .ok ⟨127, line ++ ": command not found"⟩

end CueScript
