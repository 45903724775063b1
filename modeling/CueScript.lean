import CueScript.Main
import CueScript.Session
import CueScript.Host.Json
import CueScript.Host.Scripted
import CueScript.Proofs.Answers
import CueScript.Proofs.Assignment
import CueScript.Proofs.Calls
import CueScript.Proofs.Spelling
import CueScript.Proofs.Syntax.Expression
import CueScript.Proofs.Syntax.LoopHeader
import CueScript.Proofs.Host.Launch
import CueScript.Proofs.Host.LineEnds
import CueScript.Proofs.Cli.SavedEnvironment
import CueScript.Proofs.Value.Sorted
import CueScript.Proofs.Value.Canonical
import CueScript.Proofs.Refusals
import CueScript.Proofs.History
import CueScript.Proofs.Negation
import CueScript.Proofs.Loops
import CueScript.Proofs.ReadBack
import CueScript.Proofs.Syntax.Nameless
import CueScript.Proofs.Syntax.Layers
import CueScript.Proofs.Syntax.Turns
import CueScript.Proofs.Syntax.Targets
import CueScript.Proofs.Condition
import CueScript.Proofs.Cli.Parser
import CueScript.Proofs.Cli.Loading
import CueScript.Proofs.Independence
import CueScript.Proofs.LoopDocument
import CueScript.Proofs.Syntax.Decoding
import CueScript.Proofs.AssignedNames
import CueScript.Proofs.Host.Outcome
import CueScript.Proofs.Toml.Document
import CueScript.Proofs.Value.Integer
import CueScript.Proofs.Host.Config
