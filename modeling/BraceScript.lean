import BraceScript.Command
import BraceScript.Forest
import BraceScript.Grammar.Call
import BraceScript.Highlight
import BraceScript.Main
import BraceScript.Prompt
import BraceScript.Proofs.Eval.Ordinary
import BraceScript.Proofs.Printing
import BraceScript.Scanner.Call
import BraceScript.Session
import BraceScript.Proofs.Eval.Coupling
import BraceScript.Proofs.Scope
import BraceScript.Proofs.Eval.Carrying
import BraceScript.Proofs.Scope.Renamed
import BraceScript.Proofs.Eval.Renaming
import BraceScript.Proofs.Eval.Expressions
import BraceScript.Proofs.Eval.Frames
import BraceScript.Proofs.Eval.Moments
import BraceScript.Proofs.Eval.Truncation
import BraceScript.Proofs.Grammar.Leaves
import BraceScript.Proofs.Scanner.Places
import BraceScript.Proofs.Scanner.Refused
import BraceScript.Proofs.Eval.Culprit
import BraceScript.Proofs.Scanner.Lines
import BraceScript.Proofs.Grammar.Sequence
import BraceScript.Proofs.Pieces
import BraceScript.Proofs.Eval.Matching
import BraceScript.Proofs.Eval.Stopping
import BraceScript.Proofs.Eval.Mentions
import BraceScript.Proofs.Eval.EmptyFrames
import BraceScript.Proofs.Grammar.Pairing
import BraceScript.Proofs.Forest
import BraceScript.Proofs.Highlight
import BraceScript.Proofs.Layout
import BraceScript.Proofs.Eval.Recursion
import BraceScript.Proofs.Session
import BraceScript.Proofs.Grammar.Lookahead
import BraceScript.Proofs.Grammar.Viable
import BraceScript.Proofs.Grammar.Braces
import BraceScript.Proofs.Literal
import BraceScript.Proofs.Eval.Effects
import BraceScript.Proofs.Scanner.History
import BraceScript.Proofs.Eval.Declarations
import BraceScript.Proofs.Prompt
import BraceScript.Proofs.Session.Comments
import BraceScript.Proofs.Grammar.Chains
import BraceScript.Proofs.Eval.Chains
import BraceScript.Proofs.Number.Shortest
import BraceScript.Proofs.Number.Text
import BraceScript.Proofs.Command
import BraceScript.Proofs.Grammar.Progress
import BraceScript.Proofs.Grammar.Layers
import BraceScript.Proofs.Grammar.History
