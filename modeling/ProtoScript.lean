import ProtoScript.Main
import ProtoScript.Proofs.Evaluation.Phrase
import ProtoScript.Proofs.Evaluation.Run
import ProtoScript.Proofs.Evaluation.Wording
import ProtoScript.Proofs.Evaluation.Expansion
import ProtoScript.Proofs.Evaluation.Integer
import ProtoScript.Proofs.Evaluation.Exact
import ProtoScript.Proofs.Evaluation.Parameters
import ProtoScript.Proofs.Session.Execute
import ProtoScript.Proofs.Session.Discipline
import ProtoScript.Proofs.Grammar.Derives
import ProtoScript.Proofs.Grammar.Reads
import ProtoScript.Proofs.Grammar.Soundness
import ProtoScript.Proofs.Grammar.Print
import ProtoScript.Proofs.Grammar.Reread
import ProtoScript.Proofs.Grammar.RoundTrip
import ProtoScript.Proofs.Grammar.Imports
import ProtoScript.Proofs.Grammar.Concatenation
import ProtoScript.Proofs.Grammar.Progress
import ProtoScript.Proofs.Grammar.Recovery
import ProtoScript.Proofs.Token.Render
import ProtoScript.Proofs.Token.Partition
import ProtoScript.Proofs.Scope.Refinement
import ProtoScript.Proofs.Heap.Copy
import ProtoScript.Proofs.Heap.Walk
import ProtoScript.Proofs.Heap.Unwrap
import ProtoScript.Proofs.Typing.Fulfilment
import ProtoScript.Proofs.Typing.Union
import ProtoScript.Proofs.Typing.Reordering
import ProtoScript.Proofs.Typing.Termination
import ProtoScript.Proofs.Session.Declared
import ProtoScript.Proofs.Session.Redeclaration
import ProtoScript.Proofs.Session.Numeral
import ProtoScript.Proofs.Session.Import
import ProtoScript.Proofs.Session.Prompt
import ProtoScript.Proofs.Number.Nearest
import ProtoScript.Proofs.Evaluation.Boxes
import ProtoScript.Proofs.Typing.Merge
import ProtoScript.Proofs.Evaluation.Iteration
import ProtoScript.Proofs.Grammar.Brackets
import ProtoScript.Proofs.Evaluation.Indexing
