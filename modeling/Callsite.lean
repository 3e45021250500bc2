import Callsite.Main
import Callsite.Json.Printer
import Callsite.Proofs.Matching.Variables
import Callsite.Proofs.Matching.Explanation
import Callsite.Proofs.Program.Yields
import Callsite.Proofs.Spelling.EditDistance
import Callsite.Proofs.Spelling.Ranking
import Callsite.Proofs.Flow.Tracing
import Callsite.Proofs.Check.Answers
import Callsite.Proofs.Check.BlockResults
import Callsite.Proofs.Check.ForeignArguments
import Callsite.Proofs.Check.Leftovers
import Callsite.Proofs.Check.WellFormed
import Callsite.Proofs.Types.Interning
import Callsite.Proofs.Program.RoundTrip
import Callsite.Proofs.Forest.Programs
import Callsite.Proofs.Toml.Settings
import Callsite.Proofs.Engine.Synthesis
