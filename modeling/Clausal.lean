import Clausal.Main
import Clausal.Session
import Clausal.Proofs.Branching.Shortness
import Clausal.Proofs.Counters
import Clausal.Proofs.Entailment
import Clausal.Proofs.Propagation.Outcome
import Clausal.Proofs.Reordering.Solver
import Clausal.Proofs.Reordering.UnitClosure
import Clausal.Proofs.Termination
import Clausal.Proofs.Validation
import Clausal.Proofs.Trail.Calls
import Clausal.Proofs.Dimacs.RoundTrip
import Clausal.Proofs.Dimacs.Acceptance
import Clausal.Proofs.CommandLine.Solve
import Clausal.Proofs.CommandLine.Benchmark
import Clausal.Proofs.Search.BranchPoint
import Clausal.Proofs.Encoding.Pigeonhole
import Clausal.Proofs.Encoding.Coloring
import Clausal.Proofs.Dimacs.Failure
import Clausal.Proofs.Dimacs.Loading
import Clausal.Proofs.Dimacs.ValueLines
