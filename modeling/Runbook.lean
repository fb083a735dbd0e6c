import Runbook.Main
import Runbook.Run.Queue
import Runbook.Step.Alike
import Runbook.Proofs.Document.Detection
import Runbook.Proofs.Document.Parsed
import Runbook.Proofs.Document.Conversion
import Runbook.Proofs.Document.Probes
import Runbook.Proofs.Document.Bags
import Runbook.Proofs.Run.SideBySide
import Runbook.Proofs.Run.Bounded
import Runbook.Proofs.Run.Agreement
import Runbook.Proofs.Run.Recorded
import Runbook.Proofs.Run.Settled
import Runbook.Proofs.Run.Guarded
import Runbook.Proofs.Run.Replay
import Runbook.Proofs.Run.Pruned
import Runbook.Proofs.Run.Regrouped
import Runbook.Proofs.Run.Reports
import Runbook.Proofs.Run.Snapshot
import Runbook.Proofs.Store.Expansion
import Runbook.Proofs.Console.Precedence
import Runbook.Proofs.Validation.Errors
import Runbook.Proofs.Validation.Executors
import Runbook.Proofs.Validation.Starting
import Runbook.Proofs.Step.Search
import Runbook.Proofs.Queue.Bookkeeping
import Runbook.Proofs.Queue.Throughput
import Runbook.Proofs.Queue.FirstCome
import Runbook.Proofs.Condition.Recasing
import Runbook.Proofs.Builtin.BlankProperties
import Runbook.Proofs.Builtin.SuccessCodes
