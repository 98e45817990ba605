import Targeting.Json.Printer
import Targeting.Json.Reader
import Targeting.Proofs.Failures
import Targeting.Proofs.Pruning
import Targeting.Proofs.Reading
import Targeting.Workspace
import Targeting.Proofs.Matching
import Targeting.Proofs.Verdicts
import Targeting.Proofs.Splits
import Targeting.Proofs.Widening
import Targeting.Proofs.Canonical
import Targeting.Proofs.RoundTrips
import Targeting.Proofs.Instances
import Targeting.Proofs.Deepening
import Targeting.Proofs.Duality
import Targeting.Proofs.Reloading
import Targeting.Proofs.Lockstep
import Targeting.Proofs.Rebuilding
import Targeting.Proofs.Independence
import Targeting.Proofs.Flattening
import Targeting.Proofs.Leaves
import Targeting.Proofs.Outcomes
import Targeting.Proofs.Shares
import Targeting.Proofs.Salting
import Targeting.Proofs.Contexts
import Targeting.Proofs.Equality
