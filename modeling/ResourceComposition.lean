import ResourceComposition.ApiServer.Client
import ResourceComposition.Composition.Reconciliation
import ResourceComposition.Logging
import ResourceComposition.Proofs.Addressing
import ResourceComposition.Proofs.Bystanders
import ResourceComposition.Proofs.Checks
import ResourceComposition.Proofs.Collection
import ResourceComposition.Proofs.Commutation
import ResourceComposition.Proofs.Copies
import ResourceComposition.Proofs.Correspondence
import ResourceComposition.Proofs.Divergence
import ResourceComposition.Proofs.Effects
import ResourceComposition.Proofs.Expansion
import ResourceComposition.Proofs.Failures
import ResourceComposition.Proofs.Growth
import ResourceComposition.Proofs.Housekeeping
import ResourceComposition.Proofs.Idempotence
import ResourceComposition.Proofs.Kinds
import ResourceComposition.Proofs.Layers
import ResourceComposition.Proofs.Notation
import ResourceComposition.Proofs.Orchestration
import ResourceComposition.Proofs.Position
import ResourceComposition.Proofs.Publication
import ResourceComposition.Proofs.Readiness
import ResourceComposition.Proofs.Recomposition
import ResourceComposition.Proofs.Renewal
import ResourceComposition.Proofs.Retention
import ResourceComposition.Proofs.Routes
import ResourceComposition.Proofs.Staying
import ResourceComposition.Proofs.Takeover
import ResourceComposition.Proofs.Traversal
import ResourceComposition.Proofs.Turns
import ResourceComposition.Proofs.Verdicts
import ResourceComposition.Revision.Form
import ResourceComposition.Store.Faults
import ResourceComposition.Store.Memory
