import DataTree.Expectation
import DataTree.Survey
import DataTree.Workspace.Exec
import DataTree.Yang.Flatten
import DataTree.Proofs.Candidates
import DataTree.Proofs.Collected
import DataTree.Proofs.Entities
import DataTree.Proofs.Ownership
import DataTree.Proofs.Fates
import DataTree.Proofs.Exclusion
import DataTree.Proofs.WithoutState
import DataTree.Proofs.Matching
import DataTree.Proofs.Reordered
import DataTree.Proofs.Twins
import DataTree.Proofs.OrderFree
import DataTree.Proofs.Preferences
import DataTree.Proofs.NestedSides
import DataTree.Proofs.Uncompressed
import DataTree.Proofs.Flattening
import DataTree.Proofs.Traversal
import DataTree.Proofs.Incompressible
import DataTree.Proofs.Mirror
import DataTree.Proofs.Renamed
import DataTree.Proofs.Symmetry
import DataTree.Proofs.Alteration
import DataTree.Proofs.Congruence
import DataTree.Proofs.Steps
import DataTree.Proofs.Isolation
import DataTree.Proofs.Loading
import DataTree.Proofs.Ancestry
import DataTree.Proofs.ClosedForm
import DataTree.Proofs.Origins
import DataTree.Proofs.Transparency
import DataTree.Proofs.Warnings
import DataTree.Proofs.Describable
import DataTree.Proofs.Wrapping
import DataTree.Proofs.Rejection
import DataTree.Proofs.Growth
import DataTree.Proofs.Reservation
