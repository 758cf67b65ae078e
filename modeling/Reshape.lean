import Reshape.Command.Run
import Reshape.Data.Archive
import Reshape.Main
import Reshape.Similarity
import Reshape.Proofs.Mapping
import Reshape.Proofs.Script.WorkTree
import Reshape.Proofs.Tree
import Reshape.Proofs.Script.Start
import Reshape.Proofs.Script.Draft
import Reshape.Proofs.Script.Transfer
import Reshape.Proofs.Sequence.Alignment
import Reshape.Proofs.Sequence.Splice
import Reshape.Proofs.Script.Clearing
import Reshape.Proofs.Script.Order
import Reshape.Proofs.Script.Visiting
import Reshape.Proofs.Script.Reduction
import Reshape.Proofs.Script.Arrival
import Reshape.Proofs.Script.RoundTrip
import Reshape.Proofs.Script.Account
import Reshape.Proofs.Matching.Growth
import Reshape.Proofs.Matching.Recovery
import Reshape.Proofs.Matching.WellFormed
import Reshape.Proofs.Model.Entities
import Reshape.Proofs.Pairing.Range
import Reshape.Proofs.Refactoring.Related
import Reshape.Proofs.FileMap
import Reshape.Proofs.Project.Attempt
import Reshape.Proofs.Project.Complete
import Reshape.Proofs.Project.Schedule
import Reshape.Proofs.Pairing.Partition
import Reshape.Proofs.Refactoring.Resolution
import Reshape.Proofs.Refactoring.Classification
import Reshape.Proofs.Tree.Alike
import Reshape.Proofs.Matching.Identity
import Reshape.Proofs.Script.Identity
import Reshape.Proofs.TreeDiff
import Reshape.Proofs.TreeDiff.Merge
import Reshape.Proofs.Refactoring.Priority
import Reshape.Proofs.Mapping.Calls
import Reshape.Proofs.Model.Construction
import Reshape.Proofs.Text.Distance
import Reshape.Proofs.Thresholds
import Reshape.Proofs.Pairing.Self
import Reshape.Proofs.Refactoring.Unchanged
import Reshape.Proofs.Model.Location
import Reshape.Proofs.Refactoring.Evidence
import Reshape.Proofs.Pairing.Maximal
import Reshape.Proofs.Tree.Measure
import Reshape.Proofs.Matching.Unique
import Reshape.Proofs.Sequence.Longest
import Reshape.Proofs.Script.Changes
import Reshape.Proofs.Script.Exact
import Reshape.Proofs.Refactoring.Mirror
import Reshape.Proofs.Refactoring.Signature
import Reshape.Proofs.Refactoring.InPlace
import Reshape.Proofs.Text.Pieces
import Reshape.Proofs.Text.Substitution
import Reshape.Proofs.Concrete
import Reshape.Proofs.Text.NormalForm
import Reshape.Proofs.Model.Walk
import Reshape.Proofs.Model.Integrity
import Reshape.Proofs.Model.Calls
import Reshape.Proofs.Script.Grouping
import Reshape.Proofs.Script.Phases
import Reshape.Proofs.Pairing.Stable
import Reshape.Proofs.Text.Edits
import Reshape.Proofs.Similarity.Rounding
import Reshape.Proofs.Tree.Level
import Reshape.Proofs.Tree.Walks
import Reshape.Proofs.Tree.Isomorphism
import Reshape.Proofs.Sequence.Overlap
import Reshape.Proofs.Refactoring.Overlap
import Reshape.Proofs.Model.Statements
