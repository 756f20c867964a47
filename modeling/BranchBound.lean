import BranchBound.Command.OnTree
import BranchBound.Main
import BranchBound.Proofs.Bounded
import BranchBound.Proofs.PivotBudget
import BranchBound.Proofs.Infeasibility
import BranchBound.Proofs.LeafCounts
import BranchBound.Proofs.OpenNodes
import BranchBound.Proofs.LoopHeads
import BranchBound.Proofs.Consistency
import BranchBound.Proofs.Partition
import BranchBound.Proofs.Violation
import BranchBound.Proofs.NodeCounts
import BranchBound.Proofs.SpaceByDepth
import BranchBound.Proofs.NodeBudget
import BranchBound.Proofs.Reuse
import BranchBound.Proofs.Termination
import BranchBound.Proofs.FiniteScalars
import BranchBound.Proofs.Validity
import BranchBound.Proofs.Overflow
import BranchBound.Proofs.RunCourse
import BranchBound.Proofs.Anytime
import BranchBound.Proofs.Tightening
import BranchBound.Proofs.DenseView
import BranchBound.Proofs.Acceptance
import BranchBound.Proofs.FoundPoints
import BranchBound.Proofs.RowChains
import BranchBound.Proofs.NearTies
import BranchBound.Proofs.TableauChanges
import BranchBound.Proofs.BlankLines
import BranchBound.Proofs.FirstFault
import BranchBound.Proofs.InRange
import BranchBound.Proofs.Splits
