import IndexedSequence.Proofs.Runs
import IndexedSequence.Tree.Outline
import IndexedSequence.Proofs.Iteration
import IndexedSequence.Proofs.Assembling
import IndexedSequence.Proofs.Height
import IndexedSequence.Proofs.ExactRuns
import IndexedSequence.Proofs.Levels
import IndexedSequence.Proofs.Documents
import IndexedSequence.Proofs.Flaws
import IndexedSequence.Proofs.Building
import IndexedSequence.Proofs.Access
import IndexedSequence.Proofs.Edits
import IndexedSequence.Proofs.Slices
import IndexedSequence.Proofs.Ordering
import IndexedSequence.Proofs.Hashing
import IndexedSequence.Proofs.Cascades
import IndexedSequence.Proofs.Regrouping
import IndexedSequence.Proofs.Locating
import IndexedSequence.Proofs.Descending
import IndexedSequence.Proofs.Unfolding
