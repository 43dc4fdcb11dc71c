import GraphDelta.CommandLine.Arguments
import GraphDelta.CommandLine.Run
import GraphDelta.Main
import GraphDelta.Proofs.Cascade
import GraphDelta.Proofs.Classification
import GraphDelta.Proofs.Collection
import GraphDelta.Proofs.Cycles
import GraphDelta.Proofs.Depiction
import GraphDelta.Proofs.Differ
import GraphDelta.Proofs.Documents
import GraphDelta.Proofs.Drafting
import GraphDelta.Proofs.Export
import GraphDelta.Proofs.Growth
import GraphDelta.Proofs.Import
import GraphDelta.Proofs.Loading
import GraphDelta.Proofs.Normalization
import GraphDelta.Proofs.Protocol
import GraphDelta.Proofs.Rehanging
import GraphDelta.Proofs.Reordering
import GraphDelta.Proofs.Sorting
import GraphDelta.Proofs.Traversal
import GraphDelta.Proofs.Verdict
import GraphDelta.Proofs.VoidEdits
