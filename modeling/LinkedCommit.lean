import LinkedCommit.Commitment.Basic
import LinkedCommit.Document.Canonical
import LinkedCommit.Hash.Poseidon
import LinkedCommit.Hash.Sha256
import LinkedCommit.Json.Reader
import LinkedCommit.Json.Writer
import LinkedCommit.Proofs.Commitment.Agreement
import LinkedCommit.Proofs.Tree.CanonicalRoot
import LinkedCommit.Proofs.Tree.WriteOnce
import LinkedCommit.Rdf.NQuads.Reader
import LinkedCommit.Serial.Entry
import LinkedCommit.Serial.Proof
import LinkedCommit.Settings
import LinkedCommit.Tree.Sparse
import LinkedCommit.Value.Native
import LinkedCommit.Proofs.Relationship.Identified
import LinkedCommit.Proofs.Relationship.Links
import LinkedCommit.Proofs.Relationship.Parents
import LinkedCommit.Proofs.Relationship.Lineage
import LinkedCommit.Proofs.Commitment.Extraction
import LinkedCommit.Proofs.Commitment.Coverage
import LinkedCommit.Proofs.Commitment.DistinctPaths
import LinkedCommit.Proofs.Commitment.Duplicate
import LinkedCommit.Proofs.Commitment.RawValue
import LinkedCommit.Proofs.Commitment.SiblingIndex
import LinkedCommit.Proofs.Json.Ordered
import LinkedCommit.Proofs.Context.Inlined
import LinkedCommit.Proofs.Document.SelfContained
import LinkedCommit.Proofs.Document.FieldPath
import LinkedCommit.Proofs.Commitment.RawPlace
import LinkedCommit.Proofs.Document.SafeMode
import LinkedCommit.Proofs.Commitment.LabelIndependence
import LinkedCommit.Proofs.Serial.RoundTrip
import LinkedCommit.Proofs.Tree.Refusal
import LinkedCommit.Proofs.Relationship.Ascent
import LinkedCommit.Proofs.Context.TermOrder
import LinkedCommit.Proofs.Context.CyclicTerms
import LinkedCommit.Proofs.Context.Aliases
import LinkedCommit.Proofs.Hash.FrameCollision
import LinkedCommit.Proofs.Hash.FieldWords
import LinkedCommit.Proofs.Value.Native
import LinkedCommit.Proofs.Commitment.Numbering
import LinkedCommit.Proofs.Document.Cached
import LinkedCommit.Proofs.Value.ExactNumbers
import LinkedCommit.Proofs.Value.CanonicalDoubles
import LinkedCommit.Proofs.Document.Chains
