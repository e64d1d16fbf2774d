import ImplFamilies.Main
import ImplFamilies.Proofs.Clustering.Step
import ImplFamilies.Proofs.Inclusion.Preorder
import ImplFamilies.Proofs.Clustering.Partition
import ImplFamilies.Proofs.Clustering.Domination
import ImplFamilies.Proofs.Clustering.Record
import ImplFamilies.Proofs.Clustering.Traits
import ImplFamilies.Proofs.Clustering.Resemblance
import ImplFamilies.Proofs.Clustering.Families
import ImplFamilies.Proofs.Inclusion.Erasure
import ImplFamilies.Proofs.Folding
import ImplFamilies.Proofs.Grammar.Lexeme
import ImplFamilies.Proofs.Grammar.Reader
import ImplFamilies.Proofs.Grammar.Reading
import ImplFamilies.Proofs.Grammar.Mirror
import ImplFamilies.Proofs.Grammar.Agreement
import ImplFamilies.Proofs.Grammar.Derivation
import ImplFamilies.Proofs.Grammar.Soundness
import ImplFamilies.Proofs.Grammar.Extent
import ImplFamilies.Proofs.Grammar.Completeness
import ImplFamilies.Proofs.Grammar.Acceptance
import ImplFamilies.Proofs.Grammar.Likeness
import ImplFamilies.Proofs.Grammar.Alike
import ImplFamilies.Proofs.Grammar.Respelling
import ImplFamilies.Proofs.Grammar.Roundtrip
import ImplFamilies.Proofs.Composition
import ImplFamilies.Proofs.Inclusion.Antisymmetry
import ImplFamilies.Proofs.Order.Preorder
import ImplFamilies.Proofs.Order.Totality
import ImplFamilies.Proofs.Order.Equality
import ImplFamilies.Proofs.Renaming.Heads
import ImplFamilies.Proofs.Canonical.Declared
import ImplFamilies.Proofs.Renaming.CanonicalNames
import ImplFamilies.Proofs.Renaming.Capture
import ImplFamilies.Proofs.Grammar.Names
import ImplFamilies.Proofs.Renaming.Invariance
import ImplFamilies.Proofs.Grammar.Alternatives
import ImplFamilies.Proofs.Grammar.Openings
import ImplFamilies.Proofs.Grammar.RenamedFollow
import ImplFamilies.Proofs.Grammar.Renamed
import ImplFamilies.Proofs.Grammar.RenamedTypes
import ImplFamilies.Proofs.Grammar.RenamedSignatures
import ImplFamilies.Proofs.Canonical.FixedPoint
import ImplFamilies.Proofs.Listing.GroupRows
import ImplFamilies.Proofs.Listing.Sections
import ImplFamilies.Proofs.Listing.Coverage
import ImplFamilies.Proofs.Canonical.Misfits
import ImplFamilies.Proofs.Clustering.AppendOnly
import ImplFamilies.Proofs.Clustering.Covered
import ImplFamilies.Proofs.Grammar.FailurePlaces
import ImplFamilies.Proofs.Grammar.ErrorSpan
import ImplFamilies.Proofs.Grammar.Spacing
import ImplFamilies.Proofs.Signature.WellFormed
import ImplFamilies.Proofs.Grammar.WellFormed
import ImplFamilies.Proofs.Listing.Reprinting
import ImplFamilies.Proofs.Sequence.Representatives
import ImplFamilies.Proofs.Canonical.Merging
import ImplFamilies.Proofs.Canonical.Placement
import ImplFamilies.Proofs.Renaming.Segments
import ImplFamilies.Proofs.Renaming.Comparison
import ImplFamilies.Proofs.Grammar.EntryPoints
import ImplFamilies.Proofs.Sequence.StableSort
import ImplFamilies.Proofs.Grammar.Scheme
import ImplFamilies.Proofs.Grammar.TypeEquations
import ImplFamilies.Proofs.Grammar.Nesting
import ImplFamilies.Proofs.Grammar.Ending
import ImplFamilies.Proofs.Grammar.FurthestFailure
import ImplFamilies.Proofs.Grammar.CommonBeginning
import ImplFamilies.Proofs.Grammar.FurthestPoint
import ImplFamilies.Proofs.Grammar.DeadEnds
import ImplFamilies.Proofs.Grammar.ExpectationInvariant
import ImplFamilies.Proofs.Grammar.TokenExpectations
import ImplFamilies.Proofs.Grammar.TypeExpectations
import ImplFamilies.Proofs.Grammar.SignatureExpectations
import ImplFamilies.Proofs.Grammar.Expectations
