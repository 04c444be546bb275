import ScopeIndex.Journal.Console
import ScopeIndex.Main
import ScopeIndex.Proofs.Reading
import ScopeIndex.Proofs.Walk
import ScopeIndex.Proofs.Mirror
import ScopeIndex.Proofs.Lineage
import ScopeIndex.Proofs.Refinement
import ScopeIndex.Proofs.Discipline
import ScopeIndex.Proofs.Escaping
import ScopeIndex.Proofs.Additions
import ScopeIndex.Proofs.DottedKeys
import ScopeIndex.Proofs.Tables
import ScopeIndex.Proofs.Accounting
import ScopeIndex.Proofs.Contexts
import ScopeIndex.Proofs.Leaks
import ScopeIndex.Proofs.Outline
import ScopeIndex.Proofs.Coverage
import ScopeIndex.Proofs.Holes
import ScopeIndex.Proofs.Seclusion
import ScopeIndex.Proofs.Outermost
import ScopeIndex.Proofs.Nesting
import ScopeIndex.Proofs.Chains
import ScopeIndex.Proofs.Containment
import ScopeIndex.Proofs.Appending
import ScopeIndex.Proofs.TextOrder
import ScopeIndex.Proofs.Interchange
import ScopeIndex.Proofs.Insertion
import ScopeIndex.Proofs.StackUse
import ScopeIndex.Proofs.Skipping
import ScopeIndex.Proofs.Timing
import ScopeIndex.Proofs.Aborts
import ScopeIndex.Proofs.Separators
import ScopeIndex.Proofs.Fragments
import ScopeIndex.Proofs.Faults
import ScopeIndex.Proofs.Matching
import ScopeIndex.Proofs.Rebasing
import ScopeIndex.Proofs.Pinning
import ScopeIndex.Proofs.Nested
import ScopeIndex.Proofs.Moving
import ScopeIndex.Proofs.Precedence
import ScopeIndex.Proofs.Wildcards
import ScopeIndex.Proofs.Locality
import ScopeIndex.Proofs.Layers
import ScopeIndex.Proofs.Settled
import ScopeIndex.Proofs.Failing
import ScopeIndex.Proofs.Loading
import ScopeIndex.Proofs.Quotes
import ScopeIndex.Proofs.Progress
import ScopeIndex.Proofs.Tour
import ScopeIndex.Proofs.Complaints
