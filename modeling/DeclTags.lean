import DeclTags.Json.Reader
import DeclTags.Main
import DeclTags.Proofs.Accounting
import DeclTags.Proofs.SourceOrder
import DeclTags.Proofs.Truncation
import DeclTags.Proofs.Findings
import DeclTags.Proofs.DocComments
import DeclTags.Proofs.Places
import DeclTags.Proofs.Arguments
import DeclTags.Proofs.Beginnings
import DeclTags.Proofs.Candidates
import DeclTags.Proofs.Declarations
import DeclTags.Proofs.OnlyDeclarations
import DeclTags.Proofs.Progress
import DeclTags.Proofs.Enclosing
import DeclTags.Proofs.Restarts
import DeclTags.Proofs.Layout
import DeclTags.Proofs.Chunks
import DeclTags.Proofs.Automaton
import DeclTags.Proofs.Faithful
import DeclTags.Proofs.LineEndScans
import DeclTags.Proofs.TypeSymbols
import DeclTags.Proofs.InRange
import DeclTags.Proofs.Lookback
import DeclTags.Proofs.Registrations
import DeclTags.Proofs.Discoveries
import DeclTags.Proofs.Documents
import DeclTags.Proofs.TagLines
import DeclTags.Proofs.ListingLines
import DeclTags.Proofs.ProfileTexts
import DeclTags.Proofs.Literals
import DeclTags.Proofs.DocSummaries
import DeclTags.Proofs.Members
import DeclTags.Proofs.Arrows
import DeclTags.Proofs.TagOrder
import DeclTags.Proofs.Misuse
import DeclTags.Proofs.IgnoredKinds
import DeclTags.Proofs.Pairs
import DeclTags.Proofs.Trackers
import DeclTags.Proofs.States
import DeclTags.Proofs.FoundFiles
import DeclTags.Proofs.LeadingParts
import DeclTags.Proofs.VerbatimPrefixes
