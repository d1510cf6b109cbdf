import SparqlFormat.Grammar.Derivation
import SparqlFormat.Layout.Counters
import SparqlFormat.Layout.Passes
import SparqlFormat.Main
import SparqlFormat.Source.Snapshot
import SparqlFormat.Text.CodePoint
import SparqlFormat.Proofs.Names
import SparqlFormat.Proofs.Numbers
import SparqlFormat.Proofs.Literals
import SparqlFormat.Proofs.Spelling
import SparqlFormat.Proofs.Scanning
import SparqlFormat.Proofs.Reading
import SparqlFormat.Proofs.Rows
import SparqlFormat.Proofs.Shape
import SparqlFormat.Proofs.RoundTrip
import SparqlFormat.Proofs.Seams
import SparqlFormat.Proofs.Terminals
import SparqlFormat.Proofs.NameTerminals
import SparqlFormat.Proofs.NumberTerminals
import SparqlFormat.Proofs.LiteralTerminals
import SparqlFormat.Proofs.LongestReading
import SparqlFormat.Proofs.MaximalMunch
import SparqlFormat.Proofs.Language
import SparqlFormat.Proofs.Spellings
import SparqlFormat.Proofs.Cutting
import SparqlFormat.Proofs.Acceptance
import SparqlFormat.Proofs.Expansion
import SparqlFormat.Proofs.Expanded
import SparqlFormat.Proofs.Agreement
import SparqlFormat.Proofs.Validity
import SparqlFormat.Proofs.Stability
import SparqlFormat.Proofs.Tiling
import SparqlFormat.Proofs.FaultPlace
import SparqlFormat.Proofs.LookAhead
import SparqlFormat.Proofs.Respacing
import SparqlFormat.Proofs.CommentModes
import SparqlFormat.Proofs.Denotation
import SparqlFormat.Proofs.OneLine
import SparqlFormat.Proofs.Passes
import SparqlFormat.Proofs.Interleaving
import SparqlFormat.Proofs.Comparison
import SparqlFormat.Proofs.Nested
import SparqlFormat.Proofs.Places
import SparqlFormat.Proofs.Inseparable
import SparqlFormat.Proofs.Balance
import SparqlFormat.Proofs.Braces
import SparqlFormat.Proofs.LineStarters
import SparqlFormat.Proofs.CallSites
import SparqlFormat.Proofs.CallEnds
import SparqlFormat.Proofs.Indentation
import SparqlFormat.Proofs.Utf8
import SparqlFormat.Proofs.FormDecoding
import SparqlFormat.Proofs.FormFaults
import SparqlFormat.Proofs.EncodedQueries
import SparqlFormat.Proofs.Requests
import SparqlFormat.Proofs.Snapshots
import SparqlFormat.Proofs.Surroundings
import SparqlFormat.Proofs.Progress
import SparqlFormat.Proofs.FirstFailure
import SparqlFormat.Proofs.EntryPoints
import SparqlFormat.Proofs.InputLines
import SparqlFormat.Proofs.Consoles
import SparqlFormat.Proofs.CommandLine
