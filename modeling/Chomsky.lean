import Chomsky.Text.Blank
import Chomsky.Text.Pieces
import Chomsky.Text.Lines
import Chomsky.Text.Reader
import Chomsky.Grammar.Alternative
import Chomsky.Grammar.Basic
import Chomsky.Grammar.Lookup
import Chomsky.Grammar.Productions
import Chomsky.Report.Path
import Chomsky.Report.Location
import Chomsky.Source.Token
import Chomsky.Source.RuleLine
import Chomsky.Source.Reading
import Chomsky.Source.Directory
import Chomsky.Derivation.Tree
import Chomsky.Derivation.LeafCursor
import Chomsky.Derivation.Drawing
import Chomsky.Chart.Cell
import Chomsky.Chart.SpanTable
import Chomsky.Chart.Basic
import Chomsky.Chart.Count
import Chomsky.Sampling.Words
import Chomsky.Sampling.ChaCha
import Chomsky.Sampling.Choice
import Chomsky.Sampling.Heights
import Chomsky.Sampling.Expansion
import Chomsky.Session.Outcome
import Chomsky.Session.Sink
import Chomsky.Session.Transcript
import Chomsky.CommandLine.Options
import Chomsky.CommandLine.Numeral
import Chomsky.CommandLine.Arguments
import Chomsky.Program
import Chomsky.Main
import Chomsky.Proofs.Grammar.Productions
import Chomsky.Proofs.Derivation.Enumeration
import Chomsky.Proofs.Chart.Cell
import Chomsky.Proofs.Chart.Contents
import Chomsky.Proofs.Chart.Succession
import Chomsky.Proofs.Chart.Unfolding
import Chomsky.Proofs.Chart.Recognition
import Chomsky.Proofs.Derivation.Nodes
import Chomsky.Proofs.Derivation.Leaves
import Chomsky.Proofs.Derivation.Weight
import Chomsky.Proofs.Derivation.Preference
import Chomsky.Proofs.Chart.Counting
import Chomsky.Proofs.Chart.Reconstruction
import Chomsky.Proofs.Chart.Forest
import Chomsky.Proofs.Derivation.Occurrence
import Chomsky.Proofs.Chart.Locality
import Chomsky.Proofs.Chart.Agreement
import Chomsky.Proofs.Sampling.Choice
import Chomsky.Proofs.Sampling.Runs
import Chomsky.Proofs.Derivation.Height
import Chomsky.Proofs.Sampling.Heights
import Chomsky.Proofs.Sampling.Parsing
import Chomsky.Proofs.Sampling.Steering
import Chomsky.Proofs.Sampling.Reach
import Chomsky.Proofs.Source.Token
import Chomsky.Proofs.Text.Pieces
import Chomsky.Proofs.Text.Encoding
import Chomsky.Proofs.Source.RuleLine
import Chomsky.Proofs.Grammar.Accumulation
import Chomsky.Proofs.Source.Listing
import Chomsky.Proofs.Source.Splitting
import Chomsky.Proofs.Source.Faults
import Chomsky.Proofs.Session.Course
import Chomsky.Proofs.Program.Inputs
import Chomsky.Proofs.Grammar.Restriction
import Chomsky.Proofs.Sampling.Agreement
import Chomsky.Proofs.Chart.Restriction
import Chomsky.Proofs.Derivation.Drawing
import Chomsky.Proofs.Session.Limits
import Chomsky.Proofs.Sampling.Sweeps
import Chomsky.Proofs.Sampling.Settling
import Chomsky.Proofs.Sampling.Causes
import Chomsky.Proofs.Program.Samples
import Chomsky.Proofs.Grammar.Merging
import Chomsky.Proofs.Source.Contribution
import Chomsky.Proofs.Source.Concatenation
import Chomsky.Proofs.Source.Padding
import Chomsky.Proofs.Chart.Growth
import Chomsky.Proofs.Chart.Parentheses
import Chomsky.Proofs.Derivation.Preorder
import Chomsky.Proofs.Source.Scanning
import Chomsky.Proofs.CommandLine.Numeral
import Chomsky.Proofs.CommandLine.Commitment
import Chomsky.Proofs.CommandLine.Requests
import Chomsky.Proofs.Grammar.Definitions
import Chomsky.Proofs.Sampling.Writing
import Chomsky.Proofs.Derivation.Inorder
import Chomsky.Proofs.Sampling.Accounting
import Chomsky.Proofs.Source.Spelling
