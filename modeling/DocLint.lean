import DocLint.Json.Defect
import DocLint.Main
import DocLint.Proofs.Lines
import DocLint.Proofs.Scan
import DocLint.Proofs.Decomposition
import DocLint.Proofs.Joining
import DocLint.Proofs.Refusals
import DocLint.Proofs.Endings
import DocLint.Proofs.Paths
import DocLint.Proofs.Trees
import DocLint.Proofs.Resolution
import DocLint.Proofs.Entries
import DocLint.Proofs.WalkOrder
import DocLint.Proofs.Coverage
import DocLint.Proofs.Roots
import DocLint.Proofs.Json
import DocLint.Proofs.Defects
import DocLint.Proofs.Records
import DocLint.Proofs.Pages
import DocLint.Proofs.Noninterference
import DocLint.Proofs.Nesting
import DocLint.Proofs.Settings
import DocLint.Proofs.ExitCode
import DocLint.Proofs.Overrides
import DocLint.Proofs.Colour
import DocLint.Proofs.Presentation
import DocLint.Proofs.Pruning
import DocLint.Proofs.Writing
import DocLint.Proofs.FirstSettings
import DocLint.Proofs.Edits
import DocLint.Proofs.Comparison
import DocLint.Proofs.LiveSettings
import DocLint.Proofs.Skipping
import DocLint.Proofs.Extension
import DocLint.Proofs.Spelling
import DocLint.Proofs.DefectOrder
import DocLint.Proofs.ResolvedRoots
import DocLint.Proofs.Canonical
