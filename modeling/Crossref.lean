import Crossref.Config
import Crossref.Json.Writer
import Crossref.Page.Load
import Crossref.Proofs.Catalog.Implementors
import Crossref.Proofs.Catalog.Isolation
import Crossref.Proofs.Config
import Crossref.Proofs.Json.Transcript
import Crossref.Proofs.Json.Written
import Crossref.Proofs.Markup
import Crossref.Proofs.Page.Discovery
import Crossref.Proofs.Page.Filing
import Crossref.Proofs.Page.Loading
import Crossref.Proofs.Page.Modes
import Crossref.Proofs.Page.Recognition
import Crossref.Proofs.Page.RootDir
import Crossref.Proofs.Registry.Accumulation
import Crossref.Proofs.Registry.Delivery
import Crossref.Proofs.Registry.Merging
import Crossref.Proofs.Registry.Observation
import Crossref.Proofs.Registry.Repetition
import Crossref.Proofs.Registry.Shape
import Crossref.Proofs.Registry.WarningLog
import Crossref.Proofs.Script.Bounds
import Crossref.Proofs.Script.Diagnosis
import Crossref.Proofs.Script.Lenient
import Crossref.Proofs.Script.Matching
import Crossref.Proofs.Script.Modes
import Crossref.Proofs.Script.NumericEscape
import Crossref.Proofs.Script.Scanner
import Crossref.Proofs.Script.Simulation
import Crossref.Proofs.Script.Spelling
import Crossref.Proofs.Script.Truncation
import Crossref.Proofs.Shared
import Crossref.Proofs.Toml.Contents
import Crossref.Proofs.Toml.Record
import Crossref.Proofs.Toml.Written
import Crossref.Shared
import Crossref.Sorted
