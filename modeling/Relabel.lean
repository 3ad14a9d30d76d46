import Relabel.Main
import Relabel.Proofs.Find.Occurrence
import Relabel.Proofs.Find.Table
import Relabel.Proofs.Find.Span
import Relabel.Proofs.Find.Substitution
import Relabel.Proofs.Find.Legacy
import Relabel.Proofs.World.Execution
import Relabel.Proofs.World.Quiet
import Relabel.Proofs.Session.Execution
import Relabel.Proofs.Session.Run
import Relabel.Proofs.Session.Consistency
import Relabel.Proofs.Disk.Renaming
import Relabel.Proofs.Session.Confirmation
import Relabel.Proofs.Yaml.Line
import Relabel.Proofs.Yaml.Quoted
import Relabel.Proofs.Yaml.Block
import Relabel.Proofs.Yaml.Plain
import Relabel.Proofs.Yaml.Written
import Relabel.Proofs.Yaml.Scan
import Relabel.Proofs.Yaml.Tokens
import Relabel.Proofs.Yaml.Document
import Relabel.Proofs.Disk.Writing
import Relabel.Proofs.Preset.RoundTrip
import Relabel.Proofs.Preset.Store
import Relabel.Proofs.Preset.Turn
import Relabel.Proofs.Session.Turn
import Relabel.Proofs.Preset.History
import Relabel.Proofs.Preset.Catalogue
import Relabel.Proofs.Session.Saved
import Relabel.Proofs.Session.Ending
import Relabel.Proofs.Session.Deletion
import Relabel.Proofs.Session.Selected
import Relabel.Proofs.Run.Opening
import Relabel.Proofs.Run.Execution
import Relabel.Proofs.Run.Fields
import Relabel.Proofs.Item.RoundTrip
import Relabel.Proofs.Item.Members
import Relabel.Proofs.Session.Listed
import Relabel.Proofs.Run.Outcome
import Relabel.Proofs.Run.Plan
import Relabel.Proofs.Run.WriteBack
import Relabel.Proofs.Text.Replacing
import Relabel.Proofs.Token.Merge
import Relabel.Proofs.Token.Placeholder
import Relabel.Proofs.Token.Resolution
import Relabel.Proofs.Session.Saving
import Relabel.Proofs.Preset.Names
import Relabel.Proofs.Run.PresetSaving
import Relabel.Proofs.Session.Names
import Relabel.Proofs.World.Dialogue
import Relabel.Proofs.Session.Naming
import Relabel.Proofs.Disk.Folders
import Relabel.Proofs.Session.Deleted
import Relabel.Proofs.Session.Kept
import Relabel.Proofs.Disk.NewName
import Relabel.Proofs.Session.Outcomes
import Relabel.Proofs.Token.Simultaneous
import Relabel.Proofs.Disk.LastName
import Relabel.Proofs.Disk.Sibling
import Relabel.Proofs.Disk.Moving
import Relabel.Proofs.Item.Renaming
import Relabel.Proofs.Session.Refusal
import Relabel.Proofs.Find.Literal
import Relabel.Proofs.Find.Lines
import Relabel.Proofs.Session.Provenance
import Relabel.Proofs.Run.Account
import Relabel.Proofs.Find.Source
import Relabel.Proofs.CommandLine.Reading
import Relabel.Proofs.CommandLine.Spelling
import Relabel.Proofs.CommandLine.Before
import Relabel.Proofs.CommandLine.Placement
import Relabel.Proofs.Disk.Directory
import Relabel.Proofs.Disk.Order
import Relabel.Proofs.Item.Scan
import Relabel.Proofs.World.Notices
import Relabel.Proofs.Session.Notices
