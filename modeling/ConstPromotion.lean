import ConstPromotion.Main
import ConstPromotion.Proofs.Declaration.Grammar
import ConstPromotion.Proofs.Declaration.Size
import ConstPromotion.Proofs.Patch.Idempotence
import ConstPromotion.Proofs.Attempt
import ConstPromotion.Proofs.FileSystem.Operations
import ConstPromotion.Proofs.Section.Flags
import ConstPromotion.Proofs.Text.Decimal
import ConstPromotion.Proofs.Verification.Scratch
import ConstPromotion.Proofs.Verification.Extraction
import ConstPromotion.Proofs.Verification.Archive
import ConstPromotion.Proofs.FileSystem.Trees
import ConstPromotion.Proofs.FileSystem.Entries
import ConstPromotion.Proofs.Backup.Store
import ConstPromotion.Proofs.FileSystem.Writing
import ConstPromotion.Proofs.Patch.Files
import ConstPromotion.Proofs.Backup.Naming
import ConstPromotion.Proofs.Backup.Runs
import ConstPromotion.Proofs.Pipeline.Backups
import ConstPromotion.Proofs.FileSystem.Walk
import ConstPromotion.Proofs.Path.Clean
import ConstPromotion.Proofs.FileSystem.Below
import ConstPromotion.Proofs.Patch.Protection
import ConstPromotion.Proofs.Backup.Restore
import ConstPromotion.Proofs.Backup.RoundTrip
import ConstPromotion.Proofs.Backup.Restorable
import ConstPromotion.Proofs.History
import ConstPromotion.Proofs.FileSystem.Removal
import ConstPromotion.Proofs.Verification.Frame
import ConstPromotion.Proofs.Pipeline.Stages
import ConstPromotion.Proofs.FileSystem.Earlier
import ConstPromotion.Proofs.FileSystem.Lexical
import ConstPromotion.Proofs.Patch.Settled
import ConstPromotion.Proofs.Pipeline.Repetition
import ConstPromotion.Proofs.Patch.DryRun
import ConstPromotion.Proofs.Build.Artifact
import ConstPromotion.Proofs.Text.Blank
import ConstPromotion.Proofs.Section.Table
import ConstPromotion.Proofs.Inspection.Agreement
import ConstPromotion.Proofs.Patch.Attribute
import ConstPromotion.Proofs.Text.Order
import ConstPromotion.Proofs.Selection.Listing
import ConstPromotion.Proofs.Selection.Entries
import ConstPromotion.Proofs.Backup.Simultaneous
import ConstPromotion.Proofs.Patch.Failure
import ConstPromotion.Proofs.Verification.Examination
import ConstPromotion.Proofs.Toolchain
import ConstPromotion.Proofs.FileSystem.Spelling
import ConstPromotion.Proofs.Command.Tools
import ConstPromotion.Proofs.Build.Start
import ConstPromotion.Proofs.Patch.Text
import ConstPromotion.Proofs.Patch.Occurrences
import ConstPromotion.Proofs.Patch.Reports
import ConstPromotion.Proofs.Backup.Snapshots
import ConstPromotion.Proofs.Path.Destination
import ConstPromotion.Proofs.Json.Reports
import ConstPromotion.Proofs.Config.File
