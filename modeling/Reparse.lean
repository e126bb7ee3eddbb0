import Reparse.Barrier
import Reparse.Disk.Files
import Reparse.Main
import Reparse.Proofs.Barrier
import Reparse.Proofs.CommandLine.Runs
import Reparse.Proofs.Document.Issuing
import Reparse.Proofs.LanguageVersion
import Reparse.Proofs.Layout.BlankLines
import Reparse.Proofs.Layout.BlockReports
import Reparse.Proofs.Layout.BracketReports
import Reparse.Proofs.Layout.Composition
import Reparse.Proofs.Layout.Consistency
import Reparse.Proofs.Layout.Coverage
import Reparse.Proofs.Layout.Depths
import Reparse.Proofs.Layout.Joining
import Reparse.Proofs.Layout.Limits
import Reparse.Proofs.Layout.Recovery
import Reparse.Proofs.Layout.StringBodies
import Reparse.Proofs.Schedule.Keywords
import Reparse.Proofs.Schedule.Merging
import Reparse.Proofs.Schedule.Pointwise
import Reparse.Proofs.Schedule.Refusal
import Reparse.Proofs.Schedule.Reuse
import Reparse.Proofs.Statement.Imports
import Reparse.Proofs.Statement.Operators
import Reparse.Proofs.TaskComment
import Reparse.Schedule.Summary
