import TaskStatus.FileTree.Change
import TaskStatus.Main
import TaskStatus.Proofs.LatestBackup
import TaskStatus.Proofs.TrackedTask
import TaskStatus.Proofs.CurrentStatus
import TaskStatus.Proofs.PrintedText
import TaskStatus.Proofs.TextBytes
import TaskStatus.Proofs.TimestampRange
import TaskStatus.Proofs.ExitStatus
import TaskStatus.Proofs.StatusLine
import TaskStatus.Proofs.Grammar
import TaskStatus.Proofs.NumeralReading
import TaskStatus.Proofs.StringReading
import TaskStatus.Proofs.SettledMembers
import TaskStatus.Proofs.DocumentReading
import TaskStatus.Proofs.TextMeaning
import TaskStatus.Proofs.PrintedReading
import TaskStatus.Proofs.WaybarLine
import TaskStatus.Proofs.ArgumentGrammar
import TaskStatus.Proofs.PathWalk
import TaskStatus.Proofs.Truncation
import TaskStatus.Proofs.ChangeFrame
import TaskStatus.Proofs.EntryResolution
import TaskStatus.Proofs.NewestBackup
import TaskStatus.Proofs.ReplacedArguments
import TaskStatus.Proofs.WaybarOutput
import TaskStatus.Proofs.StoredTimes
import TaskStatus.Proofs.TaskResolution
import TaskStatus.Proofs.ExtraDiagnostics
import TaskStatus.Proofs.WrappedPayload
import TaskStatus.Proofs.ToldEvents
import TaskStatus.Proofs.BackupNames
import TaskStatus.Proofs.HomeDirectory
import TaskStatus.Proofs.CalendarDays
import TaskStatus.Proofs.TimestampReading
import TaskStatus.Proofs.ByteOrder
import TaskStatus.Proofs.TextPaths
import TaskStatus.Proofs.PrintedTitle
import TaskStatus.Proofs.BuildScript
import TaskStatus.Proofs.EntrySpelling
