import DrmUsage.Text.Blank
import DrmUsage.Text.Cut
import DrmUsage.Text.Numeral
import DrmUsage.Text.Reading
import DrmUsage.Text.Encoding
import DrmUsage.Instant
import DrmUsage.Percentage
import DrmUsage.Engine
import DrmUsage.Usage
import DrmUsage.SampleCache
import DrmUsage.Record
import DrmUsage.Path
import DrmUsage.FileError
import DrmUsage.Failure
import DrmUsage.Event
import DrmUsage.Logged
import DrmUsage.Snapshot
import DrmUsage.Tree.Basic
import DrmUsage.Tree.Walk
import DrmUsage.Tree.Reading
import DrmUsage.Tree.Edit
import DrmUsage.Mounts
import DrmUsage.Sysfs.DeviceDir
import DrmUsage.Sysfs.Cards
import DrmUsage.Gpu
import DrmUsage.Pool
import DrmUsage.Hub
import DrmUsage.Intel.Report
import DrmUsage.Intel.Gpu
import DrmUsage.Backend
import DrmUsage.Intel.Backend
import DrmUsage.Process
import DrmUsage.Sweep
import DrmUsage.Version
import DrmUsage.Proofs.Cuts
import DrmUsage.Proofs.Numerals
import DrmUsage.Proofs.ValueGrammars
import DrmUsage.Proofs.Listings
import DrmUsage.Proofs.CardOrder
import DrmUsage.Proofs.Recognition
import DrmUsage.Proofs.CacheHistory
import DrmUsage.Proofs.CacheShares
import DrmUsage.Proofs.PercentError
import DrmUsage.Proofs.PercentRounding
import DrmUsage.Proofs.LoadSum
import DrmUsage.Proofs.BusyTotals
import DrmUsage.Proofs.BackendMemory
import DrmUsage.Proofs.BackendFailures
import DrmUsage.Proofs.SearchTurns
import DrmUsage.Proofs.MaskedSearch
import DrmUsage.Proofs.RecordMeaning
import DrmUsage.Proofs.IntelHub
import DrmUsage.Proofs.CycleEnds
import DrmUsage.Proofs.BrokenStreams
import DrmUsage.Proofs.RecordVerdict
import DrmUsage.Proofs.RecordPeeks
import DrmUsage.Proofs.WrittenRecords
import DrmUsage.Proofs.Rejections
import DrmUsage.Proofs.Admissions
import DrmUsage.Proofs.SweepFindings
import DrmUsage.Proofs.SharesOverSweeps
import DrmUsage.Proofs.ProcessIsolation
import DrmUsage.Proofs.GpuIsolation
import DrmUsage.Proofs.ClientRepeats
import DrmUsage.Proofs.Completeness
import DrmUsage.Proofs.SweepCalls
import DrmUsage.Proofs.FirstAcceptance
