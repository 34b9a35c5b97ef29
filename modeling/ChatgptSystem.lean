import ChatgptSystem.Agent.LiveWork
import ChatgptSystem.Benchmark.FlowOrder
import ChatgptSystem.Bridge.ChatBindings
import ChatgptSystem.Browser.ActiveTab
import ChatgptSystem.Browser.BrowserOrder
import ChatgptSystem.Browser.SnapshotRedaction
import ChatgptSystem.Code.SearchResults
import ChatgptSystem.Computer.ActionFormat
import ChatgptSystem.Computer.ActionProgram
import ChatgptSystem.Computer.ComputerNativeClient
import ChatgptSystem.Computer.ComputerNativeSupervisor
import ChatgptSystem.Computer.PhysicalLane
import ChatgptSystem.Computer.RunnerOutput
import ChatgptSystem.Computer.RunnerSettlement
import ChatgptSystem.Computer.ScrollReport
import ChatgptSystem.Continuity.Registration
import ChatgptSystem.Continuity.ResumePackage
import ChatgptSystem.Continuity.ResumeRollback
import ChatgptSystem.Continuity.WorktreeAttachment
import ChatgptSystem.Core.AuditLog
import ChatgptSystem.Core.GlobDecides
import ChatgptSystem.Core.PathLockCalls
import ChatgptSystem.Fs.CompareAndSet
import ChatgptSystem.Fs.EditText
import ChatgptSystem.Fs.HunkCounts
import ChatgptSystem.Fs.PatchPreparation
import ChatgptSystem.Fs.RootSurvival
import ChatgptSystem.Git.ConfigScreening
import ChatgptSystem.Git.Inventory
import ChatgptSystem.Git.WorktreeRegistry
import ChatgptSystem.Native.ChangeBaseline
import ChatgptSystem.Native.IndexOverflow
import ChatgptSystem.Native.IndexTargets
import ChatgptSystem.Native.InterruptedAction
import ChatgptSystem.Native.NDJSONHostServer
import ChatgptSystem.Native.ObservationCache
import ChatgptSystem.Native.OcrCandidates
import ChatgptSystem.Native.PointerTrajectory
import ChatgptSystem.Native.UnicodeChunks
import ChatgptSystem.Process.ProcessLogs
import ChatgptSystem.Process.RegistryCapacity
import ChatgptSystem.Project.EvidenceHistory
import ChatgptSystem.Project.TaskEnding
import ChatgptSystem.Project.VerifiedPush
import ChatgptSystem.Project.WorkingTreeDigest
import ChatgptSystem.Terminal.SessionOwnership
import ChatgptSystem.Terminal.TerminalMirror
import ChatgptSystem.Terminal.TerminalOutputBuffer
import ChatgptSystem.Update.AutoUpdateLock
import ChatgptSystem.Update.ReleaseRetention
import ChatgptSystem.Update.RunnerMigration
