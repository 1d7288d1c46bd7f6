import RefMonitor.Kernel
import RefMonitor.PathSolver
import RefMonitor.Hash
import RefMonitor.RestrictList
import RefMonitor.Syscalls
import RefMonitor.Hooks
import RefMonitor.PathBasedSyscall
import RefMonitor.NameTable
import RefMonitor.Lib.PagedStore
import RefMonitor.RestrictSet
import RefMonitor.SingleFs
import RefMonitor.LogWriters
import RefMonitor.Durability
import RefMonitor.Mediation
import RefMonitor.Authorisation
import RefMonitor.Defer
import RefMonitor.Audit
import RefMonitor.Interfaces
import RefMonitor.Agreement
import RefMonitor.Lifecycle
import RefMonitor.Password
import RefMonitor.TokenBounds
import RefMonitor.OptionValues
import RefMonitor.RequestBounds
import RefMonitor.StateHooks
import RefMonitor.Atomicity
import RefMonitor.Discover
import RefMonitor.Interleaving
import RefMonitor.Races
import RefMonitor.PasswordRace
import RefMonitor.Counted
import RefMonitor.References
import RefMonitor.ProcRead
import RefMonitor.Digests
import RefMonitor.OpenText
import RefMonitor.OpenDecision
import RefMonitor.Histories
import RefMonitor.DirMediation
import RefMonitor.Removal
import RefMonitor.WriteBack
import RefMonitor.OptionWords
import RefMonitor.FileRead
import RefMonitor.DeviceLimit
import RefMonitor.PagedRead
import RefMonitor.LogText
import RefMonitor.UserStrings
import RefMonitor.CommandCalls
import RefMonitor.CommandStrings
import RefMonitor.CommandParsing
import RefMonitor.Grammar
import RefMonitor.AddOutcome
import RefMonitor.NamedFile
import RefMonitor.Attributes
import RefMonitor.Canonical
import RefMonitor.SwapFilter
import RefMonitor.JudgedText
import RefMonitor.Collateral
import RefMonitor.OpenMemory
import RefMonitor.RcuScan
import RefMonitor.Linearise
import RefMonitor.LogFollow
import RefMonitor.PageWalk
import RefMonitor.ConsoleInput
import RefMonitor.ConsoleMonitor
import RefMonitor.FileLookup
import RefMonitor.Directory
import RefMonitor.WriteProtect
import RefMonitor.AuditFollow
