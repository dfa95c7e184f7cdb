import Deferral.Flags.Text
import Deferral.WriteOnce
import Deferral.Completion
import Deferral.Pursuit
import Deferral.Report
import Deferral.Text.Quoted
import Deferral.Session.World
import Deferral.Session.Run
import Deferral.WriteOnce.Holder
import Deferral.Emission.Store
import Deferral.Number.Shortest
import Deferral.Json.Reader
import Deferral.Options.Json
import Deferral.Proofs.Rules
import Deferral.Proofs.Pending
import Deferral.Proofs.Verdict
import Deferral.Proofs.Later
import Deferral.Proofs.Sound
import Deferral.Proofs.Lawful
import Deferral.Proofs.Conduct
import Deferral.Proofs.FinalResults
import Deferral.Proofs.Forced
import Deferral.Proofs.ShortPursuit
import Deferral.Proofs.Memo
import Deferral.Proofs.Memoization
import Deferral.Proofs.SingleBinding
import Deferral.Proofs.Congruence
import Deferral.Proofs.Plain
import Deferral.Proofs.Nesting
import Deferral.Proofs.Unwinding
import Deferral.Proofs.Recovery
import Deferral.Proofs.Stable
import Deferral.Proofs.Correspondence
import Deferral.Proofs.Accord
import Deferral.Proofs.Postponement
import Deferral.Proofs.ReportOrder
import Deferral.Proofs.Walks
import Deferral.Proofs.SlotHistory
import Deferral.Proofs.UniqueKeys
import Deferral.Proofs.SingleEntries
import Deferral.Proofs.NameLookup
import Deferral.Proofs.StoreHistory
import Deferral.Proofs.Building
import Deferral.Proofs.SharedBuilds
import Deferral.Proofs.BuildingSteps
import Deferral.Proofs.Grounded
import Deferral.Proofs.Awaiting
import Deferral.Proofs.ByteOrder
import Deferral.Proofs.Collecting
import Deferral.Proofs.FlagText
import Deferral.Proofs.JsonText
import Deferral.Proofs.OptionsText
import Deferral.Proofs.UnknownKeys
import Deferral.Proofs.TopLevel
import Deferral.Proofs.PushOrder
import Deferral.Proofs.CircularWaits
import Deferral.Proofs.Forward
import Deferral.Proofs.AnyHost
import Deferral.Proofs.EmissionOrder
import Deferral.Proofs.Ambiguity
import Deferral.Proofs.ReadableNames
import Deferral.Proofs.Disguise
import Deferral.Proofs.UnnamedFlags
import Deferral.Proofs.Unheeded
import Deferral.Proofs.Relocation
import Deferral.Proofs.RelocatedSteps
