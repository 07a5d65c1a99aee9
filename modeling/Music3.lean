import Music3.Lib.Lts
import Music3.Lib.Rules
import Music3.Lib.BoundedLog
import Music3.Lib.Fifo
import Music3.Py.RoundTrip
import Music3.Posix.Calls
import Music3.Jobs.Store
import Music3.Jobs.Artifacts
import Music3.Jobs.Runner
import Music3.Jobs.RunnerInv
import Music3.Jobs.SingleSlot
import Music3.Jobs.Story
import Music3.Jobs.CancelFinal
import Music3.Jobs.Teardown
import Music3.Jobs.Survival
import Music3.Jobs.Stored
import Music3.Jobs.Listing
import Music3.Compat.Grammar
import Music3.Routes.Dispatch
import Music3.Routes.Following
import Music3.Lifecycle.Health
import Music3.Lifecycle.IdleDown
import Music3.Page.Submitting
import Music3.Jobs.Crash
import Music3.Routes.Delivery
import Music3.Routes.Agree
import Music3.Routes.Resuming
import Music3.Routes.Streams
import Music3.Routes.Whole
import Music3.Lifecycle.ColdPath
import Music3.Jobs.RealJson
import Music3.Routes.Framing
import Music3.Jobs.Containment
import Music3.Page.Wav
import Music3.Page.Watching
import Music3.Page.Lru
import Music3.Page.Peaks
import Music3.Page.Buckets
import Music3.Page.EtaOrder
import Music3.Routes.HexCeiling
import Music3.Page.Seed
import Music3.Page.Player
import Music3.Routes.Slots
import Music3.Page.Form
import Music3.Page.Rerun
import Music3.Page.Samples
import Music3.Page.Waveform
import Music3.Page.Columns
import Music3.Routes.Callers
import Music3.Lifecycle.IdleTime
import Music3.Page.Elapsed
import Music3.Page.CatchesUp
