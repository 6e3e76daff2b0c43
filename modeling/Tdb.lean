import Tdb.Library.Codec
import Tdb.Library.JsonText
import Tdb.Library.Run
import Tdb.Library.Seek
import Tdb.Library.SignedWord
import Tdb.Storage.Invariant
import Tdb.Storage.Refinement
import Tdb.Storage.Canonical
import Tdb.Server.Theorems
import Tdb.Server.Wire
import Tdb.Tracer.Executed
import Tdb.Tracer.Signals
import Tdb.Tracer.Memory
import Tdb.Tracer.CallDepth
import Tdb.Tracer.Snapshots
import Tdb.Tracer.Chain
import Tdb.TraceLoop.Stops
import Tdb.Stats.Accounting
import Tdb.Stats.Determinism
import Tdb.Stats.Summary
import Tdb.Launcher.Release
import Tdb.Launcher.Handshake
import Tdb.Tui.Labels
import Tdb.Tui.Registers
import Tdb.Tui.Detail
import Tdb.Tui.Session.Theorems
import Tdb.Web.Header
import Tdb.Web.Timeline
import Tdb.Web.Panels
import Tdb.Web.Highlight
import Tdb.Viewers.Find
import Tdb.Truncation
import Tdb.Web.Wire
import Tdb.Library.Disk
import Tdb.Library.Numeral
import Tdb.Program
import Tdb.Program.Theorems
import Tdb.TraceLoop.Recorded
import Tdb.Library.Throttle
import Tdb.TraceLoop.Progress
import Tdb.TraceLoop.Followed
import Tdb.Tui.Panels
import Tdb.Tui.Panels.Theorems
import Tdb.Tui.Panels.Screen
import Tdb.Tui.Search
import Tdb.Tui.Panels.Overview
import Tdb.Server.Router
import Tdb.Tracer.Process
import Tdb.Tracer.Process.Theorems
import Tdb.Viewers.Search
import Tdb.Viewers.StackDelta
import Tdb.Web.Screen
import Tdb.Library.JsonPretty
import Tdb.Web.Export
import Tdb.Library.Html
import Tdb.Web.Markup
