import Wsarb.Library.Mailbox
import Wsarb.Library.NameSearch
import Wsarb.Library.Sends
import Wsarb.Library.KeyedMap
import Wsarb.Library.Patches
import Wsarb.Library.Json
import Wsarb.Library.JsonText
import Wsarb.Library.Records
import Wsarb.Library.Run
import Wsarb.Library.Scripts
import Wsarb.Library.Ladder
import Wsarb.Library.Histograms
import Wsarb.Library.ByteSlices
import Wsarb.Library.Since
import Wsarb.Library.Ranking
import Wsarb.Library.Accounts
import Wsarb.Library.Reading
import Wsarb.Library.Falls
import Wsarb.State.SubKey
import Wsarb.State.Label
import Wsarb.State.Truncate
import Wsarb.State.Wire
import Wsarb.State.Silence
import Wsarb.State.Marks
import Wsarb.State.SubEntry
import Wsarb.State.Arbitration
import Wsarb.State.AppState
import Wsarb.State.Delivery
import Wsarb.State.Effects
import Wsarb.State.Operations
import Wsarb.State.Transitions
import Wsarb.State.Registry
import Wsarb.State.Standing
import Wsarb.State.Roster
import Wsarb.State.Writer
import Wsarb.State.Waiting
import Wsarb.State.Accord
import Wsarb.Upstream.FrameText
import Wsarb.Upstream.Freshness
import Wsarb.Upstream.Route
import Wsarb.Upstream.Meeting
import Wsarb.Upstream.Link
import Wsarb.Upstream.Fetches
import Wsarb.Upstream.Tickets
import Wsarb.Race.Counters
import Wsarb.Race.Positions
import Wsarb.Race.Hearing
import Wsarb.Race.LongestPrefix
import Wsarb.Race.SharedSnapshot
import Wsarb.Race.Batches
import Wsarb.Race.Reconnecting
import Wsarb.Stream.Books
import Wsarb.Stream.Splicing
import Wsarb.Stream.Attached
import Wsarb.Stream.Parking
import Wsarb.Stream.Arrivals
import Wsarb.Stream.RepeatedHeights
import Wsarb.Stream.Backlog
import Wsarb.Stream.Holes
import Wsarb.Stream.LeadMode
import Wsarb.Stream.ExactMarks
import Wsarb.Stream.WrittenOff
import Wsarb.Stream.Rebuilt
import Wsarb.Stream.Chronicle
import Wsarb.Stream.Stretch
import Wsarb.Stream.Leadership
import Wsarb.Stream.LateJoiner
import Wsarb.Stream.InPlay
import Wsarb.Stream.Overlap
import Wsarb.Stream.Opening
import Wsarb.Concurrent.Floor
import Wsarb.Concurrent.FanOut
import Wsarb.Concurrent.Release
import Wsarb.Concurrent.Desk
import Wsarb.Upstream.Resubscribing
import Wsarb.State.Payloads
import Wsarb.Server.Texts
import Wsarb.Server.Refinement
import Wsarb.Server.Keys
import Wsarb.Server.Replies
import Wsarb.Server.Queues
import Wsarb.Upstream.Lifecycle
import Wsarb.Server.Ranking
import Wsarb.Server.Service
import Wsarb.Concurrent.Registration
import Wsarb.Concurrent.Teardown
import Wsarb.Race.Scoreboard
import Wsarb.Race.Sampling
import Wsarb.Tools.SideDiff
import Wsarb.Tools.StreamCheck
import Wsarb.Stream.Checked
import Wsarb.Stream.Reel
import Wsarb.Tools.Panel
import Wsarb.Stream.Shown
import Wsarb.Tools.Framing
import Wsarb.LoadTest.Percentiles
import Wsarb.LoadTest.Superseded
import Wsarb.LoadTest.Balance
import Wsarb.LoadTest.KeyStats
import Wsarb.LoadTest.Restarts
