import Tracewulf.Base.FiniteMap
import Tracewulf.Base.Run
import Tracewulf.Base.AddressBook
import Tracewulf.Base.BoundedMap
import Tracewulf.Base.KeyedFold
import Tracewulf.Base.Layout
import Tracewulf.Base.Log
import Tracewulf.Base.Resumption
import Tracewulf.Bpf.Event
import Tracewulf.Bpf.Tracer
import Tracewulf.Bpf.Pairing
import Tracewulf.K8s.Cache
import Tracewulf.K8s.Informer
import Tracewulf.K8s.Delivery
import Tracewulf.K8s.Endpoints
import Tracewulf.Ebpf.Wire
import Tracewulf.Ebpf.Net
import Tracewulf.Ebpf.Stats
import Tracewulf.Ebpf.Aggregation
import Tracewulf.Ebpf.CrossZone
import Tracewulf.Ebpf.History
import Tracewulf.Ebpf.AppendLog
import Tracewulf.Ebpf.TornTail
import Tracewulf.Ebpf.Reader
import Tracewulf.Ebpf.Daemon
import Tracewulf.Ebpf.Conservation
import Tracewulf.Ebpf.Shutdown
import Tracewulf.Base.OrderedSum
import Tracewulf.Ebpf.Cost
import Tracewulf.Ebpf.Egress
import Tracewulf.Ebpf.Resolution
import Tracewulf.K8s.Tombstones
import Tracewulf.Ebpf.Attribution
import Tracewulf.Ebpf.FailedAppend
import Tracewulf.Ebpf.Replay
import Tracewulf.Base.Split
import Tracewulf.Ebpf.FlowKey
import Tracewulf.Base.BigEndian
import Tracewulf.Base.Decimal
import Tracewulf.Ebpf.Addressing
import Tracewulf.Ebpf.PeerFamily
import Tracewulf.Main.Startup
import Tracewulf.Main.Console
import Tracewulf.Main.FailedStartup
import Tracewulf.Base.Simulation
import Tracewulf.Base.Collector
import Tracewulf.Ebpf.Batches
import Tracewulf.Exporter.WebServer
import Tracewulf.Bpf.Submission
import Tracewulf.Base.Projection
import Tracewulf.Bpf.Isolation
import Tracewulf.Ebpf.Draining
import Tracewulf.Ebpf.Node
import Tracewulf.Json.Scanner
import Tracewulf.Json.Reading
import Tracewulf.Json.Framing
import Tracewulf.Json.Numbers
import Tracewulf.Json.Strings
import Tracewulf.Json.Decoding
import Tracewulf.Ebpf.RecordLine
import Tracewulf.Ebpf.Truncation
import Tracewulf.Tui.Screen
import Tracewulf.Main.Recount
import Tracewulf.Main.Checklist
import Tracewulf.Main.Ending
import Tracewulf.Base.Deferred
import Tracewulf.Main.Loader
import Tracewulf.Exporter.Pages
import Tracewulf.Base.Locked
import Tracewulf.Ebpf.Critical
import Tracewulf.Exporter.Locking
import Tracewulf.Main.Headless
