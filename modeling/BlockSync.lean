import BlockSync.Address
import BlockSync.Arguments
import BlockSync.Arguments.Usage
import BlockSync.Block
import BlockSync.BootNode
import BlockSync.Bytes
import BlockSync.Bytes.Hex
import BlockSync.Chain
import BlockSync.Config
import BlockSync.Config.Settings
import BlockSync.Decimal.Dyadic
import BlockSync.Decimal.Fixed
import BlockSync.Decimal.Shortest
import BlockSync.Hash.Keccak
import BlockSync.Hash.Sha256
import BlockSync.Header.Fields
import BlockSync.Header.Rules
import BlockSync.Identity
import BlockSync.Layout
import BlockSync.Layout.Block
import BlockSync.Main
import BlockSync.Metrics
import BlockSync.Metrics.Exposition
import BlockSync.Network.Config
import BlockSync.Network.Connection
import BlockSync.Network.Handshake
import BlockSync.Network.Host
import BlockSync.Network.Node
import BlockSync.Network.NodeTable
import BlockSync.Network.Peer
import BlockSync.Network.Report
import BlockSync.Network.Transport
import BlockSync.Producer
import BlockSync.Recency
import BlockSync.Signature
import BlockSync.Signature.Curve
import BlockSync.Signature.Ecdsa
import BlockSync.Statistics
import BlockSync.Statistics.Kind
import BlockSync.Statistics.Report
import BlockSync.Status
import BlockSync.Sync.Backlog
import BlockSync.Sync.Config
import BlockSync.Sync.Import
import BlockSync.Sync.NetworkStatus
import BlockSync.Sync.Report
import BlockSync.Sync.Requests
import BlockSync.Sync.Route
import BlockSync.Sync.Schedule
import BlockSync.Sync.Screening
import BlockSync.Sync.Serving
import BlockSync.Sync.Synchronizer
import BlockSync.Table
import BlockSync.Text.Column
import BlockSync.Text.Quoted
import BlockSync.Text.Unprintable
import BlockSync.Time
import BlockSync.Wire.Frame
import BlockSync.Wire.Message
import BlockSync.Wire.Route
import BlockSync.Wire.Snappy
import BlockSync.Work.Pool
import BlockSync.Yaml
import BlockSync.Yaml.Cursor
import BlockSync.Yaml.Reader
import BlockSync.Yaml.Scalar
import BlockSync.Proofs.Recency
import BlockSync.Proofs.Recency.Uses
import BlockSync.Proofs.Recency.Operations
import BlockSync.Proofs.Chain.Growth
import BlockSync.Proofs.Chain.Ledger
import BlockSync.Proofs.Chain.Waiting
import BlockSync.Proofs.Chain.Canonical
import BlockSync.Proofs.Chain.DeliveryOrder
import BlockSync.Proofs.Chain.Orphans
import BlockSync.Proofs.Chain.Offers
import BlockSync.Proofs.Chain.Draining
import BlockSync.Proofs.Chain.Ranges
import BlockSync.Proofs.Chain.Repetition
import BlockSync.Proofs.Chain.Work
import BlockSync.Proofs.Bytes.Hex
import BlockSync.Proofs.Header.Encoding
import BlockSync.Proofs.Header.Rules
import BlockSync.Proofs.Block.Assembly
import BlockSync.Proofs.Wire.Numbers
import BlockSync.Proofs.Wire.Layouts
import BlockSync.Proofs.Wire.Compression
import BlockSync.Proofs.Wire.Frames
import BlockSync.Proofs.Wire.Streams
import BlockSync.Proofs.Wire.Endings
import BlockSync.Proofs.Wire.Exactness
import BlockSync.Proofs.Wire.Messages
import BlockSync.Proofs.Sync.Runs
import BlockSync.Proofs.Sync.Moves
import BlockSync.Proofs.Sync.Screening
import BlockSync.Proofs.Sync.Served
import BlockSync.Proofs.Chain.Line
import BlockSync.Proofs.Producer
import BlockSync.Proofs.Sync.Import
import BlockSync.Proofs.Sync.ImportAccount
import BlockSync.Proofs.Sync.Asking
import BlockSync.Proofs.Sync.Exchange
import BlockSync.Proofs.Sync.Progress
import BlockSync.Proofs.Sync.HeaderReplies
import BlockSync.Proofs.Sync.Forks
import BlockSync.Proofs.Sync.Course
import BlockSync.Proofs.Sync.NewBests
import BlockSync.Proofs.Sync.BodyRequests
import BlockSync.Proofs.Sync.HeaderBatches
import BlockSync.Proofs.Sync.Handover
import BlockSync.Proofs.Sync.Replies
import BlockSync.Proofs.Sync.Cache
import BlockSync.Proofs.Sync.Registers
import BlockSync.Proofs.Sync.BodyAnswers
import BlockSync.Proofs.Sync.BodyReplies
import BlockSync.Proofs.Sync.Overtaking
import BlockSync.Proofs.Sync.PublishedHead
import BlockSync.Proofs.Sync.Cycles
import BlockSync.Proofs.Sync.RequestRuns
import BlockSync.Proofs.Sync.Dealings
import BlockSync.Proofs.Sync.InFlight
import BlockSync.Proofs.Network.NodeTable
import BlockSync.Proofs.Network.NodeTexts
import BlockSync.Proofs.Network.Charges
import BlockSync.Proofs.Network.Calls
import BlockSync.Proofs.Network.Events
import BlockSync.Proofs.Network.Acceptance
import BlockSync.Proofs.Sync.NetworkView
import BlockSync.Proofs.Sync.CycleMark
import BlockSync.Proofs.Work.Accounts
import BlockSync.Proofs.Work.Drain
import BlockSync.Proofs.Work.Pool
import BlockSync.Proofs.Work.Schedules
import BlockSync.Proofs.Statistics.Notes
import BlockSync.Proofs.Statistics.Responses
import BlockSync.Proofs.Statistics.Lines
import BlockSync.Proofs.Statistics.Rankings
