import AjpGateway.Balancer.Basic
import AjpGateway.Balancer.Member
import AjpGateway.Balancer.Selection
import AjpGateway.Balancer.Service
import AjpGateway.Client.Channel
import AjpGateway.Client.Request
import AjpGateway.Client.Session
import AjpGateway.Clock
import AjpGateway.Command.Arguments
import AjpGateway.Command.Run
import AjpGateway.Config.Error
import AjpGateway.Config.Loading
import AjpGateway.Config.Problem
import AjpGateway.Config.Properties
import AjpGateway.Config.Settings
import AjpGateway.Config.Validation
import AjpGateway.Decimal.Layout
import AjpGateway.Decimal.Reading
import AjpGateway.Decimal.Shortest
import AjpGateway.Gateway
import AjpGateway.Json.Value
import AjpGateway.Main
import AjpGateway.Metrics
import AjpGateway.Net.Address
import AjpGateway.Net.Failure
import AjpGateway.Net.Host
import AjpGateway.Net.Network
import AjpGateway.Net.Stream
import AjpGateway.Packet.Buffer
import AjpGateway.Packet.Code
import AjpGateway.Packet.Error
import AjpGateway.Packet.ForwardRequest
import AjpGateway.Packet.Frame
import AjpGateway.Packet.Reply
import AjpGateway.Proofs.Net.Delivery
import AjpGateway.Proofs.Packet.Field
import AjpGateway.Proofs.Packet.HeaderNames
import AjpGateway.Proofs.Packet.Headers
import AjpGateway.Proofs.Packet.Operation
import AjpGateway.Proofs.Packet.Piece
import AjpGateway.Proofs.Packet.ReadingBack
import AjpGateway.Proofs.Packet.Receiving
import AjpGateway.Proofs.Packet.Reply
import AjpGateway.Proofs.Packet.Request
import AjpGateway.Proofs.Packet.Storage
import AjpGateway.Proofs.Routing.Registration
import AjpGateway.Proofs.Routing.Resolution
import AjpGateway.Proofs.Running
import AjpGateway.Proofs.Worker.Attempt
import AjpGateway.Proofs.Worker.Commitment
import AjpGateway.Proofs.Worker.Exchange
import AjpGateway.Proofs.Worker.Trace
import AjpGateway.Routing.LiveTable
import AjpGateway.Routing.Rule
import AjpGateway.Routing.SessionMarker
import AjpGateway.Routing.Table
import AjpGateway.Text.Blank
import AjpGateway.Text.Cut
import AjpGateway.Text.Hex
import AjpGateway.Text.Printable
import AjpGateway.Text.Quoted
import AjpGateway.Text.Utf8
import AjpGateway.Worker.Backend
import AjpGateway.Worker.Error
import AjpGateway.Worker.Monitor
import AjpGateway.Worker.Phase
import AjpGateway.Worker.Pool
import AjpGateway.Worker.Readiness
import AjpGateway.Worker.Registry
import AjpGateway.Worker.Status
import AjpGateway.Worker.Target
import AjpGateway.Worker.Transaction
import AjpGateway.Worker.Tree
import AjpGateway.Worker.World
import AjpGateway.Proofs.Balancer.Setup
import AjpGateway.Proofs.Worker.Setup
import AjpGateway.Proofs.Results
import AjpGateway.Proofs.Worker.Building
import AjpGateway.Proofs.Worker.Renewal
import AjpGateway.Proofs.Worker.Registered
import AjpGateway.Proofs.Routing.Reloading
import AjpGateway.Proofs.Gateway.Life
import AjpGateway.Proofs.Worker.Failing
import AjpGateway.Proofs.Config.Validity
import AjpGateway.Proofs.Gateway.Construction
import AjpGateway.Proofs.Gateway.Routes
import AjpGateway.Proofs.Gateway.Mapping
import AjpGateway.Proofs.Balancer.Resting
import AjpGateway.Proofs.Balancer.Selection
import AjpGateway.Proofs.Balancer.Eligibility
import AjpGateway.Proofs.Balancer.Sessions
import AjpGateway.Proofs.Balancer.Attempts
import AjpGateway.Proofs.Balancer.Traffic
import AjpGateway.Proofs.Worker.Balancing
import AjpGateway.Proofs.Routing.Markers
import AjpGateway.Proofs.Packet.Decoding
import AjpGateway.Proofs.Worker.Body
import AjpGateway.Proofs.Worker.Conversation
import AjpGateway.Proofs.Worker.Opening
import AjpGateway.Proofs.Worker.Relaying
import AjpGateway.Proofs.Worker.Upload
import AjpGateway.Proofs.Packet.Capacity
import AjpGateway.Proofs.Packet.Checked
import AjpGateway.Proofs.Worker.Keeping
import AjpGateway.Proofs.Worker.Sizing
import AjpGateway.Proofs.Worker.Course
import AjpGateway.Proofs.Worker.Rejecting
import AjpGateway.Proofs.Routing.Exclusions
import AjpGateway.Proofs.Routing.Generations
import AjpGateway.Proofs.Packet.Streaming
import AjpGateway.Proofs.Routing.Readers
import AjpGateway.Proofs.Balancer.Fairness
import AjpGateway.Proofs.Balancer.Loads
import AjpGateway.Proofs.Balancer.Recovery
import AjpGateway.Proofs.Worker.Connections
import AjpGateway.Proofs.Worker.Endpoints
import AjpGateway.Proofs.Worker.Lending
import AjpGateway.Proofs.Worker.Answering
import AjpGateway.Proofs.Routing.Overriding
import AjpGateway.Proofs.Worker.Alike
import AjpGateway.Proofs.Worker.Lifecycle
import AjpGateway.Proofs.Worker.Options
import AjpGateway.Proofs.Worker.Forwarding
import AjpGateway.Proofs.Worker.Visits
import AjpGateway.Proofs.Gateway.Shutdown
import AjpGateway.Proofs.Text.Bytes
import AjpGateway.Proofs.Text.Trimming
import AjpGateway.Proofs.Routing.Patterns
import AjpGateway.Proofs.Routing.Grammar
import AjpGateway.Proofs.Routing.Bars
import AjpGateway.Proofs.Routing.Disguises
import AjpGateway.Proofs.Packet.Reading
import AjpGateway.Proofs.Packet.Attributes
import AjpGateway.Proofs.Packet.Acceptance
import AjpGateway.Proofs.Packet.Truncation
import AjpGateway.Proofs.Packet.Confinement
import AjpGateway.Proofs.Net.Transfer
import AjpGateway.Proofs.Packet.Framing
import AjpGateway.Proofs.Worker.Supply
import AjpGateway.Proofs.Worker.Replacing
import AjpGateway.Proofs.Worker.Announcing
import AjpGateway.Proofs.Config.Cycles
import AjpGateway.Proofs.Worker.Nesting
import AjpGateway.Proofs.Text.Joining
import AjpGateway.Proofs.Config.Entries
import AjpGateway.Proofs.Config.References
import AjpGateway.Proofs.Config.Layout
import AjpGateway.Proofs.Client.Sessions
import AjpGateway.Proofs.Worker.Deposits
import AjpGateway.Proofs.Worker.Failovers
import AjpGateway.Proofs.Worker.Refusing
import AjpGateway.Proofs.Config.Store
import AjpGateway.Proofs.Worker.Accounting
