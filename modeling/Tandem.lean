import Tandem.Table
import Tandem.Bytes
import Tandem.Text.Encoding
import Tandem.Misuse
import Tandem.Memory.Settings
import Tandem.Memory.Block
import Tandem.Memory.Pool
import Tandem.Memory.Lease
import Tandem.Memory.Basic
import Tandem.View
import Tandem.Workspace
import Tandem.Scalar
import Tandem.Kind
import Tandem.Writer
import Tandem.Reader
import Tandem.Serializable
import Tandem.Records
import Tandem.Message.Header
import Tandem.Message.Basic
import Tandem.Frame.Basic
import Tandem.Frame.Receiver
import Tandem.Handshake
import Tandem.RoundTrip.Average
import Tandem.RoundTrip.Seconds
import Tandem.RoundTrip.Basic
import Tandem.Connection.Error
import Tandem.Connection.State
import Tandem.Config
import Tandem.Frame.Assembly
import Tandem.Frame.Transfer
import Tandem.Connection.Inbox
import Tandem.Connection.Dispatcher
import Tandem.Connection.Basic
import Tandem.Connection.Teardown
import Tandem.Listener.Pending
import Tandem.Listener.Settlement
import Tandem.Listener.PeerTable
import Tandem.Listener.Basic
import Tandem.Client
import Tandem.Link
import Tandem.Session.Script
import Tandem.Session.State
import Tandem.Session.Run
import Tandem.Draft
import Tandem.Message.Operation
import Tandem.Proofs.Memory.Pool
import Tandem.Proofs.Memory.Arrays
import Tandem.Proofs.Memory.Holding
import Tandem.Proofs.Memory.Stock
import Tandem.Proofs.Memory.Retention
import Tandem.Proofs.Memory.Stacks
import Tandem.Proofs.View
import Tandem.Proofs.Frame.Splitting
import Tandem.Proofs.Frame.Assembly
import Tandem.Proofs.Frame.Receiver
import Tandem.Proofs.Frame.Segmentation
import Tandem.Proofs.Writing.Refinement
import Tandem.Proofs.Text.Encoding
import Tandem.Proofs.Text.Acceptance
import Tandem.Proofs.Reading.Read
import Tandem.Proofs.Reading.Inverse
import Tandem.Proofs.Reading.Records
import Tandem.Proofs.Reading.Nest
import Tandem.Proofs.Reading.Sequence
import Tandem.Proofs.Reading.Canonical
import Tandem.Proofs.Reading.Safety
import Tandem.Proofs.Sharing.Holders
import Tandem.Proofs.Sharing.Views
import Tandem.Proofs.Sharing.Cursors
import Tandem.Proofs.Sharing.Letters
import Tandem.Proofs.Sharing.Belongings
import Tandem.Proofs.Sharing.Commons
import Tandem.Proofs.Sharing.Independence
import Tandem.Proofs.Sharing.Lasting
import Tandem.Proofs.Message.Wire
import Tandem.Proofs.Recycling.Alike
import Tandem.Proofs.Recycling.Twins
import Tandem.Proofs.Recycling.Writing
import Tandem.Proofs.Recycling.Drafts
import Tandem.Proofs.Recycling.Spaces
import Tandem.Proofs.Recycling.Letters
import Tandem.Proofs.Recycling.Commons
import Tandem.Proofs.Recycling.Receiving
import Tandem.Proofs.Recycling.Endpoint
import Tandem.Proofs.Connection.Scene
import Tandem.Proofs.Link.Delivery
import Tandem.Proofs.Listener.Registry
import Tandem.Proofs.Listener.Echo
import Tandem.Proofs.Listener.Binding
import Tandem.Proofs.Listener.Settlement
import Tandem.Proofs.Connection.Datagrams
import Tandem.Proofs.RoundTrip.Average
import Tandem.Proofs.RoundTrip.Pings
import Tandem.Proofs.Client
import Tandem.Proofs.Handshake.Recognition
import Tandem.Proofs.Frame.Intake
import Tandem.Proofs.Link.Traffic
import Tandem.Proofs.Connection.Refusal
import Tandem.Proofs.Connection.Writing
import Tandem.Proofs.Session.Connections
