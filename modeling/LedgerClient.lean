import LedgerClient.Block.Decode
import LedgerClient.Block.Entry
import LedgerClient.Block.Filter
import LedgerClient.Block.Header
import LedgerClient.Block.Json
import LedgerClient.Block.Metadata
import LedgerClient.Block.Record
import LedgerClient.Bytes
import LedgerClient.ChannelConfig.Json
import LedgerClient.Client.Administration
import LedgerClient.Client.Basic
import LedgerClient.Client.Query
import LedgerClient.Client.Submission
import LedgerClient.Client.Subscription
import LedgerClient.ConfigUpdate
import LedgerClient.Curve.P256
import LedgerClient.Decoding
import LedgerClient.Der
import LedgerClient.Dialogue
import LedgerClient.Duration
import LedgerClient.Ecdsa
import LedgerClient.Endorsement
import LedgerClient.Endpoint
import LedgerClient.Endpoint.Authority
import LedgerClient.Endpoint.ServerName
import LedgerClient.Endpoint.Uri
import LedgerClient.Error
import LedgerClient.Fetch
import LedgerClient.Hash.Hmac
import LedgerClient.Hash.Sha256
import LedgerClient.Identity
import LedgerClient.Json
import LedgerClient.Key.Import
import LedgerClient.Key.Pem
import LedgerClient.Key.Private
import LedgerClient.Ledger
import LedgerClient.Listener
import LedgerClient.Listener.Feed
import LedgerClient.Policy.Expr
import LedgerClient.Policy.Parser
import LedgerClient.Policy.Token
import LedgerClient.Proofs.Assembly
import LedgerClient.Proofs.Block.Accesses
import LedgerClient.Proofs.Block.Containment
import LedgerClient.Proofs.Block.Header
import LedgerClient.Proofs.Block.LastConfig
import LedgerClient.Proofs.Block.Position
import LedgerClient.Proofs.Block.Reported
import LedgerClient.Proofs.Block.Shown
import LedgerClient.Proofs.Block.Slots
import LedgerClient.Proofs.Block.Submitted
import LedgerClient.Proofs.Block.Times
import LedgerClient.Proofs.Block.Views
import LedgerClient.Proofs.ChannelConfig
import LedgerClient.Proofs.Collection
import LedgerClient.Proofs.ConfigUpdate
import LedgerClient.Proofs.Connection.Lookup
import LedgerClient.Proofs.Curve.Group
import LedgerClient.Proofs.Curve.Modular
import LedgerClient.Proofs.Curve.Order
import LedgerClient.Proofs.Curve.Primes
import LedgerClient.Proofs.Deliver
import LedgerClient.Proofs.Ecdsa
import LedgerClient.Proofs.Fetch
import LedgerClient.Proofs.Key.Armour
import LedgerClient.Proofs.Key.Import
import LedgerClient.Proofs.Key.Raw
import LedgerClient.Proofs.Ledger
import LedgerClient.Proofs.Listener.Stages
import LedgerClient.Proofs.Policy.Depth
import LedgerClient.Proofs.Policy.Display
import LedgerClient.Proofs.Policy.Grammar
import LedgerClient.Proofs.Policy.Lexeme
import LedgerClient.Proofs.Policy.Meaning
import LedgerClient.Proofs.Policy.Rendering
import LedgerClient.Proofs.Policy.Shape
import LedgerClient.Proofs.Proposal.Content
import LedgerClient.Proofs.Proposal.Definition
import LedgerClient.Proofs.Proposal.Instantiation
import LedgerClient.Proofs.Proposal.Privacy
import LedgerClient.Proofs.Selection
import LedgerClient.Proofs.Settings.Substitution
import LedgerClient.Proofs.Signature
import LedgerClient.Proofs.Submission.Safety
import LedgerClient.Proofs.Text.Hex
import LedgerClient.Proofs.Verification
import LedgerClient.Proofs.Wire.Order
import LedgerClient.Proofs.Wire.Unknown
import LedgerClient.Proposal.Build
import LedgerClient.Proposal.Request
import LedgerClient.Protocol.Block
import LedgerClient.Protocol.Chaincode
import LedgerClient.Protocol.ChannelConfig
import LedgerClient.Protocol.Codes
import LedgerClient.Protocol.Deliver
import LedgerClient.Protocol.Envelope
import LedgerClient.Protocol.FilteredBlock
import LedgerClient.Protocol.Lifecycle
import LedgerClient.Protocol.Membership
import LedgerClient.Protocol.Proposal
import LedgerClient.Protocol.ReadWriteSet
import LedgerClient.Protocol.RpcStatus
import LedgerClient.Protocol.SignaturePolicy
import LedgerClient.Seek
import LedgerClient.Selector
import LedgerClient.Session
import LedgerClient.Settings.Basic
import LedgerClient.Settings.Document
import LedgerClient.Settings.Json
import LedgerClient.Settings.Substitution
import LedgerClient.Signing
import LedgerClient.Text.Blank
import LedgerClient.Text.Printable
import LedgerClient.Text.Quoted
import LedgerClient.Text.Search
import LedgerClient.Text.Utf8
import LedgerClient.Transaction
import LedgerClient.Wire.Decode
import LedgerClient.Wire.Message
import LedgerClient.Wire.Record
import LedgerClient.Wire.Schema
import LedgerClient.Wire.Typed
import LedgerClient.Wire.Varint
import LedgerClient.Yaml.Cursor
import LedgerClient.Yaml.Parser
import LedgerClient.Yaml.Scalar
import LedgerClient.Yaml.Tree
