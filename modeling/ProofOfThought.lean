import ProofOfThought.Base.Base64
import ProofOfThought.Base.Borsh
import ProofOfThought.Base.Bytes
import ProofOfThought.Base.Cbor
import ProofOfThought.Base.CborItem
import ProofOfThought.Base.CborKeys
import ProofOfThought.Base.CborOrder
import ProofOfThought.Base.Docket
import ProofOfThought.Base.Fallible
import ProofOfThought.Base.Layout
import ProofOfThought.Base.Ledger
import ProofOfThought.Base.Panic
import ProofOfThought.Base.ParseInt
import ProofOfThought.Base.Schema
import ProofOfThought.Base.Sha256
import ProofOfThought.Base.Store
import ProofOfThought.Base.Word
import ProofOfThought.Program.Accounts
import ProofOfThought.Program.Bookkeeping
import ProofOfThought.Program.Collateral
import ProofOfThought.Program.Consumption
import ProofOfThought.Program.Derive
import ProofOfThought.Program.Dispute
import ProofOfThought.Program.Entry
import ProofOfThought.Program.Frame
import ProofOfThought.Program.Layout
import ProofOfThought.Program.Lifecycle
import ProofOfThought.Program.Payouts
import ProofOfThought.Program.Redeem
import ProofOfThought.Program.Register
import ProofOfThought.Program.Rent
import ProofOfThought.Program.Requests
import ProofOfThought.Program.Seeds
import ProofOfThought.Program.SingleUse
import ProofOfThought.Program.Stake
import ProofOfThought.Program.Step
import ProofOfThought.Program.Submission
import ProofOfThought.Program.Thought
import ProofOfThought.Program.Vault
import ProofOfThought.Program.Window
import ProofOfThought.Program.Wire
import ProofOfThought.Sdk.Accounts
import ProofOfThought.Sdk.Agreement
import ProofOfThought.Sdk.Binding
import ProofOfThought.Sdk.Canonical
import ProofOfThought.Sdk.Client
import ProofOfThought.Sdk.Conformance
import ProofOfThought.Sdk.Codec
import ProofOfThought.Sdk.Encoding
import ProofOfThought.Sdk.Form
import ProofOfThought.Sdk.Handover
import ProofOfThought.Sdk.Hex
import ProofOfThought.Sdk.Item
import ProofOfThought.Sdk.Pdas
import ProofOfThought.Sdk.Schema
import ProofOfThought.Sdk.Session
import ProofOfThought.Sdk.Validators
import ProofOfThought.Sdk.Value
import ProofOfThought.Sdk.Verbatim
import ProofOfThought.Watcher.Attested
import ProofOfThought.Watcher.Detection
import ProofOfThought.Watcher.Discriminator
import ProofOfThought.Watcher.EventCodec
import ProofOfThought.Watcher.Exposure
import ProofOfThought.Watcher.Pipeline
import ProofOfThought.Watcher.Provenance
import ProofOfThought.Watcher.Regimes
import ProofOfThought.Watcher.Sha256
import ProofOfThought.Watcher.Subscribe
import ProofOfThought.Watcher.Trace
import ProofOfThought.Watcher.Verify
import ProofOfThought.Watcher.Quote
import ProofOfThought.Watcher.Decision
import ProofOfThought.Watcher.InFlight
import ProofOfThought.Base.Merkle
import ProofOfThought.Watcher.Samples
import ProofOfThought.Watcher.Accusation
import ProofOfThought.Base.Alike
import ProofOfThought.Base.Footprint
import ProofOfThought.Program.Footprint
import ProofOfThought.Program.Optimistic
import ProofOfThought.Program.Replay
import ProofOfThought.Program.Admission
import ProofOfThought.Program.Recovery
import ProofOfThought.Program.Balances
import ProofOfThought.Program.Errors
import ProofOfThought.Program.Dispatch
import ProofOfThought.Program.Storage
import ProofOfThought.Base.Pool
import ProofOfThought.Base.Run
import ProofOfThought.Sdk.Flow
import ProofOfThought.Watcher.Actors
import ProofOfThought.System.EventLog
import ProofOfThought.System.Coverage
