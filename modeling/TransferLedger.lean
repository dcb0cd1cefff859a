import TransferLedger.Chain.Cursor
import TransferLedger.Chain.Hash
import TransferLedger.Chain.Record
import TransferLedger.Chain.Sealer
import TransferLedger.CommandHandler
import TransferLedger.Config
import TransferLedger.Coordinator
import TransferLedger.Digest.Hmac
import TransferLedger.Digest.Sha256
import TransferLedger.Json.Decode
import TransferLedger.Json.Node
import TransferLedger.Json.Token
import TransferLedger.Json.Value
import TransferLedger.Json.Writer
import TransferLedger.Ledger
import TransferLedger.Log.Audit
import TransferLedger.Log.Basic
import TransferLedger.Log.Reader
import TransferLedger.Number.Binary64
import TransferLedger.Number.Shortest
import TransferLedger.Rebuild
import TransferLedger.Rehearsal.Call
import TransferLedger.Rehearsal.Run
import TransferLedger.Rehearsal.Script
import TransferLedger.Rehearsal.World
import TransferLedger.Snapshot.Basic
import TransferLedger.Snapshot.Policy
import TransferLedger.Snapshot.Store
import TransferLedger.Store.Keyed
import TransferLedger.Store.Memory
import TransferLedger.Store.Storage
import TransferLedger.Text.Blank
import TransferLedger.Text.Hex
import TransferLedger.Text.Numeral
import TransferLedger.Text.Quoted
import TransferLedger.Text.Shown
import TransferLedger.Text.Utf8
import TransferLedger.Time.Instant
import TransferLedger.Time.Rfc3339
import TransferLedger.Time.Stamp
import TransferLedger.Transfer.Acknowledgment
import TransferLedger.Transfer.Command
import TransferLedger.Transfer.Event
import TransferLedger.Transfer.Operation
import TransferLedger.Transfer.State
import TransferLedger.Transfer.Status
import TransferLedger.Transfer.WorkingCopy
import TransferLedger.Proofs.Batch.InTurn
import TransferLedger.Proofs.Batch.Naming
import TransferLedger.Proofs.Batch.Transaction
import TransferLedger.Proofs.Chain.Refusing
import TransferLedger.Proofs.Config.Environment
import TransferLedger.Proofs.Log.Auditing
import TransferLedger.Proofs.Log.Cutting
import TransferLedger.Proofs.Log.Exact
import TransferLedger.Proofs.Log.Fitting
import TransferLedger.Proofs.Log.Tampering
import TransferLedger.Proofs.Office.Alarms
import TransferLedger.Proofs.Office.Beginnings
import TransferLedger.Proofs.Office.Chains
import TransferLedger.Proofs.Office.Cost
import TransferLedger.Proofs.Office.Once
import TransferLedger.Proofs.Office.Retrying
import TransferLedger.Proofs.Office.Rivals
import TransferLedger.Proofs.Office.Saved
import TransferLedger.Proofs.Office.Stories
import TransferLedger.Proofs.Race.Decided
import TransferLedger.Proofs.Rebuild.Defects
import TransferLedger.Proofs.Rebuild.StoredForms
import TransferLedger.Proofs.Snapshot.Due
import TransferLedger.Proofs.Snapshot.Indifferent
import TransferLedger.Proofs.Snapshot.Newest
import TransferLedger.Proofs.Store.Paging
import TransferLedger.Proofs.Time.Rfc3339
import TransferLedger.Proofs.Transfer.Lifecycle
