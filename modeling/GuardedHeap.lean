import GuardedHeap.Access.CharView
import GuardedHeap.Access.Cursor
import GuardedHeap.Bloom
import GuardedHeap.Memory.Overlay
import GuardedHeap.Proofs.Atomicity
import GuardedHeap.Workload
import GuardedHeap.Proofs.Block.Confinement
import GuardedHeap.Proofs.Ledger.Placement
import GuardedHeap.Proofs.Arena.Holds
import GuardedHeap.Proofs.Ledger.Basic
import GuardedHeap.Proofs.Ledger.Raw
import GuardedHeap.Proofs.Ledger.Guarded
import GuardedHeap.Proofs.Ledger.Registered
import GuardedHeap.Proofs.Ledger.Stack
import GuardedHeap.Proofs.Run.Basic
import GuardedHeap.Proofs.Run.InStep
import GuardedHeap.Proofs.Run.ByteHeap
import GuardedHeap.Proofs.Run.Detection
import GuardedHeap.Proofs.Run.Frontier
import GuardedHeap.Proofs.Run.Stale
import GuardedHeap.Proofs.Block.Framed
import GuardedHeap.Proofs.Access.Framed
import GuardedHeap.Proofs.Ledger.Refusal
import GuardedHeap.Proofs.Client.Accounts
import GuardedHeap.Proofs.Client.Live
import GuardedHeap.Proofs.Registry.Contents
import GuardedHeap.Proofs.Factory.Estate
import GuardedHeap.Proofs.Ledger.Release
import GuardedHeap.Proofs.Factory.Ownership
import GuardedHeap.Proofs.Ledger.Beside
import GuardedHeap.Proofs.Run.Isolation
import GuardedHeap.Proofs.Access.Written
import GuardedHeap.Proofs.Access.Puts
import GuardedHeap.Proofs.Access.Agreement
import GuardedHeap.Proofs.Access.Gets
import GuardedHeap.Proofs.Access.Records
import GuardedHeap.Proofs.Access.Crossing
import GuardedHeap.Proofs.Block.Checked
import GuardedHeap.Proofs.Block.Exact
import GuardedHeap.Proofs.Ledger.Leaks
import GuardedHeap.Proofs.Block.Loosened
import GuardedHeap.Proofs.Access.Loosened
import GuardedHeap.Proofs.Access.Programs
import GuardedHeap.Proofs.BitSet.Reference
import GuardedHeap.Proofs.Bloom.Contents
import GuardedHeap.Proofs.Access.Outcome
import GuardedHeap.Proofs.Access.Transfers
import GuardedHeap.Proofs.Overflow.Blocks
import GuardedHeap.Proofs.Overflow.Backing
import GuardedHeap.Proofs.Overflow.Cursors
import GuardedHeap.Proofs.Overflow.Supply
import GuardedHeap.Proofs.Overflow.Charges
import GuardedHeap.Proofs.Overflow.Stacks
import GuardedHeap.Proofs.Overflow.Factories
import GuardedHeap.Proofs.Overflow.Sessions
import GuardedHeap.Proofs.Overflow.Workbench
import GuardedHeap.Proofs.Text.Grammar
import GuardedHeap.Proofs.Text.Canonical
import GuardedHeap.Proofs.Block.Flattened
import GuardedHeap.Proofs.Access.Subviews
import GuardedHeap.Proofs.Access.Positions
import GuardedHeap.Proofs.Run.Objections
import GuardedHeap.Proofs.Run.Resets
import GuardedHeap.Proofs.Run.Balance
import GuardedHeap.Proofs.Block.Overlap
import GuardedHeap.Proofs.Access.Rendered
import GuardedHeap.Proofs.Factory.Construction
import GuardedHeap.Proofs.Registry.Spared
import GuardedHeap.Proofs.Registry.Catalogue
import GuardedHeap.Proofs.Arena.Calls
import GuardedHeap.Proofs.Arena.Limits
import GuardedHeap.Proofs.Arena.Regions
import GuardedHeap.Proofs.Arena.History
import GuardedHeap.Proofs.Run.Churn
import GuardedHeap.Proofs.Bloom.Mixing
