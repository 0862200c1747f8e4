import SpectrumOffchain.Lib.Outcome
import SpectrumOffchain.Lib.Binary64
import SpectrumOffchain.Lib.Instalments
import SpectrumOffchain.Lib.ProRata
import SpectrumOffchain.Ergo.Box
import SpectrumOffchain.Ergo.Validators
import SpectrumOffchain.Domain
import SpectrumOffchain.Data.Pool
import SpectrumOffchain.Data.Bundle
import SpectrumOffchain.Data.Order
import SpectrumOffchain.Data.Operations
import SpectrumOffchain.Data.Codec
import SpectrumOffchain.Execution.RunOrder
import SpectrumOffchain.Scheduler.Data
import SpectrumOffchain.Deploy
import SpectrumOffchain.Lib.Transition
import SpectrumOffchain.Staking.Run
import SpectrumOffchain.Staking.Epoch
import SpectrumOffchain.Staking.Batches
import SpectrumOffchain.Staking.Boundary
import SpectrumOffchain.Execution.Prediction
import SpectrumOffchain.Execution.Pointers
import SpectrumOffchain.Execution.Ergs
import SpectrumOffchain.Execution.Tokens
import SpectrumOffchain.Execution.CrashFreedom
import SpectrumOffchain.Lib.Stack
import SpectrumOffchain.Lib.Store
import SpectrumOffchain.ChainSync.Model
import SpectrumOffchain.ChainSync.InMemory
import SpectrumOffchain.ChainSync.Chain
import SpectrumOffchain.ChainSync.Nesting
import SpectrumOffchain.ChainSync.RocksDB
import SpectrumOffchain.ChainSync.Restart
import SpectrumOffchain.ChainSync.Bodies
import SpectrumOffchain.ChainSync.Pruning
import SpectrumOffchain.ChainSync.Refinement
import SpectrumOffchain.Lib.Table
import SpectrumOffchain.Lib.ChangeLog
import SpectrumOffchain.Backlog.Service
import SpectrumOffchain.Backlog.Queues
import SpectrumOffchain.Backlog.Uniqueness
import SpectrumOffchain.Backlog.Elimination
import SpectrumOffchain.Lib.Links
import SpectrumOffchain.Resolver.EntityRepo
import SpectrumOffchain.Resolver.Confirmed
import SpectrumOffchain.Resolver.Resolve
import SpectrumOffchain.Resolver.BundleRepo
import SpectrumOffchain.Resolver.Chained
import SpectrumOffchain.Executor.Invalidation
import SpectrumOffchain.Executor.TryExecute
import SpectrumOffchain.Executor.Custody
import SpectrumOffchain.Mempool.Sync
import SpectrumOffchain.Lib.Indexed
import SpectrumOffchain.Funding.Repo
import SpectrumOffchain.EventSink.Events
import SpectrumOffchain.EventSink.Orders
import SpectrumOffchain.EventSink.Funding
import SpectrumOffchain.EventSink.Rollback
import SpectrumOffchain.Lib.Updates
import SpectrumOffchain.EventSink.Ledger
import SpectrumOffchain.EventSink.Bundles
import SpectrumOffchain.EventSink.Intake
import SpectrumOffchain.Resolver.EpochIndex
import SpectrumOffchain.Scheduler.Repo
import SpectrumOffchain.Scheduler.Distribution
import SpectrumOffchain.EventSink.Entities
import SpectrumOffchain.Scheduler.Heights
import SpectrumOffchain.Scheduler.Boxes
import SpectrumOffchain.EventSink.OrderForms
import SpectrumOffchain.Resolver.Stored
import SpectrumOffchain.Execution.Reencoding
import SpectrumOffchain.EventSink.BundleEpochs
import SpectrumOffchain.Executor.MissingInputs
import SpectrumOffchain.Lib.Text
import SpectrumOffchain.Executor.NodeErrors
import SpectrumOffchain.Lib.Reaching
import SpectrumOffchain.Funding.Collect
import SpectrumOffchain.Scheduler.Peek
import SpectrumOffchain.Lib.Draining
import SpectrumOffchain.Backlog.Popping
import SpectrumOffchain.Backlog.Revisiting
import SpectrumOffchain.Backlog.Expiry
import SpectrumOffchain.ChainSync.Tip
import SpectrumOffchain.EventSink.OrderAge
import SpectrumOffchain.Lib.Window
import SpectrumOffchain.Mempool.Departures
import SpectrumOffchain.Lib.Bincode
import SpectrumOffchain.Lib.Database
import SpectrumOffchain.Binary
import SpectrumOffchain.Scheduler.Keys
import SpectrumOffchain.Resolver.BundleKeys
import SpectrumOffchain.Resolver.BundleStorage
import SpectrumOffchain.Scheduler.Storage
import SpectrumOffchain.Staking.Stakes
import SpectrumOffchain.Resolver.EntityStorage
import SpectrumOffchain.Lib.Chunks
import SpectrumOffchain.Backlog.Contents
import SpectrumOffchain.Scheduler.Rounds
import SpectrumOffchain.EventSink.Following
import SpectrumOffchain.Executor.Chain
import SpectrumOffchain.Funding.Storage
import SpectrumOffchain.Backlog.Restart
import SpectrumOffchain.Resolver.Lines
import SpectrumOffchain.Executor.Generic
import SpectrumOffchain.Lib.Coupled
import SpectrumOffchain.Lib.Hex
import SpectrumOffchain.ChainSync.Storage
