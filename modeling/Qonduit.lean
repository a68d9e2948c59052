import Qonduit.Core.Canonical
import Qonduit.Core.EpochIntervals
import Qonduit.Core.JsonRecords
import Qonduit.Storage.ReverseScans
import Qonduit.Storage.LimitedScans
import Qonduit.Storage.PutCalls
import Qonduit.Storage.HotRuns
import Qonduit.Processor.Replay
import Qonduit.Processor.Duplicates
import Qonduit.Processor.EventListing
import Qonduit.Processor.Confluence
import Qonduit.Processor.EpochTransitions
import Qonduit.Processor.MessageListing
import Qonduit.Processor.ExportCounts
import Qonduit.Processor.WellKeyed
import Qonduit.Processor.Lookups
import Qonduit.Processor.Redelivered
import Qonduit.Processor.CatchUp
import Qonduit.Query.CurrentTick
import Qonduit.Query.Listings
import Qonduit.Query.Retrieval
import Qonduit.Query.TickFields
import Qonduit.Query.History
import Qonduit.Query.HistoryTotal
import Qonduit.Query.NumericParams
import Qonduit.Query.Assets
import Qonduit.Query.Lookups
import Qonduit.Query.Search
import Qonduit.Query.Dispatch
import Qonduit.Ingestion.Headers
import Qonduit.Ingestion.Requests
import Qonduit.Ingestion.LogEvents
import Qonduit.Ingestion.Quorums
import Qonduit.Ingestion.Client
import Qonduit.Ingestion.PendingEntities
import Qonduit.Ingestion.Records
import Qonduit.Ingestion.Totality
import Qonduit.Ingestion.TickDates
import Qonduit.Ingestion.TxStatus
import Qonduit.Ingestion.StalePeers
import Qonduit.Ingestion.KnownPeers
import Qonduit.Ingestion.Failover
import Qonduit.Backfill.Cursor
import Qonduit.Backfill.Partition
import Qonduit.Backfill.Worker
import Qonduit.Backfill.Transactions
import Qonduit.Backfill.IndexedTick
import Qonduit.Backfill.Run
import Qonduit.Ingestion.Streams
import Qonduit.Ingestion.Publish
import Qonduit.Pipeline.Routing
import Qonduit.Pipeline.Mirror
import Qonduit.Pipeline.Broadcasts
import Qonduit.Pipeline.QuorumVotes
import Qonduit.Pipeline.Subscribers
