import AqEngine.Insights.CancelFill
import AqEngine.Insights.ExitAccounting
import AqEngine.Broker.Capacity
import AqEngine.LiveSync.RoundTrip
import AqEngine.Journal.Epochs
import AqEngine.LiveSync.EvidenceTransfer
import AqEngine.Insights.OrderRoutes
import AqEngine.Insights.Receipts
import AqEngine.Pipeline.Saving
import AqEngine.Broker.SnapshotFencing
import AqEngine.Journal.Transactions
import AqEngine.Outbox.PauseFences
import AqEngine.Outbox.SendOrder
import AqEngine.Journal.FillOwners
import AqEngine.Journal.FillExportRuns
import AqEngine.Journal.CloudHistoryRuns
import AqEngine.Paper.Lifecycle
import AqEngine.Paper.Economics
import AqEngine.Paper.Closes
import AqEngine.Pipeline.SnapshotDependencies
import AqEngine.Broker.LaneQueue
import AqEngine.Insights.QuantityVisit
import AqEngine.Indicators.Engine
import AqEngine.Mt5.Locks
import AqEngine.Mt5.OrderCache
import AqEngine.Utils.Timeframe
