import Zepto.Sql.ResultCache
import Zepto.Server.NonInterference
import Zepto.Cluster.Handover
import Zepto.Cluster.RingAgreement
import Zepto.Cluster.Failover
import Zepto.Storage.SnapshotCrash
import Zepto.Ingestion.Delivery
import Zepto.Cluster.MigrationOnce
import Zepto.Ingestion.StoredRows
import Zepto.Sql.InsertAtomic
import Zepto.Catalog.RoundTrip
import Zepto.Catalog.Shown
import Zepto.Storage.FlushRetains
import Zepto.Ai.CacheIsolation
import Zepto.Ai.AnnRebuild
import Zepto.Ai.SnapshotAtomic
import Zepto.Cluster.SyncReplication
import Zepto.Sql.IndexFresh
import Zepto.Sql.SelectRows
import Zepto.Feeds.TelegrafInsert
import Zepto.Auth.JsonClaimsRead
import Zepto.Cluster.RpcAgreement
import Zepto.Ai.MemoryRouter
import Zepto.Ai.ReplicaLog
import Zepto.Sql.GroupPaths
import Zepto.Sql.RowForms
import Zepto.Sql.RowTests
import Zepto.Execution.SlidingExtrema
import Zepto.Execution.SlidingSums
import Zepto.Auth.Tenants
import Zepto.Cluster.RingProposals
import Zepto.Sql.AsofTables
import Zepto.Storage.TimeRange
import Zepto.Auth.Base64Url
import Zepto.Storage.Arena
