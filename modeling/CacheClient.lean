import CacheClient.Text.Utf8
import CacheClient.Decimal
import CacheClient.Key
import CacheClient.Flags
import CacheClient.Config
import CacheClient.Lz4
import CacheClient.Object.Layout
import CacheClient.Codec
import CacheClient.TokenRegistry
import CacheClient.Network
import CacheClient.Network.Recorded
import CacheClient.Server
import CacheClient.Connection
import CacheClient.Client
import CacheClient.Cluster
import CacheClient.Proofs.Utf8
import CacheClient.Proofs.Key
import CacheClient.Proofs.Decimal
import CacheClient.Proofs.Decimal.Blanks
import CacheClient.Proofs.Lz4.Search
import CacheClient.Proofs.Object
import CacheClient.Proofs.Codec
import CacheClient.Proofs.Codec.Packing
import CacheClient.Proofs.Codec.Numbers
import CacheClient.Proofs.Codec.Objects
import CacheClient.Proofs.Cache
import CacheClient.Proofs.Cache.Counters
import CacheClient.Proofs.Cache.Eviction
import CacheClient.Proofs.Cache.Writes
import CacheClient.Proofs.Cache.Connections
import CacheClient.Proofs.Cache.Figures
import CacheClient.Proofs.Cache.Frame
import CacheClient.Proofs.Cache.Mirrors
import CacheClient.Proofs.Server.History
import CacheClient.Proofs.Server.Tokens
import CacheClient.Proofs.Server.Absence
import CacheClient.Proofs.Server.Expiry
import CacheClient.Proofs.Server.Sessions
import CacheClient.Proofs.Server.Statistics
import CacheClient.Proofs.Connection.Calls
import CacheClient.Proofs.Connection.Lifecycle
import CacheClient.Proofs.Connection.Sessions
import CacheClient.Proofs.Connection.Availability
import CacheClient.Proofs.Connection.Sharing
import CacheClient.Proofs.Operation.Arguments
import CacheClient.Proofs.Operation.Responses
import CacheClient.Proofs.Client.Calls
import CacheClient.Proofs.Client.Sending
import CacheClient.Proofs.Client.Failures
import CacheClient.Proofs.Client.Misses
import CacheClient.Proofs.Client
import CacheClient.Proofs.Client.Notices
import CacheClient.Proofs.Client.Tokens
import CacheClient.Proofs.Client.Commands
import CacheClient.Proofs.Client.Availability
import CacheClient.Proofs.Client.Mirrors
import CacheClient.Proofs.Client.Batches
import CacheClient.Proofs.Network.Recorded
import CacheClient.Proofs.Cluster.Updates
import CacheClient.Proofs.Cluster.ReadModifyWrite
import CacheClient.Proofs.Cluster.History
import CacheClient.Proofs.Cluster.ReadBack
import CacheClient.Proofs.Cluster.Joining
import CacheClient.Proofs.Cluster.Readable
import CacheClient.Proofs.Cluster.Availability
import CacheClient.Proofs.Cluster.Isolation
import CacheClient.Proofs.Cluster.Counting
