import Chats.Lib.Tree
import Chats.Common.AvlShape
import Chats.Common.AvlBalance
import Chats.Lib.Run
import Chats.Common.AvlHeap
import Chats.Common.AvlRuns
import Chats.Common.AvlParents
import Chats.Common.LinkedList
import Chats.Lib.Links
import Chats.Lib.Live
import Chats.Lib.Lossless
import Chats.Common.LinkedListSpec
import Chats.Common.LinkedListRuns
import Chats.P2p.Crc16
import Chats.P2p.Protocol
import Chats.Common.HashFunctions
import Chats.Common.HashMap
import Chats.P2p.Server.DaoCache
import Chats.P2p.Server.DaoCacheCalls
import Chats.P2p.Server.DaoCacheRuns
import Chats.P2p.Server.DaoCacheLookups
import Chats.IoService.IoService
import Chats.Network.Transfer
import Chats.IoService.LookupTable
import Chats.Lib.Slots
import Chats.Network.Requests
import Chats.Network.RequestRuns
import Chats.Lib.Since
import Chats.IoService.Interleaving
import Chats.IoService.Dispatches
import Chats.IoService.InterestSet
import Chats.IoService.Stopping
import Chats.Network.Draining
import Chats.Lib.Lifetime
import Chats.Network.Operators
import Chats.Lib.Fifo
import Chats.ThreadPool.ThreadPool
import Chats.ThreadPool.ThreadPoolRuns
import Chats.P2p.Server.DaoCacheIds
import Chats.P2p.Server.DaoCacheRemovals
import Chats.Lib.Stream
import Chats.P2p.PacketFormat
import Chats.P2p.PacketStream
import Chats.P2p.PacketDelivery
import Chats.Timer.Timer
import Chats.Timer.TimerRuns
import Chats.Timer.Expiries
import Chats.Timer.Blocking
import Chats.Lib.Held
import Chats.Lib.Descriptors
import Chats.Network.Objects
import Chats.Network.Client
import Chats.Network.OneToMany
import Chats.Network.OneToOne
import Chats.Network.LockDepth
import Chats.Network.Serving
import Chats.Network.OneToManyRuns
import Chats.Network.OneToOneRuns
import Chats.Network.ClientRuns
import Chats.Lib.Register
import Chats.P2p.CrcBits
import Chats.P2p.CrcErrors
import Chats.Common.HashLanes
import Chats.Common.HashMapRuns
import Chats.Common.Buffer
import Chats.P2p.Server.DaoList
import Chats.Lib.SqlTokens
import Chats.P2p.Server.DaoSql
import Chats.Lib.Zipper
import Chats.Common.AvlWalk
import Chats.Common.AvlLinks
import Chats.Common.AvlLinksWalk
import Chats.Network.Sending
import Chats.Network.Receiving
import Chats.Network.Connecting
import Chats.Network.Setup
import Chats.Network.Delivery
import Chats.Network.Datagrams
import Chats.Network.UdpClient
import Chats.P2p.Server.DaoCacheRefusals
import Chats.P2p.Server.DaoCacheHandles
import Chats.P2p.Server.DaoCacheWalk
import Chats.IoService.Sweep
import Chats.Common.Queues
import Chats.Common.AvlDeinit
import Chats.Lib.Budget
import Chats.Common.AvlDepth
import Chats.Lib.Ranking
import Chats.ThreadPool.Shutdown
import Chats.Common.LinkedListDeinit
import Chats.Common.HashMapDeinit
import Chats.P2p.Server.DaoCacheDeinit
import Chats.P2p.HeaderDamage
import Chats.P2p.CrcSuffix
