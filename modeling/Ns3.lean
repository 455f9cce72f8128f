import Ns3.Lib.StdMap
import Ns3.Lib.Buckets
import Ns3.Lib.Newest
import Ns3.Lib.Snapshot
import Ns3.Lib.Ieee754
import Ns3.Lib.Wire
import Ns3.Lib.Fold
import Ns3.Lib.Run
import Ns3.Lib.While
import Ns3.Lib.FixedPoint
import Ns3.Core.Int64x64
import Ns3.Core.Int64x64Product
import Ns3.Core.Int64x64Quotient
import Ns3.Core.Int64x64Inverse
import Ns3.Ferry2.NodeId
import Ns3.Ferry2.Header
import Ns3.Ferry2.HeaderRoundTrip
import Ns3.Ferry2.IdCache
import Ns3.Ferry2.DuplicateRuns
import Ns3.Ferry2.Dtn
import Ns3.Ferry2.DtnSpec
import Ns3.Ferry2.ShelterBroadcast
import Ns3.Ferry2.Exchange
import Ns3.Ferry2.RequestWindow
import Ns3.Ferry2.AntiEntropy
import Ns3.Ferry.Patrol
import Ns3.Ferry.Hello
import Ns3.Ferry.HelloSpec
import Ns3.Ferry.CheckHello
import Ns3.Ferry.Reply
import Ns3.Ferry.Conflict
import Ns3.Ferry2.PatrolIndex
import Ns3.Ferry2.RoadMap
import Ns3.Ferry2.RouteSearch
import Ns3.Ferry2.Movement
import Ns3.Ferry2.MovementSpec
import Ns3.Ferry2.Evacuation
import Ns3.Ferry2.ActiveUsers
import Ns3.Ferry2.Capacity
import Ns3.Ferry2.ClosedRoads
import Ns3.Ferry2.MovingUsers
import Ns3.Ferry2.Blockage
import Ns3.Lib.Loops
import Ns3.SimpleAodv.Protocol
import Ns3.SimpleAodv.LoopFree
import Ns3.Aodv.Packet
import Ns3.Aodv.RequestQueue
import Ns3.Aodv.QueueLaw
import Ns3.Lib.Triple
import Ns3.Aodv.Table
import Ns3.Aodv.Protocol
import Ns3.Aodv.NodeSpec
import Ns3.Aodv.Network
import Ns3.Aodv.SeqNo
import Ns3.Aodv.NeighborRoute
import Ns3.Aodv.LinkBreak
import Ns3.Aodv.ReverseRoute
import Ns3.Aodv.RoutingLoop
import Ns3.Aodv.Retries
import Ns3.Network.SequenceNumber
import Ns3.Network.SequenceLaws
import Ns3.Network.Packet
import Ns3.Internet.TcpRxBuffer
import Ns3.Internet.TcpTxBuffer
import Ns3.Internet.NextSeg
import Ns3.Internet.SackCache
import Ns3.Internet.LostMarks
import Ns3.Lib.Intervals
import Ns3.Internet.RxStream
import Ns3.Internet.RxDelivery
import Ns3.Internet.SackList
import Ns3.Internet.SackReports
import Ns3.Olsr.State
import Ns3.Olsr.Freshness
import Ns3.Olsr.Neighbors
import Ns3.Olsr.Mpr
import Ns3.Olsr.MprCoverage
import Ns3.Olsr.MprChoice
import Ns3.Olsr.RoutingTable
import Ns3.Olsr.ShortestRoutes
import Ns3.Olsr.HostNetworks
import Ns3.Lib.PriorityQueue
import Ns3.Lib.BinaryHeap
import Ns3.Core.Scheduler
import Ns3.Core.HeapScheduler
import Ns3.Core.HeapSpec
import Ns3.Core.HeapRuns
import Ns3.Core.CalendarScheduler
import Ns3.Core.CalendarContent
import Ns3.Core.CalendarSearch
import Ns3.Core.CalendarRuns
import Ns3.Core.Simulator
import Ns3.Core.EventOrder
import Ns3.Core.Execution
import Ns3.Wifi.BlockAckWindow
import Ns3.Wifi.OriginatorBlockAckAgreement
import Ns3.Wifi.RecipientBlockAckAgreement
import Ns3.Wifi.Reordering
import Ns3.Wifi.TransmitWindow
import Ns3.Lib.SharedList
import Ns3.Network.PacketTagList
import Ns3.Network.PacketTagSpec
import Ns3.Lib.SharedEdits
import Ns3.Internet.Reassembly
import Ns3.Lib.Slice
import Ns3.Network.Buffer
import Ns3.Network.BufferSpec
import Ns3.Network.BufferContent
import Ns3.Network.BufferAppend
import Ns3.Network.BufferRuns
import Ns3.Lib.ShortestPath
import Ns3.Ferry2.RouteSearchSpec
import Ns3.Ferry2.ShelterChoice
import Ns3.Ferry2.ShelterForecast
import Ns3.Ferry2.HopTimers
import Ns3.Ferry2.IncreaseRate
import Ns3.Ferry2.PrecalculationSpec
import Ns3.Ferry2.PatrolRoute
import Ns3.Ferry2.NearestTour
import Ns3.Ferry2.PrecalculatedRoute
import Ns3.Ferry2.RestoredRoads
import Ns3.Ferry2.RoadImport
import Ns3.Ferry2.RoadGraph
import Ns3.Ferry2.RoadSegments
import Ns3.Lib.Explore
import Ns3.Ferry2.RoadPruning
import Ns3.Ferry2.LargestComponent
import Ns3.Ferry2.PrunedRoads
import Ns3.Lib.Words
import Ns3.Lib.Parser
import Ns3.Lib.UnorderedSet
import Ns3.Ferry2.DataKey
import Ns3.Network.NixVector
import Ns3.Network.NixRoundTrip
import Ns3.Internet.Ipv4AddressGenerator
import Ns3.Internet.AllocatedRanges
import Ns3.Internet.Ipv4StaticRouting
import Ns3.Internet.StaticLookup
import Ns3.Olsr.Messages
import Ns3.Olsr.MessageRoundTrip
import Ns3.Olsr.MessageBounds
import Ns3.Olsr.PacketBounds
import Ns3.Internet.FragmentsTimeout
import Ns3.Internet.ReassemblyTimeout
import Ns3.Internet.GlobalRouteManager
import Ns3.Internet.NextLink
import Ns3.Lib.Pieces
import Ns3.Network.ByteTagRuns
import Ns3.Lte.RlcLink
import Ns3.Lte.RlcReordering
import Ns3.Internet.TcpPath
import Ns3.Olsr.Flooding
