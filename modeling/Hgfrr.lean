import Hgfrr.Foundation.Arrange
import Hgfrr.Foundation.AssocMap
import Hgfrr.Foundation.Cascade
import Hgfrr.Foundation.Counting
import Hgfrr.Foundation.Datagrams
import Hgfrr.Foundation.Decimal
import Hgfrr.Foundation.Dyadic
import Hgfrr.Foundation.Effects
import Hgfrr.Foundation.Emission
import Hgfrr.Foundation.Framing
import Hgfrr.Foundation.Handling
import Hgfrr.Foundation.Issuing
import Hgfrr.Foundation.Keccak
import Hgfrr.Foundation.Lanes
import Hgfrr.Foundation.Lines
import Hgfrr.Foundation.Mail
import Hgfrr.Foundation.MixedRadix
import Hgfrr.Foundation.PowerTree
import Hgfrr.Foundation.Results
import Hgfrr.Foundation.Rijndael
import Hgfrr.Foundation.Segments
import Hgfrr.Foundation.SortedBy
import Hgfrr.Overlay.Basic
import Hgfrr.Overlay.Ring
import Hgfrr.Overlay.Hierarchy
import Hgfrr.Overlay.Reach
import Hgfrr.Overlay.Once
import Hgfrr.Overlay.Termination
import Hgfrr.Overlay.SpanningTree
import Hgfrr.Overlay.FanOut
import Hgfrr.Overlay.Regions
import Hgfrr.Overlay.RegionRings
import Hgfrr.Overlay.Disagreement
import Hgfrr.Model.Text
import Hgfrr.Model.NodeTable
import Hgfrr.Model.Message
import Hgfrr.Model.PeerManager
import Hgfrr.Model.PeerManagerEth
import Hgfrr.Model.Utils
import Hgfrr.Model.App
import Hgfrr.Model.Evaluation
import Hgfrr.Model.AppEth
import Hgfrr.Model.EvalTables
import Hgfrr.Model.LogUpload
import Hgfrr.Model.NodeObjects
import Hgfrr.Model.Discovery
import Hgfrr.Model.ObjectTables
import Hgfrr.Model.Bytes
import Hgfrr.Model.Kademlia
import Hgfrr.Model.KademliaProtocol
import Hgfrr.Model.FrameCipher
import Hgfrr.Model.Multiplexer
import Hgfrr.Model.MuxSession
import Hgfrr.Model.Peer
import Hgfrr.Topology.IdNumbers
import Hgfrr.Topology.IdOrder
import Hgfrr.Topology.Texts
import Hgfrr.Topology.Shape
import Hgfrr.Topology.Tables
import Hgfrr.Topology.Formation
import Hgfrr.Topology.FormStructure
import Hgfrr.Topology.Representation
import Hgfrr.Topology.RingSizes
import Hgfrr.Topology.Agreement
import Hgfrr.Topology.ClientTables
import Hgfrr.Topology.ListedNodes
import Hgfrr.Topology.TwoBuilders
import Hgfrr.Topology.BottomRing
import Hgfrr.Topology.ContactStatus
import Hgfrr.Topology.Enumeration
import Hgfrr.Topology.RoutingTable
import Hgfrr.Protocol.RingPass
import Hgfrr.Protocol.Network
import Hgfrr.Protocol.Refinement
import Hgfrr.Protocol.Broadcast
import Hgfrr.Protocol.InRing
import Hgfrr.Protocol.FanOut
import Hgfrr.Protocol.Payload
import Hgfrr.Protocol.Hierarchy
import Hgfrr.Protocol.EndToEnd
import Hgfrr.Protocol.RingStarts
import Hgfrr.Protocol.Election
import Hgfrr.Protocol.BroadcastIds
import Hgfrr.Protocol.ContactDraw
import Hgfrr.Protocol.HopSelection
import Hgfrr.Protocol.HopDelay
import Hgfrr.Protocol.Safety
import Hgfrr.Protocol.SelfDelivery
import Hgfrr.Wire.Scanner
import Hgfrr.Wire.RoundTrip
import Hgfrr.Wire.RoundTripEth
import Hgfrr.Wire.Integrity
import Hgfrr.Wire.IntegrityEth
import Hgfrr.Wire.MessageLog
import Hgfrr.Wire.LogRecords
import Hgfrr.Wire.Parsing
import Hgfrr.Gossip.Network
import Hgfrr.Gossip.Steps
import Hgfrr.Gossip.Honest
import Hgfrr.Gossip.Push
import Hgfrr.Gossip.Pull
import Hgfrr.Gossip.FanOuts
import Hgfrr.Gossip.Quiescence
import Hgfrr.Evaluation.NodeLists
import Hgfrr.Evaluation.Paging
import Hgfrr.Evaluation.LogUpload
import Hgfrr.Evaluation.Pointers
import Hgfrr.Objects.Erasure
import Hgfrr.Objects.Making
import Hgfrr.Objects.Sharing
import Hgfrr.Objects.NodeQueries
import Hgfrr.Objects.Copies
import Hgfrr.Objects.ClientObjects
import Hgfrr.Objects.Queries
import Hgfrr.Objects.Discovery
import Hgfrr.Kademlia.Buckets
import Hgfrr.Kademlia.Depth
import Hgfrr.Kademlia.Table
import Hgfrr.Kademlia.Adding
import Hgfrr.Kademlia.Recency
import Hgfrr.Kademlia.Neighbours
import Hgfrr.Kademlia.Changes
import Hgfrr.Kademlia.Handlers
import Hgfrr.Kademlia.Runs
import Hgfrr.Kademlia.Eviction
import Hgfrr.Kademlia.Lookups
import Hgfrr.Multiplexer.ShortRlp
import Hgfrr.Multiplexer.Chunks
import Hgfrr.Multiplexer.Packets
import Hgfrr.Multiplexer.Turns
import Hgfrr.Multiplexer.Rounds
import Hgfrr.Multiplexer.Progress
import Hgfrr.Multiplexer.Stalls
import Hgfrr.Multiplexer.Decoding
import Hgfrr.Multiplexer.Ciphers
import Hgfrr.Multiplexer.FrameBytes
import Hgfrr.Multiplexer.Link
import Hgfrr.Multiplexer.Delivery
import Hgfrr.Multiplexer.Interleavings
import Hgfrr.Multiplexer.Sessions
import Hgfrr.Multiplexer.Dispatch
import Hgfrr.Multiplexer.Connections
