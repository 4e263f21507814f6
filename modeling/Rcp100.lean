import Rcp100.BitPrefix
import Rcp100.IpAddress
import Rcp100.RouteEntry
import Rcp100.PatriciaTree
import Rcp100.RouteTable
import Rcp100.RouteCycle
import Rcp100.TableCycle
import Rcp100.LongestMatch
import Rcp100.LsaFormat
import Rcp100.LsUpdate
import Rcp100.LsdbFreshness
import Rcp100.Replicas
import Rcp100.LsdbConvergence
import Rcp100.LsaBounds
import Rcp100.ListPass
import Rcp100.LsaAging
import Rcp100.Origination
import Rcp100.RankedElection
import Rcp100.DrElection
import Rcp100.Flooding
import Rcp100.Retransmission
import Rcp100.Requests
import Rcp100.Exchange
import Rcp100.ExchangeLoss
import Rcp100.BufferScan
import Rcp100.PacketBounds
import Rcp100.WeightedPaths
import Rcp100.Spf
import Rcp100.Predecessors
import Rcp100.NeighborLists
import Rcp100.NextHop
import Rcp100.FirstHops
import Rcp100.InterArea
import Rcp100.SpfTimers
import Rcp100.ForwardingTable
import Rcp100.KernelRoutes
import Rcp100.RipDb
import Rcp100.RipInvariant
import Rcp100.RipKernel
import Rcp100.DistanceVector
import Rcp100.RipResponse
import Rcp100.RipConsistency
import Rcp100.Smem
import Rcp100.KeyedRewrite
import Rcp100.OwnedList
import Rcp100.Redistribution
import Rcp100.SummaryUpdate
import Rcp100.ByteBuffer
import Rcp100.RipPacket
import Rcp100.RipReplay
import Rcp100.WordTrie
import Rcp100.CliParser
import Rcp100.SpecialTokens
import Rcp100.LiteralLookup
import Rcp100.ChainTable
import Rcp100.LeaseTables
import Rcp100.FaultRuns
import Rcp100.DhcpServer
import Rcp100.StaticAddresses
import Rcp100.LeaseFile
import Rcp100.DnsPacket
import Rcp100.DnsRequests
import Rcp100.DnsCache
import Rcp100.DnsMessages
import Rcp100.DnsProxy
import Rcp100.PointerList
import Rcp100.LsaLists
import Rcp100.CachedAnswers
import Rcp100.PrintedNumbers
import Rcp100.AccessLists
import Rcp100.AclWords
import Rcp100.AclReading
import Rcp100.AclTable
import Rcp100.AclEntries
import Rcp100.AclConfig
import Rcp100.AclReload
import Rcp100.PacketFilter
import Rcp100.Netfilter
import Rcp100.NetfilterRules
import Rcp100.NetfilterVerdict
import Rcp100.KeyedMirror
import Rcp100.StaticRoutes
import Rcp100.StaticKernel
import Rcp100.CutStream
import Rcp100.SlotTickets
import Rcp100.Mux
import Rcp100.MuxStream
import Rcp100.MuxReplies
import Rcp100.Incarnation
import Rcp100.TypedRoutes
import Rcp100.PathPreference
import Rcp100.DrRoles
import Rcp100.UpdatePackets
import Rcp100.RequestAnswers
import Rcp100.StubExternals
import Rcp100.SummaryMetrics
import Rcp100.StubSummaries
import Rcp100.RouteSources
import Rcp100.StepRuns
import Rcp100.RouterLsa
import Rcp100.AsbrFlag
import Rcp100.RipWithdrawals
import Rcp100.RipMoments
import Rcp100.RipActs
import Rcp100.PairNotices
import Rcp100.RipRedistribution
import Rcp100.RunningSums
import Rcp100.LsaChecksum
import Rcp100.PacketAuth
import Rcp100.RipEntries
import Rcp100.RipTimers
import Rcp100.SmemCapacity
import Rcp100.NumberTokens
import Rcp100.AdjacencyLimit
import Rcp100.NetworkLsas
import Rcp100.StubLinks
import Rcp100.MaskToken
import Rcp100.InterfaceMatch
import Rcp100.LeaseExpiry
import Rcp100.RangeScan
import Rcp100.OfferNetworks
import Rcp100.DeclinedLeases
import Rcp100.TlvLists
import Rcp100.DhcpOptions
import Rcp100.RelayOption
import Rcp100.AnswerQueue
import Rcp100.OfferQueue
import Rcp100.RelayBalancing
import Rcp100.OnesComplement
import Rcp100.RawPacket
import Rcp100.StaticHosts
import Rcp100.DomainNames
import Rcp100.ReplyRoundTrip
import Rcp100.CnameLifetimes
import Rcp100.CacheAging
import Rcp100.EntryLifetimes
import Rcp100.MacToken
import Rcp100.AddressTokens
import Rcp100.NamedSlots
import Rcp100.StaticAnnouncements
import Rcp100.CommandLine
import Rcp100.ModeRestore
import Rcp100.OptionalGroups
import Rcp100.BlankWords
import Rcp100.CmdParser
import Rcp100.LineEditor
import Rcp100.Gets
