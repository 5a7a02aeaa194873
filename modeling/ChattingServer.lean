import ChattingServer.Lib.Except
import ChattingServer.Lib.BoundedWriter
import ChattingServer.Lib.Framing
import ChattingServer.Lib.LittleEndian
import ChattingServer.Lib.StdMap
import ChattingServer.Lib.Counter
import ChattingServer.Lib.Transition
import ChattingServer.Lib.Receiver
import ChattingServer.Lib.Queue
import ChattingServer.Lib.Istream
import ChattingServer.Lib.Loop
import ChattingServer.Lib.Alternation
import ChattingServer.Lib.Memory
import ChattingServer.Lib.Chunks
import ChattingServer.Lib.DoubleByte
import ChattingServer.V10.Server.UserInfo
import ChattingServer.V10.Server.ClientManager
import ChattingServer.V10.Server.SlotPool
import ChattingServer.V10.Server.Admission
import ChattingServer.V10.Server.PacketManager
import ChattingServer.V10.Server.Requests
import ChattingServer.V10.Server.Multicast
import ChattingServer.V10.Server.Effects
import ChattingServer.V10.Server.FindNickname
import ChattingServer.V10.Server.NicknameRegistry
import ChattingServer.V10.Server.SlotReuse
import ChattingServer.V10.Server.Occupancy
import ChattingServer.V10.Server.CrossDelivery
import ChattingServer.V10.Server.ServerExit
import ChattingServer.V10.Server.StaleBytes
import ChattingServer.V10.Server.Announcements
import ChattingServer.V10.Server.Watch
import ChattingServer.V10.Server.RoomNotices
import ChattingServer.V10.Server.PoolThreads
import ChattingServer.V10.Server.PoolCounting
import ChattingServer.V10.Client.Position
import ChattingServer.V10.Client.Packet
import ChattingServer.V10.Client.Receive
import ChattingServer.V10.Client.Messages
import ChattingServer.V10.Client.Splitting
import ChattingServer.V10.Client.Characters
import ChattingServer.V10.Client.Fields
import ChattingServer.V10.StressServer.CsvParser
import ChattingServer.V10.StressServer.ClientInfo
import ChattingServer.V11.Client.Display
import ChattingServer.V11.Client.Client
import ChattingServer.V11.Client.View
import ChattingServer.V11.NetworkLib.Stream
import ChattingServer.V11.NetworkLib.Packet
import ChattingServer.V11.NetworkLib.PacketFactory
import ChattingServer.V11.NetworkLib.IoData
import ChattingServer.V11.Codec.Overflow
import ChattingServer.V11.Codec.RoundTrip
import ChattingServer.V11.Codec.Framing
import ChattingServer.V11.Codec.Bounds
import ChattingServer.V11.Codec.Grammar
import ChattingServer.V11.Server.State
import ChattingServer.V11.Server.Logic
import ChattingServer.V11.Server.Registry
import ChattingServer.V11.Server.RoomRegistry
import ChattingServer.V11.Server.Commute
import ChattingServer.V11.Server.Membership
import ChattingServer.V11.Server.UserRegistry
import ChattingServer.V11.Server.NullSafety
import ChattingServer.V11.Server.Outgoing
import ChattingServer.V11.Server.Threads
import ChattingServer.V11.Server.SocketClose
import ChattingServer.V11.Server.SessionSafety
import ChattingServer.V11.Client.Whisper
import ChattingServer.V11.Server.LobbySet
import ChattingServer.V11.Server.Pipeline
import ChattingServer.V11.Server.Delivery
import ChattingServer.V11.Server.Accepting
import ChattingServer.V11.Server.Shutdown
import ChattingServer.V11.Chat.System
import ChattingServer.V11.Chat.Events
import ChattingServer.V11.Chat.Link
import ChattingServer.V11.Chat.Location
import ChattingServer.V11.Chat.Casts
import ChattingServer.V11.Chat.Roster
import ChattingServer.V11.Chat.Selection
import ChattingServer.V11.Client.RoomList
import ChattingServer.V11.Server.Rooms
import ChattingServer.V11.Chat.Arrival
import ChattingServer.V11.Chat.Settling
import ChattingServer.V11.Server.Voices
import ChattingServer.V11.Chat.Authenticity
import ChattingServer.V11.Chat.Ledger
import ChattingServer.Lib.Refinement
import ChattingServer.Service.Service
import ChattingServer.V11.Chat.Service
import ChattingServer.Service.Agreement
import ChattingServer.V11.Chat.Agreement
import ChattingServer.Lib.Noninterference
import ChattingServer.V11.Server.Privacy
import ChattingServer.V10.Server.Relay
import ChattingServer.V10.Chat.Relay
import ChattingServer.V10.Chat.Location
import ChattingServer.V11.Chat.Wire
import ChattingServer.Lib.Progress
import ChattingServer.V10.Server.Shutdown
import ChattingServer.V11.Client.Closing
