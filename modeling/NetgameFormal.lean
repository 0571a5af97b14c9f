import NetgameFormal.FramingRuns
import NetgameFormal.GateSimulation
import NetgameFormal.GateTable
import NetgameFormal.GateEquivalence
import NetgameFormal.GateFrames
import NetgameFormal.GateRoles
import NetgameFormal.GateHistory
import NetgameFormal.Reassembly
import NetgameFormal.QueueRuns
import NetgameFormal.SendStream
import NetgameFormal.TeardownReport
import NetgameFormal.Descriptors
import NetgameFormal.GateIsolation
import NetgameFormal.LprotoRoundTrip
import NetgameFormal.LprotoHostile
import NetgameFormal.ConsoleClient
import NetgameFormal.LuaSocket
import NetgameFormal.SocketRegistry
import NetgameFormal.BufferReleases
import NetgameFormal.PingReply
import NetgameFormal.ServerFrames
import NetgameFormal.LprotoInit
import NetgameFormal.ClientDeframer
import NetgameFormal.HashidProbe
import NetgameFormal.HashidRuns
import NetgameFormal.PoolRuns
import NetgameFormal.HashmapRuns
import NetgameFormal.PackedRelay
import NetgameFormal.Downlink
import NetgameFormal.ConsoleInput
import NetgameFormal.Md5Crypt
import NetgameFormal.Network
import NetgameFormal.DuplexStream
import NetgameFormal.NetworkAnswers
