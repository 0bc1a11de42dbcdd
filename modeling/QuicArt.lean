import QuicArt.Purga
import QuicArt.BufferedCount
import QuicArt.ArtTurns
import QuicArt.Feedback
import QuicArt.InFlight
import QuicArt.Prediction
import QuicArt.FinReport
import QuicArt.Accounting
import QuicArt.FrameRelease
import QuicArt.SendErrors
import QuicArt.SendProgress
import QuicArt.HqTruncation
import QuicArt.PacketNumber
import QuicArt.MiniAmplification
import QuicArt.CryptoDelivery
import QuicArt.DatagramAccounting
import QuicArt.DcidRouting
import QuicArt.LostSelection
import QuicArt.AckObligation
import QuicArt.Http1xLines
import QuicArt.AckParse
import QuicArt.InitialCheck
import QuicArt.Redundancy
import QuicArt.CongestionEvent
import QuicArt.AlarmSet
import QuicArt.PacketRoom
import QuicArt.MiniReadiness
import QuicArt.StreamPrioOrder
import QuicArt.MtuSearch
import QuicArt.MinMax
import QuicArt.StockShi
import QuicArt.PacketRequests
import QuicArt.GquicAck
import QuicArt.FrabList
import QuicArt.LsquicHash
import QuicArt.PriorityQueues
import QuicArt.Bbr
import QuicArt.PacketPools
