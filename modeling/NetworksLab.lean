import NetworksLab.ChatCompletion
import NetworksLab.ChatMonitor
import NetworksLab.GroupDeparture
import NetworksLab.GroupSegmentation
import NetworksLab.GroupRelay
import NetworksLab.UdpChat
import NetworksLab.PyGroupServer
import NetworksLab.DumbbellSchedule
import NetworksLab.ClientHandlerLockstep
import NetworksLab.JavaChatEnds
import NetworksLab.JavaChatRefused
import NetworksLab.LoginSession
import NetworksLab.LoginServer
import NetworksLab.DatagramChat
import NetworksLab.DatagramRounds
import NetworksLab.GroupTable
import NetworksLab.GroupGreeting
import NetworksLab.PyGroupThreads
import NetworksLab.TcpVariants
import NetworksLab.ChatFraming
import NetworksLab.JavaUtf8
import NetworksLab.UdpBase
import NetworksLab.GroupLabel
import NetworksLab.PyGroupReaders
import NetworksLab.JavaChatOver
import NetworksLab.Overlay
import NetworksLab.ForkChat
import NetworksLab.GroupStrlen
import NetworksLab.DumbbellRate
import NetworksLab.ChatInput
import NetworksLab.ChatKeyword
import NetworksLab.Network
import NetworksLab.PyGroupSequential
import NetworksLab.PyGroupSystem
import NetworksLab.GroupProgress
import NetworksLab.GroupSystem
import NetworksLab.LineRelay
import NetworksLab.DatagramClients
import NetworksLab.ForkSession
import NetworksLab.DumbbellFlows
import NetworksLab.ClientHandlerServer
import NetworksLab.NamedDatagrams
import NetworksLab.HelloServer
import NetworksLab.ChatHangup
import NetworksLab.DatagramReplies
import NetworksLab.DateText
import NetworksLab.StreamReplies
import NetworksLab.FourRounds
import NetworksLab.UdpBaseClients
import NetworksLab.LoginServed
