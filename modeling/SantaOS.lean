import SantaOS.Answers
import SantaOS.Bridge
import SantaOS.BridgeSound
import SantaOS.Codec
import SantaOS.Connection
import SantaOS.Console
import SantaOS.Conversation
import SantaOS.Framing
import SantaOS.Host
import SantaOS.HostLag
import SantaOS.HostNoise
import SantaOS.HostRun
import SantaOS.HostSound
import SantaOS.Integrity
import SantaOS.Kernel
import SantaOS.KernelRun
import SantaOS.KernelSound
import SantaOS.Layout
import SantaOS.Lengths
import SantaOS.Lib.BigEndian
import SantaOS.Lib.Fuel
import SantaOS.Lib.Memory
import SantaOS.Lib.Numeral
import SantaOS.Lib.OnesComplement
import SantaOS.Lib.Reactive
import SantaOS.Lib.Refinement
import SantaOS.Lib.Regular
import SantaOS.Lib.Search
import SantaOS.Lib.Sheet
import SantaOS.Lib.Stage
import SantaOS.Lib.TextRing
import SantaOS.Lib.TextRows
import SantaOS.Lib.Waiting
import SantaOS.Multiboot
import SantaOS.MultibootItoa
import SantaOS.MultibootMap
import SantaOS.MultibootPrintf
import SantaOS.MultibootReport
import SantaOS.Overrun
import SantaOS.OwnBytes
import SantaOS.Packet
import SantaOS.PacketSpec
import SantaOS.Receive
import SantaOS.Reply
import SantaOS.ReplySound
import SantaOS.Serial
import SantaOS.Server
import SantaOS.Serving
import SantaOS.Std
import SantaOS.Stdio
import SantaOS.StdioSound
import SantaOS.Tcpip
import SantaOS.Terminal
import SantaOS.Tty
import SantaOS.TtySound
import SantaOS.Uart
