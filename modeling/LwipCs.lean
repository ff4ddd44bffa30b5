import LwipCs.Interleave.Machine
import LwipCs.Interleave.Chan
import LwipCs.Interleave.Trace
import LwipCs.Interleave.Total
import LwipCs.Interleave.Simulation
import LwipCs.Interleave.Permit
import LwipCs.Lwip.RawConn
import LwipCs.Lwip.AddrExport
import LwipCs.Lwip.SendLoop
import LwipCs.Lwip.UdpRaw
import LwipCs.Bridge.EventLoop
import LwipCs.Bridge.GoSteps
import LwipCs.Bridge.Steps
import LwipCs.Bridge.InOrder
import LwipCs.Bridge.Lock
import LwipCs.Bridge.CloseOnce
import LwipCs.Bridge.Handshake
import LwipCs.Bridge.SendSafety
import LwipCs.Bridge.Deadlock
import LwipCs.Bridge.Receive
import LwipCs.Bridge.RecvSafety
import LwipCs.Bridge.TableSafety
import LwipCs.Bridge.PcbUse
import LwipCs.Bridge.UdpFlows
import LwipCs.Bridge.UdpSend
import LwipCs.Bridge.Reader
import LwipCs.Bridge.ReadComplete
import LwipCs.Bridge.ReadBound
import LwipCs.Bridge.Output
import LwipCs.Bridge.TcpWrite
import LwipCs.Bridge.RecvFree
import LwipCs.Bridge.UdpTable
import LwipCs.Bridge.Buffers
import LwipCs.Bridge.Released
import LwipCs.Bridge.Shut
import LwipCs.Bridge.Wakeup
import LwipCs.Bridge.Wedge
import LwipCs.Bridge.Credit
import LwipCs.Bridge.Landed
import LwipCs.Bridge.Panics
import LwipCs.Bridge.UdpRead
import LwipCs.Bridge.Switch
import LwipCs.Bridge.Intercept
import LwipCs.Bridge.CharSend
import LwipCs.Bridge.UdpShared
import LwipCs.Bridge.Frames
import LwipCs.Bridge.Accounted
import LwipCs.Bridge.WindowCredit
import LwipCs.Csocks.Route
import LwipCs.Csocks.State
import LwipCs.Csocks.Steps
import LwipCs.Csocks.Conns
import LwipCs.Csocks.Url
import LwipCs.Csocks.Isolation
import LwipCs.Csocks.Lifecycle
import LwipCs.Csocks.Split
import LwipCs.Csocks.Iteration
import LwipCs.Csocks.Cleanup
import LwipCs.Regexp.Match
import LwipCs.Regexp.Grammar
import LwipCs.Csocks.Gfw
import LwipCs.Csocks.GfwSuffix
import LwipCs.Csocks.GfwPattern
import LwipCs.Memory.Ring
import LwipCs.SysArch.Sem
import LwipCs.SysArch.Mbox
import LwipCs.SysArch.MboxWake
import LwipCs.Bridge.OutputWithin
import LwipCs.Bridge.Kept
import LwipCs.Bridge.Still
import LwipCs.Echo.Copy
import LwipCs.Echo.Link
import LwipCs.Echo.Whole
import LwipCs.Interleave.Reentrant
import LwipCs.SysArch.Protect
import LwipCs.Lwip.ConnLife
import LwipCs.Bridge.FlowKeys
import LwipCs.Csocks.Fates
import LwipCs.Bridge.Rest
import LwipCs.Csocks.Rest
