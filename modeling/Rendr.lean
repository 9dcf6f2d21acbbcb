import Rendr.Carrier.RelRun
import Rendr.Packet.Negotiate
import Rendr.Session.Sched
import Rendr.Session.Chunks
import Rendr.Dgram.Final
import Rendr.Dgram.LedgerStep
import Rendr.Wire.SeqWords
import Rendr.Dgram.Peers
import Rendr.Carrier.DgRebind
import Rendr.Carrier.DownOrder
import Rendr.Session.EndRule
import Rendr.Mux.ReadySet
import Rendr.Carrier.DgPaths
import Rendr.Carrier.ReadParse
import Rendr.Runtime.Accounts
import Rendr.Sched.Dwell
import Rendr.UdpFlow.Admit
import Rendr.Carrier.PingLink
import Rendr.L4.IngressRun
import Rendr.L4.Forward
import Rendr.Sched.AggRing
import Rendr.Sched.Cadence
import Rendr.Session.Carriers
import Rendr.Quic.Ingress
import Rendr.Sched.Rto
