import Muta.Daemon.Renewal
import Muta.Link.RxAddress
import Muta.Link.RxDispatch
import Muta.Link.RxLease
import Muta.Link.RxLoop
import Muta.Link.RxArp
import Muta.Link.RxPacing
import Muta.Link.TxSize
import Muta.Rndis.BringUp
import Muta.Rndis.Framing
import Muta.Netstack.DhcpGrammar
import Muta.Netstack.Resolution
import Muta.Netstack.UdpPacket
import Muta.Usb.LastNumber
import Muta.Usb.Matcher
import Muta.Daemon.Mtu
import Muta.Daemon.OnLink
import Muta.Daemon.Forwarding
import Muta.Rndis.Kept
import Muta.Device.Transport
import Muta.Base.Staged
import Muta.Device.Open
import Muta.Device.Find
import Muta.Tun.Utun
import Muta.Daemon.Inbound
import Muta.Daemon.Outbound
import Muta.Service.Install
import Muta.Service.Uninstall
import Muta.Link.RxRecovery
import Muta.Link.RxRefinement
import Muta.Usb.Hotplug
import Muta.Daemon.Restoration
import Muta.Daemon.StatusServer
import Muta.Link.Shutdown
