import HamachiLike.Library.Buffer
import HamachiLike.Library.LittleEndian
import HamachiLike.Library.Footprint
import HamachiLike.Library.CString
import HamachiLike.Library.LinkedList
import HamachiLike.Library.OnesComplement
import HamachiLike.Library.Run
import HamachiLike.Library.Dispatch
import HamachiLike.Library.Program
import HamachiLike.Library.Framing
import HamachiLike.Library.Duplex
import HamachiLike.Library.Network
import HamachiLike.Library.Balance
import HamachiLike.Library.Channel
import HamachiLike.Socket
import HamachiLike.Dhcp.Packet
import HamachiLike.Dhcp.Frame
import HamachiLike.Dhcp.Layout
import HamachiLike.Dhcp.Receiver
import HamachiLike.Dhcp.ReadBack
import HamachiLike.Dhcp.AddOption
import HamachiLike.Dhcp.Options
import HamachiLike.Dhcp.Reuse
import HamachiLike.Dhcp.ZeroCheck
import HamachiLike.Dhcp.UdpChecksum
import HamachiLike.Dhcp.OnesSum
import HamachiLike.Dhcp.Bounds
import HamachiLike.Dhcp.Interfaces
import HamachiLike.Dhcp.InterfaceList
import HamachiLike.Dhcp.Capture
import HamachiLike.Dhcp.Offer
import HamachiLike.Dhcp.Callback
import HamachiLike.Ping
import HamachiLike.Dhcp.Discovery
import HamachiLike.Dhcp.Session
import HamachiLike.Client.Send
import HamachiLike.Client.RecLoop
import HamachiLike.Client.Handshake
import HamachiLike.Client.Protocol
import HamachiLike.Client.Agreement
import HamachiLike.Client.Network
import HamachiLike.Client.Peers
import HamachiLike.Client.Text
import HamachiLike.Client.Delivery
import HamachiLike.Vpn.RouteTable
import HamachiLike.Vpn.Relay
import HamachiLike.Vpn.Own
import HamachiLike.Vpn.Hosts
import HamachiLike.Tunnel.Simpletun
import HamachiLike.Tunnel.Options
import HamachiLike.Tunnel.Turn
import HamachiLike.Tunnel.Ends
