import HamachiLike.Library.Buffer
import HamachiLike.Socket

/-! The frame builder of dhcpfinal.c and dhcpfinal.h, on a little-endian host.
Pointers into a buffer are offsets; what is printed is left out. -/

namespace HamachiLike.Dhcp

open Buffer LittleEndian

/-! Field offsets and sizes of the structs laid over the frame. -/

namespace EtherHeader
abbrev dhost : Nat := 0
abbrev shost : Nat := 6
abbrev type : Nat := 12
abbrev size : Nat := 14
end EtherHeader

namespace MyIphdr
abbrev versionIhl : Nat := 0
abbrev tos : Nat := 1
abbrev totLen : Nat := 2
abbrev id : Nat := 4
abbrev fragOffset : Nat := 6
abbrev ttl : Nat := 8
abbrev protocol : Nat := 9
abbrev check : Nat := 10
abbrev saddr : Nat := 12
abbrev daddr : Nat := 16
abbrev size : Nat := 20
end MyIphdr

namespace Udphdr
abbrev source : Nat := 0
abbrev dest : Nat := 2
abbrev len : Nat := 4
abbrev check : Nat := 6
abbrev size : Nat := 8
end Udphdr

namespace Dhcpv4Hdr
abbrev opcode : Nat := 0
abbrev htype : Nat := 1
abbrev hlen : Nat := 2
abbrev hopcount : Nat := 3
abbrev xid : Nat := 4
abbrev secs : Nat := 8
abbrev flags : Nat := 10
abbrev cip : Nat := 12
abbrev yip : Nat := 16
abbrev sip : Nat := 20
abbrev gip : Nat := 24
abbrev chaddr : Nat := 28
abbrev magic : Nat := 236
abbrev size : Nat := 240
end Dhcpv4Hdr

/-! The packed `struct dhcp_option` of a 64-bit target, 10 bytes. -/

namespace DhcpOptionHdr
abbrev option : Nat := 0
abbrev length : Nat := 1
abbrev data : Nat := 2
end DhcpOptionHdr

def ethPIp : UInt16 := 0x0800
def ipprotoUdp : UInt8 := 17
def xid : UInt32 := 0x19f05a95
def dhcpMagic : UInt32 := 0x63825363
def emptyAddr : List UInt8 := [0x00, 0x00, 0x00, 0x00, 0x00, 0x00]
def broadcastAddr : List UInt8 := [0xff, 0xff, 0xff, 0xff, 0xff, 0xff]
def requestip : List UInt8 := [192, 168, 1, 105]

def putByte (off : Nat) (value : UInt8) : Mem UInt8 PUnit := store off [value]
def putShort (off : Nat) (value : UInt16) : Mem UInt8 PUnit := store off (toBytes 2 value.toNat)
def putInt (off : Nat) (value : UInt32) : Mem UInt8 PUnit := store off (toBytes 4 value.toNat)

def getByte (off : Nat) : Mem UInt8 UInt8 := do
  let bytes ← load off 1
  return UInt8.ofNat (ofBytes bytes)

def getShort (off : Nat) : Mem UInt8 UInt16 := do
  let bytes ← load off 2
  return UInt16.ofNat (ofBytes bytes)

/-- Copy `count` bytes from another object, which must hold that many. -/
def memcpy (off : Nat) (source : List UInt8) (count : Nat) : Mem UInt8 PUnit :=
  if count ≤ source.length then store off (source.take count) else fun _ => none

def setupEthernetHeader (eth : Nat) (macDst macSrc : List UInt8) : Mem UInt8 Int16 := do
  memcpy (eth + EtherHeader.dhost) macDst etherAddrLen
  memcpy (eth + EtherHeader.shost) macSrc etherAddrLen
  putShort (eth + EtherHeader.type) (htons ethPIp)
  return Int16.ofNat EtherHeader.size

/-- The version and header length are bit-fields of one byte: high and low nibble. -/
def setupIpHeader (ip : Nat) : Mem UInt8 Int16 := do
  let bits ← getByte (ip + MyIphdr.versionIhl)
  putByte (ip + MyIphdr.versionIhl) ((bits &&& (0x0f : UInt8)) ||| ((4 : UInt8) <<< 4))
  let bits ← getByte (ip + MyIphdr.versionIhl)
  putByte (ip + MyIphdr.versionIhl) ((bits &&& (0xf0 : UInt8)) ||| (5 : UInt8))
  putByte (ip + MyIphdr.tos) 0x10
  putShort (ip + MyIphdr.id) 0
  putShort (ip + MyIphdr.fragOffset) 0
  putByte (ip + MyIphdr.ttl) 255
  putByte (ip + MyIphdr.protocol) ipprotoUdp
  putInt (ip + MyIphdr.saddr) 0
  putInt (ip + MyIphdr.daddr) (~~~0)
  return Int16.ofNat MyIphdr.size

def setupUdpHeader (udp : Nat) : Mem UInt8 Int16 := do
  putShort (udp + Udphdr.source) (htons 68)
  putShort (udp + Udphdr.dest) (htons 67)
  return Int16.ofNat Udphdr.size

def setupMainDhcp (dhcp : Nat) (macSrc clientIP yourIP serverIP gatewayIP : List UInt8) :
    Mem UInt8 Int16 := do
  putByte (dhcp + Dhcpv4Hdr.opcode) 1
  putByte (dhcp + Dhcpv4Hdr.htype) 1
  putByte (dhcp + Dhcpv4Hdr.hlen) 6
  putByte (dhcp + Dhcpv4Hdr.hopcount) 0
  putInt (dhcp + Dhcpv4Hdr.xid) (htonl xid)
  putShort (dhcp + Dhcpv4Hdr.secs) 0
  putShort (dhcp + Dhcpv4Hdr.flags) 0
  memcpy (dhcp + Dhcpv4Hdr.cip) clientIP 4
  memcpy (dhcp + Dhcpv4Hdr.yip) yourIP 4
  memcpy (dhcp + Dhcpv4Hdr.sip) serverIP 4
  memcpy (dhcp + Dhcpv4Hdr.gip) gatewayIP 4
  memcpy (dhcp + Dhcpv4Hdr.chaddr) macSrc etherAddrLen
  putInt (dhcp + Dhcpv4Hdr.magic) (htonl dhcpMagic)
  return Int16.ofNat Dhcpv4Hdr.size

/-- `base` is the address of the buffer that `start` points into. The member
`data` is a pointer stored over the option's own data and read back for the copy. -/
def addDhcpOption (base : UInt64) (start : Nat) (option length : UInt8) (data : List UInt8) :
    Mem UInt8 Int16 := do
  store (start + DhcpOptionHdr.data) (toBytes 8 (base + UInt64.ofNat start + 2).toNat)
  putByte (start + DhcpOptionHdr.option) option
  putByte (start + DhcpOptionHdr.length) length
  let pointer ← load (start + DhcpOptionHdr.data) 8
  memcpy (UInt64.ofNat (ofBytes pointer) - base).toNat data length.toNat
  return Int16.ofNat (2 + length.toNat)

/-- `while (sum >> 16) sum = (sum & 0xffff) + (sum >> 16);` -/
def foldCarries (sum : Nat) : Nat :=
  if sum >>> 16 ≠ 0 then foldCarries ((sum &&& 0xffff) + (sum >>> 16)) else sum
termination_by sum
decreasing_by
  rename_i carries
  rw [show (0xffff : Nat) = 2 ^ 16 - 1 from rfl, Nat.and_two_pow_sub_one_eq_mod]
  rw [Nat.shiftRight_eq_div_pow] at *
  omega

/-- The summing loop of `ipCecksum`. Ten 16-bit words stay far inside an `int`. -/
def sumHeader (ip index sum : Nat) : Mem UInt8 Nat :=
  if index < MyIphdr.size / 2 then do
    let word ← getShort (ip + 2 * index)
    sumHeader ip (index + 1) (sum + word.toNat)
  else return sum
termination_by MyIphdr.size / 2 - index

def ipCecksum (ip : Nat) : Mem UInt8 PUnit := do
  let sum ← sumHeader ip 0 0
  putShort (ip + MyIphdr.check) (~~~(UInt16.ofNat (foldCarries sum &&& 0xffff)))

/-- The pointer loop of `udpCecksum` over an `unsigned long` sum. -/
def sumShorts (ptr stop sum : Nat) : Mem UInt8 Nat :=
  if ptr < stop then do
    let word ← getShort ptr
    sumShorts (ptr + 2) stop ((sum + word.toNat) % 2 ^ 64)
  else return sum
termination_by stop - ptr

def udpCecksum (ip udp : Nat) : Mem UInt8 PUnit := do
  let len ← getShort (udp + Udphdr.len)
  let sum ← sumShorts (ip + MyIphdr.saddr) (udp + (htons len).toNat) 0
  let sum := (sum + (htons ipprotoUdp.toUInt16).toNat) % 2 ^ 64
  let len ← getShort (udp + Udphdr.len)
  let sum := (sum + len.toNat) % 2 ^ 64
  putShort (udp + Udphdr.check) (~~~(UInt16.ofNat (foldCarries sum)))

/-- Build a frame at the start of the current buffer; the result is its length. -/
def dhcpPacket (macDst macSrc clientIP yourIP serverIP gatewayIP dhcpOptions : List UInt8)
    (dhcpOptionsSize : UInt16) : Mem UInt8 Int16 := do
  let bufSize : UInt16 := 0
  let eth := 0
  let written ← setupEthernetHeader eth macDst macSrc
  let bufSize := bufSize + written.toUInt16
  let ip := bufSize.toNat
  let written ← setupIpHeader ip
  let bufSize := bufSize + written.toUInt16
  let udp := bufSize.toNat
  let written ← setupUdpHeader udp
  let bufSize := bufSize + written.toUInt16
  let dhcp := bufSize.toNat
  let written ← setupMainDhcp dhcp macSrc clientIP yourIP serverIP gatewayIP
  let bufSize := bufSize + written.toUInt16
  memcpy bufSize.toNat dhcpOptions dhcpOptionsSize.toNat
  let bufSize := bufSize + dhcpOptionsSize
  putByte bufSize.toNat 0xff
  let bufSize := bufSize + 1
  putShort (ip + MyIphdr.totLen) (htons (bufSize - UInt16.ofNat EtherHeader.size))
  putShort (udp + Udphdr.len)
    (htons (bufSize - UInt16.ofNat EtherHeader.size - UInt16.ofNat MyIphdr.size))
  ipCecksum ip
  udpCecksum ip udp
  return bufSize.toInt16

/-- The successive `dhcpOptionSize += addDhcpOption(dhcpOptionBuf + dhcpOptionSize, ...)`
of a message, each call with its code, length and data. -/
def addDhcpOptions (base : UInt64) (dhcpOptionSize : UInt16) :
    List (UInt8 × UInt8 × List UInt8) → Mem UInt8 UInt16
  | [] => return dhcpOptionSize
  | (option, length, data) :: rest => do
    let written ← addDhcpOption base dhcpOptionSize.toNat option length data
    addDhcpOptions base (dhcpOptionSize + written.toUInt16) rest

/-- What `dhcpDiscover`, `dhcpLeaseQuery` and `dhcpRequest` share: options built
in a zeroed local buffer at address `base`, then the packet around them. -/
def dhcpMessage (options : List (UInt8 × UInt8 × List UInt8)) (clientIP : List UInt8)
    (base : UInt64) (mac : List UInt8) : Mem UInt8 Int16 := do
  let (dhcpOptionSize, dhcpOptionBuf) ←
    StateT.lift ((addDhcpOptions base 0 options).run (List.replicate 1500 0))
  dhcpPacket broadcastAddr mac clientIP emptyAddr emptyAddr emptyAddr dhcpOptionBuf dhcpOptionSize

def dhcpDiscover : UInt64 → List UInt8 → Mem UInt8 Int16 :=
  dhcpMessage [(0x35, 1, [0x01])] emptyAddr

def dhcpLeaseQuery : UInt64 → List UInt8 → Mem UInt8 Int16 :=
  dhcpMessage [(0x35, 1, [10]), (55, 1, [51])] [192, 168, 1, 100]

def dhcpRequest : UInt64 → List UInt8 → Mem UInt8 Int16 :=
  dhcpMessage [(0x35, 1, [3]), (50, 4, requestip), (61, 2, [0x00, 0x03])] emptyAddr

/-- `memset(buf, 0, 1500)` on the frame buffer of `main`. -/
def zeroedBuf : List UInt8 := List.replicate 1500 0

end HamachiLike.Dhcp
