import HamachiLike.Library.LittleEndian

/-! Socket addresses as the programs fill them in, on a little-endian host, and what they
use of the system's headers beside. -/

namespace HamachiLike

open LittleEndian

abbrev htons : UInt16 → UInt16 := swap16
abbrev htonl : UInt32 → UInt32 := swap32

abbrev ifnamsiz : Nat := 16
abbrev etherAddrLen : Nat := 6

/-- `struct sockaddr_in` without its padding. -/
structure SockAddr where
  sinFamily : UInt16
  sinPort : UInt16
  sinAddr : UInt32
  deriving DecidableEq, Repr

namespace SockAddr

def afInet : UInt16 := 2

/-- After `memset(&addr, 0, sizeof(addr))`. -/
def zero : SockAddr := ⟨0, 0, 0⟩

/-- An internet address, already in network order, with a port in host order. -/
def inet (port : UInt16) (addr : UInt32) : SockAddr := ⟨afInet, swap16 port, addr⟩

theorem inet_ne_zero (port : UInt16) (addr : UInt32) : inet port addr ≠ zero := by
  intro same
  have family : afInet = 0 := congrArg SockAddr.sinFamily same
  exact absurd family (by decide)

theorem inet_injective {port : UInt16} {first second : UInt32}
    (same : inet port first = inet port second) : first = second := congrArg SockAddr.sinAddr same

end SockAddr

/-- `struct sockaddr_in6`. -/
structure SockAddr6 where
  sin6Family : UInt16
  sin6Port : UInt16
  sin6Flowinfo : UInt32
  sin6Addr : BitVec 128
  sin6ScopeId : UInt32
  deriving DecidableEq

/-- What a `struct sockaddr_storage` holds. -/
inductive SockAddrStorage
  | inet (addr : SockAddr)
  | inet6 (addr : SockAddr6)
  deriving DecidableEq

/-- The `ai_family` and `ai_addr` of a `struct addrinfo`. -/
inductive AddrInfo
  | inet (addr : SockAddr)
  | inet6 (addr : SockAddr6)
  | other (family : UInt32)
  deriving DecidableEq

end HamachiLike
