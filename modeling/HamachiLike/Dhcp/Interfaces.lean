import HamachiLike.Library.Buffer
import HamachiLike.Library.CString
import HamachiLike.Library.LinkedList
import HamachiLike.Socket

/-! `getifmacsWithIps` of dhcpfinal.c over the records that `getifaddrs` delivers.
What is printed is left out. -/

namespace HamachiLike.Dhcp

open Buffer CString LinkedList

def afPacket : UInt16 := 17

/-- A `struct sockaddr` of an interface: the family and the 18 bytes behind it. -/
structure Sockaddr where
  saFamily : UInt16
  saData : Vector UInt8 18

namespace Sockaddr

/-- `&((struct sockaddr_in *)addr)->sin_addr`, behind the port. -/
def sinAddr (addr : Sockaddr) : List UInt8 := slice addr.saData.toList 2 4

/-- `((struct sockaddr_ll *)addr)->sll_addr`, behind five other members. -/
def sllAddr (addr : Sockaddr) : List UInt8 := slice addr.saData.toList 10 8

end Sockaddr

/-- A record of the list, without the members that are not read. The name is the
memory that `ifa_name` points to. -/
structure Ifaddrs where
  ifaName : Vector UInt8 ifnamsiz
  ifaAddr : Option Sockaddr

structure Ifmacs where
  addr : List UInt8
  name : List UInt8
  index : UInt32
  next : Option Nat
  deriving DecidableEq

/-- A null pointer that is followed. -/
inductive NullDeref
  | ifaAddr
  | ifs
  deriving DecidableEq

/-- The heap and the locals of the function. -/
structure Build where
  heap : List Ifmacs
  ifs : Option Nat
  backup : Option Nat
  first : Bool

abbrev Builder : Type → Type := StateT Build (Except NullDeref)

/-- Fresh memory holds anything. -/
def malloc (fresh : Nat → Ifmacs) : Builder (Option Nat) := fun build =>
  .ok (some build.heap.length, { build with heap := build.heap ++ [fresh build.heap.length] })

/-- Assign to a member of `*ifs`. -/
def setIfs (assign : Ifmacs → Ifmacs) : Builder Unit := fun build =>
  match build.ifs with
  | some place => .ok ((), { build with heap := build.heap.modify place assign })
  | none => .error .ifs

/-- `ifs = ifs->next;` -/
def advanceIfs : Builder Unit := fun build =>
  match build.ifs with
  | some place => .ok ((), { build with ifs := build.heap[place]?.bind Ifmacs.next })
  | none => .error .ifs

/-- Follow an `ifa_addr`. -/
def derefAddr (record : Ifaddrs) : Builder Sockaddr :=
  match record.ifaAddr with
  | some addr => return addr
  | none => throw .ifaAddr

/-- The assignments to the new node, from the interface of `tmp`. -/
def fillNode (ifNametoindex : List UInt8 → UInt32) (tmp : Ifaddrs) : Builder Unit := do
  setIfs fun node => { node with next := none }
  let addr ← derefAddr tmp
  setIfs fun node => { node with addr := addr.sllAddr.take etherAddrLen }
  setIfs fun node => { node with name := tmp.ifaName.toList }
  setIfs fun node => { node with index := ifNametoindex (chars tmp.ifaName.toList) }

/-- The body of the inner `if`: one more node at the end. -/
def appendNode (ifNametoindex : List UInt8 → UInt32) (fresh : Nat → Ifmacs) (tmp : Ifaddrs) :
    Builder Unit := do
  if (← get).first then
    let ifs ← malloc fresh
    modify fun build => { build with ifs := ifs }
    modify fun build => { build with backup := build.ifs }
    modify fun build => { build with first := false }
  else
    let next ← malloc fresh
    setIfs fun node => { node with next := next }
    advanceIfs
  fillNode ifNametoindex tmp

/-- `strncmp(addrPtr, ...) == 0` for 10. and for 192.168. -/
def isPrivate (addrPtr : List UInt8) : Bool :=
  strncmp addrPtr [0x0a] 1 = 0 || strncmp addrPtr [0xC0, 0xA8] 2 = 0

/-- The inner loop up to its `break`. -/
def findIp (ifNametoindex : List UInt8 → UInt32) (fresh : Nat → Ifmacs) (tmp : Ifaddrs) :
    List Ifaddrs → Builder Unit
  | [] => return ()
  | tmp2 :: rest => do
    let addr ← derefAddr tmp2
    if addr.saFamily = SockAddr.afInet ∧
        strncmp tmp2.ifaName.toList tmp.ifaName.toList ifnamsiz = 0 ∧ isPrivate addr.sinAddr then
      appendNode ifNametoindex fresh tmp
    else findIp ifNametoindex fresh tmp rest

/-- The outer loop over the rest of the list. -/
def findMacs (ifNametoindex : List UInt8 → UInt32) (fresh : Nat → Ifmacs) (addrs : List Ifaddrs) :
    List Ifaddrs → Builder Unit
  | [] => return ()
  | tmp :: rest => do
    if tmp.ifaAddr.any (·.saFamily = afPacket) then
      findIp ifNametoindex fresh tmp addrs
    findMacs ifNametoindex fresh addrs rest

/-- The heap afterwards and the head of the list. `if_nametoindex` is any function
of the name. -/
def getifmacsWithIps (ifNametoindex : List UInt8 → UInt32) (fresh : Nat → Ifmacs) (heap : List Ifmacs)
    (addrs : List Ifaddrs) : Except NullDeref (List Ifmacs × Option Nat) := do
  let (_, build) ← (findMacs ifNametoindex fresh addrs addrs).run ⟨heap, none, none, true⟩
  return (build.heap, build.backup)

end HamachiLike.Dhcp
