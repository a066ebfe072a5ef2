import HamachiLike.Library.Channel
import HamachiLike.Vpn.Relay

/-! The two builds of vpnServer.cpp at work, one with `AS_CLIENT` and one without it,
and the UDP network between their sockets. -/

namespace HamachiLike.Vpn

open Channel (Promise Follows)
open LittleEndian

def bindHost : String := "0.0.0.0"

/-- `BIND_HOST:PORT`. -/
def bindAddr : SockAddrStorage := .inet (SockAddr.inet port 0)

/-- `udp_bind` of the build without `AS_CLIENT`. -/
def udpBindServer (getaddrinfo : String → Option AddrInfo) (ok : BindCall → Bool) (bind : Bool) :
    Option SockAddrStorage := udpBindTo bindHost getaddrinfo ok bind

inductive Host
  | client
  | server
  deriving DecidableEq

def Host.other : Host → Host
  | client => server
  | server => client

theorem Host.other_ne (host : Host) : host.other ≠ host := by cases host <;> decide

private theorem Host.ne_other (host : Host) : host ≠ host.other := by cases host <;> decide

@[simp] theorem Host.other_other (host : Host) : host.other.other = host := by cases host <;> rfl

theorem Host.eq_or_eq_other (dest host : Host) : dest = host ∨ dest = host.other := by
  cases dest <;> cases host <;> decide

/-- A datagram with the address that it comes from where it is received. -/
structure Datagram where
  sender : SockAddrStorage
  payload : List UInt8
  deriving DecidableEq

/-- Where a datagram of a host to an address is received, and as from which address. -/
abbrev Route := Host → SockAddrStorage → Option (Host × SockAddrStorage)

/-- The loops of both hosts, and the datagrams on the way to each. -/
structure Hosts where
  relay : Host → Relay
  wire : Host → List Datagram

namespace Hosts

inductive Event
  | error (host : Host)
  | round (host : Host) (tun : Ready (List UInt8)) (sendto : Bool) (udp : Ready Nat) (write : Bool)
  | lose (host : Host) (index : Nat)
  | copy (host : Host) (index : Nat)

def start : Hosts where
  relay
    | .client => Relay.start serverAddr
    | .server => Relay.start bindAddr
  wire _ := []

/-- Both loops start with what `udp_bind` leaves in `client_addr`. -/
theorem relay_start {getaddrinfo : Host → String → Option AddrInfo} {ok : Host → BindCall → Bool}
    {bind : Bool} {clientAddr : Host → SockAddrStorage}
    (numericServer : ∀ info, getaddrinfo .client serverHost = some info →
      ∃ port, info = .inet ⟨SockAddr.afInet, port, serverIp⟩)
    (numericBind : ∀ info, getaddrinfo .server bindHost = some info →
      ∃ port, info = .inet ⟨SockAddr.afInet, port, 0⟩)
    (client : udpBind (getaddrinfo .client) (ok .client) = some (clientAddr .client))
    (server : udpBindServer (getaddrinfo .server) (ok .server) bind = some (clientAddr .server))
    (host : Host) : start.relay host = Relay.start (clientAddr host) := by
  cases host with
  | client => rw [udpBindTo_inet numericServer client]; rfl
  | server => rw [udpBindTo_inet numericBind server]; rfl

def put (hosts : Hosts) (host : Host) (relay : Relay) : Hosts :=
  { hosts with relay := Function.update hosts.relay host relay }

def putWire (hosts : Hosts) (host : Host) (wire : List Datagram) : Hosts :=
  { hosts with wire := Function.update hosts.wire host wire }

/-- What a host receives of a call of `sendto`. -/
def arrives (route : Route) (host dest : Host) (sent : List UInt8 × SockAddrStorage) : Option Datagram :=
  match route host sent.2 with
  | some (reached, sender) => if reached = dest then some ⟨sender, sent.1⟩ else none
  | none => none

def fromTun (hosts : Hosts) (route : Route) (host : Host) (tun : Ready (List UInt8)) (sendto : Bool) :
    Hosts :=
  let before := hosts.relay host
  let after := before.fromTun tun sendto
  let sent := if sendto then after.sends.drop before.sends.length else []
  { relay := Function.update hosts.relay host after
    wire := fun dest => hosts.wire dest ++ sent.filterMap (arrives route host dest) }

def fromUdp (hosts : Hosts) (host : Host) (udp : Ready Nat) (write : Bool) : Option Hosts :=
  match udp with
  | .no => some (hosts.put host ((hosts.relay host).fromUdp .no write))
  | .error => some (hosts.put host ((hosts.relay host).fromUdp .error write))
  | .data index =>
    (hosts.wire host)[index]?.map fun datagram =>
      (hosts.put host ((hosts.relay host).fromUdp (.data (datagram.sender, datagram.payload)) write)).putWire
        host ((hosts.wire host).eraseIdx index)

def step (route : Route) (hosts : Hosts) : Event → Option Hosts
  | .error host => ((hosts.relay host).step .error).map fun after => hosts.put host after
  | .round host tun sendto udp write =>
    if (hosts.relay host).running then
      let hosts := hosts.fromTun route host tun sendto
      if (hosts.relay host).running then hosts.fromUdp host udp write else some hosts
    else none
  | .lose host index =>
    (hosts.wire host)[index]?.map fun _ => hosts.putWire host ((hosts.wire host).eraseIdx index)
  | .copy host index =>
    (hosts.wire host)[index]?.map fun datagram => hosts.putWire host (hosts.wire host ++ [datagram])

variable {route : Route} {hosts next : Hosts} {host dest : Host}

@[simp] theorem relay_put_self {relay : Relay} : (hosts.put host relay).relay host = relay :=
  Function.update_self ..

@[simp] theorem relay_put_other {relay : Relay} :
    (hosts.put host relay).relay host.other = hosts.relay host.other :=
  Function.update_of_ne host.other_ne ..

@[simp] theorem wire_put {relay : Relay} : (hosts.put host relay).wire = hosts.wire := rfl

@[simp] theorem relay_putWire {wire : List Datagram} : (hosts.putWire host wire).relay = hosts.relay := rfl

@[simp] theorem wire_putWire_self {wire : List Datagram} : (hosts.putWire host wire).wire host = wire :=
  Function.update_self ..

private theorem wire_putWire_ne {wire : List Datagram} (apart : dest ≠ host) :
    (hosts.putWire host wire).wire dest = hosts.wire dest :=
  Function.update_of_ne apart ..

private theorem fromUdp_relay {udp : Ready Nat} {write : Bool}
    (taken : hosts.fromUdp host udp write = some next) :
    ∃ found, next.relay host = (hosts.relay host).fromUdp found write ∧
      next.relay host.other = hosts.relay host.other := by
  cases udp with
  | no =>
    cases taken
    exact ⟨.no, relay_put_self, relay_put_other⟩
  | error =>
    cases taken
    exact ⟨.error, relay_put_self, relay_put_other⟩
  | data index =>
    obtain ⟨datagram, -, rfl⟩ := Option.map_eq_some_iff.mp taken
    exact ⟨.data (datagram.sender, datagram.payload), relay_put_self, relay_put_other⟩

/-- A round of a host is a round of its loop, with a datagram that is on the way to it. -/
theorem step_relay {tun : Ready (List UInt8)} {sendto : Bool} {udp : Ready Nat} {write : Bool}
    (taken : hosts.step route (.round host tun sendto udp write) = some next) :
    ∃ found, (hosts.relay host).step (.ready tun sendto found write) = some (next.relay host) ∧
      next.relay host.other = hosts.relay host.other := by
  have sender : (hosts.fromTun route host tun sendto).relay host =
      (hosts.relay host).fromTun tun sendto := Function.update_self ..
  have receiver : (hosts.fromTun route host tun sendto).relay host.other = hosts.relay host.other :=
    Function.update_of_ne host.other_ne ..
  simp only [step] at taken
  split at taken
  · rename_i running
    split at taken
    · rename_i goesOn
      obtain ⟨found, after, other⟩ := fromUdp_relay taken
      rw [sender] at goesOn after
      refine ⟨found, ?_, other.trans receiver⟩
      simp only [Relay.step, if_pos running, if_pos goesOn, after]
    · rename_i stopped
      cases taken
      rw [sender] at stopped
      refine ⟨.no, ?_, receiver⟩
      simp only [Relay.step, if_pos running, if_neg stopped, sender]
  · cases taken

/-- The address of the other host, as a host should know it. -/
def peer (clientAddr : SockAddrStorage) : Host → SockAddrStorage
  | .client => serverAddr
  | .server => clientAddr

/-- What a host sends to the other one is received there, and as from its address. -/
def Between (route : Route) (clientAddr : SockAddrStorage) : Prop :=
  ∀ host, route host (peer clientAddr host) = some (host.other, peer clientAddr host.other)

/-- The client knows the server from the start, the server learns the client's address
from its first datagram. -/
def Known (hosts : Hosts) (host : Host) : Prop := host = .client ∨ (hosts.relay host).writes ≠ []

structure Paired (clientAddr : SockAddrStorage) (hosts : Hosts) : Prop where
  addr : ∀ host, hosts.Known host → (hosts.relay host).clientAddr = peer clientAddr host
  sends : ∀ host, (hosts.relay host).sends =
    (hosts.relay host).reads.map fun packet => (packet, peer clientAddr host)
  wire : ∀ host, ∀ datagram ∈ hosts.wire host,
    datagram.sender = peer clientAddr host ∧ datagram.payload.length ≤ mtu

variable {clientAddr : SockAddrStorage}

private theorem paired_start (clientAddr : SockAddrStorage) : Paired clientAddr start where
  addr := by
    rintro host (rfl | heard)
    · rfl
    · cases host <;> exact absurd rfl heard
  sends := by intro host; cases host <;> rfl
  wire := by intro host datagram member; cases member

theorem Paired.put (paired : Paired clientAddr hosts) {relay : Relay}
    (addr : host = .client ∨ relay.writes ≠ [] → relay.clientAddr = peer clientAddr host)
    (sends : relay.sends = relay.reads.map fun packet => (packet, peer clientAddr host)) :
    Paired clientAddr (hosts.put host relay) where
  addr := by
    intro other known
    rcases other.eq_or_eq_other host with rfl | rfl
    · rw [Known, relay_put_self] at known
      rw [relay_put_self]
      exact addr known
    · rw [Known, relay_put_other] at known
      rw [relay_put_other]
      exact paired.addr _ known
  sends := by
    intro other
    rcases other.eq_or_eq_other host with rfl | rfl
    · rw [relay_put_self]
      exact sends
    · rw [relay_put_other]
      exact paired.sends _
  wire := paired.wire

private theorem Paired.putWire (paired : Paired clientAddr hosts) {wire : List Datagram}
    (good : ∀ datagram ∈ wire, datagram.sender = peer clientAddr host ∧ datagram.payload.length ≤ mtu) :
    Paired clientAddr (hosts.putWire host wire) where
  addr := paired.addr
  sends := paired.sends
  wire := by
    intro other
    rcases other.eq_or_eq_other host with rfl | rfl
    · rw [wire_putWire_self]
      exact good
    · rw [wire_putWire_ne host.other_ne]
      exact paired.wire _

/-- The tunnel to a host: the packets read at the other end, those on the way and
those written. -/
def channel (hosts : Hosts) (host : Host) : Channel.State (List UInt8) where
  given := (hosts.relay host.other).reads
  waiting := (hosts.wire host).map Datagram.payload
  taken := (hosts.relay host).writes

private theorem channel_put_self {relay : Relay} :
    (hosts.put host relay).channel host = { hosts.channel host with taken := relay.writes } := by
  simp [channel]

private theorem channel_put_other {relay : Relay} :
    (hosts.put host relay).channel host.other = { hosts.channel host.other with given := relay.reads } := by
  simp [channel]

private theorem channel_put {relay : Relay} (reads : relay.reads = (hosts.relay host).reads)
    (writes : relay.writes = (hosts.relay host).writes) (dest : Host) :
    (hosts.put host relay).channel dest = hosts.channel dest := by
  rcases dest.eq_or_eq_other host with rfl | rfl
  · rw [channel_put_self, writes]
    rfl
  · rw [channel_put_other, reads]
    simp [channel]

private theorem channel_putWire_self {wire : List Datagram} : (hosts.putWire host wire).channel host =
    { hosts.channel host with waiting := wire.map Datagram.payload } := by
  simp [channel]

private theorem channel_putWire_ne {wire : List Datagram} (apart : dest ≠ host) :
    (hosts.putWire host wire).channel dest = hosts.channel dest := by
  simp only [channel, wire_putWire_ne apart, relay_putWire]

end Hosts

namespace Relay

private theorem fromTun_writes (relay : Relay) (tun : Ready (List UInt8)) (sendto : Bool) :
    (relay.fromTun tun sendto).writes = relay.writes := by
  cases tun <;> rfl

private theorem fromUdp_data (relay : Relay) (sender : SockAddrStorage) {payload : List UInt8} (write : Bool)
    (fits : payload.length ≤ mtu) :
    (relay.fromUdp (.data (sender, payload)) write).writes = relay.writes ++ [payload] ∧
      (relay.fromUdp (.data (sender, payload)) write).clientAddr = sender := by
  simp only [fromUdp, List.take_of_length_le fits, decrypt, relay.udpBuf.first_put fits,
    relay.tunBuf.first_put fits, and_self]

end Relay

namespace Hosts

variable {route : Route} {hosts next : Hosts} {host : Host} {clientAddr : SockAddrStorage}

private theorem fromTun_no (sendto : Bool) : hosts.fromTun route host .no sendto = hosts := by
  simp [fromTun, Relay.fromTun]

private theorem fromTun_error (sendto : Bool) : hosts.fromTun route host .error sendto =
    hosts.put host ((hosts.relay host).fromTun .error sendto) := by
  simp [fromTun, Relay.fromTun, put]

/-- A packet from tun0 goes on its way to the other host, if `sendto` succeeds. -/
private theorem fromTun_data (between : Between route clientAddr)
    (addr : (hosts.relay host).clientAddr = peer clientAddr host) (packet : List UInt8) (sendto : Bool) :
    hosts.fromTun route host (.data packet) sendto =
      let after := hosts.put host ((hosts.relay host).fromTun (.data packet) sendto)
      if sendto then
        after.putWire host.other
          (hosts.wire host.other ++ [⟨peer clientAddr host.other, packet.take mtu⟩])
      else after := by
  obtain ⟨-, sends⟩ := (hosts.relay host).fromTun_log (.data packet) sendto .no true
  have sent : ((hosts.relay host).fromTun (.data packet) sendto).sends.drop
      (hosts.relay host).sends.length = [(packet.take mtu, peer clientAddr host)] := by
    rw [sends, List.drop_left, addr]
    rfl
  cases sendto with
  | false => simp [fromTun, put]
  | true =>
    simp only [fromTun, sent, if_true, putWire, put, Hosts.mk.injEq, true_and]
    funext dest
    rcases dest.eq_or_eq_other host with rfl | rfl
    · have away : arrives route dest dest (packet.take mtu, peer clientAddr dest) = none := by
        simp only [arrives, between dest, if_neg dest.other_ne]
      simp [Function.update_of_ne dest.ne_other, away]
    · have there : arrives route host host.other (packet.take mtu, peer clientAddr host) =
          some ⟨peer clientAddr host.other, packet.take mtu⟩ := by
        simp only [arrives, between host, if_true]
      simp [there]

variable {promise : Host → Promise}

/-- What the network promises for each direction is kept, nothing that counts is sent or
written in vain, and no packet is read at the server before it has heard of the client. -/
def Keeps (promise : Host → Promise) (hosts : Hosts) : Event → Prop
  | .error _ => True
  | .round host tun sendto udp write =>
    (∀ packet, tun = .data packet →
      hosts.Known host ∧ ((promise host.other).all = true → sendto = true)) ∧
    ∀ index, udp = .data index →
      ((promise host).inOrder = true → index = 0) ∧ ((promise host).all = true → write = true)
  | .lose host _ => (promise host).all = false
  | .copy host _ => (promise host).once = false

/-- The tunnel in both directions does what its channels do. -/
def Tunnels (promise : Host → Promise) (clientAddr : SockAddrStorage) (hosts next : Hosts) : Prop :=
  Paired clientAddr next ∧ ∀ dest, Follows (promise dest) (hosts.channel dest) (next.channel dest)

private theorem tunnels_fromTun (between : Between route clientAddr) (paired : Paired clientAddr hosts)
    {tun : Ready (List UInt8)} {sendto : Bool}
    (given : ∀ packet, tun = .data packet →
      hosts.Known host ∧ ((promise host.other).all = true → sendto = true)) :
    Tunnels promise clientAddr hosts (hosts.fromTun route host tun sendto) := by
  cases tun with
  | no =>
    rw [fromTun_no]
    exact ⟨paired, fun _ => Follows.refl _ _⟩
  | error =>
    rw [fromTun_error]
    refine ⟨paired.put (paired.addr host) (paired.sends host), fun dest => ?_⟩
    rw [@channel_put hosts host ((hosts.relay host).fromTun .error sendto) rfl rfl dest]
    exact Follows.refl _ _
  | data packet =>
    obtain ⟨known, counts⟩ := given packet rfl
    have addr := paired.addr host known
    obtain ⟨reads, sends⟩ := (hosts.relay host).fromTun_log (.data packet) sendto .no true
    have writes := (hosts.relay host).fromTun_writes (.data packet) sendto
    have kept := (hosts.relay host).fromTun_clientAddr (.data packet) sendto
    have relayed : Paired clientAddr
        (hosts.put host ((hosts.relay host).fromTun (.data packet) sendto)) := by
      refine paired.put (fun _ => kept.trans addr) ?_
      rw [reads, sends, paired.sends host, addr, List.map_append]
    have self : ((hosts.put host ((hosts.relay host).fromTun (.data packet) sendto)).channel host) =
        hosts.channel host := by
      rw [channel_put_self, writes]
      rfl
    have other : ((hosts.put host ((hosts.relay host).fromTun (.data packet) sendto)).channel host.other) =
        { hosts.channel host.other with
          given := (hosts.channel host.other).given ++ [packet.take mtu] } := by
      rw [channel_put_other, reads]
      simp [channel, Round.packet]
    rw [fromTun_data between addr]
    cases sendto with
    | true =>
      refine ⟨relayed.putWire fun datagram member => ?_, fun dest => ?_⟩
      · rcases List.mem_append.mp member with old | new
        · exact paired.wire _ datagram old
        · obtain rfl := List.mem_singleton.mp new
          exact ⟨rfl, List.length_take_le _ _⟩
      · rcases dest.eq_or_eq_other host with rfl | rfl
        · rw [if_pos rfl, channel_putWire_ne dest.ne_other, self]
          exact Follows.refl _ _
        · have sent : Channel.step (hosts.channel host.other) (.give (packet.take mtu)) =
              some { hosts.channel host.other with
                given := (hosts.channel host.other).given ++ [packet.take mtu]
                waiting := (hosts.wire host.other ++
                  [Datagram.mk (peer clientAddr host.other) (packet.take mtu)]).map Datagram.payload } := by
            simp [Channel.step, channel]
          rw [if_pos rfl, channel_putWire_self, other]
          exact Follows.step (show (promise host.other).Allows (.give (packet.take mtu)) from trivial) sent
    | false =>
      refine ⟨relayed, fun dest => ?_⟩
      rcases dest.eq_or_eq_other host with rfl | rfl
      · rw [if_neg Bool.false_ne_true, self]
        exact Follows.refl _ _
      · have loses : (promise host.other).all = false := by
          by_contra all
          exact Bool.false_ne_true (counts (Bool.eq_true_of_not_eq_false all))
        rw [if_neg Bool.false_ne_true, other]
        exact Follows.dropped loses _ _

/-- A datagram that is written to tun0 is all of a packet, since none is longer than a buffer. -/
private theorem tunnels_fromUdp (paired : Paired clientAddr hosts) {udp : Ready Nat} {write : Bool}
    (ordered : ∀ index, udp = .data index → (promise host).inOrder = true → index = 0)
    (taken : hosts.fromUdp host udp write = some next) : Tunnels promise clientAddr hosts next := by
  cases udp with
  | no =>
    cases taken
    refine ⟨paired.put (paired.addr host) (paired.sends host), fun dest => ?_⟩
    rw [@channel_put hosts host ((hosts.relay host).fromUdp .no write) rfl rfl dest]
    exact Follows.refl _ _
  | error =>
    cases taken
    refine ⟨paired.put (paired.addr host) (paired.sends host), fun dest => ?_⟩
    rw [@channel_put hosts host ((hosts.relay host).fromUdp .error write) rfl rfl dest]
    exact Follows.refl _ _
  | data index =>
    obtain ⟨datagram, found, rfl⟩ := Option.map_eq_some_iff.mp taken
    obtain ⟨sender, fits⟩ := paired.wire host datagram (List.mem_of_getElem? found)
    obtain ⟨writes, addr⟩ := (hosts.relay host).fromUdp_data datagram.sender write fits
    obtain ⟨reads, sends⟩ :=
      (hosts.relay host).fromUdp_log (.data (datagram.sender, datagram.payload)) write
    constructor
    · refine (paired.put (fun _ => addr.trans sender) ?_).putWire fun other member => ?_
      · rw [sends, reads]
        exact paired.sends host
      · exact paired.wire host other (List.mem_of_mem_eraseIdx member)
    · intro dest
      rcases dest.eq_or_eq_other host with rfl | rfl
      · have received : Channel.step (hosts.channel dest) (.take index) =
            some { hosts.channel dest with
              waiting := ((hosts.wire dest).eraseIdx index).map Datagram.payload
              taken := (hosts.relay dest).writes ++ [datagram.payload] } := by
          simp [Channel.step, channel, found, List.eraseIdx_map]
        rw [channel_putWire_self, channel_put_self, writes]
        exact Follows.step (show (promise dest).Allows (.take index) from ordered index rfl) received
      · rw [channel_putWire_ne host.other_ne, channel_put_other, reads]
        have same : { hosts.channel host.other with given := (hosts.relay host).reads } =
            hosts.channel host.other := by simp [channel]
        rw [same]
        exact Follows.refl _ _

theorem Tunnels.trans {last : Hosts} (first : Tunnels promise clientAddr hosts next)
    (second : Tunnels promise clientAddr next last) : Tunnels promise clientAddr hosts last :=
  ⟨second.1, fun dest => (first.2 dest).trans (second.2 dest)⟩

private theorem tunnels_step (between : Between route clientAddr) (paired : Paired clientAddr hosts)
    {event : Event}
    (keeps : Keeps promise hosts event) (taken : hosts.step route event = some next) :
    Tunnels promise clientAddr hosts next := by
  cases event with
  | error host =>
    obtain ⟨after, stopped, rfl⟩ := Option.map_eq_some_iff.mp taken
    simp only [Relay.step, Option.ite_none_right_eq_some, Option.some.injEq] at stopped
    obtain ⟨-, rfl⟩ := stopped
    refine ⟨paired.put (paired.addr host) (paired.sends host), fun dest => ?_⟩
    rw [@channel_put hosts host { hosts.relay host with running := false } rfl rfl dest]
    exact Follows.refl _ _
  | round host tun sendto udp write =>
    have sent : Tunnels promise clientAddr hosts (hosts.fromTun route host tun sendto) :=
      tunnels_fromTun between paired keeps.1
    simp only [step] at taken
    split at taken
    · split at taken
      · exact sent.trans (tunnels_fromUdp sent.1 (fun index found => (keeps.2 index found).1) taken)
      · cases taken
        exact sent
    · cases taken
  | lose host index =>
    obtain ⟨datagram, found, rfl⟩ := Option.map_eq_some_iff.mp taken
    refine ⟨paired.putWire fun other member => paired.wire host other (List.mem_of_mem_eraseIdx member),
      fun dest => ?_⟩
    rcases dest.eq_or_eq_other host with rfl | rfl
    · rw [channel_putWire_self]
      refine Follows.step (show (promise dest).Allows (.lose index) from keeps) ?_
      simp [Channel.step, channel, found, List.eraseIdx_map]
    · rw [channel_putWire_ne host.other_ne]
      exact Follows.refl _ _
  | copy host index =>
    obtain ⟨datagram, found, rfl⟩ := Option.map_eq_some_iff.mp taken
    refine ⟨paired.putWire fun other member => ?_, fun dest => ?_⟩
    · rcases List.mem_append.mp member with old | copied
      · exact paired.wire host other old
      · rw [List.mem_singleton.mp copied]
        exact paired.wire host datagram (List.mem_of_getElem? found)
    · rcases dest.eq_or_eq_other host with rfl | rfl
      · rw [channel_putWire_self]
        refine Follows.step (show (promise dest).Allows (.copy index) from keeps) ?_
        simp [Channel.step, channel, found]
      · rw [channel_putWire_ne host.other_ne]
        exact Follows.refl _ _

/-- Both hosts from the start of their loops. -/
def run (route : Route) (events : List Event) : Option Hosts := Run.run (step route) start events

variable {events : List Event}

private theorem tunnels_of_reached (between : Between route clientAddr)
    (along : Run.Along (step route) (Keeps promise) start events) (reached : run route events = some hosts) :
    Paired clientAddr hosts ∧ ∀ dest, Follows (promise dest) Channel.start (hosts.channel dest) := by
  have initial (dest : Host) : start.channel dest = Channel.start := by cases dest <;> rfl
  have kept : Tunnels promise clientAddr start hosts := by
    refine Run.run_invariant (fun before event after keeps inv taken => ?_)
      ⟨paired_start clientAddr, fun _ => Follows.refl _ _⟩ along reached
    exact inv.trans (tunnels_step between inv.1 keeps taken)
  exact ⟨kept.1, fun dest => initial dest ▸ kept.2 dest⟩

/-- Every packet that a host reads it sends to the other one, and to nobody else, over
whatever network and in whatever order the two go on. -/
theorem sends_to_peer (between : Between route clientAddr)
    (along : Run.Along (step route) (Keeps fun _ => .none) start events)
    (reached : run route events = some hosts) (host : Host) :
    (hosts.relay host).sends = (hosts.relay host).reads.map fun packet => (packet, peer clientAddr host) :=
  (tunnels_of_reached between along reached).1.sends host

/-- Where the server finds the client, port 40000 of 198.51.100.7. -/
def natAddr : SockAddrStorage := .inet (SockAddr.inet 40000 0x076433c6)

/-- Port 54345 of 127.0.0.1. -/
def loopbackAddr : SockAddrStorage := .inet (SockAddr.inet port 0x0100007f)

/-- What the server sends to `bindAddr` comes back to it. -/
def internet : Route
  | .client, addr => if addr = serverAddr then some (.server, natAddr) else none
  | .server, addr =>
    if addr = natAddr then some (.client, serverAddr)
    else if addr = bindAddr ∨ addr = loopbackAddr then some (.server, loopbackAddr)
    else none

private theorem between_internet : Between internet natAddr := by
  intro host
  cases host <;> decide

/-- A packet of the client and the server's answer. -/
def answered : List Event :=
  [.round .client (.data [0x45]) true .no true, .round .server .no true (.data 0) true,
    .round .server (.data [0x46, 0x47]) true .no true, .round .client .no true (.data 0) true]

private theorem along_answered (promise : Host → Promise) :
    Run.Along (step internet) (Keeps promise) start answered := by
  refine ⟨⟨fun _ _ => ⟨.inl rfl, fun _ => rfl⟩, nofun⟩, fun first taken => ?_⟩
  refine ⟨⟨nofun, fun index same => ⟨fun _ => (Ready.data.inj same).symm, fun _ => rfl⟩⟩,
    fun second heard => ?_⟩
  have introduced : (second.relay .server).writes ≠ [] := by
    cases taken
    cases heard
    decide +kernel
  refine ⟨⟨fun _ _ => ⟨.inr introduced, fun _ => rfl⟩, nofun⟩, fun third _ => ?_⟩
  exact ⟨⟨nofun, fun index same => ⟨fun _ => (Ready.data.inj same).symm, fun _ => rfl⟩⟩, fun _ _ => trivial⟩

theorem sends_to_peer_answered : ∃ hosts, run internet answered = some hosts ∧
    (hosts.relay .server).sends =
      (hosts.relay .server).reads.map fun packet => (packet, peer natAddr .server) :=
  ⟨_, rfl, sends_to_peer between_internet (along_answered _) rfl .server⟩

/-- Whatever the network does, a host writes no packet that the other one has not read. -/
theorem writes_subset (between : Between route clientAddr)
    (along : Run.Along (step route) (Keeps fun _ => .none) start events)
    (reached : run route events = some hosts) (dest : Host) :
    (hosts.relay dest).writes ⊆ (hosts.relay dest.other).reads := by
  obtain ⟨trace, allowed, followed⟩ := (tunnels_of_reached between along reached).2 dest
  have inside := Channel.subset_given allowed followed
  exact List.Subset.trans (List.subset_append_left _ _) inside

theorem writes_subset_answered : ∃ hosts, run internet answered = some hosts ∧
    (hosts.relay .client).writes ⊆ (hosts.relay .server).reads :=
  ⟨_, rfl, writes_subset between_internet (along_answered _) rfl .client⟩

/-- Over a network that does not copy, whatever it loses and reorders, a host writes no
packet more often than the other one has read it, and none that it has not. -/
theorem writes_subperm (between : Between route clientAddr)
    (along : Run.Along (step route) (Keeps promise) start events) (reached : run route events = some hosts)
    {dest : Host} (once : (promise dest).once = true) :
    (hosts.relay dest).writes.Subperm (hosts.relay dest.other).reads := by
  obtain ⟨trace, allowed, followed⟩ := (tunnels_of_reached between along reached).2 dest
  have fewer := Channel.subperm_given once allowed followed
  exact (List.sublist_append_left _ _).subperm.trans fewer

theorem writes_subperm_answered : ∃ hosts, run internet answered = some hosts ∧
    (hosts.relay .client).writes.Subperm (hosts.relay .server).reads :=
  ⟨_, rfl, @writes_subperm _ _ _ (fun _ => ⟨true, false, false⟩) _ between_internet (along_answered _) rfl
    .client rfl⟩

/-- If it keeps the order too, the packets come out in the order in which they were read. -/
theorem writes_sublist (between : Between route clientAddr)
    (along : Run.Along (step route) (Keeps promise) start events) (reached : run route events = some hosts)
    {dest : Host} (once : (promise dest).once = true) (ordered : (promise dest).inOrder = true) :
    (hosts.relay dest).writes.Sublist (hosts.relay dest.other).reads := by
  obtain ⟨trace, allowed, followed⟩ := (tunnels_of_reached between along reached).2 dest
  have fewer := Channel.sublist_given once ordered allowed followed
  exact (List.sublist_append_left _ _).trans fewer

theorem writes_sublist_answered : ∃ hosts, run internet answered = some hosts ∧
    (hosts.relay .client).writes.Sublist (hosts.relay .server).reads :=
  ⟨_, rfl, @writes_sublist _ _ _ (fun _ => ⟨true, true, false⟩) _ between_internet (along_answered _) rfl
    .client rfl rfl⟩

/-- Over one that loses nothing either, and with no `sendto` and no `write` in vain, what
is read at one end is what is written at the other and what is on the way. -/
theorem writes_append_wire (between : Between route clientAddr)
    (along : Run.Along (step route) (Keeps promise) start events) (reached : run route events = some hosts)
    {dest : Host} (once : (promise dest).once = true) (ordered : (promise dest).inOrder = true)
    (all : (promise dest).all = true) :
    (hosts.relay dest).writes ++ (hosts.wire dest).map Datagram.payload =
      (hosts.relay dest.other).reads := by
  obtain ⟨trace, allowed, followed⟩ := (tunnels_of_reached between along reached).2 dest
  exact Channel.eq_given once ordered all allowed followed

theorem writes_append_wire_answered : ∃ hosts, run internet answered = some hosts ∧
    (hosts.relay .client).writes ++ (hosts.wire .client).map Datagram.payload =
      (hosts.relay .server).reads :=
  ⟨_, rfl, @writes_append_wire _ _ _ (fun _ => ⟨true, true, true⟩) _ between_internet (along_answered _) rfl
    .client rfl rfl rfl⟩

/-- A packet that the server reads before it has heard of the client comes out of its own
interface. -/
example : (run internet [.round .server (.data [0x46]) true .no true,
      .round .server .no true (.data 0) true]).map (fun hosts => (hosts.relay .server).writes) =
    some [[0x46]] := by
  decide +kernel

end Hosts

end HamachiLike.Vpn
