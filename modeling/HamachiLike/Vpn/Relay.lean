import HamachiLike.Library.Buffer
import HamachiLike.Socket
import HamachiLike.Vpn.RouteTable

/-! The relay loop of the client build of vpnServer.cpp, and `udp_bind` before it.
One step is one round of `select`. -/

namespace HamachiLike.Vpn

open LittleEndian Buffer

def serverHost : String := "144.202.5.224"

def port : UInt16 := 54345

def mtu : Nat := 1400

/-- The address that `SERVER_HOST` spells, in network order. -/
def serverIp : UInt32 := 0xe005ca90

/-- `SERVER_HOST:PORT`. -/
def serverAddr : SockAddrStorage := .inet (SockAddr.inet port serverIp)

/-- `udp_bind` for the host of a build, with what `getaddrinfo` finds and whether the
system calls after it succeed. Its result is what it leaves in `client_addr`. -/
def udpBindTo (host : String) (getaddrinfo : String → Option AddrInfo) (ok : BindCall → Bool)
    (bind : Bool) : Option SockAddrStorage := do
  let result ← getaddrinfo host
  let addr ← match result with
    | .inet addr => some (.inet { addr with sinPort := swap16 port })
    | .inet6 addr => some (.inet6 { addr with sin6Port := swap16 port })
    | .other _ => none
  if ok .socket ∧ bind ∧ ok .getfl ∧ ok .setfl then some addr else none

/-- With `AS_CLIENT`, where `bind` is not called. -/
def udpBind (getaddrinfo : String → Option AddrInfo) (ok : BindCall → Bool) : Option SockAddrStorage :=
  udpBindTo serverHost getaddrinfo ok true

/-- Of a numeric host the address is found, and the port is set. -/
theorem udpBindTo_inet {host : String} {getaddrinfo : String → Option AddrInfo} {ok : BindCall → Bool}
    {bind : Bool} {ip : UInt32} {clientAddr : SockAddrStorage}
    (numeric : ∀ info, getaddrinfo host = some info → ∃ port, info = .inet ⟨SockAddr.afInet, port, ip⟩)
    (bound : udpBindTo host getaddrinfo ok bind = some clientAddr) :
    clientAddr = .inet (SockAddr.inet port ip) := by
  cases found : getaddrinfo host with
  | none => simp [udpBindTo, found] at bound
  | some info =>
    obtain ⟨given, rfl⟩ := numeric info found
    simp only [udpBindTo, found, Option.bind_eq_bind, Option.bind_some, Option.ite_none_right_eq_some,
      Option.some.injEq] at bound
    exact bound.2.symm

/-- Which of the calls in `udp_bind` succeed. -/
def bindResult (getaddrinfo : String → Option AddrInfo) (ok : BindCall → Bool) : BindCall → Bool
  | .getaddrinfo => (getaddrinfo serverHost).isSome
  | .family =>
    match getaddrinfo serverHost with
    | some (.inet _) => true
    | some (.inet6 _) => true
    | _ => false
  | call => ok call

/-- `udp_bind` returns a socket if none of the calls fails that `main` makes through it. -/
theorem udpBind_isSome_iff (getaddrinfo : String → Option AddrInfo) (ok : BindCall → Bool) :
    (udpBind getaddrinfo ok).isSome ↔
      ∀ call ∈ udpBindCalls, bindResult getaddrinfo ok call = true := by
  cases found : getaddrinfo serverHost with
  | none => simp [udpBind, udpBindTo, udpBindCalls, bindResult, found]
  | some info => cases info <;> simp [udpBind, udpBindTo, udpBindCalls, bindResult, found]

/-- `char tun_buf[MTU]` and `char udp_buf[MTU]`. -/
abbrev Buf := Cells UInt8 mtu

def encrypt (plantext ciphertext : Buf) (len : Nat) : Buf := ciphertext.put 0 (plantext.first len)

def decrypt (ciphertext plantext : Buf) (len : Nat) : Buf := plantext.put 0 (ciphertext.first len)

/-- What a round finds at a descriptor. -/
inductive Ready (α : Type)
  | no
  | error
  | data (value : α)

/-- A round of `select`: what is read where, and whether passing it on succeeds. -/
inductive Round
  | error
  | ready (tun : Ready (List UInt8)) (sendto : Bool)
      (udp : Ready (SockAddrStorage × List UInt8)) (write : Bool)

/-- The loop between two rounds, with the packets read from tun0, the calls of
`sendto` and those of `write` so far. -/
structure Relay where
  clientAddr : SockAddrStorage
  tunBuf : Buf
  udpBuf : Buf
  running : Bool
  reads : List (List UInt8)
  sends : List (List UInt8 × SockAddrStorage)
  writes : List (List UInt8)

namespace Relay

def start (clientAddr : SockAddrStorage) : Relay := ⟨clientAddr, .fill 0, .fill 0, true, [], [], []⟩

def fromTun (relay : Relay) (tun : Ready (List UInt8)) (sendto : Bool) : Relay :=
  match tun with
  | .no => relay
  | .error => { relay with running := false }
  | .data packet =>
    let packet := packet.take mtu
    let tunBuf := relay.tunBuf.put 0 packet
    let udpBuf := encrypt tunBuf relay.udpBuf packet.length
    { relay with
      tunBuf := tunBuf
      udpBuf := udpBuf
      running := sendto
      reads := relay.reads ++ [packet]
      sends := relay.sends ++ [(udpBuf.first packet.length, relay.clientAddr)] }

def fromUdp (relay : Relay) (udp : Ready (SockAddrStorage × List UInt8)) (write : Bool) : Relay :=
  match udp with
  | .no => relay
  | .error => { relay with running := false }
  | .data (sender, datagram) =>
    let datagram := datagram.take mtu
    let udpBuf := relay.udpBuf.put 0 datagram
    let tunBuf := decrypt udpBuf relay.tunBuf datagram.length
    { relay with
      clientAddr := sender
      tunBuf := tunBuf
      udpBuf := udpBuf
      running := write
      writes := relay.writes ++ [tunBuf.first datagram.length] }

def step (relay : Relay) (round : Round) : Option Relay :=
  if relay.running then
    match round with
    | .error => some { relay with running := false }
    | .ready tun sendto udp write =>
      let relay := relay.fromTun tun sendto
      some (if relay.running then relay.fromUdp udp write else relay)
  else none

private theorem encrypt_first {packet : List UInt8} (fits : packet.length ≤ mtu) (tunBuf udpBuf : Buf) :
    (encrypt (tunBuf.put 0 packet) udpBuf packet.length).first packet.length = packet := by
  rw [encrypt, tunBuf.first_put fits, udpBuf.first_put fits]

end Relay

namespace Round

def packet : Round → Option (List UInt8)
  | ready (.data packet) _ _ _ => some (packet.take mtu)
  | _ => none

def sender : Round → Option SockAddrStorage
  | ready _ _ (.data (sender, _)) _ => some sender
  | _ => none

end Round

namespace Relay

theorem fromUdp_log (relay : Relay) (udp : Ready (SockAddrStorage × List UInt8)) (write : Bool) :
    (relay.fromUdp udp write).reads = relay.reads ∧ (relay.fromUdp udp write).sends = relay.sends := by
  cases udp <;> exact ⟨rfl, rfl⟩

theorem fromTun_clientAddr (relay : Relay) (tun : Ready (List UInt8)) (sendto : Bool) :
    (relay.fromTun tun sendto).clientAddr = relay.clientAddr := by
  cases tun <;> rfl

theorem fromTun_log (relay : Relay) (tun : Ready (List UInt8)) (sendto : Bool)
    (udp : Ready (SockAddrStorage × List UInt8)) (write : Bool) :
    (relay.fromTun tun sendto).reads =
        relay.reads ++ (Round.ready tun sendto udp write).packet.toList ∧
      (relay.fromTun tun sendto).sends =
        relay.sends ++ (Round.ready tun sendto udp write).packet.toList.map
          fun packet => (packet, relay.clientAddr) := by
  cases tun with
  | no => simp [fromTun, Round.packet]
  | error => simp [fromTun, Round.packet]
  | data packet =>
    have fits : (packet.take mtu).length ≤ mtu := by simp
    simp only [fromTun, Round.packet, encrypt_first fits]
    exact ⟨rfl, rfl⟩

/-- A round sends the packet it reads to the address before the round, and goes
on with the address of the datagram it receives. -/
theorem step_some {relay next : Relay} {round : Round} (taken : relay.step round = some next) :
    relay.running = true ∧ next.reads = relay.reads ++ round.packet.toList ∧
      next.sends = relay.sends ++ round.packet.toList.map (fun packet => (packet, relay.clientAddr)) ∧
      (next.running = true → next.clientAddr = round.sender.getD relay.clientAddr) := by
  simp only [step] at taken
  split at taken
  · rename_i running
    refine ⟨running, ?_⟩
    cases round with
    | error =>
      cases taken
      exact ⟨(List.append_nil _).symm, (List.append_nil _).symm, nofun⟩
    | ready tun sendto udp write =>
      obtain ⟨reads, sends⟩ := relay.fromTun_log tun sendto udp write
      have kept := relay.fromTun_clientAddr tun sendto
      simp only [Option.some.injEq] at taken
      split at taken
      · obtain ⟨readsUdp, sendsUdp⟩ := (relay.fromTun tun sendto).fromUdp_log udp write
        subst taken
        refine ⟨readsUdp.trans reads, sendsUdp.trans sends, fun _ => ?_⟩
        cases udp with
        | data value => rfl
        | _ => exact kept
      · rename_i stopped
        subst taken
        exact ⟨reads, sends, fun running => absurd running stopped⟩
  · cases taken

end Relay

/-- Where the last datagram received in these rounds came from. -/
def lastSender (rounds : List Round) : Option SockAddrStorage :=
  (rounds.filterMap Round.sender).getLast?

/-- Whenever a packet is read from tun0, the last datagram received before that
round, if any, came from the server. -/
def Trusted (rounds : List Round) : Prop :=
  ∀ before round after, rounds = before ++ round :: after → round.packet.isSome →
    ∀ sender ∈ lastSender before, sender = serverAddr

private theorem trusted_nil : Trusted [] := by
  intro before round after split
  simp at split

private theorem trusted_append_singleton (rounds : List Round) (round : Round) :
    Trusted (rounds ++ [round]) ↔
      Trusted rounds ∧ (round.packet.isSome → ∀ sender ∈ lastSender rounds, sender = serverAddr) := by
  constructor
  · refine fun trusted => ⟨fun before other after split => ?_, trusted rounds round [] rfl⟩
    exact trusted before other (after ++ [round]) (by simp [split])
  · rintro ⟨trusted, last⟩ before other after split
    obtain rfl | ⟨front, final, rfl⟩ := List.eq_nil_or_concat after
    · obtain ⟨rfl, same⟩ := List.append_inj' split rfl
      cases same
      exact last
    · have split' : rounds ++ [round] = (before ++ other :: front) ++ [final] := by simp [split]
      exact trusted before other front (List.append_inj' split' rfl).1

private theorem lastSender_append_singleton (rounds : List Round) (round : Round) :
    lastSender (rounds ++ [round]) = round.sender.or (lastSender rounds) := by
  cases found : round.sender <;> simp [lastSender, found]

/-- What a run of the loop has sent, and where it would send the next packet. -/
theorem Relay.run_spec {clientAddr : SockAddrStorage} {rounds : List Round} {relay : Relay}
    (reached : Run.run Relay.step (Relay.start clientAddr) rounds = some relay) :
    relay.sends.map Prod.fst = relay.reads ∧
      (relay.running = true → relay.clientAddr = (lastSender rounds).getD clientAddr) := by
  induction rounds using List.reverseRecOn generalizing relay with
  | nil =>
    cases reached
    exact ⟨rfl, fun _ => rfl⟩
  | append_singleton rounds round ih =>
    obtain ⟨middle, before, taken⟩ := Run.run_append_singleton_some.mp reached
    obtain ⟨running, reads, sends, addr⟩ := Relay.step_some taken
    obtain ⟨payloads, current⟩ := ih before
    refine ⟨?_, fun runs => ?_⟩
    · simp [reads, sends, payloads, Function.comp_def]
    · rw [addr runs, current running, lastSender_append_singleton]
      cases round.sender <;> rfl

private theorem Relay.sends_iff {rounds : List Round} {relay : Relay}
    (reached : Run.run Relay.step (Relay.start serverAddr) rounds = some relay) :
    relay.sends = relay.reads.map (fun packet => (packet, serverAddr)) ↔ Trusted rounds := by
  induction rounds using List.reverseRecOn generalizing relay with
  | nil =>
    cases reached
    exact iff_of_true rfl trusted_nil
  | append_singleton rounds round ih =>
    obtain ⟨middle, before, taken⟩ := Run.run_append_singleton_some.mp reached
    obtain ⟨running, reads, sends, _⟩ := Relay.step_some taken
    obtain ⟨payloads, current⟩ := Relay.run_spec before
    have lengths :
        middle.sends.length = (middle.reads.map fun packet => (packet, serverAddr)).length := by
      rw [← payloads, List.length_map, List.length_map]
    have apart : relay.sends = relay.reads.map (fun packet => (packet, serverAddr)) ↔
        middle.sends = middle.reads.map (fun packet => (packet, serverAddr)) ∧
          round.packet.toList.map (fun packet => (packet, middle.clientAddr)) =
            round.packet.toList.map (fun packet => (packet, serverAddr)) := by
      rw [reads, sends, List.map_append]
      exact ⟨fun same => List.append_inj same lengths, fun same => by rw [same.1, same.2]⟩
    rw [apart, ih before, trusted_append_singleton, current running]
    refine and_congr_right fun _ => ?_
    cases round.packet <;> cases lastSender rounds <;> simp

/-- The client sends every packet read from tun0 to the server, and only there,
exactly as long as the server's datagrams are the last before each packet. -/
theorem tun_to_server_iff {getaddrinfo : String → Option AddrInfo} {ok : BindCall → Bool}
    {clientAddr : SockAddrStorage} {rounds : List Round} {relay : Relay}
    (numeric : ∀ info, getaddrinfo serverHost = some info →
      ∃ port, info = .inet ⟨SockAddr.afInet, port, serverIp⟩)
    (bound : udpBind getaddrinfo ok = some clientAddr)
    (reached : Run.run Relay.step (Relay.start clientAddr) rounds = some relay) :
    relay.sends = relay.reads.map (fun packet => (packet, serverAddr)) ↔ Trusted rounds := by
  rw [udpBindTo_inet numeric bound] at reached
  exact Relay.sends_iff reached

/-- `getaddrinfo` of the one numeric host. -/
def numericHost (host : String) : Option AddrInfo :=
  if host = serverHost then some (.inet ⟨SockAddr.afInet, 0, serverIp⟩) else none

/-- A packet, a datagram of the server and a packet. -/
def served : List Round :=
  [.ready (.data [0x45]) true .no true, .ready .no true (.data (serverAddr, [0x46])) true,
    .ready (.data [0x47]) true .no true]

theorem tun_to_server_iff_served :
    ∃ clientAddr relay, udpBind numericHost (fun _ => true) = some clientAddr ∧
      Run.run Relay.step (Relay.start clientAddr) served = some relay ∧
      (relay.sends = relay.reads.map (fun packet => (packet, serverAddr)) ↔ Trusted served) := by
  have numeric (info : AddrInfo) (found : numericHost serverHost = some info) :
      ∃ port, info = .inet ⟨SockAddr.afInet, port, serverIp⟩ := ⟨0, (Option.some.inj found).symm⟩
  have bound : udpBind numericHost (fun _ => true) = some serverAddr := rfl
  exact ⟨serverAddr, _, bound, rfl, tun_to_server_iff numeric bound rfl⟩

/-- Port 5000 of 10.0.0.99. -/
def otherHost : SockAddrStorage := .inet (SockAddr.inet 5000 0x6300000a)

/-- A packet, then a datagram from another host, then a packet. Only the first packet
gives the socket of the client a port. -/
def diverted : List Round :=
  [.ready (.data [0x44]) true .no true, .ready .no true (.data (otherHost, [0x46])) true,
    .ready (.data [0x45]) true .no true]

theorem diverted_sends :
    ∃ clientAddr relay, udpBind numericHost (fun _ => true) = some clientAddr ∧
      Run.run Relay.step (Relay.start clientAddr) diverted = some relay ∧
      relay.reads = [[0x44], [0x45]] ∧
      relay.sends = [([0x44], serverAddr), ([0x45], otherHost)] ∧ otherHost ≠ serverAddr :=
  ⟨serverAddr, _, rfl, rfl, rfl, rfl, by decide⟩

end HamachiLike.Vpn
