import HamachiLike.Vpn.Relay

/-! The relay loop of own.cpp, which serves the socket first and passes each packet
on from the buffer it was read into. -/

namespace HamachiLike.Vpn

/-- What is there, if it can be read. -/
def Ready.value {α : Type} : Ready α → Option α
  | data value => some value
  | _ => none

namespace Round

/-- The datagram that a round receives, as it was sent. -/
def datagram : Round → Option (List UInt8)
  | ready _ _ udp _ => udp.value.map Prod.snd
  | error => none

/-- The packet that a round takes from tun0, as the host sent it. -/
def taken : Round → Option (List UInt8)
  | ready _ _ .error _ => none
  | ready tun _ _ _ => tun.value
  | error => none

def Accepted : Round → Prop
  | error => True
  | ready _ sendto _ write => sendto = true ∧ write = true

/-- What a round takes fits into the buffers. -/
def Fits (round : Round) : Prop :=
  (∀ packet ∈ round.taken, packet.length ≤ mtu) ∧ ∀ datagram ∈ round.datagram, datagram.length ≤ mtu

end Round

namespace Own

def fromUdp (relay : Relay) (udp : Ready (SockAddrStorage × List UInt8)) (write : Bool) : Relay :=
  match udp with
  | .no => relay
  | .error => { relay with running := false }
  | .data (sender, datagram) =>
    let datagram := datagram.take mtu
    let udpBuf := relay.udpBuf.put 0 datagram
    { relay with
      clientAddr := sender
      udpBuf := udpBuf
      running := write
      writes := relay.writes ++ [udpBuf.first datagram.length] }

def fromTun (relay : Relay) (tun : Ready (List UInt8)) (sendto : Bool) : Relay :=
  match tun with
  | .no => relay
  | .error => { relay with running := false }
  | .data packet =>
    let packet := packet.take mtu
    let tunBuf := relay.tunBuf.put 0 packet
    { relay with
      tunBuf := tunBuf
      running := sendto
      reads := relay.reads ++ [packet]
      sends := relay.sends ++ [(tunBuf.first packet.length, relay.clientAddr)] }

def step (relay : Relay) (round : Round) : Option Relay :=
  if relay.running then
    match round with
    | .error => some { relay with running := false }
    | .ready tun sendto udp write =>
      let relay := fromUdp relay udp write
      some (if relay.running then fromTun relay tun sendto else relay)
  else none

/-- The payloads of the calls of `sendto`. -/
def payloads (relay : Relay) : List (List UInt8) := relay.sends.map Prod.fst

/-- Every packet and every datagram of a run has gone through whole. -/
def Whole (rounds : List Round) (relay : Relay) : Prop :=
  payloads relay = rounds.filterMap Round.taken ∧ relay.writes = rounds.filterMap Round.datagram

theorem fromUdp_log (relay : Relay) (udp : Ready (SockAddrStorage × List UInt8)) (write : Bool) :
    payloads (fromUdp relay udp write) = payloads relay ∧
      (fromUdp relay udp write).writes =
        relay.writes ++ (udp.value.map Prod.snd).toList.map (List.take mtu) := by
  cases udp with
  | no => exact ⟨rfl, (List.append_nil _).symm⟩
  | error => exact ⟨rfl, (List.append_nil _).symm⟩
  | data value =>
    have fits : (value.2.take mtu).length ≤ mtu := List.length_take_le _ _
    simp only [fromUdp, relay.udpBuf.first_put fits]
    exact ⟨rfl, rfl⟩

theorem fromTun_log (relay : Relay) (tun : Ready (List UInt8)) (sendto : Bool) :
    payloads (fromTun relay tun sendto) = payloads relay ++ tun.value.toList.map (List.take mtu) ∧
      (fromTun relay tun sendto).writes = relay.writes := by
  cases tun with
  | no => exact ⟨(List.append_nil _).symm, rfl⟩
  | error => exact ⟨(List.append_nil _).symm, rfl⟩
  | data packet =>
    have fits : (packet.take mtu).length ≤ mtu := List.length_take_le _ _
    simp only [fromTun, payloads, relay.tunBuf.first_put fits, List.map_append]
    exact ⟨rfl, trivial⟩

/-- A round passes on the first bytes of what it takes, whatever the buffers held. -/
private theorem step_log {relay next : Relay} {round : Round} (done : step relay round = some next)
    (accepted : round.Accepted) :
    payloads next = payloads relay ++ round.taken.toList.map (List.take mtu) ∧
      next.writes = relay.writes ++ round.datagram.toList.map (List.take mtu) := by
  unfold step at done
  split at done
  · rename_i running
    cases round with
    | error =>
      cases done
      exact ⟨(List.append_nil _).symm, (List.append_nil _).symm⟩
    | ready tun sendto udp write =>
      obtain ⟨kept, written⟩ := fromUdp_log relay udp write
      have goesOn (stays : (fromUdp relay udp write).running = true) :
          payloads next = payloads relay ++ tun.value.toList.map (List.take mtu) ∧
            next.writes = relay.writes ++ (udp.value.map Prod.snd).toList.map (List.take mtu) := by
        obtain ⟨sent, still⟩ := fromTun_log (fromUdp relay udp write) tun sendto
        simp only [if_pos stays, Option.some.injEq] at done
        subst done
        exact ⟨by rw [sent, kept], still.trans written⟩
      cases udp with
      | no => exact goesOn running
      | error =>
        cases done
        exact ⟨(List.append_nil _).symm, (List.append_nil _).symm⟩
      | data value => exact goesOn accepted.2
  · cases done

private theorem filterMap_singleton (read : Round → Option (List UInt8)) (round : Round) :
    [round].filterMap read = (read round).toList := by
  cases found : read round <;> simp [found]

/-- So does a run. -/
private theorem run_log {clientAddr : SockAddrStorage} {rounds : List Round} {relay : Relay}
    (reached : Run.run step (Relay.start clientAddr) rounds = some relay)
    (accepted : ∀ round ∈ rounds, round.Accepted) :
    payloads relay = (rounds.filterMap Round.taken).map (List.take mtu) ∧
      relay.writes = (rounds.filterMap Round.datagram).map (List.take mtu) := by
  induction rounds using List.reverseRecOn generalizing relay with
  | nil =>
    cases reached
    exact ⟨rfl, rfl⟩
  | append_singleton rounds round ih =>
    obtain ⟨middle, before, done⟩ := Run.run_append_singleton_some.mp reached
    obtain ⟨sent, written⟩ := ih before fun earlier member => accepted earlier (List.mem_append_left _ member)
    obtain ⟨sends, writes⟩ := step_log done (accepted round (by simp))
    simp only [sends, writes, sent, written, List.filterMap_append, List.map_append,
      filterMap_singleton, and_self]

private theorem map_take_eq_self_iff (packets : List (List UInt8)) :
    packets.map (List.take mtu) = packets ↔ ∀ packet ∈ packets, packet.length ≤ mtu := by
  induction packets with
  | nil => simp
  | cons packet rest ih => rw [List.map_cons, List.cons.injEq, ih, List.take_eq_self_iff,
      List.forall_mem_cons]

/-- With every write accepted, all packets and datagrams of a run go through whole
exactly if none is longer than a buffer. -/
theorem whole_iff {clientAddr : SockAddrStorage} {rounds : List Round} {relay : Relay}
    (reached : Run.run step (Relay.start clientAddr) rounds = some relay)
    (accepted : ∀ round ∈ rounds, round.Accepted) :
    Whole rounds relay ↔ ∀ round ∈ rounds, round.Fits := by
  obtain ⟨sent, written⟩ := run_log reached accepted
  unfold Whole
  rw [sent, written, map_take_eq_self_iff, map_take_eq_self_iff]
  simp only [List.forall_mem_filterMap]
  constructor
  · rintro ⟨packets, datagrams⟩ round member
    exact ⟨packets round member, datagrams round member⟩
  · intro fits
    exact ⟨fun round member => (fits round member).1, fun round member => (fits round member).2⟩

/-- A packet, then a datagram and a packet in one round. -/
def exchange : List Round :=
  [.ready (.data [0x45, 0x01]) true .no true, .ready (.data [0x47]) true (.data (otherHost, [0x46])) true]

theorem whole_iff_exchange :
    ∃ relay, Run.run step (Relay.start serverAddr) exchange = some relay ∧
      (Whole exchange relay ↔ ∀ round ∈ exchange, round.Fits) := by
  refine ⟨_, rfl, whole_iff rfl ?_⟩
  simp [exchange, Round.Accepted]

/-- A packet of 1500 bytes. -/
def fullSize : List Round := [.ready (.data (List.replicate 1500 0x45)) true .no true]

/-- It is passed on without its last hundred. -/
theorem fullSize_not_whole :
    ∃ relay, Run.run step (Relay.start serverAddr) fullSize = some relay ∧ ¬Whole fullSize relay := by
  have reached : Run.run step (Relay.start serverAddr) fullSize = some _ := rfl
  have accepted : ∀ round ∈ fullSize, round.Accepted := List.forall_mem_singleton.mpr ⟨rfl, rfl⟩
  obtain ⟨sent, -⟩ := run_log reached accepted
  refine ⟨_, reached, fun whole => ?_⟩
  have short := (map_take_eq_self_iff _).mp (sent.symm.trans whole.1) (List.replicate 1500 0x45)
    List.mem_cons_self
  rw [List.length_replicate] at short
  exact absurd short (by decide)

end Own

end HamachiLike.Vpn
