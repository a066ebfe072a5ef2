import HamachiLike.Dhcp.Discovery
import HamachiLike.Library.CString

/-! A whole run of dhcp.cpp: it sends a discovery, waits in `pcap_loop` while the frames
captured are handed to the receive chain, and prints the address found by then. -/

namespace HamachiLike.Dhcp.Session

open Buffer LittleEndian CString Capture Discovery

def ifreqSize : Nat := 40

namespace Ifreq

def name : Nat := 0
/-- `ifr_addr.sa_data` -/
def saData : Nat := 18

end Ifreq

/-- What the program gets from the system and finds on its stack. -/
structure Host where
  /-- What stands where `get_mac_address` has its `struct ifreq`. -/
  ifreq : Cells UInt8 ifreqSize
  /-- `ioctl` for the address of an interface, with the struct that it leaves unless it fails. -/
  ioctl : Cells UInt8 ifreqSize → Option (Cells UInt8 ifreqSize)
  /-- `mac` of `main`, and what the discovery finds in the ten bytes behind it. -/
  mac : Cells UInt8 16
  /-- Whether `pcap_open_live` gives a handle. -/
  pcapOpenLive : List UInt8 → Bool
  /-- What stands where `dhcp_discovery` has its `packet`. -/
  packet : Cells UInt8 4096
  /-- The result of `pcap_inject`. -/
  pcapInject : List UInt8 → Int
  /-- `pcap_loop` with a count of -1. -/
  pcapLoop : Dispatch.Loop Globals Captured
  /-- The frames that come in before pcap gives up. -/
  frames : List Captured

/-- The last line that is printed. -/
inductive Report
  | usage
  | noMac (dev : List UInt8)
  | noDevice (dev : List UInt8)
  | gotIp (numbers : List UInt32)

/-- A call of `pcap_inject`, and whether its error is printed. -/
structure Injected where
  frame : List UInt8
  perror : Bool

structure Ended where
  result : Int
  injected : Option Injected
  report : Report

/-- `get_mac_address` with what it leaves in `mac`. There is no result if the name goes on
behind the struct that it is copied to. -/
def getMacAddress (host : Host) (devName : List UInt8) (mac : Cells UInt8 16) :
    Option (Int × Cells UInt8 16) :=
  if Ifreq.name + (chars devName).length + 1 ≤ ifreqSize then
    match host.ioctl (host.ifreq.put Ifreq.name (chars devName ++ [0])) with
    | none => some (-1, mac)
    | some s => some (0, mac.put 0 (slice s.cells Ifreq.saData 6))
  else none

/-- The end of `ether_output`. -/
def inject (host : Host) (frame : List UInt8) : Injected := { frame, perror := host.pcapInject frame ≤ 0 }

/-- The arguments of `Got IP %u.%u.%u.%u`. -/
def gotIp (ip : UInt32) : List UInt32 :=
  [ip >>> 24, (ip <<< 8) >>> 24, (ip <<< 16) >>> 24, (ip <<< 24) >>> 24]

/-- `main` for the arguments after the program's name. -/
def main (host : Host) : List (List UInt8) → Option Ended
  | [] => some ⟨0, none, .usage⟩
  | dev :: _ =>
    if chars dev = [0x2d, 0x68] then some ⟨0, none, .usage⟩
    else do
      let (result, mac) ← getMacAddress host dev host.mac
      if result ≠ 0 then return ⟨-1, none, .noMac dev⟩
      if !host.pcapOpenLive dev then return ⟨-1, none, .noDevice dev⟩
      let (frame, _) ← (dhcpDiscovery mac.cells).run host.packet.cells
      let injected := inject host frame
      let globals ← host.pcapLoop callback ⟨0, false⟩ host.frames
      return ⟨0, some injected, .gotIp (gotIp globals.ip)⟩

/-- `yiaddr` of a reply, byte by byte, and zeros if there is none. -/
def address : Option Captured → List UInt8
  | none => [0, 0, 0, 0]
  | some capture => slice capture.frame 58 4

/-- The program gets as far as `pcap_loop`, with the address of the interface in `mac`. -/
structure Opens (host : Host) (dev : List UInt8) (mac : Cells UInt8 16) : Prop where
  device : chars dev ≠ [0x2d, 0x68]
  filled : getMacAddress host dev host.mac = some (0, mac)
  handle : host.pcapOpenLive dev

/-- The name has up to 39 characters, and the system knows an address for it. -/
theorem getMacAddress_eq_iff {host : Host} {dev : List UInt8} {before after : Cells UInt8 16} :
    getMacAddress host dev before = some (0, after) ↔ (chars dev).length ≤ 39 ∧
      ∃ s, host.ioctl (host.ifreq.put 0 (chars dev ++ [0])) = some s ∧
        after = before.put 0 (slice s.cells 18 6) := by
  rw [getMacAddress]
  by_cases short : (chars dev).length ≤ 39
  · rw [if_pos (by rw [Ifreq.name, ifreqSize]; omega), and_iff_right short, Ifreq.name]
    cases host.ioctl (host.ifreq.put 0 (chars dev ++ [0])) <;> simp [Ifreq.saData, eq_comm]
  · rw [if_neg (by rw [Ifreq.name, ifreqSize]; omega)]
    exact iff_of_false nofun fun both => short both.1

/-- The four numbers of a line `Got IP` are the four bytes that an address stands in. -/
private theorem gotIp_bytes {bytes : List UInt8} (four : bytes.length = 4) :
    gotIp (swap32 (UInt32.ofNat (ofBytes bytes))) = bytes.map UInt8.toUInt32 := by
  match bytes, four with
  | [first, second, third, fourth], _ =>
    have high := And.intro first.toNat_lt second.toNat_lt
    have low := And.intro third.toNat_lt fourth.toNat_lt
    have number : (swap32 (UInt32.ofNat (ofBytes [first, second, third, fourth]))).toNat =
        fourth.toNat + 256 * (third.toNat + 256 * (second.toNat + 256 * first.toNat)) := by
      have size : UInt32.size = 2 ^ 32 := rfl
      rw [swap32_ofBytes rfl, UInt32.toNat_ofNat_of_lt'] <;>
        simp only [List.reverse_cons, List.reverse_nil, List.nil_append, List.cons_append, ofBytes] <;> omega
    generalize swap32 (UInt32.ofNat (ofBytes [first, second, third, fourth])) = ip at number
    have shifted (up : Nat) (small : up < 32) :
        ((ip <<< UInt32.ofNat up) >>> 24).toNat = ip.toNat * 2 ^ up % 2 ^ 32 / 2 ^ 24 := by
      simp [UInt32.toNat_shiftLeft, UInt32.toNat_shiftRight, Nat.shiftLeft_eq, Nat.shiftRight_eq_div_pow,
        Nat.mod_eq_of_lt small]
    have one : ip >>> 24 = first.toUInt32 := by
      apply UInt32.toNat_inj.mp
      rw [UInt32.toNat_shiftRight, UInt8.toNat_toUInt32, Nat.shiftRight_eq_div_pow, number]
      simp only [UInt32.toNat_ofNat, Nat.reduceMod, Nat.reducePow]
      omega
    have two : (ip <<< 8) >>> 24 = second.toUInt32 := by
      apply UInt32.toNat_inj.mp
      rw [UInt8.toNat_toUInt32]
      exact (shifted 8 (by decide)).trans (by omega)
    have three : (ip <<< 16) >>> 24 = third.toUInt32 := by
      apply UInt32.toNat_inj.mp
      rw [UInt8.toNat_toUInt32]
      exact (shifted 16 (by decide)).trans (by omega)
    have four : (ip <<< 24) >>> 24 = fourth.toUInt32 := by
      apply UInt32.toNat_inj.mp
      rw [UInt8.toNat_toUInt32]
      exact (shifted 24 (by decide)).trans (by omega)
    rw [gotIp, one, two, three, four]
    rfl

example : gotIp 0xc0a8010a = [192, 168, 1, 10] := by decide

private theorem gotIp_lastReply {handed : List Captured}
    (inside : ∀ capture ∈ handed, capture.ReadsInside ⟨0, false⟩) :
    gotIp (((lastReply handed).map fun capture => taken capture.frame 42).getD ⟨0, false⟩).ip =
      (address (lastReply handed)).map UInt8.toUInt32 := by
  cases found : lastReply handed with
  | none => decide
  | some capture =>
    obtain ⟨member, type, fixed⟩ := mem_of_lastReply found
    have captured := ((etherInput_isSome_iff _ _ _).mp (inside capture member)).2
    have long := fixed.length_le captured type
    exact gotIp_bytes (length_slice_of_le long)

/-- What is left of `main` once pcap is open. -/
private theorem main_opened {host : Host} {dev : List UInt8} {mac : Cells UInt8 16} (rest : List (List UInt8))
    (opens : Opens host dev mac) :
    main host (dev :: rest) = (host.pcapLoop callback ⟨0, false⟩ host.frames).map fun globals =>
      ⟨0, some (inject host (discoverFrame mac.cells)), .gotIp (gotIp globals.ip)⟩ := by
  have sent := dhcpDiscovery_run host.packet.length_cells mac.length_cells
  rw [main, if_neg opens.device]
  simp only [opens.filled, opens.handle, sent, Option.bind_eq_bind, Option.bind_some]
  cases host.pcapLoop callback ⟨0, false⟩ host.frames <;> rfl

/-- The offer of the server 192.168.1.1, as long as its acknowledgement. -/
def offerFrame : Ipv4Frame where
  header := ackFrame.header
  frame := replyBytes 2
  captured := by decide +kernel
  cut := ackFrame.cut
  complete := ackFrame.complete
  etherType := by decide
  version := by decide
  headerWords := by decide
  headerInside := by decide
  inside := by decide +kernel

private theorem offerFrame_storesOffersOnly : offerFrame.StoresOffersOnly := by
  have reply : FixedReply (replyBytes 2) := by decide
  have captured : HeadersCaptured (replyBytes 2) := by rw [HeadersCaptured]; decide +kernel
  rw [Ipv4Frame.storesOffersOnly_iff_tests]
  exact ⟨captured, iff_of_true reply isOffer_replyBytes, fun _ => by decide +kernel⟩

/-- A host with the address 02:00:00:00:00:01 that the offer comes in at. -/
def host : Host where
  ifreq := .fill 0
  ioctl s := some (s.put 16 [1, 0, 2, 0, 0, 0, 0, 1])
  mac := .fill 0
  pcapOpenLive _ := true
  packet := .fill 0
  pcapInject frame := frame.length
  pcapLoop := Dispatch.prompt Globals.breakloop
  frames := [offerFrame.toCaptured]

/-- `eth0` -/
def eth0 : List UInt8 := [0x65, 0x74, 0x68, 0x30]

/-- What the host leaves in `mac`. -/
def filledMac : Cells UInt8 16 := (Cells.fill 0).put 0 [2, 0, 0, 0, 0, 1]

private theorem opens_host : Opens host eth0 filledMac where
  device := by decide
  filled := getMacAddress_eq_iff.mpr ⟨by decide, _, rfl, Cells.ext (by decide)⟩
  handle := rfl

/-- If the chain is right about the first offer, every frame before it and the next one
behind it, the program prints the address that is offered: by the first offer, or by the
next frame if that is handed over as well and is an offer too. -/
theorem main_first_offer (host : Host) (orderly : Dispatch.Orderly Globals.breakloop 1 host.pcapLoop)
    (dev : List UInt8) (rest : List (List UInt8)) (mac : Cells UInt8 16) (opens : Opens host dev mac)
    (before after : List Ipv4Frame) (offer : Ipv4Frame)
    (frames : host.frames = (before ++ offer :: after).map Ipv4Frame.toCaptured)
    (right : ∀ capture ∈ before ++ offer :: after.take 1, capture.StoresOffersOnly)
    (others : ∀ capture ∈ before, ¬IsOffer capture.frame) (offered : IsOffer offer.frame) :
    ∃ shown ∈ offer :: after.take 1, IsOffer shown.frame ∧
      main host (dev :: rest) = some ⟨0, some (inject host (discoverFrame mac.cells)),
        .gotIp ((slice (message shown.frame) 16 4).map UInt8.toUInt32)⟩ := by
  have near : before ++ [offer] ⊆ before ++ offer :: after.take 1 :=
    (((List.nil_sublist _).cons_cons offer).append_left before).subset
  have quiet : ∀ capture ∈ before.map Ipv4Frame.toCaptured, ¬IsReply capture.frame :=
    List.forall_mem_map.mpr fun capture member =>
      mt (right capture (List.mem_append_left _ member)).isReply_iff.mp (others capture member)
  have found : IsReply offer.frame := (right offer (near (by simp))).isReply_iff.mpr offered
  have reaches : ∀ capture ∈ (before ++ [offer]).map Ipv4Frame.toCaptured, capture.ReadsInside ⟨0, false⟩ :=
    List.forall_mem_map.mpr fun capture member => (right capture (near member)).readsInside _
  rw [List.map_append] at reaches
  obtain ⟨handed, given, ran⟩ := orderly callback ⟨0, false⟩ host.frames
  rw [frames, List.map_append, List.map_cons] at given
  obtain ⟨late, few, rfl⟩ := handed_replied given (fun capture member _ => reaches capture member) quiet found
  have behind : (offer :: after.take late).Sublist (offer :: after.take 1) :=
    (List.take_sublist_take_left few).cons_cons offer
  have inside : ∀ capture ∈ (before ++ offer :: after.take late).map Ipv4Frame.toCaptured,
      capture.ReadsInside ⟨0, false⟩ :=
    List.forall_mem_map.mpr fun capture member =>
      (right capture ((behind.append_left before).subset member)).readsInside _
  rw [List.map_append, List.map_cons, List.map_take] at inside
  obtain ⟨last, member, reply, reached⟩ :=
    lastReply_replied ((after.map Ipv4Frame.toCaptured).take late) quiet found
  rw [← List.map_take, ← List.map_cons] at member
  obtain ⟨shown, place, rfl⟩ := List.mem_map.mp member
  have rightShown := right shown (List.mem_append_right _ (behind.subset place))
  have offers := rightShown.isReply_iff.mp reply
  refine ⟨shown, behind.subset place, offers, ?_⟩
  rw [main_opened rest opens, ran, run_callback_eq_some_iff.mpr ⟨inside, rfl⟩, Option.map_some,
    gotIp_lastReply inside, reached, address, (shown.storesOffersOnly_iff_tests.mp rightShown).2.2 offers]

theorem main_first_offer_host : ∃ shown ∈ [offerFrame], IsOffer shown.frame ∧
    main host [eth0] = some ⟨0, some (inject host (discoverFrame filledMac.cells)),
      .gotIp ((slice (message shown.frame) 16 4).map UInt8.toUInt32)⟩ :=
  main_first_offer host (Dispatch.prompt_orderly 1) eth0 [] filledMac opens_host [] [] offerFrame rfl
    (List.forall_mem_singleton.mpr offerFrame_storesOffersOnly)
    nofun isOffer_replyBytes

end HamachiLike.Dhcp.Session
