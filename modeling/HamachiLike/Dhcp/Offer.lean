import HamachiLike.Dhcp.Capture
import HamachiLike.Dhcp.Options
import HamachiLike.Dhcp.ReadBack

/-! Which frames are offers of a DHCP server, and which of them the receive chain of
dhcp.cpp takes for one. -/

namespace HamachiLike.Dhcp.Capture

open Buffer LittleEndian

def dhcpBootreply : UInt8 := 2
def messageTypeDhcp : UInt8 := 53
def dhcpMagicCookie : List UInt8 := [0x63, 0x82, 0x53, 0x63]

/-! The layers of a frame, each found where the header before it ends. -/

def ipHl (frame : List UInt8) : Nat := ofBytes (slice frame 14 1) % 16
def ipV (frame : List UInt8) : Nat := ofBytes (slice frame 14 1) / 16
def ipLen (frame : List UInt8) : Nat := networkShort frame 16

/-- Where the UDP header starts. -/
def udpPlace (frame : List UInt8) : Nat := 14 + 4 * ipHl frame

def uhUlen (frame : List UInt8) : Nat := networkShort frame (udpPlace frame + 4)

/-- The data of the UDP datagram. -/
def message (frame : List UInt8) : List UInt8 := slice frame (udpPlace frame + 8) (uhUlen frame - 8)

/-- A frame captured whole that carries an IPv4 packet, with or without padding behind it. -/
structure Ipv4Frame extends Captured where
  complete : header.len = header.caplen
  etherType : slice frame 12 2 = [8, 0]
  version : ipV frame = 4
  headerWords : 5 ≤ ipHl frame
  headerInside : 4 * ipHl frame ≤ ipLen frame
  inside : 14 + ipLen frame ≤ frame.length

/-- Neither the more-fragments bit nor the fragment offset is set. -/
def Unfragmented (frame : List UInt8) : Prop := networkShort frame 20 % 2 ^ 14 = 0

/-- The datagram is as long as its header says and inside the IP packet. -/
def DatagramInside (frame : List UInt8) : Prop :=
  8 ≤ uhUlen frame ∧ 4 * ipHl frame + uhUlen frame ≤ ipLen frame

/-- Option 53 of a DHCP message. -/
def messageType (message : List UInt8) : Option (List UInt8) :=
  (readOptions (message.drop 240)).bind fun (options, _) => options.lookup messageTypeDhcp

/-- A message that belongs to DHCP and offers an address. -/
def TypedOffer (message : List UInt8) : Prop :=
  slice message 236 4 = dhcpMagicCookie ∧ messageType message = some [dhcpOptionOffer]

/-- `yiaddr` as a number. -/
def offeredAddress (message : List UInt8) : UInt32 := UInt32.ofNat (ofBytes (slice message 16 4).reverse)

/-- A DHCP OFFER of a server. -/
structure IsOffer (frame : List UInt8) : Prop where
  udp : slice frame 23 1 = [ipprotoUdp]
  unfragmented : Unfragmented frame
  datagram : DatagramInside frame
  server : slice frame (udpPlace frame) 2 = [0, 67]
  reply : slice (message frame) 0 1 = [dhcpBootreply]
  typed : TypedOffer (message frame)

/-- The chain stores the offered address and breaks the loop if the frame is an offer,
and does neither if it is not. -/
def Ipv4Frame.StoresOffersOnly (capture : Ipv4Frame) : Prop :=
  ∀ ip : UInt32,
    (IsOffer capture.frame → (etherInput capture.header ⟨ip, false⟩).run capture.frame =
      some (⟨offeredAddress (message capture.frame), true⟩, capture.frame)) ∧
    (¬IsOffer capture.frame → (etherInput capture.header ⟨ip, false⟩).run capture.frame =
      some (⟨ip, false⟩, capture.frame))

/-- What the code tests, at the places of a frame without IP options. -/
def FixedReply (frame : List UInt8) : Prop :=
  slice frame 23 1 = [ipprotoUdp] ∧ slice frame 34 2 = [0, 67] ∧ slice frame 42 1 = [dhcpOptionOffer]

instance (frame : List UInt8) : Decidable (FixedReply frame) := inferInstanceAs (Decidable (_ ∧ _ ∧ _))

/-- The condition on a frame under which the tests at the fixed places are enough. -/
structure TestsSuffice (frame : List UInt8) : Prop where
  /-- Without IP options every reply from the server port is an offer in one piece. -/
  plain : ipHl frame = 5 → FixedReply frame →
    Unfragmented frame ∧ DatagramInside frame ∧ TypedOffer (message frame)
  /-- Behind IP options bytes that look like a reply stand in an offer with the same address there. -/
  mistaken : 5 < ipHl frame → FixedReply frame →
    IsOffer frame ∧ slice frame 58 4 = slice (message frame) 16 4
  /-- Behind IP options no offer lacks those bytes. -/
  missed : 5 < ipHl frame → ¬FixedReply frame → ¬IsOffer frame

variable {frame : List UInt8}

theorem run_printPacketFrom_bind (i rest : Nat) (fits : i + rest ≤ frame.length)
    (next : PUnit → Mem UInt8 Globals) :
    (printPacketFrom i rest >>= next).run frame = (next ⟨⟩).run frame := by
  induction rest generalizing i with
  | zero => rw [printPacketFrom, pure_bind]
  | succ rest ih =>
    rw [printPacketFrom, bind_assoc, run_load_bind (by omega)]
    exact ih (i + 1) (by omega)

/-- What the chain leaves behind if it takes the message at an offset. -/
def taken (frame : List UInt8) (dhcp : Nat) : Globals :=
  { ip := swap32 (UInt32.ofNat (ofBytes (slice frame (dhcp + 16) 4))), breakloop := true }

private theorem dhcpInput_run (dhcp : Nat) (globals : Globals) (fits : dhcp + 1 ≤ frame.length)
    (body : slice frame dhcp 1 = [dhcpOptionOffer] → dhcp + 20 ≤ frame.length) :
    (dhcpInput dhcp globals).run frame =
      some (if slice frame dhcp 1 = [dhcpOptionOffer] then taken frame dhcp else globals, frame) := by
  rw [dhcpInput, run_load_bind fits]
  by_cases offer : slice frame dhcp 1 = [dhcpOptionOffer]
  · have inside : dhcp + 16 + 4 ≤ frame.length := body offer
    rw [if_pos offer, if_neg (not_not_intro offer), run_load_bind inside]
    rfl
  · rw [if_neg offer, if_pos offer]
    rfl

private theorem udpInput_run (udpPacket : Nat) (globals : Globals) (fits : udpPacket + 2 ≤ frame.length)
    (body : slice frame udpPacket 2 = [0, 67] → udpPacket + 8 + 1 ≤ frame.length ∧
      (slice frame (udpPacket + 8) 1 = [dhcpOptionOffer] → udpPacket + 8 + 20 ≤ frame.length)) :
    (udpInput udpPacket globals).run frame =
      some (if slice frame udpPacket 2 = [0, 67] ∧ slice frame (udpPacket + 8) 1 = [dhcpOptionOffer]
        then taken frame (udpPacket + 8) else globals, frame) := by
  have port : swap16 (UInt16.ofNat (ofBytes (slice frame udpPacket 2))) = dhcpServerPort ↔
      slice frame udpPacket 2 = [0, 67] := swap16_ofBytes_eq_iff (length_slice_of_le fits) _
  rw [udpInput, run_load_bind fits]
  by_cases server : slice frame udpPacket 2 = [0, 67]
  · obtain ⟨header, message⟩ := body server
    rw [if_pos (port.mpr server), dhcpInput_run _ globals header message]
    simp only [server, true_and]
  · rw [if_neg (mt port.mp server), if_neg (fun both => server both.1)]
    rfl

theorem etherInput_run (header : PcapPkthdr) (globals : Globals)
    (printed : (asInt header.len.toNat).toNat ≤ frame.length) (captured : HeadersCaptured frame)
    (etherType : slice frame 12 2 = [8, 0]) :
    (etherInput header globals).run frame =
      some (if FixedReply frame then taken frame 42 else globals, frame) := by
  obtain ⟨ethernet, ip⟩ := captured
  obtain ⟨ipHeader, udp⟩ := ip etherType
  have type : swap16 (UInt16.ofNat (ofBytes (slice frame 12 2))) = ethertypeIp :=
    (swap16_ofBytes_eq_iff (length_slice_of_le ethernet) ethertypeIp).mpr etherType
  rw [etherInput_eq, run_printPacketFrom_bind _ _ (by omega), run_load_bind ethernet, if_pos type, ipInput,
    run_load_bind ipHeader]
  by_cases protocol : slice frame 23 1 = [ipprotoUdp]
  · obtain ⟨port, message⟩ := udp protocol
    rw [if_pos protocol, udpInput_run 34 globals port message]
    simp only [FixedReply, protocol, true_and]
  · rw [if_neg protocol, if_neg (fun reply => protocol reply.1)]
    rfl

theorem TypedOffer.length_le {message : List UInt8} (typed : TypedOffer message) : 240 ≤ message.length := by
  have size := congrArg List.length typed.1
  rw [length_slice, dhcpMagicCookie] at size
  simp only [List.length_cons, List.length_nil] at size
  omega

private theorem IsOffer.message_le (offer : IsOffer frame) : 20 ≤ (message frame).length := by
  have long := offer.typed.length_le
  omega

theorem FixedReply.length_le (reply : FixedReply frame) (captured : HeadersCaptured frame)
    (etherType : slice frame 12 2 = [8, 0]) : 62 ≤ frame.length :=
  (((captured.2 etherType).2 reply.1).2 reply.2.1).2 reply.2.2

private theorem slice_message {inner count : Nat} (inside : inner + count ≤ (message frame).length) :
    slice (message frame) inner count = slice frame (udpPlace frame + 8 + inner) count := by
  rw [message, length_slice] at inside
  exact slice_slice frame _ _ _ _ (by omega)

/-- Both addresses are the same bytes read in network order. -/
theorem taken_eq_iff (fits : 62 ≤ frame.length) (long : 20 ≤ (message frame).length) :
    taken frame 42 = ⟨offeredAddress (message frame), true⟩ ↔
      slice frame 58 4 = slice (message frame) 16 4 := by
  have four := length_slice_of_le (by omega : 58 + 4 ≤ frame.length)
  have four' := length_slice_of_le (by omega : 16 + 4 ≤ (message frame).length)
  have bound := ofBytes_lt (slice frame 58 4).reverse
  have bound' := ofBytes_lt (slice (message frame) 16 4).reverse
  rw [List.length_reverse, four] at bound
  rw [List.length_reverse, four'] at bound'
  rw [taken, offeredAddress, swap32_ofBytes four]
  constructor
  · intro same
    have values := congrArg UInt32.toNat (congrArg Globals.ip same)
    rw [UInt32.toNat_ofNat_of_lt' bound, UInt32.toNat_ofNat_of_lt' bound'] at values
    exact List.reverse_inj.mp (ofBytes_injective (by simp [four, four']) values)
  · intro same
    rw [same]

namespace Ipv4Frame

variable (capture : Ipv4Frame)

/-- A frame captured whole is printed inside its bytes. -/
theorem printed : (asInt capture.header.len.toNat).toNat ≤ capture.frame.length := by
  have bound := capture.header.len.toNat_lt
  rw [capture.captured, ← capture.complete, asInt_eq, Nat.mod_eq_of_lt bound]
  split_ifs <;> omega

theorem storesOffersOnly_iff_tests : capture.StoresOffersOnly ↔ HeadersCaptured capture.frame ∧
    (FixedReply capture.frame ↔ IsOffer capture.frame) ∧
    (IsOffer capture.frame → slice capture.frame 58 4 = slice (message capture.frame) 16 4) := by
  have runs (captured : HeadersCaptured capture.frame) (ip : UInt32) :=
    etherInput_run capture.header ⟨ip, false⟩ capture.printed captured capture.etherType
  constructor
  · intro stores
    obtain ⟨offered, other⟩ := stores 0
    have captured : HeadersCaptured capture.frame := by
      apply ((etherInput_isSome_iff _ ⟨0, false⟩ capture.header).mp _).2
      by_cases offer : IsOffer capture.frame
      · rw [offered offer]
        rfl
      · rw [other offer]
        rfl
    have run := runs captured 0
    have test : FixedReply capture.frame ↔ IsOffer capture.frame := by
      constructor
      · intro reply
        by_contra noOffer
        rw [if_pos reply, other noOffer] at run
        simp [taken] at run
      · intro offer
        by_contra noReply
        rw [if_neg noReply, offered offer] at run
        simp at run
    refine ⟨captured, test, ?_⟩
    intro offer
    have reply := test.mpr offer
    rw [if_pos reply, offered offer] at run
    have same := (Prod.mk.inj (Option.some.inj run)).1
    exact (taken_eq_iff (reply.length_le captured capture.etherType) offer.message_le).mp same.symm
  · rintro ⟨captured, test, address⟩ ip
    have run := runs captured ip
    constructor
    · intro offer
      have reply := test.mpr offer
      have fits := reply.length_le captured capture.etherType
      rw [run, if_pos reply, (taken_eq_iff fits offer.message_le).mpr (address offer)]
    · intro noOffer
      rw [run, if_neg (mt test.mp noOffer)]

/-- Without IP options the headers are where the code looks for them. -/
theorem isOffer_iff_of_plain (plain : ipHl frame = 5) :
    IsOffer frame ↔ FixedReply frame ∧
      Unfragmented frame ∧ DatagramInside frame ∧ TypedOffer (message frame) := by
  have place : udpPlace frame = 34 := by rw [udpPlace, plain]
  have first (typed : TypedOffer (message frame)) : slice (message frame) 0 1 = slice frame 42 1 := by
    have long := typed.length_le
    rw [slice_message (by omega), place]
  constructor
  · intro offer
    have server := offer.server
    have reply := offer.reply
    rw [place] at server
    rw [first offer.typed] at reply
    exact ⟨⟨offer.udp, server, reply⟩, offer.unfragmented, offer.datagram, offer.typed⟩
  · rintro ⟨⟨udp, server, opcode⟩, unfragmented, datagram, typed⟩
    rw [← first typed] at opcode
    rw [← place] at server
    exact ⟨udp, unfragmented, datagram, server, opcode, typed⟩

private theorem slice_yiaddr_of_plain (plain : ipHl frame = 5) (offer : IsOffer frame) :
    slice frame 58 4 = slice (message frame) 16 4 := by
  have long := offer.message_le
  rw [slice_message (by omega), udpPlace, plain]

/-- An offer without IP options is never missed. -/
theorem etherInput_offer_of_plain (plain : ipHl capture.frame = 5) (offer : IsOffer capture.frame)
    (globals : Globals) : (etherInput capture.header globals).run capture.frame =
      some (⟨offeredAddress (message capture.frame), true⟩, capture.frame) := by
  have reply := ((isOffer_iff_of_plain plain).mp offer).1
  have long := offer.typed.length_le
  rw [message, length_slice, udpPlace, plain] at long
  have captured : HeadersCaptured capture.frame := headersCaptured_of_length (by omega)
  have address := (taken_eq_iff (by omega) offer.message_le).mpr (slice_yiaddr_of_plain plain offer)
  rw [etherInput_run _ _ capture.printed captured capture.etherType, if_pos reply, address]

/-- The chain is right about a frame exactly if the headers it asks for are there and the
tests at its fixed places are enough for that frame. -/
theorem storesOffersOnly_iff :
    capture.StoresOffersOnly ↔ HeadersCaptured capture.frame ∧ TestsSuffice capture.frame := by
  rw [storesOffersOnly_iff_tests]
  refine and_congr_right fun _ => ?_
  rcases Nat.eq_or_lt_of_le capture.headerWords with plain | optioned
  · have offers := isOffer_iff_of_plain plain.symm
    constructor
    · rintro ⟨test, _⟩
      refine ⟨fun _ reply => (offers.mp (test.mp reply)).2, fun optioned => ?_, fun optioned => ?_⟩
      · omega
      · omega
    · intro suffice
      refine ⟨⟨fun reply => ?_, fun offer => (offers.mp offer).1⟩, slice_yiaddr_of_plain plain.symm⟩
      exact offers.mpr ⟨reply, suffice.plain plain.symm reply⟩
  · constructor
    · rintro ⟨test, address⟩
      refine ⟨fun plain => ?_, fun _ reply => ?_, fun _ noReply => mt test.mpr noReply⟩
      · omega
      · exact ⟨test.mp reply, address (test.mp reply)⟩
    · intro suffice
      have found (offer : IsOffer capture.frame) : FixedReply capture.frame :=
        Classical.byContradiction fun noReply => suffice.missed optioned noReply offer
      exact ⟨⟨fun reply => (suffice.mistaken optioned reply).1, found⟩,
        fun offer => (suffice.mistaken optioned (found offer)).2⟩

end Ipv4Frame

/-- A reply of the server 192.168.1.1 about the address 192.168.1.10. -/
def replyBytes (type : UInt8) : List UInt8 :=
  List.replicate 6 0xff ++ [2, 0, 0, 0, 0, 1, 8, 0] ++
    [0x45, 0, 0x01, 0x10, 0, 0, 0, 0, 64, 17, 0xb8, 0x34, 192, 168, 1, 1, 255, 255, 255, 255] ++
    [0, 67, 0, 68, 0, 0xfc, 0, 0] ++ [2, 1, 6, 0] ++ List.replicate 12 0 ++ [192, 168, 1, 10] ++
    List.replicate 216 0 ++ dhcpMagicCookie ++ [0x35, 1, type, 0xff]

private theorem messageType_single {message : List UInt8} {type : UInt8}
    (options : message.drop 240 = [0x35, 1, type, 0xff]) : messageType message = some [type] := by
  rw [messageType, options]
  simp [readOptions, messageTypeDhcp]

theorem isOffer_replyBytes : IsOffer (replyBytes 2) where
  udp := by decide
  unfragmented := by rw [Unfragmented]; decide
  datagram := by rw [DatagramInside]; decide +kernel
  server := by decide
  reply := by decide
  typed := ⟨by decide +kernel, messageType_single (by decide +kernel)⟩

/-- The acknowledgement of a lease, with option 53 being 5. -/
def ackFrame : Ipv4Frame where
  header := ⟨286, 286⟩
  frame := replyBytes 5
  captured := by decide +kernel
  cut := by decide
  complete := by decide
  etherType := by decide
  version := by decide
  headerWords := by decide
  headerInside := by decide
  inside := by decide +kernel

theorem ackFrame_not_storesOffersOnly : ¬ackFrame.StoresOffersOnly := by
  intro stores
  obtain ⟨_, test, _⟩ := ackFrame.storesOffersOnly_iff_tests.mp stores
  have reply : FixedReply (replyBytes 5) := by decide
  have options : (message (replyBytes 5)).drop 240 = [0x35, 1, 5, 0xff] := by decide +kernel
  have type := (test.mp reply).typed.2
  rw [ackFrame, messageType_single options] at type
  exact absurd type (by decide)

end HamachiLike.Dhcp.Capture
