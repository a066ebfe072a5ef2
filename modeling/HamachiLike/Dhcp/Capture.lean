import HamachiLike.Dhcp.Packet

/-! The receive chain of dhcp.cpp over a captured frame, and the bytes of it that the
chain reads. What is printed is left out. -/

namespace HamachiLike.Dhcp.Capture

open Buffer LittleEndian

def dhcpOptionOffer : UInt8 := 2
def dhcpServerPort : UInt16 := 67
def ethertypeIp : UInt16 := 0x0800

inductive VerboseLevel
  | none
  | error
  | info
  | debug
  deriving DecidableEq

def programVerboseLevel : VerboseLevel := .debug

/-- The global `ip`, and whether the capture loop has been broken. -/
structure Globals where
  ip : UInt32
  breakloop : Bool

/-- `struct pcap_pkthdr` without its timestamp. -/
structure PcapPkthdr where
  caplen : UInt32
  len : UInt32

/-- The loop from `i` on. -/
def printPacketFrom (i : Nat) : Nat → Mem UInt8 PUnit
  | 0 => return ⟨⟩
  | rest + 1 => do
    let _ ← load i 1
    printPacketFrom (i + 1) rest

def printPacket (len : Int) : Mem UInt8 PUnit := printPacketFrom 0 len.toNat

def dhcpInput (dhcp : Nat) (globals : Globals) : Mem UInt8 Globals := do
  let opcode ← load dhcp 1
  if opcode ≠ [dhcpOptionOffer] then return globals
  let yiaddr ← load (dhcp + 16) 4
  return { ip := swap32 (UInt32.ofNat (ofBytes yiaddr)), breakloop := true }

def udpInput (udpPacket : Nat) (globals : Globals) : Mem UInt8 Globals := do
  let uhSport ← load udpPacket 2
  if swap16 (UInt16.ofNat (ofBytes uhSport)) = dhcpServerPort then dhcpInput (udpPacket + 8) globals
  else return globals

def ipInput (ipPacket : Nat) (globals : Globals) : Mem UInt8 Globals := do
  let ipP ← load (ipPacket + 9) 1
  if ipP = [ipprotoUdp] then udpInput (ipPacket + 20) globals
  else return globals

def etherInput (header : PcapPkthdr) (globals : Globals) : Mem UInt8 Globals := do
  if programVerboseLevel = .debug then printPacket (asInt header.len.toNat)
  let etherType ← load 12 2
  if swap16 (UInt16.ofNat (ofBytes etherType)) = ethertypeIp then ipInput 14 globals
  else return globals

/-- What pcap delivers. -/
structure Captured where
  header : PcapPkthdr
  frame : List UInt8
  captured : frame.length = header.caplen.toNat
  cut : header.caplen ≤ header.len

/-- The chain runs to its end on the captured bytes alone. -/
def Captured.ReadsInside (capture : Captured) (globals : Globals) : Prop :=
  ((etherInput capture.header globals).run capture.frame).isSome

variable (frame : List UInt8) (globals : Globals)

/-- The loop reads every byte up to its bound and changes none. -/
private theorem printPacketFrom_isSome (i rest : Nat) (next : PUnit → Mem UInt8 Globals) :
    ((printPacketFrom i rest >>= next).run frame).isSome ↔
      (rest = 0 ∨ i + rest ≤ frame.length) ∧ ((next ⟨⟩).run frame).isSome := by
  induction rest generalizing i with
  | zero =>
    rw [printPacketFrom, pure_bind]
    exact ⟨fun inside => ⟨.inl rfl, inside⟩, fun both => both.2⟩
  | succ rest ih =>
    rw [printPacketFrom, bind_assoc, isSome_load_bind, ih, ← and_assoc]
    refine and_congr_left fun _ => ?_
    omega

private theorem dhcpInput_isSome (dhcp : Nat) :
    ((dhcpInput dhcp globals).run frame).isSome ↔ dhcp + 1 ≤ frame.length ∧
      (slice frame dhcp 1 = [dhcpOptionOffer] → dhcp + 20 ≤ frame.length) := by
  unfold dhcpInput
  rw [isSome_load_bind]
  refine and_congr_right fun _ => ?_
  by_cases offer : slice frame dhcp 1 = [dhcpOptionOffer]
  · rw [if_neg (not_not_intro offer), isSome_load_bind]
    exact ⟨fun both _ => both.1, fun inside => ⟨inside offer, rfl⟩⟩
  · rw [if_pos offer]
    exact iff_of_true rfl fun isOffer => absurd isOffer offer

private theorem udpInput_isSome (udpPacket : Nat) :
    ((udpInput udpPacket globals).run frame).isSome ↔ udpPacket + 2 ≤ frame.length ∧
      (slice frame udpPacket 2 = [0, 67] → ((dhcpInput (udpPacket + 8) globals).run frame).isSome) := by
  unfold udpInput
  rw [isSome_load_bind, isSome_ite]
  refine and_congr_right fun fits => ?_
  rw [swap16_ofBytes_eq_iff (length_slice_of_le fits)]
  rfl

private theorem ipInput_isSome (ipPacket : Nat) :
    ((ipInput ipPacket globals).run frame).isSome ↔ ipPacket + 10 ≤ frame.length ∧
      (slice frame (ipPacket + 9) 1 = [ipprotoUdp] →
        ((udpInput (ipPacket + 20) globals).run frame).isSome) := by
  unfold ipInput
  rw [isSome_load_bind, isSome_ite]

/-- At its verbosity the program prints each frame before it looks at it. -/
theorem etherInput_eq (header : PcapPkthdr) :
    etherInput header globals = printPacketFrom 0 (asInt header.len.toNat).toNat >>= fun _ =>
      load 12 2 >>= fun etherType =>
        if swap16 (UInt16.ofNat (ofBytes etherType)) = ethertypeIp then ipInput 14 globals
        else return globals := rfl

private theorem etherInput_isSome (header : PcapPkthdr) :
    ((etherInput header globals).run frame).isSome ↔ (asInt header.len.toNat).toNat ≤ frame.length ∧
      14 ≤ frame.length ∧ (slice frame 12 2 = [8, 0] → ((ipInput 14 globals).run frame).isSome) := by
  rw [etherInput_eq, printPacketFrom_isSome, isSome_load_bind, isSome_ite]
  refine and_congr (by omega) (and_congr_right fun fits => ?_)
  rw [swap16_ofBytes_eq_iff (length_slice_of_le fits)]
  rfl

/-- All the headers are there that the fields of the headers before them ask for. -/
def HeadersCaptured : Prop :=
  14 ≤ frame.length ∧ (slice frame 12 2 = [8, 0] →
    24 ≤ frame.length ∧ (slice frame 23 1 = [ipprotoUdp] →
      36 ≤ frame.length ∧ (slice frame 34 2 = [0, 67] →
        43 ≤ frame.length ∧ (slice frame 42 1 = [dhcpOptionOffer] → 62 ≤ frame.length))))

/-- They are in every frame that reaches to the end of `yiaddr`. -/
theorem headersCaptured_of_length {frame : List UInt8} (long : 62 ≤ frame.length) : HeadersCaptured frame :=
  ⟨by omega, fun _ => ⟨by omega, fun _ => ⟨by omega, fun _ => ⟨by omega, fun _ => long⟩⟩⟩⟩

theorem etherInput_isSome_iff (header : PcapPkthdr) :
    ((etherInput header globals).run frame).isSome ↔
      (asInt header.len.toNat).toNat ≤ frame.length ∧ HeadersCaptured frame := by
  rw [etherInput_isSome, ipInput_isSome, udpInput_isSome, dhcpInput_isSome]
  exact Iff.rfl

/-- The chain stays inside exactly if the frame was captured whole, or is too long for
an int, and has all the headers. -/
theorem readsInside_iff (capture : Captured) (globals : Globals) :
    capture.ReadsInside globals ↔
      (capture.header.len.toNat < 2 ^ 31 → capture.header.len = capture.header.caplen) ∧
        HeadersCaptured capture.frame := by
  rw [Captured.ReadsInside, etherInput_isSome_iff]
  refine and_congr_left fun _ => ?_
  have order := UInt32.le_iff_toNat_le.mp capture.cut
  have bound := capture.header.len.toNat_lt
  rw [asInt_eq, capture.captured, Nat.mod_eq_of_lt bound, ← UInt32.toNat_inj]
  split_ifs with small
  · rw [forall_prop_of_true small]
    omega
  · exact iff_of_true (by omega) fun held => absurd held small

/-- A jumbo frame, of which the capture length leaves 8192 bytes. -/
def jumbo : Captured where
  header := ⟨8192, 9000⟩
  frame := List.replicate 8192 0
  captured := List.length_replicate
  cut := by decide

theorem jumbo_not_readsInside : ¬jumbo.ReadsInside ⟨0, false⟩ := by
  intro inside
  have printed := ((etherInput_isSome jumbo.frame ⟨0, false⟩ jumbo.header).mp inside).1
  rw [jumbo.captured] at printed
  exact absurd printed (by decide)

end HamachiLike.Dhcp.Capture
