import HamachiLike.Dhcp.Options
import HamachiLike.Dhcp.ReadBack
import HamachiLike.Library.Run
import Mathlib.Data.List.Induction

/-! One frame buffer used for several messages. Both check fields stand inside
the bytes they sum and are not cleared first, and an odd datagram is summed with
the byte behind it, so a frame can depend on the frames before it. -/

namespace HamachiLike.Dhcp

open Buffer LittleEndian OnesComplement

/-- The packet of a message: broadcast, no addresses but the client's. -/
def messageArgs (options : List DhcpOption) (clientIP : Vector UInt8 4) (mac : Vector UInt8 6)
    (fits : 14 + 20 + 8 + 240 + (encodeOptions options).length + 1 ≤ 1500) : PacketArgs where
  macDst := #v[0xff, 0xff, 0xff, 0xff, 0xff, 0xff]
  macSrc := mac
  clientIP := clientIP
  yourIP := #v[0, 0, 0, 0]
  serverIP := #v[0, 0, 0, 0]
  gatewayIP := #v[0, 0, 0, 0]
  dhcpOptions := encodeOptions options
  fits := fits

/-- A message is the packet of its options, wherever its option buffer lies. -/
private theorem dhcpMessage_eq {options : List DhcpOption} {clientIP : List UInt8} {client : Vector UInt8 4}
    (same : ∀ off, memcpy off clientIP 4 = memcpy off client.toList 4) (inside : writesFit 1500 0 options)
    (fits : 14 + 20 + 8 + 240 + (encodeOptions options).length + 1 ≤ 1500) (base : UInt64)
    (mac : Vector UInt8 6) :
    dhcpMessage (options.map DhcpOption.call) clientIP base mac.toList =
      (messageArgs options client mac fits).run := by
  have room : (List.replicate 1500 (0 : UInt8)).length = 1500 := List.length_replicate
  obtain ⟨size, after, called, _, total, bytes, _⟩ :=
    @addOptions_run base (List.replicate 1500 0) _ 0 (by rwa [room])
      (by rw [UInt16.toNat_zero, ← encodeOptions]; omega)
  rw [UInt16.toNat_zero, Nat.zero_add] at total
  rw [List.map_map] at called
  have encoded : slice after 0 size.toNat = (messageArgs options client mac fits).dhcpOptions := by
    rw [bytes]
    rfl
  have empty (off : Nat) : memcpy off emptyAddr 4 =
      memcpy off (#v[0, 0, 0, 0] : Vector UInt8 4).toList 4 := rfl
  have packet := (messageArgs options client mac fits).run_of_options total encoded
  rw [← packet, dhcpMessage]
  have calls : DhcpOption.call = OptionArgs.call ∘ DhcpOption.args := rfl
  rw [calls, called]
  simp only [dhcpPacket, setupMainDhcp, same, empty, messageArgs]
  rfl

/-- One call on the frame buffer. -/
inductive Call
  | packet (args : PacketArgs)
  | discover (mac : Vector UInt8 6)
  | leaseQuery (mac : Vector UInt8 6)
  | request (mac : Vector UInt8 6)

namespace Call

/-- `base` is where the local option buffer of a message lies. -/
def run (base : UInt64) : Call → Mem UInt8 Int16
  | packet args => args.run
  | discover mac => dhcpDiscover base mac.toList
  | leaseQuery mac => dhcpLeaseQuery base mac.toList
  | request mac => dhcpRequest base mac.toList

/-- The packet that a call builds. -/
def args : Call → PacketArgs
  | packet args => args
  | discover mac => messageArgs discoverOptions #v[0, 0, 0, 0] mac (by decide)
  | leaseQuery mac => messageArgs leaseQueryOptions #v[192, 168, 1, 100] mac (by decide)
  | request mac => messageArgs requestOptions #v[0, 0, 0, 0] mac (by decide)

theorem run_eq (base : UInt64) (call : Call) : call.run base = call.args.run := by
  cases call with
  | packet args => rfl
  | discover mac =>
    exact @dhcpMessage_eq discoverOptions _ #v[0, 0, 0, 0] (fun _ => rfl)
      (by simp [writesFit, callsFit, discoverOptions, DhcpOption.args, OptionArgs.size]) (by decide) base mac
  | leaseQuery mac =>
    exact @dhcpMessage_eq leaseQueryOptions _ #v[192, 168, 1, 100] (fun _ => rfl)
      (by simp [writesFit, callsFit, leaseQueryOptions, DhcpOption.args, OptionArgs.size]) (by decide)
      base mac
  | request mac =>
    exact @dhcpMessage_eq requestOptions _ #v[0, 0, 0, 0] (fun _ => rfl)
      (by simp [writesFit, callsFit, requestOptions, requestip, DhcpOption.args, OptionArgs.size])
      (by decide) base mac

/-- What is sent after the call. -/
def frameOn (base : UInt64) (call : Call) (buf : List UInt8) : Option (List UInt8) :=
  ((call.run base).run buf).map returnedFrame

end Call

/-- The byte that earlier frames, latest first, left at a place behind the headers. -/
def staleByte : List PacketArgs → Nat → UInt8
  | [], _ => 0
  | last :: earlier, place =>
    if place < last.length then (last.dhcpOptions ++ [0xff]).getD (place - 282) 0
    else staleByte earlier place

/-- What the byte behind an odd frame adds to a word sum. -/
def behind (earlier : List PacketArgs) (args : PacketArgs) : Nat :=
  if args.length % 2 = 1 then (staleByte earlier args.length).toNat else 0

/-- The end of chaddr, the sname and the file in a buffer cleared once. -/
def untouched : List UInt8 := List.replicate 202 0

/-- The IP header sums of earlier frames, latest first, with alternating signs. -/
def carriedIp : List PacketArgs → Int
  | [] => 0
  | last :: earlier => -(last.ipBase + carriedIp earlier)

/-- The same for the datagrams, each with the byte behind it. -/
def carriedUdp : List PacketArgs → Int
  | [] => 0
  | last :: earlier =>
    -(last.udpBase untouched + 256 * behind earlier last + carriedUdp earlier)

/-- What earlier frames leave in the buffer, as far as a next frame reads it. -/
structure Carries (earlier : List PacketArgs) (buf : List UInt8) : Prop where
  size : buf.length = 1500
  gap : slice buf 76 202 = untouched
  ipCheck : (nativeSum (slice buf 24 2) : Int) ≡ carriedIp earlier [ZMOD 65535]
  udpCheck : (nativeSum (slice buf 40 2) : Int) ≡ carriedUdp earlier [ZMOD 65535]
  options : ∀ place, 282 ≤ place → place < 1500 → slice buf place 1 = [staleByte earlier place]

theorem carries_zeroedBuf : Carries [] zeroedBuf where
  size := length_zeroedBuf
  gap := slice_zeroedBuf (by omega)
  ipCheck := by rw [slice_zeroedBuf (by omega)]; rfl
  udpCheck := by rw [slice_zeroedBuf (by omega)]; rfl
  options := fun place _ inside => slice_zeroedBuf (by omega)

variable {earlier : List PacketArgs} {buf : List UInt8} (args : PacketArgs)

theorem Carries.padding (carries : Carries earlier buf) :
    ofBytes (args.padding buf) = behind earlier args := by
  have bound := args.length_le
  have lower := args.le_length
  rcases Nat.mod_two_eq_zero_or_one args.length with even | odd
  · rw [PacketArgs.padding, behind, even, if_neg (by decide)]
    simp [slice, ofBytes]
  · rw [PacketArgs.padding, behind, odd, if_pos rfl, carries.options _ (by omega) (by omega)]
    simp [ofBytes]

theorem slice_frame_checks (buf : List UInt8) :
    slice (args.frame buf) 24 2 = checkBytes (args.ipSum (slice buf 24 2)) ∧
      slice (args.frame buf) 40 2 =
        checkBytes (args.udpSum (slice buf 40 2) (slice buf 76 202) (args.padding buf)) := by
  simp (disch := simp) only [PacketArgs.frame, PacketArgs.layout, PacketArgs.etherBlock,
    PacketArgs.ipBlock, PacketArgs.udpBlock, List.append_assoc, slice_append_right, slice_append_left]
  simp [slice_all]

/-- The byte of a frame behind its headers. -/
private theorem slice_frame_option (size : buf.length = 1500) {place : Nat} (lower : 282 ≤ place)
    (inside : place < args.length) :
    slice (args.frame buf) place 1 = [(args.dhcpOptions ++ [0xff]).getD (place - 282) 0] := by
  have count : (args.dhcpOptions ++ [0xff]).length = args.length - 282 := by
    simp [PacketArgs.length]
    omega
  have from282 : slice (args.frame buf) place 1 =
      slice ((args.frame buf).drop 282) (place - 282) 1 := by
    rw [slice, slice, List.drop_drop, show 282 + (place - 282) = place by omega]
  rw [from282, args.drop_frame_options size, slice, List.drop_eq_getElem_cons (by omega),
    List.take_succ_cons, List.take_zero, List.getD_eq_getElem?_getD,
    List.getElem?_eq_getElem (by omega), Option.getD_some]

/-- A frame leaves its own sums behind, and those before it with their sign changed. -/
theorem Carries.frame (carries : Carries earlier buf) :
    Carries (args :: earlier) (writeAt buf 0 (args.frame buf)) := by
  have size := carries.size
  have bound := args.length_le
  have lower := args.le_length
  have whole := args.length_frame size
  have written {off len : Nat} (inside : off + len ≤ args.length) :
      slice (writeAt buf 0 (args.frame buf)) off len = slice (args.frame buf) off len :=
    slice_writeAt_inside (by omega) (by omega) (by omega)
  obtain ⟨ip, udp⟩ := slice_frame_checks args buf
  refine ⟨by rw [length_writeAt, size], ?_, ?_, ?_, ?_⟩
  · rw [written (by omega), (args.slice_frame_dhcp buf size).2.1, carries.gap]
  · rw [written (by omega), ip, nativeSum_checkBytes, args.ipSum_eq (length_slice_of_le (by omega)),
      carriedIp]
    refine (complement_modEq_neg (by decide : 2 ≤ 65536) _).trans (Int.ModEq.neg ?_)
    rw [Nat.cast_add]
    exact carries.ipCheck.add_left _
  · rw [written (by omega), udp, nativeSum_checkBytes, args.udpSum_buf size, carries.gap,
      carries.padding, carriedUdp]
    refine (complement_modEq_neg (by decide : 2 ≤ 65536) _).trans (Int.ModEq.neg ?_)
    have summed := carries.udpCheck.add_left (args.udpBase untouched + 256 * behind earlier args : Int)
    convert summed using 1
    push_cast
    omega
  · intro place front inside
    rw [staleByte]
    split
    · rename_i within
      rw [written (by omega), slice_frame_option args size front within]
    · rw [slice_writeAt_outside (by omega), carries.options place front inside]

theorem Call.frameOn_eq (base : UInt64) (call : Call) (size : buf.length = 1500) :
    call.frameOn base buf = some (call.args.frame buf) := by
  rw [Call.frameOn, Call.run_eq, PacketArgs.run_eq _ size, Option.map_some,
    PacketArgs.returnedFrame_eq _ size]

end HamachiLike.Dhcp
