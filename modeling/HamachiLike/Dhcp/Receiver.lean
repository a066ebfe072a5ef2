import HamachiLike.Dhcp.Layout

/-! What a receiver checks: it reads big-endian words and folds them, while the
sender summed little-endian ones. -/

namespace HamachiLike.Dhcp

open Buffer LittleEndian OnesComplement

/-- The bytes that `sendto(sockfd, buf, bufSize, ...)` puts on the wire. -/
def returnedFrame (result : Int16 × List UInt8) : List UInt8 :=
  result.2.take result.1.toNatClampNeg

/-- The ten words of the IP header sum to all ones. -/
def ipVerifies (frame : List UInt8) : Prop :=
  endAround 65536 (networkSum (slice frame 14 20)) = 0xFFFF

/-- Source, destination, protocol and UDP length, as the received frame has them. -/
def pseudoHeader (frame : List UInt8) : List UInt8 :=
  slice frame 26 4 ++ slice frame 30 4 ++ [0, 17] ++ slice frame 38 2

/-- The pseudo-header and the UDP datagram sum to all ones. -/
def udpVerifies (frame : List UInt8) : Prop :=
  endAround 65536 (networkSum (pseudoHeader frame ++ frame.drop 34)) = 0xFFFF

/-- Byte order does not matter to the check. -/
theorem networkSum_verifies_iff {bytes : List UInt8} (positive : 0 < nativeSum bytes) :
    endAround 65536 (networkSum bytes) = 0xFFFF ↔ nativeSum bytes ≡ 0 [MOD 65535] := by
  have swapped := networkSum_modEq bytes
  have coprime : Nat.gcd 65535 256 = 1 := by decide
  have some : 0 < networkSum bytes := sumHigh_pos (by decide) positive
  rw [show (0xFFFF : Nat) = 65536 - 1 from rfl, endAround_eq_top_iff (by decide) some]
  constructor
  · intro zero
    exact Nat.ModEq.cancel_left_of_coprime coprime (swapped.symm.trans zero)
  · intro zero
    exact swapped.trans (zero.mul_left 256)

namespace PacketArgs

variable (args : PacketArgs)

/-- The IP header sum without its check field. -/
def ipBase : Nat := args.ipSum [0, 0]

/-- The sum for the UDP check without the check field and any byte behind the frame. -/
def udpBase (gap : List UInt8) : Nat := args.udpSum [0, 0] gap []

theorem ipSum_eq {check : List UInt8} (pair : check.length = 2) :
    args.ipSum check = args.ipBase + nativeSum check := by
  have split (field : List UInt8) : ipBlock args.totLen field =
      ([0x45, 0x10] ++ args.totLen ++ [0, 0, 0, 0, 255, 17]) ++
        (field ++ ([0, 0, 0, 0] ++ [255, 255, 255, 255])) := by
    simp [ipBlock]
  rw [ipBase, ipSum, ipSum, split, split [0, 0], nativeSum_field _ (by simp) pair]

theorem ipBase_pos : 0 < args.ipBase := by
  have first : nativeSum [0x45, 0x10] = 0x1045 := rfl
  simp (disch := simp) only [ipBase, ipSum, ipBlock, nativeSum_append, first]
  omega

/-- The check field enters the sum on its own. -/
private theorem udpSum_check {check gap : List UInt8} (pair : check.length = 2) :
    args.udpSum check gap [] = args.udpBase gap + nativeSum check := by
  have split (field : List UInt8) :
      [0, 0, 0, 0] ++ [255, 255, 255, 255] ++ args.datagram field gap ++ [] =
        ([0, 0, 0, 0] ++ [255, 255, 255, 255] ++ [0, 68, 0, 67] ++ args.udpLen) ++
          (field ++ (args.dhcpBlock gap ++ args.dhcpOptions ++ [0xff])) := by
    simp [datagram, udpBlock]
  rw [udpBase, udpSum, udpSum, split, split [0, 0], nativeSum_field _ (by simp) pair]
  omega

/-- So does the byte behind an odd datagram, as the high half of the last word. -/
private theorem udpSum_padding {check gap pad : List UInt8} (pair : check.length = 2)
    (untouched : gap.length = 202) (odd : pad.length = args.length % 2) :
    args.udpSum check gap pad = args.udpSum check gap [] + 256 * ofBytes pad := by
  have lower := args.le_length
  have total := args.length_datagram pair untouched
  match pad, odd with
  | [], even => simp [ofBytes]
  | [last], odd =>
    rw [udpSum, udpSum, nativeSum_concat last (by simp [total] at odd ⊢; omega)]
    simp only [List.append_nil, ofBytes]
    omega
  | _ :: _ :: _, odd =>
    simp only [List.length_cons] at odd
    omega

theorem udpBase_pos (gap : List UInt8) : 0 < args.udpBase gap := by
  rw [udpBase, udpSum]
  omega

/-- Reading the frame back: the two slices a receiver sums. -/
private theorem slice_frame_ip (buf : List UInt8) :
    slice (args.frame buf) 14 20 = ipBlock args.totLen (checkBytes (args.ipSum (slice buf 24 2))) := by
  have block := length_ipBlock args.length_totLen (length_checkBytes (args.ipSum (slice buf 24 2)))
  simp only [frame, layout, List.append_assoc]
  rw [slice_append_right (by simp), length_etherBlock, ← block]
  exact slice_prefix _ _

private theorem drop_frame_udp (buf : List UInt8) :
    (args.frame buf).drop 34 = args.datagram
      (checkBytes (args.udpSum (slice buf 40 2) (slice buf 76 202) (args.padding buf)))
      (slice buf 76 202) := by
  have split : args.frame buf =
      (args.etherBlock ++ ipBlock args.totLen (checkBytes (args.ipSum (slice buf 24 2)))) ++
        args.datagram (checkBytes (args.udpSum (slice buf 40 2) (slice buf 76 202) (args.padding buf)))
          (slice buf 76 202) := by
    simp [frame, layout, datagram]
  have front : (args.etherBlock ++
      ipBlock args.totLen (checkBytes (args.ipSum (slice buf 24 2)))).length = 34 := by
    simp [length_ipBlock]
  rw [split, ← front]
  exact List.drop_left

private theorem pseudoHeader_frame (buf : List UInt8) :
    pseudoHeader (args.frame buf) =
      [0, 0, 0, 0] ++ [255, 255, 255, 255] ++ [0, 17] ++ args.udpLen := by
  simp (disch := simp) only [pseudoHeader, frame, layout, etherBlock, ipBlock, udpBlock,
    List.append_assoc, slice_append_right, slice_append_left]
  simp [slice_all]

theorem length_frame {buf : List UInt8} (size : buf.length = 1500) :
    (args.frame buf).length = args.length :=
  args.length_layout (by simp) (by simp) (by simp) (by simp) (length_slice_of_le (by omega))

theorem getLast?_frame (buf : List UInt8) : (args.frame buf).getLast? = some 0xff := by
  simp [frame, layout]

/-- What is sent is the frame that was written. -/
theorem returnedFrame_eq {buf : List UInt8} (size : buf.length = 1500) :
    returnedFrame (Int16.ofNat args.length, writeAt buf 0 (args.frame buf)) = args.frame buf := by
  have bound := args.length_le
  have whole := args.length_frame size
  have written := slice_writeAt_same (by omega : 0 + (args.frame buf).length ≤ buf.length)
  rw [returnedFrame, Int16.toNatClampNeg_ofNat_of_lt (by omega), ← whole]
  exact written

/-- The IP header of a frame verifies when the check field held a zero before. -/
theorem ipVerifies_iff {buf : List UInt8} (size : buf.length = 1500) :
    ipVerifies (args.frame buf) ↔ nativeSum (slice buf 24 2) ≡ 0 [MOD 65535] := by
  have positive := args.ipBase_pos
  have summed : nativeSum (slice (args.frame buf) 14 20) =
      args.ipBase + (65535 - endAround 65536 (args.ipBase + nativeSum (slice buf 24 2))) := by
    rw [slice_frame_ip, ← ipSum, ipSum_eq _ (by simp), nativeSum_checkBytes,
      ipSum_eq _ (length_slice_of_le (by omega))]
  rw [ipVerifies, networkSum_verifies_iff (by omega), summed]
  exact complement_cancels_iff (by decide : 2 ≤ 65536) _ _

/-- The receiver's words are the sender's, the protocol and the length in another place. -/
private theorem nativeSum_received (check gap : List UInt8) :
    nativeSum ([0, 0, 0, 0] ++ [255, 255, 255, 255] ++ [0, 17] ++ args.udpLen ++
      args.datagram check gap) = args.udpSum check gap [] := by
  have protocol : nativeSum [0, 17] = 0x1100 := rfl
  rw [udpSum, List.append_nil, nativeSum_append _ (by simp), nativeSum_append _ (by simp),
    nativeSum_append _ (by simp), nativeSum_append (args.datagram check gap) (by simp), protocol]
  omega

/-- What the sender summed over `buf`, split into the frame's own part and the stale part. -/
theorem udpSum_buf {buf : List UInt8} (size : buf.length = 1500) :
    args.udpSum (slice buf 40 2) (slice buf 76 202) (args.padding buf) =
      args.udpBase (slice buf 76 202) +
        (nativeSum (slice buf 40 2) + 256 * ofBytes (args.padding buf)) := by
  have bound := args.length_le
  have field := length_slice_of_le (by omega : 40 + 2 ≤ buf.length)
  rw [udpSum_padding args field (length_slice_of_le (by omega)), udpSum_check args field, Nat.add_assoc]
  exact length_slice_of_le (by omega)

/-- The datagram verifies when the check field and the byte behind an odd
datagram were zero before, up to the two forms of zero. -/
theorem udpVerifies_iff {buf : List UInt8} (size : buf.length = 1500) :
    udpVerifies (args.frame buf) ↔
      nativeSum (slice buf 40 2) + 256 * ofBytes (args.padding buf) ≡ 0 [MOD 65535] := by
  have positive := args.udpBase_pos (slice buf 76 202)
  have summed : nativeSum (pseudoHeader (args.frame buf) ++ (args.frame buf).drop 34) =
      args.udpBase (slice buf 76 202) + (65535 - endAround 65536 (args.udpBase (slice buf 76 202) +
        (nativeSum (slice buf 40 2) + 256 * ofBytes (args.padding buf)))) := by
    rw [pseudoHeader_frame, drop_frame_udp, nativeSum_received, ← nativeSum_checkBytes,
      ← udpSum_buf args size, udpSum_check args (by simp)]
  rw [udpVerifies, networkSum_verifies_iff (by omega), summed]
  exact complement_cancels_iff (by decide : 2 ≤ 65536) _ _

end PacketArgs

theorem length_zeroedBuf : zeroedBuf.length = 1500 := List.length_replicate

theorem slice_zeroedBuf {off len : Nat} (fits : off + len ≤ 1500) :
    slice zeroedBuf off len = List.replicate len 0 := by
  rw [slice, zeroedBuf, List.drop_replicate, List.take_replicate, Nat.min_eq_left (by omega)]

/-- Built in a zeroed buffer, every frame passes both checks of a receiver. -/
theorem dhcpPacket_verifies (args : PacketArgs) :
    ∃ result, args.run.run zeroedBuf = some result ∧
      ipVerifies (returnedFrame result) ∧ udpVerifies (returnedFrame result) := by
  have bound := args.length_le
  have odd : args.length % 2 = 0 ∨ args.length % 2 = 1 := by omega
  refine ⟨_, args.run_eq length_zeroedBuf, ?_⟩
  rw [args.returnedFrame_eq length_zeroedBuf, args.ipVerifies_iff length_zeroedBuf,
    args.udpVerifies_iff length_zeroedBuf, slice_zeroedBuf (by omega), slice_zeroedBuf (by omega),
    PacketArgs.padding, slice_zeroedBuf (by omega)]
  rcases odd with even | odd
  · rw [even]
    exact ⟨rfl, rfl⟩
  · rw [odd]
    exact ⟨rfl, rfl⟩

end HamachiLike.Dhcp
