import HamachiLike.Dhcp.Receiver

/-! The frame printer of ethrec.c finds every field where `dhcpPacket` put it. -/

namespace HamachiLike.Dhcp

open Buffer LittleEndian OnesComplement

/-- The fields that ethrec.c prints. -/
structure Printed where
  destMac : List UInt8
  sourceMac : List UInt8
  sourceIP : List UInt8
  destIP : List UInt8
  clientIP : List UInt8
  yourIP : List UInt8
  serverIP : List UInt8
  gatewayIP : List UInt8
  deriving DecidableEq

/-- Receive one frame into the cleared 1500-byte buffer of ethrec.c. -/
def recvFrame (frame : List UInt8) : List UInt8 := writeAt zeroedBuf 0 (frame.take 1500)

/-- The fixed offsets of the `printf` calls. -/
def printFrame (buf : List UInt8) : Printed where
  destMac := slice buf 0 6
  sourceMac := slice buf 6 6
  sourceIP := slice buf 26 4
  destIP := slice buf 30 4
  clientIP := slice buf 54 4
  yourIP := slice buf 58 4
  serverIP := slice buf 62 4
  gatewayIP := slice buf 66 4

/-- A 16-bit field in network order. -/
def networkShort (buf : List UInt8) (off : Nat) : Nat := ofBytes (slice buf off 2).reverse

theorem networkShort_of_slice {buf : List UInt8} {off value : Nat} (small : value < 65536)
    (field : slice buf off 2 = (toBytes 2 value).reverse) : networkShort buf off = value := by
  rw [networkShort, field, List.reverse_reverse, ofBytes_toBytes_of_lt small]

private theorem slice_recvFrame {frame : List UInt8} {off len : Nat} (inside : off + len ≤ frame.length)
    (bound : frame.length ≤ 1500) : slice (recvFrame frame) off len = slice frame off len := by
  have size := length_zeroedBuf
  rw [recvFrame, List.take_of_length_le bound, slice_writeAt_inside (by omega) (by omega) (by omega)]
  rfl

namespace PacketArgs

variable (args : PacketArgs) (buf : List UInt8)

/-- From its 42nd byte on a frame is the DHCP message. -/
private theorem slice_frame_message {off len : Nat} (behind : 42 ≤ off) :
    slice (args.frame buf) off len =
      slice (args.dhcpBlock (slice buf 76 202) ++ args.dhcpOptions ++ [0xff]) (off - 42) len := by
  let headers := args.etherBlock ++ ipBlock args.totLen (checkBytes (args.ipSum (slice buf 24 2))) ++
    udpBlock args.udpLen (checkBytes (args.udpSum (slice buf 40 2) (slice buf 76 202) (args.padding buf)))
  have size : headers.length = 42 := by simp [headers, length_ipBlock, length_udpBlock]
  have split : args.frame buf =
      headers ++ (args.dhcpBlock (slice buf 76 202) ++ args.dhcpOptions ++ [0xff]) := by
    simp [headers, frame, layout]
  rw [split, slice_append_right (by omega), size]

private theorem slice_frame_addresses :
    slice (args.frame buf) 54 4 = args.clientIP.toList ∧
      slice (args.frame buf) 58 4 = args.yourIP.toList ∧
      slice (args.frame buf) 62 4 = args.serverIP.toList ∧
      slice (args.frame buf) 66 4 = args.gatewayIP.toList := by
  simp (disch := simp) only [slice_frame_message, dhcpBlock, List.append_assoc, slice_append_right,
    slice_append_left]
  simp [slice_all]

private theorem printFrame_frame :
    printFrame (args.frame buf) = {
      destMac := args.macDst.toList, sourceMac := args.macSrc.toList
      sourceIP := [0, 0, 0, 0], destIP := [255, 255, 255, 255]
      clientIP := args.clientIP.toList, yourIP := args.yourIP.toList
      serverIP := args.serverIP.toList, gatewayIP := args.gatewayIP.toList } := by
  obtain ⟨client, your, server, gateway⟩ := args.slice_frame_addresses buf
  rw [printFrame, client, your, server, gateway]
  simp (disch := simp) only [frame, layout, etherBlock, ipBlock, List.append_assoc, slice_append_right,
    slice_append_left]
  simp [slice_all]

private theorem slice_frame_lengths :
    slice (args.frame buf) 16 2 = args.totLen ∧ slice (args.frame buf) 38 2 = args.udpLen := by
  simp (disch := simp) only [frame, layout, ipBlock, udpBlock, List.append_assoc, slice_append_right,
    slice_append_left]
  simp [slice_all]

theorem slice_frame_dhcp (size : buf.length = 1500) :
    slice (args.frame buf) 70 6 = args.macSrc.toList ∧
      slice (args.frame buf) 76 202 = slice buf 76 202 ∧
      slice (args.frame buf) 278 4 = [0x63, 0x82, 0x53, 0x63] ∧
      slice (args.frame buf) 282 args.dhcpOptions.length = args.dhcpOptions := by
  have gap := length_slice_of_le (by omega : 76 + 202 ≤ buf.length)
  simp (disch := simp [gap]) only [slice_frame_message, dhcpBlock, List.append_assoc, slice_append_right,
    slice_append_left]
  simp [gap, slice_all]

end PacketArgs

/-- Every field of a frame is read back as it was passed in, the lengths are
those of the frame, and the end marker is its last byte. -/
theorem dhcpPacket_readBack (args : PacketArgs) :
    ∃ result, args.run.run zeroedBuf = some result ∧
      let returned := result.1.toInt
      let frame := returnedFrame result
      printFrame (recvFrame frame) = {
        destMac := args.macDst.toList, sourceMac := args.macSrc.toList
        sourceIP := [0, 0, 0, 0], destIP := [255, 255, 255, 255]
        clientIP := args.clientIP.toList, yourIP := args.yourIP.toList
        serverIP := args.serverIP.toList, gatewayIP := args.gatewayIP.toList } ∧
      networkShort (recvFrame frame) 16 = returned - 14 ∧
      networkShort (recvFrame frame) 38 = returned - 34 ∧
      slice (recvFrame frame) 70 16 = args.macSrc.toList ++ List.replicate 10 0 ∧
      slice (recvFrame frame) 278 4 = [0x63, 0x82, 0x53, 0x63] ∧
      slice (recvFrame frame) 282 args.dhcpOptions.length = args.dhcpOptions ∧
      frame.length = returned ∧ frame.getLast? = some 0xff := by
  have bound := args.length_le
  have lower := args.le_length
  have options : 283 + args.dhcpOptions.length = args.length := rfl
  have whole := args.length_frame length_zeroedBuf
  have returned : (Int16.ofNat args.length).toInt = args.length :=
    Int16.toInt_ofNat_of_lt (by omega)
  have received {off len : Nat} (inside : off + len ≤ args.length) :
      slice (recvFrame (args.frame zeroedBuf)) off len = slice (args.frame zeroedBuf) off len :=
    slice_recvFrame (by omega) (by omega)
  obtain ⟨total, datagram⟩ := args.slice_frame_lengths zeroedBuf
  obtain ⟨mac, gap, magic, bytes⟩ := args.slice_frame_dhcp zeroedBuf length_zeroedBuf
  refine ⟨_, args.run_eq length_zeroedBuf, ?_⟩
  rw [args.returnedFrame_eq length_zeroedBuf, returned]
  refine ⟨?_, ?_, ?_, ?_, ?_, ?_, ?_, args.getLast?_frame zeroedBuf⟩
  · rw [← args.printFrame_frame zeroedBuf]
    simp only [printFrame]
    iterate 8 rw [received (by omega)]
  · rw [networkShort_of_slice (by omega) ((received (by omega)).trans total)]
    omega
  · rw [networkShort_of_slice (by omega) ((received (by omega)).trans datagram)]
    omega
  · rw [received (by omega), ← slice_append_slice _ 70 6 10, mac,
      ← slice_slice _ 76 202 0 10 (by omega), gap, slice_slice _ _ _ _ _ (by omega),
      slice_zeroedBuf (by omega)]
  · rw [received (by omega), magic]
  · rw [received (by omega), bytes]
  · exact_mod_cast whole

end HamachiLike.Dhcp
