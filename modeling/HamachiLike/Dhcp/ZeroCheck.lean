import HamachiLike.Dhcp.Reuse

/-! The UDP check field of a frame from a cleared buffer. Zero there says that no
checksum was computed, and `udpCecksum` stores a computed zero as it is. -/

namespace HamachiLike.Dhcp

open Buffer LittleEndian OnesComplement

/-- Zero is stored for exactly the sums that fold to all ones. -/
theorem checkBytes_eq_zero_iff {sum : Nat} (positive : 0 < sum) :
    checkBytes sum = [0, 0] ↔ 65535 ∣ sum := by
  have top : checkBytes 65535 = [0, 0] := by
    rw [checkBytes, endAround_of_lt (by decide)]
    rfl
  rw [← top, checkBytes_eq_iff positive (by decide), ← Nat.modEq_zero_iff_dvd]
  exact Iff.rfl

namespace PacketArgs

variable (args : PacketArgs)

/-- The words under the UDP checksum: those of the addresses and options passed in,
the length twice, and 328750 for the pseudo-header and the fixed header fields. -/
def checkedWords : Nat :=
  328750 + 2 * nativeSum args.udpLen + nativeSum args.clientIP.toList +
    nativeSum args.yourIP.toList + nativeSum args.serverIP.toList +
    nativeSum args.gatewayIP.toList + nativeSum args.macSrc.toList +
    nativeSum (args.dhcpOptions ++ [0xff])

private theorem udpBase_untouched : args.udpBase untouched = args.checkedWords := by
  have dest : nativeSum [255, 255, 255, 255] = 131070 := rfl
  have zeros : nativeSum [0, 0, 0, 0] = 0 := rfl
  have ports : nativeSum [0, 68, 0, 67] = 34560 := rfl
  have check : nativeSum [0, 0] = 0 := rfl
  have fixed : nativeSum [1, 1, 6, 0] = 263 := rfl
  have transaction : nativeSum [0x19, 0xf0, 0x5a, 0x95] = 99699 := rfl
  have magic : nativeSum [0x63, 0x82, 0x53, 0x63] = 58806 := rfl
  have cleared : nativeSum untouched = 0 := by decide
  have size : untouched.length = 202 := rfl
  rw [udpBase, udpSum, List.append_nil, datagram, List.append_assoc _ args.dhcpOptions]
  simp (disch := simp [size, length_udpBlock, length_dhcpBlock]) only [udpBlock, dhcpBlock,
    nativeSum_append, dest, zeros, ports, check, fixed, transaction, magic, cleared]
  rw [checkedWords]
  omega

/-- A frame from a cleared buffer carries the complement of its words. -/
private theorem udpCheck_zeroedBuf :
    slice (args.frame zeroedBuf) 40 2 = checkBytes args.checkedWords := by
  have field : slice zeroedBuf 40 2 = [0, 0] := slice_zeroedBuf (by omega)
  have behindZero : ofBytes (args.padding zeroedBuf) = 0 := by
    rw [carries_zeroedBuf.padding, behind]
    split <;> rfl
  rw [(slice_frame_checks args zeroedBuf).2, args.udpSum_buf length_zeroedBuf, carries_zeroedBuf.gap,
    udpBase_untouched, field, behindZero]
  rfl

end PacketArgs

/-- A message built in a cleared buffer carries a UDP checksum exactly when its
words do not add up to a multiple of all ones. -/
theorem udpCheck_ne_zero_iff (base : UInt64) (call : Call) :
    (∃ frame, call.frameOn base zeroedBuf = some frame ∧ slice frame 40 2 ≠ [0, 0]) ↔
      ¬65535 ∣ call.args.checkedWords := by
  have positive : 0 < call.args.checkedWords := by
    rw [← PacketArgs.udpBase_untouched]
    exact call.args.udpBase_pos untouched
  have built := call.frameOn_eq base length_zeroedBuf
  have zero : slice (call.args.frame zeroedBuf) 40 2 = [0, 0] ↔ 65535 ∣ call.args.checkedWords := by
    rw [PacketArgs.udpCheck_zeroedBuf, checkBytes_eq_zero_iff positive]
  constructor
  · rintro ⟨frame, sent, nonzero⟩ multiple
    cases built.symm.trans sent
    exact nonzero (zero.mpr multiple)
  · intro remainder
    exact ⟨_, built, fun same => remainder (zero.mp same)⟩

/-- 02:00:00:00:92:03 sends its discovery without a checksum. -/
theorem discover_zero_udpCheck :
    ∃ frame, (Call.discover #v[2, 0, 0, 0, 0x92, 3]).frameOn 0 zeroedBuf = some frame ∧
      slice frame 40 2 = [0, 0] := by
  refine ⟨_, Call.frameOn_eq 0 _ length_zeroedBuf, ?_⟩
  rw [PacketArgs.udpCheck_zeroedBuf, checkBytes_eq_zero_iff (by decide)]
  decide

end HamachiLike.Dhcp
