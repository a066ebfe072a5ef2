import HamachiLike.Dhcp.Packet
import HamachiLike.Library.OnesComplement

/-! What the header helpers write, one contiguous block each. Bytes that a
helper leaves alone appear in its block as they stood in the buffer. -/

namespace HamachiLike.Dhcp

open Buffer LittleEndian OnesComplement

variable {buf : List UInt8}

theorem memcpy_eq {source : List UInt8} {count : Nat} (off : Nat) (enough : count ≤ source.length) :
    memcpy off source count = store off (source.take count) := if_pos enough

/-- Only the bytes that are copied matter. -/
theorem memcpy_take {source : List UInt8} {count : Nat} (off : Nat) (enough : count ≤ source.length) :
    memcpy off source count = memcpy off (source.take count) count := by
  rw [memcpy_eq off enough, memcpy_eq off (by simp only [List.length_take]; omega), List.take_take,
    Nat.min_self]

theorem memcpy_exact {source : List UInt8} {count : Nat} (off : Nat) (exact : source.length = count) :
    memcpy off source count = store off source := by
  rw [memcpy_eq off (by omega), List.take_of_length_le (by omega)]

private theorem htonl_xid : toBytes 4 (htonl xid).toNat = [0x19, 0xf0, 0x5a, 0x95] := by decide

theorem htonl_dhcpMagic : toBytes 4 (htonl dhcpMagic).toNat = [0x63, 0x82, 0x53, 0x63] := by decide

theorem setupEthernetHeader_run {eth : Nat} {macDst macSrc : List UInt8} (dst : macDst.length = 6)
    (src : macSrc.length = 6) (fits : eth + 14 ≤ buf.length) :
    (setupEthernetHeader eth macDst macSrc).run buf =
      some (14, writeAt buf eth (macDst ++ macSrc ++ [0x08, 0x00])) := by
  have type : toBytes 2 (htons ethPIp).toNat = [0x08, 0x00] := by decide
  simp only [setupEthernetHeader, memcpy_exact _ dst, memcpy_exact _ src, putShort, type,
    EtherHeader.dhost, EtherHeader.shost, EtherHeader.type, Nat.add_zero]
  rw [run_store_bind (by omega), run_store_adjacent (by omega) (by omega),
    run_store_adjacent (by simp [dst, src]) (by simp [dst, src]; omega)]
  rfl

/-- Setting both nibbles leaves nothing of the byte that was there. -/
private theorem versionIhl_bits (bits : UInt8) :
    ((((bits &&& (0x0f : UInt8)) ||| ((4 : UInt8) <<< 4)) &&& (0xf0 : UInt8)) ||| (5 : UInt8)) =
      0x45 := by
  have every : ∀ bits : Fin 256, ((((UInt8.ofNat bits &&& (0x0f : UInt8)) ||| ((4 : UInt8) <<< 4)) &&&
      (0xf0 : UInt8)) ||| (5 : UInt8)) = 0x45 := by decide +kernel
  have found := every ⟨bits.toNat, bits.toNat_lt⟩
  rwa [UInt8.ofNat_toNat] at found

theorem run_getByte_bind {β : Type} {off : Nat} (fits : off + 1 ≤ buf.length)
    (next : UInt8 → Mem UInt8 β) :
    (getByte off >>= next).run buf = (next (UInt8.ofNat (ofBytes (slice buf off 1)))).run buf := by
  rw [getByte, bind_assoc, run_load_bind fits]
  rfl

theorem run_getShort_bind {β : Type} {off : Nat} (fits : off + 2 ≤ buf.length)
    (next : UInt16 → Mem UInt8 β) :
    (getShort off >>= next).run buf = (next (UInt16.ofNat (ofBytes (slice buf off 2)))).run buf := by
  rw [getShort, bind_assoc, run_load_bind fits]
  rfl

theorem setupIpHeader_run {ip : Nat} (fits : ip + 20 ≤ buf.length) :
    (setupIpHeader ip).run buf =
      some (20, writeAt buf ip ([0x45, 0x10] ++ slice buf (ip + 2) 2 ++ [0, 0, 0, 0, 255, 17] ++
        slice buf (ip + 10) 2 ++ [0, 0, 0, 0] ++ [255, 255, 255, 255])) := by
  have zeroShort : toBytes 2 (0 : UInt16).toNat = [0, 0] := by decide
  have zeroInt : toBytes 4 (0 : UInt32).toNat = [0, 0, 0, 0] := by decide
  have ones : toBytes 4 (~~~(0 : UInt32)).toNat = [255, 255, 255, 255] := by decide
  have bitsRead (bits : UInt8) : UInt8.ofNat (ofBytes (slice (writeAt buf ip [bits]) ip 1)) = bits := by
    have same : slice (writeAt buf ip [bits]) ip 1 = [bits] :=
      slice_writeAt_same (by simp; omega)
    simp [same, ofBytes]
  simp only [setupIpHeader, putByte, putShort, putInt, zeroShort, zeroInt, ones, ipprotoUdp,
    MyIphdr.versionIhl, MyIphdr.tos, MyIphdr.id, MyIphdr.fragOffset, MyIphdr.ttl,
    MyIphdr.protocol, MyIphdr.saddr, MyIphdr.daddr, Nat.add_zero]
  rw [run_getByte_bind (by omega), run_store_bind (by simp; omega),
    run_getByte_bind (by simp; omega), bitsRead, versionIhl_bits, run_store_bind (by simp; omega),
    writeAt_twice (by simp)]
  have totLen := length_slice_of_le (by omega : ip + 2 + 2 ≤ buf.length)
  have check := length_slice_of_le (by omega : ip + 10 + 2 ≤ buf.length)
  rw [run_store_adjacent (by simp) (by simp; omega),
    run_store_gap (ip + 2) 2 (by simp) (by omega) (by simp; omega)]
  rw [run_store_adjacent (by simp [totLen]) (by simp [totLen]; omega),
    run_store_adjacent (by simp [totLen]) (by simp [totLen]; omega),
    run_store_adjacent (by simp [totLen]) (by simp [totLen]; omega),
    run_store_gap (ip + 10) 2 (by simp [totLen]) (by omega) (by simp; omega),
    run_store_adjacent (by simp [totLen, check]) (by simp [totLen, check]; omega)]
  simp
  rfl

theorem setupUdpHeader_run {udp : Nat} (fits : udp + 8 ≤ buf.length) :
    (setupUdpHeader udp).run buf = some (8, writeAt buf udp [0, 68, 0, 67]) := by
  have client : toBytes 2 (htons 68).toNat = [0, 68] := by decide
  have server : toBytes 2 (htons 67).toNat = [0, 67] := by decide
  simp only [setupUdpHeader, putShort, client, server, Udphdr.source, Udphdr.dest, Nat.add_zero]
  rw [run_store_bind (by simp; omega), run_store_adjacent (by simp) (by simp; omega)]
  rfl

theorem setupMainDhcp_run {dhcp : Nat} {macSrc clientIP yourIP serverIP gatewayIP : List UInt8}
    (mac : macSrc.length = 6) (client : clientIP.length = 4) (your : yourIP.length = 4)
    (server : serverIP.length = 4) (gateway : gatewayIP.length = 4) (fits : dhcp + 240 ≤ buf.length) :
    (setupMainDhcp dhcp macSrc clientIP yourIP serverIP gatewayIP).run buf =
      some (240, writeAt buf dhcp ([1, 1, 6, 0] ++ [0x19, 0xf0, 0x5a, 0x95] ++ [0, 0, 0, 0] ++
        clientIP ++ yourIP ++ serverIP ++ gatewayIP ++ macSrc ++ slice buf (dhcp + 34) 202 ++
        [0x63, 0x82, 0x53, 0x63])) := by
  have zeroShort : toBytes 2 (0 : UInt16).toNat = [0, 0] := by decide
  simp only [setupMainDhcp, putByte, putShort, putInt, htonl_xid, htonl_dhcpMagic, zeroShort,
    memcpy_exact _ client, memcpy_exact _ your, memcpy_exact _ server, memcpy_exact _ gateway,
    memcpy_exact _ mac, Dhcpv4Hdr.opcode, Dhcpv4Hdr.htype, Dhcpv4Hdr.hlen, Dhcpv4Hdr.hopcount,
    Dhcpv4Hdr.xid, Dhcpv4Hdr.secs, Dhcpv4Hdr.flags, Dhcpv4Hdr.cip, Dhcpv4Hdr.yip, Dhcpv4Hdr.sip,
    Dhcpv4Hdr.gip, Dhcpv4Hdr.chaddr, Dhcpv4Hdr.magic, Nat.add_zero]
  rw [run_store_bind (by simp; omega)]
  iterate 6 rw [run_store_adjacent (by simp) (by simp; omega)]
  rw [run_store_adjacent (by simp) (by simp [client]; omega),
    run_store_adjacent (by simp [client]) (by simp [client, your]; omega),
    run_store_adjacent (by simp [client, your]) (by simp [client, your, server]; omega),
    run_store_adjacent (by simp [client, your, server]) (by simp [client, your, server, gateway]; omega),
    run_store_adjacent (by simp [client, your, server, gateway])
      (by simp [client, your, server, gateway, mac]; omega),
    run_store_gap (dhcp + 34) 202 (by simp [client, your, server, gateway, mac]) (by omega)
      (by simp; omega)]
  simp
  rfl

/-- The code's fold loop adds carries back in base 2^16. -/
theorem foldCarries_eq (sum : Nat) : foldCarries sum = endAround 65536 sum := by
  induction sum using foldCarries.induct with
  | case1 sum carries ih =>
    have low : sum &&& 0xffff = sum % 65536 := Nat.and_two_pow_sub_one_eq_mod sum 16
    have high : sum >>> 16 = sum / 65536 := Nat.shiftRight_eq_div_pow sum 16
    rw [foldCarries, if_pos carries, ih, low, high]
    exact (endAround_carry (by decide) (by omega)).symm
  | case2 sum single =>
    have high : sum >>> 16 = sum / 65536 := Nat.shiftRight_eq_div_pow sum 16
    rw [foldCarries, if_neg single, endAround_of_lt (by omega)]

/-- Sum of a byte string's 16-bit words in the host's byte order. -/
def nativeSum (bytes : List UInt8) : Nat := sumLow 256 (bytes.map UInt8.toNat)

/-- Sum of a byte string's 16-bit words in network order. -/
def networkSum (bytes : List UInt8) : Nat := sumHigh 256 (bytes.map UInt8.toNat)

theorem nativeSum_append {front : List UInt8} (back : List UInt8) (even : 2 ∣ front.length) :
    nativeSum (front ++ back) = nativeSum front + nativeSum back := by
  rw [nativeSum, List.map_append, sumLow_append 256 _ (by rwa [List.length_map])]
  rfl

theorem networkSum_modEq (bytes : List UInt8) :
    networkSum bytes ≡ 256 * nativeSum bytes [MOD 65535] := sumHigh_modEq (by decide) _

theorem nativeSum_concat {front : List UInt8} (last : UInt8) (odd : front.length % 2 = 1) :
    nativeSum (front ++ [last]) = nativeSum front + 256 * last.toNat := by
  rw [nativeSum, List.map_append]
  exact sumLow_concat 256 _ (by rwa [List.length_map])

/-- A two-byte field on a word boundary enters a sum on its own. -/
theorem nativeSum_field {front field : List UInt8} (back : List UInt8) (even : 2 ∣ front.length)
    (pair : field.length = 2) :
    nativeSum (front ++ (field ++ back)) = nativeSum (front ++ ([0, 0] ++ back)) + nativeSum field := by
  have zero : nativeSum [0, 0] = 0 := rfl
  rw [nativeSum_append _ even, nativeSum_append _ even, nativeSum_append back (by rw [pair]),
    nativeSum_append back (by simp), zero]
  omega

theorem digits_lt (bytes : List UInt8) : ∀ digit ∈ bytes.map UInt8.toNat, digit < 256 := by
  intro digit member
  obtain ⟨byte, _, same⟩ := List.mem_map.mp member
  exact same ▸ byte.toNat_lt

theorem nativeSum_le (bytes : List UInt8) : nativeSum bytes ≤ 65535 * ((bytes.length + 1) / 2) := by
  simpa [nativeSum] using sumLow_le (digits_lt bytes)

theorem nativeSum_pair {bytes : List UInt8} (pair : bytes.length = 2) :
    nativeSum bytes = ofBytes bytes := by
  match bytes, pair with
  | [low, high], _ => simp [nativeSum, sumLow, ofBytes]

theorem getShort_toNat {off : Nat} (fits : off + 2 ≤ buf.length) :
    (UInt16.ofNat (ofBytes (slice buf off 2))).toNat = nativeSum (slice buf off 2) := by
  have pair := length_slice_of_le fits
  have bound := ofBytes_lt (slice buf off 2)
  rw [nativeSum_pair pair, UInt16.toNat_ofNat', Nat.mod_eq_of_lt (by rwa [pair] at bound)]

theorem nativeSum_slice_step (off left : Nat) (fits : off + 2 ≤ buf.length) :
    nativeSum (slice buf off (2 + left)) =
      nativeSum (slice buf off 2) + nativeSum (slice buf (off + 2) left) := by
  rw [← slice_append_slice, nativeSum_append _ (by rw [length_slice_of_le fits])]

/-- The words of a buffer are its whole words and, behind an odd one, the last byte. -/
theorem nativeSum_slice_last (off len : Nat) (fits : off + len ≤ buf.length) :
    nativeSum (slice buf off len) = nativeSum (slice buf off (2 * (len / 2))) +
      nativeSum (slice buf (off + 2 * (len / 2)) (len % 2)) := by
  have split := slice_append_slice buf off (2 * (len / 2)) (len % 2)
  have whole := length_slice_of_le (by omega : off + 2 * (len / 2) ≤ buf.length)
  rw [Nat.div_add_mod] at split
  rw [← split, nativeSum_append _ (by rw [whole]; exact Nat.dvd_mul_right 2 _)]

/-- A word is added to a 32-bit sum without a carry while there is room for it. -/
theorem add_getShort_toNat {off : Nat} {sum : UInt32} (fits : off + 2 ≤ buf.length)
    (room : sum.toNat + 65535 < 2 ^ 32) :
    (sum + (UInt16.ofNat (ofBytes (slice buf off 2))).toUInt32).toNat =
      sum.toNat + nativeSum (slice buf off 2) := by
  have word := (UInt16.ofNat (ofBytes (slice buf off 2))).toNat_lt
  rw [UInt32.toNat_add, UInt16.toNat_toUInt32, ← getShort_toNat fits, Nat.mod_eq_of_lt (by omega)]

private theorem sumHeader_run {ip : Nat} (fits : ip + 20 ≤ buf.length) (left index sum : Nat)
    (position : index + left = 10) :
    (sumHeader ip index sum).run buf =
      some (sum + nativeSum (slice buf (ip + 2 * index) (2 * left)), buf) := by
  induction left generalizing index sum with
  | zero =>
    rw [sumHeader, if_neg (by simp only [MyIphdr.size]; omega)]
    simp [slice, nativeSum, sumLow]
  | succ left ih =>
    rw [sumHeader, if_pos (by simp only [MyIphdr.size]; omega), run_getShort_bind (by omega),
      ih (index + 1) _ (by omega), getShort_toNat (by omega)]
    rw [show 2 * (left + 1) = 2 + 2 * left by omega, nativeSum_slice_step _ _ (by omega),
      Nat.add_assoc, show ip + 2 * (index + 1) = ip + 2 * index + 2 by omega]

/-- The two check bytes that cancel a sum of native words. -/
def checkBytes (sum : Nat) : List UInt8 := toBytes 2 (65535 - endAround 65536 sum)

@[simp] theorem length_checkBytes (sum : Nat) : (checkBytes sum).length = 2 := length_toBytes 2 _

theorem nativeSum_checkBytes (sum : Nat) :
    nativeSum (checkBytes sum) = 65535 - endAround 65536 sum := by
  rw [nativeSum_pair (length_checkBytes sum), checkBytes, ofBytes_toBytes_of_lt (by omega)]

/-- Positive sums have the same check bytes exactly when they have one residue. -/
theorem checkBytes_eq_iff {first second : Nat} (left : 0 < first) (right : 0 < second) :
    checkBytes first = checkBytes second ↔ first ≡ second [MOD 65535] := by
  have word := endAround_lt (by decide : 2 ≤ 65536) first
  have word' := endAround_lt (by decide : 2 ≤ 65536) second
  rw [← endAround_eq_iff (by decide : 2 ≤ 65536) left right]
  constructor
  · intro same
    have complements := toBytes_injective (by omega) (by omega) same
    omega
  · intro same
    rw [checkBytes, checkBytes, same]

theorem complement_bytes (sum : Nat) :
    toBytes 2 (~~~(UInt16.ofNat (foldCarries sum))).toNat = checkBytes sum := by
  have word := endAround_lt (by decide : 2 ≤ 65536) sum
  rw [UInt16.toNat_not, UInt16.toNat_ofNat', foldCarries_eq, Nat.mod_eq_of_lt word]
  rfl

theorem ipCecksum_run {ip : Nat} (fits : ip + 20 ≤ buf.length) :
    (ipCecksum ip).run buf =
      some (⟨⟩, writeAt buf (ip + 10) (checkBytes (nativeSum (slice buf ip 20)))) := by
  have summed := sumHeader_run fits 10 0 0 rfl
  have masked (sum : Nat) :
      UInt16.ofNat (foldCarries sum &&& 0xffff) = UInt16.ofNat (foldCarries sum) := by
    apply UInt16.toNat_inj.mp
    rw [UInt16.toNat_ofNat', UInt16.toNat_ofNat', Nat.and_two_pow_sub_one_eq_mod _ 16, Nat.mod_mod]
  simp only [ipCecksum, MyIphdr.check, putShort]
  rw [run_step_bind summed, masked, complement_bytes, Nat.zero_add]
  exact run_store (by simp; omega)

private theorem sumShorts_run {stop : Nat} (count ptr sum : Nat) (last : stop ≤ ptr + 2 * count)
    (first : ptr + 2 * count < stop + 2) (fits : ptr + 2 * count ≤ buf.length)
    (small : sum + 65535 * count < 2 ^ 64) :
    (sumShorts ptr stop sum).run buf =
      some (sum + nativeSum (slice buf ptr (2 * count)), buf) := by
  induction count generalizing ptr sum with
  | zero =>
    rw [sumShorts, if_neg (by omega)]
    simp [slice, nativeSum, sumLow]
  | succ count ih =>
    have word := (UInt16.ofNat (ofBytes (slice buf ptr 2))).toNat_lt
    rw [sumShorts, if_pos (by omega), run_getShort_bind (by omega), Nat.mod_eq_of_lt (by omega),
      ih (ptr + 2) _ (by omega) (by omega) (by omega) (by omega), getShort_toNat (by omega)]
    rw [show 2 * (count + 1) = 2 + 2 * count by omega, nativeSum_slice_step _ _ (by omega),
      Nat.add_assoc]

/-- A length field read in host order is the length written in network order. -/
private theorem htons_length {off len : Nat} (small : len < 65536)
    (field : slice buf off 2 = (toBytes 2 len).reverse) :
    (htons (UInt16.ofNat (ofBytes (slice buf off 2)))).toNat = len := by
  have pair : (slice buf off 2).length = 2 := by rw [field]; simp
  have bound := ofBytes_lt (slice buf off 2)
  rw [pair, show 256 ^ 2 = 2 ^ 16 from rfl] at bound
  have stored := toBytes_ofBytes (slice buf off 2)
  rw [pair] at stored
  refine @toBytes_injective 2 _ _ (UInt16.toNat_lt _) small ?_
  have value : (UInt16.ofNat (ofBytes (slice buf off 2))).toNat = ofBytes (slice buf off 2) := by
    rw [UInt16.toNat_ofNat', Nat.mod_eq_of_lt bound]
  rw [toBytes_swap16, value, stored, field, List.reverse_reverse]

theorem udpCecksum_run {ip udp len : Nat} (layout : udp = ip + 20) (header : 8 ≤ len)
    (small : len < 65536) (fits : udp + 2 * ((len + 1) / 2) ≤ buf.length)
    (field : slice buf (udp + 4) 2 = (toBytes 2 len).reverse) :
    (udpCecksum ip udp).run buf = some (⟨⟩, writeAt buf (udp + 6) (checkBytes
      (nativeSum (slice buf (ip + 12) (8 + 2 * ((len + 1) / 2))) + 0x1100 +
        nativeSum (slice buf (udp + 4) 2)))) := by
  have total := htons_length small field
  have protocol : (htons ipprotoUdp.toUInt16).toNat = 0x1100 := by decide
  have length := getShort_toNat (by omega : udp + 4 + 2 ≤ buf.length)
  have summed := sumShorts_run (4 + (len + 1) / 2) (ip + 12) 0 (by omega : udp + len ≤ _) (by omega)
    (by omega : _ ≤ buf.length) (by omega)
  have bound := nativeSum_le (slice buf (ip + 12) (2 * (4 + (len + 1) / 2)))
  rw [length_slice_of_le (by omega)] at bound
  have short := (UInt16.ofNat (ofBytes (slice buf (udp + 4) 2))).toNat_lt
  simp only [udpCecksum, MyIphdr.saddr, Udphdr.len, Udphdr.check, putShort]
  rw [run_getShort_bind (by omega), total, run_step_bind summed, run_getShort_bind (by omega),
    protocol, Nat.mod_eq_of_lt (by omega), Nat.mod_eq_of_lt (by omega), complement_bytes, length,
    Nat.zero_add, Nat.mul_add]
  exact run_store (by simp; omega)

/-- The place of the end marker, as `dhcpPacket` adds it up. -/
theorem endOffset_toNat {dhcpOptionsSize : UInt16} (short : dhcpOptionsSize.toNat ≤ 1500) :
    (282 + dhcpOptionsSize).toNat = 282 + dhcpOptionsSize.toNat := by
  rw [UInt16.toNat_add, show (282 : UInt16).toNat = 282 from rfl, Nat.mod_eq_of_lt (by omega)]

end HamachiLike.Dhcp
