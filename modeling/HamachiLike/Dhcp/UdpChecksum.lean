import HamachiLike.Dhcp.Frame
import Mathlib.Data.Nat.Bitwise

/-! `udp_checksum` of checksum.c beside `udpCecksum` of dhcpfinal.c. Both add up
16-bit words; they part at the end of an odd datagram. -/

namespace HamachiLike.Dhcp

open Buffer LittleEndian OnesComplement

def getInt (off : Nat) : Mem UInt8 UInt32 := do
  let bytes ← load off 4
  return UInt32.ofNat (ofBytes bytes)

/-- `if (sum & 0x80000000) sum = (sum & 0xFFFF) + (sum >> 16);` -/
def foldTop (sum : UInt32) : UInt32 :=
  if sum &&& (0x80000000 : UInt32) ≠ 0 then (sum &&& (0xFFFF : UInt32)) + (sum >>> 16) else sum

/-- The loop of `udp_checksum` with the pointer, the bytes left and a 32-bit sum. -/
def sumBuf (buf len : Nat) (sum : UInt32) : Mem UInt8 (UInt32 × Nat × Nat) :=
  if 1 < len then do
    let word ← getShort buf
    sumBuf (buf + 2) (len - 2) (foldTop (sum + word.toUInt32))
  else return (sum, buf, len)

/-- `if (len & 1) sum += *((uint8_t *)buf);` -/
def addLast (buf len : Nat) (sum : UInt32) : Mem UInt8 UInt32 :=
  if len &&& 1 ≠ 0 then do
    let last ← getByte buf
    return sum + last.toUInt32
  else return sum

/-- The pseudo-header. An address is added as its two 16-bit words, the low one first. -/
def addPseudoHeader (sum srcAddr destAddr : UInt32) (length : Nat) : UInt32 :=
  let sum := sum + srcAddr.toUInt16.toUInt32
  let sum := sum + (srcAddr >>> 16).toUInt16.toUInt32
  let sum := sum + destAddr.toUInt16.toUInt32
  let sum := sum + (destAddr >>> 16).toUInt16.toUInt32
  let sum := sum + (htons ipprotoUdp.toUInt16).toUInt32
  sum + (htons (UInt16.ofNat length)).toUInt32

/-- `pUdpHeader` is an offset into memory. -/
def udpChecksum (pUdpHeader len : Nat) (srcAddr destAddr : UInt32) : Mem UInt8 UInt16 := do
  let (sum, buf, left) ← sumBuf pUdpHeader len 0
  let sum ← addLast buf left sum
  return ~~~(UInt16.ofNat (foldCarries (addPseudoHeader sum srcAddr destAddr len).toNat))

private theorem top_bit_iff (sum : UInt32) : sum &&& (0x80000000 : UInt32) ≠ 0 ↔ 2 ^ 31 ≤ sum.toNat := by
  have bound := sum.toNat_lt
  have masked : (sum &&& (0x80000000 : UInt32)).toNat = (sum.toNat.testBit 31).toNat * 2 ^ 31 := by
    rw [UInt32.toNat_and]
    exact Nat.and_two_pow sum.toNat 31
  rw [Ne, ← UInt32.toNat_inj, masked, Nat.testBit_eq_decide_div_mod_eq, UInt32.toNat_zero]
  by_cases set : sum.toNat / 2 ^ 31 % 2 = 1
  · rw [decide_eq_true set]
    simp
    omega
  · rw [decide_eq_false set]
    simp
    omega

/-- The fold inside the loop brings a sum below its top bit and keeps the residue. -/
theorem foldTop_spec (sum : UInt32) :
    (foldTop sum).toNat < 2 ^ 31 ∧ (foldTop sum).toNat ≡ sum.toNat [MOD 65535] := by
  have bound := sum.toNat_lt
  rw [foldTop]
  split
  · have low : sum.toNat &&& 65535 = sum.toNat % 65536 := Nat.and_two_pow_sub_one_eq_mod _ 16
    have folded : ((sum &&& (0xFFFF : UInt32)) + (sum >>> 16)).toNat =
        sum.toNat % 65536 + sum.toNat / 65536 := by
      simp only [UInt32.toNat_add, UInt32.toNat_and, UInt32.toNat_shiftRight, UInt32.toNat_ofNat,
        Nat.shiftRight_eq_div_pow, Nat.reduceMod, Nat.reducePow, low]
      omega
    rw [folded]
    exact ⟨by omega, carry_modEq (by decide) _⟩
  · rename_i clear
    rw [top_bit_iff] at clear
    exact ⟨by omega, Nat.ModEq.refl _⟩

/-- No carry is lost: before each addition the sum is below its top bit. -/
theorem sumBuf_run {buf : List UInt8} (count ptr odd : Nat) (sum : UInt32) (last : odd < 2)
    (fits : ptr + 2 * count ≤ buf.length) (small : sum.toNat < 2 ^ 31) :
    ∃ total : UInt32,
      (sumBuf ptr (2 * count + odd) sum).run buf = some ((total, ptr + 2 * count, odd), buf) ∧
      total.toNat < 2 ^ 31 ∧
      total.toNat ≡ sum.toNat + nativeSum (slice buf ptr (2 * count)) [MOD 65535] := by
  induction count generalizing ptr sum with
  | zero =>
    refine ⟨sum, ?_, small, ?_⟩
    · rw [sumBuf, if_neg (by omega), Nat.mul_zero, Nat.zero_add, Nat.add_zero]
      rfl
    · simp [slice, nativeSum, sumLow, Nat.ModEq.refl]
  | succ count ih =>
    obtain ⟨below, residue⟩ :=
      foldTop_spec (sum + (UInt16.ofNat (ofBytes (slice buf ptr 2))).toUInt32)
    have added := @add_getShort_toNat buf ptr sum (by omega) (by omega)
    obtain ⟨total, run, under, same⟩ := ih (ptr + 2) _ (by omega) below
    refine ⟨total, ?_, under, ?_⟩
    · rw [sumBuf, if_pos (by omega), run_getShort_bind (by omega),
        show 2 * (count + 1) + odd - 2 = 2 * count + odd by omega, run,
        show ptr + 2 + 2 * count = ptr + 2 * (count + 1) by omega]
    · rw [show 2 * (count + 1) = 2 + 2 * count by omega, nativeSum_slice_step _ _ (by omega),
        ← Nat.add_assoc, ← added]
      exact same.trans (residue.add_right _)

/-- An odd last byte stands alone, as the low half of a word. -/
theorem addLast_run {buf : List UInt8} {ptr odd : Nat} (sum : UInt32) (last : odd < 2)
    (fits : ptr + odd ≤ buf.length) (small : sum.toNat < 2 ^ 31) :
    ∃ total : UInt32, (addLast ptr odd sum).run buf = some (total, buf) ∧
      total.toNat = sum.toNat + nativeSum (slice buf ptr odd) := by
  obtain rfl | rfl : odd = 0 ∨ odd = 1 := by omega
  · exact ⟨sum, rfl, by simp [slice, nativeSum, sumLow]⟩
  · have single := length_slice_of_le fits
    obtain ⟨byte, same⟩ := List.length_eq_one_iff.mp single
    have short := byte.toNat_lt
    refine ⟨sum + byte.toUInt32, ?_, ?_⟩
    · rw [addLast, if_pos (by decide), run_getByte_bind fits, same]
      simp [ofBytes]
    · rw [same, UInt32.toNat_add, UInt8.toNat_toUInt32, Nat.mod_eq_of_lt (by omega)]
      simp [nativeSum, sumLow]

/-- The two words of an address. -/
def addrWords (addr : UInt32) : Nat := addr.toUInt16.toNat + (addr >>> 16).toUInt16.toNat

theorem addrWords_ofBytes {bytes : List UInt8} (four : bytes.length = 4) :
    addrWords (UInt32.ofNat (ofBytes bytes)) = nativeSum bytes := by
  match bytes, four with
  | [first, second, third, fourth], _ =>
    have bound := ofBytes_lt [first, second, third, fourth]
    have bytes := And.intro first.toNat_lt second.toNat_lt
    have bytes' := And.intro third.toNat_lt fourth.toNat_lt
    simp only [addrWords, UInt32.toNat_toUInt16, UInt32.toNat_shiftRight, UInt32.toNat_ofNat',
      UInt32.toNat_ofNat, Nat.shiftRight_eq_div_pow, Nat.reduceMod, Nat.reducePow]
    simp only [ofBytes, nativeSum, sumLow, List.map_cons, List.map_nil]
    omega

private theorem addPseudoHeader_toNat {sum : UInt32} (srcAddr destAddr : UInt32) (length : Nat)
    (small : sum.toNat < 2 ^ 31 + 2 ^ 16) :
    (addPseudoHeader sum srcAddr destAddr length).toNat = sum.toNat + addrWords srcAddr +
      addrWords destAddr + 0x1100 + (htons (UInt16.ofNat length)).toNat := by
  have protocol : (htons ipprotoUdp.toUInt16).toNat = 0x1100 := by decide
  have srcLow := srcAddr.toUInt16.toNat_lt
  have srcHigh := (srcAddr >>> 16).toUInt16.toNat_lt
  have destLow := destAddr.toUInt16.toNat_lt
  have destHigh := (destAddr >>> 16).toUInt16.toNat_lt
  have short := (htons (UInt16.ofNat length)).toNat_lt
  simp only [addPseudoHeader, addrWords, UInt32.toNat_add, UInt16.toNat_toUInt32, protocol]
  omega

/-- For a buffer of any length the result is the complement of the sum of its words,
padded with zero, and those of the pseudo-header. -/
theorem udpChecksum_run {buf : List UInt8} {udp len : Nat} (fits : udp + len ≤ buf.length)
    (srcAddr destAddr : UInt32) :
    ∃ check : UInt16, (udpChecksum udp len srcAddr destAddr).run buf = some (check, buf) ∧
      toBytes 2 check.toNat = checkBytes (nativeSum (slice buf udp len) + addrWords srcAddr +
        addrWords destAddr + 0x1100 + (htons (UInt16.ofNat len)).toNat) := by
  obtain ⟨sum, looped, below, residue⟩ :=
    @sumBuf_run buf (len / 2) udp (len % 2) 0 (by omega) (by omega) (by decide)
  obtain ⟨total, padded, value⟩ :=
    @addLast_run buf (udp + 2 * (len / 2)) (len % 2) sum (by omega) (by omega) below
  have lastWord := nativeSum_le (slice buf (udp + 2 * (len / 2)) (len % 2))
  rw [length_slice_of_le (by omega)] at lastWord
  have words : total.toNat ≡ nativeSum (slice buf udp len) [MOD 65535] := by
    rw [nativeSum_slice_last udp len fits, value]
    exact (by simpa using residue : sum.toNat ≡ _ [MOD 65535]).add_right _
  have added := addPseudoHeader_toNat srcAddr destAddr len (by omega : total.toNat < _)
  rw [Nat.div_add_mod] at looped
  refine ⟨~~~(UInt16.ofNat (foldCarries (addPseudoHeader total srcAddr destAddr len).toNat)), ?_, ?_⟩
  · rw [udpChecksum, run_step_bind looped, run_step_bind padded]
    rfl
  · rw [complement_bytes, added, checkBytes_eq_iff (by omega) (by omega)]
    exact (((words.add_right _).add_right _).add_right _).add_right _

/-- An IPv4 header with a UDP datagram right behind it that is as long as its length
field says, and at least one more byte of memory. -/
structure PlacedDatagram where
  buf : List UInt8
  ip : Nat
  len : Nat
  header : 8 ≤ len
  small : len ≤ 65535
  inside : ip + 20 + len + 1 ≤ buf.length
  field : slice buf (ip + 24) 2 = (toBytes 2 len).reverse

namespace PlacedDatagram

variable (packet : PlacedDatagram)

def udp : Nat := packet.ip + 20

/-- The byte right behind the datagram. -/
def next : UInt8 := packet.buf.get ⟨packet.ip + 20 + packet.len, packet.inside⟩

/-- `udp_checksum(udp, L, ip->saddr, ip->daddr)`. -/
def reference : Mem UInt8 UInt16 := do
  let saddr ← getInt (packet.ip + MyIphdr.saddr)
  let daddr ← getInt (packet.ip + MyIphdr.daddr)
  udpChecksum packet.udp packet.len saddr daddr

/-- `udpCecksum` stores what `udp_checksum` returns on the packet before the store. -/
def Agree : Prop :=
  ∃ check after, packet.reference.run packet.buf = some (check, packet.buf) ∧
    (udpCecksum packet.ip packet.udp).run packet.buf = some (⟨⟩, after) ∧
    slice after (packet.udp + Udphdr.check) 2 = toBytes 2 check.toNat

/-- The sum that `udp_checksum` complements. -/
def words : Nat :=
  nativeSum (slice packet.buf packet.udp packet.len) + nativeSum (slice packet.buf (packet.ip + 12) 4) +
    nativeSum (slice packet.buf (packet.ip + 16) 4) + 0x1100 +
    nativeSum (slice packet.buf (packet.udp + 4) 2)

/-- What the byte behind an odd datagram adds to the sum of `udpCecksum`. -/
def overrun : Nat := if packet.len % 2 = 1 then 256 * packet.next.toNat else 0

private theorem htons_len :
    (htons (UInt16.ofNat packet.len)).toNat = nativeSum (slice packet.buf (packet.udp + 4) 2) := by
  have small := packet.small
  have pair : (slice packet.buf (packet.udp + 4) 2).length = 2 := by
    rw [udp, packet.field]
    simp
  have bytes := toBytes_swap16 (UInt16.ofNat packet.len)
  rw [UInt16.toNat_ofNat', Nat.mod_eq_of_lt (by omega), ← packet.field] at bytes
  rw [nativeSum_pair pair, udp, ← bytes, ofBytes_toBytes_of_lt (UInt16.toNat_lt _)]

private theorem run_getInt_bind {β : Type} {buf : List UInt8} {off : Nat} (fits : off + 4 ≤ buf.length)
    (next : UInt32 → Mem UInt8 β) :
    (getInt off >>= next).run buf = (next (UInt32.ofNat (ofBytes (slice buf off 4)))).run buf := by
  rw [getInt, bind_assoc, run_load_bind fits]
  rfl

private theorem reference_run :
    ∃ check, packet.reference.run packet.buf = some (check, packet.buf) ∧
      toBytes 2 check.toNat = checkBytes packet.words := by
  have inside := packet.inside
  obtain ⟨check, returned, bytes⟩ := @udpChecksum_run packet.buf packet.udp packet.len
    (by rw [udp]; omega) (UInt32.ofNat (ofBytes (slice packet.buf (packet.ip + 12) 4)))
    (UInt32.ofNat (ofBytes (slice packet.buf (packet.ip + 16) 4)))
  refine ⟨check, ?_, ?_⟩
  · rw [reference, MyIphdr.saddr, MyIphdr.daddr, run_getInt_bind (by omega), run_getInt_bind (by omega)]
    exact returned
  · rw [bytes, addrWords_ofBytes (length_slice_of_le (by omega)),
      addrWords_ofBytes (length_slice_of_le (by omega)), htons_len, words]

/-- The pointer loop sums the addresses, the datagram and, behind an odd one, the next byte. -/
private theorem nativeSum_walked :
    nativeSum (slice packet.buf (packet.ip + 12) (8 + 2 * ((packet.len + 1) / 2))) =
      nativeSum (slice packet.buf (packet.ip + 12) 4) + nativeSum (slice packet.buf (packet.ip + 16) 4) +
        nativeSum (slice packet.buf packet.udp packet.len) + packet.overrun := by
  have inside := packet.inside
  have addresses : nativeSum (slice packet.buf (packet.ip + 12) (8 + 2 * ((packet.len + 1) / 2))) =
      nativeSum (slice packet.buf (packet.ip + 12) 4) + nativeSum (slice packet.buf (packet.ip + 16) 4) +
        nativeSum (slice packet.buf packet.udp (2 * ((packet.len + 1) / 2))) := by
    rw [show 8 + 2 * ((packet.len + 1) / 2) = 4 + (4 + 2 * ((packet.len + 1) / 2)) by omega,
      ← slice_append_slice, ← slice_append_slice _ (packet.ip + 12 + 4),
      nativeSum_append _ (by rw [length_slice_of_le (by omega)]; decide),
      nativeSum_append _ (by rw [length_slice_of_le (by omega)]; decide), ← Nat.add_assoc]
    rfl
  rw [addresses, overrun]
  split
  · rename_i odd
    have last : slice packet.buf (packet.udp + packet.len) 1 = [packet.next] := by
      rw [slice, udp, List.drop_eq_getElem_cons (by omega), List.take_succ_cons, List.take_zero, next]
      rfl
    rw [show 2 * ((packet.len + 1) / 2) = packet.len + 1 by omega, ← slice_append_slice, last,
      nativeSum_concat _ (by rw [length_slice_of_le (by rw [udp]; omega)]; exact odd)]
    omega
  · rename_i even
    rw [show 2 * ((packet.len + 1) / 2) = packet.len by omega]
    rfl

private theorem udpCecksum_after :
    ∃ after, (udpCecksum packet.ip packet.udp).run packet.buf = some (⟨⟩, after) ∧
      slice after (packet.udp + Udphdr.check) 2 = checkBytes (packet.words + packet.overrun) := by
  have inside := packet.inside
  have small := packet.small
  have header := packet.header
  have stored := @udpCecksum_run packet.buf packet.ip packet.udp packet.len rfl header (by omega)
    (by rw [udp]; omega) packet.field
  refine ⟨_, stored, ?_⟩
  have written := @slice_writeAt_same _ packet.buf
    (checkBytes (packet.words + packet.overrun)) (packet.udp + 6) (by simp [udp]; omega)
  rw [length_checkBytes] at written
  rw [nativeSum_walked, ← written]
  congr 3
  rw [words]
  omega

private theorem overrun_lt : packet.overrun < 65535 := by
  have byte := packet.next.toNat_lt
  rw [overrun]
  split <;> omega

private theorem overrun_eq_zero_iff : packet.overrun = 0 ↔ packet.len % 2 = 0 ∨ packet.next = 0 := by
  have zero : packet.next = 0 ↔ packet.next.toNat = 0 := UInt8.toNat_inj.symm
  rw [overrun, zero]
  split <;> omega

private theorem agree_iff_overrun : packet.Agree ↔ packet.overrun = 0 := by
  have positive : 0 < packet.words := by rw [words]; omega
  have same : checkBytes (packet.words + packet.overrun) = checkBytes packet.words ↔
      packet.overrun = 0 := by
    rw [checkBytes_eq_iff (by omega) positive]
    constructor
    · intro residue
      have multiple : packet.overrun ≡ 0 [MOD 65535] := Nat.ModEq.add_left_cancel' packet.words residue
      exact multiple.eq_of_lt_of_lt packet.overrun_lt (by decide)
    · intro nothing
      rw [nothing]
      rfl
  obtain ⟨check, returned, bytes⟩ := packet.reference_run
  obtain ⟨after, stored, field⟩ := packet.udpCecksum_after
  rw [← same]
  constructor
  · rintro ⟨check', after', returned', stored', equal⟩
    cases returned.symm.trans returned'
    cases stored.symm.trans stored'
    rw [← field, equal, bytes]
  · intro equal
    exact ⟨check, after, returned, stored, by rw [field, equal, bytes]⟩

/-- The two implementations agree on a packet exactly when its datagram is even or
the byte behind it is zero. -/
theorem checksums_agree_iff : packet.Agree ↔ packet.len % 2 = 0 ∨ packet.next = 0 := by
  rw [agree_iff_overrun, overrun_eq_zero_iff]

end PlacedDatagram

/-- One byte of payload, and a byte 1 behind it in memory. -/
def oddDatagram : PlacedDatagram where
  buf := [0x45, 0x10, 0, 29, 0, 0, 0, 0, 255, 17, 0, 0, 0, 0, 0, 0, 255, 255, 255, 255] ++
    [0, 68, 0, 67, 0, 9, 0, 0, 7] ++ [1]
  ip := 0
  len := 9
  header := by decide
  small := by decide
  inside := by decide
  field := by decide

theorem oddDatagram_not_agree : ¬oddDatagram.Agree := by
  rw [PlacedDatagram.agree_iff_overrun]
  decide

end HamachiLike.Dhcp
