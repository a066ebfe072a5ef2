import HamachiLike.Dhcp.UdpChecksum

/-! `checksum` of test3.cpp, which adds the carries back in two fixed steps, beside the
fold loop of dhcpfinal.c. -/

namespace HamachiLike.Ping

open Buffer LittleEndian OnesComplement Dhcp

/-- `for (sum = 0; len > 1; len -= 2) sum += *buf++;` -/
def addWords (buf : Nat) (len : Int) (sum : UInt32) : Mem UInt8 (UInt32 × Nat × Int) :=
  if 1 < len then do
    let word ← getShort buf
    addWords (buf + 2) (len - 2) (sum + word.toUInt32)
  else return (sum, buf, len)
termination_by len.toNat

/-- `if (len == 1) sum += *(unsigned char *)buf;` -/
def addOdd (buf : Nat) (len : Int) (sum : UInt32) : Mem UInt8 UInt32 :=
  if len = 1 then do
    let last ← getByte buf
    return sum + last.toUInt32
  else return sum

/-- `sum = (sum >> 16) + (sum & 0xFFFF); sum += (sum >> 16);` -/
def addCarries (sum : UInt32) : UInt32 :=
  let sum := (sum >>> 16) + (sum &&& (0xFFFF : UInt32))
  sum + (sum >>> 16)

/-- `b` is an offset into memory. -/
def checksum (b : Nat) (len : Int) : Mem UInt8 UInt16 := do
  let (sum, buf, left) ← addWords b len 0
  let sum ← addOdd buf left sum
  return (~~~(addCarries sum)).toUInt16

/-- What the loops of `ipCecksum` and `udpCecksum` make of the words of a buffer. -/
def foldedChecksum (data : List UInt8) : UInt16 := ~~~(UInt16.ofNat (foldCarries (nativeSum data)))

/-- The two steps and the truncation are the whole fold, whatever the sum. -/
private theorem addCarries_truncated (sum : UInt32) :
    (addCarries sum).toUInt16 = UInt16.ofNat (foldCarries sum.toNat) := by
  have bound := sum.toNat_lt
  have low : sum.toNat &&& 65535 = sum.toNat % 65536 := Nat.and_two_pow_sub_one_eq_mod _ 16
  have once : (sum.toNat / 65536 + sum.toNat % 65536) % 4294967296 =
      sum.toNat % 65536 + sum.toNat / 65536 := by omega
  have added : (addCarries sum).toNat = sum.toNat % 65536 + sum.toNat / 65536 +
      (sum.toNat % 65536 + sum.toNat / 65536) / 65536 := by
    simp only [addCarries, UInt32.toNat_add, UInt32.toNat_and, UInt32.toNat_shiftRight,
      UInt32.toNat_ofNat, Nat.shiftRight_eq_div_pow, Nat.reduceMod, Nat.reducePow, low, once]
    exact Nat.mod_eq_of_lt (by omega)
  have word := endAround_lt (by decide : 2 ≤ 65536) sum.toNat
  apply UInt16.toNat_inj.mp
  rw [UInt32.toNat_toUInt16, UInt16.toNat_ofNat', foldCarries_eq, Nat.mod_eq_of_lt word, added]
  exact endAround_twice (by decide) bound

variable {buf : List UInt8}

private theorem addWords_run (count ptr odd : Nat) (sum : UInt32) (last : odd < 2)
    (fits : ptr + 2 * count ≤ buf.length) (small : sum.toNat + 65535 * count < 2 ^ 32) :
    ∃ total : UInt32, (addWords ptr ((2 * count + odd : Nat) : Int) sum).run buf =
        some ((total, ptr + 2 * count, (odd : Int)), buf) ∧
      total.toNat = sum.toNat + nativeSum (slice buf ptr (2 * count)) := by
  induction count generalizing ptr sum with
  | zero =>
    refine ⟨sum, ?_, by simp [slice, nativeSum, sumLow]⟩
    rw [addWords.eq_def, if_neg (by omega), Nat.mul_zero, Nat.zero_add, Nat.add_zero]
    rfl
  | succ count ih =>
    have word := (UInt16.ofNat (ofBytes (slice buf ptr 2))).toNat_lt
    have value := getShort_toNat (by omega : ptr + 2 ≤ buf.length)
    have room : sum.toNat + 65535 < 2 ^ 32 :=
      Nat.lt_of_le_of_lt (Nat.add_le_add_left (Nat.le_mul_of_pos_right _ (Nat.succ_pos count)) _) small
    have added := @add_getShort_toNat buf ptr sum (by omega) room
    have step : ((2 * (count + 1) + odd : Nat) : Int) - 2 = (2 * count + odd : Nat) := by omega
    obtain ⟨total, run, same⟩ := ih (ptr + 2)
      (sum + (UInt16.ofNat (ofBytes (slice buf ptr 2))).toUInt32) (by omega) (by omega)
    refine ⟨total, ?_, ?_⟩
    · rw [addWords.eq_def, if_pos (by omega), run_getShort_bind (by omega), step, run, Nat.mul_succ,
        Nat.add_assoc, Nat.add_comm 2]
    · rw [same, added, Nat.mul_succ, Nat.add_comm (2 * count), nativeSum_slice_step _ _ (by omega),
        Nat.add_assoc]

/-- `len == 1` and `len & 1` are one test behind the loop. -/
private theorem addOdd_eq {odd : Nat} (last : odd < 2) (ptr : Nat) (sum : UInt32) :
    addOdd ptr odd sum = addLast ptr odd sum := by
  obtain rfl | rfl : odd = 0 ∨ odd = 1 := by omega
  · rfl
  · rfl

/-- Up to 65535 bytes nothing overflows, so the two steps have the exact sum to work on. -/
theorem checksum_run {b len : Nat} (short : len ≤ 65535) (fits : b + len ≤ buf.length) :
    (checksum b len).run buf = some (foldedChecksum (slice buf b len), buf) := by
  have halves := Nat.div_add_mod len 2
  obtain ⟨sum, looped, value⟩ :=
    @addWords_run buf (len / 2) b (len % 2) 0 (by omega) (by omega) (by simp; omega)
  have bound := nativeSum_le (slice buf b (2 * (len / 2)))
  rw [length_slice_of_le (by omega)] at bound
  rw [UInt32.toNat_zero, Nat.zero_add] at value
  obtain ⟨total, padded, last⟩ :=
    @addLast_run buf (b + 2 * (len / 2)) (len % 2) sum (by omega) (by omega) (by omega)
  have words : total.toNat = nativeSum (slice buf b len) := by
    rw [nativeSum_slice_last b len fits, last, value]
  rw [← addOdd_eq (by omega)] at padded
  rw [halves] at looped
  rw [checksum, run_step_bind looped, run_step_bind padded, UInt32.toUInt16_not, addCarries_truncated,
    words]
  rfl

/-- The complement of a sum, put into a zero field on a word boundary, makes the sum all ones. -/
private theorem foldCarries_writeAt {data : List UInt8} {off : Nat} (even : 2 ∣ off)
    (inside : off + 2 ≤ data.length) (zero : slice data off 2 = [0, 0]) :
    foldCarries (nativeSum (writeAt data off (checkBytes (nativeSum data)))) = 0xFFFF := by
  have place : 2 ∣ (data.take off).length := by
    rwa [List.length_take, Nat.min_eq_left (by omega)]
  have cleared : data = data.take off ++ ([0, 0] ++ data.drop (off + 2)) := by
    rw [← zero, slice, ← List.drop_drop, List.take_append_drop, List.take_append_drop]
  have total : nativeSum (writeAt data off (checkBytes (nativeSum data))) =
      nativeSum data + (65536 - 1 - endAround 65536 (nativeSum data)) := by
    rw [writeAt_eq_append (by simpa using inside), nativeSum_field _ place (length_checkBytes _),
      nativeSum_checkBytes, length_checkBytes, ← cleared]
  have positive : 0 < nativeSum data + (65536 - 1 - endAround 65536 (nativeSum data)) := by
    rcases Nat.eq_zero_or_pos (nativeSum data) with none | some
    · rw [none, endAround_of_lt (by decide)]
      decide
    · exact Nat.add_pos_left some _
  rw [foldCarries_eq, total]
  exact (endAround_eq_top_iff (by decide) positive).mpr (add_complement_modEq (by decide) _)

/-- Two fixed steps and the truncation do what the fold loop does, on a buffer of up to
65535 bytes wherever it lies; and with the result in a field that was zero the whole
buffer folds to all ones. -/
theorem checksum_folds (front data back : List UInt8) (short : data.length ≤ 65535) :
    ∃ check : UInt16,
      (checksum front.length data.length).run (front ++ data ++ back) =
        some (check, front ++ data ++ back) ∧
      check = foldedChecksum data ∧
      ∀ off, 2 ∣ off → off + 2 ≤ data.length → slice data off 2 = [0, 0] →
        foldCarries (nativeSum (writeAt data off (toBytes 2 check.toNat))) = 0xFFFF := by
  have inside : front.length + data.length ≤ (front ++ data ++ back).length := by
    rw [List.length_append, List.length_append]
    omega
  have returned := checksum_run short inside
  rw [slice_middle] at returned
  refine ⟨foldedChecksum data, returned, rfl, ?_⟩
  intro off even fits zero
  rw [foldedChecksum, complement_bytes]
  exact foldCarries_writeAt even fits zero

/-- The `ping_pkt` of `main` when its checksum is taken: an echo request with the
process id, sequence 0 and the characters from '0' on. -/
def pingPacket (id : UInt16) : List UInt8 :=
  [8, 0, 0, 0] ++ toBytes 2 id.toNat ++ [0, 0] ++ (List.range 55).map (fun i => UInt8.ofNat (i + 48)) ++ [0]

theorem checksum_folds_ping :
    ∃ check : UInt16,
      (checksum 0 64).run (pingPacket 4711) = some (check, pingPacket 4711) ∧
      check = foldedChecksum (pingPacket 4711) ∧
      foldCarries (nativeSum (writeAt (pingPacket 4711) 2 (toBytes 2 check.toNat))) = 0xFFFF := by
  obtain ⟨check, returned, folded, verifies⟩ := checksum_folds [] (pingPacket 4711) [] (by decide)
  rw [List.nil_append, List.append_nil] at returned
  exact ⟨check, returned, folded, verifies 2 (by decide) (by decide) (by decide)⟩

end HamachiLike.Ping
