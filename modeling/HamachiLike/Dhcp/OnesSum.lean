import HamachiLike.Dhcp.UdpChecksum

/-! `udp_checksum` against the sum that it stands for: words in network order whose
carries are added back one by one. -/

namespace HamachiLike.Dhcp

open Buffer LittleEndian OnesComplement

/-- The 16-bit words of a byte string in network order, the last one padded with zero. -/
def networkWords (bytes : List UInt8) : List Nat := wordsHigh 256 (bytes.map UInt8.toNat)

@[simp] theorem sum_networkWords (bytes : List UInt8) : (networkWords bytes).sum = networkSum bytes :=
  sum_wordsHigh 256 _

private theorem networkWords_lt (bytes : List UInt8) : ∀ word ∈ networkWords bytes, word < 65536 :=
  wordsHigh_lt (digits_lt bytes)

/-- The words of a datagram and of its pseudo-header. -/
def datagramWords (data : List UInt8) (srcAddr destAddr : UInt32) : List Nat :=
  networkWords data ++ networkWords (toBytes 4 srcAddr.toNat) ++
    networkWords (toBytes 4 destAddr.toNat) ++ [17, data.length % 65536]

private theorem datagramWords_lt (data : List UInt8) (srcAddr destAddr : UInt32) :
    ∀ word ∈ datagramWords data srcAddr destAddr, word < 65536 := by
  intro word member
  rcases List.mem_append.mp member with shared | fixed
  · rcases List.mem_append.mp shared with shared | dest
    · rcases List.mem_append.mp shared with body | src
      · exact networkWords_lt data word body
      · exact networkWords_lt _ word src
    · exact networkWords_lt _ word dest
  · rcases List.mem_cons.mp fixed with rfl | fixed
    · decide
    · obtain rfl := List.mem_singleton.mp fixed
      exact Nat.mod_lt _ (by decide)

private theorem sum_datagramWords (data : List UInt8) (srcAddr destAddr : UInt32) :
    (datagramWords data srcAddr destAddr).sum = networkSum data + networkSum (toBytes 4 srcAddr.toNat) +
      networkSum (toBytes 4 destAddr.toNat) + 17 + data.length % 65536 := by
  simp only [datagramWords, List.sum_append, sum_networkWords, List.sum_cons, List.sum_nil]
  omega

private theorem htons_modEq (value : UInt16) : value.toNat ≡ 256 * (htons value).toNat [MOD 65535] := by
  have split : 256 * (htons value).toNat = value.toNat + 65535 * (value.toNat % 256) := by
    rw [htons, swap16_toNat]
    omega
  rw [split]
  exact (Nat.add_mul_mod_self_left _ _ _).symm

private theorem addrWords_toBytes (addr : UInt32) : addrWords addr = nativeSum (toBytes 4 addr.toNat) := by
  rw [← addrWords_ofBytes (length_toBytes 4 addr.toNat), ofBytes_toBytes_of_lt addr.toNat_lt,
    UInt32.ofNat_toNat]

/-- The words of the sum and those that the code adds differ in byte order only. -/
private theorem datagramWords_modEq (data : List UInt8) (srcAddr destAddr : UInt32) :
    (datagramWords data srcAddr destAddr).sum ≡ 256 * (nativeSum data + addrWords srcAddr +
      addrWords destAddr + 0x1100 + (htons (UInt16.ofNat data.length)).toNat) [MOD 65535] := by
  have protocol : 17 ≡ 256 * 0x1100 [MOD 65535] := by decide
  have length := htons_modEq (UInt16.ofNat data.length)
  have short : (UInt16.ofNat data.length).toNat = data.length % 65536 := UInt16.toNat_ofNat'
  rw [short] at length
  rw [sum_datagramWords, addrWords_toBytes, addrWords_toBytes]
  simp only [Nat.mul_add]
  exact ((((networkSum_modEq data).add (networkSum_modEq _)).add (networkSum_modEq _)).add
    protocol).add length

/-- A result's bytes in memory order, read in network order, are its swapped digits. -/
private theorem networkOrder_eq (check : UInt16) :
    ofBytes (toBytes 2 check.toNat).reverse = swapDigits 256 check.toNat := by
  rw [← toBytes_swap16, ofBytes_toBytes_of_lt (UInt16.toNat_lt _), swap16_toNat, swapDigits]

/-- The complement of a word has its digits complemented. -/
private theorem swapDigits_complement {word : Nat} (small : word < 65536) :
    swapDigits 256 (65535 - word) = 65535 - swapDigits 256 word := by
  simp only [swapDigits]
  omega

/-- For addresses and a buffer of any length, wherever it lies, the result in memory is
the complement of the one's-complement sum. The accumulator always has room for one more
word, or for the last byte and the six words of the pseudo-header: no carry is dropped. -/
theorem udpChecksum_onesSum (front data back : List UInt8) (srcAddr destAddr : UInt32) :
    (∃ check : UInt16,
      (udpChecksum front.length data.length srcAddr destAddr).run (front ++ data ++ back) =
        some (check, front ++ data ++ back) ∧
      ofBytes (toBytes 2 check.toNat).reverse =
        65535 - onesSum 65536 (datagramWords data srcAddr destAddr)) ∧
    ∀ count, 2 * count ≤ data.length → ∃ sum : UInt32,
      (sumBuf front.length (2 * count) 0).run (front ++ data ++ back) =
        some ((sum, front.length + 2 * count, 0), front ++ data ++ back) ∧
      sum.toNat + 7 * 65535 < 2 ^ 32 := by
  have inside : front.length + data.length ≤ (front ++ data ++ back).length := by
    rw [List.length_append, List.length_append]
    omega
  constructor
  · obtain ⟨check, returned, bytes⟩ := udpChecksum_run inside srcAddr destAddr
    refine ⟨check, returned, ?_⟩
    rw [slice_middle] at bytes
    have swapped := datagramWords_modEq data srcAddr destAddr
    have positive : 0 < (datagramWords data srcAddr destAddr).sum := by
      rw [sum_datagramWords]
      omega
    have word := endAround_lt (by decide : 2 ≤ 65536) (nativeSum data + addrWords srcAddr +
      addrWords destAddr + 0x1100 + (htons (UInt16.ofNat data.length)).toNat)
    have value := toBytes_injective (UInt16.toNat_lt check) (by omega) bytes
    have turned := @endAround_swap 256 _ _ (by decide) (by omega) positive swapped
    rw [networkOrder_eq, value, swapDigits_complement word,
      onesSum_eq (by decide) (datagramWords_lt data srcAddr destAddr)]
    exact congrArg (65535 - ·) turned.symm
  · intro count reached
    obtain ⟨sum, looped, below, _⟩ := @sumBuf_run (front ++ data ++ back) count front.length 0 0 (by decide)
      (by omega) (by decide)
    exact ⟨sum, looped, by omega⟩

end HamachiLike.Dhcp
