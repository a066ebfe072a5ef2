import Mathlib.Data.Nat.ModEq
import Mathlib.Tactic.SplitIfs

/-! Fixed-width numbers as bytes, least significant byte first. -/

namespace HamachiLike.LittleEndian

/-- The `width` low bytes of a number. -/
def toBytes : Nat → Nat → List UInt8
  | 0, _ => []
  | width + 1, value => UInt8.ofNat value :: toBytes width (value / 256)

/-- The number that a byte string stands for. -/
def ofBytes : List UInt8 → Nat
  | [] => 0
  | byte :: rest => byte.toNat + 256 * ofBytes rest

@[simp] theorem length_toBytes (width value : Nat) : (toBytes width value).length = width := by
  induction width generalizing value with
  | zero => rfl
  | succ width ih => simp only [toBytes, List.length_cons, ih]

theorem ofBytes_lt (bytes : List UInt8) : ofBytes bytes < 256 ^ bytes.length := by
  induction bytes with
  | nil => simp [ofBytes]
  | cons byte rest ih =>
    have single := byte.toNat_lt
    rw [ofBytes, List.length_cons, Nat.pow_succ]
    omega

theorem ofBytes_toBytes (width value : Nat) : ofBytes (toBytes width value) = value % 256 ^ width := by
  induction width generalizing value with
  | zero => simp [toBytes, ofBytes, Nat.mod_one]
  | succ width ih =>
    have low : (UInt8.ofNat value).toNat = value % 256 := UInt8.toNat_ofNat'
    rw [toBytes, ofBytes, ih, low, Nat.pow_succ', Nat.mod_mul]

theorem ofBytes_toBytes_of_lt {width value : Nat} (bound : value < 256 ^ width) :
    ofBytes (toBytes width value) = value := by
  rw [ofBytes_toBytes, Nat.mod_eq_of_lt bound]

theorem toBytes_ofBytes (bytes : List UInt8) : toBytes bytes.length (ofBytes bytes) = bytes := by
  induction bytes with
  | nil => rfl
  | cons byte rest ih =>
    have single := byte.toNat_lt
    have low : UInt8.ofNat (byte.toNat + 256 * ofBytes rest) = byte := by
      apply UInt8.toNat_inj.mp
      rw [UInt8.toNat_ofNat']
      omega
    have high : (byte.toNat + 256 * ofBytes rest) / 256 = ofBytes rest := by omega
    rw [List.length_cons, ofBytes, toBytes, low, high, ih]

theorem toBytes_injective {width first second : Nat} (left : first < 256 ^ width)
    (right : second < 256 ^ width) (same : toBytes width first = toBytes width second) :
    first = second := by
  rw [← ofBytes_toBytes_of_lt left, ← ofBytes_toBytes_of_lt right, same]

theorem ofBytes_injective {first second : List UInt8} (width : first.length = second.length)
    (same : ofBytes first = ofBytes second) : first = second := by
  rw [← toBytes_ofBytes first, ← toBytes_ofBytes second, width, same]

/-- Exchange the two bytes of a 16-bit value. -/
def swap16 (value : UInt16) : UInt16 := value <<< 8 ||| value >>> 8

/-- Reverse the four bytes of a 32-bit value. -/
def swap32 (value : UInt32) : UInt32 :=
  value <<< 24 ||| ((value <<< 8) &&& (0xff0000 : UInt32)) |||
    ((value >>> 8) &&& (0xff00 : UInt32)) ||| value >>> 24

theorem swap16_toNat (value : UInt16) :
    (swap16 value).toNat = 256 * (value.toNat % 256) + value.toNat / 256 := by
  have bound := value.toNat_lt
  have high : value.toNat / 256 < 2 ^ 8 := by omega
  simp only [swap16, UInt16.toNat_or, UInt16.toNat_shiftLeft, UInt16.toNat_shiftRight,
    UInt16.toNat_ofNat, Nat.shiftRight_eq_div_pow, Nat.shiftLeft_eq, Nat.reduceMod, Nat.reducePow]
  rw [show value.toNat * 256 % 65536 = 2 ^ 8 * (value.toNat % 256) by omega]
  exact (Nat.two_pow_add_eq_or_of_lt high (value.toNat % 256)).symm

theorem toBytes_swap16 (value : UInt16) :
    toBytes 2 (swap16 value).toNat = (toBytes 2 value.toNat).reverse := by
  have bound := value.toNat_lt
  have low : (256 * (value.toNat % 256) + value.toNat / 256) % 256 = value.toNat / 256 := by omega
  have high : (256 * (value.toNat % 256) + value.toNat / 256) / 256 = value.toNat % 256 := by omega
  rw [swap16_toNat]
  simp only [toBytes, List.reverse_cons, List.reverse_nil, List.nil_append, List.cons_append,
    List.cons.injEq, and_true, high]
  constructor <;> apply UInt8.toNat_inj.mp <;> simp only [UInt8.toNat_ofNat'] <;> omega

/-- A mask over the bits from `off` on leaves those bits in their place. -/
theorem and_mask (value width off : Nat) :
    value &&& ((2 ^ width - 1) <<< off) = (value >>> off % 2 ^ width) <<< off := by
  apply Nat.eq_of_testBit_eq
  intro bit
  rw [Nat.testBit_and, Nat.testBit_shiftLeft, Nat.testBit_shiftLeft, Nat.testBit_two_pow_sub_one,
    Nat.testBit_mod_two_pow, Nat.testBit_shiftRight]
  by_cases inside : off ≤ bit
  · rw [Nat.add_sub_cancel' inside]
    simp [inside, Bool.and_comm]
  · simp [inside]

theorem swap32_toNat (value : UInt32) :
    (swap32 value).toNat = 2 ^ 24 * (value.toNat % 256) + 2 ^ 16 * (value.toNat / 256 % 256) +
      2 ^ 8 * (value.toNat / 65536 % 256) + value.toNat / 16777216 := by
  have bound := value.toNat_lt
  have third : value.toNat * 256 % 4294967296 &&& 0xff0000 = 2 ^ 16 * (value.toNat / 256 % 256) := by
    have masked := and_mask (value.toNat * 256 % 4294967296) 8 16
    rw [Nat.shiftLeft_eq, Nat.shiftLeft_eq, Nat.shiftRight_eq_div_pow] at masked
    exact masked.trans (by omega)
  have second : value.toNat / 256 &&& 0xff00 = 2 ^ 8 * (value.toNat / 65536 % 256) := by
    have masked := and_mask (value.toNat / 256) 8 8
    rw [Nat.shiftLeft_eq, Nat.shiftLeft_eq, Nat.shiftRight_eq_div_pow] at masked
    exact masked.trans (by omega)
  have fourth : value.toNat * 16777216 % 4294967296 = 2 ^ 24 * (value.toNat % 256) := by omega
  simp only [swap32, UInt32.toNat_or, UInt32.toNat_and, UInt32.toNat_shiftLeft, UInt32.toNat_shiftRight,
    UInt32.toNat_ofNat, Nat.shiftRight_eq_div_pow, Nat.shiftLeft_eq, Nat.reduceMod, Nat.reducePow,
    third, second, fourth]
  -- each byte is put in below the bits that are there already
  have two : 2 ^ 24 * (value.toNat % 256) ||| 65536 * (value.toNat / 256 % 256) =
      2 ^ 16 * (256 * (value.toNat % 256) + value.toNat / 256 % 256) := by
    rw [← Nat.two_pow_add_eq_or_of_lt (by omega)]
    omega
  have three : 2 ^ 16 * (256 * (value.toNat % 256) + value.toNat / 256 % 256) |||
      256 * (value.toNat / 65536 % 256) = 2 ^ 8 * (65536 * (value.toNat % 256) +
        256 * (value.toNat / 256 % 256) + value.toNat / 65536 % 256) := by
    rw [← Nat.two_pow_add_eq_or_of_lt (by omega)]
    omega
  have four : 2 ^ 8 * (65536 * (value.toNat % 256) + 256 * (value.toNat / 256 % 256) +
      value.toNat / 65536 % 256) ||| value.toNat / 16777216 = 2 ^ 8 * (65536 * (value.toNat % 256) +
        256 * (value.toNat / 256 % 256) + value.toNat / 65536 % 256) + value.toNat / 16777216 :=
    (Nat.two_pow_add_eq_or_of_lt (by omega) _).symm
  rw [show (16777216 : Nat) * (value.toNat % 256) = 2 ^ 24 * (value.toNat % 256) from rfl, two, three, four]
  omega

/-- Four bytes in network order, read as a value. -/
theorem swap32_ofBytes {bytes : List UInt8} (four : bytes.length = 4) :
    swap32 (UInt32.ofNat (ofBytes bytes)) = UInt32.ofNat (ofBytes bytes.reverse) := by
  match bytes, four with
  | [first, second, third, fourth], _ =>
    have bytes := And.intro first.toNat_lt second.toNat_lt
    have bytes' := And.intro third.toNat_lt fourth.toNat_lt
    have size : UInt32.size = 2 ^ 32 := rfl
    apply UInt32.toNat_inj.mp
    simp only [ofBytes, List.reverse_cons, List.reverse_nil, List.nil_append, List.cons_append]
    rw [swap32_toNat, UInt32.toNat_ofNat_of_lt' (by omega), UInt32.toNat_ofNat_of_lt' (by omega)]
    generalize total : first.toNat + 256 * (second.toNat + 256 * (third.toNat + 256 *
      (fourth.toNat + 256 * 0))) = value
    have one : value % 256 = first.toNat := by omega
    have two : value / 256 % 256 = second.toNat := by omega
    have three : value / 65536 % 256 = third.toNat := by omega
    have four : value / 16777216 = fourth.toNat := by omega
    rw [one, two, three, four]
    omega

/-- Bytes in network order, read as a value. -/
theorem swap16_ofBytes_eq_iff {bytes : List UInt8} (two : bytes.length = 2) (value : UInt16) :
    swap16 (UInt16.ofNat (ofBytes bytes)) = value ↔ bytes = (toBytes 2 value.toNat).reverse := by
  have bound := ofBytes_lt bytes
  rw [two] at bound
  have read : toBytes 2 (swap16 (UInt16.ofNat (ofBytes bytes))).toNat = bytes.reverse := by
    rw [toBytes_swap16, UInt16.toNat_ofNat_of_lt' bound, ← two, toBytes_ofBytes]
  rw [← List.reverse_inj, List.reverse_reverse, ← read]
  constructor
  · rintro rfl
    rfl
  · intro same
    exact UInt16.toNat_inj.mp (toBytes_injective (UInt16.toNat_lt _) (UInt16.toNat_lt _) same)

/-! Conversion to `int` -/

/-- The `int` that an unsigned value converts to. -/
def asInt (value : Nat) : Int := (value : Int).bmod (2 ^ 32)

theorem asInt_eq (value : Nat) :
    asInt value = if value % 2 ^ 32 < 2 ^ 31 then ((value % 2 ^ 32 : Nat) : Int)
      else ((value % 2 ^ 32 : Nat) : Int) - 2 ^ 32 := by
  unfold asInt
  rw [Int.bmod_def]
  push_cast
  split_ifs <;> omega

end HamachiLike.LittleEndian
