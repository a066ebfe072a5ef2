import Mathlib.Data.List.TakeWhile

/-! C strings in byte buffers. -/

namespace HamachiLike.CString

/-- The characters before the terminator. A buffer without one counts as a whole. -/
def chars (bytes : List UInt8) : List UInt8 := bytes.takeWhile (· != 0)

/-- The string that starts a buffer, if its terminator is inside. -/
def read (bytes : List UInt8) : Option (List UInt8) :=
  if 0 ∈ bytes then some (chars bytes) else none

/-- Compare at most `count` characters of two strings. Behind the end of a buffer
stands its terminator. -/
def strncmp : List UInt8 → List UInt8 → Nat → Int
  | _, _, 0 => 0
  | first, second, count + 1 =>
    if first.headD 0 = second.headD 0 ∧ first.headD 0 ≠ 0 then
      strncmp first.tail second.tail count
    else (first.headD 0).toNat - (second.headD 0).toNat

@[simp] theorem chars_nil : chars [] = [] := rfl

theorem chars_cons (byte : UInt8) (rest : List UInt8) :
    chars (byte :: rest) = if byte = 0 then [] else byte :: chars rest := by
  by_cases zero : byte = 0
  · simp [chars, zero]
  · simp [chars, zero]

/-- A first character and what follows it; of the empty string, the terminator. -/
theorem chars_headD (bytes : List UInt8) :
    chars bytes = if bytes.headD 0 = 0 then [] else bytes.headD 0 :: chars bytes.tail := by
  cases bytes with
  | nil => rfl
  | cons byte rest => exact chars_cons byte rest

theorem chars_append_zero (bytes rest : List UInt8) : chars (bytes ++ 0 :: rest) = chars bytes := by
  induction bytes with
  | nil => rfl
  | cons byte bytes ih => rw [List.cons_append, chars_cons, chars_cons, ih]

/-- Zeros behind a text end it. -/
theorem read_append_replicate (bytes : List UInt8) {count : Nat} (some_zero : 0 < count) :
    read (bytes ++ List.replicate count 0) = some (chars bytes) := by
  obtain ⟨more, rfl⟩ := Nat.exists_eq_succ_of_ne_zero (Nat.ne_of_gt some_zero)
  rw [List.replicate_succ, read, if_pos (List.mem_append_right _ List.mem_cons_self),
    chars_append_zero]

/-- Cut earlier, a text reads the same only if it ended there anyway. -/
theorem chars_take_eq_iff (bytes : List UInt8) {short long : Nat} (order : short ≤ long) :
    chars (bytes.take short) = chars (bytes.take long) ↔
      bytes.length ≤ short ∨ short = long ∨ 0 ∈ bytes.take (short + 1) := by
  induction bytes generalizing short long with
  | nil => simp
  | cons byte rest ih =>
    cases long with
    | zero =>
      obtain rfl := Nat.le_zero.mp order
      simp
    | succ long =>
      cases short with
      | zero =>
        by_cases zero : byte = 0
        · simp [chars_cons, zero]
        · simp [chars_cons, zero, Ne.symm zero]
      | succ short =>
        by_cases zero : byte = 0
        · simp [chars_cons, zero]
        · simp [chars_cons, zero, ih (Nat.le_of_succ_le_succ order), Ne.symm zero]

private theorem headD_take_succ (bytes : List UInt8) (count : Nat) :
    (bytes.take (count + 1)).headD 0 = bytes.headD 0 := by
  cases bytes <;> rfl

private theorem tail_take_succ (bytes : List UInt8) (count : Nat) :
    (bytes.take (count + 1)).tail = bytes.tail.take count := by
  cases bytes <;> simp

/-- The comparison finds no difference exactly when the two strings, cut to `count`
characters, are the same. -/
theorem strncmp_eq_zero_iff (first second : List UInt8) (count : Nat) :
    strncmp first second count = 0 ↔ chars (first.take count) = chars (second.take count) := by
  induction count generalizing first second with
  | zero => simp [strncmp]
  | succ count ih =>
    rw [chars_headD (first.take (count + 1)), chars_headD (second.take (count + 1)), headD_take_succ,
      headD_take_succ, tail_take_succ, tail_take_succ, strncmp]
    by_cases same : first.headD 0 = second.headD 0
    · by_cases zero : second.headD 0 = 0
      · rw [if_neg fun both => both.2 (same.trans zero), same, zero, if_pos rfl, if_pos rfl]
        simp
      · rw [if_pos ⟨same, by rwa [same]⟩, ih, same, if_neg zero, if_neg zero, List.cons.injEq]
        exact ⟨fun rest => ⟨rfl, rest⟩, fun both => both.2⟩
    · have apart : (first.headD 0).toNat ≠ (second.headD 0).toNat := fun equal =>
        same (UInt8.toNat_inj.mp equal)
      rw [if_neg fun both => same both.1]
      refine iff_of_false (by omega) ?_
      intro equal
      split at equal <;> split at equal <;> simp_all

theorem chars_eq_self_iff (bytes : List UInt8) : chars bytes = bytes ↔ 0 ∉ bytes := by
  rw [chars, List.takeWhile_eq_self_iff]
  constructor
  · intro nonzero member
    simpa using nonzero 0 member
  · intro absent byte member
    have apart : byte ≠ 0 := by
      rintro rfl
      exact absent member
    simpa using apart

/-- Compared over the length of a string without a zero, a buffer has to start with it. -/
theorem strncmp_length_eq_zero_iff (bytes : List UInt8) {string : List UInt8} (nonzero : 0 ∉ string) :
    strncmp bytes string string.length = 0 ↔ bytes.take string.length = string := by
  rw [strncmp_eq_zero_iff, List.take_length, (chars_eq_self_iff string).mpr nonzero]
  constructor
  · intro same
    have start : chars (bytes.take string.length) <+: bytes.take string.length :=
      List.takeWhile_prefix _
    rw [same] at start
    exact (start.eq_of_length_le (List.length_take_le _ _)).symm
  · intro same
    rw [same]
    exact (chars_eq_self_iff string).mpr nonzero

end HamachiLike.CString
