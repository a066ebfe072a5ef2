import Mathlib.Data.Int.ModEq

/-! One's-complement arithmetic with words of an arbitrary base: sums whose
carries are added back in at the low end, and the effect of reading the digit
pairs of a buffer in the other byte order. -/

namespace HamachiLike.OnesComplement

/-- Add the carries of a sum back in until it is a single word. -/
def endAround (base sum : Nat) : Nat :=
  if 2 ≤ base ∧ base ≤ sum then endAround base (sum % base + sum / base) else sum
termination_by sum
decreasing_by
  rename_i carries
  have split := Nat.div_add_mod sum base
  have shrinks := Nat.mul_le_mul_right (sum / base) carries.1
  have carry : 0 < sum / base := Nat.div_pos carries.2 (by omega)
  omega

variable {base : Nat}

theorem endAround_of_lt {sum : Nat} (word : sum < base) : endAround base sum = sum := by
  rw [endAround, if_neg (by omega)]

theorem endAround_carry {sum : Nat} (two : 2 ≤ base) (carries : base ≤ sum) :
    endAround base sum = endAround base (sum % base + sum / base) := by
  rw [endAround, if_pos ⟨two, carries⟩]

theorem endAround_lt (two : 2 ≤ base) (sum : Nat) : endAround base sum < base := by
  induction sum using endAround.induct base with
  | case1 sum carries ih => rwa [endAround_carry two carries.2]
  | case2 sum single =>
    have word : sum < base := by omega
    rwa [endAround_of_lt word]

private theorem base_modEq (positive : 0 < base) : base ≡ 1 [MOD base - 1] :=
  ((Nat.modEq_iff_dvd' positive).mpr (Nat.dvd_refl _)).symm

/-- Folding a carry keeps the residue modulo one less than the base. -/
theorem carry_modEq (two : 2 ≤ base) (sum : Nat) :
    sum % base + sum / base ≡ sum [MOD base - 1] := by
  have quotient : sum / base ≡ base * (sum / base) [MOD base - 1] := by
    simpa using ((base_modEq (by omega)).mul_right (sum / base)).symm
  have split : sum % base + base * (sum / base) = sum := Nat.mod_add_div sum base
  calc sum % base + sum / base ≡ sum % base + base * (sum / base) [MOD base - 1] :=
        quotient.add_left _
    _ = sum := split

theorem endAround_modEq (two : 2 ≤ base) (sum : Nat) : endAround base sum ≡ sum [MOD base - 1] := by
  induction sum using endAround.induct base with
  | case1 sum carries ih =>
    rw [endAround_carry two carries.2]
    exact ih.trans (carry_modEq two sum)
  | case2 sum single =>
    have word : sum < base := by omega
    rw [endAround_of_lt word]

theorem endAround_pos (two : 2 ≤ base) {sum : Nat} (positive : 0 < sum) : 0 < endAround base sum := by
  induction sum using endAround.induct base with
  | case1 sum carries ih =>
    rw [endAround_carry two carries.2]
    have carry : 0 < sum / base := Nat.div_pos carries.2 (by omega)
    exact ih (by omega)
  | case2 sum single =>
    have word : sum < base := by omega
    rwa [endAround_of_lt word]

/-- Two positive words with one residue are the same word. -/
theorem word_unique {first second : Nat} (same : first ≡ second [MOD base - 1])
    (left : 0 < first ∧ first < base) (right : 0 < second ∧ second < base) : first = second := by
  have shifted : first - 1 ≡ second - 1 [MOD base - 1] :=
    Nat.ModEq.add_right_cancel' 1 (by
      rwa [Nat.sub_add_cancel left.1, Nat.sub_add_cancel right.1])
  have equal := Nat.ModEq.eq_of_lt_of_lt shifted (by omega) (by omega)
  omega

/-- Positive sums fold to the same word exactly when they have one residue. -/
theorem endAround_eq_iff (two : 2 ≤ base) {first second : Nat} (left : 0 < first)
    (right : 0 < second) :
    endAround base first = endAround base second ↔ first ≡ second [MOD base - 1] := by
  have residues := endAround_modEq two first
  have residues' := endAround_modEq two second
  constructor
  · intro same
    rw [same] at residues
    exact residues.symm.trans residues'
  · intro same
    exact word_unique ((residues.trans same).trans residues'.symm)
      ⟨endAround_pos two left, endAround_lt two first⟩
      ⟨endAround_pos two right, endAround_lt two second⟩

/-- The fold of a sum with a single carry. -/
private theorem endAround_once (two : 2 ≤ base) {sum : Nat} (carries : base ≤ sum)
    (short : sum < 2 * base - 1) :
    endAround base sum = sum - base + 1 := by
  have low : sum % base = sum - base := by
    rw [Nat.mod_eq_sub_mod carries, Nat.mod_eq_of_lt (by omega)]
  have high : sum / base = 1 := Nat.div_eq_of_lt_le (by omega) (by omega)
  rw [endAround_carry two carries, low, high, endAround_of_lt (by omega)]

/-- Below the square of the base two steps are enough. The second may carry once more,
and then what is cut off is that carry, which it has added back already. -/
theorem endAround_twice (two : 2 ≤ base) {sum : Nat} (small : sum < base * base) :
    (sum % base + sum / base + (sum % base + sum / base) / base) % base = endAround base sum := by
  have folded : endAround base (sum % base + sum / base) = endAround base sum := by
    rcases Nat.lt_or_ge sum base with single | carries
    · rw [Nat.mod_eq_of_lt single, Nat.div_eq_of_lt single, Nat.add_zero]
    · exact (endAround_carry two carries).symm
  have short : sum % base + sum / base < 2 * base - 1 := by
    have low := Nat.mod_lt sum (by omega : base > 0)
    have high := Nat.div_lt_of_lt_mul small
    omega
  rw [← folded]
  generalize sum % base + sum / base = once at short
  rcases Nat.lt_or_ge once base with single | carries
  · rw [Nat.div_eq_of_lt single, Nat.add_zero, Nat.mod_eq_of_lt single, endAround_of_lt single]
  · have high : once / base = 1 := Nat.div_eq_of_lt_le (by omega) (by omega)
    rw [high, endAround_once two carries short, Nat.mod_eq_sub_mod (by omega), Nat.mod_eq_of_lt (by omega)]
    omega

/-- A sum may be folded before more is added to it. -/
theorem endAround_add (two : 2 ≤ base) (first second : Nat) :
    endAround base (endAround base first + second) = endAround base (first + second) := by
  rcases Nat.eq_zero_or_pos first with rfl | positive
  · have zero : endAround base 0 = 0 := endAround_of_lt (by omega)
    rw [zero]
  · have folded := endAround_pos two positive
    apply (endAround_eq_iff two (by omega) (by omega)).mpr
    exact (endAround_modEq two first).add_right second

/-- Addition of two words whose carry goes back in at the low end. -/
def onesAdd (base first second : Nat) : Nat :=
  if base ≤ first + second then first + second - base + 1 else first + second

/-- The one's-complement sum of a list of words. -/
def onesSum (base : Nat) (words : List Nat) : Nat := words.foldl (onesAdd base) 0

private theorem onesAdd_eq (two : 2 ≤ base) {first second : Nat} (left : first < base)
    (right : second < base) :
    onesAdd base first second = endAround base (first + second) := by
  rw [onesAdd]
  split
  · rename_i carries
    exact (endAround_once two carries (by omega)).symm
  · rename_i single
    exact (endAround_of_lt (by omega)).symm

/-- Carries can be added back in after each word or once at the end. -/
theorem onesSum_eq (two : 2 ≤ base) {words : List Nat} (small : ∀ word ∈ words, word < base) :
    onesSum base words = endAround base words.sum := by
  have folded (sum : Nat) (word : sum < base) :
      words.foldl (onesAdd base) sum = endAround base (sum + words.sum) := by
    induction words generalizing sum with
    | nil => exact (endAround_of_lt word).symm
    | cons next rest ih =>
      have bound := small next List.mem_cons_self
      rw [List.foldl_cons, onesAdd_eq two word bound, List.sum_cons, ← Nat.add_assoc,
        ← endAround_add two (sum + next)]
      exact ih (fun later member => small later (List.mem_cons_of_mem _ member)) _
        (endAround_lt two _)
  rw [onesSum, folded 0 (by omega), Nat.zero_add]

/-- The all-ones word is the fold of exactly the positive multiples of it. -/
theorem endAround_eq_top_iff (two : 2 ≤ base) {sum : Nat} (positive : 0 < sum) :
    endAround base sum = base - 1 ↔ sum ≡ 0 [MOD base - 1] := by
  have top : endAround base (base - 1) = base - 1 := endAround_of_lt (by omega)
  have zero : base - 1 ≡ 0 [MOD base - 1] := (Nat.modEq_zero_iff_dvd).mpr (Nat.dvd_refl _)
  have compare := endAround_eq_iff two positive (by omega : 0 < base - 1)
  rw [top] at compare
  rw [compare]
  exact ⟨fun same => same.trans zero, fun same => same.trans zero.symm⟩

/-- A sum and the complement of its fold cancel. -/
theorem add_complement_modEq (two : 2 ≤ base) (sum : Nat) :
    sum + (base - 1 - endAround base sum) ≡ 0 [MOD base - 1] := by
  have folded := endAround_modEq two sum
  have word := endAround_lt two sum
  have cancel : endAround base sum + (base - 1 - endAround base sum) = base - 1 := by omega
  have zero : base - 1 ≡ 0 [MOD base - 1] := (Nat.modEq_zero_iff_dvd).mpr (Nat.dvd_refl _)
  exact (folded.symm.add_right _).trans (by rwa [cancel])

/-- As a residue, the complement of the fold is the sum with its sign changed. -/
theorem complement_modEq_neg (two : 2 ≤ base) (sum : Nat) :
    ((base - 1 - endAround base sum : Nat) : Int) ≡ -(sum : Int) [ZMOD (base - 1 : Nat)] := by
  have cancel := Int.natCast_modEq_iff.mpr (add_complement_modEq two sum)
  have moved := cancel.sub_right (sum : Int)
  simpa using moved

/-- The complement of a sum with something extra cancels the sum itself only
when the extra part is a multiple of the all-ones word. -/
theorem complement_cancels_iff (two : 2 ≤ base) (sum extra : Nat) :
    sum + (base - 1 - endAround base (sum + extra)) ≡ 0 [MOD base - 1] ↔ extra ≡ 0 [MOD base - 1] := by
  have cancel := add_complement_modEq two (sum + extra)
  rw [Nat.add_right_comm] at cancel
  constructor
  · intro zero
    exact Nat.ModEq.add_left_cancel zero (by simpa using cancel)
  · intro zero
    exact Nat.ModEq.add_right_cancel zero (by simpa using cancel)

/-- Sum of the digit pairs read low digit first; an odd last digit stands alone. -/
def sumLow (base : Nat) : List Nat → Nat
  | [] => 0
  | [last] => last
  | low :: high :: rest => low + base * high + sumLow base rest

/-- Sum of the digit pairs read high digit first; an odd last digit is padded with zero. -/
def sumHigh (base : Nat) : List Nat → Nat
  | [] => 0
  | [last] => base * last
  | high :: low :: rest => base * high + low + sumHigh base rest

theorem sumLow_append (base : Nat) {front : List Nat} (back : List Nat) (even : 2 ∣ front.length) :
    sumLow base (front ++ back) = sumLow base front + sumLow base back := by
  induction front using sumLow.induct with
  | case1 => simp [sumLow]
  | case2 last => simp at even
  | case3 low high rest ih =>
    have evenRest : 2 ∣ rest.length := by
      simp only [List.length_cons] at even
      omega
    simp only [List.cons_append, sumLow, ih evenRest]
    omega

/-- A digit put behind an odd digit string is the high half of its last word. -/
theorem sumLow_concat (base : Nat) {digits : List Nat} (last : Nat) (odd : digits.length % 2 = 1) :
    sumLow base (digits ++ [last]) = sumLow base digits + base * last := by
  induction digits using sumLow.induct with
  | case1 => simp at odd
  | case2 digit => simp [sumLow]
  | case3 low high rest ih =>
    have oddRest : rest.length % 2 = 1 := by
      simp only [List.length_cons] at odd
      omega
    simp only [List.cons_append, sumLow, ih oddRest]
    omega

theorem sumHigh_pos {base : Nat} (positive : 0 < base) {digits : List Nat}
    (some : 0 < sumLow base digits) : 0 < sumHigh base digits := by
  induction digits using sumLow.induct with
  | case1 => exact some
  | case2 last =>
    rw [sumLow] at some
    exact Nat.mul_pos positive some
  | case3 low high rest ih =>
    rw [sumLow] at some
    rw [sumHigh]
    rcases Nat.eq_zero_or_pos low with none | present
    · rcases Nat.eq_zero_or_pos high with none' | present
      · subst none none'
        have later := ih (by omega)
        omega
      · omega
    · have scaled := Nat.mul_pos positive present
      omega

/-- Two digits make a word. -/
private theorem pair_lt {base high low : Nat} (left : high < base) (right : low < base) :
    base * high + low < base * base := by
  have scaled := Nat.mul_le_mul_left base (by omega : high + 1 ≤ base)
  rw [Nat.mul_add] at scaled
  omega

/-- Every pair of digits is at most one word. -/
theorem sumLow_le {base : Nat} {digits : List Nat} (small : ∀ digit ∈ digits, digit < base) :
    sumLow base digits ≤ (base * base - 1) * ((digits.length + 1) / 2) := by
  induction digits using sumLow.induct with
  | case1 => exact Nat.zero_le _
  | case2 last =>
    have bound := small last List.mem_cons_self
    have square := Nat.mul_le_mul_right base (by omega : 1 ≤ base)
    simp only [sumLow, List.length_cons, List.length_nil]
    omega
  | case3 low high rest ih =>
    have word := pair_lt (small high (List.mem_cons_of_mem _ List.mem_cons_self))
      (small low List.mem_cons_self)
    have tail := ih fun digit member =>
      small digit (List.mem_cons_of_mem _ (List.mem_cons_of_mem _ member))
    have words : ((low :: high :: rest).length + 1) / 2 = (rest.length + 1) / 2 + 1 := by
      simp only [List.length_cons]
      omega
    rw [sumLow, words, Nat.mul_add]
    omega

/-- Reading a pair in the other order multiplies it by the digit base. -/
private theorem pair_modEq {base : Nat} (positive : 0 < base) (low high : Nat) :
    base * low + high ≡ base * (low + base * high) [MOD base * base - 1] := by
  have square : base * base * high ≡ high [MOD base * base - 1] := by
    simpa using (base_modEq (Nat.mul_pos positive positive)).mul_right high
  rw [Nat.mul_add, ← Nat.mul_assoc]
  exact square.symm.add_left _

/-- Reading the pairs in the other order does the same to their sum. -/
theorem sumHigh_modEq {base : Nat} (positive : 0 < base) (digits : List Nat) :
    sumHigh base digits ≡ base * sumLow base digits [MOD base * base - 1] := by
  induction digits using sumLow.induct with
  | case1 => rfl
  | case2 last => rfl
  | case3 low high rest ih =>
    rw [sumHigh, sumLow, Nat.mul_add]
    exact (pair_modEq positive low high).add ih

/-- The words of a digit string, high digit first; an odd last digit is padded with zero. -/
def wordsHigh (base : Nat) : List Nat → List Nat
  | [] => []
  | [last] => [base * last]
  | high :: low :: rest => (base * high + low) :: wordsHigh base rest

theorem sum_wordsHigh (base : Nat) (digits : List Nat) :
    (wordsHigh base digits).sum = sumHigh base digits := by
  induction digits using sumHigh.induct with
  | case1 => rfl
  | case2 last => exact Nat.add_zero _
  | case3 high low rest ih => rw [wordsHigh, List.sum_cons, ih, sumHigh]

theorem wordsHigh_lt {base : Nat} {digits : List Nat} (small : ∀ digit ∈ digits, digit < base) :
    ∀ word ∈ wordsHigh base digits, word < base * base := by
  induction digits using sumHigh.induct with
  | case1 => simp [wordsHigh]
  | case2 last =>
    have bound := small last List.mem_cons_self
    intro word member
    obtain rfl := List.mem_singleton.mp member
    exact Nat.mul_lt_mul_of_pos_left bound (by omega)
  | case3 high low rest ih =>
    intro word member
    rcases List.mem_cons.mp member with rfl | later
    · exact pair_lt (small high List.mem_cons_self)
        (small low (List.mem_cons_of_mem _ List.mem_cons_self))
    · exact ih (fun digit member =>
        small digit (List.mem_cons_of_mem _ (List.mem_cons_of_mem _ member))) word later

/-- Exchange the two digits of a word. -/
def swapDigits (base word : Nat) : Nat := base * (word % base) + word / base

private theorem swapDigits_modEq {base : Nat} (positive : 0 < base) (word : Nat) :
    swapDigits base word ≡ base * word [MOD base * base - 1] := by
  have swapped := pair_modEq positive (word % base) (word / base)
  rwa [Nat.mod_add_div] at swapped

private theorem swapDigits_lt {base word : Nat} (small : word < base * base) :
    swapDigits base word < base * base := by
  have positive : 0 < base := Nat.pos_of_mul_pos_right (by omega : 0 < base * base)
  exact pair_lt (Nat.mod_lt word positive) (Nat.div_lt_of_lt_mul small)

private theorem swapDigits_pos {base word : Nat} (positive : 0 < base) (some : 0 < word) :
    0 < swapDigits base word := by
  have split := Nat.mod_add_div word base
  rw [swapDigits]
  rcases Nat.eq_zero_or_pos (word % base) with none | low
  · rcases Nat.eq_zero_or_pos (word / base) with none' | high
    · rw [none, none'] at split
      omega
    · omega
  · exact Nat.add_pos_left (Nat.mul_pos positive low) _

/-- A sum that is another one's in the other byte order folds to the swapped word. -/
theorem endAround_swap {base first second : Nat} (two : 2 ≤ base) (left : 0 < first) (right : 0 < second)
    (swapped : second ≡ base * first [MOD base * base - 1]) :
    endAround (base * base) second = swapDigits base (endAround (base * base) first) := by
  have square : 2 ≤ base * base := Nat.le_trans two (Nat.le_mul_of_pos_left base (by omega))
  have folded := endAround_modEq square first
  have word := endAround_lt square first
  refine word_unique ?_ ⟨endAround_pos square right, endAround_lt square second⟩
    ⟨swapDigits_pos (by omega) (endAround_pos square left), swapDigits_lt word⟩
  calc endAround (base * base) second ≡ second [MOD base * base - 1] := endAround_modEq square second
    _ ≡ base * first [MOD base * base - 1] := swapped
    _ ≡ base * endAround (base * base) first [MOD base * base - 1] := folded.symm.mul_left base
    _ ≡ swapDigits base (endAround (base * base) first) [MOD base * base - 1] :=
        (swapDigits_modEq (by omega) _).symm

end HamachiLike.OnesComplement
