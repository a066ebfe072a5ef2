/-! Fixed-size buffers addressed by offset. A store or a load that leaves the
buffer has no result, so a program that succeeds stayed inside its memory. -/

namespace HamachiLike.Buffer

universe u

variable {α : Type u}

/-- The `len` cells from `off` on, fewer where the buffer ends first. -/
def slice (buf : List α) (off len : Nat) : List α := (buf.drop off).take len

/-- Copy `data` over the cells from `off` on; cells past the end are not created. -/
def writeAt : List α → Nat → List α → List α
  | buf, _, [] => buf
  | buf, off, cell :: rest => writeAt (buf.set off cell) (off + 1) rest

@[simp] theorem length_writeAt (buf : List α) (off : Nat) (data : List α) :
    (writeAt buf off data).length = buf.length := by
  induction data generalizing buf off with
  | nil => rfl
  | cons cell rest ih => simp only [writeAt, ih, List.length_set]

theorem getElem?_writeAt (buf : List α) (off : Nat) (data : List α) (index : Nat) :
    (writeAt buf off data)[index]? =
      if off ≤ index ∧ index < off + data.length ∧ index < buf.length
      then data[index - off]? else buf[index]? := by
  induction data generalizing buf off with
  | nil =>
    rw [writeAt, if_neg (by simp only [List.length_nil]; omega)]
  | cons cell rest ih =>
    rw [writeAt, ih, List.getElem?_set]
    simp only [List.length_cons, List.length_set]
    by_cases here : off = index
    · subst here
      by_cases inside : off < buf.length
      · rw [if_neg (by omega), if_pos rfl, if_pos inside, if_pos (by omega), Nat.sub_self]
        rfl
      · rw [if_neg (by omega), if_pos rfl, if_neg inside, if_neg (by omega)]
        exact (List.getElem?_eq_none (by omega)).symm
    · by_cases later : off + 1 ≤ index ∧ index < off + 1 + rest.length ∧ index < buf.length
      · have position : index - off = index - (off + 1) + 1 := by omega
        rw [if_pos later, if_pos (by omega), position, List.getElem?_cons_succ]
      · rw [if_neg later, if_neg here, if_neg (by omega)]

theorem length_slice (buf : List α) (off len : Nat) :
    (slice buf off len).length = min len (buf.length - off) := by
  simp [slice]

theorem length_slice_of_le {buf : List α} {off len : Nat} (fits : off + len ≤ buf.length) :
    (slice buf off len).length = len := by
  rw [length_slice]
  omega

theorem getElem?_slice (buf : List α) (off len index : Nat) :
    (slice buf off len)[index]? = if index < len then buf[off + index]? else none := by
  rw [slice, List.getElem?_take, List.getElem?_drop]

theorem slice_append_slice (buf : List α) (off first second : Nat) :
    slice buf off first ++ slice buf (off + first) second = slice buf off (first + second) := by
  simp only [slice, List.take_add, List.drop_drop]

theorem slice_append_left {front back : List α} {off len : Nat} (inside : off + len ≤ front.length) :
    slice (front ++ back) off len = slice front off len := by
  rw [slice, slice, List.drop_append_of_le_length (by omega),
    List.take_append_of_le_length (by simp only [List.length_drop]; omega)]

theorem slice_append_right {front back : List α} {off len : Nat} (past : front.length ≤ off) :
    slice (front ++ back) off len = slice back (off - front.length) len := by
  rw [slice, slice, List.drop_append, List.drop_eq_nil_of_le past, List.nil_append]

theorem slice_prefix (front back : List α) : slice (front ++ back) 0 front.length = front := by
  simp [slice]

theorem slice_middle (front data back : List α) :
    slice (front ++ data ++ back) front.length data.length = data := by
  rw [List.append_assoc, slice_append_right (Nat.le_refl _), Nat.sub_self]
  exact slice_prefix data back

theorem slice_all {data : List α} {len : Nat} (whole : data.length ≤ len) : slice data 0 len = data := by
  simp [slice, List.take_of_length_le whole]

/-- Slices of one length are the same if they agree cell by cell. -/
theorem slice_congr {first second : List α} {off place len : Nat}
    (same : ∀ index < len, first[off + index]? = second[place + index]?) :
    slice first off len = slice second place len := by
  apply List.ext_getElem?
  intro index
  rw [getElem?_slice, getElem?_slice]
  by_cases bound : index < len
  · rw [if_pos bound, if_pos bound, same index bound]
  · rw [if_neg bound, if_neg bound]

theorem slice_slice (buf : List α) (off len inner count : Nat) (inside : inner + count ≤ len) :
    slice (slice buf off len) inner count = slice buf (off + inner) count := by
  apply slice_congr
  intro index bound
  rw [getElem?_slice, if_pos (by omega), Nat.add_assoc]

/-- A read inside the cells just written sees the data. -/
theorem slice_writeAt_inside {buf data : List α} {off index len : Nat}
    (fits : off + data.length ≤ buf.length) (lower : off ≤ index)
    (upper : index + len ≤ off + data.length) :
    slice (writeAt buf off data) index len = slice data (index - off) len := by
  apply slice_congr
  intro place bound
  have position : index + place - off = index - off + place := by omega
  rw [getElem?_writeAt, if_pos (by omega), position]

/-- A read that meets no written cell sees the old buffer. -/
theorem slice_writeAt_outside {buf data : List α} {off index len : Nat}
    (apart : index + len ≤ off ∨ off + data.length ≤ index) :
    slice (writeAt buf off data) index len = slice buf index len := by
  apply slice_congr
  intro place bound
  rw [getElem?_writeAt, if_neg (by omega)]

theorem slice_writeAt_same {buf data : List α} {off : Nat} (fits : off + data.length ≤ buf.length) :
    slice (writeAt buf off data) off data.length = data := by
  rw [slice_writeAt_inside fits (Nat.le_refl _) (Nat.le_refl _), Nat.sub_self,
    slice_all (Nat.le_refl _)]

theorem writeAt_eq_append {buf data : List α} {off : Nat} (fits : off + data.length ≤ buf.length) :
    writeAt buf off data = buf.take off ++ (data ++ buf.drop (off + data.length)) := by
  apply List.ext_getElem?
  intro index
  rw [getElem?_writeAt, List.getElem?_append, List.getElem?_append, List.length_take,
    Nat.min_eq_left (by omega), List.getElem?_drop]
  by_cases before : index < off
  · rw [if_neg (by omega), if_pos before, List.getElem?_take_of_lt before]
  · rw [if_neg before]
    by_cases inside : index < off + data.length
    · rw [if_pos (by omega), if_pos (by omega)]
    · rw [if_neg (by omega), if_neg (by omega)]
      congr 1
      omega

/-- Two writes one after the other in memory are one write. -/
theorem writeAt_adjacent {buf first second : List α} {off place : Nat}
    (next : place = off + first.length) :
    writeAt (writeAt buf off first) place second = writeAt buf off (first ++ second) := by
  subst place
  apply List.ext_getElem?
  intro index
  simp only [getElem?_writeAt, length_writeAt, List.length_append]
  by_cases bound : index < buf.length
  · by_cases later : off + first.length ≤ index
    · rw [List.getElem?_append_right (by omega)]
      by_cases inside : index < off + first.length + second.length
      · rw [if_pos (by omega), if_pos (by omega), Nat.sub_add_eq]
      · rw [if_neg (by omega), if_neg (by omega), if_neg (by omega)]
    · rw [if_neg (by omega)]
      by_cases inside : off ≤ index
      · rw [if_pos (by omega), if_pos (by omega), List.getElem?_append_left (by omega)]
      · rw [if_neg (by omega), if_neg (by omega)]
  · rw [if_neg (by omega), if_neg (by omega), if_neg (by omega)]

/-- Writing what a place already holds changes nothing. -/
theorem writeAt_slice (buf : List α) (off len : Nat) : writeAt buf off (slice buf off len) = buf := by
  apply List.ext_getElem?
  intro index
  rw [getElem?_writeAt]
  split
  · rename_i inside
    simp only [length_slice] at inside
    rw [getElem?_slice, if_pos (by omega)]
    congr 1
    omega
  · rfl

/-- Two writes with a gap between them are one write that puts the gap back. -/
theorem writeAt_gap {buf first second : List α} {off place : Nat} (start gap : Nat)
    (edge : start = off + first.length) (next : place = start + gap)
    (fits : start + gap ≤ buf.length) :
    writeAt (writeAt buf off first) place second =
      writeAt buf off (first ++ slice buf start gap ++ second) := by
  have kept : writeAt buf off (first ++ slice buf start gap) = writeAt buf off first := by
    rw [← writeAt_adjacent edge]
    conv => rhs; rw [← writeAt_slice (writeAt buf off first) start gap]
    rw [slice_writeAt_outside (by omega)]
  rw [← kept, writeAt_adjacent (by rw [List.length_append, length_slice_of_le fits]; omega)]

/-- Writing inside the cells of an earlier write edits that write. -/
theorem writeAt_inner {buf front old new back : List α} {off place : Nat}
    (same : old.length = new.length) (next : place = off + front.length) :
    writeAt (writeAt buf off (front ++ old ++ back)) place new =
      writeAt buf off (front ++ new ++ back) := by
  subst place
  apply List.ext_getElem?
  intro index
  simp only [getElem?_writeAt, length_writeAt, List.length_append, List.append_assoc]
  by_cases inside : off ≤ index ∧ index < off + (front.length + (new.length + back.length)) ∧
      index < buf.length
  · rw [if_pos inside, same, if_pos inside]
    by_cases early : index - off < front.length
    · rw [if_neg (by omega), List.getElem?_append_left early, List.getElem?_append_left early]
    · have late : front.length ≤ index - off := by omega
      rw [List.getElem?_append_right late, List.getElem?_append_right late]
      by_cases middle : index - off - front.length < new.length
      · rw [if_pos (by omega), List.getElem?_append_left middle, Nat.sub_add_eq]
      · rw [if_neg (by omega), List.getElem?_append_right (by omega),
          List.getElem?_append_right (by omega), same]
  · rw [if_neg inside, same, if_neg inside, if_neg (by omega)]

theorem writeAt_twice {buf old new : List α} {off : Nat} (same : old.length = new.length) :
    writeAt (writeAt buf off old) off new = writeAt buf off new := by
  have edit : writeAt (writeAt buf off ([] ++ old ++ [])) off new = writeAt buf off ([] ++ new ++ []) :=
    writeAt_inner same rfl
  simpa using edit

/-- Of an earlier write only what reaches past a later one stays. -/
theorem writeAt_over {buf under cover : List α} {off place : Nat} (start : off ≤ place)
    (meets : place ≤ off + cover.length) :
    writeAt (writeAt buf place under) off cover =
      writeAt buf off (cover ++ under.drop (off + cover.length - place)) := by
  apply List.ext_getElem?
  intro index
  simp only [getElem?_writeAt, length_writeAt, List.length_append, List.length_drop]
  by_cases front : off ≤ index ∧ index < off + cover.length ∧ index < buf.length
  · rw [if_pos front, if_pos (by omega), List.getElem?_append_left (by omega)]
  · rw [if_neg front]
    by_cases tail : place ≤ index ∧ index < place + under.length ∧ index < buf.length
    · rw [if_pos tail, if_pos (by omega), List.getElem?_append_right (by omega), List.getElem?_drop]
      congr 1
      omega
    · rw [if_neg tail, if_neg (by omega)]

/-- A write changes nothing exactly when its data is there already. -/
theorem writeAt_eq_self_iff {buf data : List α} {off : Nat} (fits : off + data.length ≤ buf.length) :
    writeAt buf off data = buf ↔ slice buf off data.length = data := by
  constructor
  · intro same
    have written := slice_writeAt_same fits
    rwa [same] at written
  · intro same
    have kept := writeAt_slice buf off data.length
    rwa [same] at kept

/-- A buffer of a fixed size. -/
@[ext] structure Cells (α : Type u) (size : Nat) where
  cells : List α
  length_cells : cells.length = size

namespace Cells

variable {size : Nat} (buf : Cells α size)

def fill (cell : α) : Cells α size := ⟨List.replicate size cell, List.length_replicate⟩

def put (off : Nat) (data : List α) : Cells α size :=
  ⟨writeAt buf.cells off data, by rw [length_writeAt, buf.length_cells]⟩

def first (count : Nat) : List α := slice buf.cells 0 count

theorem put_nil (off : Nat) : buf.put off [] = buf := rfl

theorem put_put (off : Nat) (first second : List α) :
    (buf.put off first).put (off + first.length) second = buf.put off (first ++ second) := by
  simp only [put, writeAt_adjacent rfl]

theorem first_put {data : List α} (fits : data.length ≤ size) :
    (buf.put 0 data).first data.length = data :=
  slice_writeAt_same (by rw [buf.length_cells]; omega)

theorem put_all {data : List α} (full : data.length = size) : (buf.put 0 data).cells = data := by
  have all := buf.first_put (Nat.le_of_eq full)
  rwa [full, first, slice_all (Nat.le_of_eq (buf.put 0 data).length_cells)] at all

end Cells

/-- A program over one buffer. No result means an access outside of it. -/
abbrev Mem (α : Type u) : Type u → Type u := StateT (List α) Option

def store (off : Nat) (data : List α) : Mem α PUnit := fun buf =>
  if off + data.length ≤ buf.length then some (⟨⟩, writeAt buf off data) else none

def load (off len : Nat) : Mem α (List α) := fun buf =>
  if off + len ≤ buf.length then some (slice buf off len, buf) else none

theorem run_store {buf data : List α} {off : Nat} (fits : off + data.length ≤ buf.length) :
    (store off data).run buf = some (⟨⟩, writeAt buf off data) := by
  rw [StateT.run, store, if_pos fits]

theorem run_store_bind {β : Type u} {buf data : List α} {off : Nat}
    (fits : off + data.length ≤ buf.length) (next : PUnit → Mem α β) :
    (store off data >>= next).run buf = (next ⟨⟩).run (writeAt buf off data) := by
  rw [StateT.run_bind, run_store fits]
  rfl

/-- A store right behind the block written so far extends the block. -/
theorem run_store_adjacent {β : Type u} {buf block data : List α} {off place : Nat}
    (next : place = off + block.length) (fits : off + block.length + data.length ≤ buf.length)
    (rest : PUnit → Mem α β) :
    (store place data >>= rest).run (writeAt buf off block) =
      (rest ⟨⟩).run (writeAt buf off (block ++ data)) := by
  rw [run_store_bind (by rw [length_writeAt]; omega), writeAt_adjacent next]

/-- A store further behind also puts the bytes it skips into the block. -/
theorem run_store_gap {β : Type u} {buf block data : List α} {off place : Nat} (start gap : Nat)
    (edge : start = off + block.length) (next : place = start + gap)
    (fits : start + gap + data.length ≤ buf.length) (rest : PUnit → Mem α β) :
    (store place data >>= rest).run (writeAt buf off block) =
      (rest ⟨⟩).run (writeAt buf off (block ++ slice buf start gap ++ data)) := by
  rw [run_store_bind (by rw [length_writeAt]; omega), writeAt_gap start gap edge next (by omega)]

theorem run_load_bind {β : Type u} {buf : List α} {off len : Nat}
    (fits : off + len ≤ buf.length) (next : List α → Mem α β) :
    (load off len >>= next).run buf = (next (slice buf off len)).run buf := by
  rw [StateT.run_bind, StateT.run, load, if_pos fits]
  rfl

/-- A step whose result is known is replaced by that result. -/
theorem run_step_bind {β γ : Type u} {action : Mem α β} {buf after : List α} {value : β}
    (known : action.run buf = some (value, after)) (next : β → Mem α γ) :
    (action >>= next).run buf = (next value).run after := by
  rw [StateT.run_bind, known]
  rfl

/-- A load has to stay inside, and so do the steps behind it. -/
theorem isSome_load_bind {β : Type u} (buf : List α) (off len : Nat) (next : List α → Mem α β) :
    ((load off len >>= next).run buf).isSome ↔
      off + len ≤ buf.length ∧ ((next (slice buf off len)).run buf).isSome := by
  by_cases fits : off + len ≤ buf.length
  · rw [run_load_bind fits, and_iff_right fits]
  · have stops : (load off len >>= next).run buf = none := by
      rw [StateT.run_bind, StateT.run, load, if_neg fits]
      rfl
    rw [stops]
    exact iff_of_false Bool.false_ne_true fun both => fits both.1

/-- A step under a test has to stay inside only if the test holds. -/
theorem isSome_ite {β : Type u} (buf : List α) (test : Prop) [Decidable test] (action : Mem α β) (value : β) :
    ((if test then action else return value).run buf).isSome ↔ test → (action.run buf).isSome := by
  by_cases holds : test
  · rw [if_pos holds]
    exact ⟨fun inside _ => inside, fun inside => inside holds⟩
  · rw [if_neg holds]
    exact iff_of_true rfl fun held => absurd held holds

end HamachiLike.Buffer
