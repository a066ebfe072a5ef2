/-! Singly linked lists in a heap. An address is an index into the heap, and the
null pointer is `none`. -/

namespace HamachiLike.LinkedList

universe u v

variable {Cell : Type u} {next : Cell → Option Nat}

/-- From a pointer the links pass these cells, each with its address, and end in null. -/
inductive Linked (next : Cell → Option Nat) (heap : List Cell) : Option Nat → List (Nat × Cell) → Prop
  | null : Linked next heap none []
  | cell {place : Nat} {value : Cell} {rest : List (Nat × Cell)} (found : heap[place]? = some value)
      (after : Linked next heap (next value) rest) : Linked next heap (some place) ((place, value) :: rest)

variable {heap heap' : List Cell} {head : Option Nat} {front : List (Nat × Cell)}

theorem Linked.null_iff {cells : List (Nat × Cell)} (linked : Linked next heap head cells) :
    head = none ↔ cells = [] := by
  cases linked with
  | null => exact iff_of_true rfl rfl
  | cell found after => exact iff_of_false nofun nofun

theorem Linked.found {cells : List (Nat × Cell)} (linked : Linked next heap head cells) :
    ∀ entry ∈ cells, heap[entry.1]? = some entry.2 := by
  induction linked with
  | null =>
    intro entry member
    cases member
  | cell found after ih =>
    intro entry member
    rcases List.mem_cons.mp member with rfl | later
    · exact found
    · exact ih entry later

/-- A list grows at its end when its last cell is made to point to a new one. -/
theorem Linked.append_cell {last fresh : Nat} {old linked value : Cell}
    (list : Linked next heap head (front ++ [(last, old)]))
    (kept : ∀ entry ∈ front, heap'[entry.1]? = heap[entry.1]?)
    (relinked : heap'[last]? = some linked) (toFresh : next linked = some fresh)
    (added : heap'[fresh]? = some value) (ends : next value = none) :
    Linked next heap' head (front ++ [(last, linked), (fresh, value)]) := by
  induction front generalizing head with
  | nil =>
    cases list with
    | cell found after =>
      refine .cell relinked ?_
      rw [toFresh]
      refine .cell added ?_
      rw [ends]
      exact .null
  | cons entry rest ih =>
    cases list with
    | cell found after =>
      refine .cell ((kept _ List.mem_cons_self).trans found) ?_
      exact ih after fun entry member => kept entry (List.mem_cons_of_mem _ member)

end HamachiLike.LinkedList
