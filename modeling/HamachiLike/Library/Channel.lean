import HamachiLike.Library.Run
import Mathlib.Data.List.Perm.Subperm

/-! One direction of a datagram network. What is given to it waits there and can be
taken out, lost or copied, and how what is taken compares with what was given depends
on which of these it promises not to do. -/

namespace HamachiLike.Channel

open scoped List

universe u

structure State (α : Type u) where
  given : List α
  waiting : List α
  taken : List α

inductive Event (α : Type u)
  | give (item : α)
  | take (index : Nat)
  | lose (index : Nat)
  | copy (index : Nat)

variable {α : Type u}

def start : State α := ⟨[], [], []⟩

def step (state : State α) : Event α → Option (State α)
  | .give item =>
    some { state with given := state.given ++ [item], waiting := state.waiting ++ [item] }
  | .take index =>
    state.waiting[index]?.map fun item =>
      { state with waiting := state.waiting.eraseIdx index, taken := state.taken ++ [item] }
  | .lose index =>
    state.waiting[index]?.map fun _ => { state with waiting := state.waiting.eraseIdx index }
  | .copy index =>
    state.waiting[index]?.map fun item => { state with waiting := state.waiting ++ [item] }

/-- What a network promises: no copies, to keep the order, no losses. -/
structure Promise where
  once : Bool
  inOrder : Bool
  all : Bool

namespace Promise

def none : Promise := ⟨false, false, false⟩

def Allows (promise : Promise) : Event α → Prop
  | .give _ => True
  | .take index => promise.inOrder = true → index = 0
  | .lose _ => promise.all = false
  | .copy _ => promise.once = false

end Promise

variable {promise : Promise} {state next : State α} {event : Event α}

/-- Everything that a step under a promise can do. -/
inductive Moves (promise : Promise) (state : State α) : State α → Prop
  | give (item : α) : Moves promise state ⟨state.given ++ [item], state.waiting ++ [item], state.taken⟩
  | take {before after : List α} {item : α} (split : state.waiting = before ++ item :: after)
      (first : promise.inOrder = true → before = []) :
      Moves promise state ⟨state.given, before ++ after, state.taken ++ [item]⟩
  | lose {before after : List α} {item : α} (split : state.waiting = before ++ item :: after)
      (loses : promise.all = false) : Moves promise state ⟨state.given, before ++ after, state.taken⟩
  | copy {item : α} (present : item ∈ state.waiting) (copies : promise.once = false) :
      Moves promise state ⟨state.given, state.waiting ++ [item], state.taken⟩

private theorem split_of_getElem? {items : List α} {index : Nat} {item : α}
    (found : items[index]? = some item) :
    ∃ before after, items = before ++ item :: after ∧ before.length = index ∧
      items.eraseIdx index = before ++ after := by
  obtain ⟨inside, rfl⟩ := List.getElem?_eq_some_iff.mp found
  refine ⟨items.take index, items.drop (index + 1), ?_, List.length_take_of_le (Nat.le_of_lt inside),
    List.eraseIdx_eq_take_drop_succ _ _⟩
  rw [← List.drop_eq_getElem_cons inside, List.take_append_drop]

private theorem moves_of_step (allowed : promise.Allows event) (taken : step state event = some next) :
    Moves promise state next := by
  cases event with
  | give item =>
    cases taken
    exact .give item
  | take index =>
    obtain ⟨item, found, rfl⟩ := Option.map_eq_some_iff.mp taken
    obtain ⟨before, after, split, place, rest⟩ := split_of_getElem? found
    rw [rest]
    exact .take split fun ordered => List.eq_nil_of_length_eq_zero (place.trans (allowed ordered))
  | lose index =>
    obtain ⟨item, found, rfl⟩ := Option.map_eq_some_iff.mp taken
    obtain ⟨before, after, split, -, rest⟩ := split_of_getElem? found
    rw [rest]
    exact .lose split allowed
  | copy index =>
    obtain ⟨item, found, rfl⟩ := Option.map_eq_some_iff.mp taken
    exact .copy (List.mem_of_getElem? found) allowed

/-- What every move keeps holds after a run. -/
theorem Moves.reached (Inv : State α → Prop)
    (kept : ∀ state next, Inv state → Moves promise state next → Inv next) (initial : Inv start)
    {events : List (Event α)} (allowed : ∀ event ∈ events, promise.Allows event)
    (reached : Run.run step start events = some state) : Inv state :=
  Run.run_invariant_of_events
    (fun _ _ _ allows inv taken => kept _ _ inv (moves_of_step allows taken)) initial allowed reached

private theorem taken_perm (taken before after : List α) (item : α) :
    taken ++ [item] ++ (before ++ after) ~ taken ++ (before ++ item :: after) := by
  rw [List.append_assoc, List.singleton_append]
  exact List.perm_middle.symm.append_left taken

private theorem lost_sublist (taken before after : List α) (item : α) :
    taken ++ (before ++ after) <+ taken ++ (before ++ item :: after) :=
  ((List.sublist_cons_self item after).append_left before).append_left taken

variable {events : List (Event α)}

/-- Nothing is taken that was not given. -/
theorem subset_given (allowed : ∀ event ∈ events, promise.Allows event)
    (reached : Run.run step start events = some state) :
    state.taken ++ state.waiting ⊆ state.given := by
  refine Moves.reached (fun state => state.taken ++ state.waiting ⊆ state.given)
    (fun state next inside moves => ?_) (List.nil_subset _) allowed reached
  cases moves with
  | give item =>
    rw [← List.append_assoc]
    exact List.append_subset.mpr ⟨List.Subset.trans inside (List.subset_append_left _ _),
      List.subset_append_right _ _⟩
  | @take before after item split _ =>
    rw [split] at inside
    exact List.Subset.trans (taken_perm state.taken before after item).subset inside
  | @lose before after item split _ =>
    rw [split] at inside
    exact List.Subset.trans (lost_sublist state.taken before after item).subset inside
  | copy present _ =>
    intro other member
    rw [← List.append_assoc] at member
    rcases List.mem_append.mp member with old | copied
    · exact inside old
    · rw [List.mem_singleton.mp copied]
      exact inside (List.mem_append_right _ present)

/-- Without copies nothing is taken more often than it was given. -/
theorem subperm_given (once : promise.once = true) (allowed : ∀ event ∈ events, promise.Allows event)
    (reached : Run.run step start events = some state) :
    state.taken ++ state.waiting <+~ state.given := by
  refine Moves.reached (fun state => state.taken ++ state.waiting <+~ state.given)
    (fun state next inside moves => ?_) (List.Subperm.refl []) allowed reached
  cases moves with
  | give item =>
    rw [← List.append_assoc]
    exact (List.subperm_append_right _).mpr inside
  | @take before after item split _ =>
    rw [split] at inside
    exact (taken_perm state.taken before after item).subperm.trans inside
  | @lose before after item split _ =>
    rw [split] at inside
    exact (lost_sublist state.taken before after item).subperm.trans inside
  | copy _ copies => rw [once] at copies; cases copies

/-- In order, besides, it comes out as it was given, with gaps. -/
theorem sublist_given (once : promise.once = true) (ordered : promise.inOrder = true)
    (allowed : ∀ event ∈ events, promise.Allows event)
    (reached : Run.run step start events = some state) :
    state.taken ++ state.waiting <+ state.given := by
  refine Moves.reached (fun state => state.taken ++ state.waiting <+ state.given)
    (fun state next inside moves => ?_) (List.Sublist.refl []) allowed reached
  cases moves with
  | give item =>
    rw [← List.append_assoc]
    exact inside.append_right _
  | take split first =>
    rw [split, first ordered, List.nil_append] at inside
    rw [first ordered, List.nil_append, List.append_assoc]
    exact inside
  | @lose before after item split _ =>
    rw [split] at inside
    exact (lost_sublist state.taken before after item).trans inside
  | copy _ copies => rw [once] at copies; cases copies

private theorem perm_given (once : promise.once = true) (all : promise.all = true)
    (allowed : ∀ event ∈ events, promise.Allows event)
    (reached : Run.run step start events = some state) :
    state.taken ++ state.waiting ~ state.given := by
  refine Moves.reached (fun state => state.taken ++ state.waiting ~ state.given)
    (fun state next same moves => ?_) (List.Perm.refl []) allowed reached
  cases moves with
  | give item =>
    rw [← List.append_assoc]
    exact same.append_right _
  | @take before after item split _ =>
    rw [split] at same
    exact (taken_perm state.taken before after item).trans same
  | lose _ loses => rw [all] at loses; cases loses
  | copy _ copies => rw [once] at copies; cases copies

/-- A network that promises all three is a queue. -/
theorem eq_given (once : promise.once = true) (ordered : promise.inOrder = true)
    (all : promise.all = true) (allowed : ∀ event ∈ events, promise.Allows event)
    (reached : Run.run step start events = some state) :
    state.taken ++ state.waiting = state.given :=
  (sublist_given once ordered allowed reached).eq_of_length (perm_given once all allowed reached).length_eq

/-! What a system that runs over such a network sees of it. -/

/-- The second state is reached from the first by events under the promise. -/
def Follows (promise : Promise) (state next : State α) : Prop :=
  ∃ events : List (Event α), (∀ event ∈ events, promise.Allows event) ∧
    Run.run step state events = some next

theorem Follows.refl (promise : Promise) (state : State α) : Follows promise state state :=
  ⟨[], by simp, rfl⟩

theorem Follows.trans {last : State α} (first : Follows promise state next)
    (second : Follows promise next last) : Follows promise state last := by
  obtain ⟨before, allowedBefore, reached⟩ := first
  obtain ⟨after, allowedAfter, goesOn⟩ := second
  refine ⟨before ++ after, ?_, Run.run_append_some.mpr ⟨next, reached, goesOn⟩⟩
  intro event member
  exact (List.mem_append.mp member).elim (allowedBefore event) (allowedAfter event)

theorem Follows.step (allowed : promise.Allows event) (taken : step state event = some next) :
    Follows promise state next :=
  ⟨[event], List.forall_mem_singleton.mpr allowed, Run.run_cons_some.mpr ⟨next, taken, rfl⟩⟩

/-- An item that is given and does not arrive. -/
theorem Follows.dropped (loses : promise.all = false) (state : State α) (item : α) :
    Follows promise state { state with given := state.given ++ [item] } := by
  have gone : Channel.step ⟨state.given ++ [item], state.waiting ++ [item], state.taken⟩
      (.lose state.waiting.length) = some { state with given := state.given ++ [item] } := by
    simp [Channel.step, List.eraseIdx_append_of_length_le]
  have given : Follows promise state ⟨state.given ++ [item], state.waiting ++ [item], state.taken⟩ :=
    Follows.step (show promise.Allows (.give item) from trivial) rfl
  exact given.trans (Follows.step (show promise.Allows (.lose state.waiting.length) from loses) gone)

end HamachiLike.Channel
