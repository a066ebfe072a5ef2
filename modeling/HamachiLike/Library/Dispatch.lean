import HamachiLike.Library.Run
import Mathlib.Data.List.Infix

/-! A loop that hands items to a callback until they end or the callback breaks the loop.
What a caller may rely on is that it goes on until then, and not much longer. -/

namespace HamachiLike.Dispatch

universe u v

/-- A loop, for any callback, state and list of items. There is no result where a call of
the callback has none. -/
abbrev Loop (State : Type u) (Item : Type v) : Type (max u v) :=
  (State → Item → Option State) → State → List Item → Option State

variable {State : Type u} {Item : Type v}
variable (broken : State → Bool) (late : Nat) (callback : State → Item → Option State)

/-- These are handed over: all items or those up to where the loop is broken, and of the
items behind that place no more than `late`. -/
structure Handed (state : State) (items handed : List Item) : Prop where
  front : handed <+: items
  whole : ∀ after, Run.run callback state handed = some after → handed = items ∨ broken after = true
  few : ∀ first second after, handed = first ++ second → Run.run callback state first = some after →
    broken after = true → second.length ≤ late

/-- The loop does nothing but hand items over. -/
def Orderly (loop : Loop State Item) : Prop :=
  ∀ callback state items, ∃ handed, Handed broken late callback state items handed ∧
    loop callback state items = Run.run callback state handed

variable {broken late callback} {state : State} {handed first rest : List Item}

/-- Where no items short of `first` break the loop and `first` does, it is handed over, and
of the rest at most `late`. -/
theorem Handed.through (given : Handed broken late callback state (first ++ rest) handed)
    (quiet : handed <+: first → handed ≠ first →
      ∃ after, Run.run callback state handed = some after ∧ broken after = false)
    (breaks : first <+: handed → ∃ after, Run.run callback state first = some after ∧ broken after = true) :
    ∃ behind, behind <+: rest ∧ behind.length ≤ late ∧ handed = first ++ behind := by
  rcases List.prefix_or_prefix_of_prefix given.front (List.prefix_append first rest) with short | long
  · by_cases whole : handed = first
    · exact ⟨[], List.nil_prefix, Nat.zero_le _, by rw [whole, List.append_nil]⟩
    · obtain ⟨after, reached, unbroken⟩ := quiet short whole
      rcases given.whole after reached with all | broke
      · subst all
        exact absurd (short.eq_of_length_le (by simp)) whole
      · rw [unbroken] at broke
        cases broke
  · obtain ⟨after, reached, broke⟩ := breaks long
    obtain ⟨behind, rfl⟩ := long
    exact ⟨behind, (List.prefix_append_right_inj first).mp given.front,
      given.few _ _ _ rfl reached broke, rfl⟩

variable (broken) in
/-- The loop that looks before each item. -/
def prompt : Loop State Item
  | _, state, [] => some state
  | callback, state, item :: rest =>
    if broken state then some state
    else (callback state item).bind fun next => prompt callback next rest

theorem prompt_orderly (late : Nat) : Orderly broken late (prompt broken : Loop State Item) := by
  intro callback state items
  have none_behind {state : State} : ∀ first second after, [] = first ++ second →
      Run.run callback state first = some after → broken after = true → second.length ≤ late := by
    intro first second after split _ _
    rw [(List.append_eq_nil_iff.mp split.symm).2]
    exact Nat.zero_le late
  induction items generalizing state with
  | nil => exact ⟨[], ⟨List.prefix_rfl, fun _ _ => .inl rfl, none_behind⟩, rfl⟩
  | cons item rest ih =>
    by_cases stopped : broken state = true
    · refine ⟨[], ⟨List.nil_prefix, fun after reached => .inr ?_, none_behind⟩, if_pos stopped⟩
      rwa [← Option.some.inj reached]
    · rw [prompt, if_neg stopped]
      cases called : callback state item with
      | none =>
        have stuck (behind : List Item) : Run.run callback state (item :: behind) = none := by
          rw [Run.run, called, Option.bind_none]
        refine ⟨[item], ⟨by simp, fun after reached => ?_, fun first second after split reached broke => ?_⟩,
          (stuck []).symm⟩
        · rw [stuck] at reached
          cases reached
        · cases first with
          | nil =>
            cases reached
            exact absurd broke stopped
          | cons other first =>
            rw [← (List.cons.inj split).1, stuck] at reached
            cases reached
      | some next =>
        obtain ⟨handed, given, same⟩ := ih next
        have onwards (behind : List Item) :
            Run.run callback state (item :: behind) = Run.run callback next behind := by
          rw [Run.run, called, Option.bind_some]
        refine ⟨item :: handed, ⟨(List.prefix_cons_inj item).mpr given.front, fun after reached => ?_,
          fun first second after split reached broke => ?_⟩, same.trans (onwards handed).symm⟩
        · rw [onwards] at reached
          exact (given.whole after reached).imp_left (congrArg (item :: ·))
        · cases first with
          | nil =>
            cases reached
            exact absurd broke stopped
          | cons other first =>
            obtain ⟨rfl, later⟩ := List.cons.inj split
            rw [onwards] at reached
            exact given.few first second after later reached broke

end HamachiLike.Dispatch
