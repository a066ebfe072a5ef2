import HamachiLike.Library.Run

/-! Programs as trees of calls. What holds before every call of a program follows
from rules of pre- and postconditions, whatever the calls return. -/

namespace HamachiLike

universe u v w x

/-- A result, or a call and what follows each reply to it. -/
inductive Program (Call : Type u) (Reply : Call → Type v) (α : Type w) : Type (max u v w)
  | done (value : α)
  | call (made : Call) (next : Reply made → Program Call Reply α)

namespace Program

variable {Call : Type u} {Reply : Call → Type v} {α β : Type w} {Log : Type x}

def bind : Program Call Reply α → (α → Program Call Reply β) → Program Call Reply β
  | done value, next => next value
  | call made first, next => .call made fun reply => (first reply).bind next

instance : Monad (Program Call Reply) where
  pure := done
  bind := bind

def perform (made : Call) : Program Call Reply (Reply made) := .call made .done

/-- What the replies to calls are like, and what a log keeps of them. -/
structure Contract (Call : Type u) (Reply : Call → Type v) (Log : Type x) where
  allows : Log → (made : Call) → Reply made → Bool
  note : Log → (made : Call) → Reply made → Log

variable (contract : Contract Call Reply Log) (before : Call → Log → Prop)

/-- From a log on, `before` holds at each call of the program and `post` at its end. -/
def wp (post : α → Log → Prop) : Program Call Reply α → Log → Prop
  | done value, log => post value log
  | call made next, log =>
    before made log ∧
      ∀ reply, contract.allows log made reply = true →
        (next reply).wp post (contract.note log made reply)

variable {contract before} {post : α → Log → Prop} {log : Log}

theorem wp_perform {made : Call} {post : Reply made → Log → Prop} :
    (perform made).wp contract before post log ↔
      before made log ∧
        ∀ reply, contract.allows log made reply = true → post reply (contract.note log made reply) :=
  Iff.rfl

theorem wp_mono {weaker : α → Log → Prop} (implied : ∀ value log, post value log → weaker value log)
    {program : Program Call Reply α} (meets : program.wp contract before post log) :
    program.wp contract before weaker log := by
  induction program generalizing log with
  | done value => exact implied value log meets
  | call made next ih => exact ⟨meets.1, fun reply allowed => ih reply (meets.2 reply allowed)⟩

/-- The rule of sequencing. -/
theorem wp_bind {program : Program Call Reply α} {next : α → Program Call Reply β}
    {post : β → Log → Prop} :
    (program >>= next).wp contract before post log ↔
      program.wp contract before (fun value => (next value).wp contract before post) log := by
  change (program.bind next).wp contract before post log ↔ _
  induction program generalizing log with
  | done value => exact Iff.rfl
  | call made first ih =>
    refine and_congr_right fun _ => forall_congr' fun reply => ?_
    exact imp_congr_right fun _ => ih reply

/-! A program that takes turns. A turn ends in the state of the next one, or in the
end of the program. -/

variable {σ : Type w} (body : σ → Program Call Reply (σ ⊕ β))

/-- At the end of a turn, the next one. -/
def settle : Program Call Reply (σ ⊕ β) → Program Call Reply (σ ⊕ β)
  | done (.inl state) => body state
  | rest => rest

/-- A program that has got somewhere: what is left of its turn, and its log. -/
structure Machine (Call : Type u) (Reply : Call → Type v) (α : Type w) (Log : Type x) where
  rest : Program Call Reply α
  log : Log

namespace Machine

/-- The call that the program waits in. -/
def waits (machine : Machine Call Reply α Log) : Option Call :=
  match machine.rest with
  | .done _ => none
  | .call made _ => some made

variable [DecidableEq Call]

/-- A reply that the contract allows, to the call that the program waits in. -/
def advance (contract : Contract Call Reply Log) (machine : Machine Call Reply (σ ⊕ β) Log)
    (made : Call) (reply : Reply made) : Option (Machine Call Reply (σ ⊕ β) Log) :=
  match machine.rest with
  | .done _ => none
  | .call asked next =>
    if same : made = asked then
      if contract.allows machine.log made reply then
        some ⟨settle body (next (same ▸ reply)), contract.note machine.log made reply⟩
      else none
    else none

/-- A program alone, whatever is at the other end of its calls. -/
def step (contract : Contract Call Reply Log) (machine : Machine Call Reply (σ ⊕ β) Log)
    (event : (made : Call) × Reply made) : Option (Machine Call Reply (σ ⊕ β) Log) :=
  machine.advance body contract event.1 event.2

def start (first : σ) (log : Log) : Machine Call Reply (σ ⊕ β) Log := ⟨body first, log⟩

variable {body} {machine next : Machine Call Reply (σ ⊕ β) Log} {made : Call} {reply : Reply made}

theorem advance_eq_some_iff :
    machine.advance body contract made reply = some next ↔
      contract.allows machine.log made reply = true ∧ ∃ follow, machine.rest = .call made follow ∧
        next = ⟨settle body (follow reply), contract.note machine.log made reply⟩ := by
  constructor
  · intro advanced
    unfold advance at advanced
    split at advanced
    · cases advanced
    · rename_i asked follow waiting
      split at advanced
      · rename_i same
        subst same
        obtain ⟨allowed, reached⟩ := Option.ite_none_right_eq_some.mp advanced
        exact ⟨allowed, follow, waiting, (Option.some.inj reached).symm⟩
      · cases advanced
  · rintro ⟨allowed, follow, waiting, rfl⟩
    simp only [advance, waiting, dif_pos, if_pos allowed]

theorem advance_log (advanced : machine.advance body contract made reply = some next) :
    next.log = contract.note machine.log made reply := by
  obtain ⟨-, follow, -, rfl⟩ := advance_eq_some_iff.mp advanced
  rfl

variable (contract before) in
/-- What is left of the turn does what it should: it ends with `inv` or with `post`. -/
def Sound (inv : σ → Log → Prop) (post : β → Log → Prop) (machine : Machine Call Reply (σ ⊕ β) Log) :
    Prop :=
  machine.rest.wp contract before (Sum.elim inv post) machine.log

variable {inv : σ → Log → Prop} {post : β → Log → Prop}

omit [DecidableEq Call] in
/-- A program on its course waits in a call, or has ended. -/
theorem Sound.cases (sound : machine.Sound contract before inv post) :
    (∃ made, machine.waits = some made ∧ before made machine.log) ∨
      machine.waits = none ∧ ∃ value, Sum.elim inv post value machine.log := by
  unfold Sound at sound
  unfold waits
  cases found : machine.rest with
  | done value =>
    rw [found] at sound
    exact .inr ⟨rfl, value, sound⟩
  | call made follow =>
    rw [found] at sound
    exact .inl ⟨made, rfl, sound.1⟩

omit [DecidableEq Call] in
theorem Sound.waiting (sound : machine.Sound contract before inv post)
    (waiting : machine.waits = some made) : before made machine.log := by
  rcases sound.cases with ⟨other, found, holds⟩ | ⟨ended, -⟩
  · cases found.symm.trans waiting
    exact holds
  · rw [ended] at waiting
    cases waiting

omit [DecidableEq Call] in
private theorem settle_wp (turn : ∀ state log, inv state log →
      (body state).wp contract before (Sum.elim inv post) log)
    {rest : Program Call Reply (σ ⊕ β)} {log : Log}
    (meets : rest.wp contract before (Sum.elim inv post) log) :
    (settle body rest).wp contract before (Sum.elim inv post) log := by
  cases rest with
  | done value =>
    cases value with
    | inl state => exact turn state log meets
    | inr value => exact meets
  | call made follow => exact meets

/-- A reply keeps the program on its course. -/
theorem Sound.advance (turn : ∀ state log, inv state log →
      (body state).wp contract before (Sum.elim inv post) log)
    (sound : machine.Sound contract before inv post)
    (advanced : machine.advance body contract made reply = some next) :
    next.Sound contract before inv post := by
  obtain ⟨allowed, follow, waiting, rfl⟩ := advance_eq_some_iff.mp advanced
  unfold Sound at sound
  rw [waiting] at sound
  exact settle_wp turn (sound.2 reply allowed)

/-- The rule of repetition: a turn that meets its invariant meets it in every run. -/
theorem Sound.reached (turn : ∀ state log, inv state log →
      (body state).wp contract before (Sum.elim inv post) log)
    {first : σ} {log : Log} {events : List ((made : Call) × Reply made)} (good : inv first log)
    (reached : Run.run (step body contract) (start body first log) events = some machine) :
    machine.Sound contract before inv post := by
  have sound : (start body first log).Sound contract before inv post := turn first log good
  exact Run.run_preserves (fun _ _ _ sound advanced => Sound.advance turn sound advanced) sound reached

end Machine

end Program

end HamachiLike
