import HamachiLike.Library.Program
import HamachiLike.Library.Run

/-! Two programs joined by a byte stream in each direction. A read takes any part of
what is on its way, and finds the end once nothing is and the other side is closed. -/

namespace HamachiLike.Duplex

open Program

universe u v w x y

inductive Side
  | left
  | right
  deriving DecidableEq

def Side.other : Side → Side
  | left => right
  | right => left

@[simp] theorem Side.other_other (side : Side) : side.other.other = side := by cases side <;> rfl

theorem Side.other_ne (side : Side) : side.other ≠ side := by cases side <;> decide

theorem Side.eq_or_eq_other (side any : Side) : any = side ∨ any = side.other := by
  cases side <;> cases any <;> decide

/-- What the calls of a program do to its connection, and what its log says of it. A
reply can promise that the next read does not block. -/
structure Link (Call : Type u) (Reply : Call → Type v) (Log : Type x) (β : Type y) where
  contract : Contract Call Reply Log
  takes : (made : Call) → Reply made → List β
  gives : (made : Call) → Reply made → List β
  findsEnd : (made : Call) → Reply made → Bool
  promises : (made : Call) → Reply made → Bool
  received : Log → List β
  sent : Log → List β
  ended : Log → Bool
  promised : Log → Bool
  received_note : ∀ log made reply,
    received (contract.note log made reply) = received log ++ takes made reply
  sent_note : ∀ log made reply, sent (contract.note log made reply) = sent log ++ gives made reply
  ended_note : ∀ log made reply,
    ended (contract.note log made reply) = (ended log || findsEnd made reply)
  promised_note : ∀ log made reply, promised (contract.note log made reply) = true →
    takes made reply = [] ∧ (promises made reply = true ∨ promised log = true)

variable {Call : Type u} {Reply : Call → Type v} {Log : Type x} {β : Type y} {σ τ : Type w}

/-- Nothing more comes after the end. -/
def Link.orderly (link : Link Call Reply Log β) : Contract Call Reply Log where
  allows := fun log made reply =>
    link.contract.allows log made reply && (!link.ended log || (link.takes made reply).isEmpty)
  note := link.contract.note

/-- The programs, and what is on its way to each of them. -/
structure State (Call : Type u) (Reply : Call → Type v) (α : Type w) (Log : Type x) (β : Type y) where
  ends : Side → Machine Call Reply α Log
  wire : Side → List β
  closed : Side → Bool

inductive Event (Call : Type u) (Reply : Call → Type v)
  | act (side : Side) (made : Call) (reply : Reply made)
  | close (side : Side)

/-- A read by this side does not block. -/
def State.Readable (state : State Call Reply (σ ⊕ τ) Log β) (side : Side) : Prop :=
  state.wire side ≠ [] ∨ state.closed side.other = true

instance [DecidableEq β] (state : State Call Reply (σ ⊕ τ) Log β) (side : Side) :
    Decidable (state.Readable side) := inferInstanceAs (Decidable (_ ∨ _))

variable (link : Link Call Reply Log β) (body : Side → σ → Program Call Reply (σ ⊕ τ))

def State.Enabled (state : State Call Reply (σ ⊕ τ) Log β) (side : Side) (made : Call)
    (reply : Reply made) : Prop :=
  state.closed side = false ∧ link.takes made reply <+: state.wire side ∧
    (link.findsEnd made reply = true → state.wire side = [] ∧ state.closed side.other = true) ∧
      (link.promises made reply = true → state.Readable side)

instance [DecidableEq β] (state : State Call Reply (σ ⊕ τ) Log β) (side : Side) (made : Call)
    (reply : Reply made) : Decidable (state.Enabled link side made reply) :=
  inferInstanceAs (Decidable (_ ∧ _ ∧ (_ → _) ∧ (_ → _)))

/-- The effect of a reply to one side. -/
def State.act (state : State Call Reply (σ ⊕ τ) Log β) (side : Side) (made : Call) (reply : Reply made)
    (after : Machine Call Reply (σ ⊕ τ) Log) : State Call Reply (σ ⊕ τ) Log β where
  ends := fun any => if any = side then after else state.ends any
  wire := fun any =>
    if any = side then (state.wire any).drop (link.takes made reply).length
    else state.wire any ++ link.gives made reply
  closed := state.closed

variable [DecidableEq Call] [DecidableEq β]

/-- A program that is over, or is stopped, makes no more calls. -/
def step (state : State Call Reply (σ ⊕ τ) Log β) :
    Event Call Reply → Option (State Call Reply (σ ⊕ τ) Log β)
  | .act side made reply =>
    if state.Enabled link side made reply then
      ((state.ends side).advance (body side) link.contract made reply).map
        (state.act link side made reply)
    else none
  | .close side => some { state with closed := fun any => any = side || state.closed any }

/-- Both programs at their start. -/
def start (first : Side → σ) (log : Log) : State Call Reply (σ ⊕ τ) Log β where
  ends := fun side => ⟨body side (first side), log⟩
  wire := fun _ => []
  closed := fun _ => false

variable (before : Side → Call → Log → Prop) (inv : Side → σ → Log → Prop) (post : Side → τ → Log → Prop)

/-- Both programs are on their course, and nothing is lost between them. -/
structure Linked (state : State Call Reply (σ ⊕ τ) Log β) : Prop where
  sound : ∀ side, (state.ends side).Sound link.orderly (before side) (inv side) (post side)
  conserved : ∀ side, link.received (state.ends side).log ++ state.wire side =
    link.sent (state.ends side.other).log
  drained : ∀ side, link.ended (state.ends side).log = true →
    state.wire side = [] ∧ state.closed side.other = true
  promised : ∀ side, link.promised (state.ends side).log = true → state.Readable side

variable {link body before inv post} {state next : State Call Reply (σ ⊕ τ) Log β}

section Act

variable {side : Side} {made : Call} {reply : Reply made} {after : Machine Call Reply (σ ⊕ τ) Log}

omit [DecidableEq Call] [DecidableEq β] in
@[simp] theorem ends_act_self : (state.act link side made reply after).ends side = after := if_pos rfl

omit [DecidableEq Call] [DecidableEq β] in
@[simp] theorem ends_act_other :
    (state.act link side made reply after).ends side.other = state.ends side.other :=
  if_neg side.other_ne

omit [DecidableEq Call] [DecidableEq β] in
@[simp] theorem wire_act_self : (state.act link side made reply after).wire side =
    (state.wire side).drop (link.takes made reply).length := if_pos rfl

omit [DecidableEq Call] [DecidableEq β] in
@[simp] theorem wire_act_other : (state.act link side made reply after).wire side.other =
    state.wire side.other ++ link.gives made reply :=
  if_neg side.other_ne

theorem step_act_eq_some_iff : step link body state (.act side made reply) = some next ↔
    state.Enabled link side made reply ∧ ∃ after,
      (state.ends side).advance (body side) link.contract made reply = some after ∧
        state.act link side made reply after = next := by
  rw [step, Option.ite_none_right_eq_some, Option.map_eq_some_iff]

omit [DecidableEq β] in
private theorem orderly_advance (quiet : link.ended (state.ends side).log = true → link.takes made reply = [])
    (advanced : (state.ends side).advance (body side) link.contract made reply = some after) :
    (state.ends side).advance (body side) link.orderly made reply = some after := by
  obtain ⟨allowed, follow, waiting, rfl⟩ := Machine.advance_eq_some_iff.mp advanced
  refine Machine.advance_eq_some_iff.mpr ⟨?_, follow, waiting, rfl⟩
  simp only [Link.orderly, allowed, Bool.true_and, Bool.or_eq_true, Bool.not_eq_true',
    List.isEmpty_iff]
  cases ended : link.ended (state.ends side).log with
  | false => exact .inl rfl
  | true => exact .inr (quiet ended)

omit [DecidableEq β] in
/-- A reply keeps the programs linked. -/
theorem Linked.act (turn : ∀ side state log, inv side state log →
      (body side state).wp link.orderly (before side) (Sum.elim (inv side) (post side)) log)
    (linked : Linked link before inv post state) (enabled : state.Enabled link side made reply)
    (advanced : (state.ends side).advance (body side) link.contract made reply = some after) :
    Linked link before inv post (state.act link side made reply after) := by
  obtain ⟨running, front, finds, readable⟩ := enabled
  obtain ⟨rest, whole⟩ := front
  have logged := Machine.advance_log advanced
  have kept : (state.wire side).drop (link.takes made reply).length = rest := by
    rw [← whole, List.drop_left]
  constructor
  · intro any
    rcases side.eq_or_eq_other any with rfl | rfl
    · rw [ends_act_self]
      have quiet : link.ended (state.ends any).log = true → link.takes made reply = [] := by
        intro ended
        rw [(linked.drained any ended).1, List.append_eq_nil_iff] at whole
        exact whole.1
      exact (linked.sound any).advance (turn any) (orderly_advance quiet advanced)
    · rw [ends_act_other]
      exact linked.sound side.other
  · intro any
    rcases side.eq_or_eq_other any with rfl | rfl
    · have conserved := linked.conserved any
      rw [← whole, ← List.append_assoc] at conserved
      rw [ends_act_self, ends_act_other, wire_act_self, kept, logged, link.received_note, conserved]
    · have conserved := linked.conserved side.other
      rw [Side.other_other] at conserved ⊢
      rw [ends_act_self, ends_act_other, wire_act_other, logged, link.sent_note, ← conserved,
        List.append_assoc]
  · intro any ended
    rcases side.eq_or_eq_other any with rfl | rfl
    · rw [ends_act_self, logged, link.ended_note, Bool.or_eq_true] at ended
      rw [wire_act_self]
      have empty : state.wire any = [] ∧ state.closed any.other = true :=
        ended.elim (linked.drained any) finds
      exact ⟨by rw [empty.1, List.drop_nil], empty.2⟩
    · rw [ends_act_other] at ended
      -- the other side is at the end only once this one is closed
      have closed := (linked.drained side.other ended).2
      rw [Side.other_other, running] at closed
      cases closed
  · intro any promised
    rcases side.eq_or_eq_other any with rfl | rfl
    · rw [ends_act_self, logged] at promised
      rw [State.Readable, wire_act_self]
      obtain ⟨nothing, promise⟩ := link.promised_note _ made reply promised
      rw [nothing]
      exact promise.elim readable (linked.promised any)
    · rw [ends_act_other] at promised
      rw [State.Readable, wire_act_other]
      refine (linked.promised side.other promised).imp_left fun more => ?_
      exact List.append_ne_nil_of_left_ne_nil more _

end Act

theorem Linked.step (turn : ∀ side state log, inv side state log →
      (body side state).wp link.orderly (before side) (Sum.elim (inv side) (post side)) log)
    (event : Event Call Reply) (linked : Linked link before inv post state)
    (taken : step link body state event = some next) :
    Linked link before inv post next := by
  cases event with
  | act side made reply =>
    obtain ⟨enabled, after, advanced, rfl⟩ := step_act_eq_some_iff.mp taken
    exact linked.act turn enabled advanced
  | close side =>
    cases taken
    refine ⟨linked.sound, linked.conserved, fun any ended => ?_, fun any promised => ?_⟩
    · obtain ⟨empty, closed⟩ := linked.drained any ended
      exact ⟨empty, by simp only [closed, Bool.or_true]⟩
    · refine (linked.promised any promised).imp_right fun closed => ?_
      simp only [closed, Bool.or_true]

omit [DecidableEq Call] [DecidableEq β] in
theorem Linked.start (turn : ∀ side state log, inv side state log →
      (body side state).wp link.orderly (before side) (Sum.elim (inv side) (post side)) log)
    {first : Side → σ} {log : Log} (good : ∀ side, inv side (first side) log)
    (quiet : link.received log = [] ∧ link.sent log = [])
    (silent : link.ended log = false ∧ link.promised log = false) :
    Linked link before inv post (start body first log) where
  sound := fun side => turn side (first side) log (good side)
  conserved := fun _ => by simp only [Duplex.start, quiet, List.append_nil]
  drained := fun _ ended => by
    rw [Duplex.start, silent.1] at ended
    cases ended
  promised := fun _ promised => by
    rw [Duplex.start, silent.2] at promised
    cases promised

/-- Programs that keep to their course alone keep to it together, in any
interleaving and however the streams are cut up. -/
theorem Linked.reached (turn : ∀ side state log, inv side state log →
      (body side state).wp link.orderly (before side) (Sum.elim (inv side) (post side)) log)
    {events : List (Event Call Reply)} (linked : Linked link before inv post state)
    (reached : Run.run (Duplex.step link body) state events = some next) :
    Linked link before inv post next :=
  Run.run_preserves (fun _ event _ linked taken => linked.step turn event taken) linked reached

end HamachiLike.Duplex
