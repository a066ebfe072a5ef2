import HamachiLike.Client.Protocol

/-! Two clients that dial each other over a network that loses nothing. -/

namespace HamachiLike.Client.Protocol

open Network

universe u

variable {Node Addr Key Answer Text : Type u}

/-- There are two clients, somewhere and apart, and each dials the other. -/
structure Mutual (parties : Parties Node Addr Key Answer) (peerOf : Node → Node) : Prop where
  apart : ∀ node, peerOf node ≠ node
  only : ∀ node other, other ≠ node → other = peerOf node
  dials : ∀ node, parties.con node = parties.addr (peerOf node)
  somewhere : ∀ node, parties.addr node ≠ parties.nowhere
  distinct : Function.Injective parties.addr

variable {parties : Parties Node Addr Key Answer} {peerOf : Node → Node}

theorem Mutual.back (both : Mutual parties peerOf) (node : Node) : peerOf (peerOf node) = node :=
  (both.only _ _ (both.apart node).symm).symm

/-- A client of the two has no peer but the other. -/
private theorem Mutual.fin_eq (both : Mutual parties peerOf) {node : Node} {peer : Peer Addr}
    (dialled : PeerDialled parties node peer) (some : peer.fin ≠ parties.nowhere) :
    peer.fin = parties.addr (peerOf node) := by
  rcases dialled with none | ⟨other, ⟨apart, _⟩, same⟩
  · exact (some none).elim
  · rw [same, both.only node other apart.symm]

/-- The key of a client on its way to the other. -/
def sentKey (parties : Parties Node Addr Key Answer) (peerOf : Node → Node) (node : Node) :
    Datagram Addr Key Answer Text :=
  ⟨parties.addr node, parties.addr (peerOf node), .key (parties.key node)⟩

/-- The answer to it on its way back. -/
def sentAnswer (parties : Parties Node Addr Key Answer) (peerOf : Node → Node) (node : Node) :
    Datagram Addr Key Answer Text :=
  ⟨parties.addr (peerOf node), parties.addr node, .solved (parties.solve (parties.key node))⟩

/-- Once a client has sent its key, it has its peer or something is under way that
will give it one. -/
def UnderWay (parties : Parties Node Addr Key Answer) (peerOf : Node → Node) (node : Node)
    (state : State Node (Datagram Addr Key Answer Text) (Peer Addr)) : Prop :=
  0 < (state.locals node).keys →
    (state.locals node).fin = parties.addr (peerOf node) ∨
      sentKey parties peerOf node ∈ state.inFlight ∨ sentAnswer parties peerOf node ∈ state.inFlight

variable [DecidableEq Key] [DecidableEq Answer]

private theorem receive_keys (node : Node) (before : Peer Addr) (datagram : Datagram Addr Key Answer Text) :
    (receive parties node before datagram).1.keys = before.keys := by
  obtain ⟨source, dest, msg⟩ := datagram
  cases msg with
  | key given =>
    simp only [receive]
    split <;> rfl
  | solved answer =>
    simp only [receive]
    split <;> rfl
  | connected => rfl
  | message text => rfl
  | other => rfl

private theorem receive_fin (node : Node) (before : Peer Addr) (datagram : Datagram Addr Key Answer Text) :
    (receive parties node before datagram).1.fin = before.fin ∨
      (receive parties node before datagram).1.fin = datagram.source := by
  obtain ⟨source, dest, msg⟩ := datagram
  cases msg with
  | key given =>
    simp only [receive]
    split <;> exact .inl rfl
  | solved answer =>
    simp only [receive]
    split
    · exact .inr rfl
    · exact .inl rfl
  | connected => exact .inr rfl
  | message text => exact .inr rfl
  | other => exact .inl rfl

/-- A client with a peer keeps one. -/
private theorem Mutual.receive_fin_ne (both : Mutual parties peerOf) {node : Node} {before : Peer Addr}
    {datagram : Datagram Addr Key Answer Text} (genuine : Genuine parties datagram)
    (reached : datagram.dest = parties.addr node) (some : before.fin ≠ parties.nowhere) :
    (receive parties node before datagram).1.fin ≠ parties.nowhere := by
  obtain ⟨other, sender, _⟩ := genuine.reaching both.distinct reached
  rcases (receive_fin node before datagram : _ ∨ (receive parties node before datagram).1.fin = _) with
    kept | taken
  · rwa [kept]
  · rw [taken, sender]
    exact both.somewhere other

/-- The other client answers a key that is not its own. -/
private theorem receive_sentKey
    (differ : ∀ node, parties.key node ≠ parties.key (peerOf node)) (node : Node) (before : Peer Addr) :
    (sentAnswer parties peerOf node : Datagram Addr Key Answer Text) ∈
      (receive parties (peerOf node) before (sentKey parties peerOf node)).2 := by
  simp only [receive, sentKey, if_neg (differ node), sentAnswer, List.mem_singleton]

/-- The answer gives the client its peer. -/
private theorem receive_sentAnswer (node : Node) (before : Peer Addr) :
    (receive parties node before
      (sentAnswer parties peerOf node : Datagram Addr Key Answer Text)).1.fin =
        parties.addr (peerOf node) := by
  simp only [receive, sentAnswer, if_pos]

variable [DecidableEq Node] [DecidableEq Addr]
variable {state next : State Node (Datagram Addr Key Answer Text) (Peer Addr)}

omit [DecidableEq Key] [DecidableEq Answer] [DecidableEq Node] [DecidableEq Addr] in
theorem UnderWay.mono {node : Node} (under : UnderWay parties peerOf node state)
    (same : next.locals node = state.locals node)
    (more : ∀ datagram ∈ state.inFlight, datagram ∈ next.inFlight) :
    UnderWay parties peerOf node next := by
  intro sent
  rw [same] at sent ⊢
  exact (under sent).imp_right (Or.imp (more _) (more _))

theorem UnderWay.input (both : Mutual parties peerOf) {actor node : Node} {given : Input Text}
    {after : Peer Addr} {sends : List (Datagram Addr Key Answer Text)}
    (accepted : input parties actor (state.locals actor) given = some (after, sends))
    (under : UnderWay parties peerOf node state) :
    UnderWay parties peerOf node (state.act (system Text parties) actor true after sends) := by
  have more : ∀ datagram ∈ state.inFlight,
      datagram ∈ (state.act (system Text parties) actor true after sends).inFlight :=
    fun _ member => mem_inFlight_act.mpr (.inl member)
  by_cases same : node = actor
  · subst same
    cases given with
    | key =>
      obtain ⟨rfl, rfl⟩ := Prod.mk.inj (Option.some.inj accepted)
      intro _
      refine .inr (.inl (mem_inFlight_act.mpr (.inr ⟨?_, both.somewhere _⟩)))
      rw [sentKey, both.dials, List.mem_singleton]
    | line text =>
      obtain ⟨rfl, rfl⟩ := Prod.mk.inj (Option.some.inj accepted)
      exact under.mono locals_act_self more
  · exact under.mono (locals_act_ne same) more

theorem UnderWay.deliver (both : Mutual parties peerOf)
    (differ : ∀ node, parties.key node ≠ parties.key (peerOf node))
    (holds : Holds (PeerDialled parties) (Genuine parties) state) {index : Nat} {actor node : Node}
    {datagram : Datagram Addr Key Answer Text} (found : state.inFlight[index]? = some datagram)
    (reached : datagram.dest = parties.addr actor) (under : UnderWay parties peerOf node state) :
    UnderWay parties peerOf node ((state.remove index).act (system Text parties) actor false
      (receive parties actor (state.locals actor) datagram).1
      (receive parties actor (state.locals actor) datagram).2) := by
  have genuine := holds.packets _ (List.mem_of_getElem? found)
  have held := holds.moves (respects both.distinct) (Moves.deliver found reached)
  have stays : ∀ other ∈ (state.remove index).inFlight,
      other ∈ ((state.remove index).act (system Text parties) actor false
        (receive parties actor (state.locals actor) datagram).1
        (receive parties actor (state.locals actor) datagram).2).inFlight :=
    fun _ member => mem_inFlight_act.mpr (.inl member)
  by_cases same : node = actor
  · subst same
    intro sent
    rw [locals_act_self, receive_keys] at sent
    rw [locals_act_self]
    rcases under sent with peer | key | answer
    · have dialled := held.locals node
      rw [locals_act_self] at dialled
      refine .inl (both.fin_eq dialled (both.receive_fin_ne genuine reached ?_))
      rw [peer]
      exact both.somewhere _
    · rcases (mem_inFlight_iff found).mp key with rfl | kept
      · exact (both.apart node (both.distinct reached)).elim
      · exact .inr (.inl (stays _ kept))
    · rcases (mem_inFlight_iff found).mp answer with rfl | kept
      · exact .inl (receive_sentAnswer node _)
      · exact .inr (.inr (stays _ kept))
  · intro sent
    rw [locals_act_ne same] at sent ⊢
    rcases under sent with peer | key | answer
    · exact .inl peer
    · rcases (mem_inFlight_iff found).mp key with rfl | kept
      · obtain rfl : peerOf node = actor := both.distinct reached
        exact .inr (.inr (mem_inFlight_act.mpr
          (.inr ⟨receive_sentKey differ node _, both.somewhere node⟩)))
      · exact .inr (.inl (stays _ kept))
    · rcases (mem_inFlight_iff found).mp answer with rfl | kept
      · exact (same (both.distinct reached)).elim
      · exact .inr (.inr (stays _ kept))

theorem UnderWay.moves (both : Mutual parties peerOf)
    (differ : ∀ node, parties.key node ≠ parties.key (peerOf node))
    (holds : Holds (PeerDialled parties) (Genuine parties) state)
    {event : Event Node (Input Text)} (moves : Moves (system Text parties) state event next)
    (kept : ∀ index, event ≠ .lose index) {node : Node} (under : UnderWay parties peerOf node state) :
    UnderWay parties peerOf node next := by
  cases moves with
  | input accepted => exact under.input both accepted
  | deliver found reached => exact under.deliver both differ holds found reached
  | @lose index _ _ => exact (kept index rfl).elim
  | duplicate found => exact under.mono rfl fun _ member => List.mem_append_left _ member

theorem UnderWay.reached (both : Mutual parties peerOf)
    (differ : ∀ node, parties.key node ≠ parties.key (peerOf node))
    {events : List (Event Node (Input Text))} (kept : ∀ index, Event.lose index ∉ events)
    (reached : Run.run (step (system Text parties)) (start (Peer.initial parties)) events = some state)
    (node : Node) : UnderWay parties peerOf node state := by
  have lossless (event : Event Node (Input Text)) (member : event ∈ events) (index : Nat) :
      event ≠ .lose index := fun same => kept index (same ▸ member)
  have initial : Holds (PeerDialled parties) (Genuine parties)
      (start (Peer.initial parties) : State Node (Datagram Addr Key Answer Text) (Peer Addr)) :=
    ⟨fun _ => .inl rfl, by simp [start]⟩
  have preserved : ∀ before event after, (∀ index, event ≠ .lose index) →
      (Holds (PeerDialled parties) (Genuine parties) before ∧
        ∀ node, UnderWay parties peerOf node before) →
      step (system Text parties) before event = some after →
      Holds (PeerDialled parties) (Genuine parties) after ∧
        ∀ node, UnderWay parties peerOf node after := by
    intro before event after lossless inv taken
    have moves := step_eq_some_iff.mp taken
    exact ⟨inv.1.moves (respects both.distinct) moves,
      fun node => (inv.2 node).moves both differ inv.1 moves lossless⟩
  have first : Holds (PeerDialled parties) (Genuine parties) (start (Peer.initial parties)) ∧
      ∀ node, UnderWay parties peerOf node
        (start (Peer.initial parties) : State Node (Datagram Addr Key Answer Text) (Peer Addr)) :=
    ⟨initial, fun _ sent => absurd sent (Nat.lt_irrefl 0)⟩
  exact (Run.run_invariant_of_events preserved first lossless reached).2 node

omit [DecidableEq Node] [DecidableEq Addr] in
/-- With one key for all, every key that arrives is taken for an echo. -/
theorem silent (same : ∀ node other, parties.key node = parties.key other) :
    Respects (system Text parties) (fun _ peer => peer.fin = parties.nowhere)
      (fun datagram => ∀ node, datagram.msg = .key (parties.key node)) where
  input := by
    intro node before given after sends none accepted
    cases given with
    | key =>
      obtain ⟨rfl, rfl⟩ := Prod.mk.inj (Option.some.inj accepted)
      refine ⟨none, ?_⟩
      intro datagram member _ other
      obtain rfl := List.mem_singleton.mp member
      rw [same other node]
    | line text =>
      obtain ⟨rfl, rfl⟩ := Prod.mk.inj (Option.some.inj accepted)
      refine ⟨none, ?_⟩
      intro datagram member somewhere
      obtain rfl := List.mem_singleton.mp member
      exact (somewhere none).elim
  receive := by
    rintro node before ⟨source, dest, msg⟩ none own _
    obtain rfl : msg = .key (parties.key node) := own node
    simp [system, receive, none]

/-- When both clients have sent a key and nothing is in flight, they are each
other's peers exactly when they drew different keys. -/
theorem agree_iff (both : Mutual parties peerOf) {events : List (Event Node (Input Text))}
    (kept : ∀ index, Event.lose index ∉ events)
    (reached : Run.run (step (system Text parties)) (start (Peer.initial parties)) events = some state)
    (sent : ∀ node, 0 < (state.locals node).keys) (quiet : state.inFlight = []) :
    (∀ node, (state.locals node).fin = parties.addr (peerOf node)) ↔
      ∀ node, parties.key node ≠ parties.key (peerOf node) := by
  constructor
  · intro agree node equal
    have same : ∀ first second, parties.key first = parties.key second := by
      have only : ∀ other, parties.key other = parties.key node := by
        intro other
        by_cases here : other = node
        · rw [here]
        · rw [both.only node other here, equal]
      exact fun first second => (only first).trans (only second).symm
    have holds := Holds.reached (silent same) (fun _ => rfl) reached
    exact both.somewhere _ ((agree node).symm.trans (holds.locals node))
  · intro differ node
    rcases UnderWay.reached both differ kept reached node (sent node) with peer | key | answer
    · exact peer
    · rw [quiet] at key
      exact absurd key List.not_mem_nil
    · rw [quiet] at answer
      exact absurd answer List.not_mem_nil

end HamachiLike.Client.Protocol
