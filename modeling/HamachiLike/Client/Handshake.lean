import HamachiLike.Client.RecLoop
import HamachiLike.Library.Run

/-! Who can become the peer of one client, whatever arrives at its socket. A
KEY_SOLVED has to carry the right answer; a CONNECTED or a MESSAGE is believed. -/

namespace HamachiLike.Client

/-- What a client did on an event. -/
structure Done where
  event : Event
  actions : List Action
  deriving DecidableEq

/-- Take a step and write it down. -/
def record (client : Config) (now : Globals × List Done) (event : Event) :
    Option (Globals × List Done) :=
  (step client now.1 event).map fun (after, actions) => (after, now.2 ++ [⟨event, actions⟩])

def isOwnKey (client : Config) (send : Send) : Prop :=
  send.a = client.myKey.a ∧ send.b = client.myKey.b

/-- The host answered the client's key just now, or the client answered a KEY of
the host with a KEY_SOLVED before. -/
def Handshaken (client : Config) (earlier : List Done) (event : Event) (addr : SockAddr) : Prop :=
  (∃ datagram, event = .receive addr datagram ∧ (Send.recvfrom datagram).type = Kind.keySolved ∧
    (Send.recvfrom datagram).c = client.myAnswer) ∨
  ∃ done ∈ earlier, ∃ datagram, done.event = .receive addr datagram ∧
    (Send.recvfrom datagram).type = Kind.key ∧
      ∃ send, .sendto send addr ∈ done.actions ∧ send.type = Kind.keySolved

/-- Every address that `finAddr` was ever set to took part in a handshake. -/
def Guarded (client : Config) (history : List Done) : Prop :=
  ∀ earlier done later addr, history = earlier ++ done :: later →
    .setFinAddr addr ∈ done.actions → Handshaken client earlier done.event addr

/-- Every CONNECTED and every MESSAGE comes after a KEY from its sender that is
not the client's own key. -/
def Introduced (client : Config) (events : List Event) : Prop :=
  ∀ earlier addr datagram later, events = earlier ++ .receive addr datagram :: later →
    (Send.recvfrom datagram).type = Kind.connected ∨ (Send.recvfrom datagram).type = Kind.message →
      ∃ first, .receive addr first ∈ earlier ∧ (Send.recvfrom first).type = Kind.key ∧
        ¬isOwnKey client (Send.recvfrom first)

variable {client : Config}

/-- Only `recLoop` sets the peer, and what it does depends on the datagram alone. -/
def Faithful (client : Config) (done : Done) : Prop :=
  match done.event with
  | .main _ => ∀ addr, .setFinAddr addr ∉ done.actions
  | .receive addr datagram => done.actions = recLoop client addr datagram

private theorem faithful_step {globals after : Globals} {event : Event} {actions : List Action}
    (taken : step client globals event = some (after, actions)) : Faithful client ⟨event, actions⟩ := by
  cases event with
  | main given =>
    intro addr
    obtain ⟨rfl, _, _, rfl⟩ | ⟨input, rfl, _, _, rfl⟩ := main_cases taken
    · simp
    · simp
  | receive addr datagram =>
    simp only [step, Option.some.injEq, Prod.mk.injEq] at taken
    exact taken.2.symm

/-- A history lists the events of its run, each with what was done. -/
theorem record_run {events : List Event} {now final : Globals × List Done}
    (reached : Run.run (record client) now events = some final) :
    ∃ done, final.2 = now.2 ++ done ∧ done.map Done.event = events ∧
      ∀ entry ∈ done, Faithful client entry := by
  induction events generalizing now with
  | nil =>
    cases reached
    exact ⟨[], by simp⟩
  | cons event rest ih =>
    obtain ⟨next, taken, remaining⟩ := Run.run_cons_some.mp reached
    obtain ⟨⟨after, actions⟩, stepped, rfl⟩ := Option.map_eq_some_iff.mp taken
    obtain ⟨done, whole, listed, faithful⟩ := ih remaining
    refine ⟨⟨event, actions⟩ :: done, by simp [whole], by simp [listed], ?_⟩
    intro entry member
    rcases List.mem_cons.mp member with rfl | later
    · exact faithful_step stepped
    · exact faithful entry later

private theorem introduced_of_guarded {history : List Done}
    (faithful : ∀ entry ∈ history, Faithful client entry)
    (guarded : Guarded client history) : Introduced client (history.map Done.event) := by
  intro earlier addr datagram later split kind
  obtain ⟨before, rest, rfl, rfl, tail⟩ := List.map_eq_append_iff.mp split
  obtain ⟨done, after, rfl, same, _⟩ := List.map_eq_cons_iff.mp tail
  have acted := faithful done (by simp)
  rw [Faithful, same] at acted
  have set : .setFinAddr addr ∈ done.actions := by
    rw [acted]
    exact setFinAddr_mem_recLoop.mpr ⟨rfl, .inr kind⟩
  rcases guarded before done after addr rfl set with ⟨answer, received, solved, _⟩ | answered
  · obtain ⟨_, rfl⟩ := Event.receive.inj (same.symm.trans received)
    obtain ⟨_, _, _, solvedConnected, solvedMessage, _⟩ := types_distinct
    rcases kind with connected | message
    · exact (solvedConnected (solved.symm.trans connected)).elim
    · exact (solvedMessage (solved.symm.trans message)).elim
  · obtain ⟨entry, member, first, received, key, sent⟩ := answered
    have replied := faithful entry (by simp [member])
    rw [Faithful, received] at replied
    rw [replied] at sent
    obtain ⟨_, _, foreign⟩ := solved_mem_recLoop.mp sent
    exact ⟨first, List.mem_map.mpr ⟨entry, member, received⟩, key, foreign⟩

private theorem guarded_of_introduced {history : List Done}
    (faithful : ∀ entry ∈ history, Faithful client entry)
    (introduced : Introduced client (history.map Done.event)) : Guarded client history := by
  rintro earlier ⟨event, actions⟩ later addr rfl set
  have acted := faithful ⟨event, actions⟩ (by simp)
  cases event with
  | main given => exact (acted addr set).elim
  | receive recAddr datagram =>
    rw [show actions = recLoop client recAddr datagram from acted] at set
    obtain ⟨rfl, ⟨solved, answer⟩ | kind⟩ := setFinAddr_mem_recLoop.mp set
    · exact .inl ⟨datagram, rfl, solved, answer⟩
    · obtain ⟨first, member, key, foreign⟩ :=
        introduced (earlier.map Done.event) addr datagram (later.map Done.event) (by simp) kind
      obtain ⟨entry, present, received⟩ := List.mem_map.mp member
      have replied := faithful entry (by simp [present])
      rw [Faithful, received] at replied
      refine .inr ⟨entry, present, first, received, key, ?_⟩
      rw [replied]
      exact solved_mem_recLoop.mpr ⟨rfl, key, foreign⟩

/-- In any run of a client, its peers all took part in a handshake exactly when no
CONNECTED and no MESSAGE came from a host without one. -/
theorem guarded_iff_introduced (client : Config) (events : List Event) (globals : Globals)
    (history : List Done)
    (reached : Run.run (record client) (Globals.initial, []) events = some (globals, history)) :
    Guarded client history ↔ Introduced client events := by
  obtain ⟨done, rfl, rfl, faithful⟩ := record_run reached
  exact ⟨introduced_of_guarded faithful, guarded_of_introduced faithful⟩

/-- A client at 10.0.0.1 that dials 10.0.0.2, and two hosts that it hears from. -/
def dialler : Config := Config.setup 0x0100000a 7 8 0x0200000a
def dialled : SockAddr := SockAddr.inet port 0x0200000a
def stranger : SockAddr := SockAddr.inet 5000 0x6300000a

/-- A KEY from the dialled host is answered, so its MESSAGE may name it the peer. -/
theorem dialled_guarded_iff :
    Guarded dialler [⟨.receive dialled [1, 0, 0, 0, 5],
          [.sendto (solvedSend (Send.recvfrom [1, 0, 0, 0, 5])) dialled]⟩,
        ⟨.receive dialled [4, 104, 105], [.setFinAddr dialled]⟩] ↔
      Introduced dialler [.receive dialled [1, 0, 0, 0, 5], .receive dialled [4, 104, 105]] :=
  guarded_iff_introduced dialler _ ⟨dialled, 0⟩ _ (by rfl)

/-- One CONNECTED byte from anywhere redirects what the user types. -/
theorem stranger_not_guarded :
    ∃ history, Run.run (record dialler) (Globals.initial, []) [.receive stranger [3]] =
      some (⟨stranger, 0⟩, history) ∧ ¬Guarded dialler history := by
  refine ⟨[⟨.receive stranger [3], [.setFinAddr stranger]⟩], by rfl, ?_⟩
  intro guarded
  rcases guarded [] _ [] stranger rfl (by simp) with ⟨datagram, received, solved, _⟩ | ⟨entry, member, _⟩
  · obtain ⟨_, rfl⟩ := Event.receive.inj received
    exact absurd solved (by decide)
  · exact absurd member List.not_mem_nil

end HamachiLike.Client
