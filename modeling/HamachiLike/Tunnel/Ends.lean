import HamachiLike.Tunnel.Turn

/-! An end of the tunnel with any peer, and the two ends together: which packets come
out of the connection, and when an end waits for it. -/

namespace HamachiLike.Tunnel

open Buffer (Cells)
open Framing Program Duplex

/-- `main` at its loop. The two buffers are not set up. -/
def Locals.first (plength : Cells UInt8 2) (buffer : Cells UInt8 bufsize) : Locals := ⟨plength, buffer, 0, 0⟩

private theorem turn_first (plength : Cells UInt8 2) (buffer : Cells UInt8 bufsize) :
    Turn (Locals.first plength buffer) Log.empty where
  sent := ⟨nofun, fun _ => rfl, nofun⟩
  settled := .running rfl ⟨rfl, nofun, Header.open_nil, Nat.zero_le _⟩
  tap2net := rfl
  net2tap := rfl

abbrev End := Machine Call Reply (Locals ⊕ Unit) Log

abbrev End.OnCourse (machine : End) : Prop :=
  machine.Sound link.orderly Before Turn fun _ => Over

section OnCourse

variable {machine : End}

/-- Outside of a write to the network, all that was begun has been given to it. -/
theorem OnCourse.sent (sound : machine.OnCourse) : ∃ pending, Sent machine.log pending ∧
    ((∃ made, machine.waits = some made ∧ Sends made) ∨ pending = []) := by
  rcases sound.cases with ⟨made, waiting, before⟩ | ⟨-, value, reached⟩
  · obtain ⟨pending, sent, place⟩ := before.sent
    exact ⟨pending, sent, place.imp_left fun sends => ⟨made, waiting, sends⟩⟩
  · cases value with
    | inl main => exact ⟨[], reached.sent, .inr rfl⟩
    | inr _ => exact ⟨[], reached.sent, .inr rfl⟩

theorem OnCourse.got (sound : machine.OnCourse) (inside : machine.waits ≠ some .overrun) :
    ∃ packets part, Got machine.log.netRead packets part ∧
      (Written machine.log packets part ∨ (∃ made, machine.waits = some made ∧ made ≠ .select) ∧
        ∃ packet, machine.log.tapWrites ++ [packet] = packets) := by
  rcases sound.cases with ⟨made, waiting, before⟩ | ⟨-, value, reached⟩
  · obtain ⟨packets, part, got, written⟩ := before.got fun spills => inside (by rw [waiting, spills])
    exact ⟨packets, part, got, written.imp_right fun ⟨working, last⟩ => ⟨⟨made, waiting, working⟩, last⟩⟩
  · cases value with
    | inl main =>
      obtain ⟨packets, part, got, written⟩ := reached.settled.got
      exact ⟨packets, part, got, .inl written⟩
    | inr _ =>
      obtain ⟨packets, part, got, written⟩ := reached.got
      exact ⟨packets, part, got, .inl written⟩

end OnCourse

/-- Some packet of the stream has more bytes than the buffer, and as many have come. -/
def Overlong (bytes : List UInt8) : Prop :=
  (∃ packet ∈ (lengthHeader.decode bytes).1, bufsize < packet.length) ∨
    bufsize + 2 < (lengthHeader.decode bytes).2.length

theorem Got.decode {bytes part : List UInt8} {packets : List (List UInt8)} (got : Got bytes packets part) :
    lengthHeader.decode bytes = (packets, part) := by
  rw [got.split, encode, Header.decode_encode_append got.fits.carries got.waiting]

private theorem Got.not_overlong {bytes part : List UInt8} {packets : List (List UInt8)}
    (got : Got bytes packets part) : ¬Overlong bytes := by
  rw [Overlong, got.decode]
  rintro (⟨packet, member, long⟩ | long)
  · exact absurd (got.fits packet member) (Nat.not_le.mpr long)
  · exact absurd got.inside (Nat.not_le.mpr long)

private theorem Spilled.overlong {log : Log} {part : List UInt8} (spilled : Spilled log part) :
    Overlong log.netRead := by
  have carried := spilled.fits.carries
  rw [Overlong, spilled.split, encode]
  by_cases waiting : lengthHeader.Open part
  · rw [Header.decode_encode_append carried waiting]
    exact .inr spilled.long
  · -- the packet has come whole
    have long := spilled.long
    have within := spilled.within
    have head : (part.take 2).length = lengthHeader.width := List.length_take_of_le (by omega)
    have whole : (part.drop 2).length = lengthHeader.read (part.take 2) := by
      have enough : ¬part.length < 2 + lengthHeader.read (part.take 2) := waiting
      have fits : part.length ≤ 2 + lengthHeader.read (part.take 2) := within
      rw [List.length_drop]
      omega
    have framed := Header.frame_of_read head whole
    rw [List.take_append_drop] at framed
    have small : (part.drop 2).length < lengthHeader.capacity := by
      rw [whole]
      exact UInt16.toNat_lt _
    have carriedAll : lengthHeader.Carries (log.tapWrites ++ [part.drop 2]) := by
      intro packet member
      rcases List.mem_append.mp member with old | new
      · exact carried packet old
      · rwa [List.mem_singleton.mp new]
    rw [← framed, ← Header.encode_concat, Header.decode_encode carriedAll]
    refine .inl ⟨part.drop 2, by simp, ?_⟩
    rw [List.length_drop]
    omega

/-! One end, whatever is at the other. -/

/-- An end by itself, from the start of its loop. -/
def End.run (plength : Cells UInt8 2) (buffer : Cells UInt8 bufsize)
    (events : List ((made : Call) × Reply made)) :
    Option End :=
  Run.run (Machine.step round link.orderly)
    (Machine.start round (Locals.first plength buffer) Log.empty) events

section Alone

variable {plength : Cells UInt8 2} {buffer : Cells UInt8 bufsize} {events : List ((made : Call) × Reply made)}
variable {machine : End}

private theorem onCourse_of_reached
    (reached : End.run plength buffer events = some machine) :
    machine.OnCourse :=
  Machine.Sound.reached (fun _ _ => wp_round) (turn_first plength buffer) reached

/-- A read stores past the end of `buffer` exactly if the peer sends a packet that is
longer, once the first byte too many is read. -/
theorem overrun_iff_overlong
    (reached : End.run plength buffer events = some machine) :
    machine.waits = some .overrun ↔ Overlong machine.log.netRead := by
  have sound := onCourse_of_reached reached
  constructor
  · intro waiting
    obtain ⟨part, spilled⟩ := (sound.waiting waiting).spilled rfl
    exact spilled.overlong
  · intro long
    by_contra inside
    obtain ⟨packets, part, got, -⟩ := OnCourse.got sound inside
    exact got.not_overlong long

/-- A peer announces 2001 bytes and sends them. -/
def flood : List ((made : Call) × Reply made) :=
  [⟨.select, .ready false true⟩, ⟨.read .net 2, some [0x07, 0xd1]⟩,
    ⟨.read .net 2001, some (List.replicate 2001 0x45)⟩]

theorem overrun_iff_overlong_flood : ∃ machine, End.run (.fill 0) (.fill 0) flood = some machine ∧
    machine.waits = some .overrun ∧ (machine.waits = some .overrun ↔ Overlong machine.log.netRead) := by
  have spills : (End.run (.fill 0) (.fill 0) flood).map Machine.waits = some (some .overrun) := by
    decide +kernel
  obtain ⟨machine, reached, waiting⟩ := Option.map_eq_some_iff.mp spills
  exact ⟨machine, reached, waiting, overrun_iff_overlong reached⟩

/-- The packets written to the interface are those of the byte stream, however its
reads have cut it up. -/
theorem decode_netRead
    (reached : End.run plength buffer events = some machine)
    (waiting : machine.waits = some .select) (more : machine.log.ended = false) :
    lengthHeader.decode machine.log.netRead = (machine.log.tapWrites, []) :=
  (((onCourse_of_reached reached).waiting waiting).idle rfl more).decode

/-- Two packets, of which the first comes in three pieces. -/
def pieces : List ((made : Call) × Reply made) :=
  [⟨.select, .ready false true⟩, ⟨.read .net 2, some [0]⟩, ⟨.read .net 1, some [2]⟩,
    ⟨.read .net 2, some [0x45]⟩, ⟨.read .net 1, some [0x46]⟩, ⟨.write .tap [0x45, 0x46], some 2⟩,
    ⟨.select, .ready false true⟩, ⟨.read .net 2, some [0, 1]⟩, ⟨.read .net 1, some [0x47]⟩,
    ⟨.write .tap [0x47], some 1⟩]

theorem decode_netRead_pieces : ∃ machine, End.run (.fill 0) (.fill 0) pieces = some machine ∧
    lengthHeader.decode machine.log.netRead = (machine.log.tapWrites, []) := by
  have settled : (End.run (.fill 0) (.fill 0) pieces).map
      (fun machine => (machine.waits, machine.log.ended)) = some (some .select, false) := by
    decide +kernel
  obtain ⟨machine, reached, found⟩ := Option.map_eq_some_iff.mp settled
  obtain ⟨waiting, more⟩ := Prod.mk.inj found
  exact ⟨machine, reached, decode_netRead reached waiting more⟩

/-- Between two rounds the stream written is the packets read, framed, exactly if no
write to the network was short. -/
theorem netWritten_eq_iff
    (reached : End.run plength buffer events = some machine)
    (waiting : machine.waits = some .select) :
    machine.log.netWritten = encode machine.log.tapReads ↔ machine.log.short = false := by
  obtain ⟨pending, sent, place⟩ := ((onCourse_of_reached reached).waiting waiting).sent
  have none : pending = [] := by
    rcases place with (place | ⟨_, place⟩) | place
    · cases place
    · cases place
    · exact place
  subst none
  constructor
  · intro same
    cases short : machine.log.short with
    | false => rfl
    | true =>
      have less := sent.cut short
      rw [same, List.length_nil] at less
      omega
  · intro whole
    rw [← sent.whole whole, List.append_nil]

end Alone

/-- The network takes one byte of a packet of two. -/
def shortWrite : List ((made : Call) × Reply made) :=
  [⟨.select, .ready true false⟩, ⟨.read .tap bufsize, some [0x45, 0x46]⟩, ⟨.write .net [0, 2], some 2⟩,
    ⟨.write .net [0x45, 0x46], some 1⟩]

theorem netWritten_eq_iff_shortWrite : ∃ machine,
    End.run (.fill 0) (.fill 0) shortWrite = some machine ∧
      (machine.log.netWritten = encode machine.log.tapReads ↔ machine.log.short = false) := by
  have settled : (End.run (.fill 0) (.fill 0) shortWrite).map Machine.waits = some (some .select) := by
    decide +kernel
  obtain ⟨machine, reached, waiting⟩ := Option.map_eq_some_iff.mp settled
  exact ⟨machine, reached, netWritten_eq_iff reached waiting⟩

/-! Both ends. -/

abbrev Joined := Duplex.State Call Reply (Locals ⊕ Unit) Log UInt8

def Joined.start (plength : Side → Cells UInt8 2) (buffer : Side → Cells UInt8 bufsize) : Joined :=
  Duplex.start (fun _ => round) (fun side => Locals.first (plength side) (buffer side)) Log.empty

def Joined.step : Joined → Duplex.Event Call Reply → Option Joined := Duplex.step link fun _ => round

/-- The tunnel from the start of both loops. -/
def Joined.run (plength : Side → Cells UInt8 2) (buffer : Side → Cells UInt8 bufsize)
    (events : List (Duplex.Event Call Reply)) : Option Joined :=
  Run.run Joined.step (Joined.start plength buffer) events

section Both

variable {plength : Side → Cells UInt8 2} {buffer : Side → Cells UInt8 bufsize}
  {events : List (Duplex.Event Call Reply)}
variable {tunnel : Joined} {side : Side}

private theorem linked_of_reached
    (reached : Joined.run plength buffer events = some tunnel) :
    Linked link (fun _ => Before) (fun _ => Turn) (fun _ _ => Over) tunnel :=
  Linked.reached (fun _ _ _ => wp_round)
    (Linked.start (fun _ _ _ => wp_round) (fun side => turn_first (plength side) (buffer side))
      ⟨rfl, rfl⟩ ⟨rfl, rfl⟩)
    reached

private theorem netRead_prefix
    (linked : Linked link (fun _ => Before) (fun _ => Turn) (fun _ _ => Over) tunnel)
    (whole : (tunnel.ends side.other).log.short = false) :
    (tunnel.ends side).log.netRead <+: encode (tunnel.ends side.other).log.tapReads := by
  obtain ⟨pending, sent, -⟩ := OnCourse.sent (linked.sound side.other)
  refine ⟨tunnel.wire side ++ pending, ?_⟩
  rw [← sent.whole whole, ← List.append_assoc]
  exact congrArg (· ++ pending) (linked.conserved side)

private theorem fit_tapReads
    (linked : Linked link (fun _ => Before) (fun _ => Turn) (fun _ _ => Over) tunnel) (side : Side) :
    Fit (tunnel.ends side).log.tapReads := by
  obtain ⟨pending, sent, -⟩ := OnCourse.sent (linked.sound side)
  exact sent.fits

private theorem inside_of_linked
    (linked : Linked link (fun _ => Before) (fun _ => Turn) (fun _ _ => Over) tunnel)
    (whole : (tunnel.ends side.other).log.short = false) :
    (tunnel.ends side).waits ≠ some .overrun := by
  intro waiting
  obtain ⟨part, spilled⟩ := ((linked.sound side).waiting waiting).spilled rfl
  have front := netRead_prefix linked whole
  have fits := fit_tapReads linked side.other
  have long := spilled.long
  have within : part.length ≤ 2 + lengthHeader.read (part.take 2) := spilled.within
  rw [spilled.split] at front
  have started : lengthHeader.width ≤ part.length := show 2 ≤ part.length by omega
  have bounded : lengthHeader.read (part.take 2) ≤ bufsize :=
    Header.read_le_of_encode_prefix spilled.fits.carries fits.carries fits started front
  omega

/-- The left end has read a packet of two bytes and written its length, and the right
one has read the length. -/
def halfway : List (Duplex.Event Call Reply) :=
  [.act .left .select (.ready true false), .act .left (.read .tap bufsize) (some [0x45, 0x46]),
    .act .left (.write .net [0, 2]) (some 2), .act .right .select (.ready false true),
    .act .right (.read .net 2) (some [0, 2])]

/-- The packet has gone through. -/
def through : List (Duplex.Event Call Reply) :=
  halfway ++ [.act .left (.write .net [0x45, 0x46]) (some 2), .act .right (.read .net 2) (some [0x45, 0x46]),
    .act .right (.write .tap [0x45, 0x46]) (some 2)]

def zeroRun (events : List (Duplex.Event Call Reply)) : Option Joined :=
  Joined.run (fun _ => .fill 0) (fun _ => .fill 0) events

/-- No end is made to store past its buffer by the other one. -/
theorem overrun_unreachable
    (reached : Joined.run plength buffer events = some tunnel)
    (whole : (tunnel.ends side.other).log.short = false) :
    (tunnel.ends side).waits ≠ some .overrun :=
  inside_of_linked (linked_of_reached reached) whole

theorem overrun_unreachable_halfway : ∃ tunnel, zeroRun halfway = some tunnel ∧
    (tunnel.ends .right).waits ≠ some .overrun := by
  have whole : (zeroRun halfway).map (fun tunnel => (tunnel.ends .left).log.short) = some false := by
    decide +kernel
  obtain ⟨tunnel, reached, whole⟩ := Option.map_eq_some_iff.mp whole
  exact ⟨tunnel, reached, overrun_unreachable reached whole⟩

/-- The stream has ended inside of the packet that follows these. -/
structure EndsInside (log : Log) (packets : List (List UInt8)) : Prop where
  ended : log.ended = true
  cut : ∃ part, part ≠ [] ∧ lengthHeader.decode log.netRead = (packets, part)

/-- The packets that one end writes to its interface are the first of those that the
other has read from its own, in order. Only a stream that ends inside of a packet adds
to them, an empty write at the end. -/
theorem tapWrites_prefix
    (reached : Joined.run plength buffer events = some tunnel)
    (whole : (tunnel.ends side.other).log.short = false) :
    ∃ delivered, delivered <+: (tunnel.ends side.other).log.tapReads ∧
      ((tunnel.ends side).log.tapWrites = delivered ∨
        EndsInside (tunnel.ends side).log delivered ∧
          (tunnel.ends side).log.tapWrites = delivered ++ [[]]) := by
  have linked := linked_of_reached reached
  have front := netRead_prefix linked whole
  have fits := fit_tapReads linked side.other
  obtain ⟨packets, part, got, written⟩ :=
    OnCourse.got (linked.sound side) (inside_of_linked linked whole)
  rw [got.split] at front
  have come : packets <+: (tunnel.ends side.other).log.tapReads :=
    Header.prefix_of_encode_prefix got.fits.carries fits.carries ((List.prefix_append _ _).trans front)
  rcases written with (all | ⟨ended, inside, cut⟩) | ⟨-, packet, last⟩
  · exact ⟨packets, come, .inl all⟩
  · exact ⟨packets, come, .inr ⟨⟨ended, part, inside, got.decode⟩, cut⟩⟩
  · exact ⟨(tunnel.ends side).log.tapWrites, (List.prefix_append _ _).trans (last ▸ come), .inl rfl⟩

theorem tapWrites_prefix_through : ∃ tunnel, zeroRun through = some tunnel ∧
    ∃ delivered, delivered <+: (tunnel.ends .left).log.tapReads ∧
      ((tunnel.ends .right).log.tapWrites = delivered ∨
        EndsInside (tunnel.ends .right).log delivered ∧
          (tunnel.ends .right).log.tapWrites = delivered ++ [[]]) := by
  have whole : (zeroRun through).map (fun tunnel => (tunnel.ends .left).log.short) = some false := by
    decide +kernel
  obtain ⟨tunnel, reached, whole⟩ := Option.map_eq_some_iff.mp whole
  have sender : (tunnel.ends Side.right.other).log.short = false := whole
  exact ⟨tunnel, reached, tapWrites_prefix reached sender⟩

/-- Once the sender is between two rounds and nothing is on its way, a receiver that is
between two rounds, or has left its loop, has written every packet. -/
theorem tapWrites_eq
    (reached : Joined.run plength buffer events = some tunnel)
    (whole : (tunnel.ends side.other).log.short = false)
    (sender : (tunnel.ends side.other).waits = some .select) (drained : tunnel.wire side = [])
    (receiver : (tunnel.ends side).waits = some .select ∨ (tunnel.ends side).waits = none) :
    (tunnel.ends side).log.tapWrites = (tunnel.ends side.other).log.tapReads := by
  have linked := linked_of_reached reached
  have fits := fit_tapReads linked side.other
  obtain ⟨packets, part, got, written⟩ := OnCourse.got (linked.sound side) (inside_of_linked linked whole)
  obtain ⟨pending, sent, place⟩ := ((linked.sound side.other).waiting sender).sent
  have none : pending = [] := by
    rcases place with (place | ⟨_, place⟩) | place
    · cases place
    · cases place
    · exact place
  have same : encode packets ++ part = encode (tunnel.ends side.other).log.tapReads ++ [] := by
    have conserved := linked.conserved side
    rw [drained, List.append_nil] at conserved
    rw [← got.split, ← sent.whole whole, none, List.append_nil, List.append_nil]
    exact conserved
  obtain ⟨packetsSame, partEmpty⟩ :=
    Header.split_unique got.fits.carries fits.carries got.waiting Header.open_nil same
  rcases written with (all | ⟨-, started, -⟩) | ⟨⟨made, waiting, working⟩, -⟩
  · rw [all, packetsSame]
  · exact (started partEmpty).elim
  · rcases receiver with receiver | receiver
    · rw [receiver] at waiting
      exact (working (Option.some.inj waiting).symm).elim
    · rw [receiver] at waiting
      cases waiting

theorem tapWrites_eq_through : ∃ tunnel, zeroRun through = some tunnel ∧
    (tunnel.ends .right).log.tapWrites = (tunnel.ends .left).log.tapReads := by
  have settled : (zeroRun through).map (fun tunnel => ((tunnel.ends .left).log.short,
      (tunnel.ends .left).waits, tunnel.wire .right, (tunnel.ends .right).waits)) =
        some (false, some .select, [], some .select) := by decide +kernel
  obtain ⟨tunnel, reached, found⟩ := Option.map_eq_some_iff.mp settled
  simp only [Prod.mk.injEq] at found
  obtain ⟨whole, sender, drained, receiver⟩ := found
  exact ⟨tunnel, reached, tapWrites_eq reached whole sender drained (.inl receiver)⟩

/-- An end that waits for bytes waits for the other end to write them: that one has begun
a packet that it has not written to its end, and is at a write to the network, or about
to exit. -/
theorem sends_of_blocked
    (reached : Joined.run plength buffer events = some tunnel)
    (whole : (tunnel.ends side.other).log.short = false) {n : Nat}
    (reading : (tunnel.ends side).waits = some (.read .net n)) (blocked : ¬tunnel.Readable side) :
    ((∃ data, (tunnel.ends side.other).waits = some (.write .net data)) ∨
        (tunnel.ends side.other).waits = some .exit) ∧
      (tunnel.ends side.other).log.netWritten ≠ encode (tunnel.ends side.other).log.tapReads := by
  have linked := linked_of_reached reached
  have fits := fit_tapReads linked side.other
  obtain ⟨pending, sent, place⟩ := OnCourse.sent (linked.sound side.other)
  have empty : tunnel.wire side = [] := by
    by_contra more
    exact blocked (.inl more)
  have unwritten : pending ≠ [] := by
    intro none
    rcases ((linked.sound side).waiting reading).reads n rfl with promised | ⟨part, got, started⟩
    · exact blocked (linked.promised side promised)
    · have conserved := linked.conserved side
      rw [empty, List.append_nil] at conserved
      have same : encode (tunnel.ends side).log.tapWrites ++ part =
          encode (tunnel.ends side.other).log.tapReads ++ [] := by
        rw [← got.split, ← sent.whole whole, none, List.append_nil, List.append_nil]
        exact conserved
      exact started
        (Header.split_unique got.fits.carries fits.carries got.waiting Header.open_nil same).2
  constructor
  · obtain ⟨made, waiting, rfl | ⟨data, rfl⟩⟩ := place.resolve_right unwritten
    · exact .inr waiting
    · exact .inl ⟨data, waiting⟩
  · intro same
    have all := sent.whole whole
    rw [same] at all
    exact unwritten (List.append_right_eq_self.mp all)

theorem sends_of_blocked_halfway : ∃ tunnel, zeroRun halfway = some tunnel ∧
    ((∃ data, (tunnel.ends .left).waits = some (.write .net data)) ∨
        (tunnel.ends .left).waits = some .exit) ∧
      (tunnel.ends .left).log.netWritten ≠ encode (tunnel.ends .left).log.tapReads := by
  have waiting : (zeroRun halfway).map (fun tunnel => ((tunnel.ends .left).log.short,
      (tunnel.ends .right).waits, tunnel.wire .right, tunnel.closed .left)) =
        some (false, some (.read .net 2), [], false) := by decide +kernel
  obtain ⟨tunnel, reached, found⟩ := Option.map_eq_some_iff.mp waiting
  simp only [Prod.mk.injEq] at found
  obtain ⟨whole, reading, drained, running⟩ := found
  have sender : (tunnel.ends Side.right.other).log.short = false := whole
  refine ⟨tunnel, reached, sends_of_blocked reached sender reading ?_⟩
  rintro (more | closed)
  · exact more drained
  · exact absurd (running.symm.trans closed) (by decide)

end Both

end HamachiLike.Tunnel
