import HamachiLike.Tunnel.Simpletun

/-! A round of the tunnel's loop, call by call: what has gone to the network is the
packets read, framed, and what has come from it is the packets written. -/

namespace HamachiLike.Tunnel

open LittleEndian Buffer Framing Program

/-- Two bytes of length in network order. -/
def lengthHeader : Header UInt8 where
  width := 2
  write := fun len => toBytes 2 (htons (UInt16.ofNat len)).toNat
  read := fun bytes => (swap16 (UInt16.ofNat (ofBytes bytes))).toNat
  capacity := 2 ^ 16
  width_pos := by decide
  length_write := fun _ => length_toBytes _ _
  read_write := by
    intro len bound
    have exact := (swap16_ofBytes_eq_iff (length_toBytes 2 _) _).mpr (toBytes_swap16 (UInt16.ofNat len))
    rw [exact, UInt16.toNat_ofNat_of_lt' bound]
  write_read := by
    intro bytes two
    rw [UInt16.ofNat_toNat, toBytes_swap16]
    exact ((swap16_ofBytes_eq_iff two _).mp rfl).symm

/-- The packets on the connection. -/
def encode (packets : List (List UInt8)) : List UInt8 := lengthHeader.encode packets

def Fit (packets : List (List UInt8)) : Prop := ∀ packet ∈ packets, packet.length ≤ bufsize

theorem Fit.carries {packets : List (List UInt8)} (fits : Fit packets) : lengthHeader.Carries packets :=
  fun packet member => Nat.lt_of_le_of_lt (fits packet member) (by decide)

private theorem fit_concat {packets : List (List UInt8)} {packet : List UInt8} :
    Fit (packets ++ [packet]) ↔ Fit packets ∧ packet.length ≤ bufsize := by
  simp only [Fit, List.forall_mem_append, List.forall_mem_singleton]

/-- `pending` is what a round has still to write to the network. -/
structure Sent (log : Log) (pending : List UInt8) : Prop where
  fits : Fit log.tapReads
  whole : log.short = false → log.netWritten ++ pending = encode log.tapReads
  cut : log.short = true → log.netWritten.length + pending.length < (encode log.tapReads).length

theorem Sent.read {log : Log} {packet : List UInt8} (sent : Sent log []) (fits : packet.length ≤ bufsize) :
    Sent { log with tapReads := log.tapReads ++ [packet] } (lengthHeader.frame packet) where
  fits := fit_concat.mpr ⟨sent.fits, fits⟩
  whole := by
    intro whole
    have before := sent.whole whole
    rw [List.append_nil] at before
    rw [encode, Header.encode_concat, before, encode]
  cut := by
    intro cut
    have before := sent.cut cut
    simp only [encode, Header.encode_concat, List.length_append, List.length_nil] at before ⊢
    omega

theorem Sent.write {log : Log} {data pending : List UInt8} {count : Nat} (sent : Sent log (data ++ pending))
    (within : count ≤ data.length) :
    Sent (log.note (.write .net data) (some count)) pending where
  fits := sent.fits
  whole := by
    intro whole
    simp only [Log.note, Bool.or_eq_false_iff, decide_eq_false_iff_not, Nat.not_lt] at whole ⊢
    rw [List.take_of_length_le whole.2, List.append_assoc]
    exact sent.whole whole.1
  cut := by
    intro cut
    simp only [Log.note, Bool.or_eq_true, decide_eq_true_eq, List.length_append, List.length_take] at cut ⊢
    cases before : log.short with
    | false =>
      have lengths := congrArg List.length (sent.whole before)
      simp only [before, Bool.false_eq_true, false_or] at cut
      simp only [List.length_append] at lengths
      omega
    | true =>
      have lengths := sent.cut before
      simp only [List.length_append] at lengths
      omega

private theorem Sent.write_last {log : Log} {data : List UInt8} {count : Nat} (sent : Sent log data)
    (within : count ≤ data.length) : Sent (log.note (.write .net data) (some count)) [] :=
  Sent.write (by rwa [List.append_nil]) within

/-- What has come from the network, as packets and the part of the next one. -/
structure Got (bytes : List UInt8) (packets : List (List UInt8)) (part : List UInt8) : Prop where
  split : bytes = encode packets ++ part
  fits : Fit packets
  waiting : lengthHeader.Open part
  inside : part.length ≤ bufsize + 2

/-- The packets that have come have all been written. The end of the stream inside of
a packet gives an empty write. -/
inductive Written (log : Log) (packets : List (List UInt8)) (part : List UInt8) : Prop
  | all (same : log.tapWrites = packets)
  | cut (ended : log.ended = true) (inside : part ≠ []) (same : log.tapWrites = packets ++ [[]])

/-- More of a packet has come than the buffer holds. -/
structure Spilled (log : Log) (part : List UInt8) : Prop where
  split : log.netRead = encode log.tapWrites ++ part
  fits : Fit log.tapWrites
  long : bufsize + 2 < part.length
  within : part.length ≤ lengthHeader.needed part

/-- The calls that leave something to write to the network. -/
def Sends (made : Call) : Prop := made = .exit ∨ ∃ data, made = .write .net data

/-- What is true at each call. A packet that has come is being written, or has been. -/
structure Before (made : Call) (log : Log) : Prop where
  sent : ∃ pending, Sent log pending ∧ (Sends made ∨ pending = [])
  reads : ∀ n, made = .read .net n →
    log.promised = true ∨ ∃ part, Got log.netRead log.tapWrites part ∧ part ≠ []
  got : made ≠ .overrun → ∃ packets part, Got log.netRead packets part ∧
    (Written log packets part ∨ made ≠ .select ∧ ∃ packet, log.tapWrites ++ [packet] = packets)
  idle : made = .select → log.ended = false → Got log.netRead log.tapWrites []
  spilled : made = .overrun → ∃ part, Spilled log part

/-- Between two packets from the network. -/
inductive Settled (log : Log) : Prop
  | running (more : log.ended = false) (got : Got log.netRead log.tapWrites [])
  | cut (ended : log.ended = true) (packets : List (List UInt8)) (part : List UInt8)
      (got : Got log.netRead packets part) (inside : part ≠ []) (same : log.tapWrites = packets ++ [[]])

/-- What is true at the start of a round. -/
structure Turn (main : Locals) (log : Log) : Prop where
  sent : Sent log []
  settled : Settled log
  tap2net : main.tap2net = UInt64.ofNat log.tapReads.length
  net2tap : main.net2tap = UInt64.ofNat log.tapWrites.length

/-- What is true once the loop has ended. -/
structure Over (log : Log) : Prop where
  sent : Sent log []
  ended : log.ended = true
  got : ∃ packets part, Got log.netRead packets part ∧ Written log packets part

/-! The rules for the checked calls. -/

section Calls

variable {before : Call → Log → Prop} {log : Log} {size : Nat}

private theorem wp_cread {fd : Fd} {buf : Cells UInt8 size} {off n : Nat}
    {post : Nat × Cells UInt8 size → Log → Prop}
    (calling : before (.read fd n) log) (failing : before .exit log)
    (reading : ∀ data, data.length ≤ n → (log.ended = true → fd = .net → data = []) →
      if off + data.length ≤ size then
        post (data.length, buf.put off data) (log.note (.read fd n) (some data))
      else before .overrun (log.note (.read fd n) (some data))) :
    (cread fd buf off n).wp link.orderly before post log := by
  rw [cread, wp_bind, wp_perform]
  refine ⟨calling, fun reply allowed => ?_⟩
  cases reply with
  | none => cases fd <;> exact ⟨failing, fun reply => reply.elim⟩
  | some data =>
    simp only [Duplex.Link.orderly, link, allows, Bool.and_eq_true, decide_eq_true_eq, Bool.or_eq_true,
      Bool.not_eq_true', List.isEmpty_iff] at allowed
    have quiet : log.ended = true → fd = .net → data = [] := by
      rintro ended rfl
      rcases allowed.2 with more | none
      · rw [ended] at more
        cases more
      · exact none
    have read := reading data allowed.1 quiet
    dsimp only
    split
    · rename_i fits
      rw [if_pos fits] at read
      exact read
    · rename_i spills
      rw [if_neg spills] at read
      exact ⟨read, fun reply => reply.elim⟩

private theorem wp_cwrite {fd : Fd} {data : List UInt8} {post : Nat → Log → Prop}
    (calling : before (.write fd data) log) (failing : before .exit log)
    (writing : ∀ count ≤ data.length, post count (log.note (.write fd data) (some count))) :
    (cwrite fd data).wp link.orderly before post log := by
  rw [cwrite, wp_bind, wp_perform]
  refine ⟨calling, fun reply allowed => ?_⟩
  cases reply with
  | none => cases fd <;> exact ⟨failing, fun reply => reply.elim⟩
  | some count =>
    simp only [Duplex.Link.orderly, link, allows, Bool.and_eq_true, decide_eq_true_eq] at allowed
    exact writing count allowed.1

/-- The log once more has come from the network. -/
def Log.fed (log : Log) (got : List UInt8) : Log :=
  { log with netRead := log.netRead ++ got, promised := log.promised && got.isEmpty }

def Log.finished (log : Log) : Log := { log with ended := true, promised := false }

private theorem Log.fed_nil (log : Log) : log.fed [] = log := by simp [fed]

private theorem Log.fed_fed (log : Log) (first second : List UInt8) :
    (log.fed first).fed second = log.fed (first ++ second) := by
  cases first <;> simp [fed, List.append_assoc]

private theorem note_read_net {data : List UInt8} {n : Nat} :
    log.note (.read .net n) (some data) = if data = [] then log.finished else log.fed data := by
  cases data with
  | nil => simp [Log.note, Log.finished]
  | cons head rest => simp [Log.note, Log.fed]

/-- `read_n` gets all that it is asked for, or finds the end, however the stream is
cut up. -/
theorem wp_readLeft {n off left : Nat} {buf : Cells UInt8 size} {post : Nat × Cells UInt8 size → Log → Prop}
    (calling : ∀ got, (log.ended = true → got = []) → got.length < left → off + got.length ≤ size →
      before (.read .net (left - got.length)) (log.fed got) ∧ before .exit (log.fed got))
    (ending : ∀ got buf, (log.ended = true → got = []) → got.length < left → off + got.length ≤ size →
      post (0, buf) (log.fed got).finished)
    (filling : ∀ got, (log.ended = true → got = []) → got.length = left → off + got.length ≤ size →
      post (n, buf.put off got) (log.fed got))
    (spilling : ∀ got, (log.ended = true → got = []) → got.length ≤ left → size < off + got.length →
      before .overrun (log.fed got))
    (room : off ≤ size) :
    (readLeft .net n buf off left).wp link.orderly before post log := by
  induction left using Nat.strongRecOn generalizing log buf off with
  | ind left ih =>
    unfold readLeft
    split
    · rename_i none
      subst none
      have full := filling [] (fun _ => rfl) rfl room
      rwa [Cells.put_nil, Log.fed_nil] at full
    · rename_i some
      have first := calling [] (fun _ => rfl) (Nat.pos_of_ne_zero some) room
      rw [Log.fed_nil] at first
      rw [wp_bind]
      refine wp_cread first.1 first.2 fun data within quiet => ?_
      rw [note_read_net]
      by_cases empty : data = []
      · subst empty
        have past := ending [] buf (fun _ => rfl) (Nat.pos_of_ne_zero some) room
        rw [Log.fed_nil] at past
        have inside : off + ([] : List UInt8).length ≤ size := room
        rw [if_pos rfl, if_pos inside]
        exact past
      · have open_ : log.ended = true → False := fun ended => empty (quiet ended rfl)
        have progress := List.length_pos_of_ne_nil empty
        rw [if_neg empty]
        split
        · rename_i fits
          change Program.wp _ _ _ (if data.length = 0 then pure (0, buf.put off data)
            else readLeft .net n (buf.put off data) (off + data.length) (left - data.length)) _
          rw [if_neg (Nat.ne_of_gt progress)]
          refine ih (left - data.length) (by omega) ?_ ?_ ?_ ?_ fits
          · intro got _ less inside
            have next := calling (data ++ got) (fun ended => (open_ ended).elim)
              (by rw [List.length_append]; omega) (by rw [List.length_append]; omega)
            rwa [List.length_append, ← Nat.sub_sub, ← Log.fed_fed] at next
          · intro got rest _ less inside
            rw [Log.fed_fed]
            exact ending (data ++ got) rest (fun ended => (open_ ended).elim)
              (by rw [List.length_append]; omega) (by rw [List.length_append]; omega)
          · intro got _ exact inside
            rw [Log.fed_fed, Cells.put_put]
            exact filling (data ++ got) (fun ended => (open_ ended).elim)
              (by rw [List.length_append]; omega) (by rw [List.length_append]; omega)
          · intro got _ less outside
            rw [Log.fed_fed]
            exact spilling (data ++ got) (fun ended => (open_ ended).elim)
              (by rw [List.length_append]; omega) (by rw [List.length_append]; omega)
        · exact spilling data (fun ended => (open_ ended).elim) within (by omega)

end Calls

private theorem toNat_ofNat_length {data : List UInt8} (fits : data.length ≤ bufsize) :
    (UInt16.ofNat data.length).toNat = data.length :=
  UInt16.toNat_ofNat_of_lt' (Nat.lt_of_le_of_lt fits (by decide))

theorem Settled.got {log : Log} (settled : Settled log) :
    ∃ packets part, Got log.netRead packets part ∧ Written log packets part := by
  cases settled with
  | running more got => exact ⟨_, _, got, .all rfl⟩
  | cut ended packets part got inside same => exact ⟨packets, part, got, .cut ended inside same⟩

/-- Only the ends of the tunnel's own buffers move while a packet goes to the network. -/
theorem Settled.congr {log next : Log} (settled : Settled log) (read : next.netRead = log.netRead)
    (written : next.tapWrites = log.tapWrites) (ended : next.ended = log.ended) : Settled next := by
  cases settled with
  | running more got => exact .running (by rw [ended, more]) (by rwa [read, written])
  | cut stopped packets part got inside same =>
    exact .cut (by rw [ended, stopped]) packets part (by rwa [read]) inside (by rw [written, same])

/-- While a packet goes to the network. -/
private theorem Before.of_settled {made : Call} {log : Log} {pending : List UInt8} (sent : Sent log pending)
    (settled : Settled log) (place : Sends made ∨ pending = [] ∧ ∃ n, made = .read .tap n) :
    Before made log where
  sent := ⟨pending, sent, place.imp_right And.left⟩
  reads := by
    rintro n rfl
    rcases place with (place | ⟨_, place⟩) | ⟨_, _, place⟩ <;> cases place
  got := fun _ => by
    obtain ⟨packets, part, got, written⟩ := settled.got
    exact ⟨packets, part, got, .inl written⟩
  idle := by
    rintro rfl
    rcases place with (place | ⟨_, place⟩) | ⟨_, _, place⟩ <;> cases place
  spilled := by
    rintro rfl
    rcases place with (place | ⟨_, place⟩) | ⟨_, _, place⟩ <;> cases place

private theorem Turn.before_select {main : Locals} {log : Log} (turn : Turn main log) :
    Before .select log where
  sent := ⟨[], turn.sent, .inr rfl⟩
  reads := nofun
  got := fun _ => by
    obtain ⟨packets, part, got, written⟩ := turn.settled.got
    exact ⟨packets, part, got, .inl written⟩
  idle := fun _ more => by
    cases turn.settled with
    | running _ got => exact got
    | cut ended => rw [more] at ended; cases ended
  spilled := nofun

private theorem Settled.note_write {log : Log} (settled : Settled log) (data : List UInt8) (count : Nat) :
    Settled (log.note (.write .net data) (some count)) := settled.congr rfl rfl rfl

/-- A packet read from the interface is framed onto the network. -/
theorem wp_tapToNet {main : Locals} {log : Log} (turn : Turn main log) :
    (tapToNet main).wp link.orderly Before
      (fun main next => Turn main next ∧ next.promised = log.promised) log := by
  rw [tapToNet, wp_bind]
  refine wp_cread (.of_settled turn.sent turn.settled (.inr ⟨rfl, _, rfl⟩))
    (.of_settled turn.sent turn.settled (.inl (.inl rfl))) fun data within _ => ?_
  rw [if_pos (by rwa [Nat.zero_add])]
  have framed := turn.sent.read within
  have settled : Settled { log with tapReads := log.tapReads ++ [data] } :=
    turn.settled.congr rfl rfl rfl
  refine wp_bind.mpr (wp_cwrite (.of_settled framed settled (.inl (.inr ⟨_, rfl⟩)))
    (.of_settled framed settled (.inl (.inl rfl))) fun lengthWritten lengthWithin => ?_)
  have unwritten := framed.write lengthWithin
  have settled := settled.note_write (short (htons (UInt16.ofNat data.length))).cells lengthWritten
  rw [toNat_ofNat_length within, Cells.first_put _ within]
  refine wp_bind.mpr (wp_cwrite (.of_settled unwritten settled (.inl (.inr ⟨_, rfl⟩)))
    (.of_settled unwritten settled (.inl (.inl rfl))) fun written bodyWithin => ?_)
  refine ⟨⟨unwritten.write_last bodyWithin, settled.note_write data written, ?_, turn.net2tap⟩, rfl⟩
  simp [Log.note, turn.tap2net, UInt64.ofNat_add]

/-- Between a length and its packet. -/
structure Announced (main : Locals) (log : Log) : Prop where
  sent : Sent log []
  more : log.ended = false
  split : log.netRead = encode log.tapWrites ++ main.plength.cells
  fits : Fit log.tapWrites
  tap2net : main.tap2net = UInt64.ofNat log.tapReads.length
  net2tap : main.net2tap = UInt64.ofNat (log.tapWrites.length + 1)

section Announced

variable {main : Locals} {log : Log} {got : List UInt8}

private theorem Announced.fed (announced : Announced main log) (got : List UInt8) :
    (log.fed got).netRead = encode log.tapWrites ++ (main.plength.cells ++ got) := by
  rw [Log.fed, announced.split, List.append_assoc]

private theorem needed_plength (main : Locals) (got : List UInt8) :
    lengthHeader.needed (main.plength.cells ++ got) = 2 + (ntohs main.plength).toNat :=
  Header.needed_append main.plength.length_cells

private theorem length_plength_append (main : Locals) (got : List UInt8) :
    (main.plength.cells ++ got).length = 2 + got.length := by
  rw [List.length_append, main.plength.length_cells]

private theorem plength_append_ne_nil (main : Locals) (got : List UInt8) :
    main.plength.cells ++ got ≠ [] := by
  apply List.ne_nil_of_length_pos
  rw [length_plength_append]
  omega

theorem Announced.part (announced : Announced main log) (less : got.length < (ntohs main.plength).toNat)
    (inside : got.length ≤ bufsize) :
    Got (log.fed got).netRead log.tapWrites (main.plength.cells ++ got) where
  split := announced.fed got
  fits := announced.fits
  waiting := by
    rw [Header.Open, needed_plength, length_plength_append]
    omega
  inside := by
    rw [length_plength_append]
    omega

theorem Announced.whole (announced : Announced main log) (all : got.length = (ntohs main.plength).toNat)
    (inside : got.length ≤ bufsize) : Got (log.fed got).netRead (log.tapWrites ++ [got]) [] where
  split := by
    rw [announced.fed, encode, encode, Header.encode_concat, List.append_nil,
      Header.frame_of_read main.plength.length_cells all]
  fits := fit_concat.mpr ⟨announced.fits, inside⟩
  waiting := Header.open_nil
  inside := Nat.zero_le _

theorem Announced.spilled (announced : Announced main log) (some : got.length ≤ (ntohs main.plength).toNat)
    (outside : bufsize < got.length) : Spilled (log.fed got) (main.plength.cells ++ got) where
  split := announced.fed got
  fits := announced.fits
  long := by
    rw [length_plength_append]
    omega
  within := by
    rw [needed_plength, length_plength_append]
    omega

private theorem Before.of_got {made : Call} {packets : List (List UInt8)} {part : List UInt8}
    (sent : Sent log [])
    (got : Got log.netRead packets part)
    (written : Written log packets part ∨ ∃ packet, log.tapWrites ++ [packet] = packets)
    (reads : ∀ n, made = .read .net n →
      log.promised = true ∨ ∃ part, Got log.netRead log.tapWrites part ∧ part ≠ [])
    (working : made ≠ .select) (inside : made ≠ .overrun) : Before made log where
  sent := ⟨[], sent, .inr rfl⟩
  reads := reads
  got := fun _ => ⟨packets, part, got, written.imp_right fun last => ⟨working, last⟩⟩
  idle := fun idle => (working idle).elim
  spilled := fun spilled => (inside spilled).elim

private theorem Sent.of_eq {next : Log} (sent : Sent log []) (reads : next.tapReads = log.tapReads)
    (written : next.netWritten = log.netWritten) (short : next.short = log.short) : Sent next [] where
  fits := by rw [reads]; exact sent.fits
  whole := by rw [reads, written, short]; exact sent.whole
  cut := by rw [reads, written, short]; exact sent.cut

/-- The packet is written as it has come, or not at all where the stream ends in it. -/
theorem wp_packetToTap (announced : Announced main log) :
    (packetToTap main).wp link.orderly Before Turn log := by
  have sent (got : List UInt8) : Sent (log.fed got) [] := announced.sent.of_eq rfl rfl rfl
  rw [packetToTap, wp_bind, readN]
  apply wp_readLeft
  case calling =>
    intro got _ less inside
    rw [Nat.zero_add] at inside
    have part := announced.part less inside
    exact ⟨.of_got (sent got) part (.inl (.all rfl))
        (fun _ _ => .inr ⟨_, part, plength_append_ne_nil main got⟩) nofun nofun,
      .of_got (sent got) part (.inl (.all rfl)) nofun nofun nofun⟩
  case ending =>
    intro got buf _ less inside
    rw [Nat.zero_add] at inside
    have part : Got (log.fed got).finished.netRead log.tapWrites (main.plength.cells ++ got) :=
      announced.part less inside
    have sent : Sent (log.fed got).finished [] := (sent got).of_eq rfl rfl rfl
    refine wp_bind.mpr (wp_cwrite (.of_got sent part (.inl (.all rfl)) nofun nofun nofun)
      (.of_got sent part (.inl (.all rfl)) nofun nofun nofun) fun count _ => ?_)
    refine ⟨sent.of_eq rfl rfl rfl, .cut rfl log.tapWrites _ part (plength_append_ne_nil main got) rfl,
      announced.tap2net, ?_⟩
    rw [announced.net2tap]
    simp [Log.note, Log.finished, Log.fed]
  case filling =>
    intro got _ all inside
    rw [Nat.zero_add] at inside
    have whole := announced.whole all inside
    dsimp only
    rw [← all, toNat_ofNat_length inside, Cells.first_put _ inside]
    refine wp_bind.mpr (wp_cwrite (.of_got (sent got) whole (.inr ⟨got, rfl⟩) nofun nofun nofun)
      (.of_got (sent got) whole (.inr ⟨got, rfl⟩) nofun nofun nofun) fun count _ => ?_)
    refine ⟨(sent got).of_eq rfl rfl rfl, .running announced.more whole, announced.tap2net, ?_⟩
    rw [announced.net2tap]
    simp [Log.note, Log.fed]
  case spilling =>
    intro got _ some outside
    rw [Nat.zero_add] at outside
    exact ⟨⟨[], sent got, .inr rfl⟩, nofun, fun inside => (inside rfl).elim, nofun,
      fun _ => ⟨_, announced.spilled some outside⟩⟩
  case room => exact Nat.zero_le _

end Announced

section Round

variable {main : Locals} {log : Log} {got : List UInt8}

theorem Got.start {packets : List (List UInt8)} (settled : Got log.netRead packets [])
    (less : got.length < 2) : Got (log.fed got).netRead packets got where
  split := by rw [Log.fed, settled.split, List.append_nil]
  fits := settled.fits
  waiting := Header.open_of_short less
  inside := by omega

/-- While a length is read. -/
theorem Turn.part (turn : Turn main log) (quiet : log.ended = true → got = []) (less : got.length < 2) :
    ∃ packets part, Got (log.fed got).netRead packets part ∧ Written log packets part := by
  cases turn.settled with
  | running more settled => exact ⟨log.tapWrites, got, settled.start less, .all rfl⟩
  | cut ended packets part settled inside same =>
    rw [quiet ended, Log.fed_nil]
    exact ⟨packets, part, settled, .cut ended inside same⟩

/-- The first read of a length does not block, and the later ones have begun a packet. -/
theorem Turn.reads (turn : Turn main log) (readable : log.promised = true)
    (quiet : log.ended = true → got = []) (less : got.length < 2) :
    (log.fed got).promised = true ∨ ∃ part, Got (log.fed got).netRead log.tapWrites part ∧ part ≠ [] := by
  by_cases first : got = []
  · subst first
    exact .inl (by rw [Log.fed_nil, readable])
  · cases turn.settled with
    | running more settled => exact .inr ⟨got, settled.start less, first⟩
    | cut ended => exact (first (quiet ended)).elim

private theorem Written.of_eq {next : Log} {packets : List (List UInt8)} {part : List UInt8}
    (written : Written log packets part) (same : next.tapWrites = log.tapWrites)
    (ended : log.ended = true → next.ended = true) : Written next packets part := by
  cases written with
  | all all => exact .all (by rw [same, all])
  | cut stopped inside cut => exact .cut (ended stopped) inside (by rw [same, cut])

private theorem Turn.announced (turn : Turn main log) (quiet : log.ended = true → got = [])
    (all : got.length = 2) :
    Announced { main with plength := main.plength.put 0 got, net2tap := main.net2tap + 1 }
      (log.fed got) := by
  cases turn.settled with
  | running more settled =>
    refine ⟨turn.sent.of_eq rfl rfl rfl, more, ?_, settled.fits, turn.tap2net, ?_⟩
    · rw [Cells.put_all _ all, Log.fed, settled.split, List.append_nil]
    · rw [turn.net2tap]
      simp [Log.fed, UInt64.ofNat_add]
  | cut ended =>
    rw [quiet ended] at all
    cases all

private theorem wp_netToTap (turn : Turn main log) (readable : log.promised = true) :
    (netToTap main).wp link.orderly Before (Sum.elim Turn fun _ => Over) log := by
  have sent (got : List UInt8) : Sent (log.fed got) [] := turn.sent.of_eq rfl rfl rfl
  rw [netToTap, wp_bind, readN]
  apply wp_readLeft
  case calling =>
    intro got quiet less _
    obtain ⟨packets, part, come, written⟩ := turn.part quiet less
    have written : Written (log.fed got) packets part := written.of_eq rfl id
    exact ⟨.of_got (sent got) come (.inl written) (fun _ _ => turn.reads readable quiet less) nofun nofun,
      .of_got (sent got) come (.inl written) nofun nofun nofun⟩
  case ending =>
    intro got buf quiet less _
    obtain ⟨packets, part, come, written⟩ := turn.part quiet less
    exact ⟨(sent got).of_eq rfl rfl rfl, rfl, packets, part, come, written.of_eq rfl fun _ => rfl⟩
  case filling =>
    intro got quiet all _
    exact wp_bind.mpr (wp_mono (fun _ _ turn => turn) (wp_packetToTap (turn.announced quiet all)))
  case spilling =>
    intro got _ some outside
    omega
  case room => exact Nat.zero_le _

private theorem Turn.of_eq {next : Log} (turn : Turn main log) (reads : next.tapReads = log.tapReads)
    (netWritten : next.netWritten = log.netWritten) (short : next.short = log.short)
    (read : next.netRead = log.netRead) (tapWrites : next.tapWrites = log.tapWrites)
    (ended : next.ended = log.ended) : Turn main next where
  sent := turn.sent.of_eq reads netWritten short
  settled := turn.settled.congr read tapWrites ended
  tap2net := by rw [reads, turn.tap2net]
  net2tap := by rw [tapWrites, turn.net2tap]

/-- A round that starts on its course ends on it, whatever its calls return. -/
theorem wp_round (turn : Turn main log) :
    (round main).wp link.orderly Before (Sum.elim Turn fun _ => Over) log := by
  rw [round, wp_bind, wp_perform]
  refine ⟨turn.before_select, fun selected _ => ?_⟩
  cases selected with
  | interrupted => exact turn
  | failed => exact ⟨.of_settled turn.sent turn.settled (.inl (.inl rfl)), fun reply => reply.elim⟩
  | ready tap net =>
    have turn : Turn main { log with promised := net || log.promised } :=
      turn.of_eq rfl rfl rfl rfl rfl rfl
    have onwards (main : Locals) (next : Log)
        (reached : Turn main next ∧ next.promised = (net || log.promised)) :
        (if net then netToTap main else pure (.inl main)).wp link.orderly Before
          (Sum.elim Turn fun _ => Over) next := by
      cases net with
      | false => exact reached.1
      | true => exact wp_netToTap reached.1 reached.2
    cases tap with
    | false => exact onwards main _ ⟨turn, rfl⟩
    | true => exact wp_bind.mpr (wp_mono onwards (wp_tapToNet turn))

end Round

end HamachiLike.Tunnel
