import HamachiLike.Client.RecLoop
import HamachiLike.Library.CString

/-! The union that `recLoop` receives into, over all its iterations, and the text
that it prints. -/

namespace HamachiLike.Client

open Buffer CString LittleEndian

namespace Send

/-- `memset(&send, 0, sizeof(Send))` -/
def clear (send : Send) : Send := send.put 0 (List.replicate 516 0)

/-- What `recvfrom` writes into the union. -/
def receive (send : Send) (datagram : List UInt8) : Send := send.put 0 (datagram.take 516)

theorem put_all (send : Send) {data : List UInt8} (all : data.length = 516) :
    (send.put 0 data).bytes = data := by
  have size := send.size
  rw [bytes_put, writeAt_eq_append (by omega), List.drop_eq_nil_of_le (by omega)]
  simp

/-- Nothing of an earlier datagram is left. -/
private theorem receive_clear (send : Send) (datagram : List UInt8) :
    send.clear.receive datagram = recvfrom datagram := by
  have cleared : send.clear = new := by
    ext1
    rw [clear, put_all send List.length_replicate, new]
  rw [cleared, receive, recvfrom]

private theorem recvfrom_eq (datagram : List UInt8) :
    (recvfrom datagram).bytes = datagram.take 516 ++ List.replicate (516 - datagram.length) 0 := by
  have size := new.size
  have short : (datagram.take 516).length ≤ 516 := List.length_take_le _ _
  rw [recvfrom, bytes_put, writeAt_eq_append (by omega), List.take_zero, List.nil_append, new,
    List.drop_replicate, List.length_take]
  congr 2
  omega

/-- Only the bytes of the union are known: behind the last one the string may go on. -/
inductive Printed
  | text (chars : List UInt8)
  | overrun
  deriving DecidableEq

/-- Print `message.text`, which starts at the second byte. -/
def print (send : Send) : Printed :=
  match read (send.bytes.drop 1) with
  | some chars => .text chars
  | none => .overrun

end Send

open Send

/-- One iteration of `recLoop`, with the union from the iteration before. -/
def iteration (client : Config) (send : Send) (recAddr : SockAddr) (datagram : List UInt8) :
    Send × List Action × List Printed :=
  let send := send.clear.receive datagram
  if send.type = Kind.key then
    let send := solvedSend send
    if send.a = client.myKey.a ∧ send.b = client.myKey.b ∧ send.c = client.myAnswer then (send, [], [])
    else (send, [.sendto send recAddr], [])
  else if send.type = Kind.keySolved then
    if send.c = client.myAnswer then
      (send, [.setFinAddr recAddr, .sendto connectedSend recAddr], [])
    else (send, [], [])
  else if send.type = Kind.connected then (send, [.setFinAddr recAddr], [])
  else if send.type = Kind.message then (send, [.setFinAddr recAddr], [send.print])
  else (send, [], [])

/-- The texts of all iterations. -/
def printed (client : Config) : Send → List (SockAddr × List UInt8) → List Printed
  | _, [] => []
  | send, (recAddr, datagram) :: rest =>
    let (send, _, texts) := iteration client send recAddr datagram
    texts ++ printed client send rest

variable (client : Config) (send : Send) (recAddr : SockAddr) (datagram : List UInt8)

/-- What an iteration sends and sets depends on its own datagram alone. -/
theorem iteration_actions :
    (iteration client send recAddr datagram).2.1 = recLoop client recAddr datagram := by
  simp only [iteration, recLoop, receive_clear]
  split_ifs <;> rfl

/-- So does what it prints. -/
theorem iteration_printed :
    (iteration client send recAddr datagram).2.2 =
      if (recvfrom datagram).type = Kind.message then [(recvfrom datagram).print] else [] := by
  have distinct := types_distinct
  simp only [iteration, receive_clear]
  split_ifs <;> simp_all

private theorem printed_eq (received : List (SockAddr × List UInt8)) :
    printed client send received = received.flatMap fun one =>
      if (recvfrom one.2).type = Kind.message then [(recvfrom one.2).print] else [] := by
  induction received generalizing send with
  | nil => rfl
  | cons one rest ih =>
    rw [List.flatMap_cons, ← iteration_printed client send one.1, ← ih]
    rfl

/-! How far a text reaches -/

private theorem type_recvfrom : (recvfrom datagram).type = datagram.headD 0 := by
  have first := (recvfrom datagram).head_bytes
  rw [recvfrom_eq] at first
  cases datagram with
  | nil => exact (Option.some.inj first).symm
  | cons byte rest => exact (Option.some.inj first).symm

/-- The text ends inside the union unless a full datagram has no zero in it. -/
theorem zero_mem_recvfrom_iff :
    0 ∈ (recvfrom datagram).bytes.drop 1 ↔ datagram.length < 516 ∨ 0 ∈ slice datagram 1 515 := by
  by_cases short : datagram.length < 516
  · have last : ((recvfrom datagram).bytes.drop 1)[514]? = some 0 := by
      rw [recvfrom_eq, List.getElem?_drop, List.getElem?_append_right (by simp; omega), List.length_take,
        List.getElem?_replicate, if_pos (by omega)]
    exact iff_of_true (List.mem_of_getElem? last) (.inl short)
  · rw [or_iff_right short, recvfrom_eq, Nat.sub_eq_zero_of_le (by omega), List.replicate_zero,
      List.append_nil, List.drop_take]
    rfl

private theorem print_eq_overrun_iff (send : Send) : send.print = .overrun ↔ 0 ∉ send.bytes.drop 1 := by
  unfold print CString.read
  split_ifs with ends
  · exact iff_of_false nofun (not_not_intro ends)
  · exact iff_of_true rfl ends

/-- A datagram of another type prints nothing. -/
theorem message_iff : (recvfrom datagram).type = Kind.message ↔ datagram.head? = some Kind.message := by
  rw [type_recvfrom]
  cases datagram with
  | nil => exact iff_of_false (by decide) nofun
  | cons byte rest => simp

/-- In every run, all texts end inside the union exactly if no MESSAGE of 516 bytes
or more is without a zero byte behind its type. -/
theorem printed_inside_iff (received : List (SockAddr × List UInt8)) :
    .overrun ∉ printed client send received ↔
      ∀ one ∈ received, one.2.head? = some Kind.message → one.2.length < 516 ∨ 0 ∈ slice one.2 1 515 := by
  rw [printed_eq, List.mem_flatMap, not_exists]
  refine forall_congr' fun one => ?_
  rw [not_and]
  refine imp_congr_right fun _ => ?_
  rw [← message_iff, ← zero_mem_recvfrom_iff]
  split_ifs with message
  · rw [List.mem_singleton, eq_comm, print_eq_overrun_iff, not_not]
    exact ⟨fun inside _ => inside, fun inside => inside message⟩
  · exact iff_of_true List.not_mem_nil fun isMessage => absurd isMessage message

/-- 516 bytes without a zero. -/
theorem full_message_overruns :
    ¬.overrun ∉ printed (Config.setup 0x0100000a 1804289383 846930886 0x0200000a) Send.new
      [(SockAddr.inet 5000 0x6300000a, Kind.message :: List.replicate 515 1)] := by
  intro inside
  refine inside ?_
  have message := (message_iff (Kind.message :: List.replicate 515 1)).mpr rfl
  have text : slice (Kind.message :: List.replicate 515 1) 1 515 = List.replicate 515 1 :=
    List.take_replicate
  have unended : 0 ∉ (recvfrom (Kind.message :: List.replicate 515 1)).bytes.drop 1 := by
    rw [zero_mem_recvfrom_iff, text]
    rintro (short | zero)
    · rw [List.length_cons, List.length_replicate] at short
      exact absurd short (Nat.lt_irrefl _)
    · exact absurd (List.eq_of_mem_replicate zero) (by decide)
  rw [printed_eq, List.flatMap_singleton, if_pos message, (print_eq_overrun_iff _).mpr unended]
  exact List.mem_singleton_self _

/-! What a typed line prints -/

private theorem textCount_nonneg_iff (input : List UInt8) :
    0 ≤ textCount input ↔ input.length % 2 ^ 32 < 2 ^ 31 := by
  rw [textCount, asInt_eq]
  split_ifs <;> omega

private theorem toNat_textCount {input : List UInt8} (small : input.length % 2 ^ 32 < 2 ^ 31) :
    (textCount input).toNat = min (input.length % 2 ^ 32) 512 := by
  rw [textCount, asInt_eq, if_pos small]
  omega

theorem length_take_textCount_le (input : List UInt8) :
    (input.take (textCount input).toNat).length ≤ 512 :=
  (List.length_take_le _ _).trans (Int.toNat_le.mpr (Int.min_le_right _ _))

/-- Behind the text the constructor has left zeros, three of them behind a full one. -/
theorem drop_messageSend (input : List UInt8) :
    (messageSend input).bytes.drop 1 = input.take (textCount input).toNat ++
      List.replicate (515 - (input.take (textCount input).toNat).length) 0 := by
  have short := length_take_textCount_le input
  have typed : (Send.new.setType Kind.message).bytes = Kind.message :: List.replicate 515 0 := rfl
  rw [messageSend, bytes_put, writeAt_eq_append (by rw [Send.size]; omega), typed,
    List.take_succ_cons, List.take_zero, List.singleton_append, List.drop_succ_cons, List.drop_zero,
    Nat.add_comm 1, List.drop_succ_cons, List.drop_replicate]

/-- Of a line with a count the text is printed up to its first zero, or to the count. -/
theorem iteration_messageSend (client : Config) (send : Send) (recAddr : SockAddr) (input : List UInt8) :
    (iteration client send recAddr (messageSend input).bytes).2.2 =
      [.text (chars (input.take (textCount input).toNat))] := by
  have short := length_take_textCount_le input
  rw [iteration_printed, recvfrom_bytes, if_pos (type_messageSend input), print, drop_messageSend,
    read_append_replicate _ (by omega)]

/-- The line arrives as its first 512 bytes up to a zero. -/
def PrintsLine (sender receiver : Config) (finAddr recAddr : SockAddr) (send : Send) (input : List UInt8) :
    Prop :=
  ∃ sent dest, main sender ⟨finAddr, 5⟩ (.line input) = some (⟨finAddr, 5⟩, [.sendto sent dest]) ∧
    (iteration receiver send recAddr sent.bytes).2.2 = [.text (chars (input.take 512))]

private theorem printsLine_iff_chars (sender receiver : Config) (finAddr recAddr : SockAddr) (send : Send)
    (input : List UInt8) :
    PrintsLine sender receiver finAddr recAddr send input ↔ 0 ≤ textCount input ∧
      chars (input.take (textCount input).toNat) = chars (input.take 512) := by
  unfold PrintsLine
  simp only [main, true_and]
  constructor
  · rintro ⟨sent, dest, done, text⟩
    split_ifs at done with count
    obtain ⟨rfl, rfl⟩ : messageSend input = sent ∧ finAddr = dest := by simpa using done
    rw [iteration_messageSend] at text
    exact ⟨count, by simpa using text⟩
  · rintro ⟨count, text⟩
    refine ⟨messageSend input, finAddr, if_pos count, ?_⟩
    rw [iteration_messageSend, text]

/-- A line prints as it should exactly if its size is not negative as an int and, where
the int is smaller than the size, it holds 512 chars or the zero that ends the text. -/
theorem printsLine_iff (sender receiver : Config) (finAddr recAddr : SockAddr) (send : Send)
    (input : List UInt8) :
    PrintsLine sender receiver finAddr recAddr send input ↔
      input.length % 2 ^ 32 < 2 ^ 31 ∧ (input.length < 2 ^ 32 ∨ 512 ≤ input.length % 2 ^ 32 ∨
        0 ∈ input.take (input.length % 2 ^ 32 + 1)) := by
  rw [printsLine_iff_chars, textCount_nonneg_iff]
  refine and_congr_right fun small => ?_
  rw [toNat_textCount small, chars_take_eq_iff input (Nat.min_le_right _ _)]
  by_cases full : 512 ≤ input.length % 2 ^ 32
  · exact iff_of_true (.inr (.inl (Nat.min_eq_right full))) (.inr (.inl full))
  · have whole : input.length ≤ input.length % 2 ^ 32 ↔ input.length < 2 ^ 32 := by omega
    have other : input.length % 2 ^ 32 ≠ 512 := by omega
    rw [Nat.min_eq_left (by omega), whole, or_iff_right full, or_iff_right other]

/-- A line of 2 ^ 32 letters prints nothing. -/
theorem long_line_prints_nothing :
    ¬PrintsLine (Config.setup 0x0100000a 7 8 0x0200000a) (Config.setup 0x0200000a 9 10 0x0100000a)
      (SockAddr.inet port 0x0200000a) (SockAddr.inet port 0x0100000a) Send.new
      (List.replicate (2 ^ 32) 0x61) := by
  rw [printsLine_iff_chars]
  rintro ⟨-, text⟩
  have count : (textCount (List.replicate (2 ^ 32) 0x61)).toNat = 0 := by
    rw [toNat_textCount (by rw [List.length_replicate, Nat.mod_self]; omega), List.length_replicate,
      Nat.mod_self, Nat.zero_min]
  rw [count, List.take_zero, List.take_replicate, Nat.min_eq_left (by omega), List.replicate_succ,
    chars_cons, if_neg (by decide)] at text
  cases text

end HamachiLike.Client
