import Mathlib.Data.List.Basic
import Mathlib.Data.List.Infix

/-! Packets on a byte stream. Each packet follows a header of fixed width that
carries its length, so that every string of bytes splits in one way only. -/

namespace HamachiLike.Framing

universe u

/-- A header that carries a length. Every string of its width is one. -/
structure Header (β : Type u) where
  width : Nat
  write : Nat → List β
  read : List β → Nat
  capacity : Nat
  width_pos : 0 < width
  length_write : ∀ len, (write len).length = width
  read_write : ∀ len < capacity, read (write len) = len
  write_read : ∀ bytes, bytes.length = width → write (read bytes) = bytes

namespace Header

variable {β : Type u} (header : Header β)

def frame (packet : List β) : List β := header.write packet.length ++ packet

def encode (packets : List (List β)) : List β := packets.flatMap header.frame

/-- The length that a string of bytes calls for, its header included. -/
def needed (bytes : List β) : Nat := header.width + header.read (bytes.take header.width)

/-- No packet is complete yet. -/
def Open (bytes : List β) : Prop := bytes.length < header.needed bytes

instance (bytes : List β) : Decidable (header.Open bytes) := inferInstanceAs (Decidable (_ < _))

/-- The complete packets at the front of a string of bytes, and what follows them. -/
def decode (bytes : List β) : List (List β) × List β :=
  if header.Open bytes then ([], bytes)
  else
    let rest := decode (bytes.drop (header.needed bytes))
    ((bytes.take (header.needed bytes)).drop header.width :: rest.1, rest.2)
termination_by bytes.length
decreasing_by
  have wide := header.width_pos
  simp only [Open, needed] at *
  rw [List.length_drop]
  omega

/-- A header can carry the length of each packet. -/
def Carries (packets : List (List β)) : Prop := ∀ packet ∈ packets, packet.length < header.capacity

variable {header} {packet bytes part : List β} {packets : List (List β)}

@[simp] theorem encode_nil : header.encode [] = [] := rfl

@[simp] theorem encode_cons :
    header.encode (packet :: packets) = header.frame packet ++ header.encode packets := rfl

theorem encode_append (first second : List (List β)) :
    header.encode (first ++ second) = header.encode first ++ header.encode second :=
  List.flatMap_append

theorem encode_concat :
    header.encode (packets ++ [packet]) = header.encode packets ++ header.frame packet := by
  rw [encode_append, encode_cons, encode_nil, List.append_nil]

theorem length_frame : (header.frame packet).length = header.width + packet.length := by
  rw [frame, List.length_append, header.length_write]

theorem carries_cons :
    header.Carries (packet :: packets) ↔ packet.length < header.capacity ∧ header.Carries packets :=
  List.forall_mem_cons

theorem open_nil : header.Open [] := by
  have wide := header.width_pos
  simp only [Open, needed, List.length_nil]
  omega

theorem open_of_short (short : bytes.length < header.width) : header.Open bytes := by
  simp only [Open, needed]
  omega

/-- A header and the bytes that it calls for are a frame. -/
theorem frame_of_read {head : List β} (wide : head.length = header.width)
    (whole : packet.length = header.read head) : header.frame packet = head ++ packet := by
  rw [frame, whole, header.write_read head wide]

theorem needed_append {head rest : List β} (wide : head.length = header.width) :
    header.needed (head ++ rest) = header.width + header.read head := by
  rw [needed, ← wide, List.take_left]

theorem needed_frame (carried : packet.length < header.capacity) (rest : List β) :
    header.needed (header.frame packet ++ rest) = (header.frame packet).length := by
  rw [frame, List.append_assoc, needed_append (header.length_write _), header.read_write _ carried,
    List.length_append, header.length_write]

private theorem not_open_frame (carried : packet.length < header.capacity) (rest : List β) :
    ¬header.Open (header.frame packet ++ rest) := by
  rw [Open, needed_frame carried, List.length_append]
  omega

private theorem decode_of_open (waiting : header.Open bytes) : header.decode bytes = ([], bytes) := by
  rw [decode, if_pos waiting]

theorem decode_frame_append (carried : packet.length < header.capacity) (rest : List β) :
    header.decode (header.frame packet ++ rest) =
      (packet :: (header.decode rest).1, (header.decode rest).2) := by
  rw [decode, if_neg (not_open_frame carried rest), needed_frame carried, List.take_left, List.drop_left]
  rw [frame, ← header.length_write packet.length, List.drop_left]

/-- Encoded packets are read back, whatever has come of the next one. -/
theorem decode_encode_append (carried : header.Carries packets) (waiting : header.Open part) :
    header.decode (header.encode packets ++ part) = (packets, part) := by
  induction packets with
  | nil => exact decode_of_open waiting
  | cons packet rest ih =>
    rw [carries_cons] at carried
    rw [encode_cons, List.append_assoc, decode_frame_append carried.1, ih carried.2]

theorem decode_encode (carried : header.Carries packets) :
    header.decode (header.encode packets) = (packets, []) := by
  have read : header.decode (header.encode packets ++ []) = (packets, []) :=
    decode_encode_append carried open_nil
  rwa [List.append_nil] at read

/-- A string of bytes splits into packets and an open rest in one way. -/
theorem split_unique {others : List (List β)} {other : List β} (carried : header.Carries packets)
    (carriedOthers : header.Carries others) (waiting : header.Open part) (waitingOther : header.Open other)
    (same : header.encode packets ++ part = header.encode others ++ other) :
    packets = others ∧ part = other := by
  have read := decode_encode_append carried waiting
  rw [same, decode_encode_append carriedOthers waitingOther, Prod.mk.injEq] at read
  exact ⟨read.1.symm, read.2.symm⟩

/-- What is in front of encoded packets is in front of the packets. -/
theorem prefix_of_encode_prefix {sent : List (List β)} (carried : header.Carries packets)
    (carriedSent : header.Carries sent) (front : header.encode packets <+: header.encode sent) :
    packets <+: sent := by
  induction packets generalizing sent with
  | nil => exact List.nil_prefix
  | cons packet rest ih =>
    rw [carries_cons] at carried
    obtain ⟨behind, whole⟩ := front
    rw [encode_cons, List.append_assoc] at whole
    cases sent with
    | nil =>
      have empty := congrArg List.length whole
      rw [List.length_append, length_frame] at empty
      have wide := header.width_pos
      simp at empty
      omega
    | cons other others =>
      rw [carries_cons] at carriedSent
      have read := congrArg header.decode whole
      rw [decode_frame_append carried.1, encode_cons, decode_frame_append carriedSent.1,
        Prod.mk.injEq, List.cons.injEq] at read
      obtain rfl := read.1.1
      rw [encode_cons, List.append_cancel_left_eq] at whole
      exact (List.prefix_cons_inj packet).mpr (ih carried.2 carriedSent.2 ⟨behind, whole⟩)

/-- A header that has come through is the header of the packet sent next. -/
theorem read_le_of_encode_prefix {sent : List (List β)} {bound : Nat} (carried : header.Carries packets)
    (carriedSent : header.Carries sent) (bounded : ∀ packet ∈ sent, packet.length ≤ bound)
    (started : header.width ≤ part.length)
    (front : header.encode packets ++ part <+: header.encode sent) :
    header.read (part.take header.width) ≤ bound := by
  obtain ⟨rest, rfl⟩ := prefix_of_encode_prefix carried carriedSent
    ((List.prefix_append _ _).trans front)
  rw [encode_append, List.prefix_append_right_inj] at front
  have wide := header.width_pos
  cases rest with
  | nil =>
    have empty := front.length_le
    rw [encode_nil, List.length_nil] at empty
    omega
  | cons next others =>
    have head : part.take header.width = header.write next.length := by
      have firsts := List.prefix_iff_eq_take.mp ((List.take_prefix header.width part).trans front)
      rwa [List.length_take, Nat.min_eq_left started, encode_cons, frame, List.append_assoc,
        ← header.length_write next.length, List.take_left, header.length_write] at firsts
    have member : next ∈ packets ++ next :: others := List.mem_append_right _ List.mem_cons_self
    rw [head, header.read_write _ (carriedSent next member)]
    exact bounded next member

end Header

end HamachiLike.Framing
