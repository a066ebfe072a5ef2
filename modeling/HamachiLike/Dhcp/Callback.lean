import HamachiLike.Dhcp.Offer
import HamachiLike.Library.Dispatch

/-! `ether_input` as the callback of `pcap_loop`: what the frames handed to it leave behind. -/

namespace HamachiLike.Dhcp.Capture

open Buffer LittleEndian

/-- One call of `ether_input`. There is no result if a byte is read that was not captured. -/
def callback (globals : Globals) (capture : Captured) : Option Globals :=
  ((etherInput capture.header globals).run capture.frame).map Prod.fst

/-- What the chain takes for a reply, among frames of every kind. -/
def IsReply (frame : List UInt8) : Prop := slice frame 12 2 = [8, 0] ∧ FixedReply frame

instance (frame : List UInt8) : Decidable (IsReply frame) := inferInstanceAs (Decidable (_ ∧ _))

/-- The last of the frames that looks like a reply. -/
def lastReply (frames : List Captured) : Option Captured :=
  (frames.filter fun capture => IsReply capture.frame).getLast?

private theorem readsInside_congr {capture : Captured} {globals : Globals} (other : Globals) :
    capture.ReadsInside globals ↔ capture.ReadsInside other :=
  (etherInput_isSome_iff _ _ _).trans (etherInput_isSome_iff _ _ _).symm

/-- What one call does that reads captured bytes only. -/
theorem callback_inside {capture : Captured} {globals : Globals} (inside : capture.ReadsInside globals) :
    callback globals capture = some (if IsReply capture.frame then taken capture.frame 42 else globals) := by
  obtain ⟨printed, captured⟩ := (etherInput_isSome_iff _ _ _).mp inside
  by_cases ip : slice capture.frame 12 2 = [8, 0]
  · rw [callback, etherInput_run _ _ printed captured ip]
    simp only [IsReply, ip, true_and, Option.map_some]
  · have type : ¬swap16 (UInt16.ofNat (ofBytes (slice capture.frame 12 2))) = ethertypeIp :=
      mt (swap16_ofBytes_eq_iff (length_slice_of_le captured.1) ethertypeIp).mp ip
    rw [callback, etherInput_eq, run_printPacketFrom_bind _ _ (by omega), run_load_bind captured.1,
      if_neg type, if_neg (fun found => ip found.1)]
    rfl

private theorem callback_outside {capture : Captured} {globals : Globals}
    (outside : ¬capture.ReadsInside globals) : callback globals capture = none := by
  rw [callback, Option.not_isSome_iff_eq_none.mp outside, Option.map_none]

theorem lastReply_cons (first : Captured) (rest : List Captured) :
    lastReply (first :: rest) =
      if IsReply first.frame then some ((lastReply rest).getD first) else lastReply rest := by
  by_cases found : IsReply first.frame
  · rw [if_pos found, lastReply, List.filter_cons_of_pos (by simpa using found), List.getLast?_cons]
    rfl
  · rw [if_neg found, lastReply, List.filter_cons_of_neg (by simpa using found)]
    rfl

/-- The last reply among the frames decides, and a single frame that is read on behind its
captured bytes spoils the run. -/
theorem run_callback_eq_some_iff {globals after : Globals} {frames : List Captured} :
    Run.run callback globals frames = some after ↔
      (∀ capture ∈ frames, capture.ReadsInside ⟨0, false⟩) ∧
        after = ((lastReply frames).map fun capture => taken capture.frame 42).getD globals := by
  induction frames generalizing globals with
  | nil =>
    rw [Run.run_nil, Option.some.injEq]
    exact ⟨fun same => ⟨fun capture member => absurd member List.not_mem_nil, same.symm⟩,
      fun both => both.2.symm⟩
  | cons first rest ih =>
    rw [List.forall_mem_cons, Run.run, lastReply_cons]
    by_cases inside : first.ReadsInside ⟨0, false⟩
    · rw [callback_inside ((readsInside_congr ⟨0, false⟩).mpr inside), Option.bind_some, ih]
      by_cases found : IsReply first.frame
      · cases later : lastReply rest <;> simp [inside, found]
      · simp [inside, found]
    · rw [callback_outside (mt (readsInside_congr ⟨0, false⟩).mp inside), Option.bind_none]
      exact iff_of_false (Option.some_ne_none after).symm fun both => inside both.1.1

private theorem lastReply_eq_none_iff {frames : List Captured} :
    lastReply frames = none ↔ ∀ capture ∈ frames, ¬IsReply capture.frame := by
  simp [lastReply]

private theorem lastReply_append {before : List Captured} (rest : List Captured)
    (others : ∀ capture ∈ before, ¬IsReply capture.frame) :
    lastReply (before ++ rest) = lastReply rest := by
  have none : before.filter (fun capture => IsReply capture.frame) = [] := by simpa using others
  rw [lastReply, List.filter_append, none, List.nil_append]
  rfl

theorem mem_of_lastReply {frames : List Captured} {capture : Captured}
    (last : lastReply frames = some capture) : capture ∈ frames ∧ IsReply capture.frame := by
  have member := List.mem_of_getLast? last
  simpa using member

theorem lastReply_replied {before : List Captured} {reply : Captured} (after : List Captured)
    (others : ∀ capture ∈ before, ¬IsReply capture.frame) (found : IsReply reply.frame) :
    ∃ last ∈ reply :: after, IsReply last.frame ∧ lastReply (before ++ reply :: after) = some last := by
  have last : lastReply (reply :: after) = some ((lastReply after).getD reply) := by
    rw [lastReply_cons, if_pos found]
  obtain ⟨member, test⟩ := mem_of_lastReply last
  exact ⟨_, member, test, (lastReply_append _ others).trans last⟩

/-- A run over frames read inside is broken by the replies among them and by nothing else. -/
private theorem run_callback_breakloop {ip : UInt32} {after : Globals} {frames : List Captured}
    (ran : Run.run callback ⟨ip, false⟩ frames = some after) :
    after.breakloop = false ↔ ∀ capture ∈ frames, ¬IsReply capture.frame := by
  rw [← lastReply_eq_none_iff, (run_callback_eq_some_iff.mp ran).2]
  cases lastReply frames <;> simp [taken]

section Handed

variable {ip : UInt32} {frames handed before after : List Captured} {reply : Captured}

/-- Where the chain gets through to the first reply, at most one frame behind it is handed over. -/
theorem handed_replied
    (given : Dispatch.Handed Globals.breakloop 1 callback ⟨ip, false⟩ (before ++ reply :: after) handed)
    (inside : ∀ capture ∈ before ++ [reply], capture ∈ handed → capture.ReadsInside ⟨0, false⟩)
    (others : ∀ capture ∈ before, ¬IsReply capture.frame) (found : IsReply reply.frame) :
    ∃ late ≤ 1, handed = before ++ reply :: after.take late := by
  have runs (part : List Captured) (mine : part ⊆ before ++ [reply]) (looked : part ⊆ handed) :
      ∃ next, Run.run callback ⟨ip, false⟩ part = some next :=
    ⟨_, run_callback_eq_some_iff.mpr
      ⟨fun capture member => inside capture (mine member) (looked member), rfl⟩⟩
  rw [← List.singleton_append, ← List.append_assoc] at given
  obtain ⟨behind, early, few, rfl⟩ := given.through
    (fun short proper => by
      obtain ⟨next, ran⟩ := runs handed short.subset (List.Subset.refl _)
      refine ⟨next, ran, (run_callback_breakloop ran).mpr fun capture member => ?_⟩
      rcases List.prefix_concat_iff.mp short with same | shorter
      · exact absurd same proper
      · exact others capture (shorter.subset member))
    (fun long => by
      obtain ⟨next, ran⟩ := runs _ (List.Subset.refl _) long.subset
      have broke := mt (run_callback_breakloop ran).mp fun quiet => quiet reply (by simp) found
      exact ⟨next, ran, (Bool.not_eq_false _).mp broke⟩)
  refine ⟨behind.length, few, ?_⟩
  rw [← List.prefix_iff_eq_take.mp early, List.append_assoc, List.singleton_append]

end Handed

namespace Ipv4Frame.StoresOffersOnly

variable {capture : Ipv4Frame}

theorem readsInside (right : capture.StoresOffersOnly) (globals : Globals) :
    capture.toCaptured.ReadsInside globals :=
  (readsInside_iff _ _).mpr ⟨fun _ => capture.complete, (capture.storesOffersOnly_iff_tests.mp right).1⟩

theorem isReply_iff (right : capture.StoresOffersOnly) : IsReply capture.frame ↔ IsOffer capture.frame := by
  rw [IsReply, and_iff_right capture.etherType]
  exact (capture.storesOffersOnly_iff_tests.mp right).2.1

end Ipv4Frame.StoresOffersOnly

end HamachiLike.Dhcp.Capture
