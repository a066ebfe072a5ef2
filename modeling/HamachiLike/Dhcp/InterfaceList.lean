import HamachiLike.Dhcp.Interfaces

/-! The list that `getifmacsWithIps` returns, and the records it needs an address of. -/

namespace HamachiLike.Dhcp

open Buffer CString LinkedList

/-- What a node says about an interface. -/
structure Contents where
  addr : List UInt8
  name : List UInt8
  index : UInt32
  deriving DecidableEq

def Ifmacs.contents (node : Ifmacs) : Contents := ⟨node.addr, node.name, node.index⟩

namespace Ifaddrs

/-- The first six bytes of the hardware address. -/
def hardware (tmp : Ifaddrs) : List UInt8 := tmp.ifaAddr.elim [] fun addr => addr.sllAddr.take 6

def IsPacket (tmp : Ifaddrs) : Prop := ∃ addr ∈ tmp.ifaAddr, addr.saFamily = afPacket

/-- An IPv4 address in 10.0.0.0/8 or 192.168.0.0/16 for the interface of `tmp`. -/
def Answers (tmp tmp2 : Ifaddrs) : Prop :=
  ∃ addr ∈ tmp2.ifaAddr, addr.saFamily = SockAddr.afInet ∧
    chars tmp2.ifaName.toList = chars tmp.ifaName.toList ∧
    (addr.sinAddr.take 1 = [10] ∨ addr.sinAddr.take 2 = [192, 168])

/-- An `AF_PACKET` record whose interface has such an address. -/
def Listed (addrs : List Ifaddrs) (tmp : Ifaddrs) : Prop :=
  tmp.IsPacket ∧ ∃ tmp2 ∈ addrs, Answers tmp tmp2

/-- Ahead of each record without an address stands one that answers. -/
def Covered (tmp : Ifaddrs) (addrs : List Ifaddrs) : Prop :=
  ∀ front null back, addrs = front ++ null :: back → null.ifaAddr = none →
    ∃ tmp2 ∈ front, Answers tmp tmp2

instance (tmp : Ifaddrs) : Decidable tmp.IsPacket := inferInstanceAs (Decidable (∃ _ ∈ _, _))

instance (tmp tmp2 : Ifaddrs) : Decidable (Answers tmp tmp2) :=
  inferInstanceAs (Decidable (∃ _ ∈ _, _))

instance (addrs : List Ifaddrs) (tmp : Ifaddrs) : Decidable (Listed addrs tmp) :=
  inferInstanceAs (Decidable (_ ∧ _))

end Ifaddrs

open Ifaddrs

/-- What the list says about the interface of a record. -/
def interfaceOf (ifNametoindex : List UInt8 → UInt32) (tmp : Ifaddrs) : Contents where
  addr := tmp.hardware
  name := tmp.ifaName.toList
  index := ifNametoindex (chars tmp.ifaName.toList)

/-- The interfaces with a private address, in the order of their records. -/
def interfacesWithIps (ifNametoindex : List UInt8 → UInt32) (addrs : List Ifaddrs) : List Contents :=
  (addrs.filter (Listed addrs ·)).map (interfaceOf ifNametoindex)

variable {ifNametoindex : List UInt8 → UInt32} {fresh : Nat → Ifmacs}

/-! Appending one node -/

/-- The node of an interface at the end of the list. -/
def lastNode (ifNametoindex : List UInt8 → UInt32) (tmp : Ifaddrs) : Ifmacs where
  addr := tmp.hardware
  name := tmp.ifaName.toList
  index := ifNametoindex (chars tmp.ifaName.toList)
  next := none

private theorem fillNode_run {tmp : Ifaddrs} {addr : Sockaddr} (addressed : tmp.ifaAddr = some addr)
    (heap : List Ifmacs) (place : Nat) (backup : Option Nat) (first : Bool) :
    (fillNode ifNametoindex tmp).run ⟨heap, some place, backup, first⟩ = .ok ((),
      ⟨heap.modify place fun _ => lastNode ifNametoindex tmp, some place, backup, first⟩) := by
  obtain ⟨name, ifaAddr⟩ := tmp
  cases addressed
  have assigned : (((heap.modify place fun node => { node with next := none }).modify place fun node =>
      { node with addr := addr.sllAddr.take etherAddrLen }).modify place fun node =>
      { node with name := name.toList }).modify place (fun node =>
      { node with index := ifNametoindex (chars name.toList) }) =
      heap.modify place fun _ => lastNode ifNametoindex ⟨name, some addr⟩ := by
    simp only [List.modify_modify_eq]
    rfl
  rw [← assigned]
  rfl

/-- The first node becomes the head. -/
private theorem appendNode_first {tmp : Ifaddrs} {addr : Sockaddr} (addressed : tmp.ifaAddr = some addr)
    (heap : List Ifmacs) (ifs backup : Option Nat) :
    (appendNode ifNametoindex fresh tmp).run ⟨heap, ifs, backup, true⟩ = .ok ((),
      ⟨(heap ++ [fresh heap.length]).modify heap.length fun _ => lastNode ifNametoindex tmp,
        some heap.length, some heap.length, false⟩) := by
  rw [← fillNode_run addressed]
  rfl

/-- A later node is linked behind the last one. -/
private theorem appendNode_later {tmp : Ifaddrs} {addr : Sockaddr} (addressed : tmp.ifaAddr = some addr)
    {heap : List Ifmacs} {last : Nat} (inside : last < heap.length) (backup : Option Nat) :
    (appendNode ifNametoindex fresh tmp).run ⟨heap, some last, backup, false⟩ = .ok ((),
      ⟨((heap ++ [fresh heap.length]).modify last fun node =>
          { node with next := some heap.length }).modify heap.length fun _ =>
        lastNode ifNametoindex tmp, some heap.length, backup, false⟩) := by
  have linked : ((heap ++ [fresh heap.length]).modify last fun node =>
      { node with next := some heap.length })[last]?.bind Ifmacs.next = some heap.length := by
    rw [List.getElem?_modify, List.getElem?_append_left inside, List.getElem?_eq_getElem inside]
    simp
  have start : (appendNode ifNametoindex fresh tmp).run ⟨heap, some last, backup, false⟩ =
      (fillNode ifNametoindex tmp).run ⟨(heap ++ [fresh heap.length]).modify last fun node =>
        { node with next := some heap.length }, ((heap ++ [fresh heap.length]).modify last fun node =>
        { node with next := some heap.length })[last]?.bind Ifmacs.next, backup, false⟩ := rfl
  rw [start, linked, fillNode_run addressed]

/-- The cells that were there before, in the heap with one more. -/
private theorem getElem?_grown {heap : List Ifmacs} {place : Nat} (inside : place < heap.length) (last : Nat)
    (relink : Ifmacs → Ifmacs) (added node : Ifmacs) :
    (((heap ++ [added]).modify last relink).modify heap.length fun _ => node)[place]? =
      (heap.modify last relink)[place]? := by
  rw [List.getElem?_modify_ne _ _ (Nat.ne_of_gt inside), List.getElem?_modify, List.getElem?_modify,
    List.getElem?_append_left inside]

/-- The nodes so far, in order, hang together from `backup` to `ifs`. -/
inductive Built : Build → List Contents → Prop
  | empty (heap : List Ifmacs) : Built ⟨heap, none, none, true⟩ []
  | nodes {heap : List Ifmacs} {backup : Option Nat} {front : List (Nat × Ifmacs)} {last : Nat}
      {node : Ifmacs} (linked : Linked Ifmacs.next heap backup (front ++ [(last, node)]))
      (apart : ∀ entry ∈ front, entry.1 ≠ last) :
      Built ⟨heap, some last, backup, false⟩ ((front ++ [(last, node)]).map fun entry => entry.2.contents)

/-- One more node is one more entry at the end of the list. -/
theorem Built.append {build : Build} {contents : List Contents} {tmp : Ifaddrs} {addr : Sockaddr}
    (built : Built build contents) (addressed : tmp.ifaAddr = some addr) :
    ∃ after, (appendNode ifNametoindex fresh tmp).run build = .ok ((), after) ∧
      Built after (contents ++ [interfaceOf ifNametoindex tmp]) := by
  cases built with
  | empty heap =>
    refine ⟨_, appendNode_first addressed heap none none, ?_⟩
    have cell : ((heap ++ [fresh heap.length]).modify heap.length fun _ =>
        lastNode ifNametoindex tmp)[heap.length]? = some (lastNode ifNametoindex tmp) := by
      simp
    exact @Built.nodes _ _ [] _ _ (.cell cell .null) (fun _ member => nomatch member)
  | @nodes heap backup front last node linked apart =>
    have present := linked.found
    have inside (entry : Nat × Ifmacs) (member : entry ∈ front ++ [(last, node)]) :
        entry.1 < heap.length := (List.getElem?_eq_some_iff.mp (present entry member)).1
    have lastInside := inside (last, node) (by simp)
    refine ⟨_, appendNode_later addressed lastInside backup, ?_⟩
    let relink (node : Ifmacs) : Ifmacs := { node with next := some heap.length }
    let heap' := ((heap ++ [fresh heap.length]).modify last relink).modify heap.length fun _ =>
      lastNode ifNametoindex tmp
    have kept : ∀ entry ∈ front, heap'[entry.1]? = heap[entry.1]? := by
      intro entry member
      rw [getElem?_grown (inside entry (List.mem_append_left _ member)),
        List.getElem?_modify_ne _ _ (apart entry member).symm]
    have relinked : heap'[last]? = some (relink node) := by
      rw [getElem?_grown lastInside, List.getElem?_modify_eq, present (last, node) (by simp)]
      rfl
    have added : heap'[heap.length]? = some (lastNode ifNametoindex tmp) := by
      simp [heap', relink]
    have longer := linked.append_cell kept relinked rfl added rfl
    rw [List.append_cons] at longer
    have apart' : ∀ entry ∈ front ++ [(last, relink node)], entry.1 ≠ heap.length := by
      intro entry member
      rcases List.mem_append.mp member with old | relinked
      · exact Nat.ne_of_lt (inside entry (List.mem_append_left _ old))
      · rw [List.mem_singleton.mp relinked]
        exact Nat.ne_of_lt lastInside
    have grown := Built.nodes longer apart'
    have same : (front ++ [(last, relink node)] ++ [(heap.length, lastNode ifNametoindex tmp)]).map
        (fun entry => entry.2.contents) =
        (front ++ [(last, node)]).map (fun entry => entry.2.contents) ++
          [interfaceOf ifNametoindex tmp] := by
      simp [relink, Ifmacs.contents, lastNode, interfaceOf]
    rw [same] at grown
    exact grown

theorem Built.cells {build : Build} {contents : List Contents} (built : Built build contents) :
    ∃ cells, Linked Ifmacs.next build.heap build.backup cells ∧
      cells.map (fun entry => entry.2.contents) = contents := by
  cases built with
  | empty => exact ⟨[], .null, rfl⟩
  | nodes linked apart => exact ⟨_, linked, rfl⟩

/-! The inner loop -/

private theorem isPrivate_iff (addrPtr : List UInt8) :
    isPrivate addrPtr = true ↔ addrPtr.take 1 = [10] ∨ addrPtr.take 2 = [192, 168] := by
  have ten := strncmp_length_eq_zero_iff addrPtr (show (0 : UInt8) ∉ [0x0a] by decide)
  have home := strncmp_length_eq_zero_iff addrPtr (show (0 : UInt8) ∉ [0xC0, 0xA8] by decide)
  unfold isPrivate
  rw [Bool.or_eq_true, decide_eq_true_iff, decide_eq_true_iff]
  exact or_congr ten home

private theorem names_iff (tmp tmp2 : Ifaddrs) :
    strncmp tmp2.ifaName.toList tmp.ifaName.toList ifnamsiz = 0 ↔
      chars tmp2.ifaName.toList = chars tmp.ifaName.toList := by
  have whole (record : Ifaddrs) : record.ifaName.toList.take ifnamsiz = record.ifaName.toList :=
    List.take_of_length_le (Nat.le_of_eq (by simp))
  rw [strncmp_eq_zero_iff, whole, whole]

private theorem findIp_null {tmp2 : Ifaddrs} (null : tmp2.ifaAddr = none) (tmp : Ifaddrs)
    (rest : List Ifaddrs) :
    findIp ifNametoindex fresh tmp (tmp2 :: rest) = throw .ifaAddr := by
  simp only [findIp, derefAddr, null]
  rfl

/-- At a record with an address the loop either adds a node and ends, or goes on. -/
private theorem findIp_addressed {tmp2 : Ifaddrs} (addressed : tmp2.ifaAddr ≠ none) (tmp : Ifaddrs)
    (rest : List Ifaddrs) :
    findIp ifNametoindex fresh tmp (tmp2 :: rest) =
      if Answers tmp tmp2 then appendNode ifNametoindex fresh tmp
      else findIp ifNametoindex fresh tmp rest := by
  obtain ⟨addr, found⟩ := Option.ne_none_iff_exists'.mp addressed
  have test : (addr.saFamily = SockAddr.afInet ∧
      strncmp tmp2.ifaName.toList tmp.ifaName.toList ifnamsiz = 0 ∧ isPrivate addr.sinAddr = true) ↔
      Answers tmp tmp2 := by
    unfold Answers
    rw [names_iff, isPrivate_iff, found]
    simp
  have start : findIp ifNametoindex fresh tmp (tmp2 :: rest) =
      if addr.saFamily = SockAddr.afInet ∧
          strncmp tmp2.ifaName.toList tmp.ifaName.toList ifnamsiz = 0 ∧ isPrivate addr.sinAddr then
        appendNode ifNametoindex fresh tmp
      else findIp ifNametoindex fresh tmp rest := by
    simp only [findIp, derefAddr, found]
    rfl
  rw [start]
  exact if_congr test rfl rfl

private theorem covered_cons_iff (tmp tmp2 : Ifaddrs) (rest : List Ifaddrs) :
    Covered tmp (tmp2 :: rest) ↔ tmp2.ifaAddr ≠ none ∧ (Answers tmp tmp2 ∨ Covered tmp rest) := by
  constructor
  · intro covered
    refine ⟨fun null => ?_, ?_⟩
    · obtain ⟨earlier, member, -⟩ := covered [] tmp2 rest rfl null
      cases member
    · by_cases answers : Answers tmp tmp2
      · exact .inl answers
      · refine .inr fun front null back split gap => ?_
        obtain ⟨earlier, member, found⟩ := covered (tmp2 :: front) null back (by rw [split]; rfl) gap
        rcases List.mem_cons.mp member with rfl | later
        · exact absurd found answers
        · exact ⟨earlier, later, found⟩
  · rintro ⟨addressed, ahead⟩ front null back split gap
    cases front with
    | nil =>
      cases split
      exact absurd gap addressed
    | cons first front =>
      cases split
      rcases ahead with answers | covered
      · exact ⟨tmp2, List.mem_cons_self, answers⟩
      · obtain ⟨earlier, member, found⟩ := covered front null back rfl gap
        exact ⟨earlier, List.mem_cons_of_mem _ member, found⟩

/-- Over a covered list the loop adds a node if some record answers. -/
private theorem findIp_covered {tmp : Ifaddrs} {rest : List Ifaddrs} (covered : Covered tmp rest) :
    findIp ifNametoindex fresh tmp rest =
      if ∃ tmp2 ∈ rest, Answers tmp tmp2 then appendNode ifNametoindex fresh tmp else return () := by
  induction rest with
  | nil => rfl
  | cons tmp2 rest ih =>
    obtain ⟨addressed, ahead⟩ := (covered_cons_iff tmp tmp2 rest).mp covered
    rw [findIp_addressed addressed]
    by_cases answers : Answers tmp tmp2
    · rw [if_pos answers, if_pos ⟨tmp2, List.mem_cons_self, answers⟩]
    · rw [if_neg answers, ih (ahead.resolve_left answers)]
      refine if_congr ?_ rfl rfl
      simp [answers]

private theorem findIp_uncovered {tmp : Ifaddrs} {rest : List Ifaddrs} (uncovered : ¬Covered tmp rest) :
    findIp ifNametoindex fresh tmp rest = throw .ifaAddr := by
  induction rest with
  | nil =>
    refine absurd ?_ uncovered
    intro front null back split
    cases front <;> cases split
  | cons tmp2 rest ih =>
    rw [covered_cons_iff, not_and] at uncovered
    by_cases null : tmp2.ifaAddr = none
    · exact findIp_null null tmp rest
    · obtain ⟨passes, later⟩ := not_or.mp (uncovered null)
      rw [findIp_addressed null, if_neg passes, ih later]

/-! The outer loop -/

/-- What one record of the outer loop contributes. -/
def listedNode (ifNametoindex : List UInt8 → UInt32) (addrs : List Ifaddrs) (tmp : Ifaddrs) :
    List Contents :=
  if Listed addrs tmp then [interfaceOf ifNametoindex tmp] else []

private theorem packet_iff (tmp : Ifaddrs) :
    tmp.ifaAddr.any (·.saFamily = afPacket) = true ↔ tmp.IsPacket := by
  unfold IsPacket
  simp [Option.any_eq_true]

/-- Of a record that is no reason to follow a null pointer, the outer loop goes on
to the next. -/
private theorem findMacs_step {build : Build} {contents : List Contents} {addrs : List Ifaddrs}
    {tmp : Ifaddrs}
    (built : Built build contents) (clear : tmp.IsPacket → Covered tmp addrs) (rest : List Ifaddrs) :
    ∃ after, Built after (contents ++ listedNode ifNametoindex addrs tmp) ∧
      (findMacs ifNametoindex fresh addrs (tmp :: rest)).run build =
        (findMacs ifNametoindex fresh addrs rest).run after := by
  unfold listedNode
  by_cases packet : tmp.IsPacket
  · obtain ⟨addr, addressed, -⟩ := id packet
    rw [findMacs, if_pos ((packet_iff tmp).mpr packet), findIp_covered (clear packet)]
    by_cases answered : ∃ tmp2 ∈ addrs, Answers tmp tmp2
    · obtain ⟨after, added, grown⟩ := built.append addressed
      refine ⟨after, by rwa [if_pos ⟨packet, answered⟩], ?_⟩
      rw [if_pos answered, StateT.run_bind, added]
      rfl
    · refine ⟨build, ?_, ?_⟩
      · rwa [if_neg fun listed => answered listed.2, List.append_nil]
      · rw [if_neg answered]
        rfl
  · refine ⟨build, ?_, ?_⟩
    · rwa [if_neg fun listed => packet listed.1, List.append_nil]
    · rw [findMacs, if_neg fun found => packet ((packet_iff tmp).mp found)]

private theorem findMacs_null {build : Build} {addrs : List Ifaddrs} {tmp : Ifaddrs} (packet : tmp.IsPacket)
    (uncovered : ¬Covered tmp addrs) (rest : List Ifaddrs) :
    (findMacs ifNametoindex fresh addrs (tmp :: rest)).run build = .error .ifaAddr := by
  rw [findMacs, if_pos ((packet_iff tmp).mpr packet), findIp_uncovered uncovered]
  rfl

/-- If no record is a reason to follow a null pointer, each one adds what it contributes. -/
theorem findMacs_run {addrs rest : List Ifaddrs} {build : Build} {contents : List Contents}
    (built : Built build contents) (clear : ∀ tmp ∈ rest, tmp.IsPacket → Covered tmp addrs) :
    ∃ after, (findMacs ifNametoindex fresh addrs rest).run build = .ok ((), after) ∧
      Built after (contents ++ rest.flatMap (listedNode ifNametoindex addrs)) := by
  induction rest generalizing build contents with
  | nil => exact ⟨build, rfl, by rwa [List.flatMap_nil, List.append_nil]⟩
  | cons tmp rest ih =>
    obtain ⟨next, grown, step⟩ := findMacs_step built (clear tmp List.mem_cons_self) rest
    obtain ⟨after, run, final⟩ := ih grown fun later member => clear later (List.mem_cons_of_mem _ member)
    refine ⟨after, by rw [step, run], ?_⟩
    rwa [List.flatMap_cons, ← List.append_assoc]

/-- Otherwise the first such record ends the function. -/
private theorem findMacs_run_null {addrs rest : List Ifaddrs} {build : Build} {contents : List Contents}
    (built : Built build contents) {tmp : Ifaddrs} (member : tmp ∈ rest) (packet : tmp.IsPacket)
    (uncovered : ¬Covered tmp addrs) :
    (findMacs ifNametoindex fresh addrs rest).run build = .error .ifaAddr := by
  induction rest generalizing build contents with
  | nil => cases member
  | cons first rest ih =>
    by_cases clear : first.IsPacket → Covered first addrs
    · obtain ⟨next, grown, step⟩ := findMacs_step built clear rest
      rcases List.mem_cons.mp member with rfl | later
      · exact absurd (clear packet) uncovered
      · rw [step, ih grown later]
    · obtain ⟨firstPacket, firstUncovered⟩ := Classical.not_imp.mp clear
      exact findMacs_null firstPacket firstUncovered rest

private theorem flatMap_listedNode (ifNametoindex : List UInt8 → UInt32) (addrs rest : List Ifaddrs) :
    rest.flatMap (listedNode ifNametoindex addrs) =
      (rest.filter (Listed addrs ·)).map (interfaceOf ifNametoindex) := by
  induction rest with
  | nil => rfl
  | cons tmp rest ih =>
    rw [List.flatMap_cons, ih, listedNode, List.filter_cons]
    by_cases listed : Listed addrs tmp
    · simp [listed]
    · simp [listed]

private theorem getifmacsWithIps_covered {addrs : List Ifaddrs}
    (clear : ∀ tmp ∈ addrs, tmp.IsPacket → Covered tmp addrs) (heap : List Ifmacs) :
    ∃ heap' head cells, getifmacsWithIps ifNametoindex fresh heap addrs = .ok (heap', head) ∧
      Linked Ifmacs.next heap' head cells ∧
      cells.map (fun entry => entry.2.contents) = interfacesWithIps ifNametoindex addrs := by
  obtain ⟨after, run, built⟩ := findMacs_run (.empty heap) clear
  obtain ⟨cells, linked, contents⟩ := built.cells
  refine ⟨after.heap, after.backup, cells, ?_, linked, ?_⟩
  · unfold getifmacsWithIps
    rw [run]
    rfl
  · rw [contents, List.nil_append, flatMap_listedNode]
    rfl

private theorem interfacesWithIps_eq_nil_iff (ifNametoindex : List UInt8 → UInt32) (addrs : List Ifaddrs) :
    interfacesWithIps ifNametoindex addrs = [] ↔ ∀ tmp ∈ addrs, ¬Listed addrs tmp := by
  rw [interfacesWithIps, List.map_eq_nil_iff, List.filter_eq_nil_iff]
  simp

/-- If every record has an address, the result is the list of the interfaces with a
private address. -/
theorem getifmacsWithIps_lists (ifNametoindex : List UInt8 → UInt32) (fresh : Nat → Ifmacs)
    {addrs : List Ifaddrs} (addressed : ∀ tmp ∈ addrs, tmp.ifaAddr ≠ none) (heap : List Ifmacs) :
    ∃ heap' head cells, getifmacsWithIps ifNametoindex fresh heap addrs = .ok (heap', head) ∧
      Linked Ifmacs.next heap' head cells ∧
      cells.map (fun entry => entry.2.contents) = interfacesWithIps ifNametoindex addrs ∧
      (head = none ↔ ∀ tmp ∈ addrs, ¬Listed addrs tmp) := by
  have clear : ∀ tmp ∈ addrs, tmp.IsPacket → Covered tmp addrs := by
    intro tmp _ _ front null back split gap
    refine absurd gap (addressed null ?_)
    rw [split]
    exact List.mem_append_right _ List.mem_cons_self
  obtain ⟨heap', head, cells, run, linked, contents⟩ := getifmacsWithIps_covered clear heap
  refine ⟨heap', head, cells, run, linked, contents, ?_⟩
  rw [linked.null_iff, ← interfacesWithIps_eq_nil_iff ifNametoindex, ← contents, List.map_eq_nil_iff]

def eth0 : Vector UInt8 ifnamsiz := #v[0x65, 0x74, 0x68, 0x30, 0, 0, 0, 0, 0, 0, 0, 0, 0, 0, 0, 0]

/-- eth0 with the hardware address 02:00:00:00:00:01. -/
def eth0Packet : Ifaddrs :=
  ⟨eth0, some ⟨afPacket, #v[0, 0, 2, 0, 0, 0, 1, 0, 0, 6, 2, 0, 0, 0, 0, 1, 0, 0]⟩⟩

/-- eth0 with the address 192.168.0.5. -/
def eth0Inet : Ifaddrs :=
  ⟨eth0, some ⟨SockAddr.afInet, #v[0, 0, 192, 168, 0, 5, 0, 0, 0, 0, 0, 0, 0, 0, 0, 0, 0, 0]⟩⟩

/-- Two records of one interface, the address last: one node. -/
theorem getifmacsWithIps_lists_eth0 :
    ∃ heap' head cells, getifmacsWithIps (fun _ => 2) (fun _ => ⟨[], [], 0, none⟩) [] [eth0Packet, eth0Inet] =
        .ok (heap', head) ∧
      Linked Ifmacs.next heap' head cells ∧
      cells.map (fun entry => entry.2.contents) = [⟨[2, 0, 0, 0, 0, 1], eth0.toList, 2⟩] ∧ head ≠ none := by
  have addressed : ∀ tmp ∈ [eth0Packet, eth0Inet], tmp.ifaAddr ≠ none := by
    rintro tmp (_ | ⟨_, _ | ⟨_, none⟩⟩)
    · exact Option.some_ne_none _
    · exact Option.some_ne_none _
    · cases none
  obtain ⟨heap', head, cells, run, linked, contents, empty⟩ :=
    getifmacsWithIps_lists (fun _ => 2) (fun _ => ⟨[], [], 0, none⟩) addressed []
  have one : interfacesWithIps (fun _ => 2) [eth0Packet, eth0Inet] =
      [⟨[2, 0, 0, 0, 0, 1], eth0.toList, 2⟩] := by decide
  rw [one] at contents
  refine ⟨heap', head, cells, run, linked, contents, fun null => ?_⟩
  rw [(linked.null_iff).mp null] at contents
  cases contents

/-- A null pointer is followed exactly if some `AF_PACKET` record finds a record without
an address before one that answers. -/
theorem getifmacsWithIps_no_null_iff (ifNametoindex : List UInt8 → UInt32) (fresh : Nat → Ifmacs)
    (heap : List Ifmacs) (addrs : List Ifaddrs) :
    getifmacsWithIps ifNametoindex fresh heap addrs ≠ .error .ifaAddr ↔
      ∀ tmp ∈ addrs, tmp.IsPacket → Covered tmp addrs := by
  constructor
  · intro safe tmp member packet
    by_contra uncovered
    refine safe ?_
    unfold getifmacsWithIps
    rw [findMacs_run_null (.empty heap) member packet uncovered]
    rfl
  · intro clear null
    obtain ⟨heap', head, cells, run, -⟩ := getifmacsWithIps_covered clear heap
    rw [run] at null
    cases null

/-- eth0 answers only behind an interface without an address. -/
theorem tun0_followed :
    getifmacsWithIps (fun _ => 2) (fun _ => ⟨[], [], 0, none⟩) []
      [eth0Packet, ⟨#v[0x74, 0x75, 0x6e, 0x30, 0, 0, 0, 0, 0, 0, 0, 0, 0, 0, 0, 0], none⟩, eth0Inet] =
        .error .ifaAddr := rfl

end HamachiLike.Dhcp
