import HamachiLike.Library.Run
import Mathlib.Data.List.Infix
import Mathlib.Data.Fintype.Basic

/-! The iptables rules of the client build of vpnServer.cpp, from the start of
`main` to the end of the process. What can fail or be interrupted is an item of the
program; a signal falls between two items. -/

namespace HamachiLike.Vpn

/-- The rules of `setup_route_table`: masquerading on tun0, and forwarding from and to it. -/
inductive Rule
  | masquerade
  | forwardIn
  | forwardOut
  deriving DecidableEq

instance : Fintype Rule where
  elems := {.masquerade, .forwardIn, .forwardOut}
  complete := by
    intro rule
    cases rule <;> decide

/-- The commands given to `run`, those of iptables by their rule. -/
inductive Command
  | ifconfig
  | sysctl
  | add (rule : Rule)
  | routeAdd (net : String)
  | delete (rule : Rule)
  | routeDel (net : String)
  deriving DecidableEq

inductive Signal
  | sighup
  | sigint
  | sigterm
  deriving DecidableEq

/-- The system calls of `tun_alloc`. -/
inductive TunCall
  | open
  | ioctl
  deriving DecidableEq

/-- What can fail in `udp_bind`. -/
inductive BindCall
  | getaddrinfo
  | family
  | socket
  | getfl
  | setfl
  deriving DecidableEq

inductive Item
  | tunAlloc (call : TunCall)
  | run (command : Command)
  | sigaction (signal : Signal)
  | udpBind (call : BindCall)
  | relay
  deriving DecidableEq

def setupRouteTable : List Command :=
  [.sysctl, .add .masquerade, .add .forwardIn, .add .forwardOut, .routeAdd "0/1", .routeAdd "128/1"]

def cleanupRouteTable : List Command :=
  [.delete .masquerade, .delete .forwardIn, .delete .forwardOut, .routeDel "0/1", .routeDel "128/1"]

def cleanupWhenSigExit : List Signal := [.sighup, .sigint, .sigterm]

def udpBindCalls : List BindCall := [.getaddrinfo, .family, .socket, .getfl, .setfl]

/-- The body of `main` in order. -/
def main : List Item :=
  [.tunAlloc .open, .tunAlloc .ioctl, .run .ifconfig] ++ setupRouteTable.map .run ++
    cleanupWhenSigExit.map .sigaction ++ udpBindCalls.map .udpBind ++ [.relay] ++
    cleanupRouteTable.map .run

/-- The handler, which is installed for no other signal. -/
def cleanup : List Item := cleanupRouteTable.map .run

/-- What is still to be done, whether by the signal handler, which signals are
handled, and how many copies of each rule there are. The process has ended when
nothing is left to do. -/
structure Process where
  rest : List Item
  inHandler : Bool
  handled : Signal → Bool
  rules : Rule → Nat

/-- The process starts in a rule table that may hold copies of the rules already. -/
def start (base : Rule → Nat) : Process := ⟨main, false, fun _ => false, base⟩

/-- The table after a command that succeeds or fails, where that can happen. -/
def exec (rules : Rule → Nat) (command : Command) (ok : Bool) : Option (Rule → Nat) :=
  match command with
  | .add rule => some fun other => if ok ∧ other = rule then rules other + 1 else rules other
  | .delete rule =>
    if ok = decide (0 < rules rule) then
      some fun other => if ok ∧ other = rule then rules other - 1 else rules other
    else none
  | _ => some rules

inductive Event
  | done (ok : Bool)
  | signal (which : Signal)
  deriving DecidableEq

/-- The next item succeeds or fails, or a signal arrives. The handler has all
signals blocked; a signal without a handler ends the process. -/
def step (process : Process) : Event → Option Process
  | .done ok =>
    match process.rest with
    | [] => none
    | .tunAlloc _ :: rest => some { process with rest := if ok then rest else [] }
    | .run command :: rest =>
      (exec process.rules command ok).map fun rules =>
        { process with rest := if ok then rest else [], rules := rules }
    | .sigaction which :: rest =>
      some { process with
        rest := rest
        handled := fun other => if ok ∧ other = which then true else process.handled other }
    | .udpBind _ :: rest => some { process with rest := if ok then rest else [] }
    | .relay :: rest => some { process with rest := if ok then .relay :: rest else rest }
  | .signal which =>
    if process.rest = [] then none
    else if process.inHandler then some process
    else if process.handled which then
      some { process with rest := cleanup, inHandler := true }
    else some { process with rest := [] }

/-- None of the process's rules is in the table: the first is still to be added,
or the last has been deleted. -/
def Clear (rest : List Item) : Prop :=
  .run (.add .masquerade) ∈ rest ∨ .run (.delete .forwardOut) ∉ rest

instance (rest : List Item) : Decidable (Clear rest) := inferInstanceAs (Decidable (_ ∨ _))

/-- No command of `main` fails while a rule of its own is in the table, and nothing in
`udp_bind` does; a signal then finds its handler installed, and a copy of each rule
that `main` has deleted already. -/
def Safe (base : Rule → Nat) (process : Process) : Event → Prop
  | .done true => True
  | .done false =>
    match process.rest with
    | .run _ :: _ => process.inHandler = true ∨ Clear process.rest
    | .udpBind _ :: _ => False
    | _ => True
  | .signal which =>
    process.inHandler = true ∨ Clear process.rest ∨
      process.handled which = true ∧ ∀ rule, .run (.delete rule) ∉ process.rest → 0 < base rule

private theorem exec_true {rules next : Rule → Nat} {command : Command}
    (done : exec rules command true = some next) (rule : Rule) :
    next rule + (if command = .delete rule then 1 else 0) =
      rules rule + if command = .add rule then 1 else 0 := by
  cases command with
  | add added =>
    cases done
    by_cases same : rule = added
    · simp [same]
    · simp [same, Ne.symm same]
  | delete deleted =>
    simp only [exec] at done
    split at done
    · rename_i present
      have positive : 0 < rules deleted := of_decide_eq_true present.symm
      cases done
      by_cases same : rule = deleted
      · subst same
        simp
        omega
      · simp [same, Ne.symm same]
    · cases done
  | _ =>
    cases done
    simp

private theorem exec_false {rules next : Rule → Nat} {command : Command}
    (failed : exec rules command false = some next) : next = rules := by
  cases command with
  | delete deleted =>
    simp only [exec] at failed
    split at failed
    · simpa using failed.symm
    · cases failed
  | _ => simpa [exec] using failed.symm

private theorem exec_delete_some {rules next : Rule → Nat} {rule : Rule} {ok : Bool}
    (done : exec rules (.delete rule) ok = some next) : ok = decide (0 < rules rule) := by
  simp only [exec] at done
  split at done
  · assumption
  · cases done

private theorem step_run {command : Command} {tail : List Item} {inHandler : Bool} {handled : Signal → Bool}
    {rules : Rule → Nat} {ok : Bool} {next : Process} :
    step ⟨.run command :: tail, inHandler, handled, rules⟩ (.done ok) = some next ↔
      ∃ after, exec rules command ok = some after ∧
        ⟨if ok then tail else [], inHandler, handled, after⟩ = next := by
  simp [step]

/-- How many copies of a rule the process has in the table before the rest of `main`. -/
def owed (rest : List Item) (rule : Rule) : Nat :=
  if .run (.add rule) ∉ rest ∧ .run (.delete rule) ∈ rest then 1 else 0

/-- An item of `main` adds what it takes off the rest, and deletes what it leaves on it. -/
private theorem owed_head : ∀ rest ∈ main.tails, ∀ item ∈ rest.head?, ∀ rule,
    owed rest.tail rule + (if item = .run (.delete rule) then 1 else 0) =
      owed rest rule + (if item = .run (.add rule) then 1 else 0) := by
  decide

private theorem owed_of_clear : ∀ rest ∈ main.tails, Clear rest → ∀ rule, owed rest rule = 0 := by decide

private theorem clear_of_tunAlloc (call : TunCall) :
    ∀ rest ∈ main.tails, rest.head? = some (.tunAlloc call) → Clear rest := by
  cases call <;> decide

private theorem added_of_sigaction (which : Signal) :
    ∀ rest ∈ main.tails, rest.head? = some (.sigaction which) →
      ∀ rule, .run (.add rule) ∉ rest := by
  cases which <;> decide

/-- The cleanup deletes each rule once, and the routes after the rules. -/
private theorem cleanup_head : ∀ rest ∈ cleanup.tails, ∀ item ∈ rest.head?,
    (∀ rule, .run (.delete rule) ∉ rest) ∨
      ∃ rule, item = .run (.delete rule) ∧ .run (.delete rule) ∉ rest.tail := by
  decide

private theorem cleanup_adds_nothing (rule : Rule) : .run (.add rule) ∉ cleanup := by
  revert rule
  decide

private theorem cleanup_deletes (rule : Rule) : .run (.delete rule) ∈ cleanup := by
  revert rule
  decide

private theorem tail_mem_tails {item : Item} {tail whole : List Item} (member : item :: tail ∈ whole.tails) :
    tail ∈ whole.tails := by
  rw [List.mem_tails] at *
  exact (List.suffix_cons item tail).trans member

/-- `main` is running and has the rules in the table that it owes. -/
structure Running (base : Rule → Nat) (rest : List Item) (handled : Signal → Bool)
    (rules : Rule → Nat) : Prop where
  member : rest ∈ main.tails
  installed : ∀ which, handled which = true → ∀ rule, .run (.add rule) ∉ rest
  counted : ∀ rule, rules rule = base rule + owed rest rule

/-- The handler is running and can delete every rule that it has not reached yet. -/
structure Handling (base : Rule → Nat) (rest : List Item) (rules : Rule → Nat) : Prop where
  member : rest ∈ cleanup.tails
  pending : ∀ rule, .run (.delete rule) ∈ rest → 0 < rules rule ∧ rules rule ≤ base rule + 1
  deleted : ∀ rule, .run (.delete rule) ∉ rest → rules rule ≤ base rule

/-- How a process stands that has met no fault: it runs `main`, or its handler runs,
or no rule of its own is left. -/
inductive Good (base : Rule → Nat) : Process → Prop
  | running {rest : List Item} {handled : Signal → Bool} {rules : Rule → Nat}
      (running : Running base rest handled rules) : Good base ⟨rest, false, handled, rules⟩
  | handling {rest : List Item} {handled : Signal → Bool} {rules : Rule → Nat}
      (handling : Handling base rest rules) : Good base ⟨rest, true, handled, rules⟩
  | settled {rest : List Item} {inHandler : Bool} {handled : Signal → Bool} {rules : Rule → Nat}
      (place : rest = [] ∨ inHandler = true ∧ rest ∈ cleanup.tails)
      (clean : ∀ rule, rules rule ≤ base rule) :
      Good base ⟨rest, inHandler, handled, rules⟩

/-- How it stands after one: it has ended and left a rule behind, or its handler
is about to delete a missing rule while the forwarding to tun0 is still there. -/
inductive Harmed (base : Rule → Nat) : Process → Prop
  | ended {inHandler : Bool} {handled : Signal → Bool} {rules : Rule → Nat} (rule : Rule)
      (left : base rule < rules rule) : Harmed base ⟨[], inHandler, handled, rules⟩
  | stuck {front back : List Item} {missing : Rule} {handled : Signal → Bool} {rules : Rule → Nat}
      (before : ∀ item ∈ front, ∃ rule, item = .run (.delete rule) ∧ rule ≠ .forwardOut)
      (absent : rules missing = 0) (left : base .forwardOut < rules .forwardOut) :
      Harmed base ⟨front ++ .run (.delete missing) :: back, true, handled, rules⟩

variable {base : Rule → Nat} {item : Item} {rest tail : List Item} {handled : Signal → Bool}
  {rules : Rule → Nat} {which : Signal} {event : Event} {ok : Bool} {process next : Process}

private theorem Running.clean (running : Running base rest handled rules) (clear : Clear rest) (rule : Rule) :
    rules rule ≤ base rule := by
  rw [running.counted rule, owed_of_clear rest running.member clear rule, Nat.add_zero]

private theorem Running.owed_eq (running : Running base rest handled rules) {rule : Rule}
    (handles : handled which = true) (inRest : .run (.delete rule) ∈ rest) :
    rules rule = base rule + 1 := by
  rw [running.counted rule, owed, if_pos ⟨running.installed which handles rule, inRest⟩]

theorem Running.gone (running : Running base rest handled rules) {rule : Rule}
    (gone : .run (.delete rule) ∉ rest) : rules rule = base rule := by
  rw [running.counted rule, owed, if_neg fun both => gone both.2, Nat.add_zero]

/-- The item that `main` has come to changes what it owes as a command changes the table. -/
theorem Running.advance (running : Running base (item :: tail) handled rules) {after : Rule → Nat}
    (changed : ∀ rule, after rule + (if item = .run (.delete rule) then 1 else 0) =
      rules rule + if item = .run (.add rule) then 1 else 0) :
    Running base tail handled after where
  member := tail_mem_tails running.member
  installed which handles rule inTail :=
    running.installed which handles rule (List.mem_cons_of_mem _ inTail)
  counted rule := by
    have owes := owed_head _ running.member item rfl rule
    have before := running.counted rule
    have done := changed rule
    simp only [List.tail_cons] at owes
    omega

private theorem Running.pass (running : Running base (item :: tail) handled rules)
    (noCommand : ∀ command, item ≠ .run command) : Running base tail handled rules :=
  running.advance fun rule => by simp only [noCommand, if_false]

/-- A handler is installed when every rule has been added. -/
private theorem Running.install (running : Running base (.sigaction which :: tail) handled rules)
    (handled' : Signal → Bool) : Running base tail handled' rules where
  member := tail_mem_tails running.member
  installed := fun _ _ rule inTail =>
    added_of_sigaction which _ running.member rfl rule (List.mem_cons_of_mem _ inTail)
  counted := (running.pass fun _ => Item.noConfusion).counted

theorem Running.done (running : Running base rest handled rules)
    (safe : Safe base ⟨rest, false, handled, rules⟩ (.done ok))
    (taken : step ⟨rest, false, handled, rules⟩ (.done ok) = some next) : Good base next := by
  cases rest with
  | nil => cases taken
  | cons item tail =>
    cases item with
    | run command =>
      obtain ⟨after, executed, rfl⟩ := step_run.mp taken
      cases ok with
      | true =>
        refine .running (running.advance fun rule => ?_)
        simpa only [Item.run.injEq] using exec_true executed rule
      | false =>
        rw [exec_false executed]
        exact .settled (.inl rfl) (running.clean (safe.resolve_left Bool.false_ne_true))
    | tunAlloc call =>
      cases taken
      cases ok with
      | true => exact .running (running.pass fun _ => Item.noConfusion)
      | false => exact .settled (.inl rfl) (running.clean (clear_of_tunAlloc call _ running.member rfl))
    | sigaction which =>
      cases taken
      exact .running (running.install _)
    | udpBind call =>
      cases taken
      cases ok with
      | true => exact .running (running.pass fun _ => Item.noConfusion)
      | false => exact safe.elim
    | relay =>
      cases taken
      cases ok with
      | true => exact .running running
      | false => exact .running (running.pass fun _ => Item.noConfusion)

private theorem cleanup_command (member : item :: tail ∈ cleanup.tails) :
    ∃ command, item = .run command ∧ ∀ rule, command ≠ .add rule := by
  have inCleanup : item ∈ cleanup := ((List.mem_tails _ _).mp member).subset List.mem_cons_self
  obtain ⟨command, _, rfl⟩ := List.mem_map.mp inCleanup
  refine ⟨command, rfl, fun rule same => cleanup_adds_nothing rule ?_⟩
  rwa [same] at inCleanup

/-- Inside the handler a signal changes nothing, and a command only deletes. -/
private theorem step_cleanup (member : rest ∈ cleanup.tails)
    (taken : step ⟨rest, true, handled, rules⟩ event = some next) :
    next = ⟨rest, true, handled, rules⟩ ∨
      ∃ ok command tail after, rest = .run command :: tail ∧ exec rules command ok = some after ∧
        (∀ rule, command ≠ .add rule) ∧ next = ⟨if ok then tail else [], true, handled, after⟩ := by
  cases event with
  | signal which =>
    simp only [step] at taken
    split at taken
    · cases taken
    · exact .inl (Option.some.inj taken).symm
  | done ok =>
    cases rest with
    | nil => cases taken
    | cons item tail =>
      obtain ⟨command, rfl, noAdd⟩ := cleanup_command member
      obtain ⟨after, executed, rfl⟩ := step_run.mp taken
      exact .inr ⟨ok, command, tail, after, rfl, executed, noAdd, rfl⟩

private theorem exec_le {rules next : Rule → Nat} {command : Command} {ok : Bool}
    (noAdd : ∀ rule, command ≠ .add rule) (done : exec rules command ok = some next) (rule : Rule) :
    next rule ≤ rules rule := by
  cases ok with
  | false => rw [exec_false done]
  | true =>
    have changed := exec_true done rule
    simp only [noAdd rule, if_false] at changed
    omega

theorem Handling.step (handling : Handling base rest rules)
    (taken : step ⟨rest, true, handled, rules⟩ event = some next) : Good base next := by
  obtain ⟨member, pending, deleted⟩ := handling
  obtain rfl | ⟨ok, command, tail, after, rfl, executed, noAdd, rfl⟩ := step_cleanup member taken
  · exact .handling ⟨member, pending, deleted⟩
  · obtain routes | ⟨rule, same, once⟩ := cleanup_head _ member _ rfl
    · have clean (rule : Rule) : after rule ≤ base rule :=
        (exec_le noAdd executed rule).trans (deleted rule (routes rule))
      cases ok with
      | true => exact .settled (.inr ⟨rfl, tail_mem_tails member⟩) clean
      | false => exact .settled (.inl rfl) clean
    · cases same
      have present := pending rule List.mem_cons_self
      cases exec_delete_some executed
      simp only [present.1, decide_true, if_true] at executed ⊢
      refine .handling ⟨tail_mem_tails member, fun other inTail => ?_, fun other notInTail => ?_⟩
      · have distinct : rule ≠ other := fun same => once (same ▸ inTail)
        have changed := exec_true executed other
        simp only [Command.delete.injEq, distinct, reduceCtorEq, if_false, Nat.add_zero] at changed
        rw [changed]
        exact pending other (List.mem_cons_of_mem _ inTail)
      · have changed := exec_true executed other
        by_cases same : rule = other
        · subst same
          simp only [if_true, reduceCtorEq, if_false] at changed
          omega
        · simp only [Command.delete.injEq, same, reduceCtorEq, if_false, Nat.add_zero] at changed
          rw [changed]
          refine deleted other fun inRest => ?_
          obtain same' | inTail := List.mem_cons.mp inRest
          · cases same'
            exact same rfl
          · exact notInTail inTail

private theorem step_signal
    (taken : step ⟨rest, false, handled, rules⟩ (.signal which) = some next) :
    handled which = true ∧ next = ⟨cleanup, true, handled, rules⟩ ∨
      handled which = false ∧ next = ⟨[], false, handled, rules⟩ := by
  simp only [step] at taken
  split at taken
  · cases taken
  · cases handles : handled which with
    | true =>
      refine .inl ⟨rfl, ?_⟩
      simpa [handles] using taken.symm
    | false =>
      refine .inr ⟨rfl, ?_⟩
      simpa [handles] using taken.symm

private theorem Running.signal (running : Running base rest handled rules)
    (safe : Safe base ⟨rest, false, handled, rules⟩ (.signal which))
    (taken : step ⟨rest, false, handled, rules⟩ (.signal which) = some next) : Good base next := by
  obtain ⟨handles, rfl⟩ | ⟨unhandled, rfl⟩ := step_signal taken
  · obtain clear | ⟨_, already⟩ := safe.resolve_left Bool.false_ne_true
    · exact .settled (.inr ⟨rfl, by simp⟩) (running.clean clear)
    · refine .handling ⟨by simp, fun rule _ => ?_, fun rule gone => absurd (cleanup_deletes rule) gone⟩
      by_cases inRest : .run (.delete rule) ∈ rest
      · have count := running.owed_eq handles inRest
        omega
      · have count := running.gone inRest
        have present : 0 < base rule := already rule inRest
        omega
  · obtain clear | ⟨handles, _⟩ := safe.resolve_left Bool.false_ne_true
    · exact .settled (.inl rfl) (running.clean clear)
    · exact absurd (handles.symm.trans unhandled) nofun

theorem Harmed.step (harmed : Harmed base process)
    (taken : step process event = some next) : Harmed base next := by
  cases harmed with
  | ended rule left => cases event <;> cases taken
  | @stuck front back missing handled rules before absent left =>
    cases event with
    | signal which =>
      simp only [Vpn.step] at taken
      split at taken
      · cases taken
      · cases taken
        exact .stuck before absent left
    | done ok =>
      cases front with
      | nil =>
        obtain ⟨after, executed, rfl⟩ := step_run.mp taken
        have failed := exec_delete_some executed
        simp only [absent, Nat.lt_irrefl, decide_false] at failed
        subst failed
        rw [exec_false executed]
        exact .ended .forwardOut left
      | cons item front =>
        obtain ⟨deleted, rfl, early⟩ := before item List.mem_cons_self
        obtain ⟨after, executed, rfl⟩ := step_run.mp taken
        cases ok with
        | false =>
          rw [exec_false executed]
          exact .ended .forwardOut left
        | true =>
          refine .stuck (fun item member => before item (List.mem_cons_of_mem _ member)) ?_ ?_
          · exact Nat.le_zero.mp (absent ▸ exec_le (fun _ => Command.noConfusion) executed missing)
          · have changed := exec_true executed .forwardOut
            simp only [Command.delete.injEq, early, reduceCtorEq, if_false, Nat.add_zero] at changed
            rwa [changed]

private theorem Good.clean (good : Good base process) (ended : process.rest = [])
    (rule : Rule) : process.rules rule ≤ base rule := by
  cases good with
  | running running =>
    cases ended
    exact Nat.le_of_eq (running.gone List.not_mem_nil)
  | handling handling =>
    cases ended
    exact handling.deleted rule List.not_mem_nil
  | settled place clean => exact clean rule

theorem Harmed.left (harmed : Harmed base process) (ended : process.rest = []) :
    ∃ rule, base rule < process.rules rule := by
  cases harmed with
  | ended rule left => exact ⟨rule, left⟩
  | stuck before absent left => simp at ended

end HamachiLike.Vpn
