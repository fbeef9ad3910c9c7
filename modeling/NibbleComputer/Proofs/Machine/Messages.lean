import Mathlib.Data.List.DropRight
import NibbleComputer.Proofs.Machine.Drivers

/-!
# The messages of a history

The messages that a machine logs are written while a tick is under way, before the counters move.
They nevertheless tell of the machine as it can be seen between operations: there is one message
for each tick since the last reset, with what the machine held before it, and one for the halt, with
what the counter and the output register show from then on.

- `Log.IsTrace`, `Log.IsHalt`: the messages of ticks and of the halt.
- `Machine.traceMessage`, `Machine.haltMessage`: these messages for a machine.
- `Machine.begins`, `Machine.ticked`: the machines before the ticks of a run, and of a history.
- `Machine.Tells`: messages that tell of some ticks and of the machine after them.
- `Machine.Tells.tick`, `Machine.Tells.apply`, `Machine.Tells.perform`: ticks, operations and
  histories keep telling.
- `Machine.ticksSinceReset`, `Machine.messagesSinceReset`: the ticks and the messages after the last
  reset of a history.
- `Machine.messages_faithful`: the messages since the last reset tell of the run since then.
-/

namespace NibbleComputer

/-! ## Kinds of messages -/

namespace Log

/-- A message about a tick. -/
def IsTrace (message : Message) : Prop :=
  message.level = .trace

instance : DecidablePred IsTrace :=
  fun _ => inferInstanceAs (Decidable (_ = _))

/-- A message about the halt. -/
def IsHalt (message : Message) : Prop :=
  message.level = .debug ∧ "halted after ".toList <+: message.text.toList

instance : DecidablePred IsHalt :=
  fun _ => inferInstanceAs (Decidable (_ ∧ _ <+: _))

theorem not_isHalt_of_isTrace {message : Message} (isTrace : IsTrace message) :
    ¬ IsHalt message := by
  rintro ⟨debug, -⟩
  rw [IsTrace, debug] at isTrace
  cases isTrace

end Log

namespace Machine

open Log

variable {m : Machine} {ticks : List Machine} {messages : List Message}

/-- The message about a tick: its step, and the opcode nibble and the lines of the machine. -/
def traceMessage (step : Nat) (before : Machine) : Message :=
  ⟨.trace, "T" ++ toString step ++ " IR=" ++ before.registers.ir.hex ++ " " ++
    before.tick.signals.display⟩

/-- The message about the halt, from what the machine shows afterwards. -/
def haltMessage (m : Machine) : Message :=
  ⟨.debug, "halted after " ++ toString m.ticks ++ " ticks, OUT=" ++ m.registers.out.decimal⟩

theorem isTrace_traceMessage (step : Nat) (before : Machine) :
    IsTrace (traceMessage step before) := rfl

theorem not_isTrace_haltMessage (m : Machine) : ¬ IsTrace m.haltMessage := by
  rw [IsTrace, haltMessage]
  exact Level.noConfusion

theorem isHalt_haltMessage (m : Machine) : IsHalt m.haltMessage := by
  refine ⟨rfl, ?_⟩
  rw [haltMessage]
  simp only [String.toList_append, List.append_assoc]
  exact List.prefix_append _ _

theorem not_isTrace_loaded (words : Nat) : ¬ IsTrace (Event.loaded words).message := by
  rw [IsTrace, Event.message]
  exact Level.noConfusion

theorem not_isHalt_loaded (words : Nat) : ¬ IsHalt (Event.loaded words).message := by
  rintro ⟨-, begins⟩
  rw [Event.message] at begins
  simp only [String.toList_append, List.append_assoc] at begins
  exact absurd (List.cons_prefix_cons.mp begins).1 (by decide)

/-- The text about a reset is that of no other event. -/
theorem text_message_eq_reset_iff (event : Event) :
    event.message.text = "computer reset" ↔ event = .reset := by
  constructor
  · intro same
    cases event with
    | reset => rfl
    | tick | halted | loaded =>
      -- the first letters differ
      exact absurd (congrArg (·.toList.head?) same) (by simp [Event.message])
  · rintro rfl
    rfl

/-! ## The messages of operations -/

/-- The messages of a tick tell what the machine shows before and after it. -/
theorem message_tickEvents (running : m.halted = false) :
    m.tickEvents.map Event.message = traceMessage m.step.toNat m ::
      if m.tick.halted then [haltMessage m.tick] else [] := by
  rw [tickEvents, running, halted_tick_eq running]
  show List.map Event.message (if m.asserted.contains .halt then _ else _) = _
  rw [traceMessage, haltMessage, ticks_tick running]
  have signals : m.tick.signals = m.asserted := by
    rw [tick_eq running]
    rfl
  rw [signals]
  split <;> rfl

/-- An operation that does not drive the clock resets the machine, or it works on the memory and
logs at most that a program has been loaded. -/
theorem idle_cases {operation : Operation} (idle : operation.drives = false) (m : Machine) :
    operation = .reset ∨ ∃ memory, (operation.apply m).1 = { m with memory := memory } ∧
      ∀ event ∈ operation.events m, ∃ words, event = .loaded words := by
  cases operation with
  | tick | instruction | run limit => cases idle
  | reset => exact .inl rfl
  | load words =>
    rw [Operation.apply, Operation.events, Machine.load]
    cases m.memory.load words with
    | ok memory => exact .inr ⟨memory, rfl, fun event h => ⟨_, List.mem_singleton.mp h⟩⟩
    | error error => exact .inr ⟨m.memory, rfl, fun event h => absurd h List.not_mem_nil⟩
  | write address value | clear =>
    exact .inr ⟨_, rfl, fun event h => absurd h List.not_mem_nil⟩

/-- It logs no tick and no halt. -/
theorem not_clock_of_not_drives {operation : Operation} (idle : operation.drives = false) :
    ∀ event ∈ operation.events m, ¬ IsTrace event.message ∧ ¬ IsHalt event.message := by
  intro event h
  rcases idle_cases idle m with rfl | ⟨-, -, logged⟩
  · obtain rfl := List.mem_singleton.mp h
    exact ⟨by decide, by decide⟩
  · obtain ⟨words, rfl⟩ := logged event h
    exact ⟨not_isTrace_loaded words, not_isHalt_loaded words⟩

/-- Nor does any operation once the clock has stopped. -/
theorem not_clock_of_halted (stopped : m.halted = true) (operation : Operation) :
    ∀ event ∈ operation.events m, ¬ IsTrace event.message ∧ ¬ IsHalt event.message := by
  cases drives : operation.drives with
  | true =>
    rw [events_of_drives drives, afterEvents_of_halted stopped]
    exact List.forall_mem_nil _
  | false => exact not_clock_of_not_drives drives

/-! ## The ticks of operations -/

/-- The machines before each of the next ticks that the clock makes. -/
def begins : Nat → Machine → List Machine
  | 0, _ => []
  | n + 1, m => if m.halted then [] else m :: begins n m.tick

/-- The machines before the ticks of an operation. -/
def Operation.ticked (m : Machine) (operation : Operation) : List Machine :=
  begins (operation.span m) m

/-- The machines before the ticks of a history. -/
def ticked (m : Machine) : List Operation → List Machine
  | [] => []
  | operation :: others => operation.ticked m ++ ticked (operation.apply m).1 others

theorem begins_of_halted (stopped : m.halted = true) (n : Nat) : begins n m = [] := by
  cases n with
  | zero => rfl
  | succ n => rw [begins, if_pos stopped]

theorem begins_succ (running : m.halted = false) (n : Nat) :
    begins (n + 1) m = m :: begins n m.tick := by
  rw [begins, running]
  rfl

theorem ticked_of_not_drives {operation : Operation} (idle : operation.drives = false) :
    operation.ticked m = [] := by
  cases operation with
  | tick | instruction | run limit => cases idle
  | reset | load words | write address value | clear => rfl

/-! ## Messages that tell of a machine -/

/-- What some messages tell of some ticks, each given by the machine before it, and of the machine
after them. -/
structure Tells (ticks : List Machine) (messages : List Message) (m : Machine) : Prop where
  /-- There is a message for each tick, with the step counted from the first. -/
  traces : messages.filter IsTrace = ticks.mapIdx fun j before => traceMessage (j % 8) before
  step : m.step.toNat = ticks.length % 8
  ticks : m.ticks = .ofNat ticks.length
  /-- A machine that runs has logged no halt. -/
  running : m.halted = false → ∀ message ∈ messages, ¬ IsHalt message
  /-- A machine that has halted has logged this once, right after the last of its ticks. -/
  halted : m.halted = true → ∃ early trace late,
    messages = early ++ trace :: haltMessage m :: late ∧ IsTrace trace ∧
      (∀ message ∈ late, ¬ IsTrace message) ∧ ∀ message ∈ early ++ late, ¬ IsHalt message

namespace Tells

theorem initial : Tells [] [] initial where
  traces := rfl
  step := rfl
  ticks := rfl
  running _ := by simp
  halted stopped := by cases stopped

theorem reset (m : Machine) : Tells [] [] m.reset where
  traces := rfl
  step := rfl
  ticks := rfl
  running _ := by simp
  halted stopped := by cases stopped

/-- A tick adds its message, and that of the halt if it stops the clock. -/
theorem tick (tells : Tells ticks messages m) (running : m.halted = false) :
    Tells (ticks ++ [m]) (messages ++ m.tickEvents.map Event.message) m.tick := by
  rw [message_tickEvents running]
  refine ⟨?traces, ?step, ?ticks, fun runs => ?running, fun stopped => ?halted⟩
  case traces =>
    rw [List.filter_append, tells.traces, List.mapIdx_concat, tells.step]
    congr 1
    split <;> simp [isTrace_traceMessage, not_isTrace_haltMessage]
  case step =>
    rw [step_tick running, tells.step, List.length_append, List.length_singleton]
    omega
  case ticks =>
    rw [ticks_tick running, tells.ticks, List.length_append, List.length_singleton,
      UInt64.ofNat_add]
    rfl
  case running =>
    -- the clock ran before this tick too
    rw [runs]
    simpa [List.forall_mem_append, or_imp, forall_and,
      not_isHalt_of_isTrace (isTrace_traceMessage m.step.toNat m)] using tells.running running
  case halted =>
    rw [stopped]
    refine ⟨messages, traceMessage m.step.toNat m, [], rfl, isTrace_traceMessage _ _, by simp, ?_⟩
    simpa using tells.running running

/-- The messages and the machine after a number of ticks. -/
theorem after (tells : Tells ticks messages m) (n : Nat) :
    Tells (ticks ++ begins n m) (messages ++ (afterEvents n m).map Event.message)
      (Machine.after n m) := by
  induction n generalizing ticks messages m with
  | zero => simpa [begins, afterEvents] using tells
  | succ n ih =>
    cases runs : m.halted with
    | true =>
      rw [begins_of_halted runs, afterEvents_of_halted runs, after_of_halted runs]
      simpa using tells
    | false =>
      have next := ih (tells.tick runs)
      rw [List.append_assoc, List.append_assoc, ← List.map_append] at next
      rw [begins_succ runs, afterEvents, after_succ]
      exact next

/-- Work on the memory, with messages of other kinds. -/
theorem withMemory (tells : Tells ticks messages m) (memory : Memory) {more : List Message}
    (other : ∀ message ∈ more, ¬ IsTrace message ∧ ¬ IsHalt message) :
    Tells ticks (messages ++ more) { m with memory := memory } where
  traces := by
    have none : more.filter IsTrace = [] :=
      List.filter_eq_nil_iff.mpr fun message h => by simpa using (other message h).1
    rw [List.filter_append, none, List.append_nil, tells.traces]
  step := tells.step
  ticks := tells.ticks
  running runs message h := by
    rcases List.mem_append.mp h with old | new
    · exact tells.running runs message old
    · exact (other message new).2
  halted stopped := by
    obtain ⟨early, trace, late, rfl, isTrace, after, once⟩ := tells.halted stopped
    -- the halt was logged earlier, and the new messages come after it
    refine ⟨early, trace, late ++ more, by simp [haltMessage], isTrace, fun message h => ?_,
      fun message h => ?_⟩
    · rcases List.mem_append.mp h with old | new
      · exact after message old
      · exact (other message new).1
    · rw [← List.append_assoc] at h
      rcases List.mem_append.mp h with old | new
      · exact once message old
      · exact (other message new).2

/-- Every operation but a reset. -/
theorem apply (tells : Tells ticks messages m) {operation : Operation}
    (kept : operation ≠ .reset) :
    Tells (ticks ++ operation.ticked m) (messages ++ (operation.events m).map Event.message)
      (operation.apply m).1 := by
  cases drives : operation.drives with
  | true =>
    rw [events_of_drives drives, apply_of_drives drives]
    exact tells.after (operation.span m)
  | false =>
    obtain ⟨memory, result, -⟩ := (idle_cases drives m).resolve_left kept
    rw [ticked_of_not_drives drives, List.append_nil, result]
    refine tells.withMemory memory ?_
    rw [List.forall_mem_map]
    exact not_clock_of_not_drives drives

/-- Histories without a reset. -/
theorem perform (tells : Tells ticks messages m) {operations : List Operation}
    (kept : ∀ operation ∈ operations, operation ≠ .reset) :
    Tells (ticks ++ m.ticked operations) (messages ++ (m.log operations).map Event.message)
      (m.perform operations).1 := by
  induction operations generalizing ticks messages m with
  | nil => simpa [ticked, log, Machine.perform] using tells
  | cons operation others ih =>
    have first := tells.apply (kept operation List.mem_cons_self)
    have rest := ih first fun later h => kept later (List.mem_cons_of_mem _ h)
    rw [List.append_assoc, List.append_assoc, ← List.map_append] at rest
    rw [ticked, log_cons, perform_cons]
    exact rest

end Tells

/-! ## Since the last reset -/

/-- The operations of a history up to its last reset. -/
def upToReset (operations : List Operation) : List Operation :=
  operations.rdropWhile (· ≠ .reset)

/-- The operations of a history after its last reset. -/
def sinceReset (operations : List Operation) : List Operation :=
  operations.rtakeWhile (· ≠ .reset)

/-- The machines before the ticks of a history on a new machine, from its last reset on. -/
def ticksSinceReset (operations : List Operation) : List Machine :=
  (initial.perform (upToReset operations)).1.ticked (sinceReset operations)

/-- The messages of a history on a new machine, from the last that tells of a reset on. -/
def messagesSinceReset (operations : List Operation) : List Message :=
  ((initial.log operations).map Event.message).rtakeWhile (·.text ≠ "computer reset")

theorem reset_notMem_afterEvents (n : Nat) (m : Machine) : .reset ∉ afterEvents n m := by
  induction n generalizing m with
  | zero => exact List.not_mem_nil
  | succ n ih =>
    have here : .reset ∉ m.tickEvents := by
      unfold tickEvents
      split
      · exact List.not_mem_nil
      · dsimp only
        split <;> simp
    rw [afterEvents, List.mem_append]
    exact not_or.mpr ⟨here, ih m.tick⟩

/-- Only a reset logs a reset. -/
theorem reset_notMem_events {operation : Operation} (kept : operation ≠ .reset) :
    .reset ∉ operation.events m := by
  cases drives : operation.drives with
  | true =>
    rw [events_of_drives drives]
    exact reset_notMem_afterEvents _ m
  | false =>
    intro h
    obtain ⟨-, -, logged⟩ := (idle_cases drives m).resolve_left kept
    obtain ⟨words, ⟨⟩⟩ := logged .reset h

theorem reset_notMem_log {operations : List Operation}
    (kept : ∀ operation ∈ operations, operation ≠ .reset) : .reset ∉ m.log operations := by
  induction operations generalizing m with
  | nil => exact List.not_mem_nil
  | cons operation others ih =>
    rw [log_cons, List.mem_append]
    exact not_or.mpr ⟨reset_notMem_events (kept operation List.mem_cons_self),
      ih fun later h => kept later (List.mem_cons_of_mem _ h)⟩

theorem upToReset_append_sinceReset (operations : List Operation) :
    upToReset operations ++ sinceReset operations = operations :=
  List.rdropWhile_append_rtakeWhile

theorem ne_reset_of_mem_sinceReset (operations : List Operation) :
    ∀ operation ∈ sinceReset operations, operation ≠ .reset := fun operation h => by
  simpa using List.mem_rtakeWhile_imp h

/-- A history up to its last reset is empty, or it ends with the reset. -/
theorem upToReset_eq (operations : List Operation) :
    upToReset operations = [] ∨ ∃ early, upToReset operations = early ++ [.reset] := by
  by_cases none : upToReset operations = []
  · exact .inl none
  · have last : ¬ decide ((upToReset operations).getLast none ≠ .reset) = true :=
      List.rdropWhile_last_not _ _ none
    rw [decide_eq_true_iff, not_not] at last
    refine .inr ⟨(upToReset operations).dropLast, ?_⟩
    rw [← last]
    exact (List.dropLast_append_getLast none).symm

/-- The elements with a property at the end of a list go on through a last part of such elements. -/
theorem rtakeWhile_append {α : Type} {p : α → Bool} {early late : List α}
    (all : ∀ a ∈ late, p a = true) :
    (early ++ late).rtakeWhile p = early.rtakeWhile p ++ late := by
  rw [List.rtakeWhile, List.reverse_append, List.takeWhile_append_of_pos (by simpa using all),
    List.reverse_append, List.reverse_reverse, List.rtakeWhile]

/-- The messages since the last reset are those of the operations since then. -/
theorem messagesSinceReset_eq (operations : List Operation) :
    messagesSinceReset operations =
      ((initial.perform (upToReset operations)).1.log (sinceReset operations)).map
        Event.message := by
  have later : ∀ message ∈ ((initial.perform (upToReset operations)).1.log
      (sinceReset operations)).map Event.message,
      decide (message.text ≠ "computer reset") = true := by
    rw [List.forall_mem_map]
    intro event h
    rw [decide_eq_true_iff, ne_eq, text_message_eq_reset_iff]
    rintro rfl
    exact reset_notMem_log (ne_reset_of_mem_sinceReset operations) h
  have before : ((initial.log (upToReset operations)).map Event.message).rtakeWhile
      (·.text ≠ "computer reset") = [] := by
    rcases upToReset_eq operations with none | ⟨early, ends⟩
    · rw [none]
      rfl
    · rw [ends, log_append, List.map_append]
      exact List.rtakeWhile_concat_neg _ _ _ (by decide)
  -- the messages go back to the reset, and stop there
  rw [messagesSinceReset]
  nth_rewrite 1 [← upToReset_append_sinceReset operations]
  rw [log_append, List.map_append, rtakeWhile_append later, before, List.nil_append]

/-- After its last reset, and before its first tick, a machine has nothing to tell. -/
theorem tells_upToReset (operations : List Operation) :
    Tells [] [] (initial.perform (upToReset operations)).1 := by
  rcases upToReset_eq operations with none | ⟨early, ends⟩
  · rw [none]
    exact Tells.initial
  · rw [ends, perform_append]
    exact Tells.reset _

theorem tells_sinceReset (operations : List Operation) :
    Tells (ticksSinceReset operations) (messagesSinceReset operations)
      (initial.perform operations).1 := by
  have tells := (tells_upToReset operations).perform (ne_reset_of_mem_sinceReset operations)
  rwa [← messagesSinceReset_eq, ← perform_append, upToReset_append_sinceReset] at tells

/-! ## The main result -/

/-- **The log tells the run faithfully.** Work a new machine by any history of operations in which
fewer than `2 ^ 64` ticks follow the last reset, and take the messages since the last that tells of
a reset. Then there are as many messages about ticks as the tick counter shows. The message about
the tick at index `j` shows the step `j % 8`, the opcode nibble that the machine held before this
tick, and the lines that the tick asserted. While the clock runs there is no message about a halt.
Once it has stopped there is one, which comes right after the last message about a tick and shows
the tick counter and the output register of the machine as they are at the end. The operations on a
machine that has halted log neither a tick nor a halt. -/
theorem messages_faithful (operations : List Operation)
    (room : (ticksSinceReset operations).length < 2 ^ 64) :
    let final := (initial.perform operations).1
    let ticks := ticksSinceReset operations
    let messages := messagesSinceReset operations
    (final.ticks.toNat = ticks.length ∧
        (messages.filter IsTrace).length = final.ticks.toNat ∧
        messages.filter IsTrace = ticks.mapIdx fun j before => traceMessage (j % 8) before) ∧
      (final.halted = false → ∀ message ∈ messages, ¬ IsHalt message) ∧
      (final.halted = true → ∃ early trace late,
        messages = early ++ trace :: haltMessage final :: late ∧
          IsTrace trace ∧ (∀ message ∈ late, ¬ IsTrace message) ∧
          IsHalt (haltMessage final) ∧ ∀ message ∈ early ++ late, ¬ IsHalt message) ∧
      ∀ stopped : Machine, stopped.halted = true → ∀ operation : Operation,
        ∀ event ∈ operation.events stopped, ¬ IsTrace event.message ∧ ¬ IsHalt event.message := by
  intro final ticks messages
  have tells : Tells ticks messages final := tells_sinceReset operations
  have count : final.ticks.toNat = ticks.length := by
    rw [tells.ticks, UInt64.toNat_ofNat_of_lt' room]
  refine ⟨⟨count, ?_, tells.traces⟩, tells.running, fun stopped => ?_,
    fun _ => not_clock_of_halted⟩
  · rw [tells.traces, List.length_mapIdx, count]
  · obtain ⟨early, trace, late, split, isTrace, last, once⟩ := tells.halted stopped
    exact ⟨early, trace, late, split, isTrace, last, isHalt_haltMessage final, once⟩

/-- A history with a reset in the middle of an instruction, and with a program that runs to its halt
and is replaced afterwards. -/
theorem messages_faithful_after_reset :
    let operations : List Operation :=
      [.load [5, 7, 14, 15], .run 9, .write 1 9, .reset, .run 3, .instruction, .write 7 1, .run 50,
        .load [1], .tick]
    let messages := messagesSinceReset operations
    (ticksSinceReset operations).length < 2 ^ 64 ∧
      (initial.perform operations).1.halted = true ∧
      (messages.filter IsTrace).length = 20 ∧
      ⟨.debug, "halted after 20 ticks, OUT=9"⟩ ∈ messages := by
  intro operations messages
  have room : (ticksSinceReset operations).length < 2 ^ 64 := by decide +kernel
  have stopped : (initial.perform operations).1.halted = true := by decide +kernel
  have count : (initial.perform operations).1.ticks = 20 := by decide +kernel
  have shown : (initial.perform operations).1.registers.out = 9 := by decide +kernel
  obtain ⟨⟨-, traces, -⟩, -, halted, -⟩ := messages_faithful operations room
  obtain ⟨early, trace, late, split, -⟩ := halted stopped
  refine ⟨room, stopped, by rw [traces, count]; rfl, ?_⟩
  have logged : (initial.perform operations).1.haltMessage ∈ messages := by
    show _ ∈ messagesSinceReset operations
    rw [split]
    exact List.mem_append_right early (List.mem_cons_of_mem _ List.mem_cons_self)
  have text : "halted after " ++ toString (20 : UInt64) ++ " ticks, OUT=" ++ (9 : Nibble).decimal =
      "halted after 20 ticks, OUT=9" := by decide +kernel
  rwa [haltMessage, count, shown, text] at logged

end Machine

end NibbleComputer
