import Chip8.Proofs.Course
import Chip8.Scheduler.Budget

/-!
# Loaded memory

Memory shows what has been loaded since the machine was switched on last and nothing
else: at each address the byte of the latest load that reaches it, and zero where no load
does. A load is refused exactly when it does not fit. Instructions read memory and never
write it, and so does everything else that is not a load.
-/

namespace Chip8

/-- A program with the address from which on it is loaded. -/
structure Load where
  /-- Where the first byte goes. -/
  origin : UInt16
  /-- The bytes, in order. -/
  program : List UInt8
  deriving DecidableEq, Repr

namespace Load

/-- The bytes have room in memory. -/
def Fits (l : Load) : Prop := l.origin.toNat + l.program.length ≤ memorySize

/-- The byte that the load puts at an address, if it reaches it. -/
def byte? (l : Load) (address : Nat) : Option UInt8 :=
  if l.origin.toNat ≤ address then l.program[address - l.origin.toNat]? else none

/-- A load reaches the addresses of its bytes. -/
theorem byte?_of_reached (l : Load) {i : Nat} (hi : i < l.program.length) :
    l.byte? (l.origin.toNat + i) = some l.program[i] := by
  have hs : l.origin.toNat + i - l.origin.toNat = i := Nat.add_sub_cancel_left _ _
  rw [byte?, if_pos (Nat.le_add_right _ _), hs, List.getElem?_eq_getElem hi]

/-- A load does not reach the addresses before its first byte and behind its last one. -/
theorem byte?_of_missed (l : Load) {a : Nat}
    (ha : a < l.origin.toNat ∨ l.origin.toNat + l.program.length ≤ a) : l.byte? a = none := by
  rw [byte?]
  split
  · have hi : l.program.length ≤ a - l.origin.toNat := by omega
    exact List.getElem?_eq_none hi
  · rfl

/-- The byte of the latest load that reaches an address, or zero. -/
def shown (loads : List Load) (address : Nat) : UInt8 :=
  (loads.reverse.findSome? fun l => l.byte? address).getD 0

/-- One more load shows its own bytes where it reaches. -/
theorem shown_concat (loads : List Load) (l : Load) (address : Nat) :
    shown (loads ++ [l]) address = (l.byte? address).getD (shown loads address) := by
  rw [shown, List.reverse_concat, List.findSome?_cons]
  cases l.byte? address with
  | none => rfl
  | some byte => rfl

end Load

namespace Memory

/-- Memory with a load in it. -/
def receive (memory : Memory) (l : Load) : Memory :=
  memory.overlay l.origin.toNat l.program

/-- Zeros with some loads over them, one after the other. -/
def ofLoads (loads : List Load) : Memory := loads.foldl receive zero

/-- A load puts its bytes where it reaches and leaves all others. -/
theorem getElem_receive (memory : Memory) (l : Load) {a : Nat} (ha : a < memorySize) :
    (memory.receive l)[a] = (l.byte? a).getD memory[a] := by
  have ho := getElem_overlay memory l.origin.toNat l.program a ha
  rw [receive, ho, Load.byte?]
  split
  · rfl
  · rfl

/-- One more load is received by what the earlier ones left. -/
theorem ofLoads_concat (loads : List Load) (l : Load) :
    ofLoads (loads ++ [l]) = (ofLoads loads).receive l := by
  rw [ofLoads, List.foldl_append]
  rfl

/-- After some loads every address shows the byte of the latest one that reaches it. -/
theorem getElem_ofLoads (loads : List Load) {a : Nat} (ha : a < memorySize) :
    (ofLoads loads)[a] = Load.shown loads a := by
  induction loads using List.reverseRecOn with
  | nil =>
    have hz : zero[a] = 0 := Vector.getElem_replicate ha
    exact hz
  | append_singleton loads l ih =>
    have hr := getElem_receive (ofLoads loads) l ha
    rw [Load.shown_concat, ← ih, ← hr, ofLoads_concat]

end Memory

namespace Machine

variable {m n : Machine} {loads : List Load}

/-- Memory holds some loads, one over the other, and the recorded length is that of the
latest one. -/
structure Shows (m : Machine) (loads : List Load) : Prop where
  /-- Memory is zero but for the loads. -/
  memory : m.memory = .ofLoads loads
  /-- The length is that of the latest load, or zero. -/
  length : m.programLength = (loads.getLast?.map fun l => l.program.length).getD 0

/-- A machine that is switched on shows no load. -/
theorem shows_initial : initial.Shows [] := ⟨rfl, rfl⟩

/-- What leaves memory and the recorded length alone shows the same loads. -/
theorem Shows.of_eq (h : m.Shows loads) (hm : n.memory = m.memory)
    (hl : n.programLength = m.programLength) : n.Shows loads :=
  ⟨hm.trans h.memory, hl.trans h.length⟩

/-- A machine with a load in it. -/
def receive (m : Machine) (l : Load) : Machine :=
  { m with memory := m.memory.receive l, programLength := l.program.length }

/-- A load that fits is received. -/
theorem load_of_fits {l : Load} (h : l.Fits) : m.load l.program l.origin = .ok (m.receive l) :=
  if_pos h

/-- A load that does not fit is refused. -/
theorem load_of_not_fits {l : Load} (h : ¬l.Fits) :
    m.load l.program l.origin = .error (.programTooLarge l.origin l.program.length) :=
  if_neg h

/-- A load that is received is shown over the earlier ones. -/
theorem Shows.receive (h : m.Shows loads) (l : Load) : (m.receive l).Shows (loads ++ [l]) where
  memory := by
    rw [Memory.ofLoads_concat, ← h.memory]
    rfl
  length := by
    rw [List.getLast?_concat]
    rfl

/-- No effect of an instruction reaches memory or the recorded length. -/
theorem Effect.loaded_eq {instruction : Instruction} (h : Effect m instruction n) :
    n.memory = m.memory ∧ n.programLength = m.programLength := by
  cases h with
  | _ => exact ⟨rfl, rfl⟩

end Machine

namespace Engine

variable {e : Engine} {l : Load}

/-- No step reaches memory or the recorded length, whether it retires or fails. -/
theorem loaded_step (e : Engine) : e.step.engine.machine.memory = e.machine.memory ∧
    e.step.engine.machine.programLength = e.machine.programLength := by
  cases hf : e.fault? with
  | none => exact (effect_of_retires hf).loaded_eq
  | some error =>
    rw [machine_of_fails hf]
    exact ⟨rfl, rfl⟩

/-- No number of steps reaches memory or the recorded length. -/
theorem loaded_after (e : Engine) (n : Nat) : (e.after n).machine.memory = e.machine.memory ∧
    (e.after n).machine.programLength = e.machine.programLength := by
  induction n with
  | zero => exact ⟨rfl, rfl⟩
  | succ n ih =>
    obtain ⟨hm, hl⟩ := (e.after n).loaded_step
    exact ⟨hm.trans ih.1, hl.trans ih.2⟩

/-- An engine with a load in its machine. -/
def receive (e : Engine) (l : Load) : Engine := e.withMachine (e.machine.receive l)

/-- A load that fits is received and logged. -/
theorem load_of_fits (h : l.Fits) : e.load l.program l.origin =
    ⟨e.receive l, [.event (.programLoaded l.origin l.program.length)], .ok ()⟩ := by
  rw [load, Machine.load_of_fits h]
  rfl

/-- A load that does not fit is refused, and nothing happens. -/
theorem load_of_not_fits (h : ¬l.Fits) : e.load l.program l.origin =
    ⟨e, [], .error (.programTooLarge l.origin l.program.length)⟩ := by
  rw [load, Machine.load_of_not_fits h]

/-- A run switches the machine off and on again, loads the program at the origin and, if
it fits there, is in progress. -/
theorem run_eq (e : Engine) (program : List UInt8) (ticket : Ticket) : e.run program ticket =
    match Machine.initial.load program programOrigin with
    | .ok m =>
      ⟨{ e.cleared.withMachine m with lifecycle := .running, completion := some ticket },
        [.event .engineReset, .event (.programLoaded programOrigin program.length),
          .event (.runStarted program.length)], .ok ()⟩
    | .error error => ⟨e.cleared, [.event .engineReset], .error error⟩ := by
  have hm : e.cleared.machine = Machine.initial := rfl
  rw [run, load, hm]
  cases Machine.initial.load program programOrigin with
  | ok m => rfl
  | error error => rfl

/-- A run of a program that fits starts with the program loaded into a machine that has
just been switched on. -/
theorem machine_run_of_fits {program : List UInt8} (h : Load.Fits ⟨programOrigin, program⟩)
    (ticket : Ticket) : (e.run program ticket).value = .ok () ∧
      (e.run program ticket).engine.machine =
        Machine.initial.receive ⟨programOrigin, program⟩ := by
  have hl := Machine.load_of_fits (m := .initial) h
  rw [run_eq, hl]
  exact ⟨rfl, rfl⟩

/-- A run of a program that does not fit leaves a machine that has just been switched
on. -/
theorem machine_run_of_not_fits {program : List UInt8}
    (h : ¬Load.Fits ⟨programOrigin, program⟩) (ticket : Ticket) :
    (e.run program ticket).value = .error (.programTooLarge programOrigin program.length) ∧
      (e.run program ticket).engine.machine = .initial := by
  have hl := Machine.load_of_not_fits (m := .initial) h
  rw [run_eq, hl]
  exact ⟨rfl, rfl⟩

/-- A resumption reaches neither memory nor the recorded length. -/
theorem Resumption.loaded_eq {reply : Reply (Except EngineError RunExit)}
    (h : e.Resumption reply) : reply.engine.machine.memory = e.machine.memory ∧
      reply.engine.machine.programLength = e.machine.programLength := by
  cases h with
  | idle hr => exact ⟨rfl, rfl⟩
  | @yielded n reason hr hc hp => exact e.loaded_after n
  | @halted n hr hc hp => exact e.loaded_after n
  | @aborted n error hr hc hp hf => exact e.loaded_after (n + 1)

end Engine

namespace Event

/-- The loads since the machine was switched on last, once an operation has followed
earlier ones. A run is a reset and a load at the origin; a load that is refused does not
count. -/
def loads (earlier : List Load) (v : Event) : List Load :=
  match v.operation, v.reply.value with
  | .load program origin, .ok _ => earlier ++ [⟨origin, program⟩]
  | .run program _, .ok _ => [⟨programOrigin, program⟩]
  | .run _ _, .error _ => []
  | .reset, _ => []
  | _, _ => earlier

end Event

/-- The loads since the machine was switched on last in some operations, the latest one
last. -/
def loadsOf (events : List Event) : List Load := events.foldl Event.loads []

/-- After an operation the machine shows the loads that it showed before, followed by
the operation. -/
theorem Performs.shows {e : Engine} {operation : Operation}
    {reply : Reply (Except EngineError Answer)} {loads : List Load}
    (hp : Performs e operation reply) (h : e.machine.Shows loads) :
    reply.engine.machine.Shows (Event.loads loads ⟨e, operation, reply⟩) := by
  cases operation with
  | resume hooks s =>
    obtain ⟨r, hr, he⟩ := hp.resumption trivial
    rw [he]
    exact h.of_eq hr.loaded_eq.1 hr.loaded_eq.2
  | step =>
    obtain ⟨limit, hp⟩ := hp
    cases hp
    exact h.of_eq e.loaded_step.1 e.loaded_step.2
  | reset =>
    obtain ⟨limit, hp⟩ := hp
    cases hp
    exact Machine.shows_initial
  | load program origin =>
    obtain ⟨limit, hp⟩ := hp
    cases hp
    by_cases hf : Load.Fits ⟨origin, program⟩
    · have hl := Engine.load_of_fits (e := e) hf
      rw [hl]
      exact h.receive ⟨origin, program⟩
    · have hl := Engine.load_of_not_fits (e := e) hf
      rw [hl]
      exact h
  | run program ticket =>
    obtain ⟨limit, hp⟩ := hp
    cases hp
    by_cases hf : Load.Fits ⟨programOrigin, program⟩
    · obtain ⟨hv, hm⟩ := Engine.machine_run_of_fits (e := e) hf ticket
      have hs := Machine.shows_initial.receive ⟨programOrigin, program⟩
      simp only [Event.loads, Reply.answer, hv, hm]
      exact hs
    · obtain ⟨hv, hm⟩ := Engine.machine_run_of_not_fits (e := e) hf ticket
      simp only [Event.loads, Reply.answer, hv, hm]
      exact Machine.shows_initial

/-- After a history the machine shows the loads of its operations. -/
theorem History.shows {e f : Engine} {events : List Event} (h : History e events f)
    (he : e.machine.Shows []) : f.machine.Shows (loadsOf events) := by
  induction h with
  | nil => exact he
  | @snoc events v h hp ih =>
    have hv := hp.shows ih
    rw [loadsOf, List.foldl_append]
    exact hv

/-- An instruction of an operation is tried on what the operation found after some
steps. -/
theorem Event.eq_after_of_tried {v : Event} {g : Engine} (hg : .tried g ∈ v.moments) :
    ∃ k, g = v.before.after k := by
  have ht : .tried g ∈ v.tried.map Moment.tried → ∃ k, g = v.before.after k := by
    intro hm
    obtain ⟨t, ht, he⟩ := List.mem_map.mp hm
    cases he
    obtain ⟨k, _, hk⟩ := List.mem_map.mp ht
    exact ⟨k, hk.symm⟩
  unfold moments at hg
  split at hg
  · simp at hg
  · simp at hg
  · exact ht hg

/-- The operations of a course are a history. -/
theorem Course.history {e f : Engine} {events : List Event} {moments : List Moment}
    (h : Course e events moments f) : ∃ last, History e events last := by
  cases h with
  | between h => exact ⟨f, h⟩
  | within h hr hp => exact ⟨_, h⟩

/-- When an instruction of an operation is tried, the machine shows the loads of the
operations before it. -/
theorem History.shows_of_tried {e f g : Engine} {earlier later : List Event} {v : Event}
    (h : History e (earlier ++ v :: later) f) (he : e.machine.Shows [])
    (hg : .tried g ∈ v.moments) : g.machine.Shows (loadsOf earlier) := by
  have hb : v.before.machine.Shows (loadsOf earlier) := h.split_at.1.shows he
  obtain ⟨k, hk⟩ := v.eq_after_of_tried hg
  obtain ⟨hm, hl⟩ := v.before.loaded_after k
  rw [hk]
  exact hb.of_eq hm hl

/-- At every moment of a course the machine shows the loads of its operations. -/
theorem Course.shows {e f : Engine} {events : List Event} {moments : List Moment}
    (h : Course e events moments f) (he : e.machine.Shows []) :
    f.machine.Shows (loadsOf events) := by
  cases h with
  | between h => exact h.shows he
  | @within f σ hooks s p h hr hp =>
    have hf := (Progress.follows_start f s).reaches hp
    obtain ⟨hm, hl⟩ := f.loaded_after p.executed
    rw [hf.engine]
    exact (h.shows he).of_eq hm hl

/-- What can and cannot write the memory of an engine. -/
structure Engine.WrittenByLoads (e : Engine) : Prop where
  /-- No instruction does, whether it retires or fails. -/
  kept : e.step.engine.machine.memory = e.machine.memory ∧
    e.step.engine.machine.programLength = e.machine.programLength
  /-- A load is accepted exactly when it fits. -/
  accepted : ∀ l : Load, (e.load l.program l.origin).value = .ok () ↔
    l.origin.toNat + l.program.length ≤ memorySize
  /-- A load that fits writes its bytes from its origin on, records its length and leaves
  everything else of the engine as it was. -/
  written : ∀ l : Load, l.origin.toNat + l.program.length ≤ memorySize → ∃ memory : Memory,
    (e.load l.program l.origin).engine = e.withMachine
      { e.machine with memory := memory, programLength := l.program.length } ∧
    (∀ (i : Nat) (hi : i < l.program.length) (ha : l.origin.toNat + i < memorySize),
      memory[l.origin.toNat + i] = l.program[i]) ∧
    ∀ (a : Nat) (ha : a < memorySize), a < l.origin.toNat ∨
      l.origin.toNat + l.program.length ≤ a → memory[a] = e.machine.memory[a]
  /-- A load that does not fit is refused, and nothing happens. -/
  refused : ∀ l : Load, ¬l.origin.toNat + l.program.length ≤ memorySize →
    e.load l.program l.origin =
      ⟨e, [], .error (.programTooLarge l.origin l.program.length)⟩
  /-- A run is a reset and a load at the origin. -/
  run : ∀ program ticket,
    (e.run program ticket).value = (e.reset.engine.load program programOrigin).value ∧
    (e.run program ticket).engine.machine =
      (e.reset.engine.load program programOrigin).engine.machine

/-- Loads write the memory of every engine, and nothing else does. -/
theorem Engine.writtenByLoads (e : Engine) : e.WrittenByLoads where
  kept := e.loaded_step
  accepted := by
    intro l
    by_cases hf : l.Fits
    · rw [load_of_fits hf]
      constructor
      · intro _
        exact hf
      · intro _
        rfl
    · rw [load_of_not_fits hf]
      constructor
      · intro hv
        cases hv
      · intro hl
        exact absurd hl hf
  written := by
    intro l hf
    refine ⟨e.machine.memory.receive l, ?_, ?_, ?_⟩
    · rw [load_of_fits hf]
      rfl
    · intro i hi ha
      have hr := Memory.getElem_receive e.machine.memory l ha
      rw [hr, l.byte?_of_reached hi]
      rfl
    · intro a ha hm
      have hr := Memory.getElem_receive e.machine.memory l ha
      rw [hr, l.byte?_of_missed hm]
      rfl
  refused := by
    intro l hf
    exact load_of_not_fits hf
  run := by
    intro program ticket
    show _ = (e.cleared.load program programOrigin).value ∧
      _ = (e.cleared.load program programOrigin).engine.machine
    by_cases hf : Load.Fits ⟨programOrigin, program⟩
    · obtain ⟨hv, hm⟩ := machine_run_of_fits (e := e) hf ticket
      have hl := load_of_fits (e := e.cleared) hf
      rw [hl]
      exact ⟨hv, hm⟩
    · obtain ⟨hv, hm⟩ := machine_run_of_not_fits (e := e) hf ticket
      have hl := load_of_not_fits (e := e.cleared) hf
      rw [hl]
      exact ⟨hv, hm⟩

/-- At every moment of every history of a new engine, and whatever the schedulers, memory
is zero but for the loads since the machine was switched on last, one over the other, and
the recorded length is that of the latest one. Only loads write memory. -/
theorem memory_shows_loads {config : Config} {key : Random.Key} {events : List Event}
    {moments : List Moment} {f : Engine} (h : Course (.new config key) events moments f) :
    f.machine.Shows (loadsOf events) ∧
    (∀ (a : Nat) (ha : a < memorySize),
      f.machine.memory[a] = Load.shown (loadsOf events) a) ∧
    (∀ earlier v later, events = earlier ++ v :: later → ∀ g, .tried g ∈ v.moments →
      g.machine.Shows (loadsOf earlier)) ∧
    ∀ e : Engine, e.WrittenByLoads := by
  have hs : f.machine.Shows (loadsOf events) := h.shows Machine.shows_initial
  refine ⟨hs, ?_, ?_, Engine.writtenByLoads⟩
  · intro a ha
    have hb := Memory.getElem_ofLoads (loadsOf events) ha
    rw [← hb, ← hs.memory]
  · intro earlier v later he g hg
    obtain ⟨last, hl⟩ := h.history
    rw [he] at hl
    exact hl.shows_of_tried Machine.shows_initial hg

/-- A run is cut up, loads overlap its program and each other, and one does not fit: what
memory shows in the end is told by the loads alone. -/
theorem memory_shows_loads_of_overlap :
    ∃ (events : List Event) (f : Engine),
      Course (.new .standard (Vector.replicate 8 0)) events (events.flatMap Event.moments) f ∧
      loadsOf events = [⟨0x200, [0x60, 0x05, 0x12, 0x00]⟩, ⟨0x203, [0x02, 0xAA]⟩, ⟨0x204, [0xBB]⟩] ∧
      f.machine.v.get 0 = 5 ∧ f.machine.Shows (loadsOf events) ∧
      (∀ (a : Nat) (ha : a < memorySize),
        f.machine.memory[a] = Load.shown (loadsOf events) a) ∧
      (Load.shown (loadsOf events) 0x202, Load.shown (loadsOf events) 0x203,
        Load.shown (loadsOf events) 0x204, Load.shown (loadsOf events) 0x205) =
          (0x12, 0x02, 0xBB, 0x00) := by
  let operations : List Operation :=
    [.load [0xFF] 0x300, .run [0x60, 0x05, 0x12, 0x00] 7, .resume Budget.scheduler (.new 3),
      .load [0x02, 0xAA] 0x203, .load [0x01, 0x02] 0xFFF, .step, .load [0xBB] 0x204]
  have hx : (History.replay 4 (.new .standard (Vector.replicate 8 0)) operations).map
      (fun x => (loadsOf x.1, x.2.machine.v.get 0)) =
        some ([⟨0x200, [0x60, 0x05, 0x12, 0x00]⟩, ⟨0x203, [0x02, 0xAA]⟩, ⟨0x204, [0xBB]⟩], 5) := by
    decide +kernel
  obtain ⟨⟨events, f⟩, hr, hy⟩ := Option.map_eq_some_iff.mp hx
  obtain ⟨hl, hv⟩ := Prod.mk.inj hy
  have hc := Course.between (History.of_replay hr)
  obtain ⟨hs, hb, _⟩ := memory_shows_loads hc
  have hn : (Load.shown (loadsOf events) 0x202, Load.shown (loadsOf events) 0x203,
      Load.shown (loadsOf events) 0x204, Load.shown (loadsOf events) 0x205) =
        (0x12, 0x02, 0xBB, 0x00) := by
    have he : loadsOf events = _ := hl
    rw [he]
    decide
  exact ⟨events, f, hc, hl, hv, hs, hb, hn⟩

end Chip8
