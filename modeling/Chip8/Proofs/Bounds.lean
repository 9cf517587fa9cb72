import Chip8.Proofs.Course
import Chip8.Scheduler.Budget

/-!
# Bounds of the machine

Every slot of the call stack, live or stale, and the address register hold addresses
inside memory, although steps may lead the program counter out of it: no word that is
fetched out there is a call. From this it follows how far a return, a jump with an
offset and a sprite can reach, and, while no step is made, the program counter.
-/

namespace Chip8

namespace Machine

variable {m n : Machine}

/-- The slots of the call stack and the address register hold addresses inside memory. -/
structure Bounded (m : Machine) : Prop where
  /-- Every slot of the call stack does, live or stale. -/
  slot : ∀ (j : Nat) (hj : j < 16), m.calls.slots[j].toNat < memorySize
  /-- The address register does. -/
  index : m.i.toNat < memorySize

/-- A machine that is switched on is within the bounds. -/
theorem bounded_initial : initial.Bounded where
  slot := by
    intro j hj
    have hz : initial.calls.slots[j] = 0 := Vector.getElem_replicate hj
    rw [hz]
    decide
  index := by decide

/-- Loads leave the bounds alone. -/
theorem Bounded.load {program : List UInt8} {origin : UInt16} (h : m.Bounded)
    (hl : m.load program origin = .ok n) : n.Bounded := by
  obtain ⟨memory, length, hn⟩ := eq_of_load hl
  rw [hn]
  exact ⟨h.slot, h.index⟩

/-- The addresses that the bytes of a sprite are read from. -/
def spriteAddresses (m : Machine) (rows : Nat) : List Nat :=
  (List.range rows).map fun row => m.i.toNat + row

/-- A sprite consists of the bytes at its addresses. -/
theorem sprite_eq (m : Machine) (rows : Nat) :
    m.sprite rows = (m.spriteAddresses rows).map m.byteAt := by
  rw [spriteAddresses, List.map_map]
  rfl

/-- No sprite reaches farther than fourteen bytes past the end of memory. -/
theorem Bounded.spriteAddress_le (h : m.Bounded) (rows : Fin 16) {address : Nat}
    (ha : address ∈ m.spriteAddresses rows.val) : address ≤ 0x100D := by
  obtain ⟨row, hr, he⟩ := List.mem_map.mp ha
  have hi : m.i.toNat < 4096 := h.index
  have hn : row < rows.val := List.mem_range.mp hr
  have hl : rows.val < 16 := rows.isLt
  omega

/-- An address inside memory that a byte is added to does not wrap. -/
theorem toNat_add_byte {address : UInt16} (ha : address.toNat < memorySize) (byte : UInt8) :
    (address + byte.toUInt16).toNat = address.toNat + byte.toNat ∧
      address.toNat + byte.toNat ≤ 0x10FE := by
  have hm : address.toNat < 4096 := ha
  have hb : byte.toNat < 256 := byte.toNat_lt
  have hs : (address + byte.toUInt16).toNat = (address.toNat + byte.toNat) % 65536 := by
    rw [UInt16.toNat_add, UInt8.toNat_toUInt16]
  omega

/-- The address behind one inside memory does not wrap. -/
theorem toNat_add_length {address length : UInt16} (ha : address.toNat < memorySize)
    (hl : length = 2 ∨ length = 4) :
    (address + length).toNat = address.toNat + length.toNat ∧
      (address + length).toNat ≤ 0x10FE := by
  have hm : address.toNat < 4096 := ha
  have hn : length.toNat ≤ 4 := by
    rcases hl with hl | hl
    · rw [hl]
      decide
    · rw [hl]
      decide
  have hs : (address + length).toNat = (address.toNat + length.toNat) % 65536 :=
    UInt16.toNat_add address length
  omega

/-- The address that a return takes lies inside memory. -/
theorem Bounded.popped (h : m.Bounded) {address : UInt16} {calls : CallStack}
    (hp : m.calls.pop? = some (address, calls)) : address.toNat < memorySize := by
  obtain ⟨hd, ha⟩ := Vector.getElem?_eq_some_iff.mp (CallStack.slots_pop? hp).2.2
  rw [← ha]
  exact h.slot calls.depth hd

/-- A call that is made inside memory leaves addresses inside memory. -/
theorem Bounded.pushed (h : m.Bounded) {address : UInt16} (ha : address.toNat < memorySize)
    {calls : CallStack} (hp : m.calls.push? address = some calls) :
    ∀ (j : Nat) (hj : j < 16), calls.slots[j].toNat < memorySize := by
  intro j hj
  have hs := (CallStack.slots_push? hp).2 j
  rw [Vector.getElem?_eq_getElem hj] at hs
  split at hs
  · rw [Option.some.inj hs]
    exact ha
  · rw [Vector.getElem?_eq_getElem hj] at hs
    rw [Option.some.inj hs]
    exact h.slot j hj

/-- An instruction keeps the bounds if it names addresses inside memory and is no call
from outside memory. -/
theorem Bounded.effect {instruction : Instruction} (h : m.Bounded)
    (he : Effect m instruction n)
    (ht : ∀ target, instruction.target? = some target → target.toNat < memorySize)
    (hc : instruction.isCall = true → m.pc.toNat < memorySize) : n.Bounded := by
  cases he with
  | @returned address calls hp =>
    have hs : calls.slots = m.calls.slots := (CallStack.slots_pop? hp).2.1
    refine ⟨?_, h.index⟩
    intro j hj
    have hb := h.slot j hj
    rw [← hs] at hb
    exact hb
  | called hp => exact ⟨h.pushed (hc rfl) hp, h.index⟩
  | jumped => exact ⟨h.slot, h.index⟩
  | leapt => exact ⟨h.slot, h.index⟩
  | @indexed target => exact ⟨h.slot, ht target rfl⟩
  | passed hn hr hl => exact ⟨h.slot, h.index⟩

/-- From inside memory no instruction leads farther than the largest offset past the
largest address. -/
theorem Bounded.pc_le {instruction : Instruction} (h : m.Bounded)
    (he : Effect m instruction n)
    (ht : ∀ target, instruction.target? = some target → target.toNat < memorySize)
    (hp : m.pc.toNat < memorySize) : n.pc.toNat ≤ 0x10FE := by
  have hm : memorySize = 4096 := rfl
  cases he with
  | returned hd => exact (toNat_add_length (h.popped hd) (Or.inl rfl)).2
  | @called target calls hd =>
    have hl : target.toNat < memorySize := ht target rfl
    show target.toNat ≤ 0x10FE
    omega
  | @jumped target =>
    have hl : target.toNat < memorySize := ht target rfl
    show target.toNat ≤ 0x10FE
    omega
  | @leapt target =>
    have hs := toNat_add_byte (ht target rfl) m.v[(0 : Fin 16)]
    show (target + m.v[(0 : Fin 16)].toUInt16).toNat ≤ 0x10FE
    omega
  | indexed => exact (toNat_add_length hp (Or.inl rfl)).2
  | passed hn hr hl => exact (toNat_add_length hp hl).2

end Machine

namespace Engine

variable {e : Engine}

/-- Calls are made inside memory only. -/
theorem inside_of_call (hc : e.machine.instruction.isCall = true) :
    e.machine.pc.toNat < memorySize := by
  apply Machine.inside_of_instruction
  intro hi
  rw [hi] at hc
  cases hc

/-- A step keeps the bounds. -/
theorem bounded_step (h : e.machine.Bounded) : e.step.engine.machine.Bounded := by
  have hf : e.machine.fetched.Bounded := ⟨h.slot, h.index⟩
  cases hx : e.fault? with
  | none =>
    refine hf.effect (effect_of_retires hx) ?_ ?_
    · intro target ht
      exact Instruction.toNat_target_lt ht
    · intro hc
      exact inside_of_call hc
  | some error =>
    rw [machine_of_fails hx]
    exact hf

/-- A step from inside memory leads the program counter not far out of it. -/
theorem pc_step_le (h : e.machine.Bounded) (hp : e.machine.pc.toNat < memorySize) :
    e.step.engine.machine.pc.toNat ≤ 0x10FE := by
  have hf : e.machine.fetched.Bounded := ⟨h.slot, h.index⟩
  cases hx : e.fault? with
  | none =>
    refine hf.pc_le (effect_of_retires hx) ?_ hp
    intro target ht
    exact Instruction.toNat_target_lt ht
  | some error =>
    have hm : memorySize = 4096 := rfl
    rw [machine_of_fails hx]
    show e.machine.pc.toNat ≤ 0x10FE
    omega

/-- What an engine can rely on while it executes the instruction at its program counter.
Register numbers and display rows are bounded by their types. -/
structure WithinBounds (e : Engine) : Prop where
  /-- No more slots of the call stack are live than there are. -/
  depth : e.machine.calls.depth ≤ 16
  /-- Every slot holds an address inside memory, live or stale. -/
  slot : ∀ (j : Nat) (hj : j < 16), e.machine.calls.slots[j].toNat < memorySize
  /-- The address register holds an address inside memory. -/
  index : e.machine.i.toNat < memorySize
  /-- A call that is not refused is made inside memory and writes a slot that there is. -/
  call : e.machine.instruction.isCall = true → e.fault? = none →
    e.machine.pc.toNat < memorySize ∧ e.machine.calls.depth < 16 ∧
      e.step.engine.machine.calls.slots[e.machine.calls.depth]? = some e.machine.pc
  /-- A return that is not refused reads a slot that there is and continues behind the
  address in it, with no wrap. -/
  ret : e.machine.instruction = .ret → e.fault? = none → ∃ address,
    0 < e.machine.calls.depth ∧
      e.machine.calls.slots[e.machine.calls.depth - 1]? = some address ∧
      e.step.engine.machine.pc.toNat = address.toNat + 2 ∧ address.toNat + 2 ≤ 0x10FE
  /-- A jump with an offset does not wrap. -/
  offset : ∀ target, e.machine.instruction = .jumpOffset target →
    let reached := target.toNat + e.machine.v[(0 : Fin 16)].toNat
    e.step.engine.machine.pc.toNat = reached ∧ reached ≤ 0x10FE
  /-- A sprite is read from addresses that do not wrap. -/
  sprite : ∀ rows : Fin 16,
    e.machine.sprite rows.val = (e.machine.spriteAddresses rows.val).map e.machine.byteAt ∧
      ∀ address ∈ e.machine.spriteAddresses rows.val, address ≤ 0x100D

/-- A call that is not refused writes the slot above the live ones. -/
theorem slot_of_call (hc : e.machine.instruction.isCall = true) (hf : e.fault? = none) :
    e.machine.calls.depth < 16 ∧
      e.step.engine.machine.calls.slots[e.machine.calls.depth]? = some e.machine.pc := by
  obtain ⟨calls, hp, hs⟩ := (effect_of_retires hf).of_call hc
  obtain ⟨hn, hw⟩ := CallStack.slots_push? hp
  have hl : calls.depth ≤ 16 := calls.depth_le
  have hd : e.machine.calls.depth < 16 := by
    have he : calls.depth = e.machine.calls.depth + 1 := hn
    omega
  refine ⟨hd, ?_⟩
  rw [hs]
  exact (hw e.machine.calls.depth).trans (if_pos rfl)

/-- A return that is not refused reads the topmost live slot and continues behind the
address in it. -/
theorem pc_of_ret (h : e.machine.Bounded) (hi : e.machine.instruction = .ret)
    (hf : e.fault? = none) : ∃ address, 0 < e.machine.calls.depth ∧
      e.machine.calls.slots[e.machine.calls.depth - 1]? = some address ∧
      e.step.engine.machine.pc.toNat = address.toNat + 2 ∧ address.toNat + 2 ≤ 0x10FE := by
  have he := effect_of_retires hf
  rw [hi] at he
  obtain ⟨address, calls, hp, _, hs⟩ := he.of_ret
  obtain ⟨hn, _, ha⟩ := CallStack.slots_pop? hp
  have hd : e.machine.calls.depth = calls.depth + 1 := hn
  have hx : e.machine.calls.slots[e.machine.calls.depth - 1]? = some address := by
    rw [hd, Nat.add_sub_cancel]
    exact ha
  have hb : address.toNat < memorySize := h.popped hp
  obtain ⟨hw, hr⟩ := Machine.toNat_add_length hb (Or.inl rfl)
  rw [← hs] at hw hr
  rw [hw] at hr
  exact ⟨address, by omega, hx, hw, hr⟩

/-- A jump with an offset does not wrap. -/
theorem pc_of_jumpOffset {target : UInt16} (hi : e.machine.instruction = .jumpOffset target) :
    let reached := target.toNat + (e.machine.v.get 0).toNat
    e.step.engine.machine.pc.toNat = reached ∧ reached ≤ 0x10FE := by
  intro reached
  have hr : e.machine.instruction ≠ .ret := by
    rw [hi]
    simp
  have hc : e.machine.instruction.isCall = false := by
    rw [hi]
    rfl
  have he := effect_of_retires (fault?_eq_none hr hc)
  rw [hi] at he
  have ht : target.toNat < memorySize := by
    apply Instruction.toNat_target_lt (w := e.machine.fetch)
    show e.machine.instruction.target? = some target
    rw [hi]
    rfl
  have hs := Machine.toNat_add_byte ht (e.machine.v.get 0)
  have hp : e.step.engine.machine.pc = target + (e.machine.v.get 0).toUInt16 :=
    he.of_jumpOffset
  rw [hp]
  exact hs

/-- An engine whose machine is within the bounds can rely on them. -/
theorem withinBounds (h : e.machine.Bounded) : e.WithinBounds where
  depth := e.machine.calls.depth_le
  slot := h.slot
  index := h.index
  call := by
    intro hc hf
    exact ⟨inside_of_call hc, slot_of_call hc hf⟩
  ret := by
    intro hi hf
    exact pc_of_ret h hi hf
  offset := by
    intro target hi
    exact pc_of_jumpOffset hi
  sprite := by
    intro rows
    refine ⟨e.machine.sprite_eq rows.val, ?_⟩
    intro address ha
    exact h.spriteAddress_le rows ha

end Engine

namespace Trail

variable {e f : Engine} {moments : List Moment}

/-- Whatever happens to a machine, it stays within the bounds. -/
theorem bounded (h : Trail e moments f) (he : e.machine.Bounded) : f.machine.Bounded := by
  induction h with
  | nil => exact he
  | restart h ih => exact Machine.bounded_initial
  | load h hm ih => exact ih.load hm
  | step h ih => exact Engine.bounded_step ih
  | live h ih => exact ih

/-- While instructions are tried inside memory only, the program counter does not get
far out of it. -/
theorem pc_le (h : Trail e moments f) (he : e.machine.Bounded)
    (hp : e.machine.pc.toNat ≤ 0x10FE)
    (hi : ∀ g, .tried g ∈ moments → g.machine.pc.toNat < memorySize) :
    f.machine.pc.toNat ≤ 0x10FE := by
  induction h with
  | nil => exact hp
  | restart h ih =>
    show programOrigin.toNat ≤ 0x10FE
    decide
  | load h hm ih =>
    obtain ⟨memory, length, hn⟩ := Machine.eq_of_load hm
    rw [hn]
    exact ih hi
  | @step moments f h ih =>
    have hf : f.machine.Bounded := h.bounded he
    have hg : f.machine.pc.toNat < memorySize := hi f (by simp)
    exact Engine.pc_step_le hf hg
  | live h ih => exact ih hi

end Trail

namespace Course

variable {e f : Engine} {events : List Event} {moments : List Moment}

/-- What is within the bounds stays so, and so does every engine on the way. -/
theorem bounded (h : Course e events moments f) (he : e.machine.Bounded) :
    f.machine.Bounded ∧ ∀ g, .tried g ∈ moments → g.machine.Bounded := by
  have ht := h.trail
  refine ⟨ht.bounded he, ?_⟩
  intro g hg
  obtain ⟨earlier, later, hs⟩ := List.append_of_mem hg
  rw [hs] at ht
  exact ht.split_tried.1.bounded he

/-- Without a step, what is fetched is inside memory. -/
theorem pc_of_dispatched (h : Course e events moments f)
    (ho : ∀ v ∈ events, v.operation ≠ .step) {v : Event} (hv : v ∈ events) {pc : UInt16}
    {word : Word} (hn : .event (.dispatched pc word) ∈ v.reply.notices) :
    pc.toNat < memorySize := by
  have hp := h.performs_of_mem hv
  obtain ⟨g, hg, he⟩ := hp.tried_of_dispatched hn
  have hi : g.machine.pastEnd = false := hp.inside (ho v hv) hg
  rw [← he]
  exact Machine.pc_lt_of_inside hi

end Course

/-- In every history of a new engine, at every moment and whatever the schedulers, the
machine is within its bounds. While a started run is not stepped, instructions are
fetched inside memory only, the program counter does not get far out of it, and it is in
memory whenever a scheduler has suspended the run. -/
theorem machine_stays_in_bounds {config : Config} {key : Random.Key} {events : List Event}
    {moments : List Moment} {f : Engine} (h : Course (.new config key) events moments f) :
    (f.WithinBounds ∧ ∀ g, .tried g ∈ moments → g.WithinBounds) ∧
    ∀ program ticket, (f.run program ticket).value = .ok () → ∀ later others g,
      Course (f.run program ticket).engine later others g →
      (∀ v ∈ later, v.operation ≠ .step) →
      g.machine.pc.toNat ≤ 0x10FE ∧
      (∀ t, .tried t ∈ others → t.machine.pc.toNat < memorySize ∧
        t.step.engine.machine.pc.toNat ≤ 0x10FE) ∧
      ∀ v ∈ later,
        (∀ pc word, .event (.dispatched pc word) ∈ v.reply.notices → pc.toNat < memorySize) ∧
        ∀ n, v.reply.value = .ok (.returned (.yielded n)) →
          v.after.machine.pc.toNat < memorySize := by
  obtain ⟨hf, ht⟩ := h.bounded Machine.bounded_initial
  refine ⟨⟨Engine.withinBounds hf, ?_⟩, ?_⟩
  · intro g hg
    exact Engine.withinBounds (ht g hg)
  · intro program ticket hv later others g hc ho
    have hb : (f.run program ticket).engine.machine.Bounded :=
      (Engine.run_trail h.trail program ticket).bounded Machine.bounded_initial
    have hp : (f.run program ticket).engine.machine.pc = programOrigin :=
      (Engine.run_accepted hv).2.1
    have hs : (f.run program ticket).engine.machine.pc.toNat ≤ 0x10FE := by
      rw [hp]
      decide
    have hi : ∀ t, .tried t ∈ others → t.machine.pc.toNat < memorySize := by
      intro t hm
      exact Machine.pc_lt_of_inside (hc.inside ho hm)
    refine ⟨hc.trail.pc_le hb hs hi, ?_, ?_⟩
    · intro t hm
      exact ⟨hi t hm, Engine.pc_step_le ((hc.bounded hb).2 t hm) (hi t hm)⟩
    · intro v hm
      refine ⟨?_, ?_⟩
      · intro pc word hn
        exact hc.pc_of_dispatched ho hm hn
      · intro n hy
        exact Machine.pc_lt_of_inside ((hc.performs_of_mem hm).inside_of_yielded hy)

/-- A program that calls and then jumps as far as a jump can reach: stepped past the end
of memory it leaves the machine within its bounds, and resumed it takes the program
counter exactly to the bound. -/
theorem machine_stays_in_bounds_of_leap :
    ∃ (e : Engine) (program : List UInt8) (events later : List Event) (f g : Engine),
      Course e events (events.flatMap Event.moments) f ∧
      (f.machine.pc, f.machine.i, f.machine.calls.depth) = (0x1100, 0xFFF, 1) ∧
      f.WithinBounds ∧ (e.run program 7).value = .ok () ∧
      Course (e.run program 7).engine later (later.flatMap Event.moments) g ∧
      later.length = 4 ∧ g.machine.pc.toNat = 0x10FE ∧
      ∀ t, .tried t ∈ later.flatMap Event.moments → t.machine.pc.toNat < memorySize ∧
        t.step.engine.machine.pc.toNat ≤ 0x10FE := by
  let e : Engine := .new .standard (Vector.replicate 8 0)
  let program : List UInt8 := [0xAF, 0xFF, 0x60, 0xFF, 0x22, 0x06, 0xBF, 0xFF]
  let slice : Operation := .resume Budget.scheduler (.new 1)
  have hs : (History.replay 2 e
      [.load program programOrigin, .step, .step, .step, .step, .step]).map
        (fun x => (x.2.machine.pc, x.2.machine.i, x.2.machine.calls.depth)) =
      some (0x1100, 0xFFF, 1) := by decide +kernel
  have hl : (History.replay 2 (e.run program 7).engine [slice, slice, slice, slice]).map
      (fun x => (x.1.length, x.2.machine.pc.toNat)) = some (4, 0x10FE) := by decide +kernel
  obtain ⟨⟨events, f⟩, hx, hf⟩ := Option.map_eq_some_iff.mp hs
  obtain ⟨⟨later, g⟩, hy, hg⟩ := Option.map_eq_some_iff.mp hl
  simp only [Prod.mk.injEq] at hg
  have hv : (e.run program 7).value = .ok () := rfl
  have hc : Course e events (events.flatMap Event.moments) f := .between (.of_replay hx)
  have hd : Course (e.run program 7).engine later (later.flatMap Event.moments) g :=
    .between (.of_replay hy)
  have ho : ∀ v ∈ later, v.operation ≠ .step :=
    History.forall_of_replay hy (P := fun o => o ≠ .step) (by simp [slice])
  have hb := (machine_stays_in_bounds hc).1.1
  have hr := (machine_stays_in_bounds (.between .nil)).2 program 7 hv later _ g hd ho
  exact ⟨e, program, events, later, f, g, hc, hf, hb, hv, hd, hg.1, hg.2, hr.2.1⟩

end Chip8
