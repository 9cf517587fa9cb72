import Chip8.Proofs.Course
import Chip8.Scheduler.Budget
import Mathlib.Logic.Function.Iterate

/-!
# Drawn bytes

The random source of a seeded engine stands at every moment where the random instructions
since the machine was switched on last have taken it, one byte each. So the byte that such
an instruction masks is told by the seed and by how many came before it, whatever else has
happened.
-/

namespace Chip8

namespace Random.Source

/-- The byte that is taken from a source after a number of others. -/
def drawn (s : Source) (k : Nat) : UInt8 := (next^[k] s).byte

/-- Taking a byte moves the position in the stream and nothing else. -/
theorem iterate_next (s : Source) (k : Nat) : next^[k] s = ⟨s.key, s.taken + k⟩ := by
  induction k with
  | zero => rfl
  | succ k ih =>
    rw [Function.iterate_succ_apply', ih]
    rfl

/-- The bytes of a seed are the low bytes of the words of its stream, in order. -/
theorem drawn_seeded (seed : UInt64) (k : Nat) :
    (seeded seed).drawn k = (keyStream (Key.ofSeed seed) k).toUInt8 := by
  have hk : (seeded seed).taken + k = k := Nat.zero_add k
  rw [drawn, iterate_next, hk]
  rfl

end Random.Source

namespace Machine

variable {m n : Machine}

/-- What a random instruction does with a byte: it masks it, puts it into its register
and goes on with the following instruction. -/
def putRandom (m : Machine) (x : Fin 16) (mask byte : UInt8) : Machine :=
  (m.setV x (byte &&& mask)).advance

/-- A register that is written holds what was written, and every other one what it held. -/
theorem get_setV (m : Machine) (x y : Fin 16) (byte : UInt8) :
    (m.setV x byte).v.get y = if y = x then byte else m.v.get y := by
  have hs : (m.v.setIfInBounds x.val byte)[y.val] = _ := Vector.getElem_setIfInBounds y.isLt
  show (m.v.setIfInBounds x.val byte)[y.val] = _
  rw [hs]
  by_cases he : y = x
  · rw [if_pos he, if_pos (by rw [he])]
  · have hn : ¬x.val = y.val := by
      intro hv
      exact he (Fin.ext hv.symm)
    rw [if_neg he, if_neg hn]
    rfl

end Machine

namespace Instruction

/-- The instructions that take a byte are the random ones. -/
theorem takesByte_iff {i : Instruction} :
    i.takesByte = true ↔ ∃ x mask, i = .random x mask := by
  cases i with
  | random x mask =>
    constructor
    · intro _
      exact ⟨x, mask, rfl⟩
    · intro _
      rfl
  | _ => simp [takesByte]

end Instruction

namespace Core

variable {source : ShiftSource} {c : Core}

/-- A random instruction retires and puts the next byte of the source into its register. -/
theorem step_of_random {x : Fin 16} {mask : UInt8} (h : c.machine.instruction = .random x mask) :
    c.step source =
      (⟨c.machine.fetched.putRandom x mask c.random.byte, c.random.next⟩, .ok c.upcoming) := by
  have hi : Instruction.decode c.upcoming.word = .random x mask := h
  rw [step, hi]
  rfl

/-- An instruction takes one byte if it is random and none otherwise, whether it retires
or fails. -/
theorem random_step (source : ShiftSource) (c : Core) : (c.step source).1.random =
    if c.machine.instruction.takesByte then c.random.next else c.random := by
  by_cases ht : c.machine.instruction.takesByte = true
  · obtain ⟨x, mask, hi⟩ := Instruction.takesByte_iff.mp ht
    rw [step_of_random hi, if_pos ht]
  · have hi : ¬(Instruction.decode c.upcoming.word).takesByte = true := ht
    rw [step, if_neg ht, if_neg hi]
    cases c.machine.fetched.execute source c.random (.decode c.upcoming.word) with
    | ok m => rfl
    | error error => rfl

end Core

namespace Engine

variable {e : Engine}

/-- A random instruction is not refused and puts the next byte of the source into its
register. -/
theorem step_of_random {x : Fin 16} {mask : UInt8} (h : e.machine.instruction = .random x mask) :
    e.step.value = .ok e.core.upcoming ∧
      e.step.engine.machine = e.machine.fetched.putRandom x mask e.core.random.byte := by
  have hs : e.core.step e.config.shiftSource = _ := Core.step_of_random h
  rw [machine, step, hs]
  exact ⟨rfl, rfl⟩

/-- A step takes one byte if the instruction is random and none otherwise, whether it
retires or fails. -/
theorem random_step (e : Engine) : e.step.engine.core.random =
    if e.machine.instruction.takesByte then e.core.random.next else e.core.random := by
  rw [e.step_frame.1]
  exact Core.random_step e.config.shiftSource e.core

end Engine

namespace Moment

/-- How many bytes have been taken since the machine was switched on last, once another
moment has followed. Every random instruction that is tried takes one. -/
def draw (count : Nat) : Moment → Nat
  | .restarted => 0
  | .tried g => if g.machine.instruction.takesByte then count + 1 else count

/-- How many bytes have been taken since the machine was switched on last. -/
def draws (moments : List Moment) : Nat := moments.foldl draw 0

/-- One more moment is counted after the others. -/
theorem draws_concat (moments : List Moment) (moment : Moment) :
    draws (moments ++ [moment]) = draw (draws moments) moment := by
  rw [draws, List.foldl_append]
  rfl

end Moment

namespace Trail

variable {e f : Engine} {moments : List Moment}

/-- Nothing that happens to an engine changes its config. -/
theorem config_eq (h : Trail e moments f) : f.config = e.config := by
  induction h with
  | nil => rfl
  | restart h ih => exact ih
  | load h hm ih => exact ih
  | @step moments f h ih =>
    have hs : f.step.engine.config = f.config := f.config_after 1
    exact hs.trans ih
  | live h ih => exact ih

/-- The random source of a seeded engine stands where the random instructions since the
machine was switched on last have taken it. -/
theorem random_eq {seed : UInt64} (h : Trail e moments f) (hc : e.config.rngSeed = some seed)
    (he : e.core.random = .seeded seed) :
    f.core.random = Random.Source.next^[Moment.draws moments] (.seeded seed) := by
  induction h with
  | nil => exact he
  | @restart moments f h ih =>
    have hf : f.config.rngSeed = some seed := by rw [h.config_eq, hc]
    rw [Moment.draws_concat]
    show f.cleared.core.random = .seeded seed
    rw [Engine.cleared, hf]
  | load h hm ih => exact ih
  | @step moments f h ih =>
    rw [f.random_step, Moment.draws_concat, Moment.draw]
    split
    · rw [Function.iterate_succ_apply', ← ih]
    · exact ih
  | live h ih => exact ih

end Trail

/-- How random bytes go in a course on an engine with a seed. The number of a byte is the
number of random instructions that were tried before it since the machine was switched on
last. -/
structure StreamLaw (seed : UInt64) (moments : List Moment) (f : Engine) : Prop where
  /-- A random instruction is not refused, whatever its mask. It puts the next byte of the
  seed, masked, into its register and leaves the other registers alone. -/
  written : ∀ earlier later g x mask, moments = earlier ++ .tried g :: later →
    g.machine.instruction = .random x mask →
    g.step.value = .ok g.core.upcoming ∧ ∀ y : Fin 16, g.step.engine.machine.v.get y =
      if y = x then (Random.Source.seeded seed).drawn (Moment.draws earlier) &&& mask
      else g.machine.v.get y
  /-- A random instruction takes one byte and every other instruction none, also when it
  is refused. -/
  taken : ∀ earlier later g, moments = earlier ++ .tried g :: later →
    g.core.random = Random.Source.next^[Moment.draws earlier] (.seeded seed) ∧
    g.step.engine.core.random =
      if g.machine.instruction.takesByte then g.core.random.next else g.core.random
  /-- Nothing else takes a byte. -/
  left : f.core.random = Random.Source.next^[Moment.draws moments] (.seeded seed)

/-- In every history of a new engine with a seed, whatever the programs and schedulers and
at every moment, random instructions take the bytes of the seed in order, and nothing
else does. -/
theorem random_bytes_of_seed {seed : UInt64} {shiftSource : ShiftSource} {key : Random.Key}
    {events : List Event} {moments : List Moment} {f : Engine}
    (h : Course (.new ⟨some seed, shiftSource⟩ key) events moments f) :
    StreamLaw seed moments f := by
  have ht : ∀ earlier later g, moments = earlier ++ .tried g :: later →
      g.core.random = Random.Source.next^[Moment.draws earlier] (.seeded seed) := by
    intro earlier later g hm
    have hs := h.trail
    rw [hm] at hs
    exact hs.split_tried.1.random_eq rfl rfl
  refine ⟨?_, ?_, h.trail.random_eq rfl rfl⟩
  · intro earlier later g x mask hm hi
    obtain ⟨hv, hs⟩ := Engine.step_of_random hi
    refine ⟨hv, ?_⟩
    intro y
    have hw := g.machine.fetched.get_setV x y (g.core.random.byte &&& mask)
    rw [hs, Random.Source.drawn, ← ht earlier later g hm]
    exact hw
  · intro earlier later g hm
    exact ⟨ht earlier later g hm, g.random_step⟩

/-- Two random instructions, the first one with a mask of zero and a load after it, and a
return that is refused: the second instruction gets the second byte of the seed, and no
other byte is taken. -/
theorem random_bytes_of_seed_one :
    ∃ (events : List Event) (first second last f : Engine),
      Course (.new ⟨some 1, .vx⟩ (Vector.replicate 8 0)) events
        [.restarted, .tried first, .tried second, .tried last] f ∧
      first.machine.instruction = .random 0 0x00 ∧
      second.machine.instruction = .random 1 0xF0 ∧
      last.fault? = some (.stackUnderflow 0x204) ∧
      first.step.engine.machine.v.get 0 = 0 ∧
      second.step.engine.machine.v.get 1 = (Random.Source.seeded 1).drawn 1 &&& 0xF0 ∧
      (Random.Source.seeded 1).drawn 1 = 100 ∧
      f.core.random = Random.Source.next^[2] (.seeded 1) := by
  let e : Engine := .new ⟨some 1, .vx⟩ (Vector.replicate 8 0)
  let started := e.run [0xC0, 0x00, 0xC1, 0xF0, 0x00, 0xEE] 7
  let g : Engine := started.engine
  let loaded := g.step.engine.load [0x01] 0x400
  let last : Engine := loaded.engine.step.engine
  let events : List Event :=
    [⟨e, .run [0xC0, 0x00, 0xC1, 0xF0, 0x00, 0xEE] 7, started.answer fun _ => .done⟩,
      ⟨g, .step, g.step.answer .stepped⟩,
      ⟨g.step.engine, .load [0x01] 0x400, loaded.answer fun _ => .done⟩,
      ⟨loaded.engine, .step, loaded.engine.step.answer .stepped⟩,
      ⟨last, .step, last.step.answer .stepped⟩]
  have hr : History.replay 1 e (events.map Event.operation) = some (events, last.step.engine) :=
    rfl
  have hm : events.flatMap Event.moments =
      [.restarted, .tried g, .tried loaded.engine, .tried last] := by
    show [Moment.restarted] ++ (Event.moments ⟨g, .step, _⟩ ++ ([] ++
      (Event.moments ⟨loaded.engine, .step, _⟩ ++ (Event.moments ⟨last, .step, _⟩ ++ [])))) = _
    rw [Engine.moments_step, Engine.moments_step, Engine.moments_step]
    rfl
  have hc := Course.between (History.of_replay hr)
  rw [hm] at hc
  have hs : (g.machine.instruction, loaded.engine.machine.instruction, last.fault?,
      Moment.draws [.restarted, .tried g],
      Moment.draws [.restarted, .tried g, .tried loaded.engine, .tried last]) =
        (.random 0 0x00, .random 1 0xF0, some (.stackUnderflow 0x204), 1, 2) := by decide +kernel
  simp only [Prod.mk.injEq] at hs
  obtain ⟨hi, hj, hf, hone, htwo⟩ := hs
  have hb : (Random.Source.seeded 1).drawn 1 = 100 := by
    rw [Random.Source.drawn_seeded]
    decide +kernel
  have hl := random_bytes_of_seed hc
  have hx := (hl.written [.restarted] _ g 0 0x00 rfl hi).2 0
  have hy := (hl.written [.restarted, .tried g] _ loaded.engine 1 0xF0 rfl hj).2 1
  have hz := hl.left
  rw [if_pos rfl, UInt8.and_zero] at hx
  rw [if_pos rfl, hone] at hy
  rw [htwo] at hz
  exact ⟨events, g, loaded.engine, last, last.step.engine, hc, hi, hj, hf, hx, hy, hb, hz⟩

end Chip8
