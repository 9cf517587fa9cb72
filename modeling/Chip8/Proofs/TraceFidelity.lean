import Chip8.Proofs.Footprint
import Chip8.Proofs.HandSteps
import Chip8.Proofs.SpriteDraw

/-!
# What a trace tells

The tracer sees an instruction only when it has been executed. From the word, the operands
as they were and the machine after it, it tells the calls, the returns and the draws. What
it tells is true of the machines before and after the instruction: the call stack has grown
for every call and for nothing else, it has shrunk for every return and for nothing else,
and the flag register says that a draw collided exactly if the draw has turned off a cell.
-/

namespace Chip8

namespace Machine

variable {m n : Machine} {w : Word}

/-- A cell that was lit before an instruction is not lit after it. -/
def Darkens (m n : Machine) : Prop :=
  ∃ px < 64, ∃ py < 32, m.display.pixel px py = true ∧ n.display.pixel px py = false

/-- After a draw the flag register holds one exactly if a cell was turned off. -/
theorem Draws.flag_eq_one_iff (h : Draws w m n) :
    n.v.get flagRegister = 1 ↔ m.Darkens n := by
  have hc : m.Collides w ↔ m.Darkens n := by
    constructor
    · rintro ⟨px, hx, py, hy, hs, hl⟩
      refine ⟨px, hx, py, hy, hl, ?_⟩
      rw [h.pixel px hx py hy, hl, decide_eq_true hs]
      rfl
    · rintro ⟨px, hx, py, hy, hl, hd⟩
      rw [h.pixel px hx py hy, hl, Bool.true_xor, Bool.not_eq_false', decide_eq_true_iff] at hd
      exact ⟨px, hx, py, hy, hd, hl⟩
  rw [h.flag_eq_one_iff_collides, hc]

end Machine

namespace Engine

variable {e : Engine}

/-- A draw that is stepped draws the sprite of its word. -/
theorem draws_step (hw : e.machine.fetch.opcode = 0xD) :
    Machine.Draws e.machine.fetch e.machine e.step.engine.machine := by
  obtain ⟨n, hs, hd⟩ := Core.step_of_draw hw rfl e.config.shiftSource
  rw [machine_step, hs]
  exact hd

end Engine

namespace Debug

/-- What a trace tells of an instruction beside its word, in terms of the machines before and
after the instruction. -/
structure Tells (m n : Machine) (special : Option TraceEvent) : Prop where
  /-- A call is told exactly if one slot more of the call stack is live. -/
  call : ∀ source target, special = some (.call source target) ↔
    n.calls.depth = m.calls.depth + 1 ∧ source = m.pc ∧ target = n.pc
  /-- A return is told exactly if one slot less is live. -/
  ret : ∀ source target, special = some (.ret source target) ↔
    m.calls.depth = n.calls.depth + 1 ∧ source = m.pc ∧ target = n.pc
  /-- A draw is told exactly for the words that draw, with the operands before it, and with a
  collision exactly if a lit cell has been turned off. -/
  draw : ∀ x y rows collision, special = some (.draw x y rows collision) ↔
    m.fetch.opcode = 0xD ∧ x = m.v.get m.fetch.x ∧ y = m.v.get m.fetch.y ∧
      rows.toNat = m.fetch.n.val ∧ (collision = true ↔ m.Darkens n)
  /-- The word is not told twice. -/
  once : ∀ pc word, special ≠ some (.instruction pc word)

section Cases

variable {m n : Machine}

/-- A call is told. -/
theorem Tells.of_call (hd : n.calls.depth = m.calls.depth + 1) (hw : m.fetch.opcode ≠ 0xD) :
    Tells m n (some (.call m.pc n.pc)) where
  call source target := by
    constructor
    · rintro ⟨⟩
      exact ⟨hd, rfl, rfl⟩
    · rintro ⟨-, rfl, rfl⟩
      rfl
  ret _ _ := iff_of_false nofun fun h => absurd h.1 (by omega)
  draw _ _ _ _ := iff_of_false nofun fun h => absurd h.1 hw
  once _ _ := nofun

/-- A return is told. -/
theorem Tells.of_ret (hd : m.calls.depth = n.calls.depth + 1) (hw : m.fetch.opcode ≠ 0xD) :
    Tells m n (some (.ret m.pc n.pc)) where
  call _ _ := iff_of_false nofun fun h => absurd h.1 (by omega)
  ret source target := by
    constructor
    · rintro ⟨⟩
      exact ⟨hd, rfl, rfl⟩
    · rintro ⟨-, rfl, rfl⟩
      rfl
  draw _ _ _ _ := iff_of_false nofun fun h => absurd h.1 hw
  once _ _ := nofun

/-- A draw is told. -/
theorem Tells.of_draw (hd : n.calls.depth = m.calls.depth) (hw : m.fetch.opcode = 0xD)
    {rows : UInt8} (hr : rows.toNat = m.fetch.n.val) {collision : Bool}
    (hc : collision = true ↔ m.Darkens n) :
    Tells m n (some (.draw (m.v.get m.fetch.x) (m.v.get m.fetch.y) rows collision)) where
  call _ _ := iff_of_false nofun fun h => absurd h.1 (by omega)
  ret _ _ := iff_of_false nofun fun h => absurd h.1 (by omega)
  draw x y rows' collision' := by
    constructor
    · rintro ⟨⟩
      exact ⟨hw, rfl, rfl, hr, hc⟩
    · rintro ⟨-, rfl, rfl, hr', hc'⟩
      have hrows : rows = rows' := UInt8.toNat_inj.mp (hr.trans hr'.symm)
      have hcollision : collision = collision' := Bool.eq_iff_iff.mpr (hc.trans hc'.symm)
      rw [hrows, hcollision]
  once _ _ := nofun

/-- Nothing is told of any other instruction. -/
theorem Tells.of_other (hd : n.calls.depth = m.calls.depth) (hw : m.fetch.opcode ≠ 0xD) :
    Tells m n none where
  call _ _ := iff_of_false nofun fun h => absurd h.1 (by omega)
  ret _ _ := iff_of_false nofun fun h => absurd h.1 (by omega)
  draw _ _ _ _ := iff_of_false nofun fun h => absurd h.1 hw
  once _ _ := nofun

end Cases

namespace TraceEvent

variable {e : Engine}

/-- A draw is traced with its operands and the flag that it has left. -/
theorem special?_of_draw {record : Retired} (hw : record.word.opcode = 0xD) (m : Machine) :
    special? record m = some (.draw record.vx record.vy (UInt8.ofNat record.word.n.val)
      (m.v.get flagRegister == 1)) := by
  rw [special?, Instruction.decode_of_draw hw]
  rfl

/-- Nothing is traced of an instruction that neither calls nor returns nor draws. -/
theorem special?_of_other {record : Retired}
    (hr : Instruction.decode record.word ≠ .ret)
    (hc : ¬(Instruction.decode record.word).isCall = true)
    (hw : record.word.opcode ≠ 0xD) (m : Machine) : special? record m = none := by
  unfold special?
  cases hi : Instruction.decode record.word with
  | ret => exact absurd hi hr
  | call target =>
    rw [hi] at hc
    exact absurd rfl hc
  | draw x y rows => exact absurd (Instruction.opcode_of_decode hi (by simp)) hw
  | _ => rfl

/-- What is traced of an instruction that retires tells what it has done. -/
theorem tells_step (hf : e.fault? = none) :
    Tells e.machine e.step.engine.machine
      (special? e.core.upcoming e.step.engine.machine) := by
  have hw : Instruction.decode e.core.upcoming.word = e.machine.instruction := rfl
  rcases e.calls_step with ⟨_, hi, address, hp⟩ | ⟨_, hc, hp⟩ | ⟨ho, hs⟩
  · have ho : e.machine.fetch = 0x00EE := Instruction.decode_eq_ret_iff.mp hi
    rw [special?_of_ret (hw.trans hi)]
    refine .of_ret (CallStack.slots_pop? hp).1 ?_
    rw [ho]
    decide
  · have ho : e.machine.fetch.opcode = 2 := Instruction.isCall_decode_iff.mp hc
    rw [← hw] at hc
    rw [special?_of_call hc]
    refine .of_call (CallStack.slots_push? hp).1 ?_
    rw [ho]
    decide
  · obtain ⟨hr, hc⟩ := ho hf
    have hd : e.step.engine.machine.calls.depth = e.machine.calls.depth := by rw [hs]
    rw [← hw] at hr hc
    by_cases hx : e.machine.fetch.opcode = 0xD
    · have hl := e.draws_step hx
      have hu : e.core.upcoming.word.opcode = 0xD := hx
      rw [special?_of_draw hu]
      refine .of_draw hd hx ?_ ?_
      · exact UInt8.toNat_ofNat_of_lt' (Nat.lt_trans e.machine.fetch.n.isLt (by decide))
      · rw [beq_iff_eq]
        exact hl.flag_eq_one_iff
    · rw [special?_of_other hr hc hx]
      exact .of_other hd hx

/-- The events of the next instruction of an engine. -/
def ofStep (e : Engine) : List TraceEvent := ofRetired e.core.upcoming e.step.engine.machine

end TraceEvent

namespace Tracer

/-- The tracer with those of some events pushed that pass its filter, in their order. -/
def extend (t : Tracer) (events : List TraceEvent) : Tracer :=
  (events.filter t.filter.keeps).foldl push t

/-- Pushing keeps the filter. -/
theorem filter_push (t : Tracer) (e : TraceEvent) : (t.push e).filter = t.filter := by
  unfold push
  split
  · rfl
  · rfl

/-- Recording is one event more, if it passes. -/
theorem extend_cons (t : Tracer) (e : TraceEvent) (events : List TraceEvent) :
    t.extend (e :: events) = (t.record e).extend events := by
  unfold extend record
  cases hk : t.filter.keeps e with
  | false =>
    rw [List.filter_cons_of_neg (by simp [hk])]
    rfl
  | true =>
    rw [List.filter_cons_of_pos hk, List.foldl_cons, if_pos rfl, filter_push]

/-- Events that are recorded one by one are pushed if they pass. -/
theorem foldl_record (t : Tracer) (events : List TraceEvent) :
    events.foldl record t = t.extend events := by
  induction events generalizing t with
  | nil => rfl
  | cons e events ih => rw [extend_cons, List.foldl_cons, ih]

/-- Events behind others are pushed behind them. -/
theorem extend_append (t : Tracer) (events more : List TraceEvent) :
    t.extend (events ++ more) = (t.extend events).extend more := by
  rw [← foldl_record, ← foldl_record, ← foldl_record, List.foldl_append]

end Tracer

namespace Bench

variable {b : Bench} {n : Nat} {f : Engine} {k : Host} {fault : Option EngineError}

/-- By hand the engine takes plain steps. -/
theorem engine_after (b : Bench) (n : Nat) : (b.after n).engine = b.engine.after n := by
  induction n with
  | zero => rfl
  | succ n ih =>
    rw [after, next, Host.step_snd, ih]
    rfl

/-- An instruction that is answered has retired. -/
theorem retires_of_answer {record : Retired} (ha : b.answer = .ok record) :
    b.engine.fault? = none := by
  cases hf : b.engine.fault? with
  | none => rfl
  | some error =>
    rw [(next_of_fails hf).1] at ha
    cases ha

/-- An instruction that retires by hand leaves its events. -/
theorem tracer_next (hf : b.engine.fault? = none) :
    b.next.host.tracer = b.host.tracer.extend (TraceEvent.ofStep b.engine) := by
  rw [(next_of_retires hf).2]
  exact Tracer.foldl_record _ _

/-- Instructions that retire by hand leave their events, one instruction behind the other. -/
theorem tracer_after (ha : ∀ j < n, ∃ record, (b.after j).answer = .ok record) :
    (b.after n).host.tracer = b.host.tracer.extend
      ((List.range n).flatMap fun j => TraceEvent.ofStep (b.engine.after j)) := by
  induction n with
  | zero => rfl
  | succ n ih =>
    obtain ⟨record, hr⟩ := ha n (Nat.lt_succ_self n)
    rw [after, tracer_next (retires_of_answer hr),
      ih fun j hj => ha j (Nat.lt_succ_of_lt hj), engine_after, ← Tracer.extend_append,
      List.range_succ, List.flatMap_append, List.flatMap_singleton]

/-- Beside a run the tracer is the same by hand, whether the run has failed or not. -/
theorem Beside.tracer_eq (h : b.Beside n f k fault) :
    (∀ j < n, ∃ record, (b.after j).answer = .ok record) ∧
      k.tracer = (b.after n).host.tracer := by
  cases h with
  | level h _ => exact ⟨h.answers, h.same.tracer.symm⟩
  | refused h _ => exact ⟨h.answers, h.host.2⟩

end Bench

/-- What instructions leave in the tracer of a host, by hand and in a run. -/
structure Faithful (e : Engine) (h : Host) : Prop where
  /-- An instruction that retires by hand leaves its word and what is told of it. -/
  retired : ∀ record, e.step.value = .ok record → ∃ special,
    Tells e.machine e.step.engine.machine special ∧ (h.step e).1.tracer =
      h.tracer.extend (.instruction e.machine.pc e.machine.fetch :: special.toList)
  /-- One that fails leaves nothing. -/
  failed : ∀ error, e.step.value = .error error → (h.step e).1.tracer = h.tracer
  /-- A run leaves this of all instructions that have retired in it, in order. -/
  resumed : ∀ limit r, e.resume Host.scheduler limit h = some r →
    ∃ special : Nat → Option TraceEvent,
      (∀ j < r.toReply.retirements, (e.after j).fault? = none ∧
        Tells (e.after j).machine (e.after (j + 1)).machine (special j)) ∧
      r.scheduler.tracer = h.tracer.extend ((List.range r.toReply.retirements).flatMap fun j =>
        .instruction (e.after j).machine.pc (e.after j).machine.fetch :: (special j).toList)

/-- A resumption leaves the events of the instructions that have retired in it. -/
theorem tracer_of_resume {e : Engine} {h : Host} {limit : Nat} {r : Resumed Host}
    (hr : e.resume Host.scheduler limit h = some r) :
    (∀ j < r.toReply.retirements, (e.after j).fault? = none) ∧
      r.scheduler.tracer = h.tracer.extend
        ((List.range r.toReply.retirements).flatMap fun j =>
          TraceEvent.ofStep (e.after j)) := by
  cases hi : e.isRunning with
  | false =>
    have hn := (Engine.resume_cases hr).resolve_left (by simp [hi])
    rw [hn.2]
    exact ⟨fun j hj => absurd hj (Nat.not_lt_zero j), rfl⟩
  | true =>
    -- The same instructions are taken by hand, with the same tracer.
    let b : Bench := ⟨h, e⟩
    have hs : b.Beside 0 e h none :=
      .level ⟨fun j hj => absurd hj (Nat.not_lt_zero j), rfl, rfl, rfl, rfl⟩ (Or.inl hi)
    obtain ⟨ha, ht⟩ := (hs.resume hr).tracer_eq
    rw [Nat.zero_add] at ha ht
    refine ⟨?_, ht.trans (Bench.tracer_after ha)⟩
    intro j hj
    obtain ⟨record, hj⟩ := ha j hj
    rw [← b.engine_after j]
    exact Bench.retires_of_answer hj

/-- The trace is faithful. Of every instruction that retires under a tracer, by hand or in a
run, it is recorded where the instruction was and which word it had, and then whether it has
called, returned or drawn, as far as the filter of the tracer lets it pass. -/
theorem trace_faithful (e : Engine) (h : Host) : Faithful e h where
  retired record hs := by
    have hf : e.fault? = none := Bench.retires_of_answer (b := ⟨h, e⟩)
      ((congrArg Reply.value (h.step_snd e)).trans hs)
    exact ⟨_, TraceEvent.tells_step hf, Bench.tracer_next (b := ⟨h, e⟩) hf⟩
  failed error hs := by
    have hn := (Bench.next_of_fails (b := ⟨h, e⟩) (Engine.step_value_eq_error_iff.mp hs)).2
    exact congrArg (fun b : Bench => b.host.tracer) hn
  resumed limit r hr := by
    obtain ⟨hf, ht⟩ := tracer_of_resume hr
    refine ⟨fun j => TraceEvent.special? (e.after j).core.upcoming
      (e.after (j + 1)).machine, ?_, ht⟩
    intro j hj
    exact ⟨hf j hj, TraceEvent.tells_step (hf j hj)⟩

/-- A call, its return and two draws of one sprite, then a return that is refused. The second
draw takes both coordinates from the flag register, which held nothing before it and tells of
a collision after it. -/
theorem trace_faithful_of_collision :
    let program : List UInt8 :=
      [0x22, 0x08, 0xD0, 0x01, 0xDF, 0xF1, 0x00, 0xEE, 0xA2, 0x00, 0x00, 0xEE]
    let e := ((Engine.new .standard (Vector.replicate 8 0)).run program 7).engine
    ∃ (r : Resumed Host) (special : Nat → Option TraceEvent),
      e.resume Host.scheduler 6 .standard = some r ∧
      r.value = .error (.stackUnderflow 0x206) ∧ r.toReply.retirements = 5 ∧
      (∀ j < 5, (e.after j).fault? = none ∧
        Tells (e.after j).machine (e.after (j + 1)).machine (special j)) ∧
      special 4 = some (.draw 0 0 1 true) ∧ (e.after 5).machine.v.get flagRegister = 1 ∧
      r.scheduler.tracer.events.toList = [.call 0x200 0x208, .ret 0x20A 0x202,
        .draw 0 0 1 false, .draw 0 0 1 true] := by
  intro program e
  have hx : (e.resume Host.scheduler 6 .standard).map
      (fun r => (r.value, r.toReply.retirements, r.scheduler.tracer.events.toList)) =
        some (.error (.stackUnderflow 0x206), 5, [.call 0x200 0x208, .ret 0x20A 0x202,
          .draw 0 0 1 false, .draw 0 0 1 true]) := by decide +kernel
  have hm : ((e.after 4).machine.fetch, (e.after 4).machine.v.get flagRegister,
      (e.after 4).machine.display.pixel 2 0, (e.after 5).machine.display.pixel 2 0,
      (e.after 5).machine.v.get flagRegister) = (0xDFF1, 0, true, false, 1) := by
    decide +kernel
  obtain ⟨r, hr, hy⟩ := Option.map_eq_some_iff.mp hx
  simp only [Prod.mk.injEq] at hy hm
  obtain ⟨hvalue, hn, hevents⟩ := hy
  obtain ⟨hw, hz, hlit, hdark, hv⟩ := hm
  obtain ⟨special, ht, _⟩ := (trace_faithful e .standard).resumed 6 r hr
  rw [hn] at ht
  have hd : (e.after 4).machine.Darkens (e.after 5).machine :=
    ⟨2, by decide, 0, by decide, hlit, hdark⟩
  have hs : special 4 = some (.draw 0 0 1 true) := by
    refine ((ht 4 (by decide)).2.draw 0 0 1 true).mpr ?_
    rw [hw]
    exact ⟨rfl, hz.symm, hz.symm, rfl, fun _ => hd, fun _ => rfl⟩
  exact ⟨r, special, hr, hvalue, hn, ht, hs, hv, hevents⟩

end Debug

end Chip8
