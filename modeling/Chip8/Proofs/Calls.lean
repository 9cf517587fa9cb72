import Chip8.Proofs.Course

/-!
# Calls and returns

The call stack against what happened. Between a call and the return that matches it,
the stack keeps the address of the call and everything below it, however many calls
come and go in between. The live slots are at every moment the calls that have not
returned yet, so a return goes behind the innermost of them, and calls and returns are
refused exactly when there are too many of them or none.
-/

namespace Chip8

namespace Engine

variable {call g : Engine}

/-- How an instruction acts on the call stack: a return that is not refused pops it, a
call that is not refused pushes its own address, and everything else leaves it. -/
theorem calls_step (g : Engine) :
    (g.fault? = none ∧ g.machine.instruction = .ret ∧ ∃ address,
      g.machine.calls.pop? = some (address, g.step.engine.machine.calls)) ∨
    (g.fault? = none ∧ g.machine.instruction.isCall = true ∧
      g.machine.calls.push? g.machine.pc = some g.step.engine.machine.calls) ∨
    ((g.fault? = none → g.machine.instruction ≠ .ret ∧ ¬g.machine.instruction.isCall = true) ∧
      g.step.engine.machine.calls = g.machine.calls) := by
  cases hf : g.fault? with
  | some error =>
    refine Or.inr (Or.inr ⟨by simp, ?_⟩)
    rw [machine_of_fails hf]
    rfl
  | none =>
    have he := effect_of_retires hf
    by_cases hr : g.machine.instruction = .ret
    · rw [hr] at he
      obtain ⟨address, calls, hp, hs, _⟩ := he.of_ret
      rw [hs]
      exact Or.inl ⟨rfl, hr, address, hp⟩
    · cases hc : g.machine.instruction.isCall with
      | false => exact Or.inr (Or.inr ⟨fun _ => ⟨hr, Bool.false_ne_true⟩, he.calls_eq hr hc⟩)
      | true =>
        obtain ⟨calls, hp, hs⟩ := he.of_call hc
        rw [hs]
        exact Or.inr (Or.inl ⟨rfl, rfl, hp⟩)

/-- Whether the call stack still holds what a call found on it and, above that, the
address of the call. -/
structure Remembers (g call : Engine) : Prop where
  /-- The slots that were live before the call are as they were. -/
  below : ∀ j < call.machine.calls.depth,
    g.machine.calls.slots[j]? = call.machine.calls.slots[j]?
  /-- The slot that the call wrote holds its address. -/
  own : g.machine.calls.slots[call.machine.calls.depth]? = some call.machine.pc

/-- A call that is not refused is remembered, and one slot more is live. -/
theorem remembers_step (hc : call.machine.instruction.isCall = true)
    (hf : call.fault? = none) : call.step.engine.Remembers call ∧
      call.step.engine.machine.calls.depth = call.machine.calls.depth + 1 := by
  obtain ⟨calls, hp, hs⟩ := (effect_of_retires hf).of_call hc
  obtain ⟨hd, hw⟩ := CallStack.slots_push? hp
  refine ⟨⟨?_, ?_⟩, ?_⟩
  · intro j hj
    rw [hs]
    exact (hw j).trans (if_neg (Nat.ne_of_lt hj))
  · rw [hs]
    exact (hw call.machine.calls.depth).trans (if_pos rfl)
  · rw [hs]
    exact hd

/-- No instruction changes a live slot. -/
theorem slots_step {j : Nat} (hj : j < g.machine.calls.depth) :
    g.step.engine.machine.calls.slots[j]? = g.machine.calls.slots[j]? := by
  rcases g.calls_step with ⟨_, _, address, hp⟩ | ⟨_, _, hp⟩ | ⟨_, hs⟩
  · rw [(CallStack.slots_pop? hp).2.1]
  · exact ((CallStack.slots_push? hp).2 j).trans (if_neg (Nat.ne_of_lt hj))
  · rw [hs]

/-- While the slot of a call is live, no instruction makes the stack forget it. -/
theorem Remembers.step (h : g.Remembers call)
    (hd : call.machine.calls.depth < g.machine.calls.depth) :
    g.step.engine.Remembers call where
  below := by
    intro j hj
    rw [slots_step (Nat.lt_trans hj hd)]
    exact h.below j hj
  own := by
    rw [slots_step hd]
    exact h.own

/-- A return that makes the slot of a call the first free one goes on behind the call. -/
theorem Remembers.pc_of_ret (h : g.Remembers call)
    (hd : call.machine.calls.depth < g.machine.calls.depth)
    (hi : g.machine.instruction = .ret)
    (hs : g.step.engine.machine.calls.depth = call.machine.calls.depth) :
    g.step.engine.machine.pc = call.machine.pc + 2 := by
  cases hf : g.fault? with
  | some error =>
    -- A refused return leaves the slot of the call live.
    have hk : g.step.engine.machine.calls.depth = g.machine.calls.depth := by
      rw [machine_of_fails hf]
      rfl
    omega
  | none =>
    have he := effect_of_retires hf
    rw [hi] at he
    obtain ⟨address, calls, hp, hc, hx⟩ := he.of_ret
    have hn : calls.depth = call.machine.calls.depth := by
      rw [← hc]
      exact hs
    have ha : g.machine.calls.slots[calls.depth]? = some address :=
      (CallStack.slots_pop? hp).2.2
    rw [hn] at ha
    have hq : address = call.machine.pc := Option.some.inj (ha.symm.trans h.own)
    rw [hx, hq]

end Engine

/-- A call that is not refused, and what follows it while its slot stays live: nothing
but instructions that are tried. -/
structure OpenCall (call : Engine) (body : List Moment) : Prop where
  /-- It is a call. -/
  isCall : call.machine.instruction.isCall = true
  /-- The call is not refused. -/
  accepted : call.fault? = none
  /-- The instructions that follow leave more slots live than the call found. -/
  deeper : ∀ moment ∈ body, ∃ g, moment = .tried g ∧
    call.machine.calls.depth < g.step.engine.machine.calls.depth

/-- At first nothing follows a call. -/
theorem OpenCall.nil {call : Engine} (hi : call.machine.instruction.isCall = true)
    (hf : call.fault? = none) : OpenCall call [] where
  isCall := hi
  accepted := hf
  deeper _ hm := absurd hm List.not_mem_nil

/-- One more instruction follows a call if it leaves the slot live. -/
theorem OpenCall.concat {call g : Engine} {body : List Moment} (h : OpenCall call body)
    (hd : call.machine.calls.depth < g.step.engine.machine.calls.depth) :
    OpenCall call (body ++ [.tried g]) where
  isCall := h.isCall
  accepted := h.accepted
  deeper := by
    intro moment hm
    rcases List.mem_append.mp hm with hm | hm
    · exact h.deeper moment hm
    · exact ⟨g, List.mem_singleton.mp hm, hd⟩

/-- What follows a call does so from its beginning. -/
theorem OpenCall.of_append {call : Engine} {body rest : List Moment}
    (h : OpenCall call (body ++ rest)) : OpenCall call body where
  isCall := h.isCall
  accepted := h.accepted
  deeper := by
    intro moment hm
    exact h.deeper moment (List.mem_append_left rest hm)

/-- While the slot of a call stays live, the call is remembered. -/
theorem Trail.remembers {call f : Engine} {body : List Moment}
    (h : Trail call.step.engine body f) (hp : OpenCall call body) :
    f.Remembers call ∧ call.machine.calls.depth < f.machine.calls.depth := by
  induction h with
  | nil =>
    obtain ⟨hr, hd⟩ := Engine.remembers_step hp.isCall hp.accepted
    exact ⟨hr, by omega⟩
  | restart h ih =>
    obtain ⟨g, hg, _⟩ := hp.deeper .restarted (by simp)
    cases hg
  | load h hm ih =>
    obtain ⟨hr, hd⟩ := ih hp
    obtain ⟨memory, length, hn⟩ := Machine.eq_of_load hm
    rw [hn]
    exact ⟨⟨hr.below, hr.own⟩, hd⟩
  | @step moments f h ih =>
    obtain ⟨hr, hd⟩ := ih hp.of_append
    obtain ⟨g, hg, hn⟩ := hp.deeper (.tried f) (by simp)
    cases hg
    exact ⟨hr.step hd, hn⟩
  | live h ih =>
    obtain ⟨hr, hd⟩ := ih hp
    exact ⟨⟨hr.below, hr.own⟩, hd⟩

namespace Moment

/-- The calls that have not returned after a moment, from those before it. A call that
is not refused adds its address, a return that is not refused takes the innermost one
away. -/
def follow (calls : List UInt16) : Moment → List UInt16
  | .restarted => []
  | .tried g =>
    if g.fault? ≠ none then calls
    else if g.machine.instruction.isCall = true then calls ++ [g.machine.pc]
    else if g.machine.instruction = .ret then calls.dropLast
    else calls

/-- The addresses of the calls that have not returned since the machine was switched on
last, the innermost one last. -/
def unmatched (moments : List Moment) : List UInt16 := moments.foldl follow []

/-- One more moment is followed from the calls before it. -/
theorem unmatched_concat (moments : List Moment) (moment : Moment) :
    unmatched (moments ++ [moment]) = follow (unmatched moments) moment := by
  rw [unmatched, List.foldl_append]
  rfl

/-- A call adds its address. -/
theorem follow_of_call {g : Engine} (hf : g.fault? = none)
    (hc : g.machine.instruction.isCall = true) (calls : List UInt16) :
    follow calls (.tried g) = calls ++ [g.machine.pc] := by
  rw [follow, if_neg (not_not_intro hf), if_pos hc]

/-- A return takes the innermost call away. -/
theorem follow_of_ret {g : Engine} (hf : g.fault? = none) (hi : g.machine.instruction = .ret)
    (calls : List UInt16) : follow calls (.tried g) = calls.dropLast := by
  have hc : ¬g.machine.instruction.isCall = true := by
    rw [hi]
    exact Bool.false_ne_true
  rw [follow, if_neg (not_not_intro hf), if_neg hc, if_pos hi]

/-- Every other instruction leaves the calls alone, and so does one that is refused. -/
theorem follow_of_other {g : Engine} (ho : g.fault? = none →
    g.machine.instruction ≠ .ret ∧ ¬g.machine.instruction.isCall = true)
    (calls : List UInt16) : follow calls (.tried g) = calls := by
  by_cases hf : g.fault? = none
  · rw [follow, if_neg (not_not_intro hf), if_neg (ho hf).2, if_neg (ho hf).1]
  · rw [follow, if_pos hf]

end Moment

namespace Engine

/-- A step follows the live slots as the calls are followed. -/
theorem live_step (g : Engine) :
    g.step.engine.machine.calls.live = Moment.follow g.machine.calls.live (.tried g) := by
  rcases g.calls_step with ⟨hf, hi, address, hp⟩ | ⟨hf, hc, hp⟩ | ⟨ho, hs⟩
  · rw [Moment.follow_of_ret hf hi, CallStack.live_pop? hp, List.dropLast_concat]
  · rw [Moment.follow_of_call hf hc]
    exact CallStack.live_push? hp
  · rw [Moment.follow_of_other ho, hs]

/-- A return that is not refused goes on behind the topmost live address. -/
theorem pc_of_ret_live {g : Engine} (hi : g.machine.instruction = .ret)
    (hf : g.fault? = none) : ∃ address, g.machine.calls.live.getLast? = some address ∧
      g.step.engine.machine.pc = address + 2 := by
  have he := effect_of_retires hf
  rw [hi] at he
  obtain ⟨address, calls, hp, _, hx⟩ := he.of_ret
  have hl : g.machine.calls.live = calls.live ++ [address] := CallStack.live_pop? hp
  refine ⟨address, ?_, hx⟩
  rw [hl, List.getLast?_concat]

/-- A return is refused exactly when no slot is live. -/
theorem fault?_of_ret_iff {g : Engine} (hi : g.machine.instruction = .ret)
    {error : EngineError} : g.fault? = some error ↔
      g.machine.calls.live = [] ∧ error = .stackUnderflow g.machine.pc := by
  have hc : g.core.machine.instruction = .ret := hi
  have hl : g.machine.calls.live = [] ↔ g.machine.calls.depth = 0 := by
    rw [← List.length_eq_zero_iff, CallStack.length_live]
  rw [fault?, Core.fault?_eq_some_iff, hc, hl]
  simp [Instruction.isCall, machine]

/-- A call is refused exactly when all slots are live. -/
theorem fault?_of_call_iff {g : Engine} (hi : g.machine.instruction.isCall = true)
    {error : EngineError} : g.fault? = some error ↔
      g.machine.calls.live.length = 16 ∧ error = .stackOverflow g.machine.pc 16 := by
  have hc : g.core.machine.instruction.isCall = true := hi
  have hr : g.core.machine.instruction ≠ .ret := by
    intro hn
    rw [hn] at hc
    cases hc
  rw [fault?, Core.fault?_eq_some_iff, CallStack.length_live]
  simp [hc, hr, machine]

end Engine

/-- The live slots are at every moment the calls that have not returned. -/
theorem Trail.live_eq {e f : Engine} {moments : List Moment} (h : Trail e moments f)
    (he : e.machine.calls.live = []) : f.machine.calls.live = Moment.unmatched moments := by
  induction h with
  | nil => exact he
  | restart h ih =>
    rw [Moment.unmatched_concat]
    rfl
  | load h hm ih =>
    obtain ⟨memory, length, hn⟩ := Machine.eq_of_load hm
    rw [hn]
    exact ih
  | step h ih =>
    rw [Moment.unmatched_concat, ← ih]
    exact Engine.live_step _
  | live h ih => exact ih

/-- How calls and returns go in a course. -/
structure CallDiscipline (events : List Event) (moments : List Moment) (f : Engine) :
    Prop where
  /-- While the slot of a call stays live, the call is remembered at every point. -/
  remembered : ∀ earlier body later call, moments = earlier ++ .tried call :: (body ++ later) →
    OpenCall call body → call.step.engine.Remembers call ∧
      ∀ g, .tried g ∈ body → g.Remembers call ∧ g.step.engine.Remembers call
  /-- The return after which the slot of a call is free again goes on behind the call,
  which is remembered until then. -/
  matched : ∀ earlier body later call back,
    moments = earlier ++ .tried call :: (body ++ .tried back :: later) → OpenCall call body →
    back.machine.instruction = .ret →
    back.step.engine.machine.calls.depth = call.machine.calls.depth →
    back.step.engine.machine.pc = call.machine.pc + 2 ∧
      back.Remembers call ∧ back.step.engine.Remembers call
  /-- A return that is not refused goes on behind the innermost call that has not
  returned. -/
  returned : ∀ earlier later back, moments = earlier ++ .tried back :: later →
    back.machine.instruction = .ret → back.fault? = none →
    ∃ address, (Moment.unmatched earlier).getLast? = some address ∧
      back.step.engine.machine.pc = address + 2
  /-- A return is refused exactly when every call has returned. -/
  underflow : ∀ earlier later back, moments = earlier ++ .tried back :: later →
    back.machine.instruction = .ret → ∀ error, back.fault? = some error ↔
      Moment.unmatched earlier = [] ∧ error = .stackUnderflow back.machine.pc
  /-- A call is refused exactly when sixteen calls have not returned. -/
  overflow : ∀ earlier later call, moments = earlier ++ .tried call :: later →
    call.machine.instruction.isCall = true → ∀ error, call.fault? = some error ↔
      (Moment.unmatched earlier).length = 16 ∧ error = .stackOverflow call.machine.pc 16
  /-- A step or a resumption answers an error exactly when it has tried an instruction
  that is refused with it. -/
  reported : ∀ v ∈ events, v.operation.Drives → ∀ error, v.reply.value = .error error ↔
    ∃ g, .tried g ∈ v.moments ∧ g.fault? = some error
  /-- The live slots are the calls that have not returned. -/
  live : f.machine.calls.live = Moment.unmatched moments

/-- When an instruction is tried, the live slots are the calls that have not returned. -/
theorem Course.live_eq {config : Config} {key : Random.Key} {events : List Event}
    {moments earlier later : List Moment} {f g : Engine}
    (h : Course (.new config key) events moments f)
    (hm : moments = earlier ++ .tried g :: later) :
    g.machine.calls.live = Moment.unmatched earlier := by
  have ht := h.trail
  rw [hm] at ht
  exact ht.split_tried.1.live_eq rfl

/-- The course of a call that has not returned yet is a trail from the engine after it. -/
theorem Course.trail_of_call {e f call : Engine} {events : List Event}
    {moments earlier rest : List Moment} (h : Course e events moments f)
    (hm : moments = earlier ++ .tried call :: rest) : Trail call.step.engine rest f := by
  have ht := h.trail
  rw [hm] at ht
  exact ht.split_tried.2

/-- In every history of a new engine, by steps and resumptions alike and with refused
instructions in between, calls and returns match each other. -/
theorem call_discipline {config : Config} {key : Random.Key} {events : List Event}
    {moments : List Moment} {f : Engine} (h : Course (.new config key) events moments f) :
    CallDiscipline events moments f where
  remembered := by
    intro earlier body later call hm hp
    refine ⟨(Engine.remembers_step hp.isCall hp.accepted).1, ?_⟩
    intro g hg
    obtain ⟨before, behind, hs⟩ := List.append_of_mem hg
    have ht := h.trail_of_call hm
    rw [hs, List.append_assoc, List.cons_append] at ht
    have hb : OpenCall call before := by
      rw [hs] at hp
      exact hp.of_append
    obtain ⟨hr, hd⟩ := ht.split_tried.1.remembers hb
    exact ⟨hr, hr.step hd⟩
  matched := by
    intro earlier body later call back hm hp hi hs
    obtain ⟨hr, hd⟩ := (h.trail_of_call hm).split_tried.1.remembers hp
    exact ⟨hr.pc_of_ret hd hi hs, hr, hr.step hd⟩
  returned := by
    intro earlier later back hm hi hf
    rw [← h.live_eq hm]
    exact Engine.pc_of_ret_live hi hf
  underflow := by
    intro earlier later back hm hi error
    rw [← h.live_eq hm]
    exact Engine.fault?_of_ret_iff hi
  overflow := by
    intro earlier later call hm hi error
    rw [← h.live_eq hm]
    exact Engine.fault?_of_call_iff hi
  reported := by
    intro v hv hd error
    exact (h.performs_of_mem hv).value_eq_error_iff hd
  live := h.trail.live_eq rfl

/-- A program with a call inside a call, run until a return is one too many: both calls
are matched, the outer one by the return before the refused one. -/
theorem call_discipline_of_nested_calls :
    ∃ (events : List Event) (f call inner leaf back lost : Engine),
      Course (.new .standard (Vector.replicate 8 0)) events
        [.restarted, .tried call, .tried inner, .tried leaf, .tried back, .tried lost] f ∧
      (call.machine.pc, inner.machine.pc, leaf.machine.pc) = (0x200, 0x206, 0x20A) ∧
      leaf.step.engine.machine.pc = inner.machine.pc + 2 ∧
      back.step.engine.machine.pc = call.machine.pc + 2 ∧
      back.step.engine.Remembers call ∧
      lost.fault? = some (.stackUnderflow 0x202) ∧
      (∃ v ∈ events, v.reply.value = .error (.stackUnderflow 0x202)) ∧
      f.machine.calls.live = [] := by
  let e : Engine := .new .standard (Vector.replicate 8 0)
  let program : List UInt8 :=
    [0x22, 0x06, 0x00, 0xEE, 0x00, 0x00, 0x22, 0x0A, 0x00, 0xEE, 0x00, 0xEE]
  let g : Engine := (e.run program 7).engine
  have hx : (g.resume Scheduler.toCompletion 8 ()).map
      (fun r => (r.notices.countP Notice.isDispatch, r.engine.machine.calls.live)) =
        some (5, []) := by decide +kernel
  have ht : (List.range 5).map (fun k => ((g.after k).machine.pc,
      (g.after k).machine.calls.depth, (g.after k).machine.instruction, (g.after k).fault?)) =
        [(0x200, 0, .call 0x206, none), (0x206, 1, .call 0x20A, none), (0x20A, 2, .ret, none),
          (0x208, 1, .ret, none), (0x202, 0, .ret, some (.stackUnderflow 0x202))] := by
    decide +kernel
  obtain ⟨r, hr, hy⟩ := Option.map_eq_some_iff.mp hx
  obtain ⟨hn, hlive⟩ := Prod.mk.inj hy
  simp only [List.range, List.range.loop, List.map, List.cons.injEq, Prod.mk.injEq] at ht
  obtain ⟨⟨hp0, hd0, hi0, hf0⟩, ⟨hp1, hd1, hi1, hf1⟩, ⟨hp2, hd2, hi2, hf2⟩,
    ⟨hp3, hd3, hi3, hf3⟩, ⟨hp4, hd4, hi4, hf4⟩, _⟩ := ht
  have hc := Course.of_run_resume hr
  rw [hn] at hc
  have hd := call_discipline hc
  have hin : OpenCall (g.after 1) [] := .nil (by rw [hi1]; rfl) hf1
  have hs1 : (g.after 0).machine.calls.depth < (g.after 2).machine.calls.depth := by omega
  have hs2 : (g.after 0).machine.calls.depth < (g.after 3).machine.calls.depth := by omega
  have hout : OpenCall (g.after 0) ([.tried (g.after 1)] ++ [.tried (g.after 2)]) :=
    (OpenCall.concat (.nil (by rw [hi0]; rfl) hf0) hs1).concat hs2
  have hleaf := hd.matched [.restarted, .tried (g.after 0)] [] _ _ _ rfl hin hi2
    (hd3.trans hd1.symm)
  have hback := hd.matched [.restarted] [.tried (g.after 1), .tried (g.after 2)] _ _ _ rfl
    hout hi3 (hd4.trans hd0.symm)
  let resumed : Event := ⟨g, .resume Scheduler.toCompletion (), r.toReply.answer .returned⟩
  have herr : resumed.reply.value = .error (.stackUnderflow 0x202) := by
    refine (hd.reported resumed (by simp [resumed, g]) trivial _).mpr ⟨g.after 4, ?_, hf4⟩
    have hcount : resumed.reply.notices.countP Notice.isDispatch = 5 := hn
    rw [Engine.moments_resume, hcount]
    exact List.mem_map_of_mem (List.mem_range.mpr (by decide))
  exact ⟨_, _, _, _, _, _, _, hc, by rw [hp0, hp1, hp2], hleaf.1, hback.1, hback.2.2, hf4,
    ⟨resumed, by simp [resumed, g], herr⟩, hlive⟩

end Chip8
