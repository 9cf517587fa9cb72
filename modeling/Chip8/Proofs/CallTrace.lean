import Chip8.Proofs.Calls
import Chip8.Proofs.Loads
import Chip8.Proofs.Parking

/-!
# Calls read from a trace

A trace that keeps calls and returns, and of which nothing was lost, holds the call stack:
whoever reads it from the start of a run, remembers where each call was made and forgets
the innermost of them at each return, ends with the live part of the stack. Nothing but the
word of an instruction and the machine behind it is known to the tracer.
-/

namespace Chip8.Debug

namespace TraceEvent

/-- Where the calls were made that have not returned after an event, the innermost one
last, from those before it. Nothing is told if a return does not go behind the innermost
call. -/
def follow (calls : List UInt16) : TraceEvent → Option (List UInt16)
  | .call source _ => some (calls ++ [source])
  | .ret _ target =>
    match calls.getLast? with
    | some source => if target = source + 2 then some calls.dropLast else none
    | none => none
  | _ => some calls

/-- Events are followed one after the other. -/
def replay (calls : List UInt16) (events : List TraceEvent) : Option (List UInt16) :=
  events.foldlM follow calls

/-- Events are replayed from where the ones before them have led. -/
theorem replay_append {calls : List UInt16} {events : List TraceEvent} {left : List UInt16}
    (h : replay calls events = some left) (more : List TraceEvent) :
    replay calls (events ++ more) = replay left more := by
  rw [replay, List.foldlM_append]
  show (replay calls events).bind _ = _
  rw [h]
  rfl

/-- A filter that keeps calls and returns drops nothing that matters. -/
theorem replay_filter {f : TraceFilter} (hf : f.controlFlow = true) (calls : List UInt16)
    (events : List TraceEvent) : replay calls (events.filter f.keeps) = replay calls events := by
  have hdrop : ∀ e, f.keeps e = false → ∀ calls, follow calls e = some calls := by
    intro e he calls
    cases e with
    | instruction pc word => rfl
    | call source target => exact absurd (hf.symm.trans he) (by simp)
    | ret source target => exact absurd (hf.symm.trans he) (by simp)
    | draw x y rows collision => rfl
  induction events generalizing calls with
  | nil => rfl
  | cons e events ih =>
    cases he : f.keeps e with
    | false =>
      rw [List.filter_cons_of_neg (by simp [he]), ih calls]
      show _ = (follow calls e).bind _
      rw [hdrop e he calls]
      rfl
    | true =>
      rw [List.filter_cons_of_pos he]
      show (follow calls e).bind _ = (follow calls e).bind _
      congr 1
      funext left
      exact ih left

/-- A call is traced as one. -/
theorem special?_of_call {record : Retired} (hc : (Instruction.decode record.word).isCall = true)
    (m : Machine) : special? record m = some (.call record.address m.pc) := by
  unfold special?
  cases hi : Instruction.decode record.word with
  | call target => rfl
  | _ =>
    rw [hi] at hc
    cases hc

/-- A return is traced as one. -/
theorem special?_of_ret {record : Retired} (hr : Instruction.decode record.word = .ret)
    (m : Machine) : special? record m = some (.ret record.address m.pc) := by
  rw [special?, hr]

/-- What is traced of any other instruction changes no calls. -/
theorem replay_special {record : Retired} (hr : Instruction.decode record.word ≠ .ret)
    (hc : ¬(Instruction.decode record.word).isCall = true) (m : Machine) (calls : List UInt16) :
    replay calls (special? record m).toList = some calls := by
  unfold special?
  split
  · rename_i hi
    exact absurd hi hr
  · rename_i hi
    exact absurd (congrArg Instruction.isCall hi) hc
  · rfl
  · rfl

/-- A return behind the innermost call takes it away. -/
theorem follow_ret {calls : List UInt16} {address : UInt16}
    (h : calls.getLast? = some address) (source : UInt16) :
    follow calls (.ret source (address + 2)) = some calls.dropLast := by
  rw [follow, h]
  exact if_pos rfl

/-- The events of an instruction that retires lead from the live addresses before it to
those behind it. -/
theorem replay_ofRetired {e : Engine} (hf : e.fault? = none) :
    replay e.machine.calls.live (ofRetired e.core.upcoming e.step.engine.machine) =
      some e.step.engine.machine.calls.live := by
  have hl := e.live_step
  have hw : Instruction.decode e.core.upcoming.word = e.machine.instruction := rfl
  show replay e.machine.calls.live (special? e.core.upcoming e.step.engine.machine).toList = _
  rcases e.calls_step with ⟨_, hi, _⟩ | ⟨_, hc, _⟩ | ⟨ho, hs⟩
  · obtain ⟨address, ha, hx⟩ := Engine.pc_of_ret_live hi hf
    rw [special?_of_ret (hw.trans hi), hx, hl, Moment.follow_of_ret hf hi]
    show (follow e.machine.calls.live (.ret e.machine.pc (address + 2))).bind some = _
    rw [follow_ret ha]
    rfl
  · rw [← hw] at hc
    rw [special?_of_call hc, hl, Moment.follow_of_call hf hc]
    rfl
  · obtain ⟨hr, hc⟩ := ho hf
    rw [← hw] at hr hc
    rw [replay_special hr hc, hs]

end TraceEvent

namespace Tracer

variable {t u w : Tracer}

/-- A tracer has recorded some events, unless it has lost any. -/
structure Appends (t u : Tracer) (events : List TraceEvent) : Prop where
  /-- The filter stays. -/
  filter : u.filter = t.filter
  /-- What has been lost stays lost. -/
  evicted_le : t.evicted ≤ u.evicted
  /-- If nothing more has been lost, the events are held behind the earlier ones. -/
  held : u.evicted = t.evicted → u.events.toList = t.events.toList ++ events

/-- Events are recorded one behind the other. -/
theorem Appends.trans {events more : List TraceEvent} (h : Appends t u events)
    (hw : Appends u w more) : Appends t w (events ++ more) where
  filter := hw.filter.trans h.filter
  evicted_le := Nat.le_trans h.evicted_le hw.evicted_le
  held := by
    intro he
    have htu := h.evicted_le
    have huw := hw.evicted_le
    have hu : u.events.toList = t.events.toList ++ events := h.held (by omega)
    rw [hw.held (by omega), hu, List.append_assoc]

/-- An event that passes the filter is recorded, and no other one. -/
theorem appends_record (t : Tracer) (e : TraceEvent) :
    Appends t (t.record e) ([e].filter t.filter.keeps) := by
  unfold record
  cases hk : t.filter.keeps e with
  | false =>
    rw [if_neg Bool.false_ne_true, List.filter_cons_of_neg (by simp [hk])]
    exact ⟨rfl, Nat.le_refl _, fun _ => (List.append_nil _).symm⟩
  | true =>
    rw [if_pos rfl, List.filter_cons_of_pos hk, push]
    split
    · -- The oldest event has made room for this one.
      refine ⟨rfl, Nat.le_succ _, ?_⟩
      intro he
      have hn : t.evicted + 1 = t.evicted := he
      omega
    · exact ⟨rfl, Nat.le_refl _, fun _ => Queue.toList_push t.events e⟩

/-- The events of a list that pass the filter are recorded in its order. -/
theorem appends_foldl (events : List TraceEvent) (t : Tracer) :
    Appends t (events.foldl record t) (events.filter t.filter.keeps) := by
  induction events generalizing t with
  | nil => exact ⟨rfl, Nat.le_refl _, fun _ => (List.append_nil _).symm⟩
  | cons e events ih =>
    have hr := t.appends_record e
    have hs := ih (t.record e)
    rw [hr.filter] at hs
    have he : (e :: events).filter t.filter.keeps =
        [e].filter t.filter.keeps ++ events.filter t.filter.keeps := by
      rw [← List.filter_append, List.singleton_append]
    rw [he]
    exact hr.trans hs

end Tracer

/-- What a trace tells of an engine: followed from no calls, the events that were taken out
and those that are held lead to the live part of the call stack, unless more have been lost
than some number. -/
structure Rebuilds (lost : Nat) (drained : List TraceEvent) (e : Engine) (h : Host) : Prop where
  /-- Calls and returns are kept. -/
  controlFlow : h.tracer.filter.controlFlow = true
  /-- As many events have been lost already. -/
  lost_le : lost ≤ h.tracer.evicted
  /-- The events lead to the live part of the stack. -/
  live : h.tracer.evicted = lost →
    TraceEvent.replay [] (drained ++ h.tracer.events.toList) = some e.machine.calls.live

namespace Rebuilds

variable {lost : Nat} {drained : List TraceEvent} {e f : Engine} {h k : Host}

/-- Only the tracer and the call stack matter. -/
theorem of_eq (hx : Rebuilds lost drained e h) (hk : k.tracer = h.tracer)
    (hf : f.machine.calls = e.machine.calls) : Rebuilds lost drained f k where
  controlFlow := by
    rw [hk]
    exact hx.controlFlow
  lost_le := by
    rw [hk]
    exact hx.lost_le
  live := by
    rw [hk, hf]
    exact hx.live

/-- An instruction that retires is recorded. -/
theorem retire (hx : Rebuilds lost drained e h) (hf : e.fault? = none) :
    Rebuilds lost drained e.step.engine (h.record e.core.upcoming e.step.engine.machine) := by
  have ha := Tracer.appends_foldl
    (TraceEvent.ofRetired e.core.upcoming e.step.engine.machine) h.tracer
  refine ⟨?_, Nat.le_trans hx.lost_le ha.evicted_le, ?_⟩
  · exact (congrArg TraceFilter.controlFlow ha.filter).trans hx.controlFlow
  · intro hl
    change ((TraceEvent.ofRetired e.core.upcoming e.step.engine.machine).foldl Tracer.record
      h.tracer).evicted = lost at hl
    have hle := ha.evicted_le
    have hlost := hx.lost_le
    have hbefore := hx.live (by omega)
    show TraceEvent.replay [] (drained ++ ((TraceEvent.ofRetired e.core.upcoming
      e.step.engine.machine).foldl Tracer.record h.tracer).events.toList) = _
    rw [ha.held (by omega), ← List.append_assoc, TraceEvent.replay_append hbefore,
      TraceEvent.replay_filter hx.controlFlow, TraceEvent.replay_ofRetired hf]

/-- An instruction that fails calls nothing and is not recorded. -/
theorem fail (hx : Rebuilds lost drained e h) {error : EngineError}
    (hf : e.fault? = some error) : Rebuilds lost drained e.step.engine h := by
  apply hx.of_eq rfl
  rw [Engine.machine_of_fails hf]
  rfl

/-- An instruction that is executed under the host is recorded if it retires. -/
theorem step (hx : Rebuilds lost drained e h) :
    Rebuilds lost drained (h.step e).2.engine (h.step e).1 := by
  unfold Host.step
  cases hf : e.fault? with
  | none =>
    dsimp only
    rw [Engine.value_of_retires hf]
    exact hx.retire hf
  | some error =>
    dsimp only
    rw [Engine.value_of_fails hf]
    exact hx.fail hf

end Rebuilds

/-- What the debugger answers does not concern the tracer. -/
theorem Host.tracer_of_follow {h k : Host} {x : Option PauseReason × Debugger}
    {decision : Decision} (hf : h.follow x = (decision, k)) : k.tracer = h.tracer := by
  rcases x with ⟨_ | reason, d⟩
  · cases hf
    rfl
  · cases hf
    rfl

namespace Rebuilds

variable {lost : Nat} {drained : List TraceEvent} {e : Engine} {h : Host} {p q : Progress Host}

/-- The host is asked before an instruction. -/
theorem beforeExec (hx : Rebuilds lost drained e h) {decision : Decision} {k : Host}
    (hb : Host.scheduler.beforeExec e h = (decision, k)) : Rebuilds lost drained e k :=
  hx.of_eq (Host.tracer_of_follow (x := h.debugger.beforeExec e.machine.pc) hb) rfl

/-- The host is asked at a yield point. -/
theorem yieldPoint (hx : Rebuilds lost drained e h) {decision : Decision} {k : Host}
    (hy : Host.scheduler.yieldPoint e h = (decision, k)) : Rebuilds lost drained e k :=
  hx.of_eq (Host.tracer_of_follow (x := h.debugger.afterExec e.machine.pc) hy) rfl

/-- A turn that does not end the run has recorded its instruction. -/
theorem turn (hx : Rebuilds lost drained p.engine p.scheduler)
    (ht : Progress.Turn Host.scheduler p (.inl q)) :
    Rebuilds lost drained q.engine q.scheduler := by
  cases ht with
  | left hp hb hf he => exact (hx.beforeExec hb).retire hf
  | went hp hb hf he hy => exact ((hx.beforeExec hb).retire hf).yieldPoint hy

/-- A run records its instructions for as long as it lasts. -/
theorem reaches (hx : Rebuilds lost drained p.engine p.scheduler)
    (hr : Progress.Reaches Host.scheduler p q) : Rebuilds lost drained q.engine q.scheduler :=
  hr.keeps (P := fun p => Rebuilds lost drained p.engine p.scheduler) turn hx

/-- The last turn of a run records its instruction if it retires. -/
theorem returned (hx : Rebuilds lost drained p.engine p.scheduler) {r : Resumed Host}
    (ht : Progress.Turn Host.scheduler p (.inr r)) :
    Rebuilds lost drained r.engine r.scheduler := by
  cases ht with
  | halted hp => exact hx.of_eq rfl rfl
  | refused hp hb => exact hx.beforeExec hb
  | failed hp hb hf => exact ((hx.beforeExec hb).fail hf).of_eq rfl rfl
  | yielded hp hb hf he hy => exact ((hx.beforeExec hb).retire hf).yieldPoint hy

/-- A run that is resumed under the host has recorded its instructions when it returns. -/
theorem resume (hx : Rebuilds lost drained e h) {limit : Nat} {r : Resumed Host}
    (hr : e.resume Host.scheduler limit h = some r) :
    Rebuilds lost drained r.engine r.scheduler := by
  rcases Engine.resume_cases hr with ⟨_, q, hq, ht⟩ | ⟨_, he⟩
  · exact (reaches (p := .start e h) hx hq).returned ht
  · rw [he]
    exact hx

/-- Events that are taken out stand before those that are held. -/
theorem drain (hx : Rebuilds lost drained e h) (most : Nat) :
    Rebuilds lost (drained ++ (h.tracer.drain most).1) e
      { h with tracer := (h.tracer.drain most).2 } := by
  refine ⟨hx.controlFlow, hx.lost_le, ?_⟩
  intro hl
  show TraceEvent.replay [] (drained ++ h.tracer.events.toList.take most ++
    (Queue.ofList (h.tracer.events.toList.drop most)).toList) = _
  rw [Queue.toList_ofList, List.append_assoc, List.take_append_drop]
  exact hx.live hl

end Rebuilds

/-- The events that an act takes out of the tracer. -/
def Scene.drained (v : Scene) : List TraceEvent :=
  match v.act with
  | .drain most => (v.host.tracer.drain most).1
  | _ => []

/-- All events that were recorded in a session that has left a host: those that were taken
out, and then those that are still held. -/
def recorded (scenes : List Scene) (k : Host) : List TraceEvent :=
  scenes.flatMap Scene.drained ++ k.tracer.events.toList

/-- Whether an act executes no instructions behind the back of the tracer and replaces no
run. -/
def Act.isTraced : Act → Bool
  | .operate (.load _ _) => true
  | .operate _ => false
  | _ => true

/-- A load leaves the call stack. -/
theorem calls_load (e : Engine) (program : List UInt8) (origin : UInt16) :
    (e.load program origin).engine.machine.calls = e.machine.calls := by
  unfold Engine.load
  cases hm : e.machine.load program origin with
  | error error => rfl
  | ok m =>
    obtain ⟨memory, length, hn⟩ := Machine.eq_of_load hm
    rw [hn]
    rfl

/-- What an act records is held or was taken out by it. -/
theorem Scene.Happens.rebuilds {v : Scene} {lost : Nat} {drained : List TraceEvent}
    (hv : v.Happens) (hx : Rebuilds lost drained v.engine v.host)
    (ha : v.act.isTraced = true) :
    Rebuilds lost (drained ++ v.drained) v.reply.engine v.left := by
  rcases v with ⟨e, h, act, reply, left⟩
  have hd : act.Done e h reply left := hv.done
  replace hx : Rebuilds lost drained e h := hx
  replace ha : act.isTraced = true := ha
  have hn : Rebuilds lost (drained ++ []) e h := by rwa [List.append_nil]
  cases hd with
  | told => exact hn.of_eq rfl rfl
  | resumed hr => exact hn.resume hr
  | stepped => exact hn.step
  | @drained most => exact hx.drain most
  | @operated operation reply hp =>
    cases operation with
    | load program origin =>
      obtain ⟨limit, hr⟩ := hp
      cases hr
      exact hn.of_eq rfl (calls_load e program origin)
    | _ => cases ha

/-- What a session records is held or was taken out in it. -/
theorem Session.rebuilds {e f : Engine} {h k : Host} {scenes : List Scene} {lost : Nat}
    (hs : Session e h scenes f k) (hx : Rebuilds lost [] e h)
    (ha : ∀ v ∈ scenes, v.act.isTraced = true) :
    Rebuilds lost (scenes.flatMap Scene.drained) f k := by
  induction hs with
  | nil => exact hx
  | @snoc scenes v hs hv ih =>
    obtain ⟨ha, hl⟩ := List.forall_mem_append.mp ha
    rw [List.flatMap_append, List.flatMap_singleton]
    exact hv.rebuilds (ih ha) (hl v List.mem_cons_self)

/-- An operation that replaces the run leaves no live calls, whether it is refused or not. -/
theorem live_of_replaces {e : Engine} {operation : Operation}
    {reply : Reply (Except EngineError Answer)} (hp : Performs e operation reply)
    (ho : operation.Replaces) : reply.engine.machine.calls.live = [] := by
  obtain ⟨limit, hp⟩ := hp
  cases operation with
  | run program ticket =>
    cases hp
    show (e.run program ticket).engine.machine.calls.live = []
    rw [Engine.run_eq]
    cases hm : Machine.initial.load program programOrigin with
    | error error => rfl
    | ok m =>
      obtain ⟨memory, length, hn⟩ := Machine.eq_of_load hm
      rw [hn]
      rfl
  | reset =>
    cases hp
    rfl
  | _ => exact ho.elim

/-- From a run or a reset on, a trace that keeps calls and returns and of which nothing was
lost rebuilds the live part of the call stack, also when the last instruction has ended the
run: each return goes behind the innermost call that has not returned. -/
theorem trace_rebuilds_calls {g f : Engine} {operation : Operation}
    {start : Reply (Except EngineError Answer)} {h k : Host} {scenes : List Scene}
    (hp : Performs g operation start) (ho : operation.Replaces)
    (hs : Session start.engine h scenes f k) (ha : ∀ v ∈ scenes, v.act.isTraced = true)
    (hf : h.tracer.filter.controlFlow = true) (hn : h.tracer.events.toList = [])
    (hl : k.tracer.evicted = h.tracer.evicted) :
    TraceEvent.replay [] (recorded scenes k) = some f.machine.calls.live := by
  have hx : Rebuilds h.tracer.evicted [] start.engine h := by
    refine ⟨hf, Nat.le_refl _, ?_⟩
    intro _
    rw [hn, live_of_replaces hp ho]
    rfl
  exact (hs.rebuilds hx ha).live hl

/-- Two calls, the inner one of which has returned when the run is over. It was suspended at
a breakpoint, stepped by hand and drained in between. -/
theorem trace_rebuilds_calls_of_nested_calls :
    ∃ (g f : Engine) (operation : Operation) (start : Reply (Except EngineError Answer))
      (h k : Host) (scenes : List Scene), Performs g operation start ∧
      Session start.engine h scenes f k ∧ f.lifecycle = .halted ∧
      recorded scenes k = [.call 0x200 0x204, .call 0x204 0x208, .ret 0x20A 0x206] ∧
      TraceEvent.replay [] (recorded scenes k) = some f.machine.calls.live ∧
      f.machine.calls.live = [0x200] := by
  let g : Engine := .new .standard (Vector.replicate 8 0)
  let operation : Operation := .run
    [0x22, 0x04, 0x00, 0x00, 0x22, 0x08, 0xBF, 0xFF, 0x60, 0x01, 0x00, 0xEE] 1
  let start : Reply (Except EngineError Answer) :=
    (g.run [0x22, 0x04, 0x00, 0x00, 0x22, 0x08, 0xBF, 0xFF, 0x60, 0x01, 0x00, 0xEE] 1).answer
      fun _ => .done
  let h : Host := .new ⟨[0x208], false, none, none⟩ (.new 4 .standard)
  let acts : List Act := [.resume, .drain 1, .step, .tell .resume, .resume]
  have hx : (Session.replay 4 start.engine h acts).map (fun (scenes, f, k) =>
      ((scenes.all fun v => v.act.isTraced, k.tracer.evicted), (f.lifecycle,
        recorded scenes k, f.machine.calls.live))) =
      some ((true, 0), (.halted,
        [.call 0x200 0x204, .call 0x204 0x208, .ret 0x20A 0x206], [0x200])) := by
    decide +kernel
  obtain ⟨⟨scenes, f, k⟩, hs, hx⟩ := Option.map_eq_some_iff.mp hx
  simp only [Prod.mk.injEq] at hx
  obtain ⟨⟨ha, hl⟩, hf, hr, hc⟩ := hx
  have ha : ∀ v ∈ scenes, v.act.isTraced = true := List.all_eq_true.mp ha
  have hp : Performs g operation start := ⟨0, rfl⟩
  exact ⟨g, f, operation, start, h, k, scenes, hp, .of_replay hs, hf, hr,
    trace_rebuilds_calls hp trivial (.of_replay hs) ha rfl rfl hl, hc⟩

end Chip8.Debug
