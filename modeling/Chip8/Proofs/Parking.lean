import Chip8.Proofs.DebuggedRun
import Chip8.Proofs.Session

/-!
# Parked debuggers

A debugger passes a breakpoint over once where it is parked. Throughout a session it is
parked where its host has suspended a run last, unless it has let an instruction be
executed since, whatever commands, loads, resets and runs there have been. So a
breakpoint at the origin stops a run that has just been started before its first
instruction, unless an earlier run was suspended there last and abandoned.
-/

namespace Chip8.Debug

namespace Debugger

/-- No command moves the address at which the debugger is parked. -/
@[simp]
theorem parkedAt_obey (d : Debugger) (command : Command) :
    (d.obey command).parkedAt = d.parkedAt := by
  cases command with
  | setBreakpoint pc => rfl
  | pause => rfl
  | resume => rfl
  | requestSteps count => rfl

/-- A debugger is parked at an instruction that it refuses, and nowhere once it has let
one be executed. -/
theorem parkedAt_beforeExec (d : Debugger) (pc : UInt16) :
    (d.beforeExec pc).2.parkedAt = (d.beforeExec pc).1.map fun _ => pc := by
  unfold beforeExec
  split
  · rfl
  · split
    · rfl
    · rfl

/-- Counting instructions parks a debugger only where it stops the run. -/
theorem parkedAt_afterExec (d : Debugger) (pc : UInt16) :
    (d.afterExec pc).2.parkedAt = ((d.afterExec pc).1.map fun _ => pc).or d.parkedAt := by
  unfold afterExec
  split
  · rfl
  · split
    · rfl
    · rfl

end Debugger

namespace Host

variable {e : Engine} {h k : Host}

/-- The host does what the debugger answers and keeps the debugger that answered it. -/
theorem of_follow_eq {x : Option PauseReason × Debugger} {decision : Decision}
    (hf : h.follow x = (decision, k)) : k.debugger = x.2 ∧
      decision = x.1.elim .proceed fun reason => .suspend (some reason) := by
  rcases x with ⟨_ | reason, d⟩
  · cases hf
    exact ⟨rfl, rfl⟩
  · cases hf
    exact ⟨rfl, rfl⟩

/-- A step under the host does not ask the debugger. -/
theorem debugger_step (h : Host) (e : Engine) : (h.step e).1.debugger = h.debugger := by
  unfold step
  dsimp only
  cases e.step.value with
  | ok retired => rfl
  | error error => rfl

/-- Where the debugger is parked once the host has judged an instruction. -/
theorem parkedAt_of_beforeExec {decision : Decision}
    (hb : scheduler.beforeExec e h = (decision, k)) :
    k.debugger.parkedAt = if decision = .proceed then none else some e.machine.pc := by
  obtain ⟨hk, hd⟩ := of_follow_eq (x := h.debugger.beforeExec e.machine.pc) hb
  rw [hk, hd, Debugger.parkedAt_beforeExec]
  cases (h.debugger.beforeExec e.machine.pc).1 with
  | none => rfl
  | some reason => rfl

/-- Where the debugger is parked once the host has counted an instruction. -/
theorem parkedAt_of_yieldPoint {decision : Decision}
    (hy : scheduler.yieldPoint e h = (decision, k)) :
    k.debugger.parkedAt =
      if decision = .proceed then h.debugger.parkedAt else some e.machine.pc := by
  obtain ⟨hk, hd⟩ := of_follow_eq (x := h.debugger.afterExec e.machine.pc) hy
  rw [hk, hd, Debugger.parkedAt_afterExec]
  cases (h.debugger.afterExec e.machine.pc).1 with
  | none => rfl
  | some reason => rfl

end Host

/-- A run under a debugging host, after some turns: the debugger is parked where it was
until it has let an instruction be executed, and nowhere then. -/
structure Unparked (h : Host) (p : Progress Host) : Prop where
  /-- At first nothing has been asked. -/
  untouched : p.executed = 0 → p.scheduler = h
  /-- The instruction at which the debugger was parked has been passed. -/
  passed : 0 < p.executed → p.scheduler.debugger.parkedAt = none

namespace Unparked

variable {h : Host} {p q : Progress Host}

/-- A turn that does not end the run lets an instruction be executed. -/
theorem turn (ht : Progress.Turn Host.scheduler p (.inl q)) : Unparked h q where
  untouched := by
    intro hz
    have he := ht.executed
    omega
  passed := by
    intro _
    cases ht with
    | left hp hb hf he => exact Host.parkedAt_of_beforeExec hb
    | went hp hb hf he hy =>
      exact (Host.parkedAt_of_yieldPoint hy).trans (Host.parkedAt_of_beforeExec hb)

/-- At every turn the debugger is parked where it was or nowhere. -/
theorem reaches {e : Engine} (hr : Progress.Reaches Host.scheduler (.start e h) p) :
    Unparked h p := by
  rcases hr.cases_tail with he | ⟨q, _, ht⟩
  · rw [he]
    exact ⟨fun _ => rfl, fun hn => absurd hn (Nat.lt_irrefl 0)⟩
  · exact turn ht

end Unparked

/-- Where a run under a debugging host was suspended last, once another resumption has
left an engine and answered. A run that is over before its first instruction, or not in
progress, changes nothing. -/
def stopAfter (earlier : Option UInt16) (e : Engine) :
    Except EngineError Answer → Option UInt16
  | .error _ => none
  | .ok (.returned (.yielded _)) => some e.machine.pc
  | .ok (.returned (.halted (_ + 1))) => none
  | .ok _ => earlier

/-- Where the debugging host has suspended a run last after a scene. -/
def Scene.lastStop (earlier : Option UInt16) (v : Scene) : Option UInt16 :=
  match v.act with
  | .resume => stopAfter earlier v.reply.engine v.reply.value
  | _ => earlier

/-- The address at which the debugging host has suspended a run last in a session, unless
it has let an instruction be executed since. -/
def lastStop (scenes : List Scene) : Option UInt16 := scenes.foldl Scene.lastStop none

/-- Where a resumption leaves the debugger parked. -/
theorem Unparked.parkedAt {h : Host} {p : Progress Host} (hp : Unparked h p)
    {r : Resumed Host} (ht : Progress.Turn Host.scheduler p (.inr r)) :
    r.scheduler.debugger.parkedAt =
      stopAfter h.debugger.parkedAt r.engine (r.value.map .returned) := by
  cases ht with
  | halted hi =>
    show p.scheduler.debugger.parkedAt =
      stopAfter h.debugger.parkedAt p.engine (.ok (.returned (.halted p.executed)))
    cases he : p.executed with
    | zero =>
      rw [hp.untouched he]
      rfl
    | succ n =>
      have hn : 0 < p.executed := by omega
      exact hp.passed hn
  | refused hi hb => exact Host.parkedAt_of_beforeExec hb
  | failed hi hb hf => exact Host.parkedAt_of_beforeExec hb
  | yielded hi hb hf he hy => exact Host.parkedAt_of_yieldPoint hy

/-- Where a resumption under the debugging host leaves the debugger parked. -/
theorem parkedAt_of_resume {limit : Nat} {e : Engine} {h : Host} {r : Resumed Host}
    (hr : e.resume Host.scheduler limit h = some r) : r.scheduler.debugger.parkedAt =
      stopAfter h.debugger.parkedAt r.engine (r.value.map .returned) := by
  rcases Engine.resume_cases hr with ⟨_, q, hq, ht⟩ | ⟨_, he⟩
  · exact (Unparked.reaches hq).parkedAt ht
  · rw [he]
    rfl

/-- Where an act leaves the debugger parked. -/
theorem Scene.Happens.parkedAt {v : Scene} (hv : v.Happens) :
    v.left.debugger.parkedAt = v.lastStop v.host.debugger.parkedAt := by
  rcases v with ⟨e, h, act, reply, left⟩
  have hd : act.Done e h reply left := hv.done
  cases hd with
  | @told command => exact Debugger.parkedAt_obey h.debugger command
  | resumed hr => exact parkedAt_of_resume hr
  | stepped => exact congrArg Debugger.parkedAt (h.debugger_step e)
  | drained => rfl
  | operated hp => rfl

/-- Throughout a session the debugger is parked where the host has suspended a run
last. -/
theorem Session.parkedAt_eq {e f : Engine} {h k : Host} {scenes : List Scene}
    (hs : Session e h scenes f k) (hn : h.debugger.parkedAt = none) :
    k.debugger.parkedAt = lastStop scenes := by
  induction hs with
  | nil => exact hn
  | snoc hs hv ih =>
    rw [lastStop, List.foldl_append, hv.parkedAt, ih]
    rfl

/-- A session goes on with another run, which does not tell the debugger anything. -/
theorem Session.run {e f : Engine} {h k : Host} {scenes : List Scene}
    (hs : Session e h scenes f k) (program : List UInt8) (ticket : Ticket) :
    ∃ v, Session e h (scenes ++ [v]) (f.run program ticket).engine k ∧
      lastStop (scenes ++ [v]) = lastStop scenes := by
  let reply := (f.run program ticket).answer fun _ => .done
  have hv : Scene.Happens ⟨f, k, .operate (.run program ticket), reply, k⟩ := ⟨0, rfl⟩
  refine ⟨_, hs.snoc hv, ?_⟩
  rw [lastStop, List.foldl_append]
  rfl

end Chip8.Debug

namespace Chip8.Engine

variable {σ : Type} {hooks : Scheduler σ} {e : Engine} {s t : σ}

/-- A run whose first instruction the scheduler refuses is suspended at once. -/
theorem resume_of_refused (hr : e.isRunning = true) (hp : e.machine.pastEnd = false)
    {reason : Option Debug.PauseReason} (hb : hooks.beforeExec e s = (.suspend reason, t))
    (limit : Nat) : e.resume hooks (limit + 1) s =
      some ({ Progress.start e s with scheduler := t }.suspend reason) := by
  have ht : (Progress.start e s).turn hooks =
      .inr ({ Progress.start e s with scheduler := t }.suspend reason) :=
    (Progress.Turn.refused hp hb).turn_eq
  rw [resume_of_running hr, Progress.proceed, ht]

/-- A run that is suspended before it has executed anything was refused its first
instruction by the scheduler. -/
theorem refused_of_yielded {limit : Nat} {r : Resumed σ} (hr : e.isRunning = true)
    (hx : e.resume hooks limit s = some r) (hv : r.value = .ok (.yielded 0)) :
    ∃ reason t, hooks.beforeExec e s = (.suspend reason, t) := by
  rw [resume_of_running hr] at hx
  obtain ⟨q, hq, ht⟩ := Progress.turn_of_proceed hx
  cases ht with
  | halted hp => cases hv
  | failed hp hb hf => cases hv
  | yielded hp hb hf he hy => cases hv
  | @refused reason t hp hb =>
    have hz : q.executed = 0 := RunExit.yielded.inj (Except.ok.inj hv)
    rcases hq.cases_tail with he | ⟨p, _, hn⟩
    · rw [he] at hb
      exact ⟨reason, t, hb⟩
    · have hs := hn.executed
      omega

/-- A run that has not been suspended at once fetches its first instruction first. -/
theorem Resumption.head?_notices {reply : Reply (Except EngineError RunExit)}
    (h : e.Resumption reply) (hr : e.isRunning = true) (hp : e.machine.pastEnd = false)
    (hv : reply.value ≠ .ok (.yielded 0)) : reply.notices.head? = some e.dispatch := by
  have hd : ∀ (n : Nat) (tail : List Notice),
      (e.dispatches (n + 1) ++ tail).head? = some e.dispatch := by
    intro n tail
    rw [dispatches, List.range_succ_eq_map]
    rfl
  cases h with
  | idle hi =>
    rw [hr] at hi
    cases hi
  | @yielded n reason hi hc hq =>
    cases n with
    | zero => exact absurd rfl hv
    | succ n => exact hd n _
  | @halted n hi hc hq =>
    cases n with
    | zero =>
      have hn : e.machine.pastEnd = true := hq
      rw [hp] at hn
      cases hn
    | succ n => exact hd n _
  | @aborted n error hi hc hq hf => exact hd n _

end Chip8.Engine

namespace Chip8.Debug

variable {e : Engine} {h : Host}

/-- A run at a breakpoint where its host has not suspended it last executes nothing when it
is resumed: it is suspended there. -/
theorem resume_of_unparked (hr : e.isRunning = true) (hp : e.machine.pastEnd = false)
    (hd : h.debugger.paused = false) (hb : e.machine.pc ∈ h.debugger.breakpoints)
    (hn : h.debugger.parkedAt ≠ some e.machine.pc) (limit : Nat) :
    e.resume Host.scheduler (limit + 1) h = some
      { engine := e
        notices := [.event (.debuggerPaused e.machine.pc (.breakpoint e.machine.pc))]
        value := .ok (.yielded 0)
        scheduler :=
          { h with
            debugger := ⟨h.debugger.breakpoints, true, none, some e.machine.pc⟩
            lastPause := some (.breakpoint e.machine.pc) } } := by
  have hbarred : Barred e h.debugger 0 := ⟨hb, fun hparked => hn hparked.2⟩
  have hx := Debugger.beforeExec_of_barred hd hbarred
  rw [Debugger.ran_zero, Engine.after] at hx
  have ha : Host.scheduler.beforeExec e h = (.suspend (some (.breakpoint e.machine.pc)),
      { h with
        debugger := ⟨h.debugger.breakpoints, true, none, some e.machine.pc⟩
        lastPause := some (.breakpoint e.machine.pc) }) := by
    show h.follow (h.debugger.beforeExec e.machine.pc) = _
    rw [hx]
    rfl
  rw [Engine.resume_of_refused hr hp ha limit]
  rfl

/-- A debugger that is not paused lets the instruction be executed at which it is
parked. -/
theorem Debugger.beforeExec_of_parked {d : Debugger} {pc : UInt16} (hp : d.paused = false)
    (hq : d.parkedAt = some pc) : (d.beforeExec pc).1 = none := by
  have hn : ¬d.paused = true := by
    rw [hp]
    exact Bool.false_ne_true
  have hb : ¬(d.parkedAt ≠ some pc ∧ d.breakpoints.contains pc = true) := fun hb => hb.1 hq
  rw [Debugger.beforeExec, if_neg hn, if_neg hb]

/-- A run that its host has suspended last where it stands is not suspended there again
before it has executed anything. -/
theorem ne_yielded_of_parked {limit : Nat} {r : Resumed Host} (hr : e.isRunning = true)
    (hd : h.debugger.paused = false) (hq : h.debugger.parkedAt = some e.machine.pc)
    (hx : e.resume Host.scheduler limit h = some r) : r.value ≠ .ok (.yielded 0) := by
  intro hv
  obtain ⟨reason, t, hb⟩ := Engine.refused_of_yielded hr hx hv
  have hf : h.follow (h.debugger.beforeExec e.machine.pc) = (.suspend reason, t) := hb
  obtain ⟨_, hs⟩ := Host.of_follow_eq hf
  rw [Debugger.beforeExec_of_parked hd hq] at hs
  cases hs

/-- A run has just been started, with a breakpoint at the origin and the debugger not
paused. If the host has suspended a run last at any other address or at none, the first
resumption executes nothing: it is suspended at the breakpoint. If the host has suspended
a run last at the origin, even though that run is gone, the first instruction is not
stopped but executed. -/
theorem fresh_run_breakpoint {config : Config} {key : Random.Key} {tracer : Tracer}
    {scenes : List Scene} {e : Engine} {h : Host} {program : List UInt8} {ticket : Ticket}
    (hs : Session (.new config key) (.new .new tracer) scenes (e.run program ticket).engine h)
    (hv : (e.run program ticket).value = .ok ()) (hd : h.debugger.paused = false)
    (hb : programOrigin ∈ h.debugger.breakpoints) :
    let started := (e.run program ticket).engine
    let reason := PauseReason.breakpoint programOrigin
    (lastStop scenes ≠ some programOrigin → ∀ limit,
      started.resume Host.scheduler (limit + 1) h = some
        { engine := started
          notices := [.event (.debuggerPaused programOrigin reason)]
          value := .ok (.yielded 0)
          scheduler :=
            { h with
              debugger := ⟨h.debugger.breakpoints, true, none, some programOrigin⟩
              lastPause := some reason } }) ∧
    (lastStop scenes = some programOrigin → ∀ limit r,
      started.resume Host.scheduler limit h = some r →
        r.value ≠ .ok (.yielded 0) ∧ r.notices.head? = some started.dispatch) := by
  intro started reason
  obtain ⟨hr, hpc, _⟩ := Engine.run_accepted hv
  have hp : started.machine.pastEnd = false := by
    rw [Machine.pastEnd, hpc]
    rfl
  have hq : h.debugger.parkedAt = lastStop scenes := hs.parkedAt_eq rfl
  refine ⟨?_, ?_⟩
  · intro hl limit
    have hat : started.machine.pc ∈ h.debugger.breakpoints := by
      rw [hpc]
      exact hb
    have hn : h.debugger.parkedAt ≠ some started.machine.pc := by
      rw [hq, hpc]
      exact hl
    have hx := resume_of_unparked hr hp hd hat hn limit
    rw [hpc] at hx
    exact hx
  · intro hl limit r hx
    have hparked : h.debugger.parkedAt = some started.machine.pc := by
      rw [hq, hpc]
      exact hl
    have hz := ne_yielded_of_parked hr hd hparked hx
    exact ⟨hz, (Engine.resumption hx).head?_notices hr hp hz⟩

/-- A run is abandoned where a step request has led it; another run is stopped at the
breakpoint at the origin before it executes anything. -/
theorem fresh_run_breakpoint_of_steps :
    ∃ (scenes : List Scene) (e : Engine) (h : Host) (program : List UInt8) (r : Resumed Host),
      Session (.new .standard (Vector.replicate 8 0)) .standard scenes
        (e.run program 2).engine h ∧
      (e.run program 2).value = .ok () ∧
      h.debugger = ⟨[0x200], false, none, some 0x202⟩ ∧ lastStop scenes = some 0x202 ∧
      (e.run program 2).engine.resume Host.scheduler 1 h = some r ∧
      r.engine = (e.run program 2).engine ∧ r.value = .ok (.yielded 0) ∧
      r.scheduler.lastPause = some (.breakpoint 0x200) := by
  let program : List UInt8 := [0x60, 0xFF, 0xBF, 0xFF]
  have hx : (Session.replay 2 (.new .standard (Vector.replicate 8 0)) .standard
      [.operate (.run program 1), .tell (.requestSteps 1), .resume,
        .tell (.setBreakpoint 0x200), .tell .resume]).map
        (fun x => (x.2.2.debugger, lastStop x.1)) =
          some (⟨[0x200], false, none, some 0x202⟩, some 0x202) := by decide +kernel
  obtain ⟨⟨scenes, e, h⟩, hs, hy⟩ := Option.map_eq_some_iff.mp hx
  obtain ⟨hd, hl⟩ := Prod.mk.inj hy
  obtain ⟨v, hf, hm⟩ := (Session.of_replay hs).run program 2
  have hv : (e.run program 2).value = .ok () := rfl
  have hp : h.debugger.paused = false := congrArg Debugger.paused hd
  have hb : programOrigin ∈ h.debugger.breakpoints := by
    have he : h.debugger.breakpoints = [0x200] := congrArg Debugger.breakpoints hd
    rw [he]
    exact List.mem_singleton.mpr rfl
  rw [hl] at hm
  have hr := (fresh_run_breakpoint hf hv hp hb).1 (by rw [hm]; decide) 0
  exact ⟨_, e, h, program, _, hf, hv, hd, hm, hr, rfl, rfl, rfl⟩

/-- A run is abandoned where it was stopped, at the breakpoint at the origin; another run
passes that breakpoint over and comes to its end. -/
theorem fresh_run_passes_breakpoint :
    ∃ (scenes : List Scene) (e : Engine) (h : Host) (program : List UInt8) (r : Resumed Host),
      Session (.new .standard (Vector.replicate 8 0)) .standard scenes
        (e.run program 2).engine h ∧
      (e.run program 2).value = .ok () ∧
      h.debugger = ⟨[0x200], false, none, some 0x200⟩ ∧
      (e.run program 2).engine.resume Host.scheduler 3 h = some r ∧
      r.value = .ok (.halted 2) := by
  let program : List UInt8 := [0x60, 0xFF, 0xBF, 0xFF]
  have hx : (Session.replay 1 (.new .standard (Vector.replicate 8 0)) .standard
      [.tell (.setBreakpoint 0x200), .operate (.run program 1), .resume, .tell .resume]).map
        (fun x => (x.2.2.debugger, ((x.2.1.run program 2).engine.resume Host.scheduler 3
          x.2.2).map fun r => r.value)) =
            some (⟨[0x200], false, none, some 0x200⟩, some (.ok (.halted 2))) := by
    decide +kernel
  obtain ⟨⟨scenes, e, h⟩, hs, hy⟩ := Option.map_eq_some_iff.mp hx
  obtain ⟨hd, hl⟩ := Prod.mk.inj hy
  obtain ⟨r, hr, hv⟩ := Option.map_eq_some_iff.mp hl
  obtain ⟨v, hf, _⟩ := (Session.of_replay hs).run program 2
  exact ⟨_, e, h, program, r, hf, rfl, hd, hr, hv⟩

end Chip8.Debug
