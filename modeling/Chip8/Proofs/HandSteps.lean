import Chip8.Proofs.CallTrace
import Chip8.Proofs.Countdown
import Chip8.Proofs.Faults
import Chip8.Proofs.Interference
import Chip8.Proofs.Logging

/-!
# Steps by hand

A debugging host can execute a program in two ways: it resumes a run of it, cut up by
breakpoints, pauses and step requests, or it steps through it outside of any run. Both
feed the tracer, the first one at each retired instruction and the second one behind it.
After as many instructions both have left the same machine and the same trace, and where
one of them comes to an instruction that fails, so does the other.
-/

namespace Chip8

namespace Engine

variable {e f : Engine}

/-- What a step does to the core is told by the core and the config, and so is whether it
fails. -/
theorem step_congr (hc : e.core = f.core) (hg : e.config = f.config) :
    e.step.engine.core = f.step.engine.core ∧ e.fault? = f.fault? := by
  have he : e.step.engine.core = (e.core.step e.config.shiftSource).1 :=
    congrArg core e.step_frame.1
  have hf : f.step.engine.core = (f.core.step f.config.shiftSource).1 :=
    congrArg core f.step_frame.1
  rw [he, hf, fault?, fault?, hc, hg]
  exact ⟨rfl, rfl⟩

/-- A step keeps the config. -/
theorem config_step (e : Engine) : e.step.engine.config = e.config := e.config_after 1

end Engine

namespace Debug

/-- A step under the host is no reason to pause. -/
theorem Host.lastPause_step (h : Host) (e : Engine) : (h.step e).1.lastPause = h.lastPause := by
  unfold Host.step
  dsimp only
  cases e.step.value with
  | ok retired => rfl
  | error error => rfl

/-- A debugging host with an engine that is stepped by hand. -/
structure Bench where
  /-- The host, of which only the tracer is at work. -/
  host : Host
  /-- The engine. -/
  engine : Engine

namespace Bench

/-- After one more instruction. -/
def next (b : Bench) : Bench := ⟨(b.host.step b.engine).1, (b.host.step b.engine).2.engine⟩

/-- What one more instruction is answered by. -/
def answer (b : Bench) : Except EngineError Retired := (b.host.step b.engine).2.value

/-- After a number of instructions. -/
def after (b : Bench) : Nat → Bench
  | 0 => b
  | n + 1 => (b.after n).next

variable {b : Bench} {n : Nat} {e f g : Engine} {h k l : Host} {error : EngineError}

/-- By hand, an instruction that retires is traced. -/
theorem next_of_retires (hf : b.engine.fault? = none) :
    b.answer = .ok b.engine.core.upcoming ∧
      b.next = ⟨b.host.record b.engine.core.upcoming b.engine.step.engine.machine,
        b.engine.step.engine⟩ := by
  unfold answer next Host.step
  dsimp only
  rw [Engine.value_of_retires hf]
  exact ⟨Engine.value_of_retires hf, rfl⟩

/-- An instruction that fails is not. -/
theorem next_of_fails (hf : b.engine.fault? = some error) :
    b.answer = .error error ∧ b.next = ⟨b.host, b.engine.step.engine⟩ := by
  unfold answer next Host.step
  dsimp only
  rw [Engine.value_of_fails hf]
  exact ⟨Engine.value_of_fails hf, rfl⟩

/-- An engine that is stepped by hand and one that is resumed under a host have come to
the same state, and to the same trace. -/
structure Matches (b : Bench) (f : Engine) (k : Host) : Prop where
  /-- The machines are the same, with their random sources. -/
  core : b.engine.core = f.core
  /-- The configs are the same. -/
  config : b.engine.config = f.config
  /-- The same instruction was executed last, with the same operands. -/
  lastRetired : b.engine.lastRetired = f.lastRetired
  /-- The tracers hold the same events and have lost as many. -/
  tracer : b.host.tracer = k.tracer

/-- The life of the run, the debugger and the last pause do not matter. -/
theorem Matches.of_eq (h : b.Matches f k) (hc : g.core = f.core) (hg : g.config = f.config)
    (hl : g.lastRetired = f.lastRetired) (ht : l.tracer = k.tracer) : b.Matches g l where
  core := h.core.trans hc.symm
  config := h.config.trans hg.symm
  lastRetired := h.lastRetired.trans hl.symm
  tracer := h.tracer.trans ht.symm

/-- An instruction that retires in a run retires by hand and is traced in the same way. -/
theorem Matches.retire (h : b.Matches f k) (hf : f.fault? = none) :
    b.answer = .ok f.core.upcoming ∧
      b.next.Matches f.step.engine (k.record f.core.upcoming f.step.engine.machine) := by
  obtain ⟨hs, hx⟩ := Engine.step_congr h.core h.config
  have hb : b.engine.fault? = none := hx.trans hf
  have hm : b.engine.step.engine.machine = f.step.engine.machine := congrArg Core.machine hs
  obtain ⟨ha, hn⟩ := next_of_retires hb
  rw [h.core] at ha hn
  rw [hm] at hn
  refine ⟨ha, ?_⟩
  rw [hn]
  refine ⟨hs, ?_, ?_, ?_⟩
  · exact (b.engine.config_step.trans h.config).trans f.config_step.symm
  · rw [Engine.step_of_retires hb, Engine.step_of_retires hf, h.core]
  · show b.host.tracer.recordRetired _ _ = k.tracer.recordRetired _ _
    rw [h.tracer]

/-- An instruction that fails in a run fails by hand, and is not traced. -/
theorem Matches.fail (h : b.Matches f k) (hf : f.fault? = some error) :
    b.answer = .error error ∧ b.next.host = b.host ∧ b.next.Matches f.step.engine k := by
  obtain ⟨hs, hx⟩ := Engine.step_congr h.core h.config
  have hb : b.engine.fault? = some error := hx.trans hf
  obtain ⟨ha, hn⟩ := next_of_fails hb
  rw [hn]
  refine ⟨ha, rfl, hs, ?_, ?_, h.tracer⟩
  · exact (b.engine.config_step.trans h.config).trans f.config_step.symm
  · rw [Engine.step_of_fails hb, Engine.step_of_fails hf]
    exact h.lastRetired

/-- A number of instructions have retired by hand, and what is left matches. -/
structure Level (b : Bench) (n : Nat) (f : Engine) (k : Host) : Prop where
  /-- All of them were answered by their records. -/
  answers : ∀ j < n, ∃ record, (b.after j).answer = .ok record
  /-- What is left matches. -/
  same : (b.after n).Matches f k

/-- A number of instructions have retired by hand, the next one has failed, and what is left
matches. -/
structure Refused (b : Bench) (n : Nat) (error : EngineError) (f : Engine) (k : Host) :
    Prop where
  /-- All but the last one were answered by their records. -/
  answers : ∀ j < n, ∃ record, (b.after j).answer = .ok record
  /-- The last one was answered by the error. -/
  answer : (b.after n).answer = .error error
  /-- It has been recorded on neither side. -/
  host : (b.after (n + 1)).host = (b.after n).host ∧ k.tracer = (b.after n).host.tracer
  /-- Nothing but its word has reached the machine. -/
  fetched : f.core = (b.after n).engine.core.fetched ∧
    f.lastRetired = (b.after n).engine.lastRetired
  /-- What is left matches. -/
  same : (b.after (n + 1)).Matches f k

/-- The life of the run, the debugger and the last pause do not matter. -/
theorem Level.of_eq (h : b.Level n f k) (hc : g.core = f.core) (hg : g.config = f.config)
    (hl : g.lastRetired = f.lastRetired) (ht : l.tracer = k.tracer) : b.Level n g l :=
  ⟨h.answers, h.same.of_eq hc hg hl ht⟩

/-- Nor do they after a failure. -/
theorem Refused.of_eq (h : b.Refused n error f k) (hc : g.core = f.core)
    (hg : g.config = f.config) (hl : g.lastRetired = f.lastRetired)
    (ht : l.tracer = k.tracer) : b.Refused n error g l :=
  ⟨h.answers, h.answer, ⟨h.host.1, ht.trans h.host.2⟩,
    ⟨hc.trans h.fetched.1, hl.trans h.fetched.2⟩, h.same.of_eq hc hg hl ht⟩

/-- One more instruction retires. -/
theorem Level.retire (h : b.Level n f k) (hf : f.fault? = none) :
    b.Level (n + 1) f.step.engine (k.record f.core.upcoming f.step.engine.machine) := by
  obtain ⟨ha, hm⟩ := h.same.retire hf
  refine ⟨?_, hm⟩
  intro j hj
  rcases Nat.lt_succ_iff_lt_or_eq.mp hj with hl | rfl
  · exact h.answers j hl
  · exact ⟨_, ha⟩

/-- One more instruction fails. -/
theorem Level.fail (h : b.Level n f k) (hf : f.fault? = some error) :
    b.Refused n error f.step.engine k := by
  obtain ⟨ha, hh, hm⟩ := h.same.fail hf
  refine ⟨h.answers, ha, ⟨hh, h.same.tracer.symm⟩, ?_, hm⟩
  rw [Engine.step_of_fails hf, h.same.core, h.same.lastRetired]
  exact ⟨rfl, rfl⟩

/-- What a host is asked before an instruction leaves the tracer alone. -/
theorem Level.beforeExec (h : b.Level n f k) {decision : Decision}
    (hb : Host.scheduler.beforeExec f k = (decision, l)) : b.Level n f l :=
  h.of_eq rfl rfl rfl (Host.tracer_of_follow (x := k.debugger.beforeExec f.machine.pc) hb)

/-- So does what it is asked at a yield point. -/
theorem Level.yieldPoint (h : b.Level n f k) {decision : Decision}
    (hy : Host.scheduler.yieldPoint f k = (decision, l)) : b.Level n f l :=
  h.of_eq rfl rfl rfl (Host.tracer_of_follow (x := k.debugger.afterExec f.machine.pc) hy)

/-- What stepping by hand has come to beside a run, up to the first error that was answered
in the run. -/
inductive Beside (b : Bench) (n : Nat) (f : Engine) (k : Host) : Option EngineError → Prop
  /-- No error has been answered, so the run is in progress or has come to the end of
  memory. -/
  | level (h : b.Level n f k) (hr : f.isRunning = true ∨ f.machine.pastEnd = true) :
      Beside b n f k none
  /-- The run has been ended by an error. -/
  | refused {error : EngineError} (h : b.Refused n error f k) (hr : f.isRunning = false) :
      Beside b n f k (some error)

variable {p q : Progress Host} {fault : Option EngineError}

/-- A turn that does not end the run is one more instruction by hand. -/
theorem Level.turn (h : b.Level (n + p.executed) p.engine p.scheduler)
    (ht : Progress.Turn Host.scheduler p (.inl q)) :
    b.Level (n + q.executed) q.engine q.scheduler := by
  cases ht with
  | left hp hb hf he =>
    -- The last instruction inside memory is traced, too, although no yield point follows it.
    exact (h.beforeExec hb).retire hf
  | went hp hb hf he hy => exact ((h.beforeExec hb).retire hf).yieldPoint hy

/-- A run takes as many instructions by hand as it has executed. -/
theorem Level.reaches (h : b.Level (n + p.executed) p.engine p.scheduler)
    (hr : Progress.Reaches Host.scheduler p q) :
    b.Level (n + q.executed) q.engine q.scheduler :=
  hr.keeps (P := fun p => b.Level (n + p.executed) p.engine p.scheduler) Level.turn h

/-- A run that is ended by an instruction that fails leaves what the instruction leaves by
hand. -/
theorem Level.abort (h : b.Level n p.engine p.scheduler)
    (hb : Host.scheduler.beforeExec p.engine p.scheduler = (.proceed, l))
    (hf : p.engine.fault? = some error) :
    b.Refused n error ((p.fail l).abort error).engine ((p.fail l).abort error).scheduler :=
  ((h.beforeExec hb).fail hf).of_eq rfl rfl rfl rfl

/-- When a run returns, as many instructions have been taken by hand as it has retired. -/
theorem Level.returned (h : b.Level (n + p.executed) p.engine p.scheduler)
    (hf : Progress.Follows e p) (hr : e.isRunning = true) {r : Resumed Host}
    (ht : Progress.Turn Host.scheduler p (.inr r)) :
    b.Beside (n + r.toReply.retirements) r.engine r.scheduler r.toReply.fault? := by
  have hp : p.engine.isRunning = true := by
    rw [hf.engine, Engine.isRunning, Engine.lifecycle_after]
    exact hr
  cases ht with
  | halted hi =>
    have hn : p.halt.toReply.retirements = p.executed := (hf.halt hr hi).retirements_eq rfl
    rw [hn]
    exact .level (h.of_eq rfl rfl rfl rfl) (Or.inr hi)
  | @refused reason s hi hb =>
    have hn := ((hf.schedule s).suspend hr hi reason).retirements_eq rfl
    rw [hn]
    exact .level ((h.beforeExec hb).of_eq rfl rfl rfl rfl) (Or.inl hp)
  | @failed s error hi hb he =>
    have hn : ((p.fail s).abort error).toReply.retirements = p.executed := by
      rw [hf.abort_toReply]
      exact Engine.retirements_error e _ _ (Engine.countP_ending _ rfl (some error)) _
    rw [hn]
    exact .refused (h.abort hb he) rfl
  | @yielded s t reason hi hb he hj hy =>
    have ht : Progress.Follows e (p.retire Host.scheduler s) := hf.retire hi he s
    have hn := ((ht.schedule t).suspend hr hj reason).retirements_eq rfl
    have hs : p.engine.step.engine.isRunning = true := by
      rw [Engine.isRunning, p.engine.step_frame.1]
      exact hp
    rw [hn]
    exact .level ((((h.beforeExec hb).retire he).yieldPoint hy).of_eq rfl rfl rfl rfl)
      (Or.inl hs)

/-- A resumption that is answered takes as many instructions by hand as it has retired, and
one more if it is answered by an error. -/
theorem Beside.resume (h : b.Beside n e k fault) {limit : Nat} {r : Resumed Host}
    (hr : e.resume Host.scheduler limit k = some r) :
    b.Beside (n + r.toReply.retirements) r.engine r.scheduler
      (fault.or r.toReply.fault?) := by
  rcases Engine.resume_cases hr with ⟨hi, q, hq, ht⟩ | ⟨_, he⟩
  · cases h with
    | level h _ =>
      have hl := Level.reaches (p := .start e k) h hq
      exact hl.returned ((Progress.follows_start e k).reaches hq) hi ht
    | refused h hn => exact absurd (hi.symm.trans hn) (by simp)
  · -- A run that is over answers no second error and retires nothing.
    have hs : fault.or r.toReply.fault? = fault := by
      rw [he]
      exact Option.or_none
    rw [hs, he]
    exact h

/-- A run that comes to an instruction that fails is ended by it if the debugger lets it
go on. -/
theorem Level.resume_of_faults (h : b.Level n f k) (hf : f.machine.Faults error)
    (hr : f.isRunning = true) (hb : Host.scheduler.beforeExec f k = (.proceed, l))
    (limit : Nat) : ∃ r, f.resume Host.scheduler (limit + 1) k = some r ∧
      r.value = .error error ∧ b.Refused n error r.engine r.scheduler := by
  have hx := Engine.fault?_eq_some_iff.mpr hf
  have ht : Progress.Turn Host.scheduler (.start f k)
      (.inr (((Progress.start f k).fail l).abort error)) :=
    .failed (p := .start f k) hf.inside hb hx
  refine ⟨((Progress.start f k).fail l).abort error, ?_, rfl, ?_⟩
  · rw [Engine.resume_of_running hr, Progress.proceed, ht.turn_eq]
  · exact Level.abort (p := .start f k) h hb hx

/-- What stepping by hand and a run agree in, once a number of instructions have retired in
the run. -/
structure Parallels (b : Bench) (n : Nat) (fault : Option EngineError) (f : Engine)
    (k : Host) : Prop where
  /-- As many instructions retire by hand. -/
  answers : ∀ j < n, ∃ record, (b.after j).answer = .ok record
  /-- If no error has been answered, they leave the same machine and the same trace. -/
  level : fault = none → (b.after n).Matches f k
  /-- If an error has been answered, then the next instruction is answered by it by hand as
  well. It is traced on neither side, its word is all that has reached the machine, and
  behind it both are the same again. -/
  refused : ∀ error, fault = some error → b.Refused n error f k
  /-- If the next instruction fails, then it is answered by its error by hand, and in the
  run if the debugger lets it go on. It is traced on neither side, and behind it both are
  the same again. -/
  upcoming : fault = none → ∀ error, f.machine.Faults error →
    (b.after n).answer = .error error ∧ (b.after (n + 1)).host = (b.after n).host ∧
    ((Host.scheduler.beforeExec f k).1 = .proceed → ∀ limit, ∃ r,
      f.resume Host.scheduler (limit + 1) k = some r ∧ r.value = .error error ∧
        r.scheduler.tracer = k.tracer ∧ (b.after (n + 1)).Matches r.engine r.scheduler)

/-- Stepping by hand beside a run agrees with it. -/
theorem Beside.parallels (h : b.Beside n f k fault) : b.Parallels n fault f k := by
  cases h with
  | level h hr =>
    refine ⟨h.answers, fun _ => h.same, ?_, ?_⟩
    · intro error he
      cases he
    · intro _ error hf
      have hn := h.fail (Engine.fault?_eq_some_iff.mpr hf)
      refine ⟨hn.answer, hn.host.1, ?_⟩
      intro hb limit
      have hi : f.isRunning = true := hr.resolve_right (by simp [hf.inside])
      have hl : Host.scheduler.beforeExec f k =
          (.proceed, (Host.scheduler.beforeExec f k).2) := Prod.ext hb rfl
      obtain ⟨r, hx, hv, hq⟩ := h.resume_of_faults hf hi hl limit
      exact ⟨r, hx, hv, hq.host.2.trans h.same.tracer, hq.same⟩
  | refused h hr =>
    refine ⟨h.answers, ?_, ?_, ?_⟩
    · intro he
      cases he
    · intro error he
      cases he
      exact h
    · intro he
      cases he

end Bench

/-- Whether an act drives the run of a session and nothing else: the debugger is told
something, or the run is resumed. -/
def Act.runs : Act → Bool
  | .tell _ => true
  | .resume => true
  | _ => false

/-- The first error that was answered in a session, if one was. -/
def fault? (scenes : List Scene) : Option EngineError :=
  scenes.findSome? fun v => v.reply.fault?

/-- The error of one more scene counts if there was none before. -/
theorem fault?_snoc (scenes : List Scene) (v : Scene) :
    fault? (scenes ++ [v]) = (fault? scenes).or v.reply.fault? := by
  simp [fault?, List.findSome?_append]

variable {b : Bench} {n : Nat} {e f : Engine} {h k : Host}

/-- Stepping by hand stays beside a run through one more act. -/
theorem Scene.Happens.beside {v : Scene} (hv : v.Happens) (ha : v.act.runs = true)
    {fault : Option EngineError} (hb : b.Beside n v.engine v.host fault) :
    b.Beside (n + v.retirements) v.reply.engine v.left (fault.or v.reply.fault?) := by
  rcases v with ⟨e, h, act, reply, left⟩
  have hd : act.Done e h reply left := hv.done
  cases hd with
  | @told command =>
    have hs : fault.or none = fault := Option.or_none
    show b.Beside n e { h with debugger := h.debugger.obey command } (fault.or none)
    rw [hs]
    cases hb with
    | level hl hr => exact .level (hl.of_eq rfl rfl rfl rfl) hr
    | refused hl hr => exact .refused (hl.of_eq rfl rfl rfl rfl) hr
  | @resumed limit r hr =>
    have hx := Bench.Beside.resume hb hr
    rw [← Reply.retirements_answer r.toReply .returned,
      ← Reply.fault?_answer r.toReply .returned] at hx
    exact hx
  | stepped => cases ha
  | drained => cases ha
  | operated hp => cases ha

/-- Stepping by hand stays beside a run through a session. -/
theorem Session.beside {scenes : List Scene} (hs : Session e h scenes f k)
    (ha : ∀ v ∈ scenes, v.act.runs = true) (hb : b.Beside 0 e h none) :
    b.Beside (retirements scenes) f k (fault? scenes) := by
  induction hs with
  | nil => exact hb
  | @snoc scenes v hs hv ih =>
    obtain ⟨ha, hl⟩ := List.forall_mem_append.mp ha
    rw [retirements_snoc, fault?_snoc]
    exact hv.beside (hl v List.mem_cons_self) (ih ha)

/-- A run of a program and a program that is loaded into a new engine with the same seed
start in the same state. -/
theorem beside_run {seed : UInt64} (hc : e.config.rngSeed = some seed) {program : List UInt8}
    {ticket : Ticket} (hv : (e.run program ticket).value = .ok ()) {w : Host}
    (hw : w.tracer = h.tracer) (key : Random.Key) :
    ((Engine.new e.config key).load program programOrigin).value = .ok () ∧
      Bench.Beside ⟨w, ((Engine.new e.config key).load program programOrigin).engine⟩ 0
        (e.run program ticket).engine h none := by
  have hr := (Engine.run_accepted hv).1
  have hn : (Engine.new e.config key).machine = .initial := rfl
  rw [Engine.run_eq] at hv hr ⊢
  rw [Engine.load, hn]
  cases hm : Machine.initial.load program programOrigin with
  | error error =>
    rw [hm] at hv
    cases hv
  | ok m =>
    rw [hm] at hr
    have hs : (Engine.new e.config key).core.random = e.cleared.core.random := by
      rw [Engine.new, Engine.cleared, hc]
    refine ⟨rfl, .level ⟨fun j hj => absurd hj (Nat.not_lt_zero j), ?_⟩ (Or.inl hr)⟩
    exact ⟨congrArg (Core.mk m) hs, rfl, rfl, hw⟩

/-- Stepping by hand and running under a debugger agree. A program is run on an engine with
a seed, cut up by a debugger that is told anything, and loaded into a new engine of the
same config that is stepped by hand with the same tracer. After as many instructions the
machines, the records of the last instruction and the tracers are the same; an instruction
that fails is answered by the same error on both sides and is not traced. Stepping by hand
leaves the debugger, the last pause and the life of the run as they are. -/
theorem hand_steps_agree {seed : UInt64} (hc : e.config.rngSeed = some seed)
    {program : List UInt8} {ticket : Ticket} (hv : (e.run program ticket).value = .ok ())
    {w : Host} (hw : w.tracer = h.tracer) {scenes : List Scene}
    (hs : Session (e.run program ticket).engine h scenes f k)
    (ha : ∀ v ∈ scenes, v.act.runs = true) (key : Random.Key) :
    let loaded := (Engine.new e.config key).load program programOrigin
    loaded.value = .ok () ∧
    Bench.Parallels ⟨w, loaded.engine⟩ (retirements scenes) (fault? scenes) f k ∧
    ∀ (g : Engine) (l : Host), (l.step g).1.debugger = l.debugger ∧
      (l.step g).1.lastPause = l.lastPause ∧ (l.step g).2.engine.lifecycle = g.lifecycle := by
  obtain ⟨hl, hb⟩ := beside_run hc hv hw key
  refine ⟨hl, (hs.beside ha hb).parallels, ?_⟩
  intro g l
  refine ⟨l.debugger_step g, l.lastPause_step g, ?_⟩
  rw [l.step_snd]
  exact g.lifecycle_after 1

/-- A call and its return, cut up by a breakpoint and a step request, and then a return
that is refused, with a tracer that holds three of the four events: by hand the same is
left, traced and refused, under a debugger that would let nothing be executed. -/
theorem hand_steps_agree_of_late_return :
    let program : List UInt8 := [0x22, 0x04, 0x00, 0xEE, 0x00, 0xEE]
    let e := Engine.new ⟨some 1, .vx⟩ (Vector.replicate 8 0)
    let h : Host := .new .new (.new 3 ⟨true, true, true⟩)
    let b : Bench := ⟨.new Debugger.new.pause (.new 3 ⟨true, true, true⟩),
      ((Engine.new ⟨some 1, .vx⟩ (Vector.replicate 8 1)).load program programOrigin).engine⟩
    ∃ (scenes : List Scene) (f : Engine) (k : Host) (r : Resumed Host),
      Session (e.run program 7).engine h scenes f k ∧ retirements scenes = 2 ∧
      (b.after 2).Matches f k ∧ k.tracer.evicted = 1 ∧
      (b.after 2).answer = .error (.stackUnderflow 0x202) ∧
      f.resume Host.scheduler 1 k = some r ∧ r.value = .error (.stackUnderflow 0x202) ∧
      r.scheduler.tracer = k.tracer ∧ (b.after 3).Matches r.engine r.scheduler := by
  intro program e h b
  have hx : (Session.replay 2 (e.run program 7).engine h
      [.tell (.setBreakpoint 0x204), .resume, .tell (.requestSteps 1), .resume,
        .tell .resume]).map
      (fun x => (x.1.all fun v => v.act.runs, retirements x.1, fault? x.1, x.2.1.fault?,
        decide ((Host.scheduler.beforeExec x.2.1 x.2.2).1 = .proceed),
        x.2.2.tracer.evicted)) =
        some (true, 2, none, some (.stackUnderflow 0x202), true, 1) := by decide +kernel
  obtain ⟨⟨scenes, f, k⟩, hr, hy⟩ := Option.map_eq_some_iff.mp hx
  simp only [Prod.mk.injEq, List.all_eq_true, decide_eq_true_eq] at hy
  obtain ⟨ha, hn, hz, hf, hb, ht⟩ := hy
  have hs := Session.of_replay hr
  have hv : (e.run program 7).value = .ok () := rfl
  have hw : b.host.tracer = h.tracer := rfl
  have hc : e.config.rngSeed = some 1 := rfl
  obtain ⟨_, hp, _⟩ := hand_steps_agree hc hv hw hs ha (Vector.replicate 8 1)
  replace hp : b.Parallels (retirements scenes) (fault? scenes) f k := hp
  rw [hn] at hp
  have hm := hp.level hz
  obtain ⟨hu, _, hg⟩ := hp.upcoming hz _ (Engine.fault?_eq_some_iff.mp hf)
  obtain ⟨r, hq, hl, hj, ho⟩ := hg hb 0
  exact ⟨scenes, f, k, r, hs, hn, hm, ht, hu, hq, hl, hj, ho⟩

end Debug

end Chip8
