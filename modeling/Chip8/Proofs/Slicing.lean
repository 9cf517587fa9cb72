import Chip8.Proofs.History
import Chip8.Scheduler.Budget
import Mathlib.Algebra.GroupWithZero.Nat

/-!
# Slicing

A started run may be stepped and resumed in any mixture and under any
schedulers: what it leaves is what plain execution leaves after as many
instructions as have retired. Two ways of resuming a run to its end therefore
agree on where it ends, after how many instructions and how.
-/

namespace Chip8

namespace Core

variable {source : ShiftSource} {c d f : Core} {n m : Nat}

/-- Plain execution takes a core to another one: a number of instructions
retire, and then, if an error is given, an instruction fails with it, which
fetches its word and does nothing else. -/
inductive Executes (source : ShiftSource) (c : Core) (n : Nat) :
    Option EngineError → Core → Prop
  /-- All instructions retire. -/
  | retired (hr : ∀ k < n, (c.after source k).fault? source = none) :
      Executes source c n none (c.after source n)
  /-- The last instruction fails. -/
  | failed {error : EngineError} (hr : ∀ k < n, (c.after source k).fault? source = none)
      (hf : (c.after source n).fault? source = some error) :
      Executes source c n (some error) (c.after source n).fetched

/-- Execution goes on where it has retired. -/
theorem Executes.append (h : c.Executes source n none d) {fault : Option EngineError}
    (hd : d.Executes source m fault f) : c.Executes source (n + m) fault f := by
  cases h with
  | retired hn =>
    cases hd with
    | retired hm =>
      rw [← after_add]
      exact .retired (forall_after_add (P := fun d => d.fault? source = none) hn hm)
    | failed hm hf =>
      rw [← after_add] at hf ⊢
      exact .failed (forall_after_add (P := fun d => d.fault? source = none) hn hm) hf

/-- No instruction before the last one fails. -/
theorem Executes.retires {fault : Option EngineError} (h : c.Executes source n fault d) :
    ∀ k < n, (c.after source k).fault? source = none := by
  cases h with
  | retired hr => exact hr
  | failed hr hf => exact hr

/-- Execution does not go on where an instruction has failed. -/
theorem Executes.stuck {error : EngineError} (h : c.Executes source n (some error) d)
    {fault : Option EngineError} (hd : d.Executes source m fault f) :
    m = 0 ∧ f = d ∧ (fault = none ∨ fault = some error) := by
  cases h with
  | failed hn hf =>
    have hz : m = 0 := by
      by_contra hm
      have hs := hd.retires 0 (Nat.pos_of_ne_zero hm)
      rw [after_zero, fault?_fetched, hf] at hs
      cases hs
    subst hz
    cases hd with
    | retired hr => exact ⟨rfl, rfl, Or.inl rfl⟩
    | failed hr he =>
      rw [after_zero, fault?_fetched, hf] at he
      exact ⟨rfl, rfl, Or.inr he.symm⟩

/-- Plain execution ends at a core: a number of steps start inside memory and
retire, and then the program counter has left memory or an instruction fails. -/
inductive Ends (source : ShiftSource) (c : Core) (n : Nat) :
    Option EngineError → Core → Prop
  /-- The program counter has left memory. -/
  | halted (hc : c.Clear source n) (hp : (c.after source n).machine.pastEnd = true) :
      Ends source c n none (c.after source n)
  /-- An instruction fails. -/
  | aborted {error : EngineError} (hc : c.Clear source n)
      (hp : (c.after source n).machine.pastEnd = false)
      (hf : (c.after source n).fault? source = some error) :
      Ends source c n (some error) (c.after source n).fetched

/-- Execution does not go on past its end. -/
theorem Ends.le {fault : Option EngineError} (h : c.Ends source n fault d)
    (hm : c.Clear source m) : m ≤ n := by
  by_contra hl
  have hn := hm n (by omega)
  cases h with
  | halted hc hp =>
    rw [hn.1] at hp
    cases hp
  | aborted hc hp hf =>
    rw [hn.2] at hf
    cases hf

/-- Execution ends after one number of steps, in one way, at one core. -/
theorem Ends.unique {fault other : Option EngineError} (h : c.Ends source n fault d)
    (ho : c.Ends source m other f) : n = m ∧ fault = other ∧ d = f := by
  have hnm : n = m := by
    apply Nat.le_antisymm
    · apply ho.le
      cases h with
      | halted hc hp => exact hc
      | aborted hc hp hf => exact hc
    · apply h.le
      cases ho with
      | halted hc hp => exact hc
      | aborted hc hp hf => exact hc
  subst hnm
  cases h with
  | halted hc hp =>
    cases ho with
    | halted hc hp => exact ⟨rfl, rfl, rfl⟩
    | aborted hc hi hf =>
      rw [hp] at hi
      cases hi
  | aborted hc hp hf =>
    cases ho with
    | halted hc hi =>
      rw [hp] at hi
      cases hi
    | aborted hc hi he =>
      rw [hf] at he
      cases he
      exact ⟨rfl, rfl, rfl⟩

end Core

/-- How many instructions an answer tells to have been executed. -/
def Answer.executed : Answer → Nat
  | .done => 0
  | .stepped _ => 1
  | .returned exit => exit.executed

namespace Reply

variable {α : Type}

/-- The error that is answered, if one is. -/
def fault? (r : Reply (Except EngineError α)) : Option EngineError :=
  match r.value with
  | .ok _ => none
  | .error error => some error

/-- How many instructions have retired: every word that was fetched for
execution stands for one, but for that of an instruction that failed. -/
def retirements (r : Reply (Except EngineError α)) : Nat :=
  r.notices.countP Notice.isDispatch - r.fault?.toList.length

/-- The form of an answer does not matter for errors. -/
@[simp]
theorem fault?_answer (r : Reply (Except EngineError α)) (f : α → Answer) :
    (r.answer f).fault? = r.fault? := by
  unfold fault? answer
  cases r.value with
  | ok a => rfl
  | error error => rfl

/-- The form of an answer does not matter for what has retired. -/
@[simp]
theorem retirements_answer (r : Reply (Except EngineError α)) (f : α → Answer) :
    (r.answer f).retirements = r.retirements := by
  rw [retirements, retirements, fault?_answer]
  rfl

end Reply

namespace Engine

/-- Where no instruction failed, every word that was fetched has retired. -/
theorem retirements_ok {α : Type} (e f : Engine) (n : Nat) {tail : List Notice}
    (ht : tail.countP Notice.isDispatch = 0) (a : α) :
    Reply.retirements ⟨f, e.dispatches n ++ tail, .ok a⟩ = n := by
  rw [Reply.retirements, List.countP_append, countP_dispatches, ht]
  rfl

/-- Where an instruction failed, every word but the last one has retired. -/
theorem retirements_error {α : Type} (e f : Engine) (n : Nat) {tail : List Notice}
    (ht : tail.countP Notice.isDispatch = 0) (error : EngineError) :
    Reply.retirements (α := α) ⟨f, e.dispatches (n + 1) ++ tail, .error error⟩ = n := by
  rw [Reply.retirements, List.countP_append, countP_dispatches, ht]
  rfl

/-- The steps of an engine retire where those of its core do. -/
theorem Clear.retires {e : Engine} {n : Nat} (h : e.Clear n) :
    ∀ k < n, (e.core.after e.config.shiftSource k).fault? e.config.shiftSource = none :=
  fun k hk => (h k hk).2

/-- A resumption retires what its answer counts. -/
theorem Resumption.retirements_eq {e : Engine} {reply : Reply (Except EngineError RunExit)}
    (h : e.Resumption reply) {exit : RunExit} (hv : reply.value = .ok exit) :
    reply.retirements = exit.executed := by
  cases h with
  | idle hr =>
    cases hv
    rfl
  | @yielded n reason hr hc hp =>
    cases hv
    exact retirements_ok e _ n (countP_pauseNotices _ reason) _
  | @halted n hr hc hp =>
    cases hv
    exact retirements_ok e _ n (countP_ending _ rfl none) _
  | aborted hr hc hp hf => cases hv

/-- A resumption is plain execution. -/
theorem Resumption.executes {e : Engine} {reply : Reply (Except EngineError RunExit)}
    (h : e.Resumption reply) :
    e.core.Executes e.config.shiftSource reply.retirements reply.fault? reply.engine.core := by
  cases h with
  | idle hr => exact .retired (by simp [Reply.retirements])
  | @yielded n reason hr hc hp =>
    rw [retirements_ok e _ n (countP_pauseNotices _ reason), core_after]
    exact .retired hc.retires
  | @halted n hr hc hp =>
    rw [retirements_ok e _ n (countP_ending _ rfl none)]
    show e.core.Executes e.config.shiftSource n none (e.after n).core
    rw [core_after]
    exact .retired hc.retires
  | @aborted n error hr hc hp hf =>
    rw [retirements_error e _ n (countP_ending _ rfl (some error))]
    show e.core.Executes e.config.shiftSource n (some error) (e.after (n + 1)).core
    rw [core_after_of_fails hf]
    rw [fault?_after] at hf
    exact .failed hc.retires hf

/-- A step is plain execution of one instruction. -/
theorem step_executes (e : Engine) :
    e.core.Executes e.config.shiftSource e.step.retirements e.step.fault? e.step.engine.core := by
  cases hf : e.fault? with
  | none =>
    rw [step_of_retires hf]
    refine .retired (n := 1) ?_
    intro k hk
    rw [Nat.lt_one_iff.mp hk]
    exact hf
  | some error =>
    rw [step_of_fails hf]
    exact .failed (n := 0) (by simp) hf

end Engine

namespace Performs

variable {e : Engine} {operation : Operation} {reply : Reply (Except EngineError Answer)}

/-- A step or a resumption is plain execution. -/
theorem executes (h : Performs e operation reply) (hd : operation.Drives) :
    e.core.Executes e.config.shiftSource reply.retirements reply.fault? reply.engine.core := by
  cases operation with
  | step =>
    obtain ⟨limit, hp⟩ := h
    cases hp
    rw [Reply.retirements_answer, Reply.fault?_answer]
    exact e.step_executes
  | resume hooks s =>
    obtain ⟨r, hr, he⟩ := h.resumption trivial
    rw [he, Reply.retirements_answer, Reply.fault?_answer]
    exact hr.executes
  | _ => exact hd.elim

/-- What has retired is what the answer tells. -/
theorem retirements_eq (h : Performs e operation reply) (hd : operation.Drives)
    {answer : Answer} (hv : reply.value = .ok answer) : reply.retirements = answer.executed := by
  cases operation with
  | step =>
    obtain ⟨limit, hp⟩ := h
    cases hp
    rw [Reply.retirements_answer]
    cases hf : e.fault? with
    | none =>
      rw [Engine.step_of_retires hf] at hv ⊢
      cases hv
      rfl
    | some error =>
      rw [Engine.step_of_fails hf] at hv
      cases hv
  | resume hooks s =>
    obtain ⟨r, hr, he⟩ := h.resumption trivial
    rw [he, Reply.retirements_answer]
    rw [he, Reply.answer] at hv
    cases hx : r.value with
    | ok exit =>
      rw [hx] at hv
      cases hv
      exact hr.retirements_eq hx
    | error error =>
      rw [hx] at hv
      cases hv
  | _ => exact hd.elim

end Performs

namespace History

/-- How many instructions have retired in some operations. -/
def retirements (events : List Event) : Nat := (events.map fun v => v.reply.retirements).sum

/-- The first error that was answered in some operations, if one was. -/
def fault? (events : List Event) : Option EngineError :=
  events.findSome? fun v => v.reply.fault?

variable {e f : Engine} {events : List Event}

/-- Steps and resumptions in any mixture are plain execution. -/
theorem executes (h : History e events f) (hd : ∀ v ∈ events, v.operation.Drives) :
    e.core.Executes e.config.shiftSource (retirements events) (fault? events) f.core := by
  induction h with
  | nil => exact .retired (by simp [retirements])
  | @snoc events v h hp ih =>
    have hg := ih fun w hw => hd w (List.mem_append_left _ hw)
    have hv := hp.executes (hd v (by simp))
    rw [h.config_eq] at hv
    have hn : retirements (events ++ [v]) = retirements events + v.reply.retirements := by
      simp [retirements]
    have hf : fault? (events ++ [v]) = (fault? events).or v.reply.fault? := by
      simp [fault?, List.findSome?_append]
    rw [hn, hf]
    cases he : fault? events with
    | none =>
      rw [he] at hg
      exact hg.append hv
    | some error =>
      rw [he] at hg
      obtain ⟨hz, hs, hx⟩ := hg.stuck hv
      rw [hz]
      show e.core.Executes e.config.shiftSource (retirements events) (some error) v.after.core
      have hs : v.after.core = v.before.core := hs
      rw [hs]
      exact hg

end History

/-- How a reply says that a run has ended, if it does. -/
def Reply.ending? (r : Reply (Except EngineError Answer)) : Option (Option EngineError) :=
  match r.value with
  | .ok (.returned (.halted _)) => some none
  | .ok _ => none
  | .error error => some (some error)

/-- A run that is only resumed: it is between two of its plain steps, or it has
come to their end. -/
inductive Sliced (e : Engine) (n : Nat) : List (Option EngineError) → Engine → Prop
  /-- The run is in progress. -/
  | running (hc : e.Clear n) (hp : (e.after n).machine.pastEnd = false) :
      Sliced e n [] (e.after n)
  /-- The run is over. -/
  | ended {fault : Option EngineError} {f : Engine} (hr : f.isRunning = false)
      (he : e.core.Ends e.config.shiftSource n fault f.core) : Sliced e n [fault] f

namespace Engine

/-- A resumption takes a run in progress some steps further. -/
theorem Resumption.sliced {e : Engine} {n : Nat} {reply : Reply (Except EngineError RunExit)}
    (h : (e.after n).Resumption reply) (hr : e.isRunning = true) (hc : e.Clear n) :
    Sliced e (n + reply.retirements) (reply.answer .returned).ending?.toList reply.engine := by
  cases h with
  | idle hi =>
    rw [isRunning, lifecycle_after] at hi
    exact absurd (hr.symm.trans hi) (by simp)
  | @yielded m reason hi hm hp =>
    rw [retirements_ok _ _ m (countP_pauseNotices _ reason)]
    show Sliced e (n + m) [] ((e.after n).after m)
    rw [← after_add] at hp ⊢
    exact .running (hc.add hm) hp
  | @halted m hi hm hp =>
    rw [retirements_ok _ _ m (countP_ending _ rfl none)]
    refine .ended rfl ?_
    show e.core.Ends e.config.shiftSource (n + m) none ((e.after n).after m).core
    rw [← after_add] at hp ⊢
    rw [core_after]
    rw [machine_after] at hp
    exact .halted (hc.add hm) hp
  | @aborted m error hi hm hp hf =>
    rw [retirements_error _ _ m (countP_ending _ rfl (some error))]
    refine .ended rfl ?_
    show e.core.Ends e.config.shiftSource (n + m) (some error) ((e.after n).after (m + 1)).core
    rw [← after_add] at hp hf ⊢
    rw [← Nat.add_assoc, core_after_of_fails hf]
    rw [machine_after] at hp
    rw [fault?_after] at hf
    exact .aborted (hc.add hm) hp hf

/-- A resumption does nothing where no run is in progress. -/
theorem Resumption.idle_of_not_running {e : Engine} {reply : Reply (Except EngineError RunExit)}
    (h : e.Resumption reply) (hr : e.isRunning = false) :
    reply = ⟨e, [], .ok .notRunning⟩ := by
  cases h with
  | idle hi => rfl
  | yielded hi hc hp => exact absurd (hr.symm.trans hi) (by simp)
  | halted hi hc hp => exact absurd (hr.symm.trans hi) (by simp)
  | aborted hi hc hp hf => exact absurd (hr.symm.trans hi) (by simp)

end Engine

namespace History

/-- The ways in which runs ended in some operations, in order. -/
def endings (events : List Event) : List (Option EngineError) :=
  events.flatMap fun v => v.reply.ending?.toList

variable {e f : Engine} {events : List Event}

/-- Resumptions alone take a run in progress to one of its plain steps or to
their end. -/
theorem sliced (h : History e events f) (hr : e.isRunning = true)
    (hp : e.machine.pastEnd = false) (ho : ∀ v ∈ events, v.operation.IsResume) :
    Sliced e (retirements events) (endings events) f := by
  induction h with
  | nil => exact .running (fun k hk => absurd hk (Nat.not_lt_zero k)) hp
  | @snoc events v h hv ih =>
    have hg := ih fun w hw => ho w (List.mem_append_left _ hw)
    have hn : retirements (events ++ [v]) = retirements events + v.reply.retirements := by
      simp [retirements]
    have hx : endings (events ++ [v]) = endings events ++ v.reply.ending?.toList := by
      simp [endings]
    rw [hn, hx]
    obtain ⟨r, hs, he⟩ := hv.resumption (ho v (by simp))
    show Sliced e _ _ v.reply.engine
    rw [he, Reply.retirements_answer]
    generalize v.before = g at hg hs
    generalize endings events = ends at hg ⊢
    cases hg with
    | running hc hp => exact hs.sliced hr hc
    | ended hi hd =>
      rw [hs.idle_of_not_running hi]
      exact .ended hi hd

/-- A run that is only resumed and is over has come to the end of its plain
execution. -/
theorem ends (h : History e events f) (hr : e.isRunning = true)
    (hp : e.machine.pastEnd = false) (ho : ∀ v ∈ events, v.operation.IsResume)
    (hf : f.lifecycle = .halted) :
    ∃ fault, endings events = [fault] ∧
      e.core.Ends e.config.shiftSource (retirements events) fault f.core := by
  have hs := h.sliced hr hp ho
  generalize hx : endings events = ends at hs
  cases hs with
  | running hc hi =>
    rw [Engine.lifecycle_after] at hf
    rw [Engine.isRunning, hf] at hr
    cases hr
  | @ended fault f hi he => exact ⟨fault, rfl, he⟩

end History

open History

/-- However a started run is stepped and resumed, and under whatever schedulers,
the core is that of plain execution after as many instructions as have retired,
and the answers count these. When it is only resumed and is over, then neither
the schedulers nor the slices matter. -/
theorem slicing_transparent {e : Engine} {program : List UInt8} {ticket : Ticket}
    (hv : (e.run program ticket).value = .ok ()) :
    let s := (e.run program ticket).engine
    (∀ events f, History s events f → (∀ v ∈ events, v.operation.Drives) →
      s.core.Executes e.config.shiftSource (retirements events) (History.fault? events) f.core ∧
      ∀ v ∈ events, ∀ answer, v.reply.value = .ok answer →
        v.reply.retirements = answer.executed) ∧
    ∀ events f others g, History s events f → History s others g →
      (∀ v ∈ events, v.operation.IsResume) → (∀ v ∈ others, v.operation.IsResume) →
      f.lifecycle = .halted → g.lifecycle = .halted →
      f.core = g.core ∧ retirements events = retirements others ∧
        ∃ fault, endings events = [fault] ∧ endings others = [fault] := by
  obtain ⟨hr, hp, hc⟩ := Engine.run_accepted hv
  have hi : (e.run program ticket).engine.machine.pastEnd = false := by
    rw [Machine.pastEnd, hp]
    rfl
  refine ⟨?_, ?_⟩
  · intro events f h hd
    refine ⟨?_, ?_⟩
    · rw [← hc]
      exact h.executes hd
    · intro v hm answer ha
      exact (h.performs_of_mem hm).retirements_eq (hd v hm) ha
  · intro events f others g h hg ho hq hf hl
    obtain ⟨fault, hx, he⟩ := h.ends hr hi ho hf
    obtain ⟨other, hy, hu⟩ := hg.ends hr hi hq hl
    obtain ⟨hn, hz, hs⟩ := he.unique hu
    subst hz
    exact ⟨hs, hn, fault, hx, hy⟩

/-- A run that leaves memory after two instructions executes them when one is
stepped and the other resumed, and ends alike in two slices and in one. -/
theorem slicing_transparent_of_two_slices :
    ∃ e : Engine, ∃ program ticket, (e.run program ticket).value = .ok () ∧
      let s := (e.run program ticket).engine
      (∃ events f, History s events f ∧ retirements events = 2 ∧
        s.core.Executes e.config.shiftSource 2 (History.fault? events) f.core) ∧
      ∃ events f others g, History s events f ∧ History s others g ∧
        events.length = 2 ∧ others.length = 1 ∧ f.core = g.core ∧ retirements others = 2 := by
  let e : Engine := .new ⟨some 1, .vx⟩ (Vector.replicate 8 0)
  let program : List UInt8 := [0x60, 0xFF, 0xBF, 0xFF]
  let slice : Operation := .resume Budget.scheduler (.new 1)
  let whole : Operation := .resume .toCompletion ()
  have hv : (e.run program 7).value = .ok () := rfl
  have hm : (replay 3 (e.run program 7).engine [.step, whole]).map
      (fun x => retirements x.1) = some 2 := by decide +kernel
  have hs : (replay 3 (e.run program 7).engine [slice, slice]).map
      (fun x => (x.2.lifecycle, x.1.length)) = some (.halted, 2) := by decide +kernel
  have hw : (replay 3 (e.run program 7).engine [whole]).map
      (fun x => (x.2.lifecycle, x.1.length, retirements x.1)) = some (.halted, 1, 2) := by
    decide +kernel
  obtain ⟨⟨mixed, m⟩, hx, hn⟩ := Option.map_eq_some_iff.mp hm
  obtain ⟨⟨events, f⟩, hy, hf⟩ := Option.map_eq_some_iff.mp hs
  obtain ⟨⟨others, g⟩, hz, hg⟩ := Option.map_eq_some_iff.mp hw
  simp only [Prod.mk.injEq] at hn hf hg
  obtain ⟨hd, ht⟩ := slicing_transparent hv
  refine ⟨e, program, 7, hv, ?_, ?_⟩
  · have ho := forall_of_replay hx (P := Operation.Drives) (by simp [Operation.Drives, whole])
    have hr := (hd mixed m (.of_replay hx) ho).1
    rw [hn] at hr
    exact ⟨mixed, m, .of_replay hx, hn, hr⟩
  · have hr := ht events f others g (.of_replay hy) (.of_replay hz)
      (forall_of_replay hy (by simp [Operation.IsResume, slice]))
      (forall_of_replay hz (by simp [Operation.IsResume, whole])) hf.1 hg.1
    exact ⟨events, f, others, g, .of_replay hy, .of_replay hz, hf.2, hg.2.1, hr.1, hg.2.2⟩

end Chip8
