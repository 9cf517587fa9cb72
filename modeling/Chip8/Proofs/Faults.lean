import Chip8.Proofs.Effect
import Chip8.Proofs.History

/-!
# Faults

An instruction that fails is a call while all slots of the call stack are live or a
return while none is, and there are no other failures. It leaves the machine with its word
fetched and changes nothing else, so it fails in the same way whenever it is tried again,
by a step or by a resumption.
-/

namespace Chip8

namespace Instruction

/-- One word only is a return. -/
theorem decode_eq_ret_iff {w : Word} : decode w = .ret ↔ w = 0x00EE := by
  constructor
  · intro h
    unfold decode at h
    repeat' split at h
    all_goals first
      | assumption
      | cases h
  · rintro rfl
    rfl

/-- The calls are one family of words. -/
theorem isCall_decode_iff {w : Word} : (decode w).isCall = true ↔ w.opcode = 2 := by
  rw [← Fin.val_inj]
  unfold decode
  repeat' split
  all_goals simp_all [isCall]

end Instruction

namespace Machine

/-- The instruction at the program counter fails, and how. -/
inductive Faults (m : Machine) : EngineError → Prop
  /-- A call while all slots of the call stack are live. -/
  | overflow (hw : m.fetch.opcode = 2) (hd : m.calls.depth = 16) :
      Faults m (.stackOverflow m.pc 16)
  /-- A return while no slot is live. -/
  | underflow (hw : m.fetch = 0x00EE) (hd : m.calls.depth = 0) :
      Faults m (.stackUnderflow m.pc)

variable {m : Machine} {error : EngineError}

/-- Past the end of memory no instruction fails. -/
theorem Faults.inside (h : m.Faults error) : m.pastEnd = false := by
  rw [← Bool.not_eq_true]
  intro hp
  have hz := fetch_of_pastEnd hp
  cases h with
  | overflow hw hd =>
    rw [hz] at hw
    exact absurd hw (by decide)
  | underflow hw hd =>
    rw [hz] at hw
    exact absurd hw (by decide)

end Machine

namespace Engine

variable {σ : Type} {hooks : Scheduler σ} {e f : Engine} {s t : σ} {error : EngineError}

/-- The engine meets an error exactly where an instruction fails. -/
theorem fault?_eq_some_iff : e.fault? = some error ↔ e.machine.Faults error := by
  have hi : e.core.machine.instruction = .decode e.machine.fetch := rfl
  rw [fault?, Core.fault?_eq_some_iff, hi, Instruction.decode_eq_ret_iff,
    Instruction.isCall_decode_iff]
  constructor
  · rintro (⟨hw, hd, rfl⟩ | ⟨hw, hd, rfl⟩)
    · exact .underflow hw hd
    · exact .overflow hw hd
  · rintro (⟨hw, hd⟩ | ⟨hw, hd⟩)
    · exact Or.inr ⟨hw, hd, rfl⟩
    · exact Or.inl ⟨hw, hd, rfl⟩

/-- What an instruction that fails leaves: its word and address are those of the last
fetch, and the rest of the machine, the random source and the record of the last executed
instruction are as they were. -/
structure LeavesIntact (e f : Engine) : Prop where
  /-- The machine has fetched the word. -/
  machine : f.machine = { e.machine with word := e.machine.fetch, wordAddress := e.machine.pc }
  /-- No random byte has been taken. -/
  random : f.core.random = e.core.random
  /-- No instruction has been executed. -/
  lastRetired : f.lastRetired = e.lastRetired

/-- A step that fails leaves the machine intact. -/
theorem leavesIntact_step (h : e.fault? = some error) : e.LeavesIntact e.step.engine := by
  rw [step_of_fails h]
  exact ⟨rfl, rfl, rfl⟩

/-- So does a run that is ended by the failure. -/
theorem leavesIntact_finish (h : e.fault? = some error) (cause : Option EngineError) :
    e.LeavesIntact (e.step.engine.finish cause).1 := by
  rw [step_of_fails h]
  exact ⟨rfl, rfl, rfl⟩

/-- What is left fails in the same way. -/
theorem LeavesIntact.faults (h : e.LeavesIntact f) (hf : e.machine.Faults error) :
    f.machine.Faults error := by
  rw [h.machine]
  cases hf with
  | overflow hw hd => exact .overflow hw hd
  | underflow hw hd => exact .underflow hw hd

/-- In what is left the word has been fetched already. -/
theorem LeavesIntact.fetched (h : e.LeavesIntact f) : f.core.fetched = f.core := by
  have hm : f.machine.fetched = f.machine := by
    rw [h.machine]
    rfl
  show ({ f.core with machine := f.machine.fetched } : Core) = f.core
  rw [hm]
  rfl

/-- A step at an instruction that was fetched already and fails leaves the engine as it
is. -/
theorem step_of_fetched (hf : e.machine.Faults error) (hc : e.core.fetched = e.core) :
    e.step.engine = e ∧ e.step.value = .error error := by
  rw [step_of_fails (fault?_eq_some_iff.mpr hf), hc]
  exact ⟨rfl, rfl⟩

/-- A resumption at an instruction that fails returns without having executed anything, or
is ended by the failure. -/
theorem Resumption.of_faults {reply : Reply (Except EngineError RunExit)}
    (h : e.Resumption reply) (hf : e.machine.Faults error) :
    (reply.engine = e ∧ (reply.value = .ok .notRunning ∨ reply.value = .ok (.yielded 0))) ∨
      (reply.engine = (e.step.engine.finish (some error)).1 ∧ reply.value = .error error) := by
  have hfails := fault?_eq_some_iff.mpr hf
  -- No instruction retires, so none is executed.
  have hzero : ∀ {n : Nat}, e.Clear n → n = 0 := by
    intro n hc
    apply Nat.eq_zero_of_not_pos
    intro hn
    have hr := (hc 0 hn).2
    rw [Core.after_zero] at hr
    rw [fault?, hr] at hfails
    cases hfails
  cases h with
  | idle hr => exact Or.inl ⟨rfl, Or.inl rfl⟩
  | yielded hr hc hp =>
    cases hzero hc
    exact Or.inl ⟨rfl, Or.inr rfl⟩
  | halted hr hc hp =>
    cases hzero hc
    have hi : e.machine.pastEnd = true := hp
    rw [hf.inside] at hi
    cases hi
  | @aborted n cause hr hc hp ha =>
    cases hzero hc
    have he : e.fault? = some cause := ha
    rw [hfails] at he
    cases he
    exact Or.inr ⟨rfl, rfl⟩

/-- A resumption that answers an error has come to an instruction that fails with it. -/
theorem Resumption.of_error {reply : Reply (Except EngineError RunExit)}
    (h : e.Resumption reply) (hv : reply.value = .error error) :
    ∃ n, e.Clear n ∧ (e.after n).machine.Faults error ∧
      reply.engine = ((e.after n).step.engine.finish (some error)).1 := by
  cases h with
  | idle hr => cases hv
  | yielded hr hc hp => cases hv
  | halted hr hc hp => cases hv
  | @aborted n cause hr hc hp hf =>
    cases hv
    exact ⟨n, hc, fault?_eq_some_iff.mp hf, rfl⟩

/-- A run that is resumed at an instruction that fails ends with the error, unless the
scheduler stops it before. -/
theorem resume_of_faults (hf : e.machine.Faults error) (hr : e.isRunning = true)
    (hb : hooks.beforeExec e s = (.proceed, t)) (limit : Nat) :
    ∃ r, e.resume hooks (limit + 1) s = some r ∧ r.value = .error error := by
  have ht : (Progress.start e s).turn hooks =
      .inr (((Progress.start e s).fail t).abort error) :=
    (Progress.Turn.failed hf.inside hb (fault?_eq_some_iff.mpr hf)).turn_eq
  refine ⟨((Progress.start e s).fail t).abort error, ?_, rfl⟩
  rw [resume_of_running hr, Progress.proceed, ht]

end Engine

/-- An operation that tries an instruction again which has failed. -/
structure Event.Repeats (v : Event) (e : Engine) (error : EngineError) : Prop where
  /-- The machine and the random source stay as they were after the failure. -/
  core : v.after.core = e.core
  /-- So does the record of the last executed instruction. -/
  lastRetired : v.after.lastRetired = e.lastRetired
  /-- A step answers the same error and leaves the engine as it finds it. -/
  step : v.operation = .step → v.reply.value = .error error ∧ v.after = v.before
  /-- A resumption returns before it has executed anything, or answers the same error. -/
  resume : v.operation.IsResume → v.reply.value = .ok (.returned .notRunning) ∨
    v.reply.value = .ok (.returned (.yielded 0)) ∨ v.reply.value = .error error

/-- Where the word of an instruction that fails has been fetched, steps and resumptions
repeat the failure. -/
theorem Performs.repeats {v : Event} {e : Engine} {error : EngineError}
    (hp : Performs v.before v.operation v.reply) (hd : v.operation.Drives)
    (hf : e.machine.Faults error) (hfetched : e.core.fetched = e.core)
    (hc : v.before.core = e.core) (hl : v.before.lastRetired = e.lastRetired) :
    v.Repeats e error := by
  obtain ⟨before, operation, reply⟩ := v
  dsimp only at hp hd hc hl
  have hbefore : before.machine.Faults error := by
    have hm : before.machine = e.machine := congrArg Core.machine hc
    rwa [hm]
  have hb : before.core.fetched = before.core := by rw [hc, hfetched]
  obtain ⟨hstep, hvalue⟩ := Engine.step_of_fetched hbefore hb
  cases operation with
  | step =>
    obtain ⟨limit, hp⟩ := hp
    cases hp
    have hv : (before.step.answer .stepped).value = .error error := by
      rw [Reply.answer, hvalue]
      rfl
    refine ⟨?_, ?_, fun _ => ⟨hv, hstep⟩, fun hr => hr.elim⟩
    · exact (congrArg Engine.core hstep).trans hc
    · exact (congrArg Engine.lastRetired hstep).trans hl
  | resume hooks s =>
    obtain ⟨r, hr, he⟩ := hp.resumption trivial
    cases he
    rcases hr.of_faults hbefore with ⟨he, hv⟩ | ⟨he, hv⟩
    · refine ⟨(congrArg Engine.core he).trans hc, (congrArg Engine.lastRetired he).trans hl,
        (fun hs => nomatch hs), fun _ => ?_⟩
      rcases hv with hv | hv
      · exact Or.inl (congrArg (Except.map Answer.returned) hv)
      · exact Or.inr (Or.inl (congrArg (Except.map Answer.returned) hv))
    · rw [hstep] at he
      exact ⟨(congrArg Engine.core he).trans hc, (congrArg Engine.lastRetired he).trans hl,
        (fun hs => nomatch hs),
        fun _ => Or.inr (Or.inr (congrArg (Except.map Answer.returned) hv))⟩
  | _ => exact hd.elim

/-- An instruction that fails goes on failing, whatever steps and resumptions follow. -/
def Engine.Stuck (e : Engine) (error : EngineError) : Prop :=
  ∀ {events : List Event} {f : Engine}, History e events f →
    (∀ v ∈ events, v.operation.Drives) → ∀ v ∈ events, v.Repeats e error

namespace Engine

variable {σ : Type} {hooks : Scheduler σ} {e f : Engine} {s t : σ} {error : EngineError}

/-- Steps and resumptions after a failure repeat it and leave the core as it is. -/
theorem repeats_of_history {events : List Event} (h : History e events f)
    (hf : e.machine.Faults error) (hfetched : e.core.fetched = e.core)
    (hd : ∀ v ∈ events, v.operation.Drives) :
    f.core = e.core ∧ f.lastRetired = e.lastRetired ∧ ∀ v ∈ events, v.Repeats e error := by
  induction h with
  | nil => exact ⟨rfl, rfl, fun _ hm => absurd hm List.not_mem_nil⟩
  | @snoc events v h hp ih =>
    obtain ⟨hearlier, hlast⟩ := List.forall_mem_append.mp hd
    obtain ⟨hc, hl, hr⟩ := ih hearlier
    have hv := hp.repeats (hlast v List.mem_cons_self) hf hfetched hc hl
    exact ⟨hv.core, hv.lastRetired,
      List.forall_mem_append.mpr ⟨hr, List.forall_mem_singleton.mpr hv⟩⟩

/-- What an instruction that fails leaves is stuck. -/
theorem LeavesIntact.stuck (h : e.LeavesIntact f) (hf : e.machine.Faults error) :
    f.Stuck error := fun hh hd => (repeats_of_history hh (h.faults hf) h.fetched hd).2.2

/-- What failures do and where they happen. -/
structure FaultDiscipline (e : Engine) : Prop where
  /-- A step answers an error exactly where an instruction fails. -/
  step_iff : ∀ error, e.step.value = .error error ↔ e.machine.Faults error
  /-- A step that fails leaves the machine intact, and stuck. -/
  step_leaves : ∀ error, e.machine.Faults error →
    e.LeavesIntact e.step.engine ∧ e.step.engine.Stuck error
  /-- A resumption that answers an error has executed some instructions and come to one that
  fails; it leaves the machine as it was there, and stuck. -/
  resume_error : ∀ {σ : Type} (hooks : Scheduler σ) (limit : Nat) (s : σ) (r : Resumed σ),
    e.resume hooks limit s = some r → ∀ error, r.value = .error error →
      ∃ n, e.Clear n ∧ (e.after n).machine.Faults error ∧
        (e.after n).LeavesIntact r.engine ∧ r.engine.Stuck error
  /-- A resumption at an instruction that fails leaves the engine as it is, or answers the
  error of the failure and leaves the machine intact, and stuck. -/
  resume_leaves : ∀ error, e.machine.Faults error →
    ∀ {σ : Type} (hooks : Scheduler σ) (limit : Nat) (s : σ) (r : Resumed σ),
      e.resume hooks limit s = some r →
        (r.engine = e ∧ (r.value = .ok .notRunning ∨ r.value = .ok (.yielded 0))) ∨
          (r.value = .error error ∧ e.LeavesIntact r.engine ∧ r.engine.Stuck error)
  /-- It answers the error if a run is in progress and the scheduler lets it go on. -/
  resume_answers : ∀ error, e.machine.Faults error → e.isRunning = true →
    ∀ {σ : Type} (hooks : Scheduler σ) (limit : Nat) (s : σ),
      (hooks.beforeExec e s).1 = .proceed →
        ∃ r, e.resume hooks (limit + 1) s = some r ∧ r.value = .error error

/-- A fault leaves the machine intact and is stable: in whatever state an engine is, an
instruction fails exactly if it is a call with all slots of the call stack live or a return
with none, the failure changes nothing but the fetched word and its address, and it is
repeated by whatever steps and resumptions follow. -/
theorem fault_discipline (e : Engine) : e.FaultDiscipline where
  step_iff error := step_value_eq_error_iff.trans fault?_eq_some_iff
  step_leaves error hf := by
    have hl := leavesIntact_step (fault?_eq_some_iff.mpr hf)
    exact ⟨hl, hl.stuck hf⟩
  resume_error hooks limit s r hr error hv := by
    obtain ⟨n, hc, hf, he⟩ := (resumption hr).of_error hv
    have hl : (e.after n).LeavesIntact r.engine := by
      rw [he]
      exact leavesIntact_finish (fault?_eq_some_iff.mpr hf) _
    exact ⟨n, hc, hf, hl, hl.stuck hf⟩
  resume_leaves error hf σ hooks limit s r hr := by
    rcases (resumption hr).of_faults hf with hidle | ⟨he, hv⟩
    · exact Or.inl hidle
    · have hl : e.LeavesIntact r.engine := by
        rw [he]
        exact leavesIntact_finish (fault?_eq_some_iff.mpr hf) _
      exact Or.inr ⟨hv, hl, hl.stuck hf⟩
  resume_answers error hf hr σ hooks limit s hb := by
    cases hd : hooks.beforeExec e s with
    | mk decision t =>
      rw [hd] at hb
      cases hb
      exact resume_of_faults hf hr hd limit

/-- A program that calls itself without end: the seventeenth call fails in a resumed run,
and once more when it is stepped. -/
theorem fault_discipline_of_endless_calls :
    ∃ (e : Engine) (r : Resumed Unit) (n : Nat),
      e.resume Scheduler.toCompletion 17 () = some r ∧
      r.value = .error (.stackOverflow 0x200 16) ∧
      (e.after n).machine.Faults (.stackOverflow 0x200 16) ∧
      (e.after n).LeavesIntact r.engine ∧ r.engine.Stuck (.stackOverflow 0x200 16) ∧
      r.engine.step.value = .error (.stackOverflow 0x200 16) := by
  let e : Engine := ((Engine.new .standard (Vector.replicate 8 0)).run [0x22, 0x00] 7).engine
  have hx : (e.resume Scheduler.toCompletion 17 ()).map
      (fun r => decide (r.value = .error (.stackOverflow 0x200 16))) = some true := by
    decide +kernel
  obtain ⟨r, hr, hv⟩ := Option.map_eq_some_iff.mp hx
  have hv : r.value = .error (.stackOverflow 0x200 16) := of_decide_eq_true hv
  obtain ⟨n, _, hf, hl, hs⟩ :=
    (fault_discipline e).resume_error Scheduler.toCompletion 17 () r hr _ hv
  have hagain := ((fault_discipline r.engine).step_iff _).mpr (hl.faults hf)
  exact ⟨e, r, n, hr, hv, hf, hl, hs, hagain⟩

end Engine

end Chip8
