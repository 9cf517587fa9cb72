import Chip8.Proofs.Completion
import Chip8.Proofs.Holding

/-!
# Exits of resumptions

What a resumption answers is what it leaves: a run that has been suspended is in progress
inside memory, one that has halted is over outside of it, and one that was ended by an
error is over at the instruction that failed. A run is over exactly where plain execution
of it ends, so no scheduler can end a run.
-/

namespace Chip8.Engine

variable {σ : Type} {e : Engine} {reply : Reply (Except EngineError RunExit)}

/-- A run is in progress exactly in one stage of its life. -/
theorem isRunning_iff : e.isRunning = true ↔ e.lifecycle = .running := beq_iff_eq

/-- Nothing is completed by a resumption that answers a suspension. -/
theorem Resumption.completions_of_yielded (h : e.Resumption reply) {n : Nat}
    (hv : reply.value = .ok (.yielded n)) : Notice.completions reply.notices = [] := by
  cases h with
  | idle hr => cases hv
  | @yielded n reason hr hc hp =>
    rw [Notice.completions_append, completions_dispatches, completions_pauseNotices]
    rfl
  | halted hr hc hp => cases hv
  | aborted hr hc hp hf => cases hv

/-- A run that has halted is over, and outside of memory. -/
theorem Resumption.of_halted (h : e.Resumption reply) {n : Nat}
    (hv : reply.value = .ok (.halted n)) :
    reply.engine.lifecycle = .halted ∧ reply.engine.machine.pastEnd = true := by
  cases h with
  | idle hr => cases hv
  | yielded hr hc hp => cases hv
  | halted hr hc hp => exact ⟨rfl, hp⟩
  | aborted hr hc hp hf => cases hv

/-- A resumption that answers that there is no run in progress has done nothing. -/
theorem Resumption.of_notRunning (h : e.Resumption reply) (hv : reply.value = .ok .notRunning) :
    e.isRunning = false ∧ reply = ⟨e, [], .ok .notRunning⟩ := by
  cases h with
  | idle hr => exact ⟨hr, rfl⟩
  | yielded hr hc hp => cases hv
  | halted hr hc hp => cases hv
  | aborted hr hc hp hf => cases hv

/-- A run that a resumption has ended is over where plain execution ends, and in the same
way. -/
theorem Resumption.ends (h : e.Resumption reply) (hr : e.isRunning = true)
    (hl : reply.engine.lifecycle = .halted) :
    ∃ n, e.core.Ends e.config.shiftSource n reply.fault? reply.engine.core := by
  cases h with
  | idle hi => exact absurd (hr.symm.trans hi) (by simp)
  | @yielded n reason hi hc hp =>
    -- Steps never touch the life of a run, so a suspended run is not over.
    have hn : e.lifecycle = .halted := (e.lifecycle_after n).symm.trans hl
    rw [isRunning_iff.mp hr] at hn
    cases hn
  | @halted n hi hc hp =>
    rw [machine_after] at hp
    refine ⟨n, ?_⟩
    show e.core.Ends e.config.shiftSource n none (e.after n).core
    rw [core_after]
    exact .halted hc hp
  | @aborted n error hi hc hp hf =>
    rw [machine_after] at hp
    refine ⟨n, ?_⟩
    show e.core.Ends e.config.shiftSource n (some error) (e.after (n + 1)).core
    rw [core_after_of_fails hf]
    rw [fault?_after] at hf
    exact .aborted hc hp hf

/-- What the answer of a resumption tells about what the resumption leaves. -/
structure Agrees (e : Engine) (s : σ) (r : Resumed σ) : Prop where
  /-- A run that has been suspended is in progress inside memory, and nothing has been
  completed. -/
  yielded : ∀ n, r.value = .ok (.yielded n) → r.engine.lifecycle = .running ∧
    r.engine.machine.pc.toNat < memorySize ∧ Notice.completions r.notices = []
  /-- A run that has halted is over, and outside of memory. -/
  halted : ∀ n, r.value = .ok (.halted n) → r.engine.lifecycle = .halted ∧
    memorySize ≤ r.engine.machine.pc.toNat
  /-- A run that an error has ended is over. It is still at the instruction that failed,
  which fails with the error and lies inside memory. -/
  failed : ∀ error, r.value = .error error → r.engine.lifecycle = .halted ∧
    r.engine.machine.pc.toNat < memorySize ∧ r.engine.machine.Faults error ∧
    ∃ n, e.Clear n ∧ (e.after n).machine.Faults error ∧
      r.engine.machine.pc = (e.after n).machine.pc
  /-- Where no run was in progress nothing has changed, and nothing has been told. -/
  idle : r.value = .ok .notRunning → e.lifecycle ≠ .running ∧ r.engine = e ∧
    r.scheduler = s ∧ r.notices = []
  /-- A run that is over has come to where plain execution of it ends, outside of memory
  or at an instruction that fails. -/
  ended : e.lifecycle = .running → r.engine.lifecycle = .halted →
    ∃ n, e.core.Ends e.config.shiftSource n r.fault? r.engine.core

/-- A resumption that finds no run in progress leaves the scheduler as it is. -/
theorem scheduler_of_notRunning {hooks : Scheduler σ} {limit : Nat} {s : σ} {r : Resumed σ}
    (h : e.resume hooks limit s = some r) (hr : e.isRunning = false) : r.scheduler = s := by
  rcases resume_cases h with ⟨hi, _⟩ | ⟨_, he⟩
  · exact absurd (hi.symm.trans hr) (by simp)
  · rw [he]
    rfl

/-- The answer of a resumption agrees with what the resumption leaves. -/
theorem agrees_of_resume {hooks : Scheduler σ} {limit : Nat} {s : σ} {r : Resumed σ}
    (h : e.resume hooks limit s = some r) : e.Agrees s r := by
  have hx := resumption h
  refine ⟨?_, ?_, ?_, ?_, fun hl hh => hx.ends (isRunning_iff.mpr hl) hh⟩
  · intro n hv
    obtain ⟨hr, hp⟩ := hx.of_yielded hv
    exact ⟨isRunning_iff.mp hr, Machine.pc_lt_of_inside hp, hx.completions_of_yielded hv⟩
  · intro n hv
    obtain ⟨hl, hp⟩ := hx.of_halted hv
    exact ⟨hl, of_decide_eq_true hp⟩
  · intro error hv
    obtain ⟨n, hc, hf, he⟩ := hx.of_error hv
    have hi : (e.after n).LeavesIntact r.engine := by
      rw [he]
      exact leavesIntact_finish (fault?_eq_some_iff.mpr hf) _
    have hg := hi.faults hf
    refine ⟨?_, Machine.pc_lt_of_inside hg.inside, hg, n, hc, hf, ?_⟩
    · rw [he]
      rfl
    · rw [hi.machine]
  · intro hv
    obtain ⟨hr, he⟩ := hx.of_notRunning hv
    refine ⟨?_, congrArg Reply.engine he, scheduler_of_notRunning h hr,
      congrArg Reply.notices he⟩
    intro hl
    rw [isRunning_iff.mpr hl] at hr
    cases hr

/-- The end of a run tells the completion that is owed, if one is. -/
theorem finish_notices (e : Engine) (error : Option EngineError) :
    (e.finish error).2 = e.completion.toList.map fun ticket => .completed ticket error := by
  unfold finish
  cases e.completion with
  | none => rfl
  | some ticket => rfl

/-- A run that stands outside of memory already is over at once. -/
theorem resume_of_pastEnd (hr : e.isRunning = true) (hp : e.machine.pastEnd = true)
    (hooks : Scheduler σ) (limit : Nat) (s : σ) :
    e.resume hooks (limit + 1) s = some ⟨⟨(e.finish none).1,
      .event (.programHalted 0) :: (e.finish none).2, .ok (.halted 0)⟩, s⟩ := by
  have ht : (Progress.start e s).turn hooks = .inr (Progress.start e s).halt :=
    (Progress.Turn.halted hp).turn_eq
  rw [resume_of_running hr, Progress.proceed, ht]
  simp [Progress.start, Progress.halt, Progress.stop]

/-- Whatever the scheduler is, the answer of a resumption agrees with what the resumption
leaves, and a run is over only where plain execution of it ends. A run that steps have
moved out of memory is over at once: nothing is executed, and the scheduler stays as it is
and has no say in it. -/
theorem exits_agree (e : Engine) :
    (∀ {σ : Type} (hooks : Scheduler σ) (limit : Nat) (s : σ) (r : Resumed σ),
      e.resume hooks limit s = some r → e.Agrees s r) ∧
    (e.lifecycle = .running → memorySize ≤ e.machine.pc.toNat →
      ∀ {σ : Type} (hooks : Scheduler σ) (limit : Nat) (s : σ),
        e.resume hooks (limit + 1) s = some
          ⟨⟨{ e with lifecycle := .halted, completion := none },
            .event (.programHalted 0) ::
              e.completion.toList.map fun ticket => .completed ticket none,
            .ok (.halted 0)⟩, s⟩) := by
  refine ⟨fun hooks limit s r h => agrees_of_resume h, ?_⟩
  intro hl hp σ hooks limit s
  rw [← e.finish_notices none]
  exact resume_of_pastEnd (isRunning_iff.mpr hl) (decide_eq_true hp) hooks limit s

/-- A jump to the last byte of memory, under a scheduler that suspends the run before
every instruction: the run is suspended where it started, but is over once steps have
moved it out of memory. A return while no call is live is refused where it stands. -/
theorem exits_agree_of_reluctance :
    let hooks : Scheduler Nat :=
      ⟨fun _ s => (.suspend none, s + 1), fun _ _ s => s, fun _ s => (.suspend none, s + 1)⟩
    let jump := ((Engine.new .standard (Vector.replicate 8 0)).run [0x1F, 0xFF] 7).engine
    let ret := ((Engine.new .standard (Vector.replicate 8 0)).run [0x00, 0xEE] 7).engine
    ∃ (held : Resumed Nat) (ended refused : Resumed Unit),
      jump.resume hooks 1 0 = some held ∧ held.value = .ok (.yielded 0) ∧
      held.engine.lifecycle = .running ∧ held.engine.machine.pc.toNat < memorySize ∧
      (jump.after 2).resume hooks 1 0 = some
        ⟨⟨{ jump.after 2 with lifecycle := .halted, completion := none },
          [.event (.programHalted 0), .completed 7 none], .ok (.halted 0)⟩, 0⟩ ∧
      jump.resume Scheduler.toCompletion 3 () = some ended ∧ ended.value = .ok (.halted 2) ∧
      ended.engine.lifecycle = .halted ∧ memorySize ≤ ended.engine.machine.pc.toNat ∧
      ret.resume Scheduler.toCompletion 1 () = some refused ∧
      refused.value = .error (.stackUnderflow 0x200) ∧
      refused.engine.lifecycle = .halted ∧
      refused.engine.machine.Faults (.stackUnderflow 0x200) := by
  intro hooks jump ret
  have hx : ((jump.resume hooks 1 0).map fun r => decide (r.value = .ok (.yielded 0))) =
      some true := by decide +kernel
  have hy : ((jump.resume Scheduler.toCompletion 3 ()).map
      fun r => decide (r.value = .ok (.halted 2))) = some true := by decide +kernel
  have hz : ((ret.resume Scheduler.toCompletion 1 ()).map
      fun r => decide (r.value = .error (.stackUnderflow 0x200))) = some true := by
    decide +kernel
  obtain ⟨held, hh, hheld⟩ := Option.map_eq_some_iff.mp hx
  obtain ⟨ended, ho, hended⟩ := Option.map_eq_some_iff.mp hy
  obtain ⟨refused, hr, hrefused⟩ := Option.map_eq_some_iff.mp hz
  have hheld : held.value = .ok (.yielded 0) := of_decide_eq_true hheld
  have hended : ended.value = .ok (.halted 2) := of_decide_eq_true hended
  have hrefused : refused.value = .error (.stackUnderflow 0x200) := of_decide_eq_true hrefused
  obtain ⟨hl, hp, _⟩ := ((exits_agree jump).1 hooks 1 0 held hh).yielded 0 hheld
  obtain ⟨hlo, hpo⟩ := ((exits_agree jump).1 _ 3 () ended ho).halted 2 hended
  obtain ⟨hlr, _, hf, _⟩ := ((exits_agree ret).1 _ 1 () refused hr).failed _ hrefused
  have hq : memorySize ≤ (jump.after 2).machine.pc.toNat := by decide +kernel
  have hs : (jump.after 2).lifecycle = .running := by decide +kernel
  have hc : (jump.after 2).completion = some 7 := by decide +kernel
  have ha := (exits_agree (jump.after 2)).2 hs hq hooks 0 0
  rw [hc] at ha
  exact ⟨held, ended, refused, hh, hheld, hl, hp, ha, ho, hended, hlo, hpo, hr, hrefused, hlr,
    hf⟩

end Chip8.Engine
