import Chip8.Proofs.Execution
import Chip8.Scheduler
import Mathlib.Logic.Relation

/-!
# Resumed runs

What a turn of a run can do is said once, by cases. From this it follows what a
resumed run leaves, tells and answers: the engine after some number of plain
steps, whatever the scheduler is and decides. The scheduler only chooses the
number.
-/

namespace Chip8

namespace Progress

variable {σ : Type} {hooks : Scheduler σ} {p q : Progress σ}

/-- The progress once the instruction at the program counter has retired. -/
def retire (hooks : Scheduler σ) (p : Progress σ) (s : σ) : Progress σ where
  engine := p.engine.step.engine
  scheduler := hooks.retired p.engine.step.engine p.engine.core.upcoming s
  executed := p.executed + 1
  notices := p.notices.push p.engine.dispatch

/-- The progress once the instruction at the program counter has failed. -/
def fail (p : Progress σ) (s : σ) : Progress σ where
  engine := p.engine.step.engine
  scheduler := s
  executed := p.executed
  notices := p.notices.push p.engine.dispatch

/-- All ways in which a turn can go. -/
inductive Turn (hooks : Scheduler σ) (p : Progress σ) : Progress σ ⊕ Resumed σ → Prop
  /-- The program counter has left memory. -/
  | halted (hp : p.engine.machine.pastEnd = true) : Turn hooks p (.inr p.halt)
  /-- The scheduler suspends the run before the instruction. -/
  | refused {reason : Option Debug.PauseReason} {s : σ}
      (hp : p.engine.machine.pastEnd = false)
      (hb : hooks.beforeExec p.engine p.scheduler = (.suspend reason, s)) :
      Turn hooks p (.inr ({ p with scheduler := s }.suspend reason))
  /-- The instruction fails. -/
  | failed {s : σ} {error : EngineError} (hp : p.engine.machine.pastEnd = false)
      (hb : hooks.beforeExec p.engine p.scheduler = (.proceed, s))
      (hf : p.engine.fault? = some error) :
      Turn hooks p (.inr ((p.fail s).abort error))
  /-- The instruction moves the program counter out of memory. -/
  | left {s : σ} (hp : p.engine.machine.pastEnd = false)
      (hb : hooks.beforeExec p.engine p.scheduler = (.proceed, s))
      (hf : p.engine.fault? = none) (he : p.engine.step.engine.machine.pastEnd = true) :
      Turn hooks p (.inl (p.retire hooks s))
  /-- The scheduler suspends the run after the instruction. -/
  | yielded {s t : σ} {reason : Option Debug.PauseReason}
      (hp : p.engine.machine.pastEnd = false)
      (hb : hooks.beforeExec p.engine p.scheduler = (.proceed, s))
      (hf : p.engine.fault? = none) (he : p.engine.step.engine.machine.pastEnd = false)
      (hy : hooks.yieldPoint p.engine.step.engine (p.retire hooks s).scheduler =
        (.suspend reason, t)) :
      Turn hooks p (.inr ({ p.retire hooks s with scheduler := t }.suspend reason))
  /-- The run goes on. -/
  | went {s t : σ} (hp : p.engine.machine.pastEnd = false)
      (hb : hooks.beforeExec p.engine p.scheduler = (.proceed, s))
      (hf : p.engine.fault? = none) (he : p.engine.step.engine.machine.pastEnd = false)
      (hy : hooks.yieldPoint p.engine.step.engine (p.retire hooks s).scheduler =
        (.proceed, t)) :
      Turn hooks p (.inl { p.retire hooks s with scheduler := t })

/-- A step logs the word it fetches. -/
theorem notices_step (p : Progress σ) :
    p.notices ++ p.engine.step.notices = p.notices.push p.engine.dispatch := by
  rw [p.engine.step_frame.2]
  rfl

/-- A turn goes in one of these ways. -/
theorem turn_cases (hooks : Scheduler σ) (p : Progress σ) : Turn hooks p (p.turn hooks) := by
  unfold turn
  cases hp : p.engine.machine.pastEnd with
  | true => exact .halted hp
  | false =>
    simp only [Bool.false_eq_true, if_false]
    cases hb : hooks.beforeExec p.engine p.scheduler with
    | mk decision s =>
      cases decision with
      | suspend reason => exact .refused hp hb
      | proceed =>
        cases hf : p.engine.fault? with
        | some error =>
          dsimp only
          rw [Engine.value_of_fails hf, notices_step]
          exact .failed hp hb hf
        | none =>
          dsimp only
          rw [Engine.value_of_retires hf, notices_step]
          dsimp only
          cases he : p.engine.step.engine.machine.pastEnd with
          | true => exact .left hp hb hf he
          | false =>
            simp only [Bool.false_eq_true, if_false]
            cases hy : hooks.yieldPoint p.engine.step.engine
                (hooks.retired p.engine.step.engine p.engine.core.upcoming s) with
            | mk decision t =>
              cases decision with
              | suspend reason => exact .yielded hp hb hf he hy
              | proceed => exact .went hp hb hf he hy

/-- A turn goes in one way only. -/
theorem Turn.turn_eq {x : Progress σ ⊕ Resumed σ} (h : Turn hooks p x) : p.turn hooks = x := by
  cases h with
  | halted hp => rw [turn, if_pos hp]
  | refused hp hb => rw [turn, hp, if_neg Bool.false_ne_true, hb]
  | failed hp hb hf =>
    rw [turn, hp, if_neg Bool.false_ne_true, hb]
    dsimp only
    rw [notices_step, Engine.value_of_fails hf]
    rfl
  | left hp hb hf he =>
    rw [turn, hp, if_neg Bool.false_ne_true, hb]
    dsimp only
    rw [notices_step, Engine.value_of_retires hf]
    dsimp only
    rw [he, if_pos rfl]
    rfl
  | yielded hp hb hf he hy =>
    rw [turn, hp, if_neg Bool.false_ne_true, hb]
    dsimp only
    rw [notices_step, Engine.value_of_retires hf]
    dsimp only [retire] at hy ⊢
    rw [he, if_neg Bool.false_ne_true, hy]
  | went hp hb hf he hy =>
    rw [turn, hp, if_neg Bool.false_ne_true, hb]
    dsimp only
    rw [notices_step, Engine.value_of_retires hf]
    dsimp only [retire] at hy ⊢
    rw [he, if_neg Bool.false_ne_true, hy]

/-- A progress is reached from another one by turns that do not end the run. -/
def Reaches (hooks : Scheduler σ) : Progress σ → Progress σ → Prop :=
  Relation.ReflTransGen fun p q => Turn hooks p (.inl q)

/-- What is kept by every turn that does not end the run is kept for as long as it lasts. -/
theorem Reaches.keeps {P : Progress σ → Prop} (hr : Reaches hooks p q)
    (ht : ∀ {p q}, P p → Turn hooks p (.inl q) → P q) (h : P p) : P q := by
  induction hr with
  | refl => exact h
  | tail _ hl ih => exact ht ih hl

/-- A run that returned did so in a turn from a progress it reached. -/
theorem turn_of_proceed {limit : Nat} {r : Resumed σ} (h : p.proceed hooks limit = some r) :
    ∃ q, Reaches hooks p q ∧ Turn hooks q (.inr r) := by
  induction limit generalizing p with
  | zero => cases h
  | succ limit ih =>
    have ht := turn_cases hooks p
    rw [proceed] at h
    cases hq : p.turn hooks with
    | inl next =>
      rw [hq] at h ht
      obtain ⟨q, hr, hl⟩ := ih h
      exact ⟨q, hr.head ht, hl⟩
    | inr last =>
      rw [hq] at h ht
      cases h
      exact ⟨p, .refl, ht⟩

/-- A turn that does not end the run executes one instruction. -/
theorem Turn.executed (h : Turn hooks p (.inl q)) : q.executed = p.executed + 1 := by
  cases h with
  | left => rfl
  | went => rfl

/-- A run that did not return within a limit executed an instruction in each
turn. -/
theorem reaches_of_proceed {limit : Nat} (h : p.proceed hooks limit = none) :
    ∃ q, Reaches hooks p q ∧ q.executed = p.executed + limit := by
  induction limit generalizing p with
  | zero => exact ⟨p, .refl, rfl⟩
  | succ limit ih =>
    have ht := turn_cases hooks p
    rw [proceed] at h
    cases hq : p.turn hooks with
    | inl next =>
      rw [hq] at h ht
      obtain ⟨q, hr, hl⟩ := ih h
      have he := ht.executed
      exact ⟨q, hr.head ht, by omega⟩
    | inr last =>
      rw [hq] at h
      cases h

/-- A run that is resumed on an engine, after some turns: plain steps have been
taken, as many as are counted, and each of them was logged. -/
structure Follows (e : Engine) (p : Progress σ) : Prop where
  /-- The engine is the stepped one. -/
  engine : p.engine = e.after p.executed
  /-- Nothing but the steps was told. -/
  notices : p.notices.toList = e.dispatches p.executed
  /-- The steps started inside memory and retired. -/
  clear : e.Clear p.executed

/-- A resumed run follows its engine at first. -/
theorem follows_start (e : Engine) (s : σ) : Follows e (start e s) where
  engine := rfl
  notices := rfl
  clear := by
    intro k hk
    exact absurd hk (Nat.not_lt_zero k)

/-- A retired instruction is one more plain step. -/
theorem Follows.retire {e : Engine} (h : Follows e p) (hp : p.engine.machine.pastEnd = false)
    (hf : p.engine.fault? = none) (s : σ) : Follows e (p.retire hooks s) where
  engine := by
    show p.engine.step.engine = e.after (p.executed + 1)
    rw [h.engine]
    rfl
  notices := by
    show (p.notices.push p.engine.dispatch).toList = e.dispatches (p.executed + 1)
    rw [Array.toList_push, h.notices, h.engine, Engine.dispatches_succ]
  clear := by
    rw [h.engine] at hp hf
    exact h.clear.succ hp hf

/-- What the scheduler remembers does not matter. -/
theorem Follows.schedule {e : Engine} (h : Follows e p) (s : σ) :
    Follows e { p with scheduler := s } := ⟨h.engine, h.notices, h.clear⟩

/-- A run that goes on follows its engine. -/
theorem Follows.turn {e : Engine} (h : Follows e p) (ht : Turn hooks p (.inl q)) :
    Follows e q := by
  cases ht with
  | left hp hb hf he => exact h.retire hp hf _
  | went hp hb hf he hy => exact (h.retire hp hf _).schedule _

/-- A resumed run follows its engine for as long as it lasts. -/
theorem Follows.reaches {e : Engine} (h : Follows e p) (hr : Reaches hooks p q) :
    Follows e q := hr.keeps Follows.turn h

end Progress

namespace Engine

/-- What a resumed run can leave, tell and answer, whatever the scheduler. -/
inductive Resumption (e : Engine) : Reply (Except EngineError RunExit) → Prop
  /-- There was no run in progress. -/
  | idle (hr : e.isRunning = false) : Resumption e ⟨e, [], .ok .notRunning⟩
  /-- The scheduler suspended the run. -/
  | yielded {n : Nat} {reason : Option Debug.PauseReason} (hr : e.isRunning = true)
      (hc : e.Clear n) (hp : (e.after n).machine.pastEnd = false) :
      Resumption e ⟨e.after n, e.dispatches n ++ pauseNotices (e.after n) reason,
        .ok (.yielded n)⟩
  /-- The program counter left memory. -/
  | halted {n : Nat} (hr : e.isRunning = true) (hc : e.Clear n)
      (hp : (e.after n).machine.pastEnd = true) :
      Resumption e ⟨((e.after n).finish none).1,
        e.dispatches n ++ .event (.programHalted n) :: ((e.after n).finish none).2,
        .ok (.halted n)⟩
  /-- An instruction failed. -/
  | aborted {n : Nat} {error : EngineError} (hr : e.isRunning = true) (hc : e.Clear n)
      (hp : (e.after n).machine.pastEnd = false) (hf : (e.after n).fault? = some error) :
      Resumption e ⟨((e.after (n + 1)).finish (some error)).1,
        e.dispatches (n + 1) ++ .event (.runAborted (e.after (n + 1)).machine.pc error) ::
          ((e.after (n + 1)).finish (some error)).2,
        .error error⟩

end Engine

namespace Progress

variable {σ : Type} {hooks : Scheduler σ} {p : Progress σ} {e : Engine}

/-- What a run that is suspended leaves, tells and answers. -/
theorem Follows.suspend_toReply (h : Follows e p) (reason : Option Debug.PauseReason) :
    (p.suspend reason).toReply = ⟨e.after p.executed,
      e.dispatches p.executed ++ Engine.pauseNotices (e.after p.executed) reason,
      .ok (.yielded p.executed)⟩ := by
  rw [← h.engine, ← h.notices]
  cases reason with
  | none => simp [suspend, stop, Engine.pauseNotices]
  | some reason => simp [suspend, stop, Engine.pauseNotices]

/-- What a run leaves, tells and answers at the end of memory. -/
theorem Follows.halt_toReply (h : Follows e p) :
    p.halt.toReply = ⟨((e.after p.executed).finish none).1,
      e.dispatches p.executed ++
        .event (.programHalted p.executed) :: ((e.after p.executed).finish none).2,
      .ok (.halted p.executed)⟩ := by
  rw [← h.engine, ← h.notices]
  simp [halt, stop]

/-- What a run leaves, tells and answers when an instruction fails. -/
theorem Follows.abort_toReply (h : Follows e p) (error : EngineError) (s : σ) :
    ((p.fail s).abort error).toReply =
      ⟨((e.after (p.executed + 1)).finish (some error)).1,
        e.dispatches (p.executed + 1) ++
          .event (.runAborted (e.after (p.executed + 1)).machine.pc error) ::
            ((e.after (p.executed + 1)).finish (some error)).2,
        .error error⟩ := by
  rw [Engine.dispatches_succ, Engine.after, ← h.engine, ← h.notices]
  simp [abort, fail, stop]

/-- A run that is suspended has been cut between two steps. -/
theorem Follows.suspend (h : Follows e p) (hr : e.isRunning = true)
    (hp : p.engine.machine.pastEnd = false) (reason : Option Debug.PauseReason) :
    e.Resumption (p.suspend reason).toReply := by
  rw [h.suspend_toReply]
  rw [h.engine] at hp
  exact .yielded hr h.clear hp

/-- A run that comes to the end of memory is finished there. -/
theorem Follows.halt (h : Follows e p) (hr : e.isRunning = true)
    (hp : p.engine.machine.pastEnd = true) : e.Resumption p.halt.toReply := by
  rw [h.halt_toReply]
  rw [h.engine] at hp
  exact .halted hr h.clear hp

/-- A run is finished by an instruction that fails. -/
theorem Follows.abort (h : Follows e p) (hr : e.isRunning = true)
    (hp : p.engine.machine.pastEnd = false) {error : EngineError}
    (hf : p.engine.fault? = some error) (s : σ) :
    e.Resumption ((p.fail s).abort error).toReply := by
  rw [h.abort_toReply]
  rw [h.engine] at hp hf
  exact .aborted hr h.clear hp hf

/-- The last turn of a run returns in one of these ways. -/
theorem Follows.resumption (h : Follows e p) (hr : e.isRunning = true) {r : Resumed σ}
    (ht : Turn hooks p (.inr r)) : e.Resumption r.toReply := by
  cases ht with
  | halted hp => exact h.halt hr hp
  | refused hp hb => exact (h.schedule _).suspend hr hp _
  | failed hp hb hf => exact h.abort hr hp hf _
  | yielded hp hb hf he hy => exact ((h.retire hp hf _).schedule _).suspend hr he _

end Progress

namespace Engine

/-- A run in progress is resumed by taking turns. -/
theorem resume_of_running {σ : Type} {hooks : Scheduler σ} {limit : Nat} {e : Engine} {s : σ}
    (hr : e.isRunning = true) :
    e.resume hooks limit s = (Progress.start e s).proceed hooks limit := if_pos hr

/-- A resumption that returns does so in a turn of the run, unless there is no run in
progress. -/
theorem resume_cases {σ : Type} {hooks : Scheduler σ} {limit : Nat} {e : Engine} {s : σ}
    {r : Resumed σ} (h : e.resume hooks limit s = some r) :
    (e.isRunning = true ∧ ∃ q, Progress.Reaches hooks (.start e s) q ∧
        Progress.Turn hooks q (.inr r)) ∨
      e.isRunning = false ∧ r = (Progress.start e s).stop (.ok .notRunning) := by
  cases hr : e.isRunning with
  | true =>
    rw [resume_of_running hr] at h
    exact Or.inl ⟨rfl, Progress.turn_of_proceed h⟩
  | false =>
    rw [resume, if_neg (by simp [hr])] at h
    exact Or.inr ⟨rfl, (Option.some.inj h).symm⟩

/-- A resumption that does not return within a limit takes as many turns. -/
theorem reaches_of_resume {σ : Type} {hooks : Scheduler σ} {limit : Nat} {e : Engine} {s : σ}
    (h : e.resume hooks limit s = none) : e.isRunning = true ∧
      ∃ q, Progress.Reaches hooks (.start e s) q ∧ q.executed = limit := by
  unfold resume at h
  split at h
  · rename_i hr
    obtain ⟨q, hq, hn⟩ := Progress.reaches_of_proceed h
    rw [Progress.start, Nat.zero_add] at hn
    exact ⟨hr, q, hq, hn⟩
  · cases h

/-- A resumed run returns in one of these ways. -/
theorem resumption {σ : Type} {hooks : Scheduler σ} {limit : Nat} {e : Engine} {s : σ}
    {r : Resumed σ} (h : e.resume hooks limit s = some r) : e.Resumption r.toReply := by
  rcases resume_cases h with ⟨hr, q, hq, ht⟩ | ⟨hr, he⟩
  · exact ((Progress.follows_start e s).reaches hq).resumption hr ht
  · rw [he]
    exact .idle hr

/-- A resumption keeps the config. -/
theorem Resumption.config_eq {e : Engine} {reply : Reply (Except EngineError RunExit)}
    (h : e.Resumption reply) : reply.engine.config = e.config := by
  cases h with
  | idle hr => rfl
  | @yielded n reason hr hc hp => exact e.config_after n
  | @halted n hr hc hp => exact e.config_after n
  | @aborted n error hr hc hp hf => exact e.config_after (n + 1)

end Engine

end Chip8
