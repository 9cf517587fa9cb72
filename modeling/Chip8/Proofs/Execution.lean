import Chip8.Engine

/-!
# Plain execution

A core, or an engine around it, that is stepped again and again with nothing
asked in between. An instruction that fails has fetched its word and done
nothing else, so it fails again whenever it is tried again. Steps never touch
the life of a run. This is the reference with which scheduled runs are
compared.
-/

namespace Chip8

namespace Core

variable {source : ShiftSource}

/-- The core after a number of steps. -/
def after (source : ShiftSource) (c : Core) : Nat → Core
  | 0 => c
  | n + 1 => ((c.after source n).step source).1

/-- The error of the instruction at the program counter, if it fails. -/
def fault? (source : ShiftSource) (c : Core) : Option EngineError :=
  match (c.step source).2 with
  | .ok _ => none
  | .error error => some error

/-- The core with the word at the program counter fetched. -/
def fetched (c : Core) : Core := { c with machine := c.machine.fetched }

/-- A step that retires leaves the record that was upcoming. -/
theorem step_of_retires {c : Core} (h : c.fault? source = none) :
    (c.step source).2 = .ok c.upcoming := by
  unfold fault? at h
  unfold step at h ⊢
  dsimp only at h ⊢
  cases he : c.machine.fetched.execute source c.random (.decode c.upcoming.word) with
  | ok machine => rfl
  | error error =>
    rw [he] at h
    cases h

/-- A step that fails fetches and leaves everything else. -/
theorem step_of_fails {c : Core} {error : EngineError} (h : c.fault? source = some error) :
    c.step source = (c.fetched, .error error) := by
  unfold fault? at h
  unfold step at h ⊢
  dsimp only at h ⊢
  cases he : c.machine.fetched.execute source c.random (.decode c.upcoming.word) with
  | ok machine =>
    rw [he] at h
    cases h
  | error other =>
    rw [he] at h
    cases h
    rfl

/-- An instruction that fails goes on failing. -/
@[simp]
theorem fault?_fetched (c : Core) : c.fetched.fault? source = c.fault? source := rfl

/-- The first steps of a core all start inside memory and retire. -/
def Clear (source : ShiftSource) (c : Core) (n : Nat) : Prop :=
  ∀ k < n, (c.after source k).machine.pastEnd = false ∧ (c.after source k).fault? source = none

/-- A core that has not been stepped. -/
@[simp]
theorem after_zero (c : Core) : c.after source 0 = c := rfl

/-- The steps of a sum of numbers are taken one number after the other. -/
theorem after_add (c : Core) (m n : Nat) :
    c.after source (m + n) = (c.after source m).after source n := by
  induction n with
  | zero => rfl
  | succ n ih => rw [Nat.add_succ, after, ih, after]

/-- What holds of the first cores and of the first ones from there holds of all
of them. -/
theorem forall_after_add {c : Core} {P : Core → Prop} {n m : Nat}
    (hn : ∀ k < n, P (c.after source k)) (hm : ∀ k < m, P ((c.after source n).after source k)) :
    ∀ k < n + m, P (c.after source k) := by
  intro k hk
  by_cases hl : k < n
  · exact hn k hl
  · have hs : n + (k - n) = k := by omega
    have hr := hm (k - n) (by omega)
    rw [← after_add, hs] at hr
    exact hr

/-- One more step starts inside memory and retires. -/
theorem Clear.succ {c : Core} {n : Nat} (h : c.Clear source n)
    (hp : (c.after source n).machine.pastEnd = false)
    (hf : (c.after source n).fault? source = none) : c.Clear source (n + 1) := by
  intro k hk
  obtain hl | he := Nat.lt_succ_iff_lt_or_eq.mp hk
  · exact h k hl
  · rw [he]
    exact ⟨hp, hf⟩

/-- Steps go on where steps have retired. -/
theorem Clear.add {c : Core} {n m : Nat} (h : c.Clear source n)
    (hm : (c.after source n).Clear source m) : c.Clear source (n + m) :=
  forall_after_add (P := fun d => d.machine.pastEnd = false ∧ d.fault? source = none) h hm

end Core

namespace Notice

/-- Whether a notice says that a word was fetched for execution. -/
def isDispatch : Notice → Bool
  | .event (.dispatched _ _) => true
  | _ => false

end Notice

namespace Engine

/-- The error of the instruction at the program counter, if it fails. -/
def fault? (e : Engine) : Option EngineError := e.core.fault? e.config.shiftSource

/-- The engine after a number of steps. -/
def after (e : Engine) : Nat → Engine
  | 0 => e
  | n + 1 => (e.after n).step.engine

/-- The log events of a number of steps. -/
def dispatches (e : Engine) (n : Nat) : List Notice :=
  (List.range n).map fun k => (e.after k).dispatch

/-- The first steps of an engine all start inside memory and retire. -/
def Clear (e : Engine) (n : Nat) : Prop := e.core.Clear e.config.shiftSource n

/-- The notice of a suspended run: the pause, if a debugger says why. -/
def pauseNotices (e : Engine) : Option Debug.PauseReason → List Notice
  | some reason => [.event (.debuggerPaused e.machine.pc reason)]
  | none => []

/-- One more step logs one more event. -/
theorem dispatches_succ (e : Engine) (n : Nat) :
    e.dispatches (n + 1) = e.dispatches n ++ [(e.after n).dispatch] := by
  rw [dispatches, List.range_succ, List.map_append, List.map_singleton]
  rfl

/-- Every step fetches one word. -/
theorem countP_dispatches (e : Engine) (n : Nat) :
    (e.dispatches n).countP Notice.isDispatch = n := by
  induction n with
  | zero => rfl
  | succ n ih =>
    rw [dispatches_succ, List.countP_append, ih]
    rfl

/-- The words that were fetched are those of the steps, in order. -/
theorem getElem?_dispatches_append {e : Engine} {n j : Nat} {tail : List Notice}
    (ht : tail.countP Notice.isDispatch = 0) {pc : UInt16} {word : Word}
    (hj : (e.dispatches n ++ tail)[j]? = some (.event (.dispatched pc word))) :
    j < n ∧ (e.after j).machine.pc = pc := by
  have hl : (e.dispatches n).length = n := by
    rw [dispatches, List.length_map, List.length_range]
  by_cases hn : j < n
  · rw [List.getElem?_append_left (by omega), dispatches, List.getElem?_map,
      List.getElem?_range hn] at hj
    cases hj
    exact ⟨hn, rfl⟩
  · rw [List.getElem?_append_right (by omega)] at hj
    exact absurd rfl (List.countP_eq_zero.mp ht _ (List.mem_of_getElem? hj))

/-- A pause fetches no word. -/
theorem countP_pauseNotices (e : Engine) (reason : Option Debug.PauseReason) :
    (e.pauseNotices reason).countP Notice.isDispatch = 0 := by
  cases reason with
  | none => rfl
  | some reason => rfl

/-- The end of a run fetches no word. -/
theorem countP_finish (e : Engine) (error : Option EngineError) :
    (e.finish error).2.countP Notice.isDispatch = 0 := by
  unfold finish
  cases e.completion with
  | none => rfl
  | some ticket => rfl

/-- The notices at the end of a run fetch no word. -/
theorem countP_ending (e : Engine) {event : LogEvent}
    (hv : Notice.isDispatch (.event event) = false) (error : Option EngineError) :
    (.event event :: (e.finish error).2).countP Notice.isDispatch = 0 := by
  rw [List.countP_cons_of_neg (by simp [hv]), countP_finish]

/-- What a step that retires leaves, tells and answers. -/
theorem step_of_retires {e : Engine} (h : e.fault? = none) :
    e.step = ⟨{ e with
      core := (e.core.step e.config.shiftSource).1
      lastRetired := some e.core.upcoming }, [e.dispatch], .ok e.core.upcoming⟩ := by
  have hs := Core.step_of_retires h
  unfold step
  cases he : e.core.step e.config.shiftSource with
  | mk core answer =>
    rw [he] at hs
    dsimp only at hs
    rw [hs]

/-- What a step that fails leaves, tells and answers. -/
theorem step_of_fails {e : Engine} {error : EngineError} (h : e.fault? = some error) :
    e.step = ⟨{ e with core := e.core.fetched }, [e.dispatch], .error error⟩ := by
  have hs := Core.step_of_fails h
  unfold step
  rw [hs]

/-- A step that retires answers the record of its instruction. -/
theorem value_of_retires {e : Engine} (h : e.fault? = none) :
    e.step.value = .ok e.core.upcoming := by
  rw [step_of_retires h]

/-- A step that fails answers its error. -/
theorem value_of_fails {e : Engine} {error : EngineError} (h : e.fault? = some error) :
    e.step.value = .error error := by
  rw [step_of_fails h]

/-- A step acts on the core and on the record of the last instruction only. -/
theorem step_frame (e : Engine) :
    e.step.engine = { e with
      core := (e.core.step e.config.shiftSource).1
      lastRetired := e.step.engine.lastRetired } ∧ e.step.notices = [e.dispatch] := by
  cases hf : e.fault? with
  | none =>
    rw [step_of_retires hf]
    exact ⟨rfl, rfl⟩
  | some error =>
    rw [step_of_fails hf]
    have hs := Core.step_of_fails hf
    rw [hs]
    exact ⟨rfl, rfl⟩

/-- Steps act on the core and on the record of the last instruction only. -/
theorem after_frame (e : Engine) (n : Nat) :
    e.after n = { e with
      core := e.core.after e.config.shiftSource n
      lastRetired := (e.after n).lastRetired } := by
  induction n with
  | zero => rfl
  | succ n ih =>
    have hs := (e.after n).step_frame.1
    rw [after, hs, ih]
    rfl

/-- The core of a stepped engine is the stepped core. -/
@[simp]
theorem core_after (e : Engine) (n : Nat) :
    (e.after n).core = e.core.after e.config.shiftSource n := by
  rw [after_frame]

/-- The machine of a stepped engine is that of the stepped core. -/
@[simp]
theorem machine_after (e : Engine) (n : Nat) :
    (e.after n).machine = (e.core.after e.config.shiftSource n).machine := by
  rw [machine, core_after]

/-- Steps leave the config. -/
@[simp]
theorem config_after (e : Engine) (n : Nat) : (e.after n).config = e.config := by
  rw [after_frame]

/-- Steps leave the lifecycle. -/
@[simp]
theorem lifecycle_after (e : Engine) (n : Nat) : (e.after n).lifecycle = e.lifecycle := by
  rw [after_frame]

/-- Steps leave the pending completion. -/
@[simp]
theorem completion_after (e : Engine) (n : Nat) : (e.after n).completion = e.completion := by
  rw [after_frame]

/-- Steps of an engine are taken one number after the other. -/
theorem after_add (e : Engine) (n m : Nat) : e.after (n + m) = (e.after n).after m := by
  induction m with
  | zero => rfl
  | succ m ih => rw [Nat.add_succ, after, ih, after]

/-- An engine fails where its core fails. -/
@[simp]
theorem fault?_after (e : Engine) (n : Nat) : (e.after n).fault? =
    (e.core.after e.config.shiftSource n).fault? e.config.shiftSource := by
  rw [fault?, core_after, config_after]

/-- A step that fails fetches its word and does nothing else to the core. -/
theorem core_after_of_fails {e : Engine} {n : Nat} {error : EngineError}
    (h : (e.after n).fault? = some error) :
    (e.after (n + 1)).core = (e.core.after e.config.shiftSource n).fetched := by
  rw [fault?_after] at h
  rw [core_after, Core.after, Core.step_of_fails h]

/-- One more step starts inside memory and retires. -/
theorem Clear.succ {e : Engine} {n : Nat} (h : e.Clear n)
    (hp : (e.after n).machine.pastEnd = false) (hf : (e.after n).fault? = none) :
    e.Clear (n + 1) := by
  rw [machine_after] at hp
  rw [fault?_after] at hf
  exact Core.Clear.succ h hp hf

/-- Steps go on where steps have retired. -/
theorem Clear.add {e : Engine} {n m : Nat} (h : e.Clear n) (hm : (e.after n).Clear m) :
    e.Clear (n + m) := by
  rw [Clear, core_after, config_after] at hm
  exact Core.Clear.add h hm

/-- An accepted run is in progress on a machine that is at its origin, under the
config that the engine had. -/
theorem run_accepted {e : Engine} {program : List UInt8} {ticket : Ticket}
    (hv : (e.run program ticket).value = .ok ()) :
    (e.run program ticket).engine.isRunning = true ∧
      (e.run program ticket).engine.machine.pc = programOrigin ∧
      (e.run program ticket).engine.config = e.config := by
  unfold run load at hv ⊢
  cases hm : e.cleared.machine.load program programOrigin with
  | error error =>
    rw [hm] at hv
    cases hv
  | ok m =>
    unfold Machine.load at hm
    split at hm
    · cases hm
      exact ⟨rfl, rfl, rfl⟩
    · cases hm

end Engine

end Chip8
