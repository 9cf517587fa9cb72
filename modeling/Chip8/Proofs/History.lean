import Chip8.Proofs.Resumption
import Mathlib.Data.List.Induction

/-!
# Histories

A history is a sequence of operations of a host on one engine, each with the
engine it found and with what it left, told and answered. Every operation may
follow every other one, and every resumption may bring a scheduler of its own.
-/

namespace Chip8

/-- What a host can do with an engine. -/
inductive Operation : Type 1 where
  /-- Load a program at an address. -/
  | load (program : List UInt8) (origin : UInt16)
  /-- Start a run of a program and ask for its completion. -/
  | run (program : List UInt8) (ticket : Ticket)
  /-- Switch the machine off and on again. -/
  | reset
  /-- Execute one instruction. -/
  | step
  /-- Resume the run under a scheduler in some state. -/
  | resume {σ : Type} (hooks : Scheduler σ) (s : σ)

namespace Operation

/-- The operations after which no earlier run is left. -/
def Replaces : Operation → Prop
  | .run _ _ => True
  | .reset => True
  | _ => False

/-- The operation in which runs make progress. -/
def IsResume : Operation → Prop
  | .resume _ _ => True
  | _ => False

/-- The operations in which instructions are executed. -/
def Drives : Operation → Prop
  | .step => True
  | .resume _ _ => True
  | _ => False

end Operation

/-- What an operation answers when it is not refused. -/
inductive Answer where
  /-- It has been done. -/
  | done
  /-- An instruction has retired. -/
  | stepped (record : Retired)
  /-- The run has returned. -/
  | returned (exit : RunExit)
  deriving DecidableEq, Repr

/-- The reply with its answer in another form. -/
def Reply.answer {α : Type} (r : Reply (Except EngineError α)) (f : α → Answer) :
    Reply (Except EngineError Answer) := ⟨r.engine, r.notices, r.value.map f⟩

/-- Perform an operation. There is no reply if a resumed run takes more turns
than a limit. -/
def Operation.perform (limit : Nat) (e : Engine) :
    Operation → Option (Reply (Except EngineError Answer))
  | .load program origin => some ((e.load program origin).answer fun _ => .done)
  | .run program ticket => some ((e.run program ticket).answer fun _ => .done)
  | .reset => some ⟨e.reset.engine, e.reset.notices, .ok .done⟩
  | .step => some (e.step.answer .stepped)
  | .resume hooks s => (e.resume hooks limit s).map fun r => r.toReply.answer .returned

/-- An operation on an engine returns a reply. A resumed run that goes on
forever returns none. -/
def Performs (e : Engine) (operation : Operation)
    (reply : Reply (Except EngineError Answer)) : Prop :=
  ∃ limit, operation.perform limit e = some reply

namespace Performs

variable {e : Engine} {operation : Operation} {reply : Reply (Except EngineError Answer)}

/-- A resumption that returned did so in one of the ways of resumed runs. -/
theorem resumption (h : Performs e operation reply) (ho : operation.IsResume) :
    ∃ r, e.Resumption r ∧ reply = r.answer .returned := by
  obtain ⟨limit, hp⟩ := h
  cases operation with
  | resume hooks s =>
    obtain ⟨r, hr, he⟩ := Option.map_eq_some_iff.mp hp
    exact ⟨r.toReply, Engine.resumption hr, he.symm⟩
  | _ => exact ho.elim

/-- No operation changes the config. -/
theorem config_eq (h : Performs e operation reply) : reply.engine.config = e.config := by
  cases operation with
  | load program origin =>
    obtain ⟨limit, hp⟩ := h
    cases hp
    show (e.load program origin).engine.config = e.config
    unfold Engine.load
    split
    · rfl
    · rfl
  | run program ticket =>
    obtain ⟨limit, hp⟩ := h
    cases hp
    show (e.run program ticket).engine.config = e.config
    unfold Engine.run Engine.load
    cases e.cleared.machine.load program programOrigin with
    | ok m => rfl
    | error error => rfl
  | reset =>
    obtain ⟨limit, hp⟩ := h
    cases hp
    rfl
  | step =>
    obtain ⟨limit, hp⟩ := h
    cases hp
    exact e.config_after 1
  | resume hooks s =>
    obtain ⟨r, hr, he⟩ := h.resumption trivial
    rw [he]
    exact hr.config_eq

end Performs

/-- One operation as it happened. -/
structure Event where
  /-- The engine that the operation found. -/
  before : Engine
  /-- The operation. -/
  operation : Operation
  /-- What the operation left, told and answered. -/
  reply : Reply (Except EngineError Answer)

namespace Event

/-- The engine that the operation left. -/
def after (v : Event) : Engine := v.reply.engine

/-- The completions that the operation told. -/
def completions (v : Event) : List (Ticket × Option EngineError) :=
  Notice.completions v.reply.notices

end Event

/-- The operations on an engine, one after the other, and the engine they
leave. -/
inductive History (e : Engine) : List Event → Engine → Prop
  /-- Nothing has happened. -/
  | nil : History e [] e
  /-- One more operation has returned. -/
  | snoc {events : List Event} {v : Event} (h : History e events v.before)
      (hp : Performs v.before v.operation v.reply) : History e (events ++ [v]) v.after

namespace History

/-- Perform operations one after the other. There is no history if a resumed run
takes more turns than a limit. -/
def replay (limit : Nat) (e : Engine) : List Operation → Option (List Event × Engine)
  | [] => some ([], e)
  | operation :: operations =>
    (operation.perform limit e).bind fun reply =>
      (replay limit reply.engine operations).map fun rest =>
        (⟨e, operation, reply⟩ :: rest.1, rest.2)

variable {e f : Engine} {events earlier later : List Event} {v : Event}

/-- A history with one more operation before it. -/
theorem cons (hp : Performs v.before v.operation v.reply) (h : History v.after events f) :
    History v.before (v :: events) f := by
  induction h with
  | nil => exact History.nil.snoc hp
  | snoc h hq ih => exact ih.snoc hq

/-- Operations that are performed one after the other are a history. -/
theorem of_replay {limit : Nat} {operations : List Operation}
    (h : replay limit e operations = some (events, f)) : History e events f := by
  induction operations generalizing e events with
  | nil =>
    cases h
    exact .nil
  | cons operation operations ih =>
    obtain ⟨reply, hr, hm⟩ := Option.bind_eq_some_iff.mp h
    obtain ⟨rest, hs, he⟩ := Option.map_eq_some_iff.mp hm
    cases he
    exact cons (v := ⟨e, operation, reply⟩) ⟨limit, hr⟩ (ih hs)

/-- What holds of the operations to be performed holds of those of the history. -/
theorem forall_of_replay {limit : Nat} {operations : List Operation} {P : Operation → Prop}
    (h : replay limit e operations = some (events, f)) (ho : ∀ o ∈ operations, P o) :
    ∀ v ∈ events, P v.operation := by
  induction operations generalizing e events with
  | nil =>
    cases h
    intro v hv
    cases hv
  | cons operation operations ih =>
    obtain ⟨reply, hr, hm⟩ := Option.bind_eq_some_iff.mp h
    obtain ⟨rest, hs, he⟩ := Option.map_eq_some_iff.mp hm
    cases he
    have hl := ih hs fun o hm => ho o (List.mem_cons_of_mem _ hm)
    intro v hv
    rcases List.mem_cons.mp hv with hv | hv
    · rw [hv]
      exact ho operation List.mem_cons_self
    · exact hl v hv

/-- A history with its last operation split off. -/
theorem split_last (h : History e (events ++ [v]) f) :
    History e events v.before ∧ Performs v.before v.operation v.reply ∧ f = v.after := by
  generalize hl : events ++ [v] = all at h
  cases h with
  | nil => simp at hl
  | snoc h hp =>
    obtain ⟨he, hv⟩ := List.append_inj' hl rfl
    cases hv
    subst he
    exact ⟨h, hp, rfl⟩

/-- Every beginning of a history is a history. -/
theorem of_append (h : History e (earlier ++ later) f) :
    ∃ g, History e earlier g ∧ History g later f := by
  induction later using List.reverseRecOn generalizing f with
  | nil =>
    rw [List.append_nil] at h
    exact ⟨f, h, .nil⟩
  | append_singleton later v ih =>
    rw [← List.append_assoc] at h
    obtain ⟨hs, hp, hf⟩ := h.split_last
    obtain ⟨g, hg, hl⟩ := ih hs
    subst hf
    exact ⟨g, hg, hl.snoc hp⟩

/-- An operation of a history with what came before it and after it. -/
theorem split_at (h : History e (earlier ++ v :: later) f) :
    History e earlier v.before ∧ Performs v.before v.operation v.reply ∧
      History v.after later f := by
  rw [List.append_cons] at h
  obtain ⟨g, hg, hl⟩ := h.of_append
  obtain ⟨hs, hp, hf⟩ := hg.split_last
  subst hf
  exact ⟨hs, hp, hl⟩

/-- Every operation of a history returned what it says. -/
theorem performs_of_mem (h : History e events f) (hv : v ∈ events) :
    Performs v.before v.operation v.reply := by
  obtain ⟨earlier, later, hs⟩ := List.append_of_mem hv
  rw [hs] at h
  exact h.split_at.2.1

/-- No history changes the config. -/
theorem config_eq (h : History e events f) : f.config = e.config := by
  induction h with
  | nil => rfl
  | snoc h hp ih => exact hp.config_eq.trans ih

/-- What an operation of a history found is what a history left. -/
theorem before_of_mem (h : History e events f) (hv : v ∈ events) :
    ∃ earlier, History e earlier v.before := by
  obtain ⟨earlier, later, hs⟩ := List.append_of_mem hv
  rw [hs] at h
  exact ⟨earlier, h.split_at.1⟩

/-- What an operation of a history left is what a history left. -/
theorem after_of_mem (h : History e events f) (hv : v ∈ events) :
    ∃ earlier, History e earlier v.after := by
  obtain ⟨earlier, hb⟩ := h.before_of_mem hv
  exact ⟨earlier ++ [v], hb.snoc (h.performs_of_mem hv)⟩

end History

end Chip8
