import Chip8.Proofs.Effect
import Chip8.Proofs.History

/-!
# Courses

The course of a history is what happened in it instruction by instruction: which
instructions were tried, each on which engine, and when the machine was switched
off and on again. A resumption that has not returned yet, and may never do so, has a
course as well. Every course is a trail of five kinds of single moves, so that what
each move keeps holds at every moment of every history.
-/

namespace Chip8

/-- Something that happens to a machine between two operations or within one. -/
inductive Moment where
  /-- The machine is switched off and on again. -/
  | restarted
  /-- The instruction at the program counter of an engine is tried. -/
  | tried (e : Engine)

namespace Moment

/-- The log event of an instruction that is tried. -/
def dispatch? : Moment → Option Notice
  | .restarted => none
  | .tried e => some e.dispatch

end Moment

namespace Event

/-- The engines on which the operation tried an instruction, in order. Each word that
it logged as fetched stands for one. -/
def tried (v : Event) : List Engine :=
  (List.range (v.reply.notices.countP Notice.isDispatch)).map v.before.after

/-- What happened in the operation, moment by moment. -/
def moments (v : Event) : List Moment :=
  match v.operation with
  | .run _ _ => [.restarted]
  | .reset => [.restarted]
  | _ => v.tried.map .tried

end Event

/-- What has happened to an engine in a history, moment by moment, and the engine as it
is then: between two operations, or at a turn of a resumption that has not returned. -/
inductive Course (e : Engine) (events : List Event) : List Moment → Engine → Prop
  /-- All operations have returned. -/
  | between {f : Engine} (h : History e events f) :
      Course e events (events.flatMap Event.moments) f
  /-- Another resumption has executed some instructions so far. -/
  | within {f : Engine} {σ : Type} {hooks : Scheduler σ} {s : σ} {p : Progress σ}
      (h : History e events f) (hr : f.isRunning = true)
      (hp : Progress.Reaches hooks (.start f s) p) :
      Course e events
        (events.flatMap Event.moments ++ (List.range p.executed).map fun k => .tried (f.after k))
        p.engine

/-- The moments of a trail and the engine to which it leads. -/
inductive Trail (e : Engine) : List Moment → Engine → Prop
  /-- Nothing has happened. -/
  | nil : Trail e [] e
  /-- The machine is switched off and on again. -/
  | restart {moments : List Moment} {f : Engine} (h : Trail e moments f) :
      Trail e (moments ++ [.restarted]) f.cleared
  /-- A program is loaded. -/
  | load {moments : List Moment} {f : Engine} {program : List UInt8} {origin : UInt16}
      {m : Machine} (h : Trail e moments f) (hm : f.machine.load program origin = .ok m) :
      Trail e moments (f.withMachine m)
  /-- The instruction at the program counter is tried. -/
  | step {moments : List Moment} {f : Engine} (h : Trail e moments f) :
      Trail e (moments ++ [.tried f]) f.step.engine
  /-- The life of the run passes to another stage. -/
  | live {moments : List Moment} {f : Engine} {stage : Lifecycle} {ticket : Option Ticket}
      (h : Trail e moments f) :
      Trail e moments { f with lifecycle := stage, completion := ticket }

namespace Trail

variable {e f : Engine} {moments earlier later : List Moment}

/-- Instructions that are tried one after the other lengthen a trail. -/
theorem after (h : Trail e moments f) (n : Nat) :
    Trail e (moments ++ (List.range n).map fun k => .tried (f.after k)) (f.after n) := by
  induction n with
  | zero =>
    rw [List.range_zero, List.map_nil, List.append_nil]
    exact h
  | succ n ih =>
    rw [List.range_succ, List.map_append, ← List.append_assoc]
    exact ih.step

/-- The last moment of two parts belongs to the second one unless that is empty. -/
theorem concat_cases {all : List Moment} {last : Moment}
    (hs : earlier ++ later = all ++ [last]) :
    later = [] ∧ earlier = all ++ [last] ∨
      ∃ rest, later = rest ++ [last] ∧ earlier ++ rest = all := by
  rcases List.eq_nil_or_concat later with hl | ⟨rest, other, hl⟩
  · rw [hl, List.append_nil] at hs
    exact Or.inl ⟨hl, hs⟩
  · rw [List.concat_eq_append] at hl
    rw [hl, ← List.append_assoc] at hs
    obtain ⟨hm, ht⟩ := List.append_inj' hs rfl
    exact Or.inr ⟨rest, hl.trans (congrArg _ ht), hm⟩

/-- The beginning of a trail, and the rest of it. -/
theorem of_append (h : Trail e (earlier ++ later) f) :
    ∃ g, Trail e earlier g ∧ Trail g later f := by
  generalize hs : earlier ++ later = all at h
  induction h generalizing later with
  | nil =>
    obtain ⟨he, hl⟩ := List.append_eq_nil_iff.mp hs
    rw [he, hl]
    exact ⟨e, .nil, .nil⟩
  | restart h ih =>
    obtain ⟨hl, he⟩ | ⟨rest, hl, hm⟩ := concat_cases hs
    · rw [hl, he]
      exact ⟨_, h.restart, .nil⟩
    · obtain ⟨g, hg, hr⟩ := ih hm
      rw [hl]
      exact ⟨g, hg, hr.restart⟩
  | load h hm ih =>
    obtain ⟨g, hg, hr⟩ := ih hs
    exact ⟨g, hg, hr.load hm⟩
  | step h ih =>
    obtain ⟨hl, he⟩ | ⟨rest, hl, hm⟩ := concat_cases hs
    · rw [hl, he]
      exact ⟨_, h.step, .nil⟩
    · obtain ⟨g, hg, hr⟩ := ih hm
      rw [hl]
      exact ⟨g, hg, hr.step⟩
  | live h ih =>
    obtain ⟨g, hg, hr⟩ := ih hs
    exact ⟨g, hg, hr.live⟩

/-- A trail goes on where another one has led. -/
theorem trans {g : Engine} (h : Trail e earlier f) (hg : Trail f later g) :
    Trail e (earlier ++ later) g := by
  induction hg with
  | nil =>
    rw [List.append_nil]
    exact h
  | restart _ ih =>
    rw [← List.append_assoc]
    exact ih.restart
  | load _ hm ih => exact ih.load hm
  | step _ ih =>
    rw [← List.append_assoc]
    exact ih.step
  | live _ ih => exact ih.live

/-- After an instruction that was tried last, programs may have been loaded and the run
may have passed to other stages. -/
theorem split_last {g : Engine} (h : Trail e (earlier ++ [.tried g]) f) :
    Trail e earlier g ∧ Trail g.step.engine [] f := by
  generalize hs : earlier ++ [.tried g] = all at h
  induction h with
  | nil => simp at hs
  | restart h ih =>
    obtain ⟨_, ht⟩ := List.append_inj' hs rfl
    cases ht
  | load h hm ih =>
    obtain ⟨hg, hr⟩ := ih hs
    exact ⟨hg, hr.load hm⟩
  | step h ih =>
    obtain ⟨hm, ht⟩ := List.append_inj' hs rfl
    cases ht
    rw [hm]
    exact ⟨h, .nil⟩
  | live h ih =>
    obtain ⟨hg, hr⟩ := ih hs
    exact ⟨hg, hr.live⟩

/-- A trail up to an instruction that is tried, and the rest of it. -/
theorem split_tried {g : Engine} (h : Trail e (earlier ++ .tried g :: later) f) :
    Trail e earlier g ∧ Trail g.step.engine later f := by
  rw [List.append_cons] at h
  obtain ⟨k, hk, hl⟩ := h.of_append
  obtain ⟨hg, hr⟩ := hk.split_last
  exact ⟨hg, hr.trans hl⟩

end Trail

namespace Engine

variable {e f : Engine} {moments : List Moment}

/-- A load tries no instruction. -/
theorem load_trail (h : Trail e moments f) (program : List UInt8) (origin : UInt16) :
    Trail e (moments ++ Event.moments
      ⟨f, .load program origin, (f.load program origin).answer fun _ => .done⟩)
      (f.load program origin).engine := by
  cases hm : f.machine.load program origin with
  | ok m =>
    have hl : f.load program origin =
        ⟨f.withMachine m, [.event (.programLoaded origin program.length)], .ok ()⟩ := by
      rw [load, hm]
    rw [hl]
    show Trail e (moments ++ []) (f.withMachine m)
    rw [List.append_nil]
    exact h.load hm
  | error error =>
    have hl : f.load program origin = ⟨f, [], .error error⟩ := by
      rw [load, hm]
    rw [hl]
    show Trail e (moments ++ []) f
    rw [List.append_nil]
    exact h

/-- A run that is started or refused switches the machine off and on again first. -/
theorem run_trail (h : Trail e moments f) (program : List UInt8) (ticket : Ticket) :
    Trail e (moments ++ [.restarted]) (f.run program ticket).engine := by
  unfold run load
  cases hm : f.cleared.machine.load program programOrigin with
  | ok m => exact (h.restart.load hm).live
  | error error => exact h.restart

/-- The only moment of a step is its instruction. -/
theorem moments_step (e : Engine) :
    Event.moments ⟨e, .step, e.step.answer .stepped⟩ = [.tried e] := by
  rw [Event.moments, Event.tried, Reply.answer, e.step_frame.2]
  rfl

/-- The moments of a resumption are the instructions for which it fetches words. -/
theorem moments_resume (e : Engine) {σ : Type} (hooks : Scheduler σ) (s : σ)
    (reply : Reply (Except EngineError Answer)) :
    Event.moments ⟨e, .resume hooks s, reply⟩ =
      (List.range (reply.notices.countP Notice.isDispatch)).map fun k => .tried (e.after k) := by
  rw [Event.moments, Event.tried, List.map_map]
  rfl

/-- A step tries one instruction. -/
theorem step_trail (h : Trail e moments f) :
    Trail e (moments ++ Event.moments ⟨f, .step, f.step.answer .stepped⟩) f.step.engine := by
  rw [f.moments_step]
  exact h.step

/-- A resumption tries as many instructions as it fetches words, and the run may pass to
another stage. -/
theorem Resumption.trail {reply : Reply (Except EngineError RunExit)}
    (hr : f.Resumption reply) (h : Trail e moments f) :
    Trail e (moments ++ (List.range (reply.notices.countP Notice.isDispatch)).map
      fun k => .tried (f.after k)) reply.engine := by
  cases hr with
  | idle hi =>
    rw [List.countP_nil, List.range_zero, List.map_nil, List.append_nil]
    exact h
  | @yielded n reason hi hc hp =>
    rw [List.countP_append, countP_dispatches, countP_pauseNotices]
    exact h.after n
  | @halted n hi hc hp =>
    rw [List.countP_append, countP_dispatches, countP_ending _ rfl]
    exact (h.after n).live
  | @aborted n error hi hc hp hf =>
    rw [List.countP_append, countP_dispatches, countP_ending _ rfl]
    exact (h.after (n + 1)).live

end Engine

/-- The moments of an operation lengthen a trail. -/
theorem Performs.trail {e f : Engine} {operation : Operation}
    {reply : Reply (Except EngineError Answer)} {moments : List Moment}
    (hp : Performs f operation reply) (h : Trail e moments f) :
    Trail e (moments ++ Event.moments ⟨f, operation, reply⟩) reply.engine := by
  cases operation with
  | resume hooks s =>
    obtain ⟨r, hr, he⟩ := hp.resumption trivial
    rw [he, Engine.moments_resume]
    exact hr.trail h
  | load program origin =>
    obtain ⟨limit, hp⟩ := hp
    cases hp
    exact Engine.load_trail h program origin
  | run program ticket =>
    obtain ⟨limit, hp⟩ := hp
    cases hp
    exact Engine.run_trail h program ticket
  | reset =>
    obtain ⟨limit, hp⟩ := hp
    cases hp
    exact h.restart
  | step =>
    obtain ⟨limit, hp⟩ := hp
    cases hp
    exact Engine.step_trail h

/-- The moments of a history are those of a trail. -/
theorem History.trail {e f : Engine} {events : List Event} (h : History e events f) :
    Trail e (events.flatMap Event.moments) f := by
  induction h with
  | nil => exact .nil
  | @snoc events v h hp ih =>
    rw [List.flatMap_append, List.flatMap_singleton]
    exact hp.trail ih

/-- The moments of a course are those of a trail. -/
theorem Course.trail {e f : Engine} {events : List Event} {moments : List Moment}
    (h : Course e events moments f) : Trail e moments f := by
  cases h with
  | between h => exact h.trail
  | @within f σ hooks s p h hr hp =>
    have hf := (Progress.follows_start f s).reaches hp
    rw [hf.engine]
    exact h.trail.after p.executed

namespace Engine

variable {f : Engine} {reply : Reply (Except EngineError RunExit)}

/-- The words that are fetched in some steps are all that they log. -/
theorem filter_dispatches_append (e : Engine) (n : Nat) {tail : List Notice}
    (ht : tail.countP Notice.isDispatch = 0) :
    (e.dispatches n ++ tail).filter Notice.isDispatch = e.dispatches n := by
  have hd : (e.dispatches n).filter Notice.isDispatch = e.dispatches n := by
    apply List.filter_eq_self.mpr
    intro notice hm
    obtain ⟨k, _, hk⟩ := List.mem_map.mp hm
    rw [← hk]
    rfl
  have hz : tail.filter Notice.isDispatch = [] := by
    apply List.filter_eq_nil_iff.mpr
    exact List.countP_eq_zero.mp ht
  rw [List.filter_append, hd, hz, List.append_nil]

/-- The words that a resumption logs as fetched are those of the instructions that it
tries. -/
theorem Resumption.filter_notices (h : f.Resumption reply) :
    reply.notices.filter Notice.isDispatch =
      f.dispatches (reply.notices.countP Notice.isDispatch) := by
  cases h with
  | idle hi => rfl
  | @yielded n reason hi hc hp =>
    have ht := countP_pauseNotices (f.after n) reason
    rw [List.countP_append, countP_dispatches, ht]
    exact f.filter_dispatches_append n ht
  | @halted n hi hc hp =>
    have ht : (.event (.programHalted n) :: ((f.after n).finish none).2).countP
        Notice.isDispatch = 0 := countP_ending _ rfl none
    rw [List.countP_append, countP_dispatches, ht]
    exact f.filter_dispatches_append n ht
  | @aborted n error hi hc hp hf =>
    have ht : (.event (.runAborted (f.after (n + 1)).machine.pc error) ::
        ((f.after (n + 1)).finish (some error)).2).countP Notice.isDispatch = 0 :=
      countP_ending _ rfl (some error)
    rw [List.countP_append, countP_dispatches, ht]
    exact f.filter_dispatches_append (n + 1) ht

/-- A resumption tries instructions inside memory only. -/
theorem Resumption.inside (h : f.Resumption reply) :
    ∀ k < reply.notices.countP Notice.isDispatch, (f.after k).machine.pastEnd = false := by
  intro k hk
  cases h with
  | idle hi => exact absurd hk (Nat.not_lt_zero k)
  | @yielded n reason hi hc hp =>
    rw [List.countP_append, countP_dispatches, countP_pauseNotices] at hk
    rw [machine_after]
    exact (hc k hk).1
  | @halted n hi hc hp =>
    rw [List.countP_append, countP_dispatches, countP_ending _ rfl] at hk
    rw [machine_after]
    exact (hc k hk).1
  | @aborted n error hi hc hp hf =>
    rw [List.countP_append, countP_dispatches, countP_ending _ rfl] at hk
    rcases Nat.lt_succ_iff_lt_or_eq.mp hk with hl | he
    · rw [machine_after]
      exact (hc k hl).1
    · rw [he]
      exact hp

end Engine

namespace Engine

variable {f : Engine} {reply : Reply (Except EngineError RunExit)}

/-- A resumption answers an error exactly when it has tried an instruction that fails
with it. -/
theorem Resumption.value_eq_error_iff (h : f.Resumption reply) {error : EngineError} :
    reply.value = .error error ↔
      ∃ k < reply.notices.countP Notice.isDispatch, (f.after k).fault? = some error := by
  -- The instructions before the last one have retired in every case.
  have hclear : ∀ {n k : Nat}, f.Clear n → k < n → (f.after k).fault? ≠ some error := by
    intro n k hc hk
    rw [fault?_after, (hc k hk).2]
    simp
  cases h with
  | idle hi => simp
  | @yielded n reason hi hc hp =>
    rw [List.countP_append, countP_dispatches, countP_pauseNotices]
    constructor
    · intro hv
      cases hv
    · rintro ⟨k, hk, hf⟩
      exact absurd hf (hclear hc hk)
  | @halted n hi hc hp =>
    rw [List.countP_append, countP_dispatches, countP_ending _ rfl]
    constructor
    · intro hv
      cases hv
    · rintro ⟨k, hk, hf⟩
      exact absurd hf (hclear hc hk)
  | @aborted n other hi hc hp hf =>
    rw [List.countP_append, countP_dispatches, countP_ending _ rfl]
    constructor
    · intro hv
      cases hv
      exact ⟨n, Nat.lt_succ_self n, hf⟩
    · rintro ⟨k, hk, hg⟩
      rcases Nat.lt_succ_iff_lt_or_eq.mp hk with hl | he
      · exact absurd hg (hclear hc hl)
      · rw [he, hf] at hg
        rw [Option.some.inj hg]

end Engine

/-- The words of the instructions that an operation tries are those of plain steps. -/
theorem Event.filterMap_tried (v : Event) :
    (v.tried.map .tried).filterMap Moment.dispatch? =
      v.before.dispatches (v.reply.notices.countP Notice.isDispatch) := by
  rw [List.filterMap_map, tried, Engine.dispatches, List.filterMap_map, ← List.filterMap_eq_map]
  rfl

/-- What is answered in another form was answered. -/
theorem Reply.answer_eq_ok {α : Type} {r : Reply (Except EngineError α)} {f : α → Answer}
    {answer : Answer} (h : (r.answer f).value = .ok answer) : ∃ a, f a = answer := by
  unfold Reply.answer at h
  cases hv : r.value with
  | ok a =>
    rw [hv] at h
    exact ⟨a, Except.ok.inj h⟩
  | error error =>
    rw [hv] at h
    cases h

/-- In another form, an answer is the same refusal. -/
theorem Reply.answer_eq_error_iff {α : Type} {r : Reply (Except EngineError α)}
    {f : α → Answer} {error : EngineError} :
    (r.answer f).value = .error error ↔ r.value = .error error := by
  unfold Reply.answer
  cases r.value with
  | ok a => simp [Except.map]
  | error other => simp [Except.map]

namespace Performs

variable {f : Engine} {operation : Operation} {reply : Reply (Except EngineError Answer)}

/-- Loads, runs and resets fetch no word. -/
theorem filter_of_not_drives (hp : Performs f operation reply) (hd : ¬operation.Drives) :
    reply.notices.filter Notice.isDispatch = [] := by
  obtain ⟨limit, hp⟩ := hp
  cases operation with
  | resume hooks s => exact absurd trivial hd
  | step => exact absurd trivial hd
  | reset =>
    cases hp
    rfl
  | load program origin =>
    cases hp
    unfold Engine.load Reply.answer
    cases f.machine.load program origin with
    | ok m => rfl
    | error error => rfl
  | run program ticket =>
    cases hp
    unfold Engine.run Engine.load Reply.answer
    cases f.cleared.machine.load program programOrigin with
    | ok m => rfl
    | error error => rfl

/-- The words that an operation logs as fetched are those of the instructions in its
moments. -/
theorem filter_notices (hp : Performs f operation reply) :
    reply.notices.filter Notice.isDispatch =
      (Event.moments ⟨f, operation, reply⟩).filterMap Moment.dispatch? := by
  have ht := Event.filterMap_tried ⟨f, operation, reply⟩
  have hq := hp.filter_of_not_drives
  cases operation with
  | resume hooks s =>
    obtain ⟨r, hr, he⟩ := hp.resumption trivial
    rw [Event.moments, ht, he]
    exact hr.filter_notices
  | step =>
    obtain ⟨limit, hp⟩ := hp
    cases hp
    rw [Event.moments, ht, Reply.answer, f.step_frame.2]
    rfl
  | load program origin =>
    have hn := hq id
    rw [Event.moments, ht, List.countP_eq_length_filter, hn]
    rfl
  | run program ticket => exact hq id
  | reset => exact hq id

/-- An operation other than a step tries instructions inside memory only. -/
theorem inside (hp : Performs f operation reply) (ho : operation ≠ .step) {g : Engine}
    (hg : .tried g ∈ Event.moments ⟨f, operation, reply⟩) : g.machine.pastEnd = false := by
  have hq := hp.filter_of_not_drives
  cases operation with
  | resume hooks s =>
    obtain ⟨r, hr, he⟩ := hp.resumption trivial
    rw [Engine.moments_resume, he] at hg
    obtain ⟨k, hk, ht⟩ := List.mem_map.mp hg
    cases ht
    exact hr.inside k (List.mem_range.mp hk)
  | load program origin =>
    have hn := hq id
    rw [Event.moments, Event.tried, List.countP_eq_length_filter, hn] at hg
    cases hg
  | run program ticket => simp [Event.moments] at hg
  | reset => simp [Event.moments] at hg
  | step => exact absurd rfl ho

/-- A word that an operation logs as fetched is that of an instruction in its moments. -/
theorem tried_of_dispatched (hp : Performs f operation reply) {pc : UInt16} {word : Word}
    (hn : .event (.dispatched pc word) ∈ reply.notices) :
    ∃ g, .tried g ∈ Event.moments ⟨f, operation, reply⟩ ∧ g.machine.pc = pc := by
  have hf : .event (.dispatched pc word) ∈ reply.notices.filter Notice.isDispatch :=
    List.mem_filter.mpr ⟨hn, rfl⟩
  rw [hp.filter_notices] at hf
  obtain ⟨moment, hm, hd⟩ := List.mem_filterMap.mp hf
  cases moment with
  | restarted => cases hd
  | tried g =>
    cases hd
    exact ⟨g, hm, rfl⟩

/-- A step or a resumption answers an error exactly when it has tried an instruction that
fails with it. -/
theorem value_eq_error_iff (hp : Performs f operation reply) (hd : operation.Drives)
    {error : EngineError} : reply.value = .error error ↔
      ∃ g, .tried g ∈ Event.moments ⟨f, operation, reply⟩ ∧ g.fault? = some error := by
  cases operation with
  | resume hooks s =>
    obtain ⟨r, hr, he⟩ := hp.resumption trivial
    rw [he, Reply.answer_eq_error_iff, hr.value_eq_error_iff, Engine.moments_resume]
    simp [Reply.answer]
  | step =>
    obtain ⟨limit, hp⟩ := hp
    cases hp
    have hm : Event.moments ⟨f, .step, f.step.answer .stepped⟩ = [.tried f] := f.moments_step
    rw [Reply.answer_eq_error_iff, Engine.step_value_eq_error_iff, hm]
    simp
  | load program origin => exact hd.elim
  | run program ticket => exact hd.elim
  | reset => exact hd.elim

/-- Only a resumption answers that a run has returned. -/
theorem isResume_of_returned (hp : Performs f operation reply) {exit : RunExit}
    (hv : reply.value = .ok (.returned exit)) : operation.IsResume := by
  obtain ⟨limit, hp⟩ := hp
  cases operation with
  | resume hooks s => exact trivial
  | load program origin =>
    cases hp
    obtain ⟨_, hx⟩ := Reply.answer_eq_ok hv
    cases hx
  | run program ticket =>
    cases hp
    obtain ⟨_, hx⟩ := Reply.answer_eq_ok hv
    cases hx
  | reset =>
    cases hp
    cases hv
  | step =>
    cases hp
    obtain ⟨_, hx⟩ := Reply.answer_eq_ok hv
    cases hx

/-- A run that a scheduler has suspended is inside memory. -/
theorem inside_of_yielded (hp : Performs f operation reply) {n : Nat}
    (hv : reply.value = .ok (.returned (.yielded n))) :
    reply.engine.machine.pastEnd = false := by
  obtain ⟨r, hr, he⟩ := hp.resumption (hp.isResume_of_returned hv)
  rw [he] at hv ⊢
  cases hr with
  | idle hi => cases hv
  | yielded hi hc hp => exact hp
  | halted hi hc hp => cases hv
  | aborted hi hc hp hf => cases hv

end Performs

namespace Course

variable {e f : Engine} {events : List Event} {moments : List Moment}

/-- Every operation of a course has returned what it says. -/
theorem performs_of_mem (h : Course e events moments f) {v : Event} (hv : v ∈ events) :
    Performs v.before v.operation v.reply := by
  cases h with
  | between h => exact h.performs_of_mem hv
  | within h hr hp => exact h.performs_of_mem hv

/-- If no operation is a step, instructions are tried inside memory only. -/
theorem inside (h : Course e events moments f) (ho : ∀ v ∈ events, v.operation ≠ .step)
    {g : Engine} (hg : .tried g ∈ moments) : g.machine.pastEnd = false := by
  have hb : ∀ f, History e events f → .tried g ∈ events.flatMap Event.moments →
      g.machine.pastEnd = false := by
    intro f h hm
    obtain ⟨v, hv, hm⟩ := List.mem_flatMap.mp hm
    exact (h.performs_of_mem hv).inside (ho v hv) hm
  cases h with
  | between h => exact hb f h hg
  | @within f σ hooks s p h hr hp =>
    rcases List.mem_append.mp hg with hm | hm
    · exact hb f h hm
    · obtain ⟨k, hk, ht⟩ := List.mem_map.mp hm
      cases ht
      have hf := (Progress.follows_start f s).reaches hp
      rw [Engine.machine_after]
      exact (hf.clear k (List.mem_range.mp hk)).1

/-- A program that is run and then resumed: after the start come the instructions for which
the resumption fetches words. -/
theorem of_run_resume {σ : Type} {hooks : Scheduler σ} {s : σ} {limit : Nat}
    {program : List UInt8} {ticket : Ticket} {r : Resumed σ}
    (hr : (e.run program ticket).engine.resume hooks limit s = some r) :
    Course e
      [⟨e, .run program ticket, (e.run program ticket).answer fun _ => .done⟩,
        ⟨(e.run program ticket).engine, .resume hooks s, r.toReply.answer .returned⟩]
      (.restarted :: (List.range (r.notices.countP Notice.isDispatch)).map fun k =>
        .tried ((e.run program ticket).engine.after k)) r.engine := by
  let started : Event := ⟨e, .run program ticket, (e.run program ticket).answer fun _ => .done⟩
  let resumed : Event :=
    ⟨(e.run program ticket).engine, .resume hooks s, r.toReply.answer .returned⟩
  have hp : Performs resumed.before resumed.operation resumed.reply := by
    refine ⟨limit, ?_⟩
    show ((e.run program ticket).engine.resume hooks limit s).map _ = _
    rw [hr, Option.map_some]
  have hh : History e [started, resumed] r.engine :=
    .cons (v := started) ⟨0, rfl⟩ (.cons (v := resumed) hp .nil)
  have hc := Course.between hh
  rw [List.flatMap_cons, List.flatMap_singleton, Engine.moments_resume] at hc
  exact hc

end Course

end Chip8
