import Chip8.Proofs.History
import Mathlib.Data.List.Nodup

/-!
# Completions

A started run owes its host one completion. The debt is paid by the resumption
in which the run ends and by nothing else, and it is dropped without payment
when a reset or another run comes first. What an operation does to the life of
a run is said once, by cases; the rest follows for every history.
-/

namespace Chip8

namespace Notice

/-- Completions are told one part after the other. -/
theorem completions_append (first second : List Notice) :
    completions (first ++ second) = completions first ++ completions second :=
  List.filterMap_append

end Notice

namespace Engine

/-- Plain steps complete nothing. -/
theorem completions_dispatches (e : Engine) (n : Nat) :
    Notice.completions (e.dispatches n) = [] := by
  induction n with
  | zero => rfl
  | succ n ih =>
    rw [dispatches_succ, Notice.completions_append, ih]
    rfl

/-- A pause completes nothing. -/
theorem completions_pauseNotices (e : Engine) (reason : Option Debug.PauseReason) :
    Notice.completions (e.pauseNotices reason) = [] := by
  cases reason with
  | none => rfl
  | some reason => rfl

/-- The completion that is owed is told at the end of a run. -/
theorem completions_finish (e : Engine) (error : Option EngineError) :
    Notice.completions (e.finish error).2 = e.completion.toList.map fun t => (t, error) := by
  unfold finish
  cases e.completion with
  | none => rfl
  | some ticket => rfl

end Engine

/-- A reply says how a run has ended: at the end of memory, or with the error
that is answered. -/
def EndsWith (reply : Reply (Except EngineError Answer)) : Option EngineError → Prop
  | none => reply.engine.machine.pastEnd = true ∧
      ∃ n, reply.value = .ok (.returned (.halted n))
  | some error => reply.value = .error error

/-- A reply says one end of a run at most. -/
theorem EndsWith.unique {reply : Reply (Except EngineError Answer)}
    {error other : Option EngineError} (h : EndsWith reply error) (ho : EndsWith reply other) :
    error = other := by
  cases error with
  | none =>
    cases other with
    | none => rfl
    | some other =>
      obtain ⟨n, hn⟩ := h.2
      exact absurd (hn.symm.trans ho) (by simp)
  | some error =>
    cases other with
    | none =>
      obtain ⟨n, hn⟩ := ho.2
      exact absurd (hn.symm.trans h) (by simp)
    | some other =>
      have he : Except.error (α := Answer) error = .error other := h.symm.trans ho
      cases he
      rfl

/-- A resumption that answers neither an error nor a halt ends no run. -/
theorem not_endsWith_of_ok {f : Engine} {notices : List Notice} {exit : RunExit}
    (hn : ∀ n, exit ≠ .halted n) (error : Option EngineError) :
    ¬EndsWith ⟨f, notices, .ok (.returned exit)⟩ error := by
  intro hx
  cases error with
  | none =>
    obtain ⟨hp, n, hv⟩ := hx
    cases hv
    exact hn n rfl
  | some error => cases hx

/-- All that an operation can do to the life of a run. -/
inductive Passage (e : Engine) (operation : Operation)
    (reply : Reply (Except EngineError Answer)) : Prop
  /-- The life of the run goes on as it was. -/
  | kept (ho : ¬operation.Replaces) (hl : reply.engine.lifecycle = e.lifecycle)
      (hc : reply.engine.completion = e.completion)
      (hn : Notice.completions reply.notices = [])
      (hx : operation.IsResume → ∀ error, ¬EndsWith reply error)
  /-- A run has been started. -/
  | started {program : List UInt8} {ticket : Ticket} (ho : operation = .run program ticket)
      (hv : reply.value = .ok .done) (hl : reply.engine.lifecycle = .running)
      (hc : reply.engine.completion = some ticket)
      (hn : Notice.completions reply.notices = [])
  /-- A run has been refused, since its program is too large. -/
  | rejected {program : List UInt8} {ticket : Ticket} (ho : operation = .run program ticket)
      (hv : reply.value = .error (.programTooLarge programOrigin program.length))
      (he : reply.engine = e.reset.engine) (hn : Notice.completions reply.notices = [])
  /-- The engine has been reset. -/
  | cleared (ho : operation = .reset) (he : reply.engine = e.reset.engine)
      (hn : Notice.completions reply.notices = [])
  /-- The run has ended and its completion has been told. -/
  | ended {error : Option EngineError} (ho : operation.IsResume) (hr : e.lifecycle = .running)
      (hl : reply.engine.lifecycle = .halted) (hc : reply.engine.completion = none)
      (hn : Notice.completions reply.notices = e.completion.toList.map fun t => (t, error))
      (hx : EndsWith reply error)

namespace Engine

/-- A load moves the life of a run not at all. -/
theorem load_passage (e : Engine) (program : List UInt8) (origin : UInt16) :
    Passage e (.load program origin) ((e.load program origin).answer fun _ => .done) := by
  unfold load
  split
  · exact .kept id rfl rfl rfl False.elim
  · exact .kept id rfl rfl rfl False.elim

/-- A run is started, or refused and its engine reset. -/
theorem run_passage (e : Engine) (program : List UInt8) (ticket : Ticket) :
    Passage e (.run program ticket) ((e.run program ticket).answer fun _ => .done) := by
  unfold run load
  cases hm : e.cleared.machine.load program programOrigin with
  | ok m => exact .started rfl rfl rfl rfl rfl
  | error error =>
    unfold Machine.load at hm
    split at hm
    · cases hm
    · cases hm
      exact .rejected rfl rfl rfl rfl

/-- A step moves the life of a run not at all. -/
theorem step_passage (e : Engine) : Passage e .step (e.step.answer .stepped) := by
  cases hf : e.fault? with
  | none =>
    rw [step_of_retires hf]
    exact .kept id rfl rfl rfl False.elim
  | some error =>
    rw [step_of_fails hf]
    exact .kept id rfl rfl rfl False.elim

/-- The end of a run pays its completion. -/
theorem finish_passage {σ : Type} (hooks : Scheduler σ) (s : σ) {e f : Engine}
    (hr : e.lifecycle = .running) (hf : f.completion = e.completion)
    {error : Option EngineError} {notices : List Notice}
    (hn : Notice.completions notices = Notice.completions (f.finish error).2)
    {value : Except EngineError RunExit}
    (hx : EndsWith ⟨(f.finish error).1, notices, value.map .returned⟩ error) :
    Passage e (.resume hooks s) ⟨(f.finish error).1, notices, value.map .returned⟩ := by
  rw [completions_finish, hf] at hn
  exact .ended trivial hr rfl rfl hn hx

/-- A resumption leaves the life of a run alone unless it ends the run. -/
theorem Resumption.passage {σ : Type} (hooks : Scheduler σ) (s : σ) {e : Engine}
    {reply : Reply (Except EngineError RunExit)} (h : e.Resumption reply) :
    Passage e (.resume hooks s) (reply.answer .returned) := by
  cases h with
  | idle hr => exact .kept id rfl rfl rfl fun _ => not_endsWith_of_ok (by simp)
  | @yielded n reason hr hc hp =>
    have hn : Notice.completions (e.dispatches n ++ pauseNotices (e.after n) reason) = [] := by
      rw [Notice.completions_append, completions_dispatches, completions_pauseNotices]
      rfl
    exact .kept id (e.lifecycle_after n) (e.completion_after n) hn
      fun _ => not_endsWith_of_ok (by simp)
  | @halted n hr hc hp =>
    apply finish_passage hooks s (by simpa [isRunning] using hr) (e.completion_after n)
    · rw [Notice.completions_append, completions_dispatches]
      rfl
    · exact ⟨hp, n, rfl⟩
  | @aborted n error hr hc hp hf =>
    apply finish_passage hooks s (by simpa [isRunning] using hr) (e.completion_after (n + 1))
    · rw [Notice.completions_append, completions_dispatches]
      rfl
    · rfl

end Engine

/-- An operation moves the life of a run in one of these ways. -/
theorem Performs.passage {e : Engine} {operation : Operation}
    {reply : Reply (Except EngineError Answer)} (h : Performs e operation reply) :
    Passage e operation reply := by
  cases operation with
  | resume hooks s =>
    obtain ⟨r, hr, he⟩ := h.resumption trivial
    rw [he]
    exact hr.passage hooks s
  | load program origin =>
    obtain ⟨limit, hp⟩ := h
    cases hp
    exact e.load_passage program origin
  | run program ticket =>
    obtain ⟨limit, hp⟩ := h
    cases hp
    exact e.run_passage program ticket
  | reset =>
    obtain ⟨limit, hp⟩ := h
    cases hp
    exact .cleared rfl rfl rfl
  | step =>
    obtain ⟨limit, hp⟩ := h
    cases hp
    exact e.step_passage

namespace Event

/-- The ticket of a run that was asked for, started or not. -/
def asked? (v : Event) : Option Ticket :=
  match v.operation with
  | .run _ ticket => some ticket
  | _ => none

/-- The ticket of a run that was started. -/
def started? (v : Event) : Option Ticket :=
  match v.reply.value with
  | .ok _ => v.asked?
  | .error _ => none

/-- The ticket of a run that was refused. -/
def refused? (v : Event) : Option Ticket :=
  match v.reply.value with
  | .ok _ => none
  | .error _ => v.asked?

/-- The ticket of a run that was replaced while its completion was pending. -/
def dropped? (v : Event) : Option Ticket :=
  match v.operation with
  | .run _ _ => v.before.completion
  | .reset => v.before.completion
  | _ => none

variable {v : Event}

/-- What replaces no run neither asks for one nor drops one. -/
theorem quiet_of_keeps (h : ¬v.operation.Replaces) :
    v.started? = none ∧ v.dropped? = none := by
  rcases v with ⟨before, operation, reply⟩
  cases operation with
  | run program ticket => exact absurd trivial h
  | reset => exact absurd trivial h
  | load program origin => cases hv : reply.value <;> simp [asked?, started?, dropped?, hv]
  | step => cases hv : reply.value <;> simp [asked?, started?, dropped?, hv]
  | resume hooks s => cases hv : reply.value <;> simp [asked?, started?, dropped?, hv]

/-- What starts a run replaces every other one. -/
theorem replaces_of_started {ticket : Ticket} (h : v.started? = some ticket) :
    v.operation.Replaces := by
  by_contra hk
  rw [(quiet_of_keeps hk).1] at h
  cases h

/-- Resumptions replace no run. -/
theorem keeps_of_isResume (h : v.operation.IsResume) : ¬v.operation.Replaces := by
  cases ho : v.operation with
  | resume hooks s => exact id
  | _ =>
    rw [ho] at h
    exact h.elim

/-- A completion is pending exactly while a run is in progress, and this stays
so. -/
theorem owed_iff (h : Passage v.before v.operation v.reply)
    (he : v.before.completion.isSome = true ↔ v.before.lifecycle = .running) :
    v.after.completion.isSome = true ↔ v.after.lifecycle = .running := by
  cases h with
  | kept ho hl hc hn hx => rw [after, hl, hc, he]
  | started ho hv hl hc hn => simp [after, hl, hc]
  | rejected ho hv hr hn => simp [after, hr, Engine.reset, Engine.cleared]
  | cleared ho hr hn => simp [after, hr, Engine.reset, Engine.cleared]
  | ended ho hr hl hc hn hx => simp [after, hl, hc]

/-- What was pending or is started is completed, dropped or pending
afterwards. -/
theorem fates (h : Passage v.before v.operation v.reply) :
    v.before.completion.toList ++ v.started?.toList =
      v.completions.map Prod.fst ++ v.dropped?.toList ++ v.after.completion.toList := by
  cases h with
  | kept ho hl hc hn hx =>
    obtain ⟨hs, hd⟩ := quiet_of_keeps ho
    simp [after, completions, hs, hd, hn, hc]
  | started ho hv hl hc hn =>
    simp [after, completions, started?, asked?, dropped?, ho, hv, hn, hc]
  | rejected ho hv hr hn =>
    simp [after, completions, started?, dropped?, ho, hv, hn, hr, Engine.reset, Engine.cleared]
  | cleared ho hr hn =>
    have hs : v.started? = none := by
      unfold started? asked?
      rw [ho]
      cases v.reply.value <;> rfl
    simp [after, completions, hs, dropped?, ho, hn, hr, Engine.reset, Engine.cleared]
  | ended ho hr hl hc hn hx =>
    obtain ⟨hs, hd⟩ := quiet_of_keeps (keeps_of_isResume ho)
    simp [after, completions, hs, hd, hn, hc, Function.comp_def]

/-- A pending completion was pending before, or its run has just been
started. -/
theorem pending_cases (h : Passage v.before v.operation v.reply) {ticket : Ticket}
    (hc : v.after.completion = some ticket) :
    v.started? = some ticket ∨
      ¬v.operation.Replaces ∧ v.before.completion = some ticket := by
  cases h with
  | kept ho hl hk hn hx =>
    rw [after, hk] at hc
    exact Or.inr ⟨ho, hc⟩
  | started ho hv hl hk hn =>
    rw [after, hk] at hc
    cases hc
    exact Or.inl (by simp [started?, asked?, ho, hv])
  | rejected ho hv hr hn => simp [after, hr, Engine.reset, Engine.cleared] at hc
  | cleared ho hr hn => simp [after, hr, Engine.reset, Engine.cleared] at hc
  | ended ho hr hl hk hn hx =>
    rw [after, hk] at hc
    cases hc

/-- What replaces no run leaves the pending completion as it is or pays it. -/
theorem pending_kept (h : Passage v.before v.operation v.reply)
    (hk : ¬v.operation.Replaces) :
    v.after.completion = v.before.completion ∨ v.after.completion = none := by
  cases h with
  | kept ho hl hc hn hx => exact Or.inl hc
  | started ho hv hl hc hn => exact absurd (ho ▸ trivial) hk
  | rejected ho hv hr hn => exact absurd (ho ▸ trivial) hk
  | cleared ho hr hn => exact absurd (ho ▸ trivial) hk
  | ended ho hr hl hc hn hx => exact Or.inr hc

/-- A started run is in progress with its completion pending. -/
theorem completion_of_started (h : Passage v.before v.operation v.reply) {ticket : Ticket}
    (hs : v.started? = some ticket) : v.after.completion = some ticket := by
  have hr := replaces_of_started hs
  cases h with
  | kept ho hl hc hn hx => exact absurd hr ho
  | started ho hv hl hc hn =>
    simp only [started?, asked?, ho, hv, Option.some.injEq] at hs
    subst hs
    exact hc
  | rejected ho hv he hn => simp [started?, hv] at hs
  | cleared ho he hn => cases hv : v.reply.value <;> simp [started?, asked?, ho, hv] at hs
  | ended ho hr' hl hc hn hx => exact absurd hr (keeps_of_isResume ho)

/-- Nothing is completed where the life of a run does not pass from running to
halted. -/
theorem mem_completions_of_nil {ticket : Ticket} {error : Option EngineError}
    (hn : Notice.completions v.reply.notices = [])
    (hl : ¬(v.before.lifecycle = .running ∧ v.after.lifecycle = .halted)) :
    (ticket, error) ∈ v.completions ↔ v.operation.IsResume ∧
      v.before.lifecycle = .running ∧ v.after.lifecycle = .halted ∧
      EndsWith v.reply error ∧ v.before.completion = some ticket := by
  rw [completions, hn]
  constructor
  · intro hm
    cases hm
  · rintro ⟨ho, hb, ha, hx, hc⟩
    exact absurd ⟨hb, ha⟩ hl

/-- A completion is told exactly where the life of a run passes from running to
halted. -/
theorem mem_completions_iff (h : Passage v.before v.operation v.reply) (ticket : Ticket)
    (error : Option EngineError) :
    (ticket, error) ∈ v.completions ↔ v.operation.IsResume ∧
      v.before.lifecycle = .running ∧ v.after.lifecycle = .halted ∧
      EndsWith v.reply error ∧ v.before.completion = some ticket := by
  cases h with
  | kept ho hl hc hn hx =>
    refine mem_completions_of_nil hn ?_
    rintro ⟨hb, ha⟩
    rw [after, hl, hb] at ha
    cases ha
  | started ho hv hl hc hn => exact mem_completions_of_nil hn (by simp [after, hl])
  | rejected ho hv hr hn =>
    exact mem_completions_of_nil hn (by simp [after, hr, Engine.reset, Engine.cleared])
  | cleared ho hr hn =>
    exact mem_completions_of_nil hn (by simp [after, hr, Engine.reset, Engine.cleared])
  | @ended told ho hr hl hc hn hx =>
    rw [completions, hn]
    constructor
    · intro hm
      obtain ⟨t, ht, he⟩ := List.mem_map.mp hm
      cases he
      exact ⟨ho, hr, hl, hx, Option.mem_toList.mp ht⟩
    · rintro ⟨_, _, _, he, hp⟩
      rw [hp, he.unique hx]
      exact List.mem_singleton.mpr rfl

/-- A run that passes from running to halted tells the completion it owes. -/
theorem completions_of_ended (h : Passage v.before v.operation v.reply) {ticket : Ticket}
    (hc : v.before.completion = some ticket) (hr : v.before.lifecycle = .running)
    (hl : v.after.lifecycle = .halted) : ∃ error, v.completions = [(ticket, error)] := by
  cases h with
  | kept ho hk hp hn hx => exact absurd (hk.symm.trans hl) (by simp [hr])
  | started ho hv hk hp hn => exact absurd (hk.symm.trans hl) (by simp)
  | rejected ho hv he hn =>
    rw [after, he] at hl
    cases hl
  | cleared ho he hn =>
    rw [after, he] at hl
    cases hl
  | @ended error ho hb hk hp hn hx =>
    refine ⟨error, ?_⟩
    rw [completions, hn, hc]
    rfl

/-- A refused run has a program that is too large and leaves the engine
reset. -/
theorem reset_of_refused (h : Passage v.before v.operation v.reply) {program : List UInt8}
    {ticket : Ticket} {error : EngineError} (ho : v.operation = .run program ticket)
    (hx : v.reply.value = .error error) :
    error = .programTooLarge programOrigin program.length ∧
      v.after = v.before.reset.engine ∧ v.completions = [] := by
  cases h with
  | kept hk hl hc hn hx' => exact absurd (ho ▸ trivial) hk
  | started hs hv hl hc hn => exact absurd (hv.symm.trans hx) (by simp)
  | rejected hs hv he hn =>
    rw [ho] at hs
    cases hs
    rw [hv] at hx
    cases hx
    exact ⟨rfl, he, hn⟩
  | cleared hs he hn => exact absurd (ho.symm.trans hs) (by simp)
  | ended hs hr hl hc hn hx =>
    rw [ho] at hs
    exact hs.elim

/-- A resumption that answers with the end of a run has ended one that was in
progress. -/
theorem ended_of_endsWith (h : Passage v.before v.operation v.reply)
    (ho : v.operation.IsResume) {error : Option EngineError} (hx : EndsWith v.reply error) :
    v.before.lifecycle = .running ∧ v.after.lifecycle = .halted := by
  have hk := keeps_of_isResume ho
  cases h with
  | kept hr hl hc hn hs => exact absurd hx (hs ho error)
  | started hs hv hl hc hn => exact absurd (hs ▸ trivial) hk
  | rejected hs hv he hn => exact absurd (hs ▸ trivial) hk
  | cleared hs he hn => exact absurd (hs ▸ trivial) hk
  | ended hs hr hl hc hn he => exact ⟨hr, hl⟩

/-- A run is in progress because it was started, or because it was not
replaced. -/
theorem running_cases (h : Passage v.before v.operation v.reply)
    (hr : v.after.lifecycle = .running) :
    v.started?.isSome = true ∨ ¬v.operation.Replaces ∧ v.before.lifecycle = .running := by
  cases h with
  | kept ho hl hc hn hx => exact Or.inr ⟨ho, hl.symm.trans hr⟩
  | started ho hv hl hc hn => exact Or.inl (by simp [started?, asked?, ho, hv])
  | rejected ho hv he hn =>
    rw [after, he] at hr
    cases hr
  | cleared ho he hn =>
    rw [after, he] at hr
    cases hr
  | ended ho hb hl hc hn hx => exact absurd (hl.symm.trans hr) (by simp)

/-- A run is over because it was ended by a resumption, or because it was over
and not replaced. -/
theorem halted_cases (h : Passage v.before v.operation v.reply)
    (hl : v.after.lifecycle = .halted) : ¬v.operation.Replaces ∧
      (v.operation.IsResume ∧ v.before.lifecycle = .running ∨
        v.before.lifecycle = .halted) := by
  cases h with
  | kept ho hk hc hn hx => exact ⟨ho, Or.inr (hk.symm.trans hl)⟩
  | started ho hv hk hc hn => exact absurd (hk.symm.trans hl) (by simp)
  | rejected ho hv he hn =>
    rw [after, he] at hl
    cases hl
  | cleared ho he hn =>
    rw [after, he] at hl
    cases hl
  | ended ho hr hk hc hn hx => exact ⟨keeps_of_isResume ho, Or.inl ⟨ho, hr⟩⟩

/-- What replaces no run moves its life only from running to halted, and only a
resumption does so. -/
theorem lifecycle_kept (h : Passage v.before v.operation v.reply)
    (hk : ¬v.operation.Replaces) : v.after.lifecycle = v.before.lifecycle ∨
      v.operation.IsResume ∧ v.before.lifecycle = .running := by
  cases h with
  | kept ho hl hc hn hx => exact Or.inl hl
  | started ho hv hl hc hn => exact absurd (ho ▸ trivial) hk
  | rejected ho hv he hn => exact absurd (ho ▸ trivial) hk
  | cleared ho he hn => exact absurd (ho ▸ trivial) hk
  | ended ho hr hl hc hn hx => exact Or.inr ⟨ho, hr⟩

end Event

namespace History

/-- The tickets of the runs that were asked for, in order. -/
def asked (events : List Event) : List Ticket := events.flatMap fun v => v.asked?.toList

/-- The tickets of the runs that were started, in order. -/
def started (events : List Event) : List Ticket := events.flatMap fun v => v.started?.toList

/-- The tickets of the runs that were refused, in order. -/
def refused (events : List Event) : List Ticket := events.flatMap fun v => v.refused?.toList

/-- The tickets of the runs that were replaced before they ended, in order. -/
def dropped (events : List Event) : List Ticket := events.flatMap fun v => v.dropped?.toList

/-- The tickets that were completed, in order. -/
def completed (events : List Event) : List Ticket :=
  events.flatMap fun v => v.completions.map Prod.fst

/-- The tickets that were completed or dropped, in order. -/
def settled (events : List Event) : List Ticket :=
  events.flatMap fun v => v.completions.map Prod.fst ++ v.dropped?.toList

variable {config : Config} {key : Random.Key} {e f : Engine} {events : List Event}

/-- Every operation of a history moves the life of a run in one of the ways. -/
theorem passage_of_mem (h : History e events f) {v : Event} (hv : v ∈ events) :
    Passage v.before v.operation v.reply := (h.performs_of_mem hv).passage

/-- In every history of a new engine a completion is pending exactly while a run
is in progress. -/
theorem pending_iff (h : History (.new config key) events f) :
    f.completion.isSome = true ↔ f.lifecycle = .running := by
  induction h with
  | nil => simp [Engine.new]
  | snoc h hp ih => exact Event.owed_iff hp.passage ih

/-- In every history of a new engine the started runs are completed or dropped
in the order in which they were started; the last one may be pending. -/
theorem started_eq_settled (h : History (.new config key) events f) :
    started events = settled events ++ f.completion.toList := by
  induction h with
  | nil => rfl
  | @snoc events v h hp ih =>
    have hv := Event.fates hp.passage
    have hs : started (events ++ [v]) = started events ++ v.started?.toList := by simp [started]
    have ht : settled (events ++ [v]) =
        settled events ++ (v.completions.map Prod.fst ++ v.dropped?.toList) := by simp [settled]
    rw [hs, ih, ht, List.append_assoc, hv, ← List.append_assoc]

/-- The run with a ticket was started, and no operation since then replaced
it. -/
def LastStarted (events : List Event) (ticket : Ticket) : Prop :=
  ∃ earlier start later, events = earlier ++ start :: later ∧
    start.started? = some ticket ∧ ∀ w ∈ later, ¬w.operation.Replaces

/-- A pending completion is that of the run that was started last. -/
theorem lastStarted_of_pending (h : History (.new config key) events f) {ticket : Ticket}
    (hc : f.completion = some ticket) : LastStarted events ticket := by
  induction h with
  | nil => cases hc
  | @snoc events v h hp ih =>
    obtain hs | ⟨hk, hb⟩ := Event.pending_cases hp.passage hc
    · exact ⟨events, v, [], rfl, hs, by simp⟩
    · obtain ⟨earlier, start, later, he, hs, hl⟩ := ih hb
      refine ⟨earlier, start, later ++ [v], ?_, hs, ?_⟩
      · rw [he, List.append_assoc, List.cons_append]
      · intro w hw
        obtain hw | hw := List.mem_append.mp hw
        · exact hl w hw
        · rw [List.mem_singleton.mp hw]
          exact hk

/-- As long as no operation replaces a run, its completion stays pending until
it is paid. -/
theorem pending_of_keeps (h : History e events f) {ticket : Ticket}
    (he : e.completion = some ticket) (hk : ∀ w ∈ events, ¬w.operation.Replaces) :
    f.completion = some ticket ∨ f.completion = none := by
  induction h with
  | nil => exact Or.inl he
  | @snoc events v h hp ih =>
    have hg := ih fun w hw => hk w (List.mem_append_left _ hw)
    obtain hv | hv := Event.pending_kept hp.passage (hk v (by simp))
    · rw [hv]
      exact hg
    · exact Or.inr hv

/-- A run in progress owes the completion of the run that was started last. -/
theorem pending_iff_lastStarted (h : History (.new config key) events f)
    (hr : f.lifecycle = .running) (ticket : Ticket) :
    f.completion = some ticket ↔ LastStarted events ticket := by
  constructor
  · exact h.lastStarted_of_pending
  · rintro ⟨earlier, start, later, he, hs, hl⟩
    rw [he] at h
    obtain ⟨hb, hp, ha⟩ := h.split_at
    obtain hc | hc := ha.pending_of_keeps (Event.completion_of_started hp.passage hs) hl
    · exact hc
    · have hi := h.pending_iff.mpr hr
      rw [hc] at hi
      cases hi

/-- Each ticket that was asked for was started or refused. -/
theorem count_asked (events : List Event) (ticket : Ticket) :
    (asked events).count ticket =
      (started events).count ticket + (refused events).count ticket := by
  induction events with
  | nil => rfl
  | cons v events ih =>
    have hv : v.asked?.toList.count ticket =
        v.started?.toList.count ticket + v.refused?.toList.count ticket := by
      unfold Event.started? Event.refused?
      cases v.reply.value <;> simp
    simp only [asked, started, refused, List.flatMap_cons, List.count_append] at ih ⊢
    omega

/-- Each ticket that was settled was completed or dropped. -/
theorem count_settled (events : List Event) (ticket : Ticket) :
    (settled events).count ticket =
      (completed events).count ticket + (dropped events).count ticket := by
  induction events with
  | nil => rfl
  | cons v events ih =>
    simp only [settled, completed, dropped, List.flatMap_cons, List.count_append] at ih ⊢
    omega

/-- Completions come in the order in which their runs were started. -/
theorem completed_sublist_settled (events : List Event) :
    (completed events).Sublist (settled events) := by
  induction events with
  | nil => exact List.Sublist.refl _
  | cons v events ih =>
    rw [completed, settled, List.flatMap_cons, List.flatMap_cons]
    exact (List.sublist_append_left _ _).append ih

/-- When every run brings a ticket of its own, no ticket has two fates. -/
theorem count_completed_add_le (h : History (.new config key) events f)
    (hd : (asked events).Nodup) (ticket : Ticket) :
    (completed events).count ticket + (dropped events).count ticket +
      (refused events).count ticket ≤ 1 := by
  have ha := List.nodup_iff_count_le_one.mp hd ticket
  have hs := congrArg (List.count ticket) h.started_eq_settled
  rw [count_asked] at ha
  rw [List.count_append, count_settled] at hs
  omega

end History

open History

/-- What holds of the completions and of the life of runs in a history that
leaves an engine. -/
structure CompletionProtocol (events : List Event) (f : Engine) : Prop where
  /-- A completion is pending exactly while a run is in progress. -/
  pending : f.completion.isSome = true ↔ f.lifecycle = .running
  /-- A completion is told by the resumption in which its run passes from running
  to halted and by nothing else, with the way in which the run ended. Its run is
  the one started last, and nothing has replaced it. -/
  told : ∀ earlier v later, events = earlier ++ v :: later → ∀ ticket error,
    (ticket, error) ∈ v.completions ↔ v.operation.IsResume ∧
      v.before.lifecycle = .running ∧ v.after.lifecycle = .halted ∧
      EndsWith v.reply error ∧ LastStarted earlier ticket
  /-- A resumption that answers with an error, or that the program counter has left
  memory, is one in which a run passes from running to halted. -/
  returned : ∀ v ∈ events, v.operation.IsResume → ∀ error, EndsWith v.reply error →
    v.before.lifecycle = .running ∧ v.after.lifecycle = .halted
  /-- A run that passes from running to halted is completed once. -/
  paid : ∀ v ∈ events, v.before.lifecycle = .running → v.after.lifecycle = .halted →
    ∃ ticket error, v.completions = [(ticket, error)]
  /-- The started runs are completed or dropped in the order in which they were
  started, and only the last one may be pending. -/
  settled : started events = settled events ++ f.completion.toList
  /-- Each start is completed once at most. -/
  once : (completed events).Sublist (started events)
  /-- When every run brings a ticket of its own, no ticket is completed twice, and
  none whose run was replaced first or refused is completed at all. -/
  distinct : (asked events).Nodup → (completed events).Nodup ∧
    (∀ ticket ∈ dropped events, ticket ∉ completed events) ∧
    ∀ ticket ∈ refused events, ticket ∉ completed events
  /-- A run is refused because its program is too large, and the engine is as
  after a reset, with nothing told and nothing pending. -/
  rejected : ∀ v ∈ events, ∀ program ticket error, v.operation = .run program ticket →
    v.reply.value = .error error → error = .programTooLarge programOrigin program.length ∧
      v.after = v.before.reset.engine ∧ v.after.lifecycle = .idle ∧
      v.after.completion = none ∧ v.completions = []
  /-- A run is in progress after an operation that has started it, or that found
  it in progress and did not replace it. -/
  running : ∀ v ∈ events, v.after.lifecycle = .running →
    v.started?.isSome = true ∨ ¬v.operation.Replaces ∧ v.before.lifecycle = .running
  /-- A started run is in progress with its completion pending. -/
  entered : ∀ v ∈ events, ∀ ticket, v.started? = some ticket →
    v.after.lifecycle = .running ∧ v.after.completion = some ticket
  /-- A run is over after the resumption that ended it, and after any operation
  that did not replace it since. -/
  halted : ∀ v ∈ events, v.after.lifecycle = .halted → ¬v.operation.Replaces ∧
    (v.operation.IsResume ∧ v.before.lifecycle = .running ∨ v.before.lifecycle = .halted)
  /-- A run that is over stays so until a reset or another run. -/
  stays : ∀ v ∈ events, v.before.lifecycle = .halted → ¬v.operation.Replaces →
    v.after.lifecycle = .halted
  /-- Loads and steps do not touch the life of a run. -/
  untouched : ∀ v ∈ events, ¬v.operation.Replaces → ¬v.operation.IsResume →
    v.after.lifecycle = v.before.lifecycle

/-- Completions follow their protocol in every history of a new engine: whatever
programs are loaded and run, whatever is stepped, resumed and reset, in whatever
order and under whatever schedulers. -/
theorem completion_protocol {config : Config} {key : Random.Key} {events : List Event}
    {f : Engine} (h : History (.new config key) events f) : CompletionProtocol events f where
  pending := h.pending_iff
  told := by
    intro earlier v later he ticket error
    rw [he] at h
    obtain ⟨hb, hp, ha⟩ := h.split_at
    rw [Event.mem_completions_iff hp.passage]
    constructor
    · rintro ⟨ho, hr, hl, hx, hc⟩
      exact ⟨ho, hr, hl, hx, (hb.pending_iff_lastStarted hr ticket).mp hc⟩
    · rintro ⟨ho, hr, hl, hx, hs⟩
      exact ⟨ho, hr, hl, hx, (hb.pending_iff_lastStarted hr ticket).mpr hs⟩
  returned := by
    intro v hv ho error hx
    exact Event.ended_of_endsWith (h.passage_of_mem hv) ho hx
  paid := by
    intro v hv hr hl
    obtain ⟨earlier, hb⟩ := h.before_of_mem hv
    obtain ⟨ticket, hc⟩ := Option.isSome_iff_exists.mp (hb.pending_iff.mpr hr)
    obtain ⟨error, hp⟩ := Event.completions_of_ended (h.passage_of_mem hv) hc hr hl
    exact ⟨ticket, error, hp⟩
  settled := h.started_eq_settled
  once := by
    rw [h.started_eq_settled]
    exact (completed_sublist_settled events).trans (List.sublist_append_left _ _)
  distinct := by
    intro hd
    have hc := h.count_completed_add_le hd
    refine ⟨?_, ?_, ?_⟩
    · apply List.nodup_iff_count_le_one.mpr
      intro ticket
      have ht := hc ticket
      omega
    · intro ticket hm hn
      have ht := hc ticket
      have hm := List.count_pos_iff.mpr hm
      have hn := List.count_pos_iff.mpr hn
      omega
    · intro ticket hm hn
      have ht := hc ticket
      have hm := List.count_pos_iff.mpr hm
      have hn := List.count_pos_iff.mpr hn
      omega
  rejected := by
    intro v hv program ticket error ho hx
    obtain ⟨he, ha, hn⟩ := Event.reset_of_refused (h.passage_of_mem hv) ho hx
    refine ⟨he, ha, ?_, ?_, hn⟩
    · rw [ha]
      rfl
    · rw [ha]
      rfl
  running := by
    intro v hv hr
    exact Event.running_cases (h.passage_of_mem hv) hr
  entered := by
    intro v hv ticket hs
    obtain ⟨earlier, ha⟩ := h.after_of_mem hv
    have hc := Event.completion_of_started (h.passage_of_mem hv) hs
    refine ⟨ha.pending_iff.mp ?_, hc⟩
    rw [hc]
    rfl
  halted := by
    intro v hv hl
    exact Event.halted_cases (h.passage_of_mem hv) hl
  stays := by
    intro v hv hl hk
    obtain he | ⟨ho, hr⟩ := Event.lifecycle_kept (h.passage_of_mem hv) hk
    · exact he.trans hl
    · exact absurd (hl.symm.trans hr) (by simp)
  untouched := by
    intro v hv hk ho
    obtain he | ⟨hi, hr⟩ := Event.lifecycle_kept (h.passage_of_mem hv) hk
    · exact he
    · exact absurd hi ho

/-- A history with two runs in it: the first one is replaced after a step and is
never completed, and the second one leaves memory after two instructions and is
completed then. -/
theorem completion_protocol_of_two_runs :
    ∃ events f, History (.new .standard (Vector.replicate 8 0)) events f ∧
      CompletionProtocol events f ∧ f.lifecycle = .halted ∧
      asked events = [1, 2] ∧ dropped events = [1] ∧ completed events = [2] := by
  let leaves : List UInt8 := [0x60, 0xFF, 0xBF, 0xFF]
  let operations : List Operation :=
    [.run leaves 1, .step, .run leaves 2, .resume .toCompletion ()]
  have hs : (replay 3 (.new .standard (Vector.replicate 8 0)) operations).map
      (fun x => (x.2.lifecycle, asked x.1, dropped x.1, completed x.1)) =
        some (.halted, [1, 2], [1], [2]) := by decide +kernel
  obtain ⟨⟨events, f⟩, hx, he⟩ := Option.map_eq_some_iff.mp hs
  simp only [Prod.mk.injEq] at he
  have h := History.of_replay hx
  exact ⟨events, f, h, completion_protocol h, he⟩

end Chip8
