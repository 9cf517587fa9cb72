import Chip8.Proofs.History
import Chip8.Scheduler.Budget

/-!
# Isolated runs

A reset leaves nothing of what happened before it, but for a random source that
has no seed. A run therefore goes as on a new engine, whatever its own engine has
been through: whatever is done with the two engines afterwards, they answer and
tell the same and are left the same.
-/

namespace Chip8

namespace Engine

variable {e n : Engine}

/-- The engine with another random source. -/
def withRandom (e : Engine) (random : Random.Source) : Engine :=
  { e with core := { e.core with random := random } }

/-- With a seed, a reset leaves a new engine. -/
theorem cleared_of_seeded {seed : UInt64} (h : e.config.rngSeed = some seed)
    (entropy : Random.Key) : e.cleared = .new e.config entropy := by
  unfold cleared new
  rw [h]

/-- Without a seed, a reset leaves a new engine but for the random source, which it
does not touch. -/
theorem cleared_of_unseeded (h : e.config.rngSeed = none) (entropy : Random.Key) :
    e.cleared = (Engine.new e.config entropy).withRandom e.core.random := by
  unfold cleared withRandom new
  rw [h]

/-- After a reset another one changes nothing. -/
theorem cleared_cleared (e : Engine) : e.cleared.cleared = e.cleared := by
  cases hs : e.config.rngSeed with
  | none => simp only [cleared, hs]
  | some seed => simp only [cleared, hs]

/-- More turns than a resumption takes change nothing. -/
theorem resume_add {σ : Type} {hooks : Scheduler σ} {limit : Nat} {s : σ} {r : Resumed σ}
    (h : e.resume hooks limit s = some r) (more : Nat) :
    e.resume hooks (limit + more) s = some r := by
  unfold resume at h ⊢
  split
  · rename_i hr
    rw [if_pos hr] at h
    exact Progress.proceed_add h more
  · rename_i hr
    rw [if_neg hr] at h
    exact h

end Engine

/-- More turns than an operation takes change nothing. -/
theorem Operation.perform_add {e : Engine} {operation : Operation} {limit : Nat}
    {reply : Reply (Except EngineError Answer)} (h : operation.perform limit e = some reply)
    (more : Nat) : operation.perform (limit + more) e = some reply := by
  cases operation with
  | resume hooks s =>
    obtain ⟨r, hr, he⟩ := Option.map_eq_some_iff.mp h
    rw [perform, Engine.resume_add hr more, Option.map_some, he]
  | load program origin => exact h
  | run program ticket => exact h
  | reset => exact h
  | step => exact h

/-- An operation on an engine returns one reply only. -/
theorem Performs.unique {e : Engine} {operation : Operation}
    {reply other : Reply (Except EngineError Answer)} (h : Performs e operation reply)
    (ho : Performs e operation other) : reply = other := by
  obtain ⟨limit, hl⟩ := h
  obtain ⟨more, hm⟩ := ho
  have hr := Operation.perform_add hl more
  have hs := Operation.perform_add hm limit
  rw [Nat.add_comm] at hs
  exact Option.some.inj (hr.symm.trans hs)

namespace History

variable {e n f g : Engine} {events others : List Event} {v : Event}

/-- Nothing happens to an engine in no operations. -/
theorem eq_of_nil (h : History e [] f) : f = e := by
  generalize hl : ([] : List Event) = all at h
  cases h with
  | nil => rfl
  | snoc h hp => simp at hl

/-- A history with its first operation split off. -/
theorem uncons (h : History e (v :: events) f) :
    v.before = e ∧ Performs v.before v.operation v.reply ∧ History v.after events f := by
  have ha : History e ([] ++ v :: events) f := h
  obtain ⟨hs, hp, hl⟩ := ha.split_at
  exact ⟨hs.eq_of_nil, hp, hl⟩

/-- The same operations on the same engine are the same history. -/
theorem unique (h : History e events f) (hg : History e others g)
    (ho : events.map Event.operation = others.map Event.operation) :
    events = others ∧ f = g := by
  induction events generalizing e others with
  | nil =>
    have hn : others = [] := List.map_eq_nil_iff.mp ho.symm
    subst hn
    exact ⟨rfl, h.eq_of_nil.trans hg.eq_of_nil.symm⟩
  | cons v events ih =>
    cases others with
    | nil => simp at ho
    | cons w others =>
      obtain ⟨hv, hr⟩ := List.cons.inj ho
      obtain ⟨hb, hp, hl⟩ := h.uncons
      obtain ⟨hc, hq, hm⟩ := hg.uncons
      have hx : v.reply = w.reply := by
        rw [hb, hv] at hp
        rw [hc] at hq
        exact hp.unique hq
      have hw : v = w := by
        rcases v with ⟨before, operation, reply⟩
        rcases w with ⟨found, other, answer⟩
        dsimp only at hb hc hv hx
        rw [hb, hc, hv, hx]
      subst hw
      obtain ⟨he, hf⟩ := ih hl hm hr
      rw [he]
      exact ⟨rfl, hf⟩

/-- Operations on an engine return with some replies, and what they leave. -/
def Yields (e : Engine) (operations : List Operation)
    (replies : List (Reply (Except EngineError Answer))) (f : Engine) : Prop :=
  ∃ events, History e events f ∧ events.map Event.operation = operations ∧
    events.map Event.reply = replies

/-- Operations on an engine return in one way only. -/
theorem Yields.unique {operations : List Operation}
    {replies answers : List (Reply (Except EngineError Answer))}
    (h : Yields e operations replies f) (hg : Yields e operations answers g) :
    replies = answers ∧ f = g := by
  obtain ⟨events, hx, ho, hr⟩ := h
  obtain ⟨others, hy, hp, hs⟩ := hg
  obtain ⟨he, hf⟩ := hx.unique hy (ho.trans hp.symm)
  rw [← hr, ← hs, he]
  exact ⟨rfl, hf⟩

/-- What begins with a run returns alike on two engines on which the run does the
same. -/
theorem Yields.of_run_eq {program : List UInt8} {ticket : Ticket}
    (hr : e.run program ticket = n.run program ticket) {operations : List Operation}
    {replies : List (Reply (Except EngineError Answer))}
    (h : Yields e (.run program ticket :: operations) replies f) :
    Yields n (.run program ticket :: operations) replies f := by
  obtain ⟨events, hx, ho, hs⟩ := h
  cases events with
  | nil => simp at ho
  | cons v events =>
    obtain ⟨hv, ho⟩ := List.cons.inj ho
    obtain ⟨hb, ⟨limit, hp⟩, hl⟩ := hx.uncons
    have hn : Performs n (.run program ticket) v.reply := by
      refine ⟨limit, ?_⟩
      rw [hv, hb] at hp
      rw [← hp, Operation.perform, Operation.perform, hr]
    refine ⟨⟨n, .run program ticket, v.reply⟩ :: events, ?_, ?_, hs⟩
    · exact cons (v := ⟨n, .run program ticket, v.reply⟩) hn hl
    · rw [List.map_cons, ho]

end History

/-- Two engines cannot be told apart once they are reset or asked for a run. -/
structure RunsAlike (e n : Engine) : Prop where
  /-- A reset tells the same and leaves the same. -/
  reset : e.reset = n.reset
  /-- A run of any program is started or refused alike, tells the same and leaves the
  same. -/
  run : ∀ program ticket, e.run program ticket = n.run program ticket
  /-- After the run the same operations return, with the same replies and leaving the
  same. -/
  returns : ∀ program ticket operations replies f,
    History.Yields e (.run program ticket :: operations) replies f ↔
      History.Yields n (.run program ticket :: operations) replies f
  /-- No other replies are possible. -/
  same : ∀ program ticket operations replies answers f g,
    History.Yields e (.run program ticket :: operations) replies f →
      History.Yields n (.run program ticket :: operations) answers g →
      replies = answers ∧ f = g

/-- Engines that a reset makes the same cannot be told apart by runs. -/
theorem runsAlike_of_cleared {e n : Engine} (h : e.cleared = n.cleared) : RunsAlike e n := by
  have hr : ∀ program ticket, e.run program ticket = n.run program ticket := by
    intro program ticket
    unfold Engine.run
    rw [h]
  refine ⟨?_, hr, ?_, ?_⟩
  · unfold Engine.reset
    rw [h]
  · intro program ticket operations replies f
    have hs := hr program ticket
    constructor
    · exact History.Yields.of_run_eq hs
    · exact History.Yields.of_run_eq hs.symm
  · intro program ticket operations replies answers f g hx hy
    exact (hx.of_run_eq (hr program ticket)).unique hy

/-- Whatever has happened to an engine, a reset leaves what a new engine of the same
config is, but for the random source if there is no seed, which it does not touch.
Runs on the two engines cannot be told apart, and another reset changes nothing. -/
theorem runs_isolated {config : Config} {key : Random.Key} {events : List Event} {e : Engine}
    (h : History (.new config key) events e) (entropy : Random.Key) :
    (∀ seed, config.rngSeed = some seed →
      e.reset.engine = .new config entropy ∧ RunsAlike e (.new config entropy)) ∧
    (config.rngSeed = none →
      let n := (Engine.new config entropy).withRandom e.core.random
      e.reset.engine = n ∧ RunsAlike e n) ∧
    e.reset.engine.reset = e.reset := by
  have hc : e.config = config := h.config_eq
  refine ⟨?_, ?_, ?_⟩
  · intro seed hs
    have he : e.cleared = .new config entropy := by
      rw [← hc] at hs ⊢
      exact Engine.cleared_of_seeded hs entropy
    have hn : (Engine.new config entropy).cleared = .new config entropy :=
      Engine.cleared_of_seeded (e := .new config entropy) hs entropy
    exact ⟨he, runsAlike_of_cleared (he.trans hn.symm)⟩
  · intro hs n
    have he : e.cleared = n := by
      rw [← hc] at hs
      have hu := Engine.cleared_of_unseeded hs entropy
      rw [hc] at hu
      exact hu
    have hn : n.cleared = n := Engine.cleared_of_unseeded (e := n) hs entropy
    exact ⟨he, runsAlike_of_cleared (he.trans hn.symm)⟩
  · have hr : e.cleared.cleared = e.cleared := e.cleared_cleared
    unfold Engine.reset
    rw [hr]

/-- An engine that has drawn a random byte and called a subroutine is made new by a
reset if it has a seed, and made new but for its random source if it has none. -/
theorem runs_isolated_of_used_engines :
    ∃ (config other : Config) (events others : List Event) (e f : Engine),
      History (.new config (Vector.replicate 8 0)) events e ∧
      History (.new other (Vector.replicate 8 0)) others f ∧
      config.rngSeed = some 1 ∧ other.rngSeed = none ∧
      (e.core.random.taken, e.machine.calls.depth, e.completion) = (1, 1, some 7) ∧
      (f.core.random.taken, f.machine.calls.depth, f.completion) = (1, 1, some 7) ∧
      e.reset.engine = .new config (Vector.replicate 8 1) ∧
      RunsAlike e (.new config (Vector.replicate 8 1)) ∧
      f.reset.engine = (Engine.new other (Vector.replicate 8 1)).withRandom f.core.random ∧
      RunsAlike f ((Engine.new other (Vector.replicate 8 1)).withRandom f.core.random) := by
  let operations : List Operation :=
    [.run [0xC0, 0xFF, 0x22, 0x00] 7, .step, .resume Budget.scheduler (.new 1)]
  let seen := fun x : List Event × Engine =>
    (x.2.core.random.taken, x.2.machine.calls.depth, x.2.completion)
  have hs : (History.replay 2 (.new ⟨some 1, .vy⟩ (Vector.replicate 8 0)) operations).map seen =
      some (1, 1, some 7) := by decide +kernel
  have hu : (History.replay 2 (.new ⟨none, .vy⟩ (Vector.replicate 8 0)) operations).map seen =
      some (1, 1, some 7) := by decide +kernel
  obtain ⟨⟨events, e⟩, hx, he⟩ := Option.map_eq_some_iff.mp hs
  obtain ⟨⟨others, f⟩, hy, hf⟩ := Option.map_eq_some_iff.mp hu
  have h := History.of_replay hx
  have hg := History.of_replay hy
  have hr := (runs_isolated h (Vector.replicate 8 1)).1 1 rfl
  have hn := (runs_isolated hg (Vector.replicate 8 1)).2.1 rfl
  exact ⟨_, _, events, others, e, f, h, hg, rfl, rfl, he, hf, hr.1, hr.2, hn.1, hn.2⟩

end Chip8
