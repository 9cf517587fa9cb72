import Chip8.Debug.Host
import Chip8.Proofs.History

/-!
# Sessions

A session is what happens to an engine and a debugging host that belong together:
commands to the debugger, resumptions and steps under the host, and all other operations
on the engine in between. Runs come and go in a session, the debugger stays.
-/

namespace Chip8.Debug

/-- What a person can tell a debugger. -/
inductive Command where
  /-- Set a breakpoint. -/
  | setBreakpoint (pc : UInt16)
  /-- Stop before the next instruction. -/
  | pause
  /-- Run freely until a breakpoint. -/
  | resume
  /-- Run a number of instructions and then stop. -/
  | requestSteps (count : Nat)
  deriving DecidableEq, Repr

/-- The debugger after a command. -/
def Debugger.obey (d : Debugger) : Command → Debugger
  | .setBreakpoint pc => (d.setBreakpoint pc).2
  | .pause => d.pause
  | .resume => d.resume
  | .requestSteps count => d.requestSteps count

/-- What can happen in a session. -/
inductive Act : Type 1 where
  /-- The debugger is told something. -/
  | tell (command : Command)
  /-- The run is resumed under the debugging host. -/
  | resume
  /-- The debugging host executes and traces one instruction. -/
  | step
  /-- The oldest trace events are taken out. -/
  | drain (most : Nat)
  /-- An operation is performed on the engine past the debugging host. -/
  | operate (operation : Operation)

/-- Perform an act. There is no reply if a resumed run takes more turns than a limit. -/
def Act.perform (limit : Nat) (e : Engine) (h : Host) :
    Act → Option (Reply (Except EngineError Answer) × Host)
  | .tell command =>
    some (⟨e, [], .ok .done⟩, { h with debugger := h.debugger.obey command })
  | .resume =>
    (e.resume Host.scheduler limit h).map fun r => (r.toReply.answer .returned, r.scheduler)
  | .step => some ((h.step e).2.answer .stepped, (h.step e).1)
  | .drain most => some (⟨e, [], .ok .done⟩, { h with tracer := (h.tracer.drain most).2 })
  | .operate operation => (operation.perform limit e).map fun reply => (reply, h)

/-- One act as it happened. -/
structure Scene where
  /-- The engine that the act found. -/
  engine : Engine
  /-- The debugging host that the act found. -/
  host : Host
  /-- The act. -/
  act : Act
  /-- What the act left of the engine, told and answered. -/
  reply : Reply (Except EngineError Answer)
  /-- The debugging host that the act left. -/
  left : Host

/-- The act of a scene returns what the scene says. -/
def Scene.Happens (v : Scene) : Prop :=
  ∃ limit, v.act.perform limit v.engine v.host = some (v.reply, v.left)

/-- All that an act can leave, tell and answer. -/
inductive Act.Done (e : Engine) (h : Host) :
    Act → Reply (Except EngineError Answer) → Host → Prop
  /-- The debugger has been told something. -/
  | told {command : Command} : Done e h (.tell command) ⟨e, [], .ok .done⟩
      { h with debugger := h.debugger.obey command }
  /-- The resumption has returned. -/
  | resumed {limit : Nat} {r : Resumed Host} (hr : e.resume Host.scheduler limit h = some r) :
      Done e h .resume (r.toReply.answer .returned) r.scheduler
  /-- An instruction has been tried. -/
  | stepped : Done e h .step ((h.step e).2.answer .stepped) (h.step e).1
  /-- Trace events have been taken out. -/
  | drained {most : Nat} : Done e h (.drain most) ⟨e, [], .ok .done⟩
      { h with tracer := (h.tracer.drain most).2 }
  /-- The operation has returned. -/
  | operated {operation : Operation} {reply : Reply (Except EngineError Answer)}
      (hp : Performs e operation reply) : Done e h (.operate operation) reply h

/-- An act that returns has done one of these things. -/
theorem Scene.Happens.done {v : Scene} (hv : v.Happens) :
    v.act.Done v.engine v.host v.reply v.left := by
  rcases v with ⟨e, h, act, reply, left⟩
  obtain ⟨limit, hx⟩ := hv
  have hp : act.perform limit e h = some (reply, left) := hx
  cases act with
  | tell command =>
    cases hp
    exact .told
  | resume =>
    obtain ⟨r, hr, he⟩ := Option.map_eq_some_iff.mp hp
    cases he
    exact .resumed hr
  | step =>
    cases hp
    exact .stepped
  | drain most =>
    cases hp
    exact .drained
  | operate operation =>
    obtain ⟨r, hr, he⟩ := Option.map_eq_some_iff.mp hp
    cases he
    exact .operated ⟨limit, hr⟩

/-- The acts on an engine and a debugging host, one after the other, and what they
leave. -/
inductive Session (e : Engine) (h : Host) : List Scene → Engine → Host → Prop
  /-- Nothing has happened. -/
  | nil : Session e h [] e h
  /-- One more act has returned. -/
  | snoc {scenes : List Scene} {v : Scene} (hs : Session e h scenes v.engine v.host)
      (hv : v.Happens) : Session e h (scenes ++ [v]) v.reply.engine v.left

namespace Session

/-- Perform acts one after the other. There is no session if a resumed run takes more
turns than a limit. -/
def replay (limit : Nat) (e : Engine) (h : Host) :
    List Act → Option (List Scene × Engine × Host)
  | [] => some ([], e, h)
  | act :: acts =>
    (act.perform limit e h).bind fun (reply, left) =>
      (replay limit reply.engine left acts).map fun (scenes, last) =>
        (⟨e, h, act, reply, left⟩ :: scenes, last)

/-- A session with one more act before it. -/
theorem cons {v : Scene} {scenes : List Scene} {f : Engine} {k : Host} (hv : v.Happens)
    (hs : Session v.reply.engine v.left scenes f k) :
    Session v.engine v.host (v :: scenes) f k := by
  induction hs with
  | nil => exact Session.nil.snoc hv
  | snoc hs hw ih => exact ih.snoc hw

/-- A session with its last act split off. -/
theorem split_last {e f : Engine} {h k : Host} {scenes : List Scene} {v : Scene}
    (hs : Session e h (scenes ++ [v]) f k) :
    Session e h scenes v.engine v.host ∧ v.Happens ∧ f = v.reply.engine ∧ k = v.left := by
  generalize hl : scenes ++ [v] = all at hs
  cases hs with
  | nil => simp at hl
  | snoc hs hv =>
    obtain ⟨he, hw⟩ := List.append_inj' hl rfl
    cases hw
    rw [he]
    exact ⟨hs, hv, rfl, rfl⟩

/-- Every beginning of a session is a session, and so is the rest of it. -/
theorem of_append {e f : Engine} {h k : Host} {earlier later : List Scene}
    (hs : Session e h (earlier ++ later) f k) :
    ∃ g t, Session e h earlier g t ∧ Session g t later f k := by
  induction later using List.reverseRecOn generalizing f k with
  | nil =>
    rw [List.append_nil] at hs
    exact ⟨f, k, hs, .nil⟩
  | append_singleton later v ih =>
    rw [← List.append_assoc] at hs
    obtain ⟨hs, hv, hf, hk⟩ := hs.split_last
    obtain ⟨g, t, hg, hl⟩ := ih hs
    rw [hf, hk]
    exact ⟨g, t, hg, hl.snoc hv⟩

/-- An act of a session with what follows it. -/
theorem split_at {e f : Engine} {h k : Host} {earlier later : List Scene} {v : Scene}
    (hs : Session e h (earlier ++ v :: later) f k) :
    v.Happens ∧ Session v.reply.engine v.left later f k := by
  rw [List.append_cons] at hs
  obtain ⟨g, t, hg, hl⟩ := hs.of_append
  obtain ⟨_, hv, he, hk⟩ := hg.split_last
  rw [he, hk] at hl
  exact ⟨hv, hl⟩

/-- Acts that are performed one after the other are a session. -/
theorem of_replay {limit : Nat} {e f : Engine} {h k : Host} {acts : List Act}
    {scenes : List Scene} (hr : replay limit e h acts = some (scenes, f, k)) :
    Session e h scenes f k := by
  induction acts generalizing e h scenes with
  | nil =>
    cases hr
    exact .nil
  | cons act acts ih =>
    obtain ⟨⟨reply, left⟩, hp, hm⟩ := Option.bind_eq_some_iff.mp hr
    obtain ⟨⟨rest, last⟩, ht, he⟩ := Option.map_eq_some_iff.mp hm
    cases he
    exact cons (v := ⟨e, h, act, reply, left⟩) ⟨limit, hp⟩ (ih ht)

end Session

end Chip8.Debug
