import Chip8.Proofs.BudgetSlices
import Chip8.Proofs.Countdown
import Chip8.Proofs.Faults
import Chip8.Proofs.Messages
import Chip8.Scheduler.Stops

/-!
# The log of what happened

What stands in the log of an engine after each operation of a session, and that it is what
has happened: an event for each word that was fetched, in order, and an event for each stage
in the life of a run. The instructions that a resumption has logged are those of which its
scheduler was told, and the one that failed if there is one. Each event has a line of its
own, from which it can be told.
-/

namespace Chip8

/-- What stands in a log, whatever event has put it there. -/
structure LogLine where
  /-- How urgent it is. -/
  level : Level
  /-- What it says. -/
  message : String
  /-- What it tells beside that. -/
  fields : Json.Members
  deriving DecidableEq, Repr

namespace LogLine

/-- The line that stands for an event. -/
def of : LogEvent → LogLine
  | .engineReset => ⟨.debug, "engine reset", []⟩
  | .programLoaded origin length =>
    ⟨.debug, "program loaded", [("origin", .natural origin.toNat), ("len", .natural length)]⟩
  | .runStarted length => ⟨.debug, "run started", [("len", .natural length)]⟩
  | .dispatched pc word =>
    ⟨.trace, "dispatch", [("pc", .natural pc.toNat), ("word", .natural word.toNat)]⟩
  | .programHalted executed =>
    ⟨.debug, "program halted", [("executed", .natural executed)]⟩
  | .runAborted pc error =>
    ⟨.warn, "run aborted", [("pc", .natural pc.toNat), ("err", .text error.message)]⟩
  | .debuggerPaused pc reason =>
    ⟨.debug, "debugger paused", [("reason", .text reason.shown), ("pc", .natural pc.toNat)]⟩

/-- Whether a line stands for a word that was fetched. -/
def isTrace (line : LogLine) : Bool := line.level == .trace

end LogLine

namespace LogEvent

/-- The line of an event. -/
def line (e : LogEvent) : LogLine := ⟨e.level, e.message, e.fields⟩

/-- It is the line that stands for the event. -/
theorem line_eq (e : LogEvent) : e.line = .of e := by
  cases e <;> rfl

/-- The event of an instruction that has retired. -/
def ofRetired (record : Retired) : LogEvent := .dispatched record.address record.word

/-- The events at the end of a resumption that has left a machine and has answered, with
what a debugger gave as the reason if it has suspended the run. -/
def ending (m : Machine) (pause : Option Debug.PauseReason) :
    Except EngineError RunExit → List LogEvent
  | .ok .notRunning => []
  | .ok (.halted executed) => [.programHalted executed]
  | .ok (.yielded _) => pause.toList.map fun reason => .debuggerPaused m.pc reason
  | .error error => [.dispatched m.wordAddress m.word, .runAborted m.pc error]

/-- How many instructions have failed when a resumption has answered. -/
def failures : Except EngineError RunExit → Nat
  | .ok _ => 0
  | .error _ => 1

/-- Each record is shown by the line of a fetched word. -/
theorem countP_ofRetired (records : List Retired) :
    ((records.map ofRetired).map LogLine.of).countP LogLine.isTrace = records.length := by
  rw [List.map_map, List.countP_map, List.countP_eq_length]
  intro record _
  rfl

/-- At the end there is the line of a fetched word only if the instruction has failed. -/
theorem countP_ending (m : Machine) (pause : Option Debug.PauseReason)
    (value : Except EngineError RunExit) :
    ((ending m pause value).map LogLine.of).countP LogLine.isTrace = failures value := by
  cases value with
  | error error => rfl
  | ok exit =>
    cases exit with
    | notRunning => rfl
    | halted executed => rfl
    | yielded executed => cases pause <;> rfl

/-- If an event tells of an error, an instruction can meet it. -/
def Possible : LogEvent → Prop
  | .runAborted _ error => ∃ m : Machine, m.Faults error
  | _ => True

/-- An event can be told from its line. -/
theorem eq_of_line {e other : LogEvent} (he : e.Possible) (ho : other.Possible)
    (h : e.line = other.line) : e = other := by
  have hm : e.message = other.message := congrArg LogLine.message h
  have hf : e.fields = other.fields := congrArg LogLine.fields h
  -- The message tells the kind, and the fields tell the rest.
  cases e with
  | engineReset =>
    cases other with
    | engineReset => rfl
    | _ => simp [message] at hm
  | programLoaded origin length =>
    cases other with
    | programLoaded o l =>
      obtain ⟨rfl, rfl⟩ : origin = o ∧ length = l := by
        simpa [fields, UInt16.toNat_inj] using hf
      rfl
    | _ => simp [message] at hm
  | runStarted length =>
    cases other with
    | runStarted l =>
      obtain rfl : length = l := by simpa [fields] using hf
      rfl
    | _ => simp [message] at hm
  | programHalted executed =>
    cases other with
    | programHalted n =>
      obtain rfl : executed = n := by simpa [fields] using hf
      rfl
    | _ => simp [message] at hm
  | runAborted pc error =>
    cases other with
    | runAborted address cause =>
      obtain ⟨rfl, hc⟩ : pc = address ∧ error.message = cause.message := by
        simpa [fields, UInt16.toNat_inj] using hf
      obtain ⟨m, hfaults⟩ := he
      obtain ⟨n, kfaults⟩ := ho
      rw [hfaults.eq_of_message kfaults hc]
    | _ => simp [message] at hm
  | dispatched pc word =>
    cases other with
    | dispatched address w =>
      obtain ⟨rfl, rfl⟩ : pc = address ∧ word = w := by
        simpa [fields, UInt16.toNat_inj] using hf
      rfl
    | _ => simp [message] at hm
  | debuggerPaused pc reason =>
    cases other with
    | debuggerPaused address r =>
      obtain ⟨hr, rfl⟩ : reason.shown = r.shown ∧ pc = address := by
        simpa [fields, UInt16.toNat_inj] using hf
      rw [Debug.PauseReason.shown_injective hr]
    | _ => simp [message] at hm

end LogEvent

namespace Notice

/-- The events that a log shows of some notices if it shows all. -/
def log (notices : List Notice) : List LogEvent := shownBy .trace notices

/-- The lines of these events. -/
def lines (notices : List Notice) : List LogLine := (log notices).map LogEvent.line

/-- The events of notices stand one behind the other. -/
theorem log_append (notices more : List Notice) :
    log (notices ++ more) = log notices ++ log more := by
  rw [log, shownBy, List.filterMap_append]
  rfl

/-- An event is shown. -/
theorem log_event (e : LogEvent) (notices : List Notice) :
    log (.event e :: notices) = e :: log notices := by
  cases e <;> rfl

/-- What a log shows of some notices if it shows all. -/
structure Logs (notices : List Notice) (events : List LogEvent) : Prop where
  /-- These are the events, in order. -/
  log_eq : log notices = events
  /-- Each of them has its line. -/
  lines_eq : lines notices = events.map LogLine.of

/-- The lines are given by the events. -/
theorem logs_of_log {notices : List Notice} {events : List LogEvent}
    (h : log notices = events) : Logs notices events where
  log_eq := h
  lines_eq := by
    rw [lines, h]
    exact List.map_congr_left fun e _ => e.line_eq

end Notice

namespace HookCall

/-- The record of which a hook is told, if it is told of any. -/
def record? : HookCall → Option Retired
  | .retired _ record => some record
  | _ => none

/-- The records of which hooks are told, in order. -/
def records (calls : List HookCall) : List Retired := calls.filterMap record?

/-- One more call tells of the record that it holds. -/
theorem records_concat (calls : List HookCall) (c : HookCall) :
    records (calls ++ [c]) = records calls ++ c.record?.toList := by
  rw [records, List.filterMap_append]
  cases h : c.record? <;> simp [records, h]

end HookCall

namespace Engine

variable {e : Engine}

/-- The records of a number of plain steps. -/
def records (e : Engine) (n : Nat) : List Retired :=
  (List.range n).map fun k => (e.after k).core.upcoming

/-- One more step leaves one more record. -/
theorem records_succ (e : Engine) (n : Nat) :
    e.records (n + 1) = e.records n ++ [(e.after n).core.upcoming] := by
  rw [records, List.range_succ, List.map_append, List.map_singleton]
  rfl

/-- A number of plain steps leaves as many records. -/
@[simp]
theorem length_records (e : Engine) (n : Nat) : (e.records n).length = n := by
  rw [records, List.length_map, List.length_range]

/-- Every plain step logs the event of its record. -/
theorem log_dispatches (e : Engine) (n : Nat) :
    Notice.log (e.dispatches n) = (e.records n).map LogEvent.ofRetired := by
  induction n with
  | zero => rfl
  | succ n ih =>
    rw [dispatches_succ, records_succ, Notice.log_append, ih, List.map_append]
    rfl

/-- The end of a run logs nothing but its event. -/
theorem log_finish (e : Engine) (event : LogEvent) (error : Option EngineError) :
    Notice.log (.event event :: (e.finish error).2) = [event] := by
  rw [Notice.log_event, finish]
  cases e.completion <;> rfl

/-- A pause logs its event. -/
theorem log_pauseNotices (e : Engine) (pause : Option Debug.PauseReason) (n : Nat) :
    Notice.log (e.pauseNotices pause) = LogEvent.ending e.machine pause (.ok (.yielded n)) := by
  cases pause <;> rfl

end Engine

namespace Scheduler

variable {σ : Type}

/-- A hook of a scheduler has suspended a run for a reason and has left the scheduler. -/
def Suspends (hooks : Scheduler σ) (pause : Option Debug.PauseReason) (t : σ) : Prop :=
  ∃ e s, hooks.beforeExec e s = (.suspend pause, t) ∨ hooks.yieldPoint e s = (.suspend pause, t)

/-- A scheduler that never gives a reason when it suspends a run. -/
def Silent (hooks : Scheduler σ) : Prop :=
  ∀ pause t, hooks.Suspends pause t → pause = none

/-- A scheduler that is asked at yield points only is silent if it gives no reason there. -/
theorem silent_ofYieldPoint {ask : Engine → σ → Decision × σ}
    (h : ∀ e s reason, (ask e s).1 ≠ .suspend (some reason)) : (ofYieldPoint ask).Silent := by
  rintro (_ | reason) t ⟨e, s, hb | hy⟩
  · rfl
  · rfl
  · cases hb
  · have hd : (ask e s).1 = .suspend (some reason) := congrArg Prod.fst hy
    exact absurd hd (h e s reason)

/-- Nothing suspends a run that goes to its end. -/
theorem silent_toCompletion : toCompletion.Silent :=
  silent_ofYieldPoint fun _ _ _ => Decision.noConfusion

end Scheduler

/-- A budget gives no reason. -/
theorem Budget.silent_scheduler : Budget.scheduler.Silent := by
  apply Scheduler.silent_ofYieldPoint
  intro e b reason
  show b.spend.1 ≠ _
  unfold Budget.spend
  split
  · simp
  · simp

/-- Fixed stops give no reason. -/
theorem Stops.silent_scheduler (stops : Stops) : (Stops.scheduler stops).Silent := by
  have hs : ∀ condition reason, Stops.suspendIf condition ≠ .suspend (some reason) := by
    intro condition reason
    cases condition <;> simp [Stops.suspendIf]
  rintro (_ | reason) t ⟨e, s, hb | hy⟩
  · rfl
  · rfl
  · exact absurd (congrArg Prod.fst hb) (hs _ reason)
  · exact absurd (congrArg Prod.fst hy) (hs _ reason)

/-- What a resumption puts into the log, given the calls that it has made of the hooks. -/
structure RunLog (calls : List HookCall) (pause : Option Debug.PauseReason)
    (reply : Reply (Except EngineError RunExit)) : Prop where
  /-- An event for each record of which a hook was told, in this order, and then the events
  at the end. -/
  logs : Notice.Logs reply.notices
    ((HookCall.records calls).map LogEvent.ofRetired ++
      LogEvent.ending reply.engine.machine pause reply.value)
  /-- The hooks were told of as many records as the answer counts. -/
  counted : ∀ exit, reply.value = .ok exit → (HookCall.records calls).length = exit.executed
  /-- An error is met by an instruction that was fetched where the program counter is. -/
  faulting : ∀ error, reply.value = .error error →
    reply.engine.machine.wordAddress = reply.engine.machine.pc ∧
      reply.engine.machine.Faults error

namespace Progress

variable {σ : Type} {hooks : Scheduler σ} {e : Engine} {p q : Progress (Watched σ)}

/-- A watched run whose hooks were told of the plain steps that it has taken. -/
structure Told (e : Engine) (p : Progress (Watched σ)) : Prop where
  /-- Plain steps have been taken. -/
  follows : Follows e p
  /-- The hooks were told of each of them. -/
  records : HookCall.records p.scheduler.calls.toList = e.records p.executed

/-- At first the hooks were told of nothing. -/
theorem told_start (e : Engine) (s : σ) : Told e (start e ⟨s, #[]⟩) := ⟨follows_start _ _, rfl⟩

/-- A call that tells of no record changes nothing. -/
theorem Told.call (h : Told e p) {c : HookCall} (hn : c.record? = none) {u : Watched σ}
    {decision : Decision} (hc : hooks.watched.answer p.scheduler c = (decision, u)) :
    Told e { p with scheduler := u } := by
  have hu := (Scheduler.answer_of_watched hc).2
  refine ⟨h.follows.schedule u, ?_⟩
  show HookCall.records u.calls.toList = e.records p.executed
  rw [hu, HookCall.records_concat, hn, h.records]
  exact List.append_nil _

/-- A hook is told of an instruction that retires. -/
theorem Told.retire (h : Told e p) (hp : p.engine.machine.pastEnd = false)
    (hf : p.engine.fault? = none) : Told e (p.retire hooks.watched p.scheduler) := by
  refine ⟨h.follows.retire hp hf p.scheduler, ?_⟩
  show HookCall.records (p.scheduler.calls.push _).toList = e.records (p.executed + 1)
  rw [Array.toList_push, HookCall.records_concat, h.records, Engine.records_succ,
    ← h.follows.engine]
  rfl

/-- A watched run that goes on has told its hooks of one more instruction. -/
theorem Told.turn (h : Told e p) (ht : Turn hooks.watched p (.inl q)) : Told e q := by
  cases ht with
  | @left u hp hb hf he =>
    have hu : Told e { p with scheduler := u } := h.call (c := .beforeExec p.engine) rfl hb
    exact hu.retire hp hf
  | @went u t hp hb hf he hy =>
    have hu : Told e { p with scheduler := u } := h.call (c := .beforeExec p.engine) rfl hb
    have hr : Told e (p.retire hooks.watched u) := hu.retire hp hf
    exact hr.call (c := .yieldPoint p.engine.step.engine) rfl hy

/-- A watched run has told its hooks of its instructions for as long as it lasts. -/
theorem Told.reaches (h : Told e p) (hr : Reaches hooks.watched p q) : Told e q :=
  hr.keeps Told.turn h

/-- What a watched run has logged when it is suspended. -/
theorem Told.suspend (h : Told e p) (pause : Option Debug.PauseReason) :
    RunLog p.scheduler.calls.toList pause (p.suspend pause).toReply := by
  rw [h.follows.suspend_toReply pause]
  refine ⟨Notice.logs_of_log ?_, ?_, ?_⟩
  · show Notice.log (e.dispatches p.executed ++ Engine.pauseNotices _ pause) = _
    rw [Notice.log_append, Engine.log_dispatches, h.records, Engine.log_pauseNotices]
  · intro exit hv
    cases hv
    rw [h.records, Engine.length_records]
    rfl
  · intro error hv
    cases hv

/-- What a watched run has logged when it has come to the end of memory. -/
theorem Told.halt (h : Told e p) (pause : Option Debug.PauseReason) :
    RunLog p.scheduler.calls.toList pause p.halt.toReply := by
  rw [h.follows.halt_toReply]
  refine ⟨Notice.logs_of_log ?_, ?_, ?_⟩
  · show Notice.log (e.dispatches p.executed ++ _) = _
    rw [Notice.log_append, Engine.log_dispatches, h.records, Engine.log_finish]
    rfl
  · intro exit hv
    cases hv
    rw [h.records, Engine.length_records]
    rfl
  · intro error hv
    cases hv

/-- What a watched run has logged when it is ended by an instruction that fails. -/
theorem Told.abort {u : Watched σ} (h : Told e { p with scheduler := u }) {error : EngineError}
    (hf : p.engine.fault? = some error) (pause : Option Debug.PauseReason) :
    RunLog u.calls.toList pause ((p.fail u).abort error).toReply := by
  have he : p.engine = e.after p.executed := h.follows.engine
  rw [he] at hf
  -- The word has been fetched where the program counter is, and nothing else has happened.
  have hleft := Engine.leavesIntact_step hf
  have hm : (e.after (p.executed + 1)).machine =
    { (e.after p.executed).machine with
      word := (e.after p.executed).machine.fetch
      wordAddress := (e.after p.executed).machine.pc } := hleft.machine
  have hfaults : (e.after (p.executed + 1)).machine.Faults error :=
    hleft.faults (Engine.fault?_eq_some_iff.mp hf)
  have hr : HookCall.records u.calls.toList = e.records p.executed := h.records
  have hreply := h.follows.abort_toReply error u
  change ((p.fail u).abort error).toReply = _ at hreply
  rw [hreply]
  refine ⟨Notice.logs_of_log ?_, ?_, ?_⟩
  · show Notice.log (e.dispatches (p.executed + 1) ++ _) = _ ++
      LogEvent.ending (e.after (p.executed + 1)).machine pause _
    rw [Engine.dispatches_succ, Notice.log_append, Notice.log_append, Engine.log_dispatches, hr,
      Engine.log_finish, List.append_assoc, LogEvent.ending, hm]
    rfl
  · intro exit hv
    cases hv
  · intro other hv
    cases hv
    refine ⟨?_, hfaults⟩
    show (e.after (p.executed + 1)).machine.wordAddress = (e.after (p.executed + 1)).machine.pc
    rw [hm]

/-- What a watched run has logged when it returns. A hook has suspended it if it says so. -/
theorem Told.runLog (h : Told e p) {r : Resumed (Watched σ)}
    (ht : Turn hooks.watched p (.inr r)) : ∃ pause,
      RunLog r.scheduler.calls.toList pause r.toReply ∧
        ∀ n, r.value = .ok (.yielded n) → hooks.Suspends pause r.scheduler.inner := by
  cases ht with
  | halted hp =>
    refine ⟨none, h.halt none, ?_⟩
    intro n hv
    cases hv
  | @refused reason u hp hb =>
    have hu : Told e { p with scheduler := u } := h.call (c := .beforeExec p.engine) rfl hb
    have ha := (Scheduler.answer_of_watched (c := .beforeExec p.engine) hb).1
    refine ⟨reason, hu.suspend reason, ?_⟩
    intro n _
    exact ⟨p.engine, p.scheduler.inner, Or.inl ha⟩
  | @failed u error hp hb hf =>
    have hu : Told e { p with scheduler := u } := h.call (c := .beforeExec p.engine) rfl hb
    refine ⟨none, hu.abort hf none, ?_⟩
    intro n hv
    cases hv
  | @yielded u t reason hp hb hf he hy =>
    have hu : Told e { p with scheduler := u } := h.call (c := .beforeExec p.engine) rfl hb
    have hr : Told e (p.retire hooks.watched u) := hu.retire hp hf
    have hl : Told e { p.retire hooks.watched u with scheduler := t } :=
      hr.call (c := .yieldPoint p.engine.step.engine) rfl hy
    have ha := (Scheduler.answer_of_watched (c := .yieldPoint p.engine.step.engine) hy).1
    refine ⟨reason, hl.suspend reason, ?_⟩
    intro n _
    exact ⟨p.engine.step.engine, _, Or.inr ha⟩

end Progress

/-- A resumption has logged as many fetched words as its hooks were told of, and one more if
it has answered an error. -/
theorem RunLog.countP_lines {calls : List HookCall} {pause : Option Debug.PauseReason}
    {reply : Reply (Except EngineError RunExit)} (h : RunLog calls pause reply) :
    (Notice.lines reply.notices).countP LogLine.isTrace =
      (HookCall.records calls).length + LogEvent.failures reply.value := by
  rw [h.logs.lines_eq, List.map_append, List.countP_append, LogEvent.countP_ofRetired,
    LogEvent.countP_ending]

/-- The reason matters only if the run was suspended. -/
theorem RunLog.of_pause {calls : List HookCall} {pause other : Option Debug.PauseReason}
    {reply : Reply (Except EngineError RunExit)} (h : RunLog calls pause reply)
    (hp : ∀ n, reply.value = .ok (.yielded n) → other = pause) : RunLog calls other reply := by
  refine ⟨Notice.logs_of_log ?_, h.counted, h.faulting⟩
  rw [h.logs.log_eq]
  cases hv : reply.value with
  | error error => rfl
  | ok exit =>
    cases exit with
    | notRunning => rfl
    | halted executed => rfl
    | yielded executed => rw [hp executed hv]

/-- A resumption logs no error but that of an instruction. -/
theorem RunLog.possible {calls : List HookCall} {pause : Option Debug.PauseReason}
    {reply : Reply (Except EngineError RunExit)} (h : RunLog calls pause reply) :
    ∀ event ∈ Notice.log reply.notices, event.Possible := by
  rw [h.logs.log_eq]
  intro event hm
  rcases List.mem_append.mp hm with hm | hm
  · obtain ⟨record, _, rfl⟩ := List.mem_map.mp hm
    trivial
  · cases hv : reply.value with
    | error error =>
      rw [hv] at hm
      rcases List.mem_cons.mp hm with rfl | hm
      · trivial
      · rw [List.mem_singleton.mp hm]
        exact ⟨_, (h.faulting error hv).2⟩
    | ok exit =>
      rw [hv] at hm
      cases exit with
      | notRunning => cases hm
      | halted executed =>
        rw [List.mem_singleton.mp hm]
        trivial
      | yielded executed =>
        obtain ⟨reason, _, rfl⟩ := List.mem_map.mp hm
        trivial

namespace Engine

variable {σ : Type} {hooks : Scheduler σ} {e : Engine} {s : σ} {limit : Nat}

/-- What a watched resumption has logged when it returns. -/
theorem runLog_of_watched {r : Resumed (Watched σ)}
    (h : e.resume hooks.watched limit ⟨s, #[]⟩ = some r) : ∃ pause,
      RunLog r.scheduler.calls.toList pause r.toReply ∧
        ∀ n, r.value = .ok (.yielded n) → hooks.Suspends pause r.scheduler.inner := by
  rcases resume_cases h with ⟨_, q, hq, ht⟩ | ⟨_, he⟩
  · exact ((Progress.told_start e s).reaches hq).runLog ht
  · rw [he]
    refine ⟨none, ⟨Notice.logs_of_log rfl, ?_, ?_⟩, ?_⟩
    · intro exit hv
      cases hv
      rfl
    · intro error hv
      cases hv
    · intro n hv
      cases hv

/-- A resumption that has not returned within a limit has logged the instructions of which
its hooks were told so far, which are as many, and nothing else. -/
theorem told_of_endless (h : e.resume hooks limit s = none) : ∃ p,
    Progress.Reaches hooks.watched (.start e ⟨s, #[]⟩) p ∧ p.executed = limit ∧
      (HookCall.records p.scheduler.calls.toList).length = limit ∧
        Notice.Logs p.notices.toList
          ((HookCall.records p.scheduler.calls.toList).map LogEvent.ofRetired) := by
  have hw : e.resume hooks.watched limit ⟨s, #[]⟩ = none := by
    have hu := resume_unwatched hooks limit e ⟨s, #[]⟩
    rw [h] at hu
    exact Option.map_eq_none_iff.mp hu.symm
  obtain ⟨_, p, hp, he⟩ := reaches_of_resume hw
  have ht := (Progress.told_start e s).reaches hp
  refine ⟨p, hp, he, ?_, Notice.logs_of_log ?_⟩
  · rw [ht.records, length_records, he]
  · rw [ht.follows.notices, log_dispatches, ht.records]

/-- A resumption has put into the log what its hooks were told, and the reason that a
debugger has given if it has suspended the run. The calls are those that are kept when the
scheduler is watched. -/
def RunLogged (e : Engine) (hooks : Scheduler σ) (s : σ) (pause : Option Debug.PauseReason)
    (r : Resumed σ) : Prop :=
  ∃ limit calls, e.resume hooks.watched limit ⟨s, #[]⟩ =
    some ⟨r.toReply, ⟨r.scheduler, calls⟩⟩ ∧ RunLog calls.toList pause r.toReply ∧
      (Notice.lines r.notices).countP LogLine.isTrace =
        (HookCall.records calls.toList).length + LogEvent.failures r.value

/-- A resumption that returns has logged what has happened. -/
theorem runLogged_of_resume {r : Resumed σ} (h : e.resume hooks limit s = some r) :
    ∃ pause, e.RunLogged hooks s pause r ∧
      ∀ n, r.value = .ok (.yielded n) → hooks.Suspends pause r.scheduler := by
  obtain ⟨calls, hw, _⟩ := resume_watched h
  obtain ⟨pause, hl, hp⟩ := runLog_of_watched hw
  exact ⟨pause, ⟨limit, calls, hw, hl, hl.countP_lines⟩, hp⟩

/-- The reason matters only if the run was suspended. -/
theorem RunLogged.of_pause {pause other : Option Debug.PauseReason} {r : Resumed σ}
    (h : e.RunLogged hooks s pause r) (hp : ∀ n, r.value = .ok (.yielded n) → other = pause) :
    e.RunLogged hooks s other r := by
  obtain ⟨limit, calls, hw, hl, hc⟩ := h
  exact ⟨limit, calls, hw, hl.of_pause hp, hc⟩

/-- A step has logged one event, whether its instruction has retired or failed. -/
structure StepLogged (e : Engine) (reply : Reply (Except EngineError Answer)) : Prop where
  /-- It is the event of the word that was fetched. -/
  logs : Notice.Logs reply.notices
    [.dispatched reply.engine.machine.wordAddress reply.engine.machine.word]
  /-- The word was fetched at the program counter. -/
  address : reply.engine.machine.wordAddress = e.machine.pc
  /-- It is the word of the record if the instruction has retired. -/
  retired : ∀ record, reply.value = .ok (.stepped record) →
    record.address = reply.engine.machine.wordAddress ∧ record.word = reply.engine.machine.word

/-- A step has logged what has happened. -/
theorem stepLogged (e : Engine) : e.StepLogged (e.step.answer .stepped) := by
  obtain ⟨hw, ha⟩ := e.fetched_step
  refine ⟨Notice.logs_of_log ?_, ha, ?_⟩
  · show Notice.log e.step.notices =
      [.dispatched e.step.engine.machine.wordAddress e.step.engine.machine.word]
    rw [e.step_frame.2, hw, ha]
    rfl
  · intro record hv
    show record.address = e.step.engine.machine.wordAddress ∧
      record.word = e.step.engine.machine.word
    rw [hw, ha]
    cases hf : e.fault? with
    | none =>
      rw [Reply.answer, value_of_retires hf] at hv
      cases hv
      exact ⟨rfl, rfl⟩
    | some error =>
      rw [Reply.answer, value_of_fails hf] at hv
      cases hv

end Engine

/-- What an operation has put into the log. -/
def Operation.Logged (e : Engine) (reply : Reply (Except EngineError Answer)) :
    Operation → Prop
  | .load program origin =>
    Notice.Logs reply.notices <|
      match reply.value with
      | .ok _ => [.programLoaded origin program.length]
      | .error _ => []
  | .run program _ =>
    Notice.Logs reply.notices <|
      match reply.value with
      | .ok _ => [.engineReset, .programLoaded programOrigin program.length,
          .runStarted program.length]
      | .error _ => [.engineReset]
  | .reset => Notice.Logs reply.notices [.engineReset]
  | .step => e.StepLogged reply
  | .resume hooks s =>
    ∃ pause r, reply = r.toReply.answer .returned ∧ e.RunLogged hooks s pause r ∧
      (hooks.Silent → pause = none)

/-- An operation logs no error but that of an instruction. -/
theorem Operation.Logged.possible {e : Engine} {reply : Reply (Except EngineError Answer)}
    {operation : Operation} (h : operation.Logged e reply) :
    ∀ event ∈ Notice.log reply.notices, event.Possible := by
  cases operation with
  | load program origin =>
    rw [Notice.Logs.log_eq h]
    cases reply.value <;> simp [LogEvent.Possible]
  | run program ticket =>
    rw [Notice.Logs.log_eq h]
    cases reply.value <;> simp [LogEvent.Possible]
  | reset =>
    rw [Notice.Logs.log_eq h]
    simp [LogEvent.Possible]
  | step =>
    rw [(Engine.StepLogged.logs h).log_eq]
    simp [LogEvent.Possible]
  | resume hooks s =>
    obtain ⟨pause, r, rfl, ⟨limit, calls, _, hl, _⟩, _⟩ := h
    exact hl.possible

/-- Every operation has logged what has happened. -/
theorem Performs.logged {e : Engine} {operation : Operation}
    {reply : Reply (Except EngineError Answer)} (h : Performs e operation reply) :
    operation.Logged e reply := by
  obtain ⟨limit, hp⟩ := h
  cases operation with
  | load program origin =>
    cases hp
    apply Notice.logs_of_log
    show Notice.log (e.load program origin).notices = _
    unfold Engine.load
    cases e.machine.load program origin with
    | ok m => rfl
    | error error => rfl
  | run program ticket =>
    cases hp
    apply Notice.logs_of_log
    show Notice.log (e.run program ticket).notices = _
    unfold Engine.run Engine.load
    cases e.cleared.machine.load program programOrigin with
    | ok m => rfl
    | error error => rfl
  | reset =>
    cases hp
    exact Notice.logs_of_log rfl
  | step =>
    cases hp
    exact e.stepLogged
  | resume hooks s =>
    obtain ⟨r, hr, he⟩ := Option.map_eq_some_iff.mp hp
    obtain ⟨pause, hl, hs⟩ := Engine.runLogged_of_resume hr
    by_cases hq : hooks.Silent
    · have hn : e.RunLogged hooks s none r :=
        hl.of_pause fun n hv => (hq pause r.scheduler (hs n hv)).symm
      exact ⟨none, r, he.symm, hn, fun _ => rfl⟩
    · exact ⟨pause, r, he.symm, hl, fun hx => absurd hx hq⟩

end Chip8

namespace Chip8.Debug

/-- A debugging host that suspends a run gives the reason that it keeps. -/
theorem Host.lastPause_of_suspends {pause : Option PauseReason} {k : Host}
    (h : Host.scheduler.Suspends pause k) : k.lastPause = pause ∧ pause.isSome = true := by
  have hf : ∀ (t : Host) x, t.follow x = (.suspend pause, k) →
      k.lastPause = pause ∧ pause.isSome = true := by
    rintro t ⟨_ | reason, d⟩ hx
    · cases hx
    · cases hx
      exact ⟨rfl, rfl⟩
  obtain ⟨e, t, hb | hy⟩ := h
  · exact hf t _ hb
  · exact hf t _ hy

/-- A run that is resumed under a debugging host has logged the reason that the host keeps,
if it was suspended. -/
theorem runLogged_of_host {limit : Nat} {e : Engine} {h : Host} {r : Resumed Host}
    (hr : e.resume Host.scheduler limit h = some r) :
    e.RunLogged Host.scheduler h r.scheduler.lastPause r ∧
      ∀ n, r.value = .ok (.yielded n) → r.scheduler.lastPause.isSome = true := by
  obtain ⟨pause, hl, hs⟩ := Engine.runLogged_of_resume hr
  refine ⟨hl.of_pause fun n hv => (Host.lastPause_of_suspends (hs n hv)).1, ?_⟩
  intro n hv
  obtain ⟨he, hp⟩ := Host.lastPause_of_suspends (hs n hv)
  rw [he]
  exact hp

/-- A debugging host steps an engine as it is stepped without one. -/
theorem Host.step_snd (h : Host) (e : Engine) : (h.step e).2 = e.step := by
  unfold Host.step
  dsimp only
  split
  · rfl
  · rfl

/-- What an act has put into the log. -/
def Scene.Logged (v : Scene) : Prop :=
  match v.act with
  | .tell _ => Notice.Logs v.reply.notices []
  | .resume => ∃ r, v.reply = r.toReply.answer .returned ∧ v.left = r.scheduler ∧
    v.engine.RunLogged Host.scheduler v.host v.left.lastPause r ∧
      ∀ n, r.value = .ok (.yielded n) → v.left.lastPause.isSome = true
  | .step => v.engine.StepLogged v.reply
  | .drain _ => Notice.Logs v.reply.notices []
  | .operate operation => operation.Logged v.engine v.reply

/-- An act logs no error but that of an instruction. -/
theorem Scene.Logged.possible {v : Scene} (h : v.Logged) :
    ∀ event ∈ Notice.log v.reply.notices, event.Possible := by
  rcases v with ⟨e, k, act, reply, left⟩
  cases act with
  | tell command =>
    rw [Notice.Logs.log_eq h]
    exact fun _ hm => absurd hm List.not_mem_nil
  | drain limit =>
    rw [Notice.Logs.log_eq h]
    exact fun _ hm => absurd hm List.not_mem_nil
  | resume =>
    obtain ⟨r, rfl, _, ⟨limit, calls, _, hl, _⟩, _⟩ := h
    exact hl.possible
  | step =>
    have hl : Operation.Logged e reply .step := h
    exact hl.possible
  | operate operation =>
    have hl : operation.Logged e reply := h
    exact hl.possible

/-- Every act has logged what has happened. -/
theorem Scene.Happens.logged {v : Scene} (hv : v.Happens) : v.Logged := by
  rcases v with ⟨e, h, act, reply, left⟩
  have hx : act.Done e h reply left := hv.done
  cases hx with
  | told => exact Notice.logs_of_log rfl
  | @resumed limit r hr => exact ⟨r, rfl, rfl, runLogged_of_host hr⟩
  | stepped =>
    show e.StepLogged ((h.step e).2.answer .stepped)
    rw [Host.step_snd]
    exact e.stepLogged
  | drained => exact Notice.logs_of_log rfl
  | operated hp => exact hp.logged

/-- All acts of a session have logged what has happened. -/
theorem Session.logged {e f : Engine} {h k : Host} {scenes : List Scene}
    (hs : Session e h scenes f k) : ∀ v ∈ scenes, v.Logged := by
  induction hs with
  | nil => exact fun _ hm => absurd hm List.not_mem_nil
  | snoc hs hv ih =>
    exact List.forall_mem_append.mpr ⟨ih, List.forall_mem_singleton.mpr hv.logged⟩

/-- How the log stands to what has happened in a session. -/
structure FaithfulLog (scenes : List Scene) (f : Engine) : Prop where
  /-- Each act has logged what it has done. -/
  acts : ∀ v ∈ scenes, v.Logged
  /-- A resumption of what is left that goes on has logged the instructions of which its
  hooks were told so far, and nothing else. -/
  ongoing : ∀ {σ : Type} (hooks : Scheduler σ) (limit : Nat) (s : σ),
    f.resume hooks limit s = none → ∃ p,
      Progress.Reaches hooks.watched (.start f ⟨s, #[]⟩) p ∧ p.executed = limit ∧
        (HookCall.records p.scheduler.calls.toList).length = limit ∧
          Notice.Logs p.notices.toList
            ((HookCall.records p.scheduler.calls.toList).map LogEvent.ofRetired)
  /-- An error that was logged is one that an instruction can meet. -/
  possible : ∀ v ∈ scenes, ∀ event ∈ Notice.log v.reply.notices, event.Possible
  /-- What was logged can be told from its line, an error and the reason of a pause among
  it. -/
  told : ∀ event other : LogEvent, event.Possible → other.Possible →
    event.line = other.line → event = other
  /-- A run that goes to its end is never suspended with a reason. -/
  toCompletion : Scheduler.toCompletion.Silent
  /-- Neither is a run under a budget. -/
  budget : Budget.scheduler.Silent
  /-- Neither is a run with fixed stops. -/
  stops : ∀ stops, (Stops.scheduler stops).Silent

/-- Whatever is done with an engine and a debugging host, the log says what has happened. A
debugging host gives a reason whenever it suspends a run, and no other scheduler does. -/
theorem session_logged {e f : Engine} {h k : Host} {scenes : List Scene}
    (hs : Session e h scenes f k) : FaithfulLog scenes f where
  acts := hs.logged
  ongoing _ _ _ hn := Engine.told_of_endless hn
  possible v hv := (hs.logged v hv).possible
  told _ _ he ho hl := LogEvent.eq_of_line he ho hl
  toCompletion := Scheduler.silent_toCompletion
  budget := Budget.silent_scheduler
  stops := Stops.silent_scheduler

/-- A load and a run that are rejected, and a run that is suspended at a breakpoint and then
ended by a return without a call. -/
theorem session_logged_of_aborted_run :
    ∃ (e f : Engine) (h k : Host) (scenes : List Scene), Session e h scenes f k ∧
      FaithfulLog scenes f ∧
      scenes.map (fun v => (Notice.log v.reply.notices, Notice.lines v.reply.notices)) =
        [([], []),
          ([.engineReset], [⟨.debug, "engine reset", []⟩]),
          ([.engineReset, .programLoaded 0x200 4, .runStarted 4],
            [⟨.debug, "engine reset", []⟩,
              ⟨.debug, "program loaded", [("origin", .natural 512), ("len", .natural 4)]⟩,
              ⟨.debug, "run started", [("len", .natural 4)]⟩]),
          ([.dispatched 0x200 0x60FF, .debuggerPaused 0x202 (.breakpoint 0x202)],
            [⟨.trace, "dispatch", [("pc", .natural 512), ("word", .natural 24831)]⟩,
              ⟨.debug, "debugger paused",
                [("reason", .text "Breakpoint \x7b pc: 514 \x7d"), ("pc", .natural 514)]⟩]),
          ([], []),
          ([.dispatched 0x202 0x00EE, .runAborted 0x202 (.stackUnderflow 0x202)],
            [⟨.trace, "dispatch", [("pc", .natural 514), ("word", .natural 238)]⟩,
              ⟨.warn, "run aborted",
                [("pc", .natural 514), ("err", .text
                  "stack underflow: return at 0x202 with an empty call stack")]⟩]),
          ([], [])] := by
  let e : Engine := .new .standard (Vector.replicate 8 0)
  let h : Host := .new ⟨[0x202], false, none, none⟩ .standard
  let acts : List Act := [.operate (.load [0x60, 0xFF] 0x0FFF),
    .operate (.run (List.replicate 3585 0) 1), .operate (.run [0x60, 0xFF, 0x00, 0xEE] 2),
    .resume, .tell .resume, .resume, .resume]
  have hx : (Session.replay 2 e h acts).isSome = true := by decide +kernel
  obtain ⟨⟨scenes, f, k⟩, hs⟩ := Option.isSome_iff_exists.mp hx
  refine ⟨e, f, h, k, scenes, .of_replay hs, session_logged (.of_replay hs), ?_⟩
  apply Option.some.inj
  calc some (scenes.map fun v => (Notice.log v.reply.notices, Notice.lines v.reply.notices))
    _ = (Session.replay 2 e h acts).map fun (scenes, _, _) => scenes.map fun v =>
        (Notice.log v.reply.notices, Notice.lines v.reply.notices) := by
      rw [hs]
      rfl
    _ = _ := by decide +kernel

end Chip8.Debug
