import Chip8.Proofs.Resumption
import Chip8.Scheduler.Watched

/-!
# Hook calls

Which hooks of a scheduler a resumed run calls, in which order and on which
engines. A complete round is a call before an instruction, one when it has
retired and one at the yield point. A run makes complete rounds, and how it
returns decides what follows the last of them. The calls are those that a
watched scheduler keeps, and watching changes nothing else.
-/

namespace Chip8

variable {σ : Type}

namespace Scheduler

/-- What a scheduler answers to a call of a hook. A run goes on when it has told
that an instruction has retired. -/
def answer (hooks : Scheduler σ) (s : σ) : HookCall → Decision × σ
  | .beforeExec e => hooks.beforeExec e s
  | .retired e record => (.proceed, hooks.retired e record s)
  | .yieldPoint e => hooks.yieldPoint e s

/-- A scheduler is called in order and lets the run go on each time. -/
inductive Proceeds (hooks : Scheduler σ) (s : σ) : List HookCall → σ → Prop
  /-- There was no call. -/
  | nil : Proceeds hooks s [] s
  /-- One more call was made. -/
  | snoc {calls : List HookCall} {c : HookCall} {t u : σ} (h : Proceeds hooks s calls t)
      (hc : hooks.answer t c = (.proceed, u)) : Proceeds hooks s (calls ++ [c]) u

/-- A scheduler that is not called is left as it is. -/
theorem Proceeds.eq_of_nil {hooks : Scheduler σ} {s t : σ} (h : Proceeds hooks s [] t) :
    t = s := by
  generalize hl : ([] : List HookCall) = calls at h
  cases h with
  | nil => rfl
  | snoc h hc => simp at hl

/-- A watched scheduler answers like the other one and keeps the call. -/
theorem answer_of_watched {hooks : Scheduler σ} {s t : Watched σ} {c : HookCall}
    {decision : Decision} (h : hooks.watched.answer s c = (decision, t)) :
    hooks.answer s.inner c = (decision, t.inner) ∧
      t.calls.toList = s.calls.toList ++ [c] := by
  cases c with
  | beforeExec e =>
    cases h
    exact ⟨rfl, Array.toList_push⟩
  | retired e record =>
    cases h
    exact ⟨rfl, Array.toList_push⟩
  | yieldPoint e =>
    cases h
    exact ⟨rfl, Array.toList_push⟩

end Scheduler

namespace Progress

/-- The progress as it is for the scheduler that is watched. -/
def unwatched (p : Progress (Watched σ)) : Progress σ where
  engine := p.engine
  scheduler := p.scheduler.inner
  executed := p.executed
  notices := p.notices

end Progress

/-- The return as it is for the scheduler that is watched. -/
def Resumed.unwatched (r : Resumed (Watched σ)) : Resumed σ where
  toReply := r.toReply
  scheduler := r.scheduler.inner

namespace Progress

variable {hooks : Scheduler σ}

/-- A turn goes as it does when nobody watches. -/
theorem Turn.unwatched {p : Progress (Watched σ)}
    {x : Progress (Watched σ) ⊕ Resumed (Watched σ)} (h : Turn hooks.watched p x) :
    Turn hooks p.unwatched (x.map Progress.unwatched Resumed.unwatched) := by
  cases h with
  | halted hp => exact .halted (p := p.unwatched) hp
  | @refused reason s hp hb =>
    have hs := Scheduler.answer_of_watched (c := .beforeExec p.engine) hb
    cases reason with
    | none => exact .refused (p := p.unwatched) hp hs.1
    | some reason => exact .refused (p := p.unwatched) hp hs.1
  | failed hp hb hf =>
    have hs := Scheduler.answer_of_watched (c := .beforeExec p.engine) hb
    exact .failed (p := p.unwatched) hp hs.1 hf
  | left hp hb hf he =>
    have hs := Scheduler.answer_of_watched (c := .beforeExec p.engine) hb
    exact .left (p := p.unwatched) hp hs.1 hf he
  | @yielded s t reason hp hb hf he hy =>
    have hs := Scheduler.answer_of_watched (c := .beforeExec p.engine) hb
    have ht := Scheduler.answer_of_watched (c := .yieldPoint p.engine.step.engine) hy
    cases reason with
    | none => exact .yielded (p := p.unwatched) hp hs.1 hf he ht.1
    | some reason => exact .yielded (p := p.unwatched) hp hs.1 hf he ht.1
  | went hp hb hf he hy =>
    have hs := Scheduler.answer_of_watched (c := .beforeExec p.engine) hb
    have ht := Scheduler.answer_of_watched (c := .yieldPoint p.engine.step.engine) hy
    exact .went (p := p.unwatched) hp hs.1 hf he ht.1

/-- A run goes as it does when nobody watches. -/
theorem proceed_unwatched (limit : Nat) (p : Progress (Watched σ)) :
    p.unwatched.proceed hooks limit =
      (p.proceed hooks.watched limit).map Resumed.unwatched := by
  induction limit generalizing p with
  | zero => rfl
  | succ limit ih =>
    have ht := (turn_cases hooks.watched p).unwatched.turn_eq
    rw [proceed, proceed, ht]
    cases p.turn hooks.watched with
    | inl q => exact ih q
    | inr r => rfl

end Progress

/-- A resumption goes as it does when nobody watches. -/
theorem Engine.resume_unwatched (hooks : Scheduler σ) (limit : Nat) (e : Engine)
    (s : Watched σ) : e.resume hooks limit s.inner =
      (e.resume hooks.watched limit s).map Resumed.unwatched := by
  unfold resume
  cases hr : e.isRunning with
  | true => exact Progress.proceed_unwatched limit (.start e s)
  | false => rfl

/-- An executed instruction as the hooks around it see it. -/
structure Round where
  /-- The engine before the instruction. -/
  before : Engine
  /-- The record of the instruction. -/
  record : Retired
  /-- The engine after the instruction. -/
  after : Engine

namespace Round

/-- The calls around the instruction. -/
def opening (t : Round) : List HookCall := [.beforeExec t.before, .retired t.after t.record]

/-- The calls of a complete round. -/
def calls (t : Round) : List HookCall := t.opening ++ [.yieldPoint t.after]

/-- What the hooks of a round can rely on. -/
structure Sound (t : Round) : Prop where
  /-- The program counter is in memory before the instruction. -/
  inside : t.before.machine.pastEnd = false
  /-- The record names the address that the program counter had. -/
  address : t.record.address = t.before.machine.pc
  /-- The record names the word that was to be fetched. -/
  word : t.record.word = t.before.machine.fetch
  /-- The record holds the register `VX` as it was. -/
  vx : t.record.vx = t.before.machine.v[t.record.word.x]
  /-- The record holds the register `VY` as it was. -/
  vy : t.record.vy = t.before.machine.v[t.record.word.y]
  /-- The instruction has been executed in between. -/
  stepped : t.before.step.engine = t.after ∧ t.before.step.value = .ok t.record
  /-- The record is that of the instruction executed last. -/
  last : t.after.lastRetired = some t.record
  /-- The run is still in progress. -/
  running : t.after.isRunning = true

end Round

/-- Complete rounds, each of which begins where the one before it has ended, with
the program counter in memory. -/
inductive Rounds (e : Engine) : List Round → Engine → Prop
  /-- There was no round. -/
  | nil : Rounds e [] e
  /-- One more round was completed. -/
  | snoc {rounds : List Round} {t : Round} (h : Rounds e rounds t.before) (ht : t.Sound)
      (hp : t.after.machine.pastEnd = false) : Rounds e (rounds ++ [t]) t.after

/-- The record of the instruction executed last, once some rounds were made on an
engine. -/
def lastRecord (e : Engine) (rounds : List Round) : Option Retired :=
  (rounds.getLast?.map Round.record).or e.lastRetired

namespace Rounds

variable {e f : Engine} {rounds : List Round}

/-- The engine knows the record of the last round. -/
theorem lastRetired_eq (h : Rounds e rounds f) : f.lastRetired = lastRecord e rounds := by
  cases h with
  | nil => rfl
  | @snoc rounds t h ht hp =>
    rw [ht.last, lastRecord, List.getLast?_concat]
    rfl

/-- A run in progress stays so. -/
theorem isRunning (h : Rounds e rounds f) (hr : e.isRunning = true) : f.isRunning = true := by
  cases h with
  | nil => exact hr
  | snoc h ht hp => exact ht.running

/-- No round ends out of memory. -/
theorem eq_nil (h : Rounds e rounds f) (hp : f.machine.pastEnd = true) :
    rounds = [] ∧ f = e := by
  cases h with
  | nil => exact ⟨rfl, rfl⟩
  | snoc h ht hi => exact absurd (hi.symm.trans hp) Bool.false_ne_true

end Rounds

/-- The round of the instruction at the program counter. -/
def Engine.round (e : Engine) : Round := ⟨e, e.core.upcoming, e.step.engine⟩

/-- The hooks can rely on a round in a run in progress, when its instruction
retires. -/
theorem Engine.round_sound {e : Engine} (hr : e.isRunning = true)
    (hp : e.machine.pastEnd = false) (hf : e.fault? = none) : e.round.Sound where
  inside := hp
  address := rfl
  word := rfl
  vx := rfl
  vy := rfl
  stepped := ⟨rfl, value_of_retires hf⟩
  last := by
    rw [round, step_of_retires hf]
  running := by
    rw [isRunning] at hr ⊢
    rw [round, step_of_retires hf]
    exact hr

/-- The hook calls of a resumption that returns, in order. -/
inductive HookProtocol (hooks : Scheduler σ) (s : σ) (e : Engine) :
    List HookCall → Resumed σ → Prop
  /-- There is no run in progress, and no hook is called. -/
  | idle {r : Resumed σ} (hr : e.isRunning = false) (hv : r.value = .ok .notRunning)
      (hl : r.engine.lastRetired = e.lastRetired) (hs : r.scheduler = s) :
      HookProtocol hooks s e [] r
  /-- The program counter was out of memory already, and no hook is called. -/
  | late {r : Resumed σ} (hr : e.isRunning = true) (hp : e.machine.pastEnd = true)
      (hv : r.value = .ok (.halted 0)) (hl : r.engine.lastRetired = e.lastRetired)
      (hs : r.scheduler = s) : HookProtocol hooks s e [] r
  /-- The scheduler suspends the run at the yield point of a round. -/
  | yielded {r : Resumed σ} {rounds : List Round} {t : Round} {u : σ}
      {reason : Option Debug.PauseReason} (hr : e.isRunning = true)
      (h : Rounds e (rounds ++ [t]) r.engine) (hv : r.value = .ok (.yielded (rounds.length + 1)))
      (hs : hooks.Proceeds s (rounds.flatMap Round.calls ++ t.opening) u)
      (hy : hooks.yieldPoint r.engine u = (.suspend reason, r.scheduler))
      (hl : r.engine.lastRetired = some t.record) :
      HookProtocol hooks s e ((rounds ++ [t]).flatMap Round.calls) r
  /-- The scheduler suspends the run before an instruction. -/
  | refused {r : Resumed σ} {rounds : List Round} {u : σ} {reason : Option Debug.PauseReason}
      (hr : e.isRunning = true) (h : Rounds e rounds r.engine)
      (hp : r.engine.machine.pastEnd = false) (hv : r.value = .ok (.yielded rounds.length))
      (hs : hooks.Proceeds s (rounds.flatMap Round.calls) u)
      (hb : hooks.beforeExec r.engine u = (.suspend reason, r.scheduler))
      (hl : r.engine.lastRetired = lastRecord e rounds) :
      HookProtocol hooks s e (rounds.flatMap Round.calls ++ [.beforeExec r.engine]) r
  /-- An instruction fails. -/
  | failed {r : Resumed σ} {rounds : List Round} {f : Engine} {error : EngineError}
      (hr : e.isRunning = true) (h : Rounds e rounds f) (hp : f.machine.pastEnd = false)
      (hf : f.step.value = .error error) (hv : r.value = .error error)
      (hs : hooks.Proceeds s (rounds.flatMap Round.calls ++ [.beforeExec f]) r.scheduler)
      (hl : r.engine.lastRetired = lastRecord e rounds) :
      HookProtocol hooks s e (rounds.flatMap Round.calls ++ [.beforeExec f]) r
  /-- An instruction moves the program counter out of memory. -/
  | halted {r : Resumed σ} {rounds : List Round} {t : Round} (hr : e.isRunning = true)
      (h : Rounds e rounds t.before) (ht : t.Sound) (hp : t.after.machine.pastEnd = true)
      (hv : r.value = .ok (.halted (rounds.length + 1)))
      (hs : hooks.Proceeds s (rounds.flatMap Round.calls ++ t.opening) r.scheduler)
      (hl : r.engine.lastRetired = some t.record) :
      HookProtocol hooks s e (rounds.flatMap Round.calls ++ t.opening) r

/-- A scheduler that let the run go on up to an instruction and before it, lets it
go on when the instruction has retired. -/
theorem Scheduler.Proceeds.opening {hooks : Scheduler σ} {s u v : σ} {calls : List HookCall}
    {t : Round} (h : hooks.Proceeds s calls u)
    (hb : hooks.beforeExec t.before u = (.proceed, v)) :
    hooks.Proceeds s (calls ++ t.opening) (hooks.retired t.after t.record v) := by
  have hs := (h.snoc (c := .beforeExec t.before) hb).snoc
    (c := .retired t.after t.record) rfl
  rw [List.append_assoc] at hs
  exact hs

namespace Progress

variable {hooks : Scheduler σ} {s : σ} {e : Engine} {rounds : List Round} {t : Round}
  {p q : Progress (Watched σ)}

/-- A watched run that has made complete rounds. -/
structure Between (hooks : Scheduler σ) (s : σ) (e : Engine) (rounds : List Round)
    (p : Progress (Watched σ)) : Prop where
  /-- The rounds have led to the engine. -/
  made : Rounds e rounds p.engine
  /-- One instruction was executed in each round. -/
  executed : p.executed = rounds.length
  /-- The hooks were called in the rounds only. -/
  calls : p.scheduler.calls.toList = rounds.flatMap Round.calls
  /-- The scheduler has let the run go on. -/
  proceeds : hooks.Proceeds s (rounds.flatMap Round.calls) p.scheduler.inner

/-- A watched run that has made complete rounds and has executed the instruction
of a further one. -/
structure Opened (hooks : Scheduler σ) (s : σ) (e : Engine) (rounds : List Round) (t : Round)
    (p : Progress (Watched σ)) : Prop where
  /-- The complete rounds have led to the further one. -/
  made : Rounds e rounds t.before
  /-- The hooks could rely on the further round. -/
  sound : t.Sound
  /-- The further round has led to the engine. -/
  engine : p.engine = t.after
  /-- One instruction was executed in each round. -/
  executed : p.executed = rounds.length + 1
  /-- The hooks were called in the rounds only. -/
  calls : p.scheduler.calls.toList = rounds.flatMap Round.calls ++ t.opening
  /-- The scheduler has let the run go on. -/
  proceeds : hooks.Proceeds s (rounds.flatMap Round.calls ++ t.opening) p.scheduler.inner

/-- At first no hook was called. -/
theorem between_start (hooks : Scheduler σ) (s : σ) (e : Engine) :
    Between hooks s e [] (start e ⟨s, #[]⟩) := ⟨.nil, rfl, rfl, .nil⟩

/-- An instruction that retires opens a further round. -/
theorem Between.opened (h : Between hooks s e rounds p) (hr : e.isRunning = true)
    (hp : p.engine.machine.pastEnd = false) (hf : p.engine.fault? = none) {u : Watched σ}
    (hb : hooks.watched.beforeExec p.engine p.scheduler = (.proceed, u)) :
    Opened hooks s e rounds p.engine.round (p.retire hooks.watched u) := by
  obtain ⟨ha, hc⟩ := Scheduler.answer_of_watched (c := .beforeExec p.engine) hb
  refine ⟨h.made, Engine.round_sound (h.made.isRunning hr) hp hf, rfl, ?_, ?_, ?_⟩
  · show p.executed + 1 = rounds.length + 1
    rw [h.executed]
  · show (u.calls.push _).toList = _
    rw [Array.toList_push, hc, h.calls, List.append_assoc]
    rfl
  · exact h.proceeds.opening (t := p.engine.round) ha

/-- The call at the yield point completes the calls of a round. -/
theorem Opened.calls_eq (h : Opened hooks s e rounds t p) :
    rounds.flatMap Round.calls ++ t.opening ++ [.yieldPoint p.engine] =
      (rounds ++ [t]).flatMap Round.calls := by
  rw [h.engine, List.flatMap_append, List.flatMap_singleton, Round.calls, List.append_assoc]

/-- In memory a round can be completed. -/
theorem Opened.complete (h : Opened hooks s e rounds t p)
    (hp : p.engine.machine.pastEnd = false) : Rounds e (rounds ++ [t]) p.engine := by
  rw [h.engine] at hp ⊢
  exact h.made.snoc h.sound hp

/-- A round is completed at its yield point. -/
theorem Opened.closed (h : Opened hooks s e rounds t p)
    (hp : p.engine.machine.pastEnd = false) {u : Watched σ}
    (hy : hooks.watched.yieldPoint p.engine p.scheduler = (.proceed, u)) :
    Between hooks s e (rounds ++ [t]) { p with scheduler := u } := by
  obtain ⟨ha, hc⟩ := Scheduler.answer_of_watched (c := .yieldPoint p.engine) hy
  refine ⟨h.complete hp, ?_, ?_, ?_⟩
  · show p.executed = (rounds ++ [t]).length
    rw [h.executed, List.length_append, List.length_singleton]
  · show u.calls.toList = _
    rw [hc, h.calls, h.calls_eq]
  · rw [← h.calls_eq]
    exact h.proceeds.snoc ha

/-- A watched run makes complete rounds, and the last one of them may have moved
the program counter out of memory instead. -/
inductive Heard (hooks : Scheduler σ) (s : σ) (e : Engine) (p : Progress (Watched σ)) : Prop
  /-- All rounds are complete. -/
  | between {rounds : List Round} (h : Between hooks s e rounds p)
  /-- The last round was not completed. -/
  | cut {rounds : List Round} {t : Round} (h : Opened hooks s e rounds t p)
      (hp : p.engine.machine.pastEnd = true)

/-- A turn of a watched run makes one more round. -/
theorem Heard.turn (h : Heard hooks s e p) (hr : e.isRunning = true)
    (ht : Turn hooks.watched p (.inl q)) : Heard hooks s e q := by
  cases h with
  | cut h hi =>
    cases ht with
    | left hp hb hf he => exact absurd (hp.symm.trans hi) Bool.false_ne_true
    | went hp hb hf he hy => exact absurd (hp.symm.trans hi) Bool.false_ne_true
  | between h =>
    cases ht with
    | left hp hb hf he => exact .cut (h.opened hr hp hf hb) he
    | went hp hb hf he hy => exact .between ((h.opened hr hp hf hb).closed he hy)

/-- A watched run makes rounds for as long as it lasts. -/
theorem Heard.reaches (h : Heard hooks s e p) (hr : e.isRunning = true)
    (hq : Reaches hooks.watched p q) : Heard hooks s e q :=
  hq.keeps (fun h ht => h.turn hr ht) h

/-- A further round that is not completed moves the program counter out of memory,
and the run is over. -/
theorem Opened.halt (h : Opened hooks s e rounds t p) (hr : e.isRunning = true)
    (hp : p.engine.machine.pastEnd = true) :
    HookProtocol hooks s e p.scheduler.calls.toList p.halt.unwatched := by
  have hv : p.halt.unwatched.value = .ok (.halted (rounds.length + 1)) := by
    rw [← h.executed]
    rfl
  have hl : p.halt.unwatched.engine.lastRetired = some t.record := by
    show p.engine.lastRetired = some t.record
    rw [h.engine, h.sound.last]
  rw [h.calls]
  rw [h.engine] at hp
  exact .halted hr h.made h.sound hp hv h.proceeds hl

/-- A run that has made complete rounds is over only if it was so from the
first. -/
theorem Between.halt (h : Between hooks s e rounds p) (hr : e.isRunning = true)
    (hp : p.engine.machine.pastEnd = true) :
    HookProtocol hooks s e p.scheduler.calls.toList p.halt.unwatched := by
  obtain ⟨hn, he⟩ := h.made.eq_nil hp
  have hc := h.calls
  have hx := h.executed
  have hs := h.proceeds
  rw [hn] at hc hx hs
  have hv : p.halt.unwatched.value = .ok (.halted 0) := by
    show Except.ok (RunExit.halted p.executed) = _
    rw [hx]
    rfl
  have hl : p.halt.unwatched.engine.lastRetired = e.lastRetired := by
    show p.engine.lastRetired = e.lastRetired
    rw [he]
  rw [hc]
  rw [he] at hp
  exact .late hr hp hv hl hs.eq_of_nil

/-- The scheduler suspends a run that has made complete rounds. -/
theorem Between.refused (h : Between hooks s e rounds p) (hr : e.isRunning = true)
    (hp : p.engine.machine.pastEnd = false) {reason : Option Debug.PauseReason} {u : Watched σ}
    (hb : hooks.watched.beforeExec p.engine p.scheduler = (.suspend reason, u)) :
    HookProtocol hooks s e u.calls.toList
      (({ p with scheduler := u }.suspend reason).unwatched) := by
  obtain ⟨ha, hc⟩ := Scheduler.answer_of_watched (c := .beforeExec p.engine) hb
  rw [hc, h.calls]
  let q : Progress (Watched σ) := { p with scheduler := u }
  have hv : (q.suspend reason).unwatched.value = .ok (.yielded rounds.length) := by
    rw [← h.executed]
    rfl
  exact .refused (r := (q.suspend reason).unwatched) hr h.made hp hv h.proceeds ha
    h.made.lastRetired_eq

/-- An instruction fails after complete rounds. -/
theorem Between.failed (h : Between hooks s e rounds p) (hr : e.isRunning = true)
    (hp : p.engine.machine.pastEnd = false) {error : EngineError}
    (hf : p.engine.fault? = some error) {u : Watched σ}
    (hb : hooks.watched.beforeExec p.engine p.scheduler = (.proceed, u)) :
    HookProtocol hooks s e u.calls.toList ((p.fail u).abort error).unwatched := by
  obtain ⟨ha, hc⟩ := Scheduler.answer_of_watched (c := .beforeExec p.engine) hb
  have hl : ((p.fail u).abort error).unwatched.engine.lastRetired = lastRecord e rounds := by
    show p.engine.step.engine.lastRetired = lastRecord e rounds
    rw [Engine.step_of_fails hf, h.made.lastRetired_eq]
  rw [hc, h.calls]
  exact .failed hr h.made hp (Engine.value_of_fails hf) rfl (h.proceeds.snoc ha) hl

/-- The scheduler suspends a run at the yield point of a further round. -/
theorem Opened.yielded (h : Opened hooks s e rounds t p) (hr : e.isRunning = true)
    (hp : p.engine.machine.pastEnd = false) {reason : Option Debug.PauseReason} {u : Watched σ}
    (hy : hooks.watched.yieldPoint p.engine p.scheduler = (.suspend reason, u)) :
    HookProtocol hooks s e u.calls.toList
      (({ p with scheduler := u }.suspend reason).unwatched) := by
  obtain ⟨ha, hc⟩ := Scheduler.answer_of_watched (c := .yieldPoint p.engine) hy
  rw [hc, h.calls, h.calls_eq]
  refine .yielded hr (h.complete hp) ?_ h.proceeds ha ?_
  · show Except.ok (RunExit.yielded p.executed) = _
    rw [h.executed]
  · show p.engine.lastRetired = some t.record
    rw [h.engine, h.sound.last]

/-- The last turn of a watched run ends its hook calls. -/
theorem Heard.protocol (h : Heard hooks s e p) (hr : e.isRunning = true)
    {r : Resumed (Watched σ)} (ht : Turn hooks.watched p (.inr r)) :
    HookProtocol hooks s e r.scheduler.calls.toList r.unwatched := by
  cases h with
  | cut h hi =>
    cases ht with
    | halted hp => exact h.halt hr hp
    | refused hp hb => exact absurd (hp.symm.trans hi) Bool.false_ne_true
    | failed hp hb hf => exact absurd (hp.symm.trans hi) Bool.false_ne_true
    | yielded hp hb hf he hy => exact absurd (hp.symm.trans hi) Bool.false_ne_true
  | between h =>
    cases ht with
    | halted hp => exact h.halt hr hp
    | refused hp hb => exact h.refused hr hp hb
    | failed hp hb hf => exact h.failed hr hp hf hb
    | yielded hp hb hf he hy => exact (h.opened hr hp hf hb).yielded hr he hy

end Progress

/-- A watched resumption that returns has called its hooks as it should. -/
theorem Engine.protocol_of_watched {hooks : Scheduler σ} {limit : Nat} {e : Engine} {s : σ}
    {r : Resumed (Watched σ)} (h : e.resume hooks.watched limit ⟨s, #[]⟩ = some r) :
    HookProtocol hooks s e r.scheduler.calls.toList r.unwatched := by
  rcases resume_cases h with ⟨hr, q, hq, ht⟩ | ⟨hr, he⟩
  · have hs := Progress.Heard.between (Progress.between_start hooks s e)
    exact (hs.reaches hr hq).protocol hr ht
  · rw [he]
    exact .idle hr rfl rfl rfl

/-- A watched resumption that has not returned within a limit has called its hooks
in as many rounds. -/
theorem Engine.heard_of_watched {hooks : Scheduler σ} {limit : Nat} {e : Engine} {s : σ}
    (h : e.resume hooks.watched limit ⟨s, #[]⟩ = none) :
    ∃ p, Progress.Reaches hooks.watched (.start e ⟨s, #[]⟩) p ∧ p.executed = limit ∧
      Progress.Heard hooks s e p := by
  obtain ⟨hr, q, hq, hn⟩ := reaches_of_resume h
  have hs := Progress.Heard.between (Progress.between_start hooks s e)
  exact ⟨q, hq, hn, hs.reaches hr hq⟩

/-- A resumption that returns does so as well when its hook calls are watched, and they go
as they should. -/
theorem Engine.resume_watched {hooks : Scheduler σ} {limit : Nat} {e : Engine} {s : σ}
    {r : Resumed σ} (h : e.resume hooks limit s = some r) :
    ∃ made, e.resume hooks.watched limit ⟨s, #[]⟩ = some ⟨r.toReply, ⟨r.scheduler, made⟩⟩ ∧
      HookProtocol hooks s e made.toList r := by
  have hu := resume_unwatched hooks limit e ⟨s, #[]⟩
  rw [h] at hu
  obtain ⟨w, hw, he⟩ := Option.map_eq_some_iff.mp hu.symm
  rw [← he]
  exact ⟨w.scheduler.calls, hw, protocol_of_watched hw⟩

/-- Whatever the scheduler, a resumption calls its hooks in complete rounds, and
the calls after the last of them are told by how it returns. They are the calls
that are kept when the scheduler is watched, and being watched changes nothing
else. A resumption that does not return makes rounds forever. -/
theorem hook_protocol (hooks : Scheduler σ) (limit : Nat) (e : Engine) (s : σ) :
    (∀ r, e.resume hooks limit s = some r → ∃ calls,
      e.resume hooks.watched limit ⟨s, #[]⟩ = some ⟨r.toReply, ⟨r.scheduler, calls⟩⟩ ∧
        HookProtocol hooks s e calls.toList r) ∧
    (e.resume hooks limit s = none → ∃ p,
      Progress.Reaches hooks.watched (.start e ⟨s, #[]⟩) p ∧ p.executed = limit ∧
        Progress.Heard hooks s e p) := by
  have hu := Engine.resume_unwatched hooks limit e ⟨s, #[]⟩
  constructor
  · intro r h
    rw [h] at hu
    obtain ⟨w, hw, he⟩ := Option.map_eq_some_iff.mp hu.symm
    rw [← he]
    exact ⟨w.scheduler.calls, hw, Engine.protocol_of_watched hw⟩
  · intro h
    rw [h] at hu
    exact Engine.heard_of_watched (Option.map_eq_none_iff.mp hu.symm)

/-- A run of two instructions, the second of which leaves memory, makes one
complete round and the calls around an instruction after it. -/
theorem hook_protocol_of_two_instructions :
    ∃ (e : Engine) (r : Resumed Unit) (calls : Array HookCall),
      e.resume .toCompletion 3 () = some r ∧
      e.resume (Scheduler.watched .toCompletion) 3 ⟨(), #[]⟩ =
        some ⟨r.toReply, ⟨r.scheduler, calls⟩⟩ ∧
      HookProtocol .toCompletion () e calls.toList r ∧
      r.value.toOption = some (.halted 2) ∧ calls.size = 5 := by
  let e : Engine :=
    ((Engine.new .standard (Vector.replicate 8 0)).run [0x60, 0xFF, 0xBF, 0xFF] 1).engine
  have hs : (e.resume .toCompletion 3 ()).map (fun r => r.value.toOption) =
      some (some (.halted 2)) := by decide +kernel
  have hw : (e.resume (Scheduler.watched .toCompletion) 3 ⟨(), #[]⟩).map
      (fun r => r.scheduler.calls.size) = some 5 := by decide +kernel
  obtain ⟨r, hr, hv⟩ := Option.map_eq_some_iff.mp hs
  obtain ⟨calls, hc, hp⟩ := (hook_protocol .toCompletion 3 e ()).1 r hr
  rw [hc] at hw
  exact ⟨e, r, calls, hr, hc, hp, hv, Option.some.inj hw⟩

end Chip8
