import Chip8.Proofs.Parking
import Chip8.Proofs.Slicing

/-!
# Step requests

A request for steps is counted down at yield points. An instruction that leads the program
counter out of memory ends its run and comes to none, and a request outlives the run. So a
debugger that announces the end of a request has let as many instructions be executed as
were asked for, and one more for each run that was ended in this way since.
-/

namespace Chip8.Debug

namespace Debugger

variable {d : Debugger} {count retired departed : Nat}

/-- If a request for a number of steps is in force, then at least one step is left of it,
and the steps that are not left are the instructions that have retired, but for those that
have led the program counter out of memory. -/
def Awaits (d : Debugger) (count retired departed : Nat) : Prop :=
  ∀ left, d.stepsLeft = some left → 1 ≤ left ∧ retired + left = count + departed

/-- Right after a request all of its steps are left, and at least one. -/
theorem awaits_requestSteps (d : Debugger) (count : Nat) :
    (d.requestSteps count).Awaits (max count 1) 0 0 := by
  intro left hl
  have hm : max count 1 = left := Option.some.inj hl
  omega

/-- An instruction that leads the program counter out of memory is not counted. -/
theorem Awaits.depart (h : d.Awaits count retired departed) :
    d.Awaits count (retired + 1) (departed + 1) := by
  intro left hl
  have hw := h left hl
  omega

/-- Judging an instruction counts nothing. -/
theorem Awaits.beforeExec (h : d.Awaits count retired departed) (pc : UInt16) :
    (d.beforeExec pc).2.Awaits count retired departed := by
  unfold Debugger.beforeExec
  split
  · exact h
  · split
    · intro left hl
      cases hl
    · exact h

/-- Judging an instruction is not how a request comes to its end. -/
theorem beforeExec_ne_stepsDone (d : Debugger) (pc : UInt16) :
    (d.beforeExec pc).1 ≠ some .stepsDone := by
  unfold Debugger.beforeExec
  split
  · simp
  · split
    · simp
    · simp

/-- An instruction is counted at the yield point behind it. The last one that was asked
for ends the request. -/
theorem Awaits.afterExec (h : d.Awaits count retired departed) (pc : UInt16) :
    (d.afterExec pc).2.Awaits count (retired + 1) departed ∧
      ((d.afterExec pc).1 = some .stepsDone → retired + 1 = count + departed) := by
  unfold Debugger.afterExec
  cases hs : d.stepsLeft with
  | none =>
    refine ⟨?_, fun hd => by cases hd⟩
    intro left hl
    rw [hs] at hl
    cases hl
  | some left =>
    have hw := h left hs
    by_cases hn : 0 < left - 1
    · simp only [if_pos hn]
      refine ⟨?_, fun hd => by cases hd⟩
      intro other ho
      have he : left - 1 = other := Option.some.inj ho
      omega
    · simp only [if_neg hn]
      refine ⟨?_, ?_⟩
      · intro other ho
        cases ho
      · intro _
        omega

end Debugger

namespace Host

variable {h k : Host} {e : Engine} {count retired departed : Nat}

/-- A host that suspends a run keeps the reason and the debugger that gave it. -/
theorem of_follow_suspend {x : Option PauseReason × Debugger} {reason : Option PauseReason}
    (hf : h.follow x = (.suspend reason, k)) : k.debugger = x.2 ∧ k.lastPause = x.1 := by
  rcases x with ⟨_ | cause, d⟩
  · cases hf
  · cases hf
    exact ⟨rfl, rfl⟩

/-- Judging an instruction counts nothing. -/
theorem awaits_of_beforeExec {decision : Decision}
    (hb : scheduler.beforeExec e h = (decision, k))
    (hw : h.debugger.Awaits count retired departed) :
    k.debugger.Awaits count retired departed := by
  obtain ⟨hk, _⟩ := of_follow_eq (x := h.debugger.beforeExec e.machine.pc) hb
  rw [hk]
  exact hw.beforeExec e.machine.pc

/-- An instruction that is refused is not the end of a request. -/
theorem lastPause_of_beforeExec {reason : Option PauseReason}
    (hb : scheduler.beforeExec e h = (.suspend reason, k)) : k.lastPause ≠ some .stepsDone := by
  obtain ⟨_, hl⟩ := of_follow_suspend (x := h.debugger.beforeExec e.machine.pc) hb
  rw [hl]
  exact Debugger.beforeExec_ne_stepsDone h.debugger e.machine.pc

/-- The instruction before a yield point is counted there. -/
theorem awaits_of_yieldPoint {decision : Decision}
    (hy : scheduler.yieldPoint e h = (decision, k))
    (hw : h.debugger.Awaits count retired departed) :
    k.debugger.Awaits count (retired + 1) departed := by
  obtain ⟨hk, _⟩ := of_follow_eq (x := h.debugger.afterExec e.machine.pc) hy
  rw [hk]
  exact (hw.afterExec e.machine.pc).1

/-- Where a request ends, all of its steps have been taken. -/
theorem retired_of_yieldPoint {reason : Option PauseReason}
    (hy : scheduler.yieldPoint e h = (.suspend reason, k))
    (hw : h.debugger.Awaits count retired departed) (hl : k.lastPause = some .stepsDone) :
    retired + 1 = count + departed := by
  obtain ⟨_, hx⟩ := of_follow_suspend (x := h.debugger.afterExec e.machine.pc) hy
  rw [hx] at hl
  exact (hw.afterExec e.machine.pc).2 hl

end Host

end Chip8.Debug

namespace Chip8.Progress

variable {p q : Progress Debug.Host} {count retired departed : Nat}

/-- How many instructions of a run so far have led the program counter out of memory. -/
def departures (p : Progress Debug.Host) : Nat :=
  if p.engine.machine.pastEnd then min p.executed 1 else 0

/-- The program counter is in memory. -/
theorem departures_of_inside (hp : p.engine.machine.pastEnd = false) : p.departures = 0 := by
  rw [departures, hp, if_neg Bool.false_ne_true]

/-- The program counter is out of memory. -/
theorem departures_of_pastEnd (hp : p.engine.machine.pastEnd = true) :
    p.departures = min p.executed 1 := if_pos hp

/-- A run under a debugger that has counted what has retired before and since the run was
resumed. -/
def Awaits (p : Progress Debug.Host) (count retired departed : Nat) : Prop :=
  p.scheduler.debugger.Awaits count (retired + p.executed) (departed + p.departures)

/-- Nothing has been executed at first. -/
theorem awaits_start {h : Debug.Host} (hw : h.debugger.Awaits count retired departed)
    (e : Engine) : (start e h).Awaits count retired departed := by
  have hz : (start e h).departures = 0 := by
    unfold departures
    split
    · rfl
    · rfl
  rw [Awaits, hz]
  exact hw

/-- A turn that does not end the run executes an instruction, which is counted unless it
leads the program counter out of memory. -/
theorem Awaits.turn (hw : p.Awaits count retired departed)
    (ht : Turn Debug.Host.scheduler p (.inl q)) : q.Awaits count retired departed := by
  cases ht with
  | @left s hp hb hf he =>
    -- There is no yield point out of memory, so the debugger does not hear of the instruction.
    rw [Awaits, departures_of_inside hp] at hw
    have hq : (p.retire Debug.Host.scheduler s).engine.machine.pastEnd = true := he
    have ho : (p.retire Debug.Host.scheduler s).departures = 1 := by
      rw [departures_of_pastEnd hq]
      exact Nat.min_eq_right (Nat.le_add_left 1 p.executed)
    rw [Awaits, ho]
    exact (Debug.Host.awaits_of_beforeExec hb hw).depart
  | @went s t hp hb hf he hy =>
    have hq : (p.retire Debug.Host.scheduler s).engine.machine.pastEnd = false := he
    have ho : { p.retire Debug.Host.scheduler s with scheduler := t }.departures = 0 :=
      departures_of_inside hq
    rw [Awaits, departures_of_inside hp] at hw
    rw [Awaits, ho]
    have hj := Debug.Host.awaits_of_beforeExec hb hw
    exact Debug.Host.awaits_of_yieldPoint hy hj

/-- At every turn the debugger has counted what has retired. -/
theorem Awaits.reaches (hw : p.Awaits count retired departed)
    (hr : Reaches Debug.Host.scheduler p q) : q.Awaits count retired departed :=
  hr.keeps Awaits.turn hw

end Chip8.Progress

namespace Chip8.Debug

/-- How many instructions of a resumption have led the program counter out of memory, by
its answer. If the run was over before its first instruction, none has. -/
def departuresOf : Except EngineError Answer → Nat
  | .ok (.returned (.halted executed)) => min executed 1
  | _ => 0

/-- A resumption that has answered and left a host, under a request for steps: the debugger
has counted what has retired, and if it announces the end of the request then all of its
steps have been taken. -/
structure Served (count retired departed : Nat) (r : Resumed Host) : Prop where
  /-- What is left of the request. -/
  awaits : r.scheduler.debugger.Awaits count (retired + r.toReply.retirements)
    (departed + departuresOf (r.value.map .returned))
  /-- Nothing is left of it. -/
  done : ∀ n, r.value.map Answer.returned = .ok (.returned (.yielded n)) →
    r.scheduler.lastPause = some .stepsDone →
      retired + r.toReply.retirements = count + departed

variable {count retired departed : Nat}

/-- The last turn of a run serves the request. -/
theorem served_of_turn {e : Engine} {p : Progress Host} {r : Resumed Host}
    (hr : e.isRunning = true) (hf : Progress.Follows e p) (hw : p.Awaits count retired departed)
    (ht : Progress.Turn Host.scheduler p (.inr r)) : Served count retired departed r := by
  cases ht with
  | halted hp =>
    have hn : p.halt.toReply.retirements = p.executed := (hf.halt hr hp).retirements_eq rfl
    rw [Progress.Awaits, Progress.departures_of_pastEnd hp] at hw
    refine ⟨?_, fun n hv => by cases hv⟩
    rw [hn]
    exact hw
  | @refused reason s hp hb =>
    have hn := ((hf.schedule s).suspend hr hp reason).retirements_eq rfl
    rw [Progress.Awaits, Progress.departures_of_inside hp] at hw
    refine ⟨?_, fun n hv hl => absurd hl (Host.lastPause_of_beforeExec hb)⟩
    rw [hn]
    exact Host.awaits_of_beforeExec hb hw
  | @failed s error hp hb he =>
    have hn : ((p.fail s).abort error).toReply.retirements = p.executed := by
      rw [hf.abort_toReply]
      exact Engine.retirements_error e _ _ (Engine.countP_ending _ rfl (some error)) _
    rw [Progress.Awaits, Progress.departures_of_inside hp] at hw
    refine ⟨?_, fun n hv => by cases hv⟩
    rw [hn]
    exact Host.awaits_of_beforeExec hb hw
  | @yielded s t reason hp hb he hi hy =>
    have ht : Progress.Follows e (p.retire Host.scheduler s) := hf.retire hp he s
    have hn := ((ht.schedule t).suspend hr hi reason).retirements_eq rfl
    rw [Progress.Awaits, Progress.departures_of_inside hp] at hw
    have hj := Host.awaits_of_beforeExec hb hw
    refine ⟨?_, fun n hv hl => ?_⟩
    · rw [hn]
      exact Host.awaits_of_yieldPoint hy hj
    · rw [hn]
      exact Host.retired_of_yieldPoint hy hj hl

/-- A resumption under the debugging host serves the request that is in force. -/
theorem served_of_resume {limit : Nat} {e : Engine} {h : Host} {r : Resumed Host}
    (hr : e.resume Host.scheduler limit h = some r)
    (hw : h.debugger.Awaits count retired departed) : Served count retired departed r := by
  rcases Engine.resume_cases hr with ⟨hi, q, hq, ht⟩ | ⟨_, he⟩
  · have hf := (Progress.follows_start e h).reaches hq
    exact served_of_turn hi hf ((Progress.awaits_start hw e).reaches hq) ht
  · rw [he]
    exact ⟨hw, fun n hv => by cases hv⟩

/-- Whether an act tells the debugger how far to run. A breakpoint does not: it only says
where to stop earlier. -/
def Act.steers : Act → Bool
  | .tell (.setBreakpoint _) => false
  | .tell _ => true
  | _ => false

/-- How many instructions have retired in a scene in which the run is resumed. -/
def Scene.retirements (v : Scene) : Nat :=
  match v.act with
  | .resume => v.reply.retirements
  | _ => 0

/-- How many instructions of a scene in which the run is resumed have led the program
counter out of memory. -/
def Scene.departures (v : Scene) : Nat :=
  match v.act with
  | .resume => departuresOf v.reply.value
  | _ => 0

/-- How many instructions have retired in a session while runs were resumed. -/
def retirements (scenes : List Scene) : Nat := (scenes.map Scene.retirements).sum

/-- How many instructions of a session have led the program counter out of memory while
runs were resumed. -/
def departures (scenes : List Scene) : Nat := (scenes.map Scene.departures).sum

/-- An act that does not steer the debugger serves the request that is in force. -/
theorem Scene.Happens.awaits {v : Scene} (hv : v.Happens) (hq : v.act.steers = false)
    (hw : v.host.debugger.Awaits count retired departed) :
    v.left.debugger.Awaits count (retired + v.retirements) (departed + v.departures) := by
  rcases v with ⟨e, h, act, reply, left⟩
  have hd : act.Done e h reply left := hv.done
  cases hd with
  | @told command =>
    cases command with
    | setBreakpoint pc => exact hw
    | pause => cases hq
    | resume => cases hq
    | requestSteps count => cases hq
  | @resumed limit r hr =>
    have hs := (served_of_resume hr hw).awaits
    rw [← Reply.retirements_answer r.toReply .returned] at hs
    exact hs
  | stepped =>
    rw [← h.debugger_step e] at hw
    exact hw
  | drained => exact hw
  | operated hp => exact hw

/-- What has retired in one more scene is added. -/
theorem retirements_snoc (scenes : List Scene) (v : Scene) :
    retirements (scenes ++ [v]) = retirements scenes + v.retirements := by
  simp [retirements]

/-- The departures of one more scene are added. -/
theorem departures_snoc (scenes : List Scene) (v : Scene) :
    departures (scenes ++ [v]) = departures scenes + v.departures := by
  simp [departures]

/-- For as long as nobody steers the debugger, it has counted all instructions of a session
but those that led the program counter out of memory. -/
theorem Session.awaits {e f : Engine} {h k : Host} {scenes : List Scene}
    (hs : Session e h scenes f k) (hq : ∀ v ∈ scenes, v.act.steers = false)
    (hw : h.debugger.Awaits count retired departed) :
    k.debugger.Awaits count (retired + retirements scenes) (departed + departures scenes) := by
  induction hs with
  | nil => exact hw
  | @snoc scenes v hs hv ih =>
    have hl := ih fun w hm => hq w (List.mem_append_left [v] hm)
    have hn := hq v (List.mem_append_right scenes (List.mem_singleton.mpr rfl))
    have hj := hv.awaits hn hl
    rw [Nat.add_assoc, Nat.add_assoc] at hj
    rw [retirements_snoc, departures_snoc]
    exact hj

/-- A resumption that announces the end of a request has taken the steps that were left
of it. -/
theorem Scene.Happens.retired_of_stepsDone {v : Scene} (hv : v.Happens) (ha : v.act = .resume)
    {n : Nat} (hy : v.reply.value = .ok (.returned (.yielded n)))
    (hl : v.left.lastPause = some .stepsDone)
    (hw : v.host.debugger.Awaits count retired departed) :
    retired + v.retirements = count + departed := by
  rcases v with ⟨e, h, act, reply, left⟩
  cases ha
  have hx : Act.resume.Done e h reply left := hv.done
  cases hx with
  | @resumed limit r hr =>
    have hd := (served_of_resume hr hw).done n hy hl
    rw [← Reply.retirements_answer r.toReply .returned] at hd
    exact hd

/-- A debugger that is asked for a number of steps has all of them left. -/
theorem Scene.Happens.awaits_of_request {v : Scene} (hv : v.Happens) {count : Nat}
    (ha : v.act = .tell (.requestSteps count)) :
    v.left.debugger.Awaits (max count 1) 0 0 := by
  rcases v with ⟨e, h, act, reply, left⟩
  cases ha
  have hx : (Act.tell (.requestSteps count)).Done e h reply left := hv.done
  cases hx with
  | told => exact h.debugger.awaits_requestSteps count

/-- The debugger is asked for a number of steps, and nothing else steers it until a
resumption announces that they are done. While runs were resumed in between, under however
many starts and ends of runs, as many instructions have retired as were asked for, or one
if none was, and one more for each run that ended because an instruction led the program
counter out of memory. -/
theorem steps_done_after_request {e f : Engine} {h k : Host} {earlier later : List Scene}
    {ask last : Scene} {count n : Nat}
    (hs : Session e h (earlier ++ ask :: (later ++ [last])) f k)
    (ha : ask.act = .tell (.requestSteps count)) (hq : ∀ v ∈ later, v.act.steers = false)
    (hl : last.act = .resume) (hv : last.reply.value = .ok (.returned (.yielded n)))
    (hp : last.left.lastPause = some .stepsDone) :
    retirements (later ++ [last]) = max count 1 + departures later := by
  obtain ⟨hr, ht⟩ := hs.split_at
  obtain ⟨hm, hd, _, _⟩ := ht.split_last
  have hw := hr.awaits_of_request ha
  have hn := hd.retired_of_stepsDone hl hv hp (hm.awaits hq hw)
  rw [retirements_snoc]
  omega

/-- A request is made, then something happens, and then the run is resumed. -/
theorem Session.of_request {e g : Engine} {h t : Host} {later : List Scene} {count limit : Nat}
    {r : Resumed Host}
    (hs : Session e { h with debugger := h.debugger.requestSteps count } later g t)
    (hr : g.resume Host.scheduler limit t = some r) :
    ∃ ask last, Session e h (ask :: (later ++ [last])) r.engine r.scheduler ∧
      ask.act = .tell (.requestSteps count) ∧ last.act = .resume ∧
      last.reply.value = r.value.map .returned ∧ last.left = r.scheduler ∧
      last.retirements = r.toReply.retirements := by
  let asked : Host := { h with debugger := h.debugger.requestSteps count }
  let ask : Scene := ⟨e, h, .tell (.requestSteps count), ⟨e, [], .ok .done⟩, asked⟩
  let last : Scene := ⟨g, t, .resume, r.toReply.answer .returned, r.scheduler⟩
  have ha : ask.Happens := ⟨0, rfl⟩
  have hl : last.Happens := ⟨limit, congrArg (Option.map _) hr⟩
  have hf : Session e asked (later ++ [last]) r.engine r.scheduler := hs.snoc hl
  have hn : last.retirements = r.toReply.retirements :=
    Reply.retirements_answer r.toReply .returned
  exact ⟨ask, last, .cons ha hf, rfl, rfl, rfl, rfl, hn⟩

/-- A request outlives two runs that are over. The first one is ended by an instruction that
fails, the second one by an instruction that leads the program counter out of memory. -/
theorem steps_done_after_request_of_three_runs :
    ∃ (f : Engine) (k : Host) (later : List Scene) (ask last : Scene),
      Session (.new .standard (Vector.replicate 8 0)) .standard (ask :: (later ++ [last])) f k ∧
      ask.act = .tell (.requestSteps 4) ∧ (∀ v ∈ later, v.act.steers = false) ∧
      last.act = .resume ∧ last.reply.value = .ok (.returned (.yielded 2)) ∧
      last.left.lastPause = some .stepsDone ∧ departures later = 1 ∧
      retirements (later ++ [last]) = max 4 1 + 1 := by
  have hx : (Session.replay 3 (.new .standard (Vector.replicate 8 0))
      { Host.standard with debugger := Host.standard.debugger.requestSteps 4 }
      [.operate (.run [0x60, 0x01, 0x00, 0xEE] 1), .resume, .tell (.setBreakpoint 0x300),
        .operate (.run [0x1F, 0xFE] 2), .resume, .operate (.run [0x12, 0x00] 3)]).bind
        (fun x => (x.2.1.resume Host.scheduler 3 x.2.2).map fun r =>
          ((x.1.all fun v => !v.act.steers, departures x.1), r.value, r.scheduler.lastPause)) =
            some ((true, 1), .ok (.yielded 2), some .stepsDone) := by decide +kernel
  obtain ⟨⟨later, g, t⟩, hs, hm⟩ := Option.bind_eq_some_iff.mp hx
  obtain ⟨r, hr, hy⟩ := Option.map_eq_some_iff.mp hm
  obtain ⟨hq, hy⟩ := Prod.mk.inj hy
  obtain ⟨hq, hd⟩ := Prod.mk.inj hq
  obtain ⟨hv, hp⟩ := Prod.mk.inj hy
  obtain ⟨ask, last, hf, ha, hl, hw, hk, _⟩ := (Session.of_replay hs).of_request hr
  have hq : ∀ v ∈ later, v.act.steers = false := by simpa using hq
  rw [hv] at hw
  rw [← hk] at hp
  have hj : Session _ _ ([] ++ ask :: (later ++ [last])) _ _ := hf
  have hc := steps_done_after_request hj ha hq hl hw hp
  rw [hd] at hc
  exact ⟨_, _, later, ask, last, hf, ha, hq, hl, hw, hp, hd, hc⟩

/-- Three steps are asked for. A first run executes two instructions, of which the second
one leads the program counter out of memory; another run executes two more before the end of
the request is announced. -/
theorem steps_done_beyond_request :
    ∃ (f : Engine) (k : Host) (later : List Scene) (ask last : Scene),
      Session (.new .standard (Vector.replicate 8 0)) .standard (ask :: (later ++ [last])) f k ∧
      ask.act = .tell (.requestSteps 3) ∧ (∀ v ∈ later, v.act.steers = false) ∧
      last.act = .resume ∧ last.reply.value = .ok (.returned (.yielded 2)) ∧
      last.left.lastPause = some .stepsDone ∧ retirements (later ++ [last]) = 4 := by
  have hx : (Session.replay 3 (.new .standard (Vector.replicate 8 0))
      { Host.standard with debugger := Host.standard.debugger.requestSteps 3 }
      [.operate (.run [0x1F, 0xFE] 1), .resume, .operate (.run [0x12, 0x00] 2)]).bind
        (fun x => (x.2.1.resume Host.scheduler 3 x.2.2).map fun r =>
          ((x.1.all fun v => !v.act.steers, retirements x.1 + r.toReply.retirements),
            r.value, r.scheduler.lastPause)) =
              some ((true, 4), .ok (.yielded 2), some .stepsDone) := by decide +kernel
  obtain ⟨⟨later, g, t⟩, hs, hm⟩ := Option.bind_eq_some_iff.mp hx
  obtain ⟨r, hr, hy⟩ := Option.map_eq_some_iff.mp hm
  obtain ⟨hq, hy⟩ := Prod.mk.inj hy
  obtain ⟨hq, hn⟩ := Prod.mk.inj hq
  obtain ⟨hv, hp⟩ := Prod.mk.inj hy
  obtain ⟨ask, last, hf, ha, hl, hw, hk, hc⟩ := (Session.of_replay hs).of_request hr
  have hq : ∀ v ∈ later, v.act.steers = false := by simpa using hq
  rw [hv] at hw
  rw [← hk] at hp
  rw [← hc] at hn
  refine ⟨_, _, later, ask, last, hf, ha, hq, hl, hw, hp, ?_⟩
  rw [retirements_snoc]
  exact hn

end Chip8.Debug
