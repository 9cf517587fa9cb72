import Chip8.Proofs.Countdown
import Chip8.Proofs.Faults
import Chip8.Proofs.Isolation

/-!
# Held runs

Where a debugging host has suspended a run it holds the engine. Whatever the debugger is
told afterwards, the engine stays as it is until the run is resumed while the debugger is
not paused. Then the instruction at which the run was suspended is executed, even if there
is a breakpoint at it: the debugger is still parked there.
-/

namespace Chip8.Engine

variable {e : Engine} {reply : Reply (Except EngineError RunExit)}

/-- A run that has been suspended is in progress inside memory. -/
theorem Resumption.of_yielded (h : e.Resumption reply) {n : Nat}
    (hv : reply.value = .ok (.yielded n)) :
    reply.engine.isRunning = true ∧ reply.engine.machine.pastEnd = false := by
  cases h with
  | idle hr => cases hv
  | @yielded n reason hr hc hp =>
    refine ⟨?_, hp⟩
    show (e.after n).isRunning = true
    rw [isRunning, lifecycle_after]
    exact hr
  | halted hr hc hp => cases hv
  | aborted hr hc hp hf => cases hv

/-- A run inside memory that is not suspended at once executes an instruction, unless it
fails. -/
theorem Resumption.retirements_pos (h : e.Resumption reply) (hr : e.isRunning = true)
    (hp : e.machine.pastEnd = false) (hv : reply.value ≠ .ok (.yielded 0))
    (hf : e.fault? = none) : 1 ≤ reply.retirements := by
  apply Nat.pos_of_ne_zero
  intro hz
  cases h with
  | idle hi => exact absurd (hr.symm.trans hi) (by simp)
  | @yielded n reason hi hc hq =>
    rw [retirements_ok e _ n (countP_pauseNotices _ reason)] at hz
    exact hv (by rw [hz])
  | @halted n hi hc hq =>
    rw [retirements_ok e _ n (countP_ending _ rfl none)] at hz
    rw [hz] at hq
    exact Bool.false_ne_true (hp.symm.trans hq)
  | @aborted n error hi hc hq hg =>
    rw [retirements_error e _ n (countP_ending _ rfl (some error))] at hz
    rw [hz] at hg
    have hn : some error = none := hg.symm.trans hf
    cases hn

/-- A run inside memory that is not suspended at once is ended by its first instruction, if
that fails. -/
theorem Resumption.value_of_fails (h : e.Resumption reply) (hr : e.isRunning = true)
    (hv : reply.value ≠ .ok (.yielded 0)) {error : EngineError} (hf : e.fault? = some error) :
    reply.value = .error error := by
  rcases h.of_faults (fault?_eq_some_iff.mp hf) with ⟨_, hn | hn⟩ | ⟨_, hx⟩
  · cases h with
    | idle hi => exact absurd (hr.symm.trans hi) (by simp)
    | yielded hi hc hq => cases hn
    | halted hi hc hq => cases hn
    | aborted hi hc hq hg => cases hn
  · exact absurd hn hv
  · exact hx

/-- What a resumption does that executes the instruction at the program counter. -/
structure Advances (e : Engine) (reply : Reply (Except EngineError RunExit)) : Prop where
  /-- The word at the program counter is fetched first. -/
  fetched : reply.notices.head? = some e.dispatch
  /-- The core is that of plain execution after as many instructions as have retired. -/
  executes : e.core.Executes e.config.shiftSource reply.retirements reply.fault?
    reply.engine.core
  /-- An instruction that does not fail has retired. -/
  retires : e.fault? = none → 1 ≤ reply.retirements
  /-- An instruction that fails is answered by its error. -/
  fails : ∀ error, e.fault? = some error → reply.value = .error error
  /-- Every other answer but an error counts the instruction. -/
  counted : ∀ exit, reply.value = .ok exit → 1 ≤ exit.executed

/-- A run inside memory that is not suspended at once executes an instruction. -/
theorem Resumption.advances (h : e.Resumption reply) (hr : e.isRunning = true)
    (hp : e.machine.pastEnd = false) (hv : reply.value ≠ .ok (.yielded 0)) :
    e.Advances reply where
  fetched := h.head?_notices hr hp hv
  executes := h.executes
  retires := h.retirements_pos hr hp hv
  fails := fun _ hf => h.value_of_fails hr hv hf
  counted := by
    intro exit hx
    rw [← h.retirements_eq hx]
    apply h.retirements_pos hr hp hv
    cases hf : e.fault? with
    | none => rfl
    | some error =>
      have he := h.value_of_fails hr hv hf
      rw [hx] at he
      cases he

end Chip8.Engine

namespace Chip8.Debug

namespace Debugger

/-- A debugger that refuses an instruction is paused. -/
theorem paused_of_beforeExec {d : Debugger} {pc : UInt16} {reason : PauseReason}
    (h : (d.beforeExec pc).1 = some reason) : (d.beforeExec pc).2.paused = true := by
  unfold Debugger.beforeExec at h ⊢
  split
  · assumption
  · split
    · rfl
    · rename_i hp hb
      rw [if_neg hp, if_neg hb] at h
      cases h

/-- A debugger that stops the run behind an instruction is paused. -/
theorem paused_of_afterExec {d : Debugger} {pc : UInt16} {reason : PauseReason}
    (h : (d.afterExec pc).1 = some reason) : (d.afterExec pc).2.paused = true := by
  unfold Debugger.afterExec at h ⊢
  cases hs : d.stepsLeft with
  | none =>
    rw [hs] at h
    cases h
  | some left =>
    rw [hs] at h
    dsimp only at h ⊢
    split
    · rename_i hl
      rw [if_pos hl] at h
      cases h
    · rfl

/-- A debugger that is paused stays parked where it is. -/
theorem beforeExec_of_paused {d : Debugger} {pc : UInt16} (hp : d.paused = true)
    (hq : d.parkedAt = some pc) : d.beforeExec pc = (some .manual, d) := by
  rw [Debugger.beforeExec, if_pos hp, ← hq]

end Debugger

/-- A debugging host holds an engine where it has suspended a run. -/
structure Held (e : Engine) (h : Host) : Prop where
  /-- The run is in progress. -/
  running : e.isRunning = true
  /-- The program counter is inside memory. -/
  inside : e.machine.pastEnd = false
  /-- The debugger is parked at the program counter. -/
  parked : h.debugger.parkedAt = some e.machine.pc

/-- A host that suspends a run is paused. -/
theorem Host.paused_of_follow {h k : Host} {x : Option PauseReason × Debugger}
    {reason : Option PauseReason} (hx : ∀ cause, x.1 = some cause → x.2.paused = true)
    (hf : h.follow x = (.suspend reason, k)) : k.debugger.paused = true := by
  rcases x with ⟨_ | cause, d⟩
  · cases hf
  · cases hf
    exact hx cause rfl

/-- A host that has suspended a run is paused and holds the engine. -/
theorem held_of_yielded {limit n : Nat} {e : Engine} {h : Host} {r : Resumed Host}
    (hr : e.resume Host.scheduler limit h = some r) (hv : r.value = .ok (.yielded n)) :
    Held r.engine r.scheduler ∧ r.scheduler.debugger.paused = true := by
  obtain ⟨hi, hp⟩ := (Engine.resumption hr).of_yielded hv
  have hq : r.scheduler.debugger.parkedAt = some r.engine.machine.pc := by
    rw [parkedAt_of_resume hr, hv]
    rfl
  refine ⟨⟨hi, hp, hq⟩, ?_⟩
  rcases Engine.resume_cases hr with ⟨_, q, _, ht⟩ | ⟨_, he⟩
  · cases ht with
    | halted hi => cases hv
    | refused hi hb =>
      exact Host.paused_of_follow (fun _ hc => Debugger.paused_of_beforeExec hc) hb
    | failed hi hb hf => cases hv
    | yielded hi hb hf he hy =>
      exact Host.paused_of_follow (fun _ hc => Debugger.paused_of_afterExec hc) hy
  · rw [he] at hv
    cases hv

namespace Held

variable {e : Engine} {k : Host}

/-- While the debugger is paused, a resumption is refused at once and leaves the engine as
it is. -/
theorem resume_of_paused (h : Held e k) (hp : k.debugger.paused = true) (limit : Nat) :
    e.resume Host.scheduler (limit + 1) k = some
      { engine := e
        notices := [.event (.debuggerPaused e.machine.pc .manual)]
        value := .ok (.yielded 0)
        scheduler := { k with lastPause := some .manual } } := by
  have hb : Host.scheduler.beforeExec e k =
      (.suspend (some .manual), { k with lastPause := some .manual }) := by
    show k.follow (k.debugger.beforeExec e.machine.pc) = _
    rw [Debugger.beforeExec_of_paused hp h.parked]
    rfl
  rw [Engine.resume_of_refused h.running h.inside hb]
  rfl

/-- Once the debugger is not paused, a resumption executes the instruction at the program
counter. -/
theorem advances (h : Held e k) (hp : k.debugger.paused = false) {limit : Nat}
    {r : Resumed Host} (hr : e.resume Host.scheduler limit k = some r) :
    e.Advances r.toReply := by
  have hv := ne_yielded_of_parked h.running hp h.parked hr
  exact (Engine.resumption hr).advances h.running h.inside hv

end Held

/-- Whether an act talks to the host only, or resumes the run under it. -/
def Act.spares : Act → Bool
  | .tell _ => true
  | .resume => true
  | .drain _ => true
  | _ => false

/-- Whether an act is a resumption that the debugger does not refuse. -/
def Scene.releases (v : Scene) : Bool :=
  match v.act with
  | .resume => !v.host.debugger.paused
  | _ => false

/-- A resumption that was refused on an engine. -/
structure Scene.Blocked (v : Scene) (e : Engine) : Prop where
  /-- The engine is as it was. -/
  engine : v.reply.engine = e
  /-- Nothing was executed. -/
  value : v.reply.value = .ok (.returned (.yielded 0))
  /-- The reason is that the debugger was paused. -/
  lastPause : v.left.lastPause = some .manual
  /-- It is still so. -/
  paused : v.left.debugger.paused = true

/-- While the engine is held, whatever is done with the host leaves it so, and resumptions
are refused. -/
theorem Scene.Happens.held {v : Scene} (hv : v.Happens) (hh : Held v.engine v.host)
    (ha : v.act.spares = true) (hn : v.releases = false) :
    v.reply.engine = v.engine ∧ Held v.engine v.left ∧ (v.act = .resume → v.Blocked v.engine) := by
  rcases v with ⟨e, h, act, reply, left⟩
  have hx : act.Done e h reply left := hv.done
  replace hh : Held e h := hh
  cases hx with
  | @told command =>
    have hq : (h.debugger.obey command).parkedAt = some e.machine.pc := by
      rw [Debugger.parkedAt_obey]
      exact hh.parked
    exact ⟨rfl, ⟨hh.running, hh.inside, hq⟩, fun he => nomatch he⟩
  | @resumed limit r hr =>
    have hd : h.debugger.paused = true := by simpa [Scene.releases] using hn
    have hw := hh.resume_of_paused hd limit
    rw [Engine.resume_add hr 1] at hw
    cases hw
    exact ⟨rfl, ⟨hh.running, hh.inside, hh.parked⟩, fun _ => ⟨rfl, rfl, rfl, hd⟩⟩
  | stepped => cases ha
  | drained => exact ⟨rfl, ⟨hh.running, hh.inside, hh.parked⟩, fun he => nomatch he⟩
  | operated hp => cases ha

/-- While nobody releases it, a held engine stays as it is. -/
theorem Session.held {e f : Engine} {h k : Host} {scenes : List Scene}
    (hs : Session e h scenes f k) (hh : Held e h) (ha : ∀ v ∈ scenes, v.act.spares = true)
    (hn : ∀ v ∈ scenes, v.releases = false) :
    f = e ∧ Held e k ∧ ∀ v ∈ scenes, v.act = .resume → v.Blocked e := by
  induction hs with
  | nil => exact ⟨rfl, hh, fun _ hm => absurd hm List.not_mem_nil⟩
  | @snoc scenes v hs hv ih =>
    obtain ⟨ha, hal⟩ := List.forall_mem_append.mp ha
    obtain ⟨hn, hnl⟩ := List.forall_mem_append.mp hn
    obtain ⟨he, hk, hb⟩ := ih ha hn
    rw [← he] at hk
    obtain ⟨hr, hl, hw⟩ := hv.held hk (hal v List.mem_cons_self) (hnl v List.mem_cons_self)
    rw [he] at hr hl hw
    exact ⟨hr, hl, List.forall_mem_append.mpr ⟨hb, List.forall_mem_singleton.mpr hw⟩⟩

/-- How a debugging host holds a run that it has suspended, through some acts that end with
an engine and a host. -/
structure Holds (e : Engine) (scenes : List Scene) (f : Engine) (k : Host) : Prop where
  /-- The engine is as it was when the run was suspended. -/
  kept : f = e
  /-- All resumptions so far have been refused. -/
  blocked : ∀ v ∈ scenes, v.act = .resume → v.Blocked e
  /-- While the debugger is paused, the next resumption is refused as well. -/
  blocks : k.debugger.paused = true → ∀ limit, ∃ r,
    f.resume Host.scheduler (limit + 1) k = some r ∧ r.engine = f ∧
      r.value = .ok (.yielded 0) ∧ r.scheduler.lastPause = some .manual
  /-- Once the debugger is not paused, the next resumption executes the instruction at the
  program counter, whether it returns or goes on forever. -/
  releases : k.debugger.paused = false →
    (∀ limit r, f.resume Host.scheduler limit k = some r → f.Advances r.toReply) ∧
    ∀ limit, f.resume Host.scheduler limit k = none →
      ∃ p, Progress.Reaches Host.scheduler (.start f k) p ∧ p.executed = limit

/-- A run that the debugging host has suspended, for whatever reason, is held: whatever the
debugger is told and however often the run is resumed while the debugger is paused, nothing
is executed; and the first resumption while it is not paused executes the instruction at
which the run was suspended, wherever there are breakpoints. -/
theorem suspended_run_held {limit n : Nat} {e f : Engine} {h k : Host} {r : Resumed Host}
    {scenes : List Scene} (hr : e.resume Host.scheduler limit h = some r)
    (hv : r.value = .ok (.yielded n)) (hs : Session r.engine r.scheduler scenes f k)
    (ha : ∀ v ∈ scenes, v.act.spares = true) (hn : ∀ v ∈ scenes, v.releases = false) :
    r.scheduler.debugger.paused = true ∧ Holds r.engine scenes f k := by
  obtain ⟨hh, hp⟩ := held_of_yielded hr hv
  obtain ⟨hf, hk, hb⟩ := hs.held hh ha hn
  rw [← hf] at hk
  refine ⟨hp, hf, hb, ?_, ?_⟩
  · intro hd limit
    exact ⟨_, hk.resume_of_paused hd limit, rfl, rfl, rfl⟩
  · intro hd
    refine ⟨fun limit r hx => hk.advances hd hx, ?_⟩
    intro limit hx
    exact (Engine.reaches_of_resume hx).2

/-- A run is suspended at a breakpoint. Setting it again, a refused resumption, a pause that
is taken back by a step request: then the instruction at the breakpoint is executed. -/
theorem suspended_run_held_at_breakpoint :
    ∃ (e f : Engine) (h k : Host) (r t : Resumed Host) (scenes : List Scene),
      e.resume Host.scheduler 2 h = some r ∧ r.value = .ok (.yielded 1) ∧
      r.scheduler.lastPause = some (.breakpoint 0x202) ∧
      Session r.engine r.scheduler scenes f k ∧
      r.scheduler.debugger.paused = true ∧ Holds r.engine scenes f k ∧
      k.debugger.paused = false ∧ 0x202 ∈ k.debugger.breakpoints ∧
      f.resume Host.scheduler 2 k = some t ∧ f.Advances t.toReply ∧
      t.value = .ok (.yielded 1) := by
  let e : Engine := ((Engine.new .standard (Vector.replicate 8 0)).run
    [0x60, 0xFF, 0x61, 0x01, 0xBF, 0xFF] 1).engine
  let h : Host := .new ⟨[0x202], false, none, none⟩ .standard
  let acts : List Act := [.tell (.setBreakpoint 0x202), .resume, .tell .resume, .tell .pause,
    .resume, .tell (.requestSteps 1)]
  have hx : (e.resume Host.scheduler 2 h).bind (fun r =>
      (Session.replay 1 r.engine r.scheduler acts).bind fun (scenes, f, k) =>
        (f.resume Host.scheduler 2 k).map fun t =>
          ((decide (r.value = .ok (.yielded 1)), r.scheduler.lastPause),
            (scenes.all fun v => v.act.spares, scenes.all fun v => !v.releases), k.debugger,
            decide (t.value = .ok (.yielded 1)))) =
      some ((true, some (.breakpoint 0x202)), (true, true),
        ⟨[0x202], false, some 1, some 0x202⟩, true) := by decide +kernel
  obtain ⟨r, hr, hx⟩ := Option.bind_eq_some_iff.mp hx
  obtain ⟨⟨scenes, f, k⟩, hs, hx⟩ := Option.bind_eq_some_iff.mp hx
  obtain ⟨t, ht, hx⟩ := Option.map_eq_some_iff.mp hx
  simp only [Prod.mk.injEq, decide_eq_true_eq] at hx
  obtain ⟨⟨hv, hl⟩, ⟨ha, hn⟩, hd, hw⟩ := hx
  have ha : ∀ v ∈ scenes, v.act.spares = true := List.all_eq_true.mp ha
  have hn : ∀ v ∈ scenes, v.releases = false := by simpa using hn
  obtain ⟨hp, hh⟩ := suspended_run_held hr hv (.of_replay hs) ha hn
  have hf : k.debugger.paused = false := congrArg Debugger.paused hd
  have hb : k.debugger.breakpoints = [0x202] := congrArg Debugger.breakpoints hd
  have hm : 0x202 ∈ k.debugger.breakpoints := by
    rw [hb]
    exact List.mem_singleton.mpr rfl
  exact ⟨e, f, h, k, r, t, scenes, hr, hv, hl, .of_replay hs, hp, hh, hf, hm, ht,
    (hh.releases hf).1 2 t ht, hw⟩

end Chip8.Debug
