import Chip8.Debug.Host
import Chip8.Proofs.Resumption

/-!
# Debugged runs

Where a run under a debugger stops is told by plain execution alone: the first
number of instructions after which the run is over, a request for steps is
fulfilled, the program counter is at a breakpoint, or the next instruction
fails. A breakpoint at which the debugger was parked is passed over once, before
the first instruction.
-/

namespace Chip8.Debug

/-- How a debugged run stops. -/
inductive Stop where
  /-- The program counter has left memory. -/
  | halted
  /-- The debugger suspends the run. -/
  | paused (reason : PauseReason)
  /-- An instruction fails. -/
  | failed (error : EngineError)
  deriving DecidableEq, Repr

/-- After a number of steps the program counter is at a breakpoint, other than the
one at which the debugger was parked before the first step. -/
def Barred (e : Engine) (d : Debugger) (k : Nat) : Prop :=
  (e.after k).machine.pc ∈ d.breakpoints ∧ ¬(k = 0 ∧ d.parkedAt = some e.machine.pc)

instance (e : Engine) (d : Debugger) (k : Nat) : Decidable (Barred e d k) :=
  inferInstanceAs (Decidable (_ ∧ ¬_))

/-- How a debugged run stops after a number of steps, if it does. -/
def stop? (e : Engine) (d : Debugger) (k : Nat) : Option Stop :=
  if 1 ≤ k ∧ (e.after k).machine.pastEnd = true then some .halted
  else if d.stepsLeft = some k then some (.paused .stepsDone)
  else if Barred e d k then some (.paused (.breakpoint (e.after k).machine.pc))
  else (e.after k).fault?.map .failed

/-- A debugged run does not halt in memory. -/
theorem stop?_inside {e : Engine} {d : Debugger} {k : Nat}
    (hp : (e.after k).machine.pastEnd = false) :
    stop? e d k = if d.stepsLeft = some k then some (.paused .stepsDone)
      else if Barred e d k then some (.paused (.breakpoint (e.after k).machine.pc))
      else (e.after k).fault?.map .failed := by
  have hn : ¬(1 ≤ k ∧ (e.after k).machine.pastEnd = true) := by
    rintro ⟨_, hi⟩
    rw [hp] at hi
    cases hi
  rw [stop?, if_neg hn]

/-- A debugged run does not come to an instruction at a breakpoint without stopping
there for the debugger or before. -/
theorem not_barred {e : Engine} {d : Debugger} {k : Nat}
    (hs : stop? e d k = none ∨ ∃ error, stop? e d k = some (.failed error)) : ¬Barred e d k := by
  intro hb
  unfold stop? at hs
  rw [if_pos hb] at hs
  split at hs
  · simp at hs
  · split at hs
    · simp at hs
    · simp at hs

/-- A debugged run stops after a number of steps and not before. -/
def FirstStop (e : Engine) (d : Debugger) (k : Nat) (stop : Stop) : Prop :=
  stop? e d k = some stop ∧ ∀ j < k, stop? e d j = none

/-- A debugged run stops once. -/
theorem FirstStop.unique {e : Engine} {d : Debugger} {k m : Nat} {stop other : Stop}
    (h : FirstStop e d k stop) (ho : FirstStop e d m other) : k = m ∧ stop = other := by
  have hk : ¬m < k := by
    intro hl
    have hn := h.2 m hl
    rw [ho.1] at hn
    cases hn
  have hm : ¬k < m := by
    intro hl
    have hn := ho.2 k hl
    rw [h.1] at hn
    cases hn
  have he : k = m := by omega
  subst he
  exact ⟨rfl, Option.some.inj (h.1.symm.trans ho.1)⟩

/-- What a debugged run leaves, tells and answers where it stops. -/
inductive Stopped (e : Engine) (h : Host) (k : Nat) (r : Resumed Host) : Stop → Prop
  /-- The run is over. -/
  | halted (hr : r.toReply = ⟨((e.after k).finish none).1,
        e.dispatches k ++ .event (.programHalted k) :: ((e.after k).finish none).2,
        .ok (.halted k)⟩)
      (hl : r.scheduler.lastPause = h.lastPause) : Stopped e h k r .halted
  /-- The debugger is paused, wants no more steps and is parked. -/
  | paused {reason : PauseReason} (hr : r.toReply = ⟨e.after k,
        e.dispatches k ++ [.event (.debuggerPaused (e.after k).machine.pc reason)],
        .ok (.yielded k)⟩)
      (hl : r.scheduler.lastPause = some reason)
      (hd : r.scheduler.debugger =
        ⟨h.debugger.breakpoints, true, none, some (e.after k).machine.pc⟩) :
      Stopped e h k r (.paused reason)
  /-- The run is cut short by an error. -/
  | failed {error : EngineError} (hr : r.toReply =
        ⟨((e.after (k + 1)).finish (some error)).1,
          e.dispatches (k + 1) ++ .event (.runAborted (e.after (k + 1)).machine.pc error) ::
            ((e.after (k + 1)).finish (some error)).2,
          .error error⟩)
      (hl : r.scheduler.lastPause = h.lastPause) : Stopped e h k r (.failed error)

namespace Debugger

/-- The debugger once a run has executed a number of instructions under it. -/
def ran (d : Debugger) (n : Nat) : Debugger where
  breakpoints := d.breakpoints
  paused := d.paused
  stepsLeft := d.stepsLeft.map fun left => left - n
  parkedAt := if n = 0 then d.parkedAt else none

/-- At first the debugger is as it was. -/
theorem ran_zero (d : Debugger) : d.ran 0 = d := by
  rcases d with ⟨breakpoints, paused, stepsLeft, parkedAt⟩
  cases stepsLeft with
  | none => rfl
  | some left => rfl

/-- Before a step the debugger is parked there only if it was so before the first
step. -/
theorem parkedAt_ran_iff (e : Engine) (d : Debugger) (k : Nat) :
    (d.ran k).parkedAt = some (e.after k).machine.pc ↔
      k = 0 ∧ d.parkedAt = some e.machine.pc := by
  by_cases hk : k = 0
  · subst hk
    constructor
    · intro hq
      exact ⟨rfl, hq⟩
    · rintro ⟨_, hq⟩
      exact hq
  · simp [ran, hk]

/-- What makes a debugger stop before a step is a breakpoint that counts. -/
theorem stops_iff_barred (e : Engine) (d : Debugger) (k : Nat) :
    ((d.ran k).parkedAt ≠ some (e.after k).machine.pc ∧
      (d.ran k).breakpoints.contains (e.after k).machine.pc = true) ↔ Barred e d k := by
  rw [ne_eq, parkedAt_ran_iff]
  constructor
  · rintro ⟨hk, hm⟩
    exact ⟨List.contains_iff_mem.mp hm, hk⟩
  · rintro ⟨hm, hk⟩
    exact ⟨hk, List.contains_iff_mem.mpr hm⟩

/-- A debugger that is not paused stops the run at a breakpoint, unless it was
parked there before the first step. -/
theorem beforeExec_of_barred {e : Engine} {d : Debugger} {k : Nat} (hd : d.paused = false)
    (hb : Barred e d k) : (d.ran k).beforeExec (e.after k).machine.pc =
      (some (.breakpoint (e.after k).machine.pc),
        ⟨d.breakpoints, true, none, some (e.after k).machine.pc⟩) := by
  have hp : ¬(d.ran k).paused = true := by
    rw [ran, hd]
    exact Bool.false_ne_true
  rw [beforeExec, if_neg hp, if_pos ((stops_iff_barred e d k).mpr hb)]
  rfl

/-- A debugger that is not paused lets the run go on elsewhere. -/
theorem beforeExec_of_not_barred {e : Engine} {d : Debugger} {k : Nat}
    (hd : d.paused = false) (hb : ¬Barred e d k) :
    (d.ran k).beforeExec (e.after k).machine.pc = (none, { d.ran k with parkedAt := none }) := by
  have hp : ¬(d.ran k).paused = true := by
    rw [ran, hd]
    exact Bool.false_ne_true
  have hc := mt (stops_iff_barred e d k).mp hb
  rw [beforeExec, if_neg hp, if_neg hc]

/-- The last requested step stops the run. -/
theorem afterExec_of_last {d : Debugger} {k : Nat} (hs : d.stepsLeft = some (k + 1))
    (pc : UInt16) : ({ d.ran k with parkedAt := none }).afterExec pc =
      (some .stepsDone, ⟨d.breakpoints, true, none, some pc⟩) := by
  have hl : (d.ran k).stepsLeft = some 1 := by
    rw [ran, hs, Option.map_some, Nat.add_sub_cancel_left]
  rw [afterExec, hl]
  rfl

/-- Every other step lets the run go on. -/
theorem afterExec_of_not_last {d : Debugger} {k : Nat}
    (hs : ∀ n, d.stepsLeft = some n → k + 1 < n) (pc : UInt16) :
    ({ d.ran k with parkedAt := none }).afterExec pc = (none, d.ran (k + 1)) := by
  rcases d with ⟨breakpoints, paused, stepsLeft, parkedAt⟩
  cases stepsLeft with
  | none => rfl
  | some n =>
    have hn : k + 1 < n := hs n rfl
    have hl : 0 < n - k - 1 := by omega
    have he : n - k - 1 = n - (k + 1) := by omega
    rw [afterExec]
    dsimp only [ran, Option.map_some]
    rw [if_pos hl, he]
    rfl

end Debugger

/-- A run under a debugger that is not paused, after some turns: plain steps have
been taken, none of which the debugger stops, and the debugger has kept count. -/
structure Attended (e : Engine) (h : Host) (p : Progress Host) : Prop where
  /-- Plain steps have been taken. -/
  follows : Progress.Follows e p
  /-- Nothing has stopped the run. -/
  unstopped : ∀ j < p.executed, stop? e h.debugger j = none
  /-- No pause was noted. -/
  lastPause : p.scheduler.lastPause = h.lastPause
  /-- The debugger has kept count while the run is in memory. -/
  debugger : p.engine.machine.pastEnd = false → p.scheduler.debugger = h.debugger.ran p.executed
  /-- Not all requested steps were made while the run is in memory. -/
  wanted : p.engine.machine.pastEnd = false →
    ∀ n, h.debugger.stepsLeft = some n → p.executed < n

/-- At first nothing has stopped the run. -/
theorem attended_start {e : Engine} {h : Host} (hs : ∀ n, h.debugger.stepsLeft = some n → 1 ≤ n) :
    Attended e h (.start e h) where
  follows := Progress.follows_start e h
  unstopped := by
    intro j hj
    exact absurd hj (Nat.not_lt_zero j)
  lastPause := rfl
  debugger := by
    intro _
    exact h.debugger.ran_zero.symm
  wanted := by
    intro _
    exact hs

namespace Attended

variable {e : Engine} {h : Host} {p q : Progress Host} {s : Host}

/-- What the host answers before an instruction. -/
theorem beforeExec_eq (hx : Attended e h p) (hd : h.debugger.paused = false)
    (hp : p.engine.machine.pastEnd = false) :
    Host.scheduler.beforeExec p.engine p.scheduler =
      if Barred e h.debugger p.executed then
        (.suspend (some (.breakpoint (e.after p.executed).machine.pc)),
          { p.scheduler with
            debugger := ⟨h.debugger.breakpoints, true, none, some (e.after p.executed).machine.pc⟩
            lastPause := some (.breakpoint (e.after p.executed).machine.pc) })
      else (.proceed, { p.scheduler with
        debugger := { h.debugger.ran p.executed with parkedAt := none } }) := by
  show p.scheduler.follow (p.scheduler.debugger.beforeExec p.engine.machine.pc) = _
  rw [hx.debugger hp, hx.follows.engine]
  by_cases hb : Barred e h.debugger p.executed
  · rw [if_pos hb, Debugger.beforeExec_of_barred hd hb]
    rfl
  · rw [if_neg hb, Debugger.beforeExec_of_not_barred hd hb]
    rfl

/-- The host lets an instruction be executed if there is no breakpoint at it. -/
theorem passes (hx : Attended e h p) (hd : h.debugger.paused = false)
    (hp : p.engine.machine.pastEnd = false)
    (hb : Host.scheduler.beforeExec p.engine p.scheduler = (.proceed, s)) :
    ¬Barred e h.debugger p.executed ∧ s = { p.scheduler with
      debugger := { h.debugger.ran p.executed with parkedAt := none } } := by
  rw [hx.beforeExec_eq hd hp] at hb
  split at hb
  · cases hb
  · rename_i hn
    cases hb
    exact ⟨hn, rfl⟩

/-- The host refuses an instruction at a breakpoint only. -/
theorem refuses (hx : Attended e h p) (hd : h.debugger.paused = false)
    (hp : p.engine.machine.pastEnd = false) {reason : Option PauseReason}
    (hb : Host.scheduler.beforeExec p.engine p.scheduler = (.suspend reason, s)) :
    Barred e h.debugger p.executed ∧
      reason = some (.breakpoint (e.after p.executed).machine.pc) ∧
      s.lastPause = some (.breakpoint (e.after p.executed).machine.pc) ∧
      s.debugger =
        ⟨h.debugger.breakpoints, true, none, some (e.after p.executed).machine.pc⟩ := by
  rw [hx.beforeExec_eq hd hp] at hb
  split at hb
  · rename_i hn
    cases hb
    exact ⟨hn, rfl, rfl, rfl⟩
  · cases hb

/-- What stops a run in memory, if anything does. -/
theorem stop?_eq (hx : Attended e h p) (hp : p.engine.machine.pastEnd = false) :
    stop? e h.debugger p.executed =
      if Barred e h.debugger p.executed then
        some (.paused (.breakpoint (e.after p.executed).machine.pc))
      else p.engine.fault?.map .failed := by
  have hs : h.debugger.stepsLeft ≠ some p.executed := by
    intro hs
    exact absurd (hx.wanted hp _ hs) (Nat.lt_irrefl _)
  rw [hx.follows.engine] at hp ⊢
  rw [stop?_inside hp, if_neg hs]

/-- An instruction that retires under the debugger has not stopped the run. -/
theorem unstopped_succ (hx : Attended e h p) (hd : h.debugger.paused = false)
    (hp : p.engine.machine.pastEnd = false)
    (hb : Host.scheduler.beforeExec p.engine p.scheduler = (.proceed, s))
    (hf : p.engine.fault? = none) : ∀ j < p.executed + 1, stop? e h.debugger j = none := by
  intro j hj
  rcases Nat.lt_succ_iff_lt_or_eq.mp hj with hl | he
  · exact hx.unstopped j hl
  · rw [he, hx.stop?_eq hp, if_neg (hx.passes hd hp hb).1, hf]
    rfl

/-- What the host answers at the yield point after an instruction. -/
theorem yieldPoint_eq (hx : Attended e h p) (hd : h.debugger.paused = false)
    (hp : p.engine.machine.pastEnd = false)
    (hb : Host.scheduler.beforeExec p.engine p.scheduler = (.proceed, s)) (f : Engine) :
    let t := (p.retire Host.scheduler s).scheduler
    Host.scheduler.yieldPoint f t =
      if h.debugger.stepsLeft = some (p.executed + 1) then
        (.suspend (some .stepsDone), { t with
          debugger := ⟨h.debugger.breakpoints, true, none, some f.machine.pc⟩
          lastPause := some .stepsDone })
      else (.proceed, { t with debugger := h.debugger.ran (p.executed + 1) }) := by
  intro t
  have ht : t.debugger = { h.debugger.ran p.executed with parkedAt := none } := by
    show s.debugger = _
    rw [(hx.passes hd hp hb).2]
  show t.follow (t.debugger.afterExec f.machine.pc) = _
  rw [ht]
  by_cases hs : h.debugger.stepsLeft = some (p.executed + 1)
  · rw [if_pos hs, Debugger.afterExec_of_last hs]
    rfl
  · have hn : ∀ n, h.debugger.stepsLeft = some n → p.executed + 1 < n := by
      intro n hn
      have hl := hx.wanted hp n hn
      have he : n ≠ p.executed + 1 := by
        intro he
        exact hs (he ▸ hn)
      omega
    rw [if_neg hs, Debugger.afterExec_of_not_last hn]
    rfl

/-- The run goes on after an instruction unless it was the last one wanted. -/
theorem goes (hx : Attended e h p) (hd : h.debugger.paused = false)
    (hp : p.engine.machine.pastEnd = false)
    (hb : Host.scheduler.beforeExec p.engine p.scheduler = (.proceed, s)) {f : Engine} {t : Host}
    (hy : Host.scheduler.yieldPoint f (p.retire Host.scheduler s).scheduler = (.proceed, t)) :
    h.debugger.stepsLeft ≠ some (p.executed + 1) ∧
      t.debugger = h.debugger.ran (p.executed + 1) ∧ t.lastPause = s.lastPause := by
  rw [hx.yieldPoint_eq hd hp hb] at hy
  split at hy
  · cases hy
  · rename_i hs
    cases hy
    exact ⟨hs, rfl, rfl⟩

/-- The run is suspended after the last instruction wanted only. -/
theorem ceases (hx : Attended e h p) (hd : h.debugger.paused = false)
    (hp : p.engine.machine.pastEnd = false)
    (hb : Host.scheduler.beforeExec p.engine p.scheduler = (.proceed, s)) {f : Engine} {t : Host}
    {reason : Option PauseReason}
    (hy : Host.scheduler.yieldPoint f (p.retire Host.scheduler s).scheduler =
      (.suspend reason, t)) :
    h.debugger.stepsLeft = some (p.executed + 1) ∧ reason = some .stepsDone ∧
      t.lastPause = some .stepsDone ∧
      t.debugger = ⟨h.debugger.breakpoints, true, none, some f.machine.pc⟩ := by
  rw [hx.yieldPoint_eq hd hp hb] at hy
  split at hy
  · rename_i hs
    cases hy
    exact ⟨hs, rfl, rfl, rfl⟩
  · cases hy

/-- A debugged run that goes on has not been stopped. -/
theorem turn (hx : Attended e h p) (hd : h.debugger.paused = false)
    (ht : Progress.Turn Host.scheduler p (.inl q)) : Attended e h q := by
  cases ht with
  | @left s hp hb hf he =>
    have hs := (hx.passes hd hp hb).2
    refine ⟨hx.follows.retire hp hf s, hx.unstopped_succ hd hp hb hf, ?_, ?_, ?_⟩
    · show s.lastPause = h.lastPause
      rw [hs, ← hx.lastPause]
    · intro hi
      exact absurd (hi.symm.trans he) Bool.false_ne_true
    · intro hi
      exact absurd (hi.symm.trans he) Bool.false_ne_true
  | @went s t hp hb hf he hy =>
    have hs := (hx.passes hd hp hb).2
    obtain ⟨hn, hg, hl⟩ := hx.goes hd hp hb hy
    refine ⟨(hx.follows.retire hp hf s).schedule t, hx.unstopped_succ hd hp hb hf, ?_, ?_, ?_⟩
    · show t.lastPause = h.lastPause
      rw [hl, hs, ← hx.lastPause]
    · intro _
      exact hg
    · intro _ n hm
      have hw := hx.wanted hp n hm
      have hi : n ≠ p.executed + 1 := by
        intro hi
        exact hn (hi ▸ hm)
      show p.executed + 1 < n
      omega

/-- A debugged run has not been stopped for as long as it lasts. -/
theorem reaches (hx : Attended e h p) (hd : h.debugger.paused = false)
    (hr : Progress.Reaches Host.scheduler p q) : Attended e h q :=
  hr.keeps (fun hx ht => hx.turn hd ht) hx

/-- A debugged run that is over has executed an instruction. -/
theorem executed_pos (hx : Attended e h p) (hp : e.machine.pastEnd = false)
    (hi : p.engine.machine.pastEnd = true) : 1 ≤ p.executed := by
  rcases Nat.eq_zero_or_pos p.executed with hz | hk
  · have he := hx.follows.engine
    rw [hz] at he
    rw [he] at hi
    exact absurd (hp.symm.trans hi) Bool.false_ne_true
  · exact hk

/-- A debugged run returns at its first stop. -/
theorem stopped (hx : Attended e h p) (hd : h.debugger.paused = false)
    (hp : e.machine.pastEnd = false) {r : Resumed Host}
    (ht : Progress.Turn Host.scheduler p (.inr r)) :
    ∃ k stop, FirstStop e h.debugger k stop ∧ Stopped e h k r stop := by
  have he := hx.follows.engine
  cases ht with
  | halted hi =>
    have hk := hx.executed_pos hp hi
    have hs : stop? e h.debugger p.executed = some .halted := by
      rw [he] at hi
      rw [stop?, if_pos ⟨hk, hi⟩]
    exact ⟨p.executed, .halted, ⟨hs, hx.unstopped⟩,
      .halted hx.follows.halt_toReply hx.lastPause⟩
  | @refused reason s hi hb =>
    obtain ⟨hn, hc, hl, hg⟩ := hx.refuses hd hi hb
    have hs := hx.stop?_eq hi
    rw [if_pos hn] at hs
    subst hc
    have hr := (hx.follows.schedule s).suspend_toReply
      (some (.breakpoint (e.after p.executed).machine.pc))
    exact ⟨p.executed, _, ⟨hs, hx.unstopped⟩, .paused hr hl hg⟩
  | @failed s error hi hb hf =>
    obtain ⟨hn, hu⟩ := hx.passes hd hi hb
    have hs := hx.stop?_eq hi
    rw [if_neg hn, hf] at hs
    have hl : s.lastPause = h.lastPause := by
      rw [hu, ← hx.lastPause]
    exact ⟨p.executed, .failed error, ⟨hs, hx.unstopped⟩,
      .failed (hx.follows.abort_toReply error s) hl⟩
  | @yielded s t reason hi hb hf hj hy =>
    have hg : Progress.Follows e (p.retire Host.scheduler s) := hx.follows.retire hi hf s
    obtain ⟨hn, hc, hl, hm⟩ := hx.ceases hd hi hb hy
    subst hc
    have hk : p.engine.step.engine = e.after (p.executed + 1) := hg.engine
    rw [hk] at hj hm
    have hs : stop? e h.debugger (p.executed + 1) = some (.paused .stepsDone) := by
      rw [stop?_inside hj, if_pos hn]
    have hr := (hg.schedule t).suspend_toReply (some .stepsDone)
    exact ⟨p.executed + 1, _, ⟨hs, hx.unstopped_succ hd hi hb hf⟩, .paused hr hl hm⟩

end Attended

/-- No instruction at a breakpoint is executed, but for the first one if the debugger
is parked there. -/
def Respects (e : Engine) (d : Debugger) (notices : List Notice) : Prop :=
  ∀ j pc word, notices[j]? = some (.event (.dispatched pc word)) → pc ∈ d.breakpoints →
    j = 0 ∧ pc = e.machine.pc ∧ d.parkedAt = some e.machine.pc

/-- Plain steps, none of which is at a breakpoint that counts, respect the
breakpoints. -/
theorem respects_of_not_barred {e : Engine} {d : Debugger} {n : Nat} {tail : List Notice}
    (hb : ∀ j < n, ¬Barred e d j) (ht : tail.countP Notice.isDispatch = 0) :
    Respects e d (e.dispatches n ++ tail) := by
  intro j pc word hj hm
  obtain ⟨hn, he⟩ := Engine.getElem?_dispatches_append ht hj
  subst he
  by_cases hk : j = 0 ∧ d.parkedAt = some e.machine.pc
  · obtain ⟨hz, hq⟩ := hk
    subst hz
    exact ⟨rfl, rfl, hq⟩
  · exact absurd ⟨hm, hk⟩ (hb j hn)

/-- A debugged run respects the breakpoints for as long as it lasts. -/
theorem Attended.respects {e : Engine} {h : Host} {p : Progress Host} (hx : Attended e h p) :
    Respects e h.debugger p.notices.toList := by
  rw [hx.follows.notices, ← List.append_nil (e.dispatches p.executed)]
  exact respects_of_not_barred (fun j hj => not_barred (Or.inl (hx.unstopped j hj))) rfl

/-- A debugged run that stops has respected the breakpoints. -/
theorem FirstStop.respects {e : Engine} {h : Host} {k : Nat} {stop : Stop} {r : Resumed Host}
    (hk : FirstStop e h.debugger k stop) (hs : Stopped e h k r stop) :
    Respects e h.debugger r.notices := by
  have hb : ∀ j < k, ¬Barred e h.debugger j := fun j hj => not_barred (Or.inl (hk.2 j hj))
  cases hs with
  | halted hr hl =>
    rw [hr]
    exact respects_of_not_barred hb (Engine.countP_ending _ rfl none)
  | paused hr hl hd =>
    rw [hr]
    exact respects_of_not_barred hb rfl
  | @failed error hr hl =>
    rw [hr]
    refine respects_of_not_barred ?_ (Engine.countP_ending _ rfl (some error))
    intro j hj
    rcases Nat.lt_succ_iff_lt_or_eq.mp hj with hl | he
    · exact hb j hl
    · rw [he]
      exact not_barred (Or.inr ⟨error, hk.1⟩)

/-- A run under a debugger that is not paused returns exactly where plain execution
first comes to a stop, and it goes on forever if there is none. It never executes
an instruction at a breakpoint, but for the first one if the debugger is parked
there. -/
theorem debugged_run {e : Engine} {h : Host} (hr : e.isRunning = true)
    (hp : e.machine.pc.toNat < memorySize) (hd : h.debugger.paused = false)
    (hs : ∀ n, h.debugger.stepsLeft = some n → 1 ≤ n) :
    (∀ k stop, FirstStop e h.debugger k stop → ∃ r,
      e.resume Host.scheduler (k + 1) h = some r ∧ Stopped e h k r stop) ∧
    ((∀ k, stop? e h.debugger k = none) → ∀ limit, e.resume Host.scheduler limit h = none) ∧
    (∀ limit r, e.resume Host.scheduler limit h = some r → Respects e h.debugger r.notices) ∧
    ∀ p, Progress.Reaches Host.scheduler (.start e h) p →
      Respects e h.debugger p.notices.toList := by
  have hi : e.machine.pastEnd = false := decide_eq_false (by omega)
  have ha : ∀ p, Progress.Reaches Host.scheduler (.start e h) p → Attended e h p :=
    fun p hq => (attended_start hs).reaches hd hq
  have hf : ∀ limit r, e.resume Host.scheduler limit h = some r →
      ∃ k stop, FirstStop e h.debugger k stop ∧ Stopped e h k r stop := by
    intro limit r hx
    rw [Engine.resume_of_running hr] at hx
    obtain ⟨q, hq, ht⟩ := Progress.turn_of_proceed hx
    exact (ha q hq).stopped hd hi ht
  refine ⟨?_, ?_, ?_, ?_⟩
  · intro k stop hk
    cases hx : e.resume Host.scheduler (k + 1) h with
    | some r =>
      obtain ⟨m, other, hm, hg⟩ := hf (k + 1) r hx
      obtain ⟨hkm, ho⟩ := hk.unique hm
      subst hkm ho
      exact ⟨r, rfl, hg⟩
    | none =>
      rw [Engine.resume_of_running hr] at hx
      obtain ⟨q, hq, hn⟩ := Progress.reaches_of_proceed hx
      have hl : q.executed = k + 1 := by rw [hn, Progress.start, Nat.zero_add]
      have hu := (ha q hq).unstopped k (by omega)
      rw [hk.1] at hu
      cases hu
  · intro hn limit
    cases hx : e.resume Host.scheduler limit h with
    | none => rfl
    | some r =>
      obtain ⟨k, stop, hk, hg⟩ := hf limit r hx
      exact absurd ((hn k).symm.trans hk.1) (by simp)
  · intro limit r hx
    obtain ⟨k, stop, hk, hg⟩ := hf limit r hx
    exact hk.respects hg
  · intro p hq
    exact (ha p hq).respects

/-- With breakpoints at the first two instructions and parked at the first one, the
debugger lets that one be executed and stops the run before the second one. -/
theorem debugged_run_between_breakpoints :
    ∃ (e : Engine) (h : Host) (r : Resumed Host), e.isRunning = true ∧
      e.machine.pc.toNat < memorySize ∧ h.debugger = ⟨[0x200, 0x202], false, some 5, some 0x200⟩ ∧
      FirstStop e h.debugger 1 (.paused (.breakpoint 0x202)) ∧
      e.resume Host.scheduler 2 h = some r ∧
      Stopped e h 1 r (.paused (.breakpoint 0x202)) ∧ Respects e h.debugger r.notices := by
  let e : Engine :=
    ((Engine.new .standard (Vector.replicate 8 0)).run [0x60, 0xFF, 0xBF, 0xFF] 1).engine
  let h : Host := .new ⟨[0x200, 0x202], false, some 5, some 0x200⟩ .standard
  have hr : e.isRunning = true := rfl
  have hp : e.machine.pc.toNat < memorySize := by decide
  have hs : ∀ n, h.debugger.stepsLeft = some n → 1 ≤ n := by
    intro n hn
    cases hn
    decide
  have hk : stop? e h.debugger 1 = some (.paused (.breakpoint 0x202)) ∧
      ∀ j < 1, stop? e h.debugger j = none := by decide +kernel
  obtain ⟨ht, _, hb, _⟩ := debugged_run (h := h) hr hp rfl hs
  obtain ⟨r, hx, hg⟩ := ht 1 _ hk
  exact ⟨e, h, r, hr, hp, rfl, hk, hx, hg, hb 2 r hx⟩

end Chip8.Debug
