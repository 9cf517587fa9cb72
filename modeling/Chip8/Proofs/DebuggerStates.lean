import Chip8.Proofs.Session

/-!
# The states of a debugger

A debugger can be called at any time: told something, asked before an instruction, or told
that one has been executed, in any order and at any address. Whatever the calls are, a request
for steps that is in force has a step left, and a paused debugger has no request. So a step can
always be taken off, and an answer that stops a run leaves nothing to be counted. A request
comes to its end with the call that counts its last step, neither earlier nor later.
-/

namespace Chip8.Debug

/-- What a debugger can be called for, in a run or out of it. -/
inductive Call where
  /-- It is told something. -/
  | tell (command : Command)
  /-- An instruction at an address is going to be executed. -/
  | before (pc : UInt16)
  /-- An instruction has been executed, and an address comes next. -/
  | after (pc : UInt16)
  deriving DecidableEq, Repr

/-- Whether a call counts an instruction. -/
def Call.counts : Call → Bool
  | .after _ => true
  | _ => false

/-- No command of the calls changes a request: breakpoints are all that is set. -/
def Undisturbed (calls : List Call) : Prop :=
  ∀ command, Call.tell command ∈ calls → ∃ pc, command = .setBreakpoint pc

namespace Debugger

/-- Answer a call. What a debugger is told is not answered. -/
def answer (d : Debugger) : Call → Option PauseReason × Debugger
  | .tell command => (none, d.obey command)
  | .before pc => d.beforeExec pc
  | .after pc => d.afterExec pc

/-- The answers to calls, one after the other. -/
def answers (d : Debugger) : List Call → List (Option PauseReason)
  | [] => []
  | call :: calls => (d.answer call).1 :: (d.answer call).2.answers calls

/-- The debugger after calls, one after the other. -/
def after (d : Debugger) : List Call → Debugger
  | [] => d
  | call :: calls => (d.answer call).2.after calls

/-- All that a debugger can answer before an instruction, and what it leaves. -/
inductive Judges (d : Debugger) (pc : UInt16) : Option PauseReason → Debugger → Prop
  /-- A paused debugger lets nothing be executed. -/
  | refused (hp : d.paused = true) : Judges d pc (some .manual) { d with parkedAt := some pc }
  /-- A breakpoint stops a run unless the debugger is parked there. -/
  | stopped (hp : d.paused = false) (hm : pc ∈ d.breakpoints) (hn : d.parkedAt ≠ some pc) :
      Judges d pc (some (.breakpoint pc))
        { d with paused := true, stepsLeft := none, parkedAt := some pc }
  /-- Otherwise the instruction is executed. -/
  | passed (hp : d.paused = false) (hn : pc ∈ d.breakpoints → d.parkedAt = some pc) :
      Judges d pc none { d with parkedAt := none }

/-- All that a debugger can answer behind an instruction, and what it leaves. -/
inductive Counts (d : Debugger) (pc : UInt16) : Option PauseReason → Debugger → Prop
  /-- There is no request for steps. -/
  | idle (hs : d.stepsLeft = none) : Counts d pc none d
  /-- A step of the request has been taken, and others are left. -/
  | taken {left : Nat} (hs : d.stepsLeft = some (left + 1)) (hl : 1 ≤ left) :
      Counts d pc none { d with stepsLeft := some left }
  /-- No step of the request is left. -/
  | done {left : Nat} (hs : d.stepsLeft = some left) (hl : left ≤ 1) :
      Counts d pc (some .stepsDone)
        { d with paused := true, stepsLeft := none, parkedAt := some pc }

variable {d e : Debugger} {pc : UInt16} {total counted : Nat} {call : Call} {calls : List Call}

/-- This is all that happens before an instruction. -/
theorem judges (d : Debugger) (pc : UInt16) :
    d.Judges pc (d.beforeExec pc).1 (d.beforeExec pc).2 := by
  unfold beforeExec
  by_cases hp : d.paused = true
  · rw [if_pos hp]
    exact .refused hp
  · rw [if_neg hp]
    have hf : d.paused = false := eq_false_of_ne_true hp
    by_cases hb : d.parkedAt ≠ some pc ∧ d.breakpoints.contains pc = true
    · rw [if_pos hb]
      exact .stopped hf (List.contains_iff_mem.mp hb.2) hb.1
    · rw [if_neg hb]
      refine .passed hf fun hm => ?_
      by_contra hn
      exact hb ⟨hn, List.contains_iff_mem.mpr hm⟩

/-- This is all that happens behind an instruction. -/
theorem counts (d : Debugger) (pc : UInt16) :
    d.Counts pc (d.afterExec pc).1 (d.afterExec pc).2 := by
  unfold afterExec
  cases hs : d.stepsLeft with
  | none => exact .idle hs
  | some left =>
    dsimp only
    by_cases hl : 0 < left - 1
    · rw [if_pos hl]
      have he : left - 1 + 1 = left := by omega
      exact .taken (he ▸ hs) hl
    · rw [if_neg hl]
      exact .done hs (by omega)

/-- What holds of a debugger whatever it has been called for. -/
structure Sound (d : Debugger) : Prop where
  /-- A request for steps that is in force has a step left, which can be taken off. -/
  pending : ∀ left, d.stepsLeft = some left → 1 ≤ left
  /-- A paused debugger has no request for steps. -/
  paused : d.paused = true → d.stepsLeft = none

/-- It holds of a new debugger. -/
theorem sound_new : Debugger.new.Sound where
  pending := by
    intro left hs
    cases hs
  paused := fun _ => rfl

/-- A debugger without a request is sound. -/
theorem sound_of_idle (hs : d.stepsLeft = none) : d.Sound where
  pending := by
    intro left hl
    rw [hs] at hl
    cases hl
  paused := fun _ => hs

/-- A debugger that is not paused is sound if a step of its request is left. -/
theorem sound_of_pending {left : Nat} (hp : d.paused = false) (hs : d.stepsLeft = some left)
    (hl : 1 ≤ left) : d.Sound where
  pending := by
    intro other ho
    rw [hs] at ho
    cases ho
    exact hl
  paused := by
    intro ht
    rw [hp] at ht
    cases ht

/-- A debugger that is told something stays sound. -/
theorem Sound.obey (h : d.Sound) (command : Command) : (d.obey command).Sound := by
  cases command with
  | setBreakpoint pc => exact ⟨h.pending, h.paused⟩
  | pause => exact sound_of_idle rfl
  | resume => exact sound_of_idle rfl
  | requestSteps count => exact sound_of_pending rfl rfl (Nat.le_max_right count 1)

/-- So does one that is asked before an instruction. -/
theorem Sound.judges (h : d.Sound) {reason : Option PauseReason} (hj : d.Judges pc reason e) :
    e.Sound := by
  cases hj with
  | refused hp => exact ⟨h.pending, h.paused⟩
  | stopped hp hm hn => exact sound_of_idle rfl
  | passed hp hb => exact ⟨h.pending, h.paused⟩

/-- So does one that counts an instruction. -/
theorem Sound.counts (h : d.Sound) {reason : Option PauseReason} (hc : d.Counts pc reason e) :
    e.Sound := by
  cases hc with
  | idle hs => exact h
  | @taken left hs hl =>
    -- There is a request, so the debugger is not paused.
    have hp : d.paused = false := by
      cases hp : d.paused with
      | false => rfl
      | true =>
        rw [h.paused hp] at hs
        cases hs
    exact sound_of_pending hp rfl hl
  | done hs hl => exact sound_of_idle rfl

/-- A call leaves a sound debugger sound. -/
theorem Sound.answer (h : d.Sound) (call : Call) : (d.answer call).2.Sound := by
  cases call with
  | tell command => exact h.obey command
  | before pc => exact h.judges (d.judges pc)
  | after pc => exact h.counts (d.counts pc)

/-- A sound debugger is sound after any calls. -/
theorem Sound.after (h : d.Sound) (calls : List Call) : (d.after calls).Sound := by
  induction calls generalizing d with
  | nil => exact h
  | cons call calls ih => exact ih (h.answer call)

/-- A debugger that has just answered why a run stops at an address. -/
structure StopsAt (d : Debugger) (pc : UInt16) (reason : PauseReason) : Prop where
  /-- It is paused. -/
  paused : d.paused = true
  /-- There is no step to be counted. -/
  stepsLeft : d.stepsLeft = none
  /-- It is parked at the address. -/
  parkedAt : d.parkedAt = some pc
  /-- A breakpoint that stops the run is at the address. -/
  breakpoint : ∀ other, reason = .breakpoint other → other = pc

/-- A sound debugger that refuses an instruction has nothing to count. -/
theorem Sound.stopsAt_of_judges (h : d.Sound) {reason : PauseReason}
    (hj : d.Judges pc (some reason) e) : e.StopsAt pc reason := by
  cases hj with
  | refused hp => exact ⟨hp, h.paused hp, rfl, fun other ho => by cases ho⟩
  | stopped hp hm hn =>
    refine ⟨rfl, rfl, rfl, ?_⟩
    intro other ho
    cases ho
    rfl

/-- Neither has a debugger that stops a run behind an instruction. -/
theorem stopsAt_of_counts {reason : PauseReason} (hc : d.Counts pc (some reason) e) :
    e.StopsAt pc reason := by
  cases hc with
  | done hs hl => exact ⟨rfl, rfl, rfl, fun other ho => by cases ho⟩

/-- A request for a number of steps after some have been counted: the debugger lets
instructions be executed as long as a step is left, and no longer. -/
inductive Serves (d : Debugger) (total counted : Nat) : Prop
  /-- Steps are left. -/
  | going {left : Nat} (hp : d.paused = false) (hs : d.stepsLeft = some left) (hl : 1 ≤ left)
      (hc : counted + left = total)
  /-- All steps have been counted. -/
  | ended (hp : d.paused = true) (hs : d.stepsLeft = none) (hc : total ≤ counted)

/-- Nothing has been counted right after a request. -/
theorem serves_requestSteps (d : Debugger) (count : Nat) :
    (d.requestSteps count).Serves (max count 1) 0 :=
  .going rfl rfl (Nat.le_max_right count 1) (Nat.zero_add _)

/-- Counting an instruction ends the request exactly if it is the last one. -/
theorem Serves.afterExec (h : d.Serves total counted) (pc : UInt16) :
    (d.afterExec pc).2.Serves total (counted + 1) ∧
      (d.afterExec pc).1 = if counted + 1 = total then some .stepsDone else none := by
  have hd := d.counts pc
  generalize (d.afterExec pc).1 = reason at hd ⊢
  generalize (d.afterExec pc).2 = e at hd ⊢
  cases h with
  | @going left hp hs hl hc =>
    cases hd with
    | idle hn =>
      rw [hs] at hn
      cases hn
    | @taken rest ht hr =>
      rw [hs] at ht
      have he : left = rest + 1 := Option.some.inj ht
      exact ⟨.going hp rfl hr (by omega), (if_neg (by omega)).symm⟩
    | @done rest ht hr =>
      rw [hs] at ht
      have he : left = rest := Option.some.inj ht
      exact ⟨.ended rfl rfl (by omega), (if_pos (by omega)).symm⟩
  | ended hp hs hc =>
    cases hd with
    | idle hn => exact ⟨.ended hp hs (by omega), (if_neg (by omega)).symm⟩
    | taken ht hr =>
      rw [hs] at ht
      cases ht
    | done ht hr =>
      rw [hs] at ht
      cases ht

/-- How far a request has come is told by the pause and the steps that are left. -/
theorem Serves.of_eq (h : d.Serves total counted) (hp : e.paused = d.paused)
    (hs : e.stepsLeft = d.stepsLeft) : e.Serves total counted := by
  cases h with
  | going hf hl hn hc => exact .going (hp.trans hf) (hs.trans hl) hn hc
  | ended ht hl hc => exact .ended (hp.trans ht) (hs.trans hl) hc

/-- Being asked before an instruction does not count it, and only a breakpoint takes the
request back. -/
theorem Serves.judges (h : d.Serves total counted) {reason : Option PauseReason}
    (hj : d.Judges pc reason e) (hn : ∀ other, reason ≠ some (.breakpoint other)) :
    e.Serves total counted := by
  cases hj with
  | refused hp => exact h.of_eq rfl rfl
  | stopped hp hm hq => exact absurd rfl (hn pc)
  | passed hp hb => exact h.of_eq rfl rfl

/-- A call that neither is another command nor meets a breakpoint serves the request. -/
theorem Serves.answer (h : d.Serves total counted) (hu : Undisturbed (call :: calls))
    (hn : ∀ pc, (d.answer call).1 ≠ some (.breakpoint pc)) :
    (d.answer call).2.Serves total (counted + [call].countP Call.counts) := by
  cases call with
  | tell command =>
    obtain ⟨pc, he⟩ := hu command List.mem_cons_self
    rw [he]
    exact h.of_eq rfl rfl
  | before pc => exact h.judges (d.judges pc) hn
  | after pc => exact (h.afterExec pc).1

/-- As long as nobody gives other commands and no breakpoint is met, the request is served
and what has been counted of it are the calls that count. -/
theorem Serves.after (h : d.Serves total counted) (hu : Undisturbed calls)
    (hn : ∀ pc, some (.breakpoint pc) ∉ d.answers calls) :
    (d.after calls).Serves total (counted + calls.countP Call.counts) := by
  -- The first call leaves a request for the same total, so the induction goes over all debuggers.
  induction calls generalizing d counted with
  | nil => exact h
  | cons call calls ih =>
    have hs := h.answer hu fun pc he => hn pc (he ▸ List.mem_cons_self)
    have hl := ih hs (fun command hm => hu command (List.mem_cons_of_mem call hm))
      fun pc hm => hn pc (List.mem_cons_of_mem _ hm)
    rw [Nat.add_assoc, ← List.countP_append] at hl
    exact hl

end Debugger

/-- The law of debuggers: whatever a new debugger has been called for, it is sound. If it
answers before or behind an instruction that the run stops, it is paused, parked at the address
and without a request, and if it lets the instruction be executed, it is neither paused nor
parked. When it is asked for a number of steps then, and no other command and no breakpoint
comes in between, the call that counts the last of them is answered by the end of the request,
and no other one is. -/
theorem debugger_states_law (calls : List Call) :
    let d := Debugger.new.after calls
    d.Sound ∧
    (∀ pc reason, (d.beforeExec pc).1 = some reason → (d.beforeExec pc).2.StopsAt pc reason) ∧
    (∀ pc reason, (d.afterExec pc).1 = some reason → (d.afterExec pc).2.StopsAt pc reason) ∧
    (∀ pc, (d.beforeExec pc).1 = none →
      (d.beforeExec pc).2.paused = false ∧ (d.beforeExec pc).2.parkedAt = none) ∧
    ∀ count later, Undisturbed later →
      (∀ pc, some (.breakpoint pc) ∉ (d.requestSteps count).answers later) →
      ∀ pc, (((d.requestSteps count).after later).afterExec pc).1 =
        if later.countP Call.counts + 1 = max count 1 then some .stepsDone else none := by
  intro d
  have hd : d.Sound := Debugger.sound_new.after calls
  refine ⟨hd, ?_, ?_, ?_, ?_⟩
  · intro pc reason hr
    have hj := d.judges pc
    rw [hr] at hj
    exact hd.stopsAt_of_judges hj
  · intro pc reason hr
    have hc := d.counts pc
    rw [hr] at hc
    exact Debugger.stopsAt_of_counts hc
  · intro pc hr
    have hj := d.judges pc
    rw [hr] at hj
    generalize (d.beforeExec pc).2 = e at hj ⊢
    cases hj with
    | passed hp hb => exact ⟨hp, rfl⟩
  · intro count later hu hn pc
    have hs := ((d.serves_requestSteps count).after hu hn).afterExec pc
    rw [Nat.zero_add] at hs
    exact hs.2

/-- A debugger has been paused, asked at one address and released, and it has met a breakpoint
at another one. Parked there, it is asked for two steps. The first one is counted although there
is a breakpoint now where it leads; the second one is counted without a question before it and
ends the request. -/
theorem debugger_states_law_of_parked_request :
    let earlier := [Call.tell (.setBreakpoint 0x200), .tell .pause, .before 0x300, .tell .resume]
    let d := Debugger.new.after (earlier ++ [.before 0x200])
    let later := [Call.before 0x200, .tell (.setBreakpoint 0x202), .after 0x202]
    d.StopsAt 0x200 (.breakpoint 0x200) ∧ Undisturbed later ∧
      (d.requestSteps 2).answers later = [none, none, none] ∧
      later.countP Call.counts + 1 = 2 ∧
      (((d.requestSteps 2).after later).afterExec 0x204).1 = some .stepsDone := by
  intro earlier d later
  have hanswers : (d.requestSteps 2).answers later = [none, none, none] := by decide
  have hu : Undisturbed later := by
    intro command hm
    have hc : command = .setBreakpoint 0x202 := by simpa [later] using hm
    exact ⟨0x202, hc⟩
  have hn : ∀ pc, some (.breakpoint pc) ∉ (d.requestSteps 2).answers later := by
    intro pc hm
    rw [hanswers] at hm
    simp at hm
  obtain ⟨_, hstop, _⟩ := debugger_states_law earlier
  obtain ⟨_, _, _, _, hcount⟩ := debugger_states_law (earlier ++ [.before 0x200])
  exact ⟨hstop 0x200 (.breakpoint 0x200) (by decide), hu, hanswers, rfl,
    hcount 2 later hu hn 0x204⟩

end Chip8.Debug
