import Chip8.Proofs.Effect
import Chip8.Proofs.HookCalls
import Chip8.Proofs.Slicing

/-!
# Budgets and slices

A budget counts yield points: the last one of every slice suspends the run, wherever the
run was resumed in between. The instruction that ends a run comes to no yield point, so a
run of as many instructions as a number of whole slices is over in the last of them, and
not in a further, empty one.
-/

namespace Chip8

namespace Core

variable {source : ShiftSource} {c : Core}

/-- An instruction that jumps to itself is fetched, and nothing else happens. -/
theorem step_of_spin (h : c.machine.instruction = .jump c.machine.pc) :
    (c.step source).1 = c.fetched := by
  have hi : Instruction.decode c.upcoming.word = .jump c.machine.pc := h
  rw [step, hi]
  rfl

/-- An instruction that jumps to itself goes on forever. -/
theorem clear_of_spin (h : c.machine.instruction = .jump c.machine.pc) (n : Nat) :
    c.Clear source n := by
  have ha : ∀ k, (c.after source k).machine.instruction =
      .jump (c.after source k).machine.pc := by
    intro k
    induction k with
    | zero => exact h
    | succ k ih =>
      rw [after, step_of_spin ih]
      exact ih
  intro k hk
  have hi : (c.after source k).machine.pc.toNat < memorySize :=
    Machine.inside_of_instruction (by rw [ha k]; exact Instruction.noConfusion)
  refine ⟨decide_eq_false (by omega), ?_⟩
  cases hf : (c.after source k).fault? source with
  | none => rfl
  | some error =>
    rcases fault?_eq_some_iff.mp hf with ⟨hr, _⟩ | ⟨hr, _⟩
    · rw [ha k] at hr
      cases hr
    · rw [ha k] at hr
      cases hr

end Core

namespace Scheduler

variable {σ : Type} {hooks : Scheduler σ} {s t : σ} {calls : List HookCall}

/-- What a scheduler remembers once its hooks have been called in some order. -/
def afterCalls (hooks : Scheduler σ) (s : σ) (calls : List HookCall) : σ :=
  calls.foldl (fun s c => (hooks.answer s c).2) s

/-- One more call acts on what is remembered after the calls before it. -/
theorem afterCalls_concat (hooks : Scheduler σ) (s : σ) (calls : List HookCall) (c : HookCall) :
    hooks.afterCalls s (calls ++ [c]) = (hooks.answer (hooks.afterCalls s calls) c).2 := by
  rw [afterCalls, List.foldl_append]
  rfl

/-- Calls are made one behind the other. -/
theorem afterCalls_append (hooks : Scheduler σ) (s : σ) (calls more : List HookCall) :
    hooks.afterCalls s (calls ++ more) = hooks.afterCalls (hooks.afterCalls s calls) more :=
  List.foldl_append

/-- A scheduler that let the run go on at each call remembers these calls. -/
theorem Proceeds.eq_afterCalls (h : hooks.Proceeds s calls t) : t = hooks.afterCalls s calls := by
  induction h with
  | nil => rfl
  | snoc h hc ih =>
    rw [afterCalls_concat, ← ih, hc]

end Scheduler

/-- The last round leads to the engine that the rounds lead to. -/
theorem Rounds.eq_after {e f : Engine} {rounds : List Round} {t : Round}
    (h : Rounds e (rounds ++ [t]) f) : f = t.after := by
  generalize hl : rounds ++ [t] = all at h
  cases h with
  | nil => simp at hl
  | snoc h ht hp =>
    have he := List.append_inj_right' hl rfl
    rw [List.singleton_inj.mp he]

/-- A resumption leaves the scheduler as its hook calls have made it. -/
theorem HookProtocol.scheduler_eq {σ : Type} {hooks : Scheduler σ} {s : σ} {e : Engine}
    {calls : List HookCall} {r : Resumed σ} (h : HookProtocol hooks s e calls r) :
    r.scheduler = hooks.afterCalls s calls := by
  cases h with
  | idle hr hv hl hs => exact hs
  | late hr hp hv hl hs => exact hs
  | @yielded _ rounds t u reason hr h hv hs hy hl =>
    have he : r.engine = t.after := h.eq_after
    rw [List.flatMap_append, List.flatMap_singleton, Round.calls, ← List.append_assoc,
      Scheduler.afterCalls_concat, ← hs.eq_afterCalls]
    show r.scheduler = (hooks.yieldPoint t.after u).2
    rw [← he, hy]
  | refused hr h hp hv hs hb hl =>
    rw [Scheduler.afterCalls_concat, ← hs.eq_afterCalls]
    show r.scheduler = (hooks.beforeExec r.engine _).2
    rw [hb]
  | failed hr h hp hf hv hs hl => exact hs.eq_afterCalls
  | halted hr h ht hp hv hs hl => exact hs.eq_afterCalls

namespace HookCall

/-- Whether a call is made at a yield point. -/
def isYieldPoint : HookCall → Bool
  | .yieldPoint _ => true
  | _ => false

end HookCall

namespace Budget

/-- The budget of a slice once it has been asked at a number of yield points. -/
def spent (slice asked : Nat) : Budget := ⟨max slice 1, max slice 1 - asked % max slice 1⟩

/-- What the budget of a slice answers at a yield point, counted from one. -/
def verdict (slice count : Nat) : Decision :=
  if max slice 1 ∣ count then .suspend none else .proceed

/-- A new budget has not been asked at any yield point. -/
theorem new_eq_spent (slice : Nat) : new slice = spent slice 0 := by
  rw [new, spent, Nat.zero_mod, Nat.sub_zero]

/-- At least one instruction is left of a slice, and no more than the whole of it. -/
theorem remaining_spent (slice asked : Nat) :
    1 ≤ (spent slice asked).remaining ∧ (spent slice asked).remaining ≤ max slice 1 := by
  have hm : asked % max slice 1 < max slice 1 := Nat.mod_lt asked (by omega)
  show 1 ≤ max slice 1 - asked % max slice 1 ∧ max slice 1 - asked % max slice 1 ≤ max slice 1
  omega

/-- The last yield point of a slice suspends the run and begins a new slice. -/
theorem spend_spent (slice asked : Nat) :
    (spent slice asked).spend = (verdict slice (asked + 1), spent slice (asked + 1)) := by
  have hm : asked % max slice 1 < max slice 1 := Nat.mod_lt asked (by omega)
  have hn : (asked + 1) % max slice 1 = (asked % max slice 1 + 1) % max slice 1 :=
    (Nat.mod_add_mod asked (max slice 1) 1).symm
  by_cases hl : asked % max slice 1 + 1 = max slice 1
  · have hz : (spent slice asked).remaining - 1 = 0 := by
      show max slice 1 - asked % max slice 1 - 1 = 0
      omega
    have hr : (asked + 1) % max slice 1 = 0 := by rw [hn, hl, Nat.mod_self]
    rw [spend, if_pos hz, verdict, if_pos (Nat.dvd_of_mod_eq_zero hr), spent, spent, hr,
      Nat.sub_zero]
  · have hz : ¬(spent slice asked).remaining - 1 = 0 := by
      show ¬max slice 1 - asked % max slice 1 - 1 = 0
      omega
    have hr : (asked + 1) % max slice 1 = asked % max slice 1 + 1 := by
      rw [hn, Nat.mod_eq_of_lt (by omega)]
    have hd : ¬max slice 1 ∣ asked + 1 := by
      intro hd
      have hk : (asked + 1) % max slice 1 = 0 := Nat.mod_eq_zero_of_dvd hd
      omega
    rw [spend, if_neg hz, verdict, if_neg hd, spent, spent, hr, Nat.sub_sub]

/-- Whatever hooks of a budget have been called, it is known by the number of yield
points. -/
theorem afterCalls_new (slice : Nat) (calls : List HookCall) :
    scheduler.afterCalls (new slice) calls = spent slice (calls.countP HookCall.isYieldPoint) := by
  induction calls using List.reverseRecOn with
  | nil => exact new_eq_spent slice
  | append_singleton calls c ih =>
    rw [Scheduler.afterCalls_concat, ih, List.countP_append]
    cases c with
    | beforeExec e => rfl
    | retired e record => rfl
    | yieldPoint e =>
      show (spent slice (calls.countP HookCall.isYieldPoint)).spend.2 = _
      rw [spend_spent]
      rfl

end Budget

namespace Engine

variable {e : Engine} {n m : Nat}

/-- Plain execution leads the program counter out of memory after a number of
instructions. -/
structure Halts (e : Engine) (n : Nat) : Prop where
  /-- The instructions retire inside memory. -/
  clear : e.Clear n
  /-- The last one leads the program counter out of memory. -/
  pastEnd : (e.after n).machine.pastEnd = true

/-- The end of plain execution at the end of memory. -/
theorem Halts.ends (h : e.Halts n) :
    e.core.Ends e.config.shiftSource n none (e.core.after e.config.shiftSource n) := by
  have hp := h.pastEnd
  rw [machine_after] at hp
  exact .halted h.clear hp

/-- Where plain execution has gone on for a number of steps, it goes on for as many steps
less. -/
theorem Clear.drop (h : e.Clear (n + m)) : (e.after n).Clear m := by
  rw [Clear, core_after, config_after]
  intro k hk
  rw [← Core.after_add]
  exact h (n + k) (by omega)

/-- The rest of an execution that leaves memory. -/
theorem Halts.drop (h : e.Halts (n + m)) : (e.after n).Halts m where
  clear := h.clear.drop
  pastEnd := by
    rw [← after_add]
    exact h.pastEnd

/-- An execution that does not come to an end within some steps ends later. -/
theorem Halts.lt_of_inside (h : e.Halts n) (hc : e.Clear m)
    (hp : (e.after m).machine.pastEnd = false) : m < n := by
  have hl : m ≤ n := h.ends.le hc
  have hn : m ≠ n := by
    intro hn
    rw [hn, h.pastEnd] at hp
    cases hp
  omega

/-- A resumption says that the run is over where plain execution has left memory. -/
theorem Resumption.halts {reply : Reply (Except EngineError RunExit)} (h : e.Resumption reply)
    (hv : reply.value = .ok (.halted n)) : e.isRunning = true ∧ e.Halts n := by
  cases h with
  | idle hr => cases hv
  | yielded hr hc hp => cases hv
  | halted hr hc hp =>
    cases hv
    exact ⟨hr, hc, hp⟩
  | aborted hr hc hp hf => cases hv

/-- The answers of a number of resumptions, one after the other, under a scheduler that
keeps its state. There are none if a resumption takes more turns than a limit. -/
def resumeAnswers {σ : Type} (hooks : Scheduler σ) (limit : Nat) :
    Nat → Engine → σ → Option (List (Except EngineError RunExit))
  | 0, _, _ => some []
  | n + 1, e, s =>
    (e.resume hooks limit s).bind fun r =>
      (resumeAnswers hooks limit n r.engine r.scheduler).map fun answers => r.value :: answers

variable {σ : Type} {hooks : Scheduler σ} {limit : Nat} {s : σ}

/-- The first answer is that of the first resumption. -/
theorem resumeAnswers_succ {r : Resumed σ} (h : e.resume hooks limit s = some r) (n : Nat) :
    resumeAnswers hooks limit (n + 1) e s =
      (resumeAnswers hooks limit n r.engine r.scheduler).map fun answers =>
        r.value :: answers := by
  rw [resumeAnswers, h]
  rfl

/-- Where no run is in progress, every resumption says so. -/
theorem resumeAnswers_idle (hr : e.isRunning = false) (n : Nat) :
    resumeAnswers hooks limit n e s = some (List.replicate n (.ok .notRunning)) := by
  have hx : e.resume hooks limit s = some ((Progress.start e s).stop (.ok .notRunning)) :=
    if_neg (by rw [hr]; exact Bool.false_ne_true)
  induction n with
  | zero => rfl
  | succ n ih =>
    have hi : resumeAnswers hooks limit n ((Progress.start e s).stop (.ok .notRunning)).engine
        ((Progress.start e s).stop (.ok .notRunning)).scheduler =
          some (List.replicate n (.ok .notRunning)) := ih
    rw [resumeAnswers_succ hx, hi]
    rfl

end Engine

namespace Budget

variable {e : Engine} {b : Budget} {p q : Progress Budget} {limit n : Nat}

/-- A run under a budget, after some turns. -/
structure Metered (e : Engine) (b : Budget) (p : Progress Budget) : Prop where
  /-- Plain steps have been taken. -/
  follows : Progress.Follows e p
  /-- No more of them than were left of the slice. -/
  within : p.executed ≤ b.remaining
  /-- While the run is in memory something is left of the slice, and the budget knows
  what. -/
  left : p.engine.machine.pastEnd = false →
    p.executed < b.remaining ∧ p.scheduler = ⟨b.slice, b.remaining - p.executed⟩

/-- At first all is left that was left before. -/
theorem metered_start (e : Engine) (hb : 1 ≤ b.remaining) : Metered e b (.start e b) where
  follows := Progress.follows_start e b
  within := Nat.zero_le b.remaining
  left := fun _ => ⟨hb, rfl⟩

/-- The run goes on while an instruction is left behind the one that has retired. -/
theorem Metered.turn (h : Metered e b p) (ht : Progress.Turn scheduler p (.inl q)) :
    Metered e b q := by
  cases ht with
  | @left s hp hb hf he =>
    have hl := (h.left hp).1
    refine ⟨h.follows.retire hp hf s, ?_, ?_⟩
    · show p.executed + 1 ≤ b.remaining
      omega
    · intro hi
      exact absurd (hi.symm.trans he) Bool.false_ne_true
  | @went s t hp hb hf he hy =>
    obtain ⟨hl, hs⟩ := h.left hp
    have hu : s = p.scheduler := (congrArg Prod.snd hb).symm
    have hx : (⟨b.slice, b.remaining - p.executed⟩ : Budget).spend = (.proceed, t) := by
      rw [← hs, ← hu]
      exact hy
    unfold spend at hx
    split at hx
    · cases hx
    · rename_i hn
      have ht : t = ⟨b.slice, b.remaining - p.executed - 1⟩ := (congrArg Prod.snd hx).symm
      have hn : ¬b.remaining - p.executed - 1 = 0 := hn
      refine ⟨(h.follows.retire hp hf s).schedule t, ?_, ?_⟩
      · show p.executed + 1 ≤ b.remaining
        omega
      · intro _
        refine ⟨?_, ?_⟩
        · show p.executed + 1 < b.remaining
          omega
        · rw [ht, Nat.sub_sub]
          rfl

/-- A run under a budget is metered for as long as it lasts. -/
theorem Metered.reaches (h : Metered e b p) (hr : Progress.Reaches scheduler p q) :
    Metered e b q := hr.keeps Metered.turn h

/-- How a resumption under a budget returns. -/
inductive Returns (e : Engine) (b : Budget) (r : Resumed Budget) : Prop
  /-- The slice is used up. -/
  | whole (hc : e.Clear b.remaining) (hp : (e.after b.remaining).machine.pastEnd = false)
      (hr : r.toReply = ⟨e.after b.remaining, e.dispatches b.remaining,
        .ok (.yielded b.remaining)⟩)
      (hs : r.scheduler = ⟨b.slice, b.slice⟩)
  /-- The run is over within the slice. -/
  | finished {n : Nat} (hn : n ≤ b.remaining) (h : e.Halts n)
      (hr : r.toReply = ⟨((e.after n).finish none).1,
        e.dispatches n ++ .event (.programHalted n) :: ((e.after n).finish none).2,
        .ok (.halted n)⟩)
  /-- An instruction fails within the slice. -/
  | failed {n : Nat} {error : EngineError} (hn : n < b.remaining) (hc : e.Clear n)
      (hp : (e.after n).machine.pastEnd = false) (hf : (e.after n).fault? = some error)
      (hr : r.toReply = ⟨((e.after (n + 1)).finish (some error)).1,
        e.dispatches (n + 1) ++ .event (.runAborted (e.after (n + 1)).machine.pc error) ::
          ((e.after (n + 1)).finish (some error)).2,
        .error error⟩)

/-- The last turn of a run under a budget. -/
theorem Metered.returns (h : Metered e b p) {r : Resumed Budget}
    (ht : Progress.Turn scheduler p (.inr r)) : Returns e b r := by
  have he := h.follows.engine
  cases ht with
  | halted hp =>
    rw [he] at hp
    exact .finished h.within ⟨h.follows.clear, hp⟩ h.follows.halt_toReply
  | refused hp hb => cases hb
  | @failed s error hp hb hf =>
    have hl := (h.left hp).1
    have hr := h.follows.abort_toReply error s
    rw [he] at hp hf
    exact .failed hl h.follows.clear hp hf hr
  | @yielded s t reason hp hb hf hi hy =>
    obtain ⟨hl, hs⟩ := h.left hp
    have hu : s = p.scheduler := (congrArg Prod.snd hb).symm
    have hx : (⟨b.slice, b.remaining - p.executed⟩ : Budget).spend = (.suspend reason, t) := by
      rw [← hs, ← hu]
      exact hy
    have hg : Progress.Follows e (p.retire scheduler s) := h.follows.retire hp hf s
    unfold spend at hx
    split at hx
    · rename_i hn
      have hn : b.remaining - p.executed - 1 = 0 := hn
      have hq : (p.retire scheduler s).executed = b.remaining := by
        show p.executed + 1 = b.remaining
        omega
      have hc := hg.clear
      have hk := hg.engine
      rw [hq] at hc hk
      have hi : (p.retire scheduler s).engine.machine.pastEnd = false := hi
      rw [hk] at hi
      have hr : ({ p.retire scheduler s with scheduler := t }.suspend none).toReply =
          ⟨e.after b.remaining, e.dispatches b.remaining, .ok (.yielded b.remaining)⟩ := by
        rw [(hg.schedule t).suspend_toReply none, Engine.pauseNotices, List.append_nil, ← hq]
      cases hx
      exact .whole hc hi hr rfl
    · cases hx

/-- A resumption under a budget returns once the slice is used up, if not before. -/
theorem resume_returns (hb : 1 ≤ b.remaining) (hl : b.remaining < limit)
    (hr : e.isRunning = true) :
    ∃ r, e.resume scheduler limit b = some r ∧ Returns e b r := by
  have hm : ∀ {q}, Progress.Reaches scheduler (.start e b) q → Metered e b q :=
    fun hq => (metered_start e hb).reaches hq
  cases hx : e.resume scheduler limit b with
  | none =>
    obtain ⟨_, q, hq, hn⟩ := Engine.reaches_of_resume hx
    have hw : q.executed ≤ b.remaining := (hm hq).within
    omega
  | some r =>
    rcases Engine.resume_cases hx with ⟨_, q, hq, ht⟩ | ⟨hi, _⟩
    · exact ⟨r, rfl, (hm hq).returns ht⟩
    · exact absurd (hi.symm.trans hr) Bool.false_ne_true

/-- A resumption tries no more instructions than were left of the slice. -/
theorem Returns.countP_le {r : Resumed Budget} (h : Returns e b r) :
    r.notices.countP Notice.isDispatch ≤ b.remaining := by
  cases h with
  | whole hc hp hr hs =>
    rw [hr]
    exact Nat.le_of_eq (e.countP_dispatches b.remaining)
  | @finished n hn h hr =>
    have ht : (.event (.programHalted n) :: ((e.after n).finish none).2).countP
        Notice.isDispatch = 0 := (e.after n).countP_ending rfl none
    rw [hr, List.countP_append, e.countP_dispatches, ht]
    exact hn
  | @failed n error hn hc hp hf hr =>
    have ht : (.event (.runAborted (e.after (n + 1)).machine.pc error) ::
        ((e.after (n + 1)).finish (some error)).2).countP Notice.isDispatch = 0 :=
      (e.after (n + 1)).countP_ending rfl (some error)
    rw [hr, List.countP_append, e.countP_dispatches, ht]
    exact hn

/-- Where plain execution leaves memory within the slice, so does the resumption. -/
theorem Returns.of_halts_within {r : Resumed Budget} (h : Returns e b r) (hn : e.Halts n)
    (hl : n ≤ b.remaining) : r.value = .ok (.halted n) ∧ r.engine.isRunning = false := by
  cases h with
  | whole hc hp hr hs =>
    have hg : b.remaining < n := hn.lt_of_inside hc hp
    omega
  | @finished m hm h hr =>
    have he : n = m := (hn.ends.unique h.ends).1
    have hv : r.value = .ok (.halted m) := congrArg Reply.value hr
    have hi : r.engine = ((e.after m).finish none).1 := congrArg Reply.engine hr
    rw [hi, he]
    exact ⟨hv, rfl⟩
  | @failed m error hm hc hp hf hr =>
    rw [Engine.machine_after] at hp
    rw [Engine.fault?_after] at hf
    have he := (hn.ends.unique (.aborted hc hp hf)).2.1
    cases he

/-- Where plain execution stays in memory and retires for longer than the slice, the slice
is used up. -/
theorem Returns.of_clear {r : Resumed Budget} (h : Returns e b r)
    (hn : e.Clear (b.remaining + 1)) :
    r.value = .ok (.yielded b.remaining) ∧ r.engine = e.after b.remaining ∧
      r.scheduler = ⟨b.slice, b.slice⟩ := by
  cases h with
  | whole hc hp hr hs => exact ⟨congrArg Reply.value hr, congrArg Reply.engine hr, hs⟩
  | @finished m hm h hr =>
    have hg := h.ends.le hn
    omega
  | @failed m error hm hc hp hf hr =>
    rw [Engine.machine_after] at hp
    rw [Engine.fault?_after] at hf
    have hg := (Core.Ends.aborted hc hp hf).le hn
    omega

/-- A whole slice, of which nothing has been used. -/
structure Whole (b : Budget) : Prop where
  /-- All of it is left. -/
  full : b.remaining = b.slice
  /-- It is not empty. -/
  pos : 1 ≤ b.slice

/-- A new budget holds a whole slice. -/
theorem whole_new (slice : Nat) : (new slice).Whole where
  full := rfl
  pos := Nat.le_max_right slice 1

/-- A run that goes on for longer than a slice is suspended at its end, with a whole slice
left again. -/
theorem Whole.resume_of_clear (hb : b.Whole) (hl : b.slice < limit) (hr : e.isRunning = true)
    (hc : e.Clear (b.slice + 1)) : ∃ r, e.resume scheduler limit b = some r ∧
      r.value = .ok (.yielded b.slice) ∧ r.engine = e.after b.slice ∧ r.scheduler = b := by
  have hf := hb.full
  have hp : 1 ≤ b.remaining := by rw [hf]; exact hb.pos
  have hm : b.remaining < limit := by rw [hf]; exact hl
  obtain ⟨r, hx, ht⟩ := resume_returns hp hm hr
  obtain ⟨hv, he, hs⟩ := ht.of_clear (by rw [hf]; exact hc)
  rw [hf] at hv he
  have hu : r.scheduler = b := by
    rw [hs]
    rcases b with ⟨slice, remaining⟩
    exact congrArg (Budget.mk slice) hf.symm
  exact ⟨r, hx, hv, he, hu⟩

/-- A run that leaves memory is cut into whole slices before the one in which it does so.
The induction is on their number. -/
theorem Whole.answers_of_halts (hb : b.Whole) (hl : b.slice < limit) (slices more : Nat) :
    ∀ {e : Engine} {n : Nat}, e.isRunning = true → e.Halts n → 1 ≤ n →
      (n - 1) / b.slice = slices →
      Engine.resumeAnswers scheduler limit (slices + 1 + more) e b =
        some (List.replicate slices (.ok (.yielded b.slice)) ++
          .ok (.halted (n - b.slice * slices)) :: List.replicate more (.ok .notRunning)) := by
  have hf := hb.full
  have hp := hb.pos
  have hm : b.remaining < limit := by omega
  induction slices with
  | zero =>
    intro e n hr hn h1 hq
    have hlt : n - 1 < b.slice := (Nat.div_eq_zero_iff_lt hp).mp hq
    obtain ⟨r, hx, ht⟩ := resume_returns (by omega) hm hr
    obtain ⟨hv, hi⟩ := ht.of_halts_within hn (by omega)
    rw [Nat.add_comm, Nat.zero_add, Engine.resumeAnswers_succ hx, Engine.resumeAnswers_idle hi,
      hv]
    rfl
  | succ slices ih =>
    intro e n hr hn h1 hq
    have hge : b.slice ≤ n - 1 := by
      by_contra hlt
      have hz : (n - 1) / b.slice = 0 := Nat.div_eq_of_lt (by omega)
      omega
    have hc : e.Clear (b.slice + 1) := fun k hk => hn.clear k (by omega)
    obtain ⟨r, hx, hv, he, hu⟩ := hb.resume_of_clear hl hr hc
    have hs : n = b.slice + (n - b.slice) := by omega
    rw [hs] at hn
    have hj : (n - b.slice - 1) / b.slice = slices := by
      have hd := Nat.sub_mul_div (n - 1) b.slice 1
      have hk : n - 1 - b.slice * 1 = n - b.slice - 1 := by omega
      rw [hk, hq] at hd
      exact hd
    have hrun : (e.after b.slice).isRunning = true := by
      rw [Engine.isRunning, Engine.lifecycle_after]
      exact hr
    have hrest := ih hrun hn.drop (by omega) hj
    have hw : n - b.slice * (slices + 1) = n - b.slice - b.slice * slices := by
      rw [Nat.mul_succ]
      omega
    have hk : slices + 1 + 1 + more = slices + 1 + more + 1 := by omega
    rw [hk, Engine.resumeAnswers_succ hx, he, hu, hrest, hv, hw]
    rfl

/-- A run that stays in memory and never fails is suspended at the end of every slice. -/
theorem Whole.answers_of_clear (hb : b.Whole) (hl : b.slice < limit) (slices : Nat) :
    ∀ {e : Engine}, e.isRunning = true → (∀ n, e.Clear n) →
      Engine.resumeAnswers scheduler limit slices e b =
        some (List.replicate slices (.ok (.yielded b.slice))) := by
  induction slices with
  | zero =>
    intro e hr hc
    rfl
  | succ slices ih =>
    intro e hr hc
    obtain ⟨r, hx, hv, he, hs⟩ := hb.resume_of_clear hl hr (hc (b.slice + 1))
    have hrun : (e.after b.slice).isRunning = true := by
      rw [Engine.isRunning, Engine.lifecycle_after]
      exact hr
    have hrest := ih hrun fun n => (hc (b.slice + n)).drop
    rw [Engine.resumeAnswers_succ hx, he, hs, hrest, hv]
    rfl

end Budget

namespace Engine

variable {σ : Type} {hooks : Scheduler σ} {e : Engine} {s : σ}

/-- A resumption that never returns goes through plain execution, which neither leaves
memory nor fails. -/
theorem clear_of_endless (h : ∀ turns, e.resume hooks turns s = none) :
    e.isRunning = true ∧ ∀ n, e.Clear n := by
  refine ⟨(reaches_of_resume (h 0)).1, ?_⟩
  intro n
  obtain ⟨_, q, hq, hn⟩ := reaches_of_resume (h n)
  have hc := ((Progress.follows_start e s).reaches hq).clear
  rw [hn] at hc
  exact hc

/-- Where plain execution neither leaves memory nor fails, a resumption that is never
suspended does not return. -/
theorem endless_of_clear (hr : e.isRunning = true) (hc : ∀ n, e.Clear n) (turns : Nat) :
    e.resume .toCompletion turns () = none := by
  cases hx : e.resume .toCompletion turns () with
  | none => rfl
  | some r =>
    rw [resume_of_running hr] at hx
    obtain ⟨q, hq, ht⟩ := Progress.turn_of_proceed hx
    have he := ((Progress.follows_start e ()).reaches hq).engine
    obtain ⟨hp, hf⟩ := hc (q.executed + 1) q.executed (Nat.lt_succ_self q.executed)
    rw [← machine_after, ← he] at hp
    rw [← fault?_after, ← he] at hf
    cases ht with
    | halted hi => exact absurd (hp.symm.trans hi) Bool.false_ne_true
    | refused hi hb => cases hb
    | failed hi hb hj => exact absurd (hf.symm.trans hj) (by simp)
    | yielded hi hb hj hk hy => cases hy

end Engine

/-- What budgets of a slice do, where an empty slice counts as one instruction. -/
structure SlicesRuns (slice : Nat) : Prop where
  /-- Whichever hooks have been called since the budget was new, and on whichever engines,
  it suspends the run at a yield point if the slice divides the number of yield points so
  far. -/
  verdicts : ∀ calls e,
    (Budget.scheduler.yieldPoint e (Budget.scheduler.afterCalls (.new slice) calls)).1 =
      if max slice 1 ∣ calls.countP HookCall.isYieldPoint + 1 then .suspend none else .proceed
  /-- Something is left of the slice at all times. -/
  remaining : ∀ calls,
    1 ≤ (Budget.scheduler.afterCalls (.new slice) calls).remaining ∧
      (Budget.scheduler.afterCalls (.new slice) calls).remaining ≤ max slice 1
  /-- On every engine a resumption returns and has tried no more instructions than the slice
  has. The budget it leaves is the one that its hook calls make. -/
  returns : ∀ calls (e : Engine) limit, max slice 1 < limit → ∃ r made,
    let b := Budget.scheduler.afterCalls (.new slice) calls
    e.resume Budget.scheduler limit b = some r ∧
      r.notices.countP Notice.isDispatch ≤ max slice 1 ∧
      e.resume Budget.scheduler.watched limit ⟨b, #[]⟩ =
        some ⟨r.toReply, ⟨r.scheduler, made⟩⟩ ∧
      r.scheduler = Budget.scheduler.afterCalls (.new slice) (calls ++ made.toList)
  /-- A run that is over after a number of instructions if it is not suspended, is cut
  into whole slices and a last one, which is not empty. Then no run is in progress. -/
  halting : ∀ (e : Engine) turns r n, e.resume .toCompletion turns () = some r →
    r.value = .ok (.halted n) → 1 ≤ n →
    let slices := (n - 1) / max slice 1
    let last := n - max slice 1 * slices
    (1 ≤ last ∧ last ≤ max slice 1 ∧ (max slice 1 ∣ n → last = max slice 1)) ∧
      ∀ limit more, max slice 1 < limit →
        Engine.resumeAnswers Budget.scheduler limit (slices + 1 + more) e (.new slice) =
          some (List.replicate slices (.ok (.yielded (max slice 1))) ++
            .ok (.halted last) :: List.replicate more (.ok .notRunning))
  /-- A run that never returns if it is not suspended, is cut into whole slices. -/
  endless : ∀ (e : Engine), (∀ turns, e.resume .toCompletion turns () = none) →
    ∀ limit slices, max slice 1 < limit →
      Engine.resumeAnswers Budget.scheduler limit slices e (.new slice) =
        some (List.replicate slices (.ok (.yielded (max slice 1))))

/-- Budgets cut runs into slices of the length that was asked for, whatever resumptions and
other calls share them. -/
theorem budget_slices_runs (slice : Nat) : SlicesRuns slice where
  verdicts calls e := by
    rw [Budget.afterCalls_new]
    show (Budget.spent slice (calls.countP HookCall.isYieldPoint)).spend.1 = _
    rw [Budget.spend_spent]
    rfl
  remaining calls := by
    rw [Budget.afterCalls_new]
    exact Budget.remaining_spent slice _
  returns calls e limit hl := by
    have hb : Budget.scheduler.afterCalls (.new slice) calls =
      .spent slice (calls.countP HookCall.isYieldPoint) := Budget.afterCalls_new slice calls
    obtain ⟨h1, hm⟩ := Budget.remaining_spent slice (calls.countP HookCall.isYieldPoint)
    rw [← hb] at h1 hm
    have hx : ∃ r, e.resume Budget.scheduler limit
        (Budget.scheduler.afterCalls (.new slice) calls) = some r ∧
          r.notices.countP Notice.isDispatch ≤ max slice 1 := by
      cases hr : e.isRunning with
      | true =>
        obtain ⟨r, hx, ht⟩ := Budget.resume_returns h1 (Nat.lt_of_le_of_lt hm hl) hr
        exact ⟨r, hx, Nat.le_trans ht.countP_le hm⟩
      | false => exact ⟨_, if_neg (by rw [hr]; exact Bool.false_ne_true), Nat.zero_le _⟩
    obtain ⟨r, hx, hn⟩ := hx
    obtain ⟨made, hw, hp⟩ := Engine.resume_watched hx
    refine ⟨r, made, hx, hn, hw, ?_⟩
    rw [Scheduler.afterCalls_append, hp.scheduler_eq]
  halting e turns r n hx hv h1 := by
    obtain ⟨hr, hn⟩ := (Engine.resumption hx).halts hv
    have hs : 1 ≤ max slice 1 := Nat.le_max_right slice 1
    have hd : max slice 1 * ((n - 1) / max slice 1) + (n - 1) % max slice 1 = n - 1 :=
      Nat.div_add_mod (n - 1) (max slice 1)
    have hm : (n - 1) % max slice 1 < max slice 1 := Nat.mod_lt (n - 1) hs
    have hpos : 1 ≤ n - max slice 1 * ((n - 1) / max slice 1) := by omega
    have hle : n - max slice 1 * ((n - 1) / max slice 1) ≤ max slice 1 := by omega
    refine ⟨⟨hpos, hle, ?_⟩, ?_⟩
    · intro hk
      have hl := Nat.dvd_sub hk (Nat.dvd_mul_right (max slice 1) ((n - 1) / max slice 1))
      exact Nat.le_antisymm hle (Nat.le_of_dvd hpos hl)
    · intro limit more hl
      exact (Budget.whole_new slice).answers_of_halts hl _ more hr hn h1 rfl
  endless e hx limit slices hl := by
    obtain ⟨hr, hc⟩ := Engine.clear_of_endless hx
    exact (Budget.whole_new slice).answers_of_clear hl slices hr hc

/-- A slice of two cuts a run of four instructions into two whole slices, of which the run
is over in the second one, and a run that jumps in place into as many as one likes. -/
theorem budget_slices_runs_of_two :
    ∃ (e spin : Engine) (r : Resumed Unit), e.resume .toCompletion 5 () = some r ∧
      r.value = .ok (.halted 4) ∧
      Engine.resumeAnswers Budget.scheduler 3 3 e (.new 2) =
        some [.ok (.yielded 2), .ok (.halted 2), .ok .notRunning] ∧
      (∀ turns, spin.resume .toCompletion turns () = none) ∧
      ∀ slices, Engine.resumeAnswers Budget.scheduler 3 slices spin (.new 2) =
        some (List.replicate slices (.ok (.yielded 2))) := by
  let e : Engine := ((Engine.new .standard (Vector.replicate 8 0)).run
    [0x60, 0xFF, 0x61, 0x01, 0x62, 0x02, 0xBF, 0xFF] 1).engine
  let spin : Engine :=
    ((Engine.new .standard (Vector.replicate 8 0)).run [0x12, 0x00] 1).engine
  have hx : (e.resume .toCompletion 5 ()).map (fun r => decide (r.value = .ok (.halted 4))) =
      some true := by decide +kernel
  obtain ⟨r, hr, hv⟩ := Option.map_eq_some_iff.mp hx
  have hv : r.value = .ok (.halted 4) := of_decide_eq_true hv
  have hh := ((budget_slices_runs 2).halting e 5 r 4 hr hv (by decide)).2 3 1 (by decide)
  have hc : ∀ n, spin.Clear n := Core.clear_of_spin (c := spin.core) (by decide +kernel)
  have ht : ∀ turns, spin.resume .toCompletion turns () = none :=
    Engine.endless_of_clear rfl hc
  exact ⟨e, spin, r, hr, hv, hh, ht,
    fun slices => (budget_slices_runs 2).endless spin ht 3 slices (by decide)⟩

end Chip8
