import Chip8.Debug.Tracer
import Mathlib.Data.List.Basic

/-!
# The accounts of a tracer

Every event that has passed the filter of a tracer is held or has left it from the front,
evicted by a newer event or drained. The accounts below hold after any uses of a tracer, in
any order: what has arrived is what has left, in the order of its arrival, and then what is
held; and the tracer has counted what was evicted.
-/

namespace Chip8.Debug

/-- A way in which an event leaves a tracer. -/
inductive Departure where
  /-- It has made room for a newer event. -/
  | evicted (event : TraceEvent)
  /-- It has been taken out. -/
  | drained (event : TraceEvent)
  deriving DecidableEq, Repr

namespace Departure

/-- The event that left. -/
def event : Departure → TraceEvent
  | .evicted event => event
  | .drained event => event

/-- Whether the event was evicted. -/
def isEvicted : Departure → Bool
  | .evicted _ => true
  | .drained _ => false

/-- The events that were taken out, in order. -/
def taken (departures : List Departure) : List TraceEvent :=
  (departures.filter fun d => !d.isEvicted).map event

/-- What is taken out leaves by being drained. -/
theorem of_drained (events : List TraceEvent) :
    (events.map drained).map event = events ∧ taken (events.map drained) = events ∧
      (events.map drained).countP isEvicted = 0 := by
  induction events with
  | nil => exact ⟨rfl, rfl, rfl⟩
  | cons e events ih =>
    obtain ⟨hm, ht, hc⟩ := ih
    refine ⟨congrArg (e :: ·) hm, congrArg (e :: ·) ht, ?_⟩
    rw [List.map_cons, List.countP_cons_of_neg (by simp [isEvicted]), hc]

/-- An event that leaves is evicted or taken out. -/
theorem length_taken (departures : List Departure) :
    departures.length = departures.countP isEvicted + (taken departures).length := by
  rw [taken, List.length_map, ← List.countP_eq_length_filter]
  simpa only [Bool.not_eq_true, Bool.decide_eq_false] using
    List.length_eq_countP_add_countP isEvicted

/-- Departures are one behind the other. -/
theorem taken_append (departures later : List Departure) :
    taken (departures ++ later) = taken departures ++ taken later := by
  rw [taken, List.filter_append, List.map_append]
  rfl

end Departure

/-- A use that is made of a tracer. -/
inductive Use where
  /-- An event is recorded. -/
  | record (event : TraceEvent)
  /-- The oldest events are taken out, no more than a number of them. -/
  | drain (most : Nat)
  deriving DecidableEq, Repr

namespace Use

/-- The event that is recorded, if one is. -/
def event? : Use → Option TraceEvent
  | .record event => some event
  | .drain _ => none

/-- What a use of a tracer answers and leaves. -/
def apply (t : Tracer) : Use → List TraceEvent × Tracer
  | .record event => ([], t.record event)
  | .drain most => t.drain most

/-- The events that leave a tracer when it is used, oldest first. -/
def departures (t : Tracer) : Use → List Departure
  | .record event =>
    if t.filter.keeps event ∧ t.events.size = t.capacity then
      t.events.toList.head?.toList.map .evicted
    else []
  | .drain most => (t.events.toList.take most).map .drained

end Use

/-- The events that a filter lets pass among those that some uses record, in order. -/
def TraceFilter.passed (f : TraceFilter) (uses : List Use) : List TraceEvent :=
  (uses.filterMap Use.event?).filter f.keeps

/-- What passes of the first use passes before what passes of the others. -/
theorem TraceFilter.passed_cons (f : TraceFilter) (use : Use) (uses : List Use) :
    f.passed (use :: uses) = f.passed [use] ++ f.passed uses := by
  rw [passed, ← List.singleton_append, List.filterMap_append, List.filter_append]
  rfl

/-- An event that the filter does not keep does not pass. -/
theorem TraceFilter.passed_of_ignored {f : TraceFilter} {e : TraceEvent}
    (hk : f.keeps e = false) : f.passed [.record e] = [] :=
  List.filter_cons_of_neg (by simp [hk])

/-- One that it keeps does. -/
theorem TraceFilter.passed_of_keeps {f : TraceFilter} {e : TraceEvent}
    (hk : f.keeps e = true) : f.passed [.record e] = [e] :=
  List.filter_cons_of_pos hk

namespace Tracer

variable {t u w : Tracer} {e : TraceEvent}

/-- The tracer after some uses. -/
def after (t : Tracer) : List Use → Tracer
  | [] => t
  | use :: uses => (use.apply t).2.after uses

/-- What some uses answer, one answer for each of them. -/
def answers (t : Tracer) : List Use → List (List TraceEvent)
  | [] => []
  | use :: uses => (use.apply t).1 :: (use.apply t).2.answers uses

/-- The events that leave a tracer in some uses, in order. -/
def departures (t : Tracer) : List Use → List Departure
  | [] => []
  | use :: uses => use.departures t ++ (use.apply t).2.departures uses

/-- A tracer that can hold an event and holds no more than it can. -/
structure Sound (t : Tracer) : Prop where
  /-- There is room for an event at least. -/
  pos : 1 ≤ t.capacity
  /-- No more events are held than there is room for. -/
  size_le : t.events.size ≤ t.capacity

/-- A new tracer is sound. -/
theorem sound_new (capacity : Nat) (filter : TraceFilter) : (new capacity filter).Sound where
  pos := Nat.le_max_right capacity 1
  size_le := Nat.zero_le _

/-- An event that does not pass the filter changes nothing. -/
theorem record_of_ignored (hk : t.filter.keeps e = false) : t.record e = t := by
  rw [record, hk]
  rfl

/-- If there is room, an event that passes is added. -/
theorem record_of_room (hk : t.filter.keeps e = true) (hs : t.events.size < t.capacity) :
    t.record e = { t with events := t.events.push e } := by
  rw [record, hk, if_pos rfl, push, if_neg (by omega)]

/-- If there is none, the oldest event makes room for it. -/
theorem record_of_full (hk : t.filter.keeps e = true) (hs : t.events.size = t.capacity) :
    t.record e = { t with events := t.events.pop.push e, evicted := t.evicted + 1 } := by
  rw [record, hk, if_pos rfl, push, if_pos hs]

/-- A full tracer holds an event. -/
theorem Sound.oldest (h : t.Sound) (hs : t.events.size = t.capacity) :
    ∃ oldest rest, t.events.toList = oldest :: rest := by
  have hp := h.pos
  refine List.exists_cons_of_length_pos ?_
  rw [Queue.length_toList]
  omega

/-- All ways in which an event can be recorded. -/
inductive Records (t : Tracer) (e : TraceEvent) : Tracer → Prop
  /-- The event does not pass the filter. -/
  | ignored (hk : t.filter.keeps e = false) : Records t e t
  /-- There is room for the event. -/
  | added (hk : t.filter.keeps e = true) (hs : t.events.size < t.capacity) :
      Records t e { t with events := t.events.push e }
  /-- The oldest event makes room for the event. -/
  | replaced {oldest : TraceEvent} {rest : List TraceEvent} (hk : t.filter.keeps e = true)
      (hs : t.events.size = t.capacity) (hl : t.events.toList = oldest :: rest) :
      Records t e { t with events := t.events.pop.push e, evicted := t.evicted + 1 }

/-- An event is recorded in one of these ways. -/
theorem records_record (h : t.Sound) (e : TraceEvent) : Records t e (t.record e) := by
  cases hk : t.filter.keeps e with
  | false =>
    rw [record_of_ignored hk]
    exact .ignored hk
  | true =>
    rcases Nat.lt_or_eq_of_le h.size_le with hs | hs
    · rw [record_of_room hk hs]
      exact .added hk hs
    · obtain ⟨oldest, rest, hl⟩ := h.oldest hs
      rw [record_of_full hk hs]
      exact .replaced hk hs hl

/-- An event that is replaced leaves from the front, and the new one is the last one. -/
theorem replaced_events {oldest : TraceEvent} {rest : List TraceEvent}
    (hl : t.events.toList = oldest :: rest) (e : TraceEvent) :
    (t.events.pop.push e).toList = rest ++ [e] ∧
      (t.events.pop.push e).size = t.events.size := by
  have ht : (t.events.pop.push e).toList = rest ++ [e] := by
    rw [Queue.toList_push, Queue.toList_pop, hl, List.tail_cons]
  refine ⟨ht, ?_⟩
  rw [← Queue.length_toList, ← Queue.length_toList, ht, hl, List.length_append]
  rfl

/-- Nothing leaves for an event that does not pass the filter. -/
theorem departures_of_ignored (hk : t.filter.keeps e = false) :
    Use.departures t (.record e) = [] :=
  if_neg fun hx => Bool.false_ne_true (hk.symm.trans hx.1)

/-- Nothing leaves as long as there is room. -/
theorem departures_of_room (hs : t.events.size < t.capacity) :
    Use.departures t (.record e) = [] :=
  if_neg fun hx => absurd hx.2 (Nat.ne_of_lt hs)

/-- When there is none, the oldest event leaves for one that passes. -/
theorem departures_of_full {oldest : TraceEvent} {rest : List TraceEvent}
    (hk : t.filter.keeps e = true) (hs : t.events.size = t.capacity)
    (hl : t.events.toList = oldest :: rest) :
    Use.departures t (.record e) = [.evicted oldest] := by
  rw [Use.departures, if_pos ⟨hk, hs⟩, hl]
  rfl

/-- How the accounts of a tracer change while some events pass its filter, others leave it
and some are answered. -/
structure Balances (t : Tracer) (passed : List TraceEvent) (departures : List Departure)
    (answers : List TraceEvent) (u : Tracer) : Prop where
  /-- The filter stays. -/
  filter_eq : u.filter = t.filter
  /-- The room stays. -/
  capacity_eq : u.capacity = t.capacity
  /-- No more events are held than there is room for. -/
  sound : u.Sound
  /-- What was held and what arrives is what leaves and what is held. -/
  conserved : t.events.toList ++ passed =
    departures.map Departure.event ++ u.events.toList
  /-- Evicted events are counted. -/
  evicted_eq : u.evicted = t.evicted + departures.countP Departure.isEvicted
  /-- The others are answered. -/
  answers_eq : answers = Departure.taken departures

/-- Accounts are carried on. -/
theorem Balances.trans {passed more answers others : List TraceEvent}
    {departures later : List Departure} (h : Balances t passed departures answers u)
    (hw : Balances u more later others w) :
    Balances t (passed ++ more) (departures ++ later) (answers ++ others) w where
  filter_eq := hw.filter_eq.trans h.filter_eq
  capacity_eq := hw.capacity_eq.trans h.capacity_eq
  sound := hw.sound
  conserved := by
    rw [← List.append_assoc, h.conserved, List.append_assoc, hw.conserved, List.map_append,
      List.append_assoc]
  evicted_eq := by
    rw [hw.evicted_eq, h.evicted_eq, List.countP_append, Nat.add_assoc]
  answers_eq := by
    rw [h.answers_eq, hw.answers_eq, Departure.taken_append]

/-- Recording balances the accounts. -/
theorem balances_record (h : t.Sound) (hr : Records t e u) :
    Balances t (t.filter.passed [.record e]) (Use.departures t (.record e)) [] u := by
  cases hr with
  | ignored hk =>
    rw [TraceFilter.passed_of_ignored hk, departures_of_ignored hk]
    exact ⟨rfl, rfl, h, List.append_nil _, rfl, rfl⟩
  | added hk hs =>
    rw [TraceFilter.passed_of_keeps hk, departures_of_room hs]
    exact ⟨rfl, rfl, ⟨h.pos, hs⟩, (Queue.toList_push _ e).symm, rfl, rfl⟩
  | @replaced oldest rest hk hs hl =>
    obtain ⟨ht, hn⟩ := replaced_events hl e
    rw [TraceFilter.passed_of_keeps hk, departures_of_full hk hs hl]
    refine ⟨rfl, rfl, ⟨h.pos, Nat.le_trans (Nat.le_of_eq hn) h.size_le⟩, ?_, rfl, rfl⟩
    rw [ht, hl]
    rfl

/-- Taking events out balances the accounts. -/
theorem balances_drain (h : t.Sound) (most : Nat) :
    Balances t [] (Use.departures t (.drain most)) (t.drain most).1 (t.drain most).2 := by
  obtain ⟨hm, ht, hc⟩ := Departure.of_drained (t.events.toList.take most)
  have hl : (t.drain most).2.events.toList = t.events.toList.drop most :=
    Queue.toList_ofList _
  have hn : (t.drain most).2.events.size ≤ t.events.size := by
    rw [← Queue.length_toList, hl, List.length_drop, Queue.length_toList]
    omega
  refine ⟨rfl, rfl, ⟨h.pos, Nat.le_trans hn h.size_le⟩, ?_, ?_, ht.symm⟩
  · rw [hl, Use.departures, hm, List.take_append_drop, List.append_nil]
  · rw [Use.departures, hc]
    rfl

/-- Every use balances the accounts. -/
theorem balances_apply (h : t.Sound) (use : Use) :
    Balances t (t.filter.passed [use]) (use.departures t) (use.apply t).1 (use.apply t).2 := by
  cases use with
  | record e => exact balances_record h (records_record h e)
  | drain most => exact balances_drain h most

/-- Any uses balance the accounts. The induction is on the uses, the oldest one first, so
that the accounts of the first one are carried on by the others. -/
theorem balances_after (h : t.Sound) (uses : List Use) :
    Balances t (t.filter.passed uses) (t.departures uses) (t.answers uses).flatten
      (t.after uses) := by
  induction uses generalizing t with
  | nil => exact ⟨rfl, rfl, h, List.append_nil _, rfl, rfl⟩
  | cons use uses ih =>
    have hb := balances_apply h use
    have hi := ih hb.sound
    rw [hb.filter_eq] at hi
    rw [TraceFilter.passed_cons]
    exact hb.trans hi

/-- Uses behind others start from what those leave. -/
theorem departures_append (t : Tracer) (uses later : List Use) :
    t.departures (uses ++ later) = t.departures uses ++ (t.after uses).departures later := by
  induction uses generalizing t with
  | nil => rfl
  | cons use uses ih =>
    rw [List.cons_append, departures, departures, ih, List.append_assoc]
    rfl

/-- The events of an instruction are recorded one by one. -/
theorem recordRetired_eq_after (t : Tracer) (retired : Retired) (m : Machine) :
    t.recordRetired retired m = t.after ((TraceEvent.ofRetired retired m).map .record) := by
  rw [recordRetired]
  induction TraceEvent.ofRetired retired m generalizing t with
  | nil => rfl
  | cons e events ih => exact ih (t.record e)

/-- With an event that passes the filter, a tracer holds one event more, as long as there is
room. -/
theorem Records.size_eq (h : t.Sound) (hr : Records t e u) :
    u.events.size = min t.capacity (t.events.size + (t.filter.passed [.record e]).length) := by
  cases hr with
  | ignored hk =>
    rw [TraceFilter.passed_of_ignored hk]
    exact (Nat.min_eq_right h.size_le).symm
  | added hk hs =>
    rw [TraceFilter.passed_of_keeps hk, List.length_singleton, Nat.min_eq_right hs]
    rfl
  | replaced hk hs hl =>
    rw [TraceFilter.passed_of_keeps hk, List.length_singleton, hs,
      Nat.min_eq_left (Nat.le_succ _), ← hs]
    exact (replaced_events hl e).2

/-- As long as nothing is taken out, a tracer fills up and stays full. -/
theorem size_after_records (h : t.Sound) (events : List TraceEvent) :
    (t.after (events.map .record)).events.size =
      min t.capacity (t.events.size + (t.filter.passed (events.map .record)).length) := by
  induction events generalizing t with
  | nil => exact (Nat.min_eq_right h.size_le).symm
  | cons e events ih =>
    have hr := records_record h e
    have hb := balances_record h hr
    have hs := hr.size_eq h
    have hn : (t.after ((e :: events).map .record)).events.size =
        min t.capacity ((t.record e).events.size +
          (t.filter.passed (events.map .record)).length) := by
      rw [← hb.filter_eq, ← hb.capacity_eq]
      exact ih hb.sound
    rw [hn, List.map_cons, TraceFilter.passed_cons, List.length_append]
    omega

/-- Recording answers nothing. -/
theorem answers_records (t : Tracer) (events : List TraceEvent) :
    (t.answers (events.map .record)).flatten = [] := by
  induction events generalizing t with
  | nil => rfl
  | cons e events ih => exact ih (t.record e)

/-- A tracer that holds the newest ones of the events that have passed its filter. -/
structure HoldsNewest (capacity : Nat) (passed : List TraceEvent) (t : Tracer) : Prop where
  /-- It holds as many as there is room for. -/
  length_eq : t.events.toList.length = min (max capacity 1) passed.length
  /-- They are the last ones that passed. -/
  newest : t.events.toList <:+ passed
  /-- All others have been evicted. -/
  evicted_eq : t.evicted = passed.length - t.events.toList.length

/-- A tracer from which nothing has been taken out holds the newest events. -/
theorem holdsNewest_of_records (capacity : Nat) (filter : TraceFilter)
    (events : List TraceEvent) :
    HoldsNewest capacity (filter.passed (events.map .record))
      ((new capacity filter).after (events.map .record)) := by
  have h := sound_new capacity filter
  obtain ⟨-, -, -, hc, he, ha⟩ := balances_after h (events.map .record)
  have hp : filter.passed (events.map .record) = _ := hc
  have ht := ha.symm.trans (answers_records _ events)
  -- Nothing was answered, so that all that has left was evicted.
  have hl := Departure.length_taken ((new capacity filter).departures (events.map .record))
  rw [ht, List.length_nil, Nat.add_zero] at hl
  refine ⟨?_, ⟨_, hp.symm⟩, ?_⟩
  · rw [Queue.length_toList]
    exact (size_after_records h events).trans (congrArg (min _) (Nat.zero_add _))
  · rw [hp, List.length_append, List.length_map, hl, Nat.add_sub_cancel]
    exact he.trans (Nat.zero_add _)

/-- What is recorded next and what is taken out next. -/
structure Next (t : Tracer) : Prop where
  /-- An event that does not pass the filter changes nothing. -/
  ignores : ∀ e, t.filter.keeps e = false →
    t.record e = t ∧ Use.departures t (.record e) = []
  /-- As long as there is room, an event that passes becomes the newest, and none leaves. -/
  adds : ∀ e, t.filter.keeps e = true → t.events.toList.length < t.capacity →
    (t.record e).events.toList = t.events.toList ++ [e] ∧ (t.record e).evicted = t.evicted ∧
      Use.departures t (.record e) = []
  /-- When there is none, the oldest event is evicted. -/
  replaces : ∀ e, t.filter.keeps e = true → t.events.toList.length = t.capacity →
    ∃ oldest rest, t.events.toList = oldest :: rest ∧
      (t.record e).events.toList = rest ++ [e] ∧ (t.record e).evicted = t.evicted + 1 ∧
      Use.departures t (.record e) = [.evicted oldest]
  /-- Taking events out answers the oldest ones, as many as are asked for and held, evicts
  none and leaves the others. -/
  drains : ∀ most,
    (t.drain most).1 = t.events.toList.take (min most t.events.toList.length) ∧
      (t.drain most).1.length = min most t.events.toList.length ∧
      (t.drain most).1 ++ (t.drain most).2.events.toList = t.events.toList ∧
      (t.drain most).2.evicted = t.evicted ∧
      Use.departures t (.drain most) = (t.drain most).1.map .drained

/-- This is what a sound tracer does next. -/
theorem next_of_sound (h : t.Sound) : Next t where
  ignores _ hk := ⟨record_of_ignored hk, departures_of_ignored hk⟩
  adds e hk hl := by
    rw [Queue.length_toList] at hl
    rw [record_of_room hk hl]
    exact ⟨Queue.toList_push _ e, rfl, departures_of_room hl⟩
  replaces e hk hl := by
    rw [Queue.length_toList] at hl
    obtain ⟨oldest, rest, ho⟩ := h.oldest hl
    rw [record_of_full hk hl]
    exact ⟨oldest, rest, ho, (replaced_events ho e).1, rfl, departures_of_full hk hl ho⟩
  drains most := by
    have hn : t.events.toList.take most = t.events.toList.take (min most t.events.toList.length) :=
      List.take_eq_take_min
    refine ⟨hn, List.length_take, ?_, rfl, rfl⟩
    rw [drain, Queue.toList_ofList]
    exact List.take_append_drop most _

/-- The accounts of a tracer that has been used since it was new. -/
structure Accounts (capacity : Nat) (filter : TraceFilter) (uses : List Use) (t : Tracer) :
    Prop where
  /-- The filter stays. -/
  filter_eq : t.filter = filter
  /-- So does the capacity, and one of none counts as one. -/
  capacity_eq : t.capacity = max capacity 1
  /-- No more events are held than the capacity. -/
  bounded : t.events.toList.length ≤ t.capacity
  /-- What has passed the filter is what has left, in order, and then what is held. -/
  conserved : filter.passed uses =
    ((new capacity filter).departures uses).map Departure.event ++ t.events.toList
  /-- The evicted events have been counted. -/
  evicted_eq : t.evicted = ((new capacity filter).departures uses).countP Departure.isEvicted
  /-- All others that have left have been answered, in the order in which they left. -/
  answers_eq : ((new capacity filter).answers uses).flatten =
    Departure.taken ((new capacity filter).departures uses)
  /-- What leaves in one more use leaves behind all that. -/
  leaves : ∀ use, (new capacity filter).departures (uses ++ [use]) =
    (new capacity filter).departures uses ++ use.departures t
  /-- Events are evicted and taken out from the front, and evicted only for want of room. -/
  next : Next t
  /-- The events of an instruction are recorded one by one. -/
  retires : ∀ retired m,
    t.recordRetired retired m = t.after ((TraceEvent.ofRetired retired m).map .record)
  /-- If nothing has been taken out, the newest events are held. -/
  undrained : ∀ events : List TraceEvent, uses = events.map .record →
    HoldsNewest capacity (filter.passed uses) t

end Tracer

/-- A tracer keeps its accounts: whatever has passed its filter has been evicted or taken out
from the front, in order, or is held. -/
theorem ring_accounts (capacity : Nat) (filter : TraceFilter) (uses : List Use) :
    Tracer.Accounts capacity filter uses ((Tracer.new capacity filter).after uses) := by
  have hb := Tracer.balances_after (Tracer.sound_new capacity filter) uses
  refine ⟨hb.filter_eq, hb.capacity_eq, ?_, hb.conserved, ?_, hb.answers_eq, ?_,
    Tracer.next_of_sound hb.sound, Tracer.recordRetired_eq_after _, ?_⟩
  · rw [Queue.length_toList]
    exact hb.sound.size_le
  · exact hb.evicted_eq.trans (Nat.zero_add _)
  · intro use
    rw [Tracer.departures_append]
    exact congrArg _ (List.append_nil _)
  · rintro events rfl
    exact Tracer.holdsNewest_of_records capacity filter events

/-- With room for two events, the third one evicts the first one. After the second one has
been taken out there is room again, once. -/
example :
    let uses : List Use := [.record (.instruction 1 0), .record (.call 1 2),
      .record (.draw 1 2 3 false), .record (.ret 2 3), .drain 1, .record (.call 3 4),
      .record (.ret 4 5)]
    (Tracer.new 2 .standard).departures uses =
        [.evicted (.call 1 2), .drained (.draw 1 2 3 false), .evicted (.ret 2 3)] ∧
      ((Tracer.new 2 .standard).after uses).events.toList = [.call 3 4, .ret 4 5] ∧
      ((Tracer.new 2 .standard).after uses).evicted = 2 := by
  decide

end Chip8.Debug
