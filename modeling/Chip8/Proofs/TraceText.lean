import Chip8.Debug.Codec
import Chip8.Proofs.PlainObject

/-!
# Texts of trace values

A reason for a pause, an event and a filter are read from every text that lays them out:
members in any order, with any blanks, among other members. What is printed is such a
text.
-/

namespace Chip8

open Json (Laid Members Token)

namespace Json

variable {kind key : String} {fields : Members} {text : List Char} {body : Body}
  {members : List (Option String × Value)}

/-- The word that a number writes. -/
theorem Value.word?_toNat (w : UInt16) : Value.word? (.number (.natural w.toNat)) = some w := by
  rw [word?, natural?, if_pos w.toNat_lt, Option.map_some, UInt16.ofNat_toNat]

/-- The byte that a number writes. -/
theorem Value.byte?_toNat (b : UInt8) : Value.byte? (.number (.natural b.toNat)) = some b := by
  rw [byte?, natural?, if_pos b.toNat_lt, Option.map_some, UInt8.ofNat_toNat]

/-- A word fits into the numbers that are read. -/
@[simp]
theorem Scalar.fits_word (w : UInt16) : (Scalar.natural w.toNat).Fits :=
  Nat.lt_trans w.toNat_lt (by decide)

/-- A byte fits into the numbers that are read. -/
@[simp]
theorem Scalar.fits_byte (b : UInt8) : (Scalar.natural b.toNat).Fits :=
  Nat.lt_trans b.toNat_lt (by decide)

/-- Every truth value fits. -/
@[simp]
theorem Scalar.fits_bool (b : Bool) : (Scalar.bool b).Fits := trivial

/-- Every text fits. -/
@[simp]
theorem Scalar.fits_text (s : String) : (Scalar.text s).Fits := trivial

/-- Whether the fields of a kind are all found, with their values, in a body. -/
def Body.Holds (body : Body) (fields : Members) : Prop :=
  body.fields? (fields.map Prod.fst) = some (fields.map fun m => m.2.token.value)

/-- Fields that stand once in an object are all found in it. -/
theorem Body.holds_members (h : ∀ m ∈ fields, Value.withKey m.1 members = [m.2.token.value]) :
    (Body.members members).Holds fields := by
  show (fields.map Prod.fst).mapM (fun name => Value.only? name members) = _
  induction fields with
  | nil => rfl
  | cons m fields ih =>
    obtain ⟨hfirst, hothers⟩ := List.forall_mem_cons.mp h
    rw [List.map_cons, List.mapM_cons, Value.only?, hfirst, ih hothers]
    rfl

end Json

namespace Debug

/-- A tagged value is read from each of its texts as its kind and its fields. -/
theorem read_tagged {kind : String} {fields : Members} {text : List Char}
    (hd : ((taggedMembers kind fields).map Prod.fst).Nodup)
    (h : Laid ((taggedMembers kind fields).map Prod.fst) (taggedMembers kind fields) text) :
    ∃ body : Json.Body, (Json.Value.heldOfTokens (Token.ofChars text)).bind
      Json.Value.tagged? = some (kind, body) ∧ body.Holds fields := by
  obtain ⟨all, _, hr, hkey⟩ := h.read hd
  have hfound : ∀ m ∈ taggedMembers kind fields,
      Json.Value.withKey m.1 (Json.taken all) = [m.2.token.value] := by
    intro m hm
    rw [hkey m.1 (List.mem_map_of_mem hm)]
    apply Json.withKey_of_mem
    · rw [List.map_map]
      exact hd
    · exact List.mem_map.mpr ⟨m, hm, rfl⟩
  obtain ⟨hkind, hfields⟩ := List.forall_mem_cons.mp hfound
  refine ⟨.members (Json.taken all), ?_, Json.Body.holds_members hfields⟩
  dsimp only at hkind
  rw [hr, Option.bind_some, Json.Value.tagged?, Json.Value.only?, hkind]
  rfl

/-- What is written is read back, so different values are written differently. -/
structure ReadsBack {α : Type} (write : α → String) (read : String → Option α) : Prop where
  /-- Every value is read from what is written for it. -/
  read_write : ∀ a, read (write a) = some a
  /-- No two values are written as the same text. -/
  injective : Function.Injective write

/-- Where every value is read back no two of them are written as the same text. -/
theorem ReadsBack.of_read_write {α : Type} {write : α → String} {read : String → Option α}
    (h : ∀ a, read (write a) = some a) : ReadsBack write read := by
  refine ⟨h, fun a b he => ?_⟩
  have ha := h a
  rw [he, h b] at ha
  exact (Option.some.inj ha).symm

namespace PauseReason

variable {r : PauseReason} {body : Json.Body} {text : String}

/-- A reason has its fields under different keys. -/
theorem nodup_keys (r : PauseReason) : (r.members.map Prod.fst).Nodup := by
  cases r <;> simp [members, taggedMembers, fields, Json.Value.kindKey]

/-- The numbers of a reason fit. -/
theorem fits_members (r : PauseReason) : ∀ m ∈ r.members, m.2.Fits := by
  cases r <;> simp [members, taggedMembers, fields]

/-- A reason is made from its kind and its fields. -/
theorem ofBody?_kind (h : body.Holds r.fields) : ofBody? r.kind body = some r := by
  cases r with
  | manual =>
    have hf : body.fields? [] = some [] := h
    rw [kind, ofBody?, hf]
    rfl
  | breakpoint pc =>
    have hf : body.fields? ["pc"] = some [.number (.natural pc.toNat)] := h
    rw [kind, ofBody?, hf]
    dsimp only
    rw [Json.Value.word?_toNat]
    rfl
  | stepsDone =>
    have hf : body.fields? [] = some [] := h
    rw [kind, ofBody?, hf]
    rfl

/-- A reason is read from each of its texts. -/
theorem ofJson?_laid (h : Laid (r.members.map Prod.fst) r.members text.toList) :
    ofJson? text = some r := by
  obtain ⟨body, hr, hf⟩ := read_tagged r.nodup_keys h
  rw [ofJson?, Token.ofString, hr]
  exact ofBody?_kind hf

/-- A reason is read from its compact text. -/
theorem ofJson?_toJson (r : PauseReason) : ofJson? r.toJson = some r := by
  apply ofJson?_laid
  rw [toJson, String.toList_ofList]
  exact Json.laid_objectChars r.fits_members _

end PauseReason

namespace TraceEvent

variable {e : TraceEvent} {body : Json.Body} {text : String}

/-- An event has its fields under different keys. -/
theorem nodup_keys (e : TraceEvent) : (e.members.map Prod.fst).Nodup := by
  cases e <;> simp [members, taggedMembers, fields, Json.Value.kindKey]

/-- The numbers of an event fit. -/
theorem fits_members (e : TraceEvent) : ∀ m ∈ e.members, m.2.Fits := by
  cases e <;> simp [members, taggedMembers, fields]

/-- An event of two words is made from them. -/
theorem bind_ofWords? {names : List String} {a b : UInt16}
    (make : UInt16 → UInt16 → TraceEvent) (h : body.fields? names =
      some [.number (.natural a.toNat), .number (.natural b.toNat)]) :
    (body.fields? names).bind (ofWords? make) = some (make a b) := by
  rw [h, Option.bind_some, ofWords?, Json.Value.word?_toNat, Json.Value.word?_toNat]

/-- An event is made from its kind and its fields. -/
theorem ofBody?_kind (h : body.Holds e.fields) : ofBody? e.kind body = some e := by
  cases e with
  | instruction pc word => exact bind_ofWords? .instruction h
  | call source target => exact bind_ofWords? .call h
  | ret source target => exact bind_ofWords? .ret h
  | draw x y rows collision =>
    have hf : body.fields? ["x", "y", "rows", "collision"] =
        some [.number (.natural x.toNat), .number (.natural y.toNat),
          .number (.natural rows.toNat), .bool collision] := h
    rw [kind, ofBody?, hf]
    dsimp only
    rw [Json.Value.byte?_toNat, Json.Value.byte?_toNat, Json.Value.byte?_toNat]
    rfl

/-- An event is read from each of its texts. -/
theorem ofJson?_laid (h : Laid (e.members.map Prod.fst) e.members text.toList) :
    ofJson? text = some e := by
  obtain ⟨body, hr, hf⟩ := read_tagged e.nodup_keys h
  rw [ofJson?, Token.ofString, hr]
  exact ofBody?_kind hf

/-- An event is read from its compact text. -/
theorem ofJson?_toJson (e : TraceEvent) : ofJson? e.toJson = some e := by
  apply ofJson?_laid
  rw [toJson, String.toList_ofList]
  exact Json.laid_objectChars e.fits_members _

end TraceEvent

namespace TraceFilter

variable {f : TraceFilter} {listed : List String} {text : String}

/-- The listed fields as they are in a filter, and the others as they are standard. -/
def takeListed (f : TraceFilter) (listed : List String) : TraceFilter where
  instructions := if "instructions" ∈ listed then f.instructions else standard.instructions
  controlFlow := if "control_flow" ∈ listed then f.controlFlow else standard.controlFlow
  draws := if "draws" ∈ listed then f.draws else standard.draws

/-- A filter has its fields under different keys. -/
theorem nodup_keys (f : TraceFilter) : (f.members.map Prod.fst).Nodup := by
  simp [members]

/-- Under the key of a field its value is found if it is listed, and otherwise the standard
one is taken. -/
theorem optional?_listed {name : String} {b : Bool} (hm : (name, .bool b) ∈ f.members)
    (fallback : Bool) : optional? fallback (Json.Value.withKey name (Json.taken
      ((f.members.filter fun m => m.1 ∈ listed).map fun m => (m.1, m.2.token)))) =
        some (if name ∈ listed then b else fallback) := by
  by_cases hl : name ∈ listed
  · have hd := f.nodup_keys.sublist
      ((List.filter_sublist (p := fun m => m.1 ∈ listed)).map Prod.fst)
    have hf : (name, Json.Scalar.bool b) ∈ f.members.filter fun m => m.1 ∈ listed :=
      List.mem_filter.mpr ⟨hm, decide_eq_true hl⟩
    rw [Json.withKey_of_mem (by rwa [List.map_map]) (List.mem_map.mpr ⟨_, hf, rfl⟩), if_pos hl]
    rfl
  · have hn : Json.Value.withKey name (Json.taken
        ((f.members.filter fun m => m.1 ∈ listed).map fun m => (m.1, m.2.token))) = [] := by
      rw [Json.withKey_taken, List.filter_eq_nil_iff.mpr, List.map_nil]
      intro m hm he
      obtain ⟨m, hf, rfl⟩ := List.mem_map.mp hm
      rw [List.mem_filter, decide_eq_true_eq] at hf
      exact hl (of_decide_eq_true he ▸ hf.2)
    rw [hn, if_neg hl]
    rfl

/-- A filter is read from a text that lists some of its fields. -/
theorem ofJson?_laid (h : Laid (f.members.map Prod.fst)
      (f.members.filter fun m => m.1 ∈ listed) text.toList) :
    ofJson? text = some (f.takeListed listed) := by
  have hd := f.nodup_keys.sublist
    ((List.filter_sublist (p := fun m => m.1 ∈ listed)).map Prod.fst)
  obtain ⟨all, hr, _, hkey⟩ := h.read hd
  have hkeys : ((Json.taken all).all fun member => member.1.isSome) = true := by
    simp [Json.taken]
  rw [ofJson?, Token.ofString, hr, Option.bind_some, ofValue?, if_pos hkeys,
    hkey "instructions" (by simp [members]), hkey "control_flow" (by simp [members]),
    hkey "draws" (by simp [members]), ofParts?,
    optional?_listed (b := f.instructions) (by simp [members]),
    optional?_listed (b := f.controlFlow) (by simp [members]),
    optional?_listed (b := f.draws) (by simp [members])]
  rfl

/-- A filter is read from its compact text. -/
theorem ofJson?_toJson (f : TraceFilter) : ofJson? f.toJson = some f := by
  have hall : (f.members.filter fun m => m.1 ∈ f.members.map Prod.fst) = f.members :=
    List.filter_eq_self.mpr fun m hm => decide_eq_true (List.mem_map_of_mem hm)
  have hfits : ∀ m ∈ f.members, m.2.Fits := by
    simp [members]
  have hl : Laid (f.members.map Prod.fst)
      (f.members.filter fun m => m.1 ∈ f.members.map Prod.fst) f.toJson.toList := by
    rw [hall, toJson, String.toList_ofList]
    exact Json.laid_objectChars hfits _
  rw [ofJson?_laid hl]
  simp [takeListed, members]

/-- A filter is printed with all of its fields in one order. -/
theorem toJson_eq (f : TraceFilter) : f.toJson =
    "\x7b\"instructions\":" ++ Text.truth f.instructions ++ ",\"control_flow\":" ++
      Text.truth f.controlFlow ++ ",\"draws\":" ++ Text.truth f.draws ++ "\x7d" := by
  -- Texts are compared by their characters.
  apply String.toList_inj.mp
  rw [toJson, String.toList_ofList]
  simp only [String.toList_append]
  rcases f with ⟨_ | _, _ | _, _ | _⟩ <;> rfl

end TraceFilter

/-- Reasons, events and filters are read back from their compact texts. Reasons and events
are read from every layout of their kind and fields, whatever plain members stand among
them; of a filter the listed fields are taken and the others are standard, and what is taken
is written with all three fields. -/
theorem trace_values_read_from_layouts :
    (ReadsBack PauseReason.toJson PauseReason.ofJson? ∧
      ReadsBack TraceEvent.toJson TraceEvent.ofJson? ∧
        ReadsBack TraceFilter.toJson TraceFilter.ofJson?) ∧
    (∀ (r : PauseReason) (text : String), Laid (r.members.map Prod.fst) r.members text.toList →
      PauseReason.ofJson? text = some r) ∧
    (∀ (e : TraceEvent) (text : String), Laid (e.members.map Prod.fst) e.members text.toList →
      TraceEvent.ofJson? text = some e) ∧
    ∀ (f : TraceFilter) (listed : List String) (text : String),
      Laid (f.members.map Prod.fst) (f.members.filter fun m => m.1 ∈ listed) text.toList →
        ∃ g, TraceFilter.ofJson? text = some g ∧
          g.instructions =
            (if "instructions" ∈ listed then f.instructions else false) ∧
          g.controlFlow = (if "control_flow" ∈ listed then f.controlFlow else true) ∧
          g.draws = (if "draws" ∈ listed then f.draws else true) ∧
          g.toJson = "\x7b\"instructions\":" ++ Text.truth g.instructions ++
            ",\"control_flow\":" ++ Text.truth g.controlFlow ++ ",\"draws\":" ++
              Text.truth g.draws ++ "\x7d" :=
  ⟨⟨.of_read_write PauseReason.ofJson?_toJson, .of_read_write TraceEvent.ofJson?_toJson,
      .of_read_write TraceFilter.ofJson?_toJson⟩,
    fun _ _ h => PauseReason.ofJson?_laid h, fun _ _ h => TraceEvent.ofJson?_laid h,
    fun f listed _ h => ⟨f.takeListed listed, TraceFilter.ofJson?_laid h, rfl, rfl, rfl,
      TraceFilter.toJson_eq _⟩⟩

/-- A call with its fields in the other order, among blanks and other members. -/
theorem call_read_among_others :
    TraceEvent.ofJson? "\x7b\"to\":516,\n\"n\" : -3,\"type\":\"Call\",\"from\":65535 \x7d" =
      some (.call 65535 516) := by
  have hp : [("to", Token.number (.natural 516)), ("n", .number (.negative 3)),
      ("type", .text (some "Call")), ("from", .number (.natural 65535))].Perm
        (((TraceEvent.call 65535 516).members.map fun m => (m.1, m.2.token)) ++
          [("n", .number (.negative 3))]) := by
    decide
  have hs : Token.Spaced (Token.object (Json.plain [("to", Token.number (.natural 516)),
      ("n", .number (.negative 3)), ("type", .text (some "Call")),
      ("from", .number (.natural 65535))]))
      "\x7b\"to\":516,\n\"n\" : -3,\"type\":\"Call\",\"from\":65535 \x7d".toList :=
    .cons .nil .openBrace
    (.cons .nil (Token.spelled_escaped ['t', 'o'])
    (.cons .nil .colon
    (.cons .nil (.natural (n := 516) (by decide))
    (.cons .nil .comma
    (.cons (.single (c := '\n') (by decide)) (Token.spelled_escaped ['n'])
    (.cons (.single (c := ' ') (by decide)) .colon
    (.cons (.single (c := ' ') (by decide)) (.minus (n := 3) (by decide))
    (.cons .nil .comma
    (.cons .nil (Token.spelled_escaped ['t', 'y', 'p', 'e'])
    (.cons .nil .colon
    (.cons .nil (Token.spelled_escaped ['C', 'a', 'l', 'l'])
    (.cons .nil .comma
    (.cons .nil (Token.spelled_escaped ['f', 'r', 'o', 'm'])
    (.cons .nil .colon
    (.cons .nil (.natural (n := 65535) (by decide))
    (.cons (.single (c := ' ') (by decide)) .closeBrace (.nil .nil)))))))))))))))))
  exact trace_values_read_from_layouts.2.2.1 (.call 65535 516) _
    (.mk hp (by decide) (by simp [Token.IsScalar]) hs)

end Debug

end Chip8
