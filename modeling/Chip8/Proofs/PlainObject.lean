import Chip8.Json.Tagged
import Chip8.Proofs.Layout

/-!
# Plain objects

Objects all of whose values are plain: no arrays and no objects. They are read member by
member, they can be held, and what is found under a key does not depend on the order of
the members nor on members with other keys.
-/

namespace Chip8.Json

/-- Whether a token is a plain value. -/
def Token.IsScalar : Token → Prop
  | .null => True
  | .bool _ => True
  | .number _ => True
  | .text (some _) => True
  | _ => False

/-- The value that a plain token is. -/
def Token.value : Token → Value
  | .bool b => .bool b
  | .number n => .number n
  | .text content => .text content
  | _ => .null

/-- Members with plain values as tokens. -/
def plain (all : List (String × Token)) : List (String × List Token) :=
  all.map fun m => (m.1, [m.2])

/-- Members with plain values as tokens, each behind a comma. -/
def further (all : List (String × Token)) : List Token :=
  all.flatMap fun m => .comma :: Token.member (m.1, [m.2])

/-- Members with plain values as they are read. -/
def taken (all : List (String × Token)) : List (Option String × Value) :=
  all.map fun m => (some m.1, m.2.value)

/-- A text of one object that has some members and others in any order and with any blanks.
All other members are plain too, and none of them has a reserved key. -/
inductive Laid (reserved : List String) (own : Members) (text : List Char) : Prop
  /-- The members of the text are the given ones and others. -/
  | mk {all others : List (String × Token)}
      (hp : all.Perm ((own.map fun m => (m.1, m.2.token)) ++ others))
      (hk : ∀ m ∈ others, m.1 ∉ reserved) (hs : ∀ m ∈ others, m.2.IsScalar)
      (ht : Token.Spaced (Token.object (plain all)) text) : Laid reserved own text

variable {t : Token} {tokens rest : List Token} {text lexeme : List Char} {key : String}
  {all own others : List (String × Token)} {members : List (Option String × Value)}
  {outer : List Value.Frame} {room : Nat}

/-- A plain object is its first member, and then each other one behind a comma. -/
theorem object_plain_cons (m : String × Token) (all : List (String × Token)) :
    Token.object (plain (m :: all)) =
      .openBrace :: (Token.member (m.1, [m.2]) ++ (further all ++ [.closeBrace])) := by
  rw [plain, List.map_cons, Token.object_cons, List.flatMap_map]
  rfl

namespace Value

/-- A plain value is complete with its token. -/
theorem begin_of_isScalar (h : t.IsScalar) (outer : List Frame) :
    Reader.begin outer t = some (Reader.finish t.value outer) := by
  cases t with
  | text content =>
    cases content with
    | none => exact h.elim
    | some s => rfl
  | null => rfl
  | bool b => rfl
  | number n => rfl
  | _ => exact h.elim

/-- A member with a plain value is read to its end. -/
theorem foldlM_member (h : t.IsScalar) (key : String)
    (members : List (Option String × Value)) (outer : List Frame) :
    (Token.member (key, [t])).foldlM Reader.step (.key members outer) =
      some (.moreMembers (members ++ [(some key, t.value)]) outer) := by
  show (Reader.begin (.object members (some key) :: outer) t).bind some = _
  rw [begin_of_isScalar h]
  rfl

/-- Members with plain values behind commas are read to the end of the last one. -/
theorem foldlM_members (h : ∀ m ∈ all, m.2.IsScalar)
    (members : List (Option String × Value)) (outer : List Frame) :
    (further all).foldlM Reader.step (.moreMembers members outer) =
      some (.moreMembers (members ++ taken all) outer) := by
  induction all generalizing members with
  | nil =>
    rw [taken, List.map_nil, List.append_nil]
    rfl
  | cons m all ih =>
    obtain ⟨hfirst, hothers⟩ := List.forall_mem_cons.mp h
    have hc : Reader.step (.moreMembers members outer) .comma = some (.key members outer) := rfl
    rw [further, List.flatMap_cons, List.cons_append, List.foldlM_cons, hc, Option.bind_eq_bind,
      Option.bind_some, List.foldlM_append, foldlM_member hfirst, Option.bind_eq_bind,
      Option.bind_some, ← further, ih hothers, List.append_assoc]
    rfl

/-- An object of plain values is read whole. -/
theorem ofTokens_plain (h : ∀ m ∈ all, m.2.IsScalar) :
    ofTokens (Token.object (plain all)) = some (.object (taken all)) := by
  cases all with
  | nil => rfl
  | cons m all =>
    obtain ⟨hfirst, hothers⟩ := List.forall_mem_cons.mp h
    -- The first key is read like a key behind a comma.
    have hk : (Token.object (plain (m :: all))).foldlM Reader.step (.value []) =
        (Token.member (m.1, [m.2]) ++ (further all ++ [Token.closeBrace])).foldlM Reader.step
          (.key [] []) := by
      rw [object_plain_cons]
      rfl
    rw [ofTokens, hk, List.foldlM_append, foldlM_member hfirst, Option.bind_eq_bind,
      Option.bind_some, List.foldlM_append, foldlM_members hothers, Option.bind_eq_bind,
      Option.bind_some]
    rfl

/-- What is spelled can be held. -/
theorem isHeld_of_spelled (h : Token.Spelled t lexeme) : isHeld t = true := by
  cases h with
  | minus hn =>
    rw [Number.minus]
    split <;> rfl
  | _ => rfl

/-- All tokens that a text spells can be held. -/
theorem all_isHeld (h : Token.Spaced tokens text) : tokens.all isHeld = true := by
  induction h with
  | nil hb => rfl
  | cons hb ht h ih => rw [List.all_cons, isHeld_of_spelled ht, ih, Bool.and_self]

/-- Tokens among which no bracket opens or closes do not count for the nesting. -/
theorem nestsWithin_append (h : ∀ t ∈ tokens,
      t ∉ [Token.openBrace, .closeBrace, .openBracket, .closeBracket]) (room : Nat)
    (rest : List Token) : nestsWithin room (tokens ++ rest) = nestsWithin room rest := by
  induction tokens with
  | nil => rfl
  | cons t tokens ih =>
    obtain ⟨hfirst, hothers⟩ := List.forall_mem_cons.mp h
    rw [List.cons_append, ← ih hothers]
    cases t <;> simp [nestsWithin] at hfirst ⊢

/-- In a member with a plain value no bracket opens or closes. -/
theorem not_mem_brackets_of_member (h : t.IsScalar) : ∀ u ∈ Token.member (key, [t]),
    u ∉ [Token.openBrace, .closeBrace, .openBracket, .closeBracket] := by
  have ht : t ∉ [Token.openBrace, .closeBrace, .openBracket, .closeBracket] := by
    cases t <;> simp [Token.IsScalar] at h ⊢
  rw [Token.member]
  simp only [List.forall_mem_cons]
  exact ⟨by simp, by simp, ht, fun _ hm => absurd hm List.not_mem_nil⟩

/-- An object of plain values opens one bracket. -/
theorem nestsWithin_plain (h : ∀ m ∈ all, m.2.IsScalar) (room : Nat) :
    nestsWithin (room + 1) (Token.object (plain all)) = true := by
  cases all with
  | nil => rfl
  | cons m all =>
    obtain ⟨hfirst, hothers⟩ := List.forall_mem_cons.mp h
    have hf : ∀ t ∈ further all,
        t ∉ [Token.openBrace, .closeBrace, .openBracket, .closeBracket] := by
      intro t ht
      obtain ⟨m, hm, ht⟩ := List.mem_flatMap.mp ht
      rcases List.mem_cons.mp ht with rfl | ht
      · simp
      · exact not_mem_brackets_of_member (hothers m hm) t ht
    rw [object_plain_cons, nestsWithin, nestsWithin_append (not_mem_brackets_of_member hfirst),
      nestsWithin_append hf]
    simp [nestsWithin]

end Value

/-- The token of a plain value is one. -/
theorem Scalar.isScalar_token (s : Scalar) : s.token.IsScalar := by
  cases s <;> trivial

/-- Under a key the values of the members with this key are found, in order. -/
theorem withKey_taken (key : String) (all : List (String × Token)) :
    Value.withKey key (taken all) =
      (all.filter fun m => m.1 = key).map fun m => m.2.value := by
  rw [Value.withKey, taken, List.filter_map, List.map_map]
  simp only [Function.comp_def, Option.some.injEq]

/-- Where no key is repeated, no more than one member has a given key. -/
theorem length_filter_key_le (hd : (own.map Prod.fst).Nodup) (key : String) :
    (own.filter fun m => m.1 = key).length ≤ 1 := by
  have hs := (List.filter_sublist (p := fun m => m.1 = key) (l := own)).map Prod.fst
  have hr : (own.filter fun m => m.1 = key).map Prod.fst =
      List.replicate (own.filter fun m => m.1 = key).length key := by
    apply List.eq_replicate_of_mem ?_ |>.trans
    · rw [List.length_map]
    · intro k hk
      obtain ⟨m, hm, rfl⟩ := List.mem_map.mp hk
      exact of_decide_eq_true (List.mem_filter.mp hm).2
  have hn := hd.sublist hs
  rw [hr] at hn
  exact List.nodup_replicate.mp hn

/-- What is found under a key that is not repeated depends neither on the order of the
members nor on those with other keys. -/
theorem withKey_of_perm (hp : all.Perm (own ++ others)) (hk : ∀ m ∈ others, m.1 ≠ key)
    (hd : (own.map Prod.fst).Nodup) :
    Value.withKey key (taken all) = Value.withKey key (taken own) := by
  have ho : (others.filter fun m => m.1 = key) = [] := by
    apply List.filter_eq_nil_iff.mpr
    intro m hm
    simpa using hk m hm
  have hf := hp.filter fun m => m.1 = key
  rw [List.filter_append, ho, List.append_nil] at hf
  have he : (all.filter fun m => m.1 = key) = own.filter fun m => m.1 = key := by
    have hl := length_filter_key_le hd key
    generalize (own.filter fun m => m.1 = key) = found at hf hl
    match found with
    | [] => exact hf.eq_nil
    | [m] => exact List.perm_singleton.mp hf
  rw [withKey_taken, withKey_taken, he]

/-- Under the key of a member its value is found if the key is not repeated. -/
theorem withKey_of_mem (hd : (own.map Prod.fst).Nodup) (hm : (key, t) ∈ own) :
    Value.withKey key (taken own) = [t.value] := by
  have hl := length_filter_key_le hd key
  have hf : (key, t) ∈ own.filter fun m => m.1 = key :=
    List.mem_filter.mpr ⟨hm, decide_eq_true rfl⟩
  rw [withKey_taken]
  generalize (own.filter fun m => m.1 = key) = found at hl hf
  match found with
  | [m] => rw [← List.mem_singleton.mp hf, List.map_singleton]

/-- A text of an object of plain values is read member by member. -/
theorem Laid.read {reserved : List String} {own : Members} (h : Laid reserved own text)
    (hd : (own.map Prod.fst).Nodup) :
    ∃ all : List (String × Token),
      Value.ofTokens (Token.ofChars text) = some (.object (taken all)) ∧
      Value.heldOfTokens (Token.ofChars text) = some (.object (taken all)) ∧
      ∀ key ∈ reserved, Value.withKey key (taken all) =
        Value.withKey key (taken (own.map fun m => (m.1, m.2.token))) := by
  obtain ⟨hp, hk, hs, ht⟩ := h
  rename_i all others
  have hplain : ∀ m ∈ all, m.2.IsScalar := by
    intro m hm
    rcases List.mem_append.mp (hp.mem_iff.mp hm) with hm | hm
    · obtain ⟨m, _, rfl⟩ := List.mem_map.mp hm
      exact m.2.isScalar_token
    · exact hs m hm
  have hchain : (Token.object (plain all)).IsChain Token.Apart := by
    apply Token.isChain_apart_object
    intro m hm
    obtain ⟨m, _, rfl⟩ := List.mem_map.mp hm
    exact .singleton _
  have hkeys : ((own.map fun m => (m.1, m.2.token)).map Prod.fst).Nodup := by
    rw [List.map_map]
    exact hd
  rw [Token.ofChars_of_spaced ht hchain]
  refine ⟨all, Value.ofTokens_plain hplain, ?_, fun key hm => ?_⟩
  · rw [Value.heldOfTokens, Value.all_isHeld ht, Value.nestingLimit,
      Value.nestsWithin_plain hplain, Value.ofTokens_plain hplain]
    rfl
  · exact withKey_of_perm hp (fun m ho he => hk m ho (he ▸ hm)) hkeys

/-- An object as it is printed is one of its texts. -/
theorem laid_objectChars {own : Members} (h : ∀ m ∈ own, m.2.Fits) (reserved : List String) :
    Laid reserved own (objectChars own) := by
  have hp : (own.map fun m => (m.1, m.2.token)).Perm
      ((own.map fun m => (m.1, m.2.token)) ++ []) := .of_eq (List.append_nil _).symm
  refine .mk hp (fun _ hm => absurd hm List.not_mem_nil)
    (fun _ hm => absurd hm List.not_mem_nil) ?_
  rw [plain, List.map_map]
  exact spaced_objectChars h

end Chip8.Json
