import Chip8.Config.Reader
import Chip8.Proofs.Layout

/-!
# Config texts

Which texts write a config, as a grammar of their tokens: an object that gives some of
the members once each, or an array that gives the first ones in order, where the members
that are left out have their standard values. Reading accepts these texts and no others,
and answers the config that they write.
-/

namespace Chip8.Config

open Json (Token)

/-- The tokens by which a member of a config can be given. -/
inductive Gives (c : Config) : Field → List Token → Prop
  /-- No seed is given as the absent value. -/
  | unseeded (h : c.rngSeed = none) : Gives c .rngSeed [.null]
  /-- A seed is given as a natural number. -/
  | seeded {seed : UInt64} (h : c.rngSeed = some seed) :
      Gives c .rngSeed [.number (.natural seed.toNat)]
  /-- A register is given by its name. -/
  | named : Gives c .shiftSource [.text (some c.shiftSource.key)]
  /-- A register is given by its name as the only key of an object. -/
  | braced : Gives c .shiftSource
      [.openBrace, .text (some c.shiftSource.key), .colon, .null, .closeBrace]

/-- A member may be left out if it has this value. -/
def IsStandard (c : Config) : Field → Prop
  | .rngSeed => c.rngSeed = none
  | .shiftSource => c.shiftSource = .vx

/-- Members with the tokens of their values that together write a config. -/
structure Lists (c : Config) (given : List (Field × List Token)) : Prop where
  /-- No member is given twice. -/
  distinct : (given.map Prod.fst).Nodup
  /-- Each member is given as it is in the config. -/
  gives : ∀ m ∈ given, c.Gives m.1 m.2
  /-- Members that are left out have their standard values. -/
  standard : ∀ f ∉ given.map Prod.fst, c.IsStandard f

/-- A member by its key. -/
def keyed (m : Field × List Token) : String × List Token := (m.1.key, m.2)

/-- The tokens by which a config can be written. -/
inductive Written (c : Config) : List Token → Prop
  /-- An object with members in any order. -/
  | object {given : List (Field × List Token)} (h : c.Lists given) :
      Written c (Token.object (given.map keyed))
  /-- An array of at most two items, the seed and then the register. -/
  | array {items : List (List Token)} (hl : items.length ≤ 2)
      (h : c.Lists ([.rngSeed, .shiftSource].zip items)) : Written c (Token.array items)

/-- What a draft has heard of a member is replaced by what a config says of it. -/
def Draft.take (c : Config) (d : Draft) : Field → Draft
  | .rngSeed => { d with seed := some c.rngSeed }
  | .shiftSource => { d with shift := some c.shiftSource }

/-- Members with the tokens of their values that complete a draft to a config. -/
structure Completes (c : Config) (d : Draft) (given : List (Field × List Token)) :
    Prop where
  /-- No member is given twice. -/
  distinct : (given.map Prod.fst).Nodup
  /-- No member was given before. -/
  new : ∀ m ∈ given, d.has m.1 = false
  /-- Each member is given as it is in the config. -/
  gives : ∀ m ∈ given, c.Gives m.1 m.2
  /-- What is in the draft and what is left out is as it is in the config. -/
  complete : ((given.map Prod.fst).foldl (Draft.take c) d).config = c

/-- The first tokens of the values that members can have, and what a reader waits for
behind them. -/
inductive Begins (place : Place) (d : Draft) : Field → Token → Reader → Prop
  /-- No seed. -/
  | unseeded : Begins place d .rngSeed .null (.more place { d with seed := some none })
  /-- A seed. -/
  | seeded (n : Nat) : Begins place d .rngSeed (.number (.natural n))
      (.more place { d with seed := some (some (UInt64.ofNat n)) })
  /-- The name of a register. -/
  | named (s : ShiftSource) : Begins place d .shiftSource (.text (some s.key))
      (.more place { d with shift := some s })
  /-- A name in braces. -/
  | braced : Begins place d .shiftSource .openBrace (.register place d)

/-- Every step of a reader that meets no problem. -/
inductive Steps : Reader → Token → Reader → Prop
  /-- An object begins. -/
  | openBrace : Steps .start .openBrace .firstKey
  /-- An array begins. -/
  | openBracket : Steps .start .openBracket .firstItem
  /-- An object ends without a member. -/
  | noMember : Steps .firstKey .closeBrace (.done Draft.empty.config)
  /-- The first key. -/
  | firstKey (f : Field) : Steps .firstKey (.text (some f.key)) (.colon .empty f)
  /-- The key of a member that was not given before. -/
  | key {d : Draft} {f : Field} (h : d.has f = false) :
      Steps (.key d) (.text (some f.key)) (.colon d f)
  /-- The mark behind a key. -/
  | colon (d : Draft) (f : Field) : Steps (.colon d f) .colon (.value .member d f)
  /-- An array ends without an item. -/
  | noItem : Steps .firstItem .closeBracket (.done Draft.empty.config)
  /-- The first item begins. -/
  | firstItem {t : Token} {r : Reader} (h : Begins .item .empty .rngSeed t r) :
      Steps .firstItem t r
  /-- A value begins. -/
  | value {place : Place} {d : Draft} {f : Field} {t : Token} {r : Reader}
      (h : Begins place d f t r) : Steps (.value place d f) t r
  /-- The name of a register in braces. -/
  | register (place : Place) (d : Draft) (s : ShiftSource) :
      Steps (.register place d) (.text (some s.key)) (.registerColon place d s)
  /-- The mark behind that name. -/
  | registerColon (place : Place) (d : Draft) (s : ShiftSource) :
      Steps (.registerColon place d s) .colon (.registerNull place d s)
  /-- The absent value behind that mark. -/
  | registerNull (place : Place) (d : Draft) (s : ShiftSource) :
      Steps (.registerNull place d s) .null (.registerEnd place d s)
  /-- The closing brace behind that value. -/
  | registerEnd (place : Place) (d : Draft) (s : ShiftSource) :
      Steps (.registerEnd place d s) .closeBrace (.more place { d with shift := some s })
  /-- Another member follows. -/
  | comma (d : Draft) : Steps (.more .member d) .comma (.key d)
  /-- An object ends. -/
  | closeBrace (d : Draft) : Steps (.more .member d) .closeBrace (.done d.config)
  /-- The second item follows. -/
  | secondItem {d : Draft} (h : d.shift = none) :
      Steps (.more .item d) .comma (.value .item d .shiftSource)
  /-- An array ends. -/
  | closeBracket (d : Draft) : Steps (.more .item d) .closeBracket (.done d.config)

/-- The tokens that lead a reader from one state to another. -/
inductive Reaches : Reader → List Token → Reader → Prop
  /-- Without a token it waits for the same. -/
  | nil (r : Reader) : Reaches r [] r
  /-- One token, and then the others. -/
  | cons {r m r' : Reader} {t : Token} {tokens : List Token} (hs : Steps r t m)
      (h : Reaches m tokens r') : Reaches r (t :: tokens) r'

variable {b c : Config} {d : Draft} {f : Field} {s : ShiftSource} {place : Place}
  {r m r' : Reader} {t : Token} {name : String} {value tokens rest : List Token}
  {given : List (Field × List Token)} {fields : List Field}

namespace Draft

/-- At first a draft has heard of no member. -/
theorem has_empty (f : Field) : empty.has f = false := by
  cases f <;> rfl

/-- A draft has heard of the members that it took. -/
theorem has_take {g : Field} : (d.take c f).has g = (d.has g || decide (f = g)) := by
  cases f <;> cases g <;> simp [take, has]

/-- Of the seed a draft keeps what it took last. -/
theorem seed_foldl_take : (fields.foldl (take c) d).seed =
    if .rngSeed ∈ fields then some c.rngSeed else d.seed := by
  induction fields generalizing d with
  | nil => rfl
  | cons f fields ih =>
    rw [List.foldl_cons, ih]
    cases f <;> simp [take]

/-- Of the register a draft keeps what it took last. -/
theorem shift_foldl_take : (fields.foldl (take c) d).shift =
    if .shiftSource ∈ fields then some c.shiftSource else d.shift := by
  induction fields generalizing d with
  | nil => rfl
  | cons f fields ih =>
    rw [List.foldl_cons, ih]
    cases f <;> simp [take]

/-- A draft that took members of a config is completed to it exactly when the others have
their standard values. -/
theorem config_foldl_take :
    (fields.foldl (take c) empty).config = c ↔ ∀ f ∉ fields, c.IsStandard f := by
  have hall : (∀ f ∉ fields, c.IsStandard f) ↔
      (.rngSeed ∉ fields → c.rngSeed = none) ∧
        (.shiftSource ∉ fields → c.shiftSource = .vx) :=
    ⟨fun h => ⟨h .rngSeed, h .shiftSource⟩, fun h f => by
      cases f
      · exact h.1
      · exact h.2⟩
  rw [hall, config, seed_foldl_take, shift_foldl_take]
  rcases c with ⟨seed, source⟩
  rw [Config.mk.injEq]
  apply and_congr
  · split <;> simp_all [empty, standard, eq_comm]
  · split <;> simp_all [empty, standard, eq_comm]

/-- What a draft took of a member that is not given again is what the complete config says
of it. -/
theorem take_eq_of_not_mem (hf : f ∉ fields)
    (h : (fields.foldl (take c) (d.take b f)).config = c) : d.take b f = d.take c f := by
  rw [config, seed_foldl_take, shift_foldl_take] at h
  rw [← h]
  cases f with
  | rngSeed =>
    rw [if_neg hf]
    rfl
  | shiftSource =>
    rw [if_neg hf]
    rfl

end Draft

/-- What gives a member of a config gives it in every config that has the same. -/
theorem Gives.congr (h : d.take b f = d.take c f) (hg : b.Gives f value) :
    c.Gives f value := by
  cases hg with
  | unseeded hb =>
    have he : b.rngSeed = c.rngSeed := Option.some.inj (congrArg Draft.seed h)
    exact .unseeded (he ▸ hb)
  | seeded hb =>
    have he : b.rngSeed = c.rngSeed := Option.some.inj (congrArg Draft.seed h)
    exact .seeded (he ▸ hb)
  | named =>
    have he : b.shiftSource = c.shiftSource := Option.some.inj (congrArg Draft.shift h)
    rw [he]
    exact .named
  | braced =>
    have he : b.shiftSource = c.shiftSource := Option.some.inj (congrArg Draft.shift h)
    rw [he]
    exact .braced

/-- A register is found by its name only. -/
theorem ofKey?_eq_some_iff : ShiftSource.ofKey? name = some s ↔ name = s.key := by
  constructor
  · intro h
    unfold ShiftSource.ofKey? at h
    split_ifs at h with hx hy
    · cases h
      exact hx
    · cases h
      exact hy
  · rintro rfl
    exact ShiftSource.ofKey?_key s

/-- A member is found by its key only. -/
theorem Field.ofKey?_eq_some_iff : Field.ofKey? name = some f ↔ name = f.key := by
  constructor
  · intro h
    unfold Field.ofKey? at h
    split_ifs at h with hs hr
    · cases h
      exact hs
    · cases h
      exact hr
  · rintro rfl
    exact Field.ofKey?_key f

namespace Reader

/-- A name is accepted when a register has it. -/
theorem registerNamed_eq_ok_iff : registerNamed name = .ok s ↔ name = s.key := by
  rw [← ofKey?_eq_some_iff, registerNamed]
  cases ShiftSource.ofKey? name <;> simp

/-- A key is accepted when a member has it that was not given before. -/
theorem takeKey_eq_ok_iff : takeKey d name = .ok r ↔
    ∃ f : Field, name = f.key ∧ d.has f = false ∧ r = .colon d f := by
  constructor
  · intro h
    unfold takeKey at h
    split at h
    · rename_i f hf
      split at h
      · cases h
      · rename_i hd
        cases h
        exact ⟨f, Field.ofKey?_eq_some_iff.mp hf, Bool.eq_false_iff.mpr hd, rfl⟩
    · cases h
  · rintro ⟨f, rfl, hd, rfl⟩
    rw [takeKey, Field.ofKey?_key]
    simp [hd]

/-- The tokens with which a value is seen to begin are those with which it does. -/
theorem beginValue_eq_ok_iff : beginValue place d f t = .ok r ↔ Begins place d f t r := by
  constructor
  · intro h
    unfold beginValue at h
    split at h
    · unfold seedOf at h
      split at h
      · rename_i seed hs
        cases h
        split at hs <;> cases hs
        · exact .unseeded
        · exact .seeded _
      · cases h
    · split at h
      · rename_i hs
        cases h
        rw [registerNamed_eq_ok_iff.mp hs]
        exact .named _
      · cases h
    · cases h
      exact .braced
    · cases h
  · rintro (_ | n | s | _)
    · rfl
    · rfl
    · rw [beginValue, registerNamed_eq_ok_iff.mpr rfl]
    · rfl

/-- The steps of a reader. -/
theorem step_eq_ok_iff : step r t = .ok r' ↔ Steps r t r' := by
  constructor
  · intro h
    unfold step at h
    split at h
    case h_5 =>
      obtain ⟨f, rfl, hd, rfl⟩ := takeKey_eq_ok_iff.mp h
      exact .firstKey f
    case h_6 =>
      obtain ⟨f, rfl, hd, rfl⟩ := takeKey_eq_ok_iff.mp h
      exact .key hd
    case h_9 => exact .firstItem (beginValue_eq_ok_iff.mp h)
    case h_10 => exact .value (beginValue_eq_ok_iff.mp h)
    case h_11 =>
      split at h
      · rename_i hs
        cases h
        rw [registerNamed_eq_ok_iff.mp hs]
        exact .register _ _ _
      · cases h
    case h_18 =>
      split at h
      · cases h
      · rename_i hd
        cases h
        exact .secondItem (Option.not_isSome_iff_eq_none.mp hd)
    -- Every other line accepts a single token or refuses it.
    all_goals first
      | cases h
        constructor
      | cases h
  · rintro (_ | _ | _ | f | hd | _ | _ | hb | hb | _ | _ | _ | _ | _ | _ | hd | _)
    case firstKey => exact takeKey_eq_ok_iff.mpr ⟨f, rfl, Draft.has_empty f, rfl⟩
    case key => exact takeKey_eq_ok_iff.mpr ⟨_, rfl, hd, rfl⟩
    case firstItem => cases hb <;> rfl
    case value => exact beginValue_eq_ok_iff.mpr hb
    case register => rw [step, registerNamed_eq_ok_iff.mpr rfl]
    case secondItem => simp [step, hd]
    all_goals rfl

/-- A reader takes tokens without a problem exactly when they lead it to where it ends. -/
theorem foldlM_eq_ok_iff : tokens.foldlM step r = .ok r' ↔ Reaches r tokens r' := by
  induction tokens generalizing r with
  | nil =>
    constructor
    · intro h
      cases h
      exact .nil _
    · rintro ⟨⟩
      rfl
  | cons t tokens ih =>
    rw [List.foldlM_cons]
    constructor
    · intro h
      cases hs : step r t with
      | error problem =>
        rw [hs] at h
        cases h
      | ok m =>
        rw [hs] at h
        exact .cons (step_eq_ok_iff.mp hs) (ih.mp h)
    · intro h
      cases h with
      | cons hs h =>
        rw [step_eq_ok_iff.mpr hs]
        exact ih.mpr h

end Reader

/-- Tokens are accepted exactly when they lead the reader from its start to their config. -/
theorem ofTokens_eq_ok_iff : ofTokens tokens = .ok c ↔ Reaches .start tokens (.done c) := by
  rw [← Reader.foldlM_eq_ok_iff, ofTokens]
  constructor
  · intro h
    split at h
    · rename_i reader hr
      unfold Reader.result at h
      split at h
      · cases h
        exact hr
      · cases h
    · cases h
  · intro h
    rw [h]
    rfl

/-- A value begins with a token that says something. -/
theorem Begins.isPlain (h : Begins place d f t r) : t.IsPlain := by
  cases h <;> trivial

/-- A step looks at a token that says something. -/
theorem Steps.isPlain (h : Steps r t r') : t.IsPlain := by
  cases h with
  | firstItem hb => exact hb.isPlain
  | value hb => exact hb.isPlain
  | _ => trivial

namespace Reaches

/-- A run without a problem looks at tokens that say something. -/
theorem isPlain (h : Reaches r tokens r') : ∀ t ∈ tokens, t.IsPlain := by
  induction h with
  | nil r => exact fun _ hm => absurd hm List.not_mem_nil
  | cons hs h ih => exact List.forall_mem_cons.mpr ⟨hs.isPlain, ih⟩

/-- Runs one behind the other are one run. -/
theorem append (h : Reaches r tokens m) (ho : Reaches m rest r') :
    Reaches r (tokens ++ rest) r' := by
  induction h with
  | nil r => exact ho
  | cons hs h ih => exact .cons hs (ih ho)

/-- One token is a run. -/
theorem single (hs : Steps r t r') : Reaches r [t] r' := .cons hs (.nil r')

/-- Behind a complete config nothing is read. -/
theorem of_done (h : Reaches (.done c) tokens r') : tokens = [] ∧ r' = .done c := by
  cases h with
  | nil => exact ⟨rfl, rfl⟩
  | cons hs h => cases hs

/-- The value of a member is read to its end. -/
theorem of_gives (hg : c.Gives f value) (place : Place) (d : Draft) :
    Reaches (.value place d f) value (.more place (d.take c f)) := by
  cases hg with
  | unseeded h =>
    rw [Draft.take, h]
    exact single (.value .unseeded)
  | @seeded seed h =>
    have hs : Begins place d .rngSeed (.number (.natural seed.toNat))
        (.more place { d with seed := some (some (UInt64.ofNat seed.toNat)) }) := .seeded _
    rw [UInt64.ofNat_toNat] at hs
    rw [Draft.take, h]
    exact single (.value hs)
  | named => exact single (.value (.named _))
  | braced =>
    exact .cons (.value .braced) (.cons (.register _ _ _) (.cons (.registerColon _ _ _)
      (.cons (.registerNull _ _ _) (single (.registerEnd _ _ _)))))

/-- What is read as a register in braces is its name with the absent value. -/
theorem of_register (h : Reaches (.register place d) tokens (.done c)) :
    ∃ s rest, tokens = .text (some s.key) :: .colon :: .null :: .closeBrace :: rest ∧
      Reaches (.more place { d with shift := some s }) rest (.done c) := by
  rcases h with _ | ⟨⟨⟩, h⟩
  rcases h with _ | ⟨⟨⟩, h⟩
  rcases h with _ | ⟨⟨⟩, h⟩
  rcases h with _ | ⟨⟨⟩, h⟩
  exact ⟨_, _, rfl, h⟩

/-- What is read as the value of a member gives it. -/
theorem exists_gives (hn : Token.Small tokens)
    (h : Reaches (.value place d f) tokens (.done c)) :
    ∃ b value rest, tokens = value ++ rest ∧ Gives b f value ∧
      Reaches (.more place (d.take b f)) rest (.done c) := by
  rcases h with _ | ⟨hs, h⟩
  cases hs with
  | value hb =>
    cases hb with
    | unseeded => exact ⟨⟨none, .vx⟩, [.null], _, rfl, .unseeded rfl, h⟩
    | seeded n =>
      have ht : (UInt64.ofNat n).toNat = n :=
        UInt64.toNat_ofNat_of_lt' (hn n List.mem_cons_self)
      have hg := Gives.seeded (c := ⟨some (UInt64.ofNat n), .vx⟩) rfl
      rw [ht] at hg
      exact ⟨_, [.number (.natural n)], _, rfl, hg, h⟩
    | named s => exact ⟨⟨none, s⟩, [.text (some s.key)], _, rfl, .named, h⟩
    | braced =>
      obtain ⟨s, rest, rfl, hr⟩ := of_register h
      exact ⟨⟨none, s⟩, _, rest, rfl, .braced, hr⟩

/-- A member is read to the end of its value. -/
theorem of_member (hg : c.Gives f value) (hd : d.has f = false) :
    Reaches (.key d) (Token.member (f.key, value)) (.more .member (d.take c f)) :=
  .cons (.key hd) (.cons (.colon d f) (of_gives hg .member d))

/-- Members behind commas are read to the end of the last value. -/
theorem of_members (hg : ∀ m ∈ given, c.Gives m.1 m.2) (hd : (given.map Prod.fst).Nodup)
    (hn : ∀ m ∈ given, d.has m.1 = false) :
    Reaches (.more .member d) (given.flatMap fun m => .comma :: Token.member (keyed m))
      (.more .member ((given.map Prod.fst).foldl (Draft.take c) d)) := by
  induction given generalizing d with
  | nil => exact .nil _
  | cons m given ih =>
    obtain ⟨hfirst, hothers⟩ := List.forall_mem_cons.mp hg
    rw [List.map_cons, List.nodup_cons] at hd
    obtain ⟨hnew, hlater⟩ := List.forall_mem_cons.mp hn
    rw [List.flatMap_cons, List.map_cons, List.foldl_cons, List.cons_append]
    refine .cons (.comma d) ((of_member hfirst hnew).append (ih hothers hd.2 ?_))
    intro m' hm
    have hne : m.1 ≠ m'.1 := fun he => hd.1 (List.mem_map.mpr ⟨m', hm, he.symm⟩)
    rw [Draft.has_take, hlater m' hm, decide_eq_false hne, Bool.or_self]

end Reaches

namespace Completes

/-- A draft is complete without further members. -/
theorem nil (d : Draft) : Completes d.config d [] :=
  ⟨.nil, fun _ hm => absurd hm List.not_mem_nil, fun _ hm => absurd hm List.not_mem_nil, rfl⟩

/-- A member in front of those that complete what it leaves. -/
theorem cons (hd : d.has f = false) (hg : b.Gives f value)
    (h : Completes c (d.take b f) given) : Completes c d ((f, value) :: given) := by
  have hf : f ∉ given.map Prod.fst := by
    intro hm
    obtain ⟨m, hmem, rfl⟩ := List.mem_map.mp hm
    have hnew := h.new m hmem
    rw [Draft.has_take, decide_eq_true rfl, Bool.or_true] at hnew
    cases hnew
  have ht := Draft.take_eq_of_not_mem hf h.complete
  refine ⟨List.nodup_cons.mpr ⟨hf, h.distinct⟩, ?_, ?_, ?_⟩
  · refine List.forall_mem_cons.mpr ⟨hd, fun m hm => ?_⟩
    have hnew := h.new m hm
    rw [Draft.has_take, Bool.or_eq_false_iff] at hnew
    exact hnew.1
  · exact List.forall_mem_cons.mpr ⟨hg.congr ht, h.gives⟩
  · rw [List.map_cons, List.foldl_cons, ← ht]
    exact h.complete

end Completes

/-- Members write a config when they complete the draft that has heard of none. -/
theorem lists_iff_completes : c.Lists given ↔ Completes c .empty given :=
  ⟨fun h => ⟨h.distinct, fun m _ => Draft.has_empty m.1, h.gives,
      Draft.config_foldl_take.mpr h.standard⟩,
    fun h => ⟨h.distinct, h.gives, Draft.config_foldl_take.mp h.complete⟩⟩

/-- An object is its first member, and then each other one behind a comma. -/
theorem object_keyed_cons (m : Field × List Token) (given : List (Field × List Token)) :
    Token.object ((m :: given).map keyed) = .openBrace :: (Token.member (keyed m) ++
      ((given.flatMap fun m => .comma :: Token.member (keyed m)) ++ [.closeBrace])) := by
  rw [List.map_cons, Token.object_cons, List.flatMap_map]

namespace Reaches

/-- The first key of an object is judged like a key behind a comma. -/
theorem firstKey_iff : Reaches .firstKey (.text (some name) :: tokens) (.done c) ↔
    Reaches (.more .member .empty) (.comma :: .text (some name) :: tokens) (.done c) := by
  constructor
  · rintro (_ | ⟨⟨⟩, h⟩)
    exact .cons (.comma _) (.cons (.key (Draft.has_empty _)) h)
  · rintro (_ | ⟨⟨⟩, _ | ⟨⟨hd⟩, h⟩⟩)
    exact .cons (.firstKey _) h

/-- An object that writes a config is read to it. -/
theorem of_object (h : c.Lists given) :
    Reaches .start (Token.object (given.map keyed)) (.done c) := by
  have hcomplete := lists_iff_completes.mp h
  have hm := of_members hcomplete.gives hcomplete.distinct hcomplete.new
  have he := hm.append (single (.closeBrace _))
  rw [hcomplete.complete] at he
  cases given with
  | nil =>
    rcases he with _ | ⟨⟨⟩, he⟩
    exact .cons .openBrace (.cons .noMember he)
  | cons m given =>
    rw [List.flatMap_cons, List.append_assoc] at he
    rw [object_keyed_cons]
    exact .cons .openBrace (firstKey_iff.mpr he)

/-- Members behind commas up to the end of an object complete its draft. -/
theorem exists_completes (hn : Token.Small tokens)
    (h : Reaches (.more .member d) tokens (.done c)) :
    ∃ given, tokens = (given.flatMap fun m => .comma :: Token.member (keyed m)) ++
      [.closeBrace] ∧ Completes c d given := by
  induction hl : tokens.length using Nat.strongRecOn generalizing tokens d with
  | ind n ih =>
    rcases h with _ | ⟨hs, h⟩
    cases hs with
    | closeBrace =>
      obtain ⟨rfl, he⟩ := h.of_done
      cases he
      exact ⟨[], rfl, .nil d⟩
    | comma =>
      rcases h with _ | ⟨hs, h⟩
      cases hs with
      | @key _ f hd =>
        rcases h with _ | ⟨⟨⟩, h⟩
        obtain ⟨b, value, rest, rfl, hg, hr⟩ :=
          exists_gives hn.tail.tail.tail h
        have hrest : Token.Small rest := hn.tail.tail.tail.right
        have hlt : rest.length < n := by
          rw [← hl]
          simp only [List.length_cons, List.length_append]
          omega
        obtain ⟨given, rfl, hc⟩ := ih rest.length hlt hrest hr rfl
        refine ⟨(f, value) :: given, ?_, hc.cons hd hg⟩
        rw [List.flatMap_cons, List.append_assoc]
        rfl

/-- What is read as an object writes a config. -/
theorem exists_object (hn : Token.Small tokens)
    (h : Reaches .firstKey tokens (.done c)) :
    ∃ given, .openBrace :: tokens = Token.object (given.map keyed) ∧ c.Lists given := by
  rcases h with _ | ⟨hs, h⟩
  cases hs with
  | noMember =>
    obtain ⟨rfl, he⟩ := h.of_done
    cases he
    exact ⟨[], rfl, lists_iff_completes.mpr (.nil _)⟩
  | firstKey f =>
    have hm := firstKey_iff.mp (.cons (.firstKey f) h)
    obtain ⟨given, ht, hc⟩ := exists_completes hn.comma hm
    cases given with
    | nil => cases ht
    | cons m given =>
      rw [List.flatMap_cons, List.append_assoc, List.cons_append] at ht
      refine ⟨m :: given, ?_, lists_iff_completes.mpr hc⟩
      rw [object_keyed_cons, (List.cons.inj ht).2]

/-- The first item of an array is read like the value of the seed. -/
theorem firstItem (hg : c.Gives .rngSeed value) :
    Reaches .firstItem value (.more .item (Draft.empty.take c .rngSeed)) := by
  have h := of_gives hg .item .empty
  cases h with
  | cons hs h =>
    cases hs with
    | value hb => exact .cons (.firstItem hb) h

/-- An array ends with the draft that it has completed. -/
theorem closeBracket (h : d.config = c) : Reaches (.more .item d) [.closeBracket] (.done c) := by
  rw [← h]
  exact single (.closeBracket d)

/-- An array that writes a config is read to it. -/
theorem of_array {items : List (List Token)} (hl : items.length ≤ 2)
    (h : c.Lists ([.rngSeed, .shiftSource].zip items)) :
    Reaches .start (Token.array items) (.done c) := by
  have hcomplete := lists_iff_completes.mp h
  have hc := hcomplete.complete
  cases items with
  | nil =>
    have hs : Steps .firstItem .closeBracket (.done Draft.empty.config) := .noItem
    have he : Draft.empty.config = c := hc
    rw [he] at hs
    exact .cons .openBracket (single hs)
  | cons value items =>
    have hseed : c.Gives .rngSeed value := hcomplete.gives _ List.mem_cons_self
    rw [Token.array_cons]
    refine .cons .openBracket ((firstItem hseed).append ?_)
    cases items with
    | nil => exact closeBracket hc
    | cons source items =>
      have hn : items = [] := by
        apply List.eq_nil_of_length_eq_zero
        simp only [List.length_cons] at hl
        omega
      subst hn
      have hsource : c.Gives .shiftSource source :=
        hcomplete.gives (.shiftSource, source) (List.mem_cons_of_mem _ List.mem_cons_self)
      rw [List.flatMap_singleton]
      exact .cons (.secondItem rfl) ((of_gives hsource _ _).append (closeBracket hc))

/-- What is read as an array writes a config. -/
theorem exists_array (hn : Token.Small tokens)
    (h : Reaches .firstItem tokens (.done c)) :
    ∃ items : List (List Token), .openBracket :: tokens = Token.array items ∧
      items.length ≤ 2 ∧ c.Lists ([.rngSeed, .shiftSource].zip items) := by
  rcases h with _ | ⟨hs, h⟩
  cases hs with
  | noItem =>
    obtain ⟨rfl, he⟩ := h.of_done
    cases he
    exact ⟨[], rfl, by decide, lists_iff_completes.mpr (.nil _)⟩
  | firstItem hb =>
    obtain ⟨b, value, rest, ht, hg, hr⟩ := exists_gives hn (.cons (.value hb) h)
    rw [ht] at hn ⊢
    rcases hr with _ | ⟨hs, hr⟩
    cases hs with
    | closeBracket =>
      obtain ⟨rfl, he⟩ := hr.of_done
      cases he
      refine ⟨[value], ?_, Nat.le_succ 1, lists_iff_completes.mpr (.cons rfl hg (.nil _))⟩
      rw [Token.array_cons, List.flatMap_nil, List.nil_append]
    | secondItem hd =>
      obtain ⟨b', source, rest, rfl, hg', hr⟩ :=
        exists_gives hn.right.tail hr
      rcases hr with _ | ⟨hs, hr⟩
      cases hs with
      | secondItem hd => cases hd
      | closeBracket =>
        obtain ⟨rfl, he⟩ := hr.of_done
        cases he
        refine ⟨[value, source], ?_, Nat.le_refl 2,
          lists_iff_completes.mpr (.cons rfl hg (.cons rfl hg' (.nil _)))⟩
        rw [Token.array_cons, List.flatMap_singleton, List.cons_append]

end Reaches

/-- Exactly the tokens that write a config are accepted as this config. -/
theorem ofTokens_eq_ok_iff_written
    (hn : Token.Small tokens) :
    ofTokens tokens = .ok c ↔ c.Written tokens := by
  rw [ofTokens_eq_ok_iff]
  constructor
  · rintro (_ | ⟨⟨⟩, h⟩)
    · obtain ⟨given, ht, hl⟩ := h.exists_object hn.tail
      rw [ht]
      exact .object hl
    · obtain ⟨items, ht, hl, h⟩ := h.exists_array hn.tail
      rw [ht]
      exact .array hl h
  · rintro (h | ⟨hl, h⟩)
    · exact .of_object h
    · exact .of_array hl h

/-- No two numbers stand side by side in the value of a member. -/
theorem Gives.isChain_apart (h : c.Gives f value) : value.IsChain Token.Apart := by
  cases h with
  | braced => simp [Token.Apart, Token.isNumber]
  | _ => exact .singleton _

/-- No two numbers stand side by side in a config. -/
theorem Written.isChain_apart (h : c.Written tokens) : tokens.IsChain Token.Apart := by
  cases h with
  | object h =>
    apply Token.isChain_apart_object
    intro m hm
    obtain ⟨m, hg, rfl⟩ := List.mem_map.mp hm
    exact (h.gives m hg).isChain_apart
  | @array items hl h =>
    apply Token.isChain_apart_array
    intro item hi
    have hz : item ∈ ([Field.rngSeed, .shiftSource].zip items).map Prod.snd := by
      rwa [List.map_snd_zip hl]
    obtain ⟨m, hm, rfl⟩ := List.mem_map.mp hz
    exact (h.gives m hm).isChain_apart

/-- A text is accepted exactly when it spells tokens that write its config. -/
theorem ofJson_eq_ok_iff {text : String} : ofJson text = .ok c ↔
    ∃ tokens, c.Written tokens ∧ Token.Spaced tokens text.toList := by
  constructor
  · intro h
    have hr := ofTokens_eq_ok_iff.mp h
    have hs := Token.spaced_ofChars hr.isPlain
    exact ⟨_, (ofTokens_eq_ok_iff_written hs.small).mp h, hs⟩
  · rintro ⟨tokens, hw, hs⟩
    rw [ofJson, Token.ofString, Token.ofChars_of_spaced hs hw.isChain_apart]
    exact (ofTokens_eq_ok_iff_written hs.small).mpr hw

/-- The engine accepts exactly what is read without a problem. -/
theorem read_eq_ok_iff {text : String} : read text = .ok c ↔ ofJson text = .ok c := by
  unfold read
  cases ofJson text <;> simp

/-- The config texts are the objects and arrays that write a config, with any blanks around
their tokens; each is accepted as the config that it writes, and every other text is refused
as an invalid config. -/
theorem read_eq_ok_iff_written (text : String) :
    (∀ c, read text = .ok c ↔ ∃ tokens, c.Written tokens ∧ Token.Spaced tokens text.toList) ∧
      ((∃ problem, read text = .error (.invalidConfig problem)) ↔
        ∀ (c : Config) tokens, c.Written tokens → ¬Token.Spaced tokens text.toList) := by
  have hok : ∀ c, read text = .ok c ↔
      ∃ tokens, c.Written tokens ∧ Token.Spaced tokens text.toList := fun c =>
    read_eq_ok_iff.trans ofJson_eq_ok_iff
  refine ⟨hok, ?_⟩
  constructor
  · rintro ⟨problem, hp⟩ c tokens hw hs
    rw [(hok c).mpr ⟨tokens, hw, hs⟩] at hp
    cases hp
  · intro hn
    cases h : ofJson text with
    | ok c =>
      obtain ⟨tokens, hw, hs⟩ := ofJson_eq_ok_iff.mp h
      exact absurd hs (hn c tokens hw)
    | error problem => exact ⟨problem, by rw [read, h]⟩

/-- The plain value that a member has in a config. -/
def scalar (c : Config) : Field → Json.Scalar
  | .rngSeed =>
    match c.rngSeed with
    | some seed => .natural seed.toNat
    | none => .null
  | .shiftSource => .text c.shiftSource.key

/-- Some members of a config as they are written. -/
def membersOf (c : Config) (fields : List Field) : Json.Members :=
  fields.map fun f => (f.key, c.scalar f)

/-- Written in full, a config has the seed and then the register. -/
theorem members_eq (c : Config) : c.members = c.membersOf [.rngSeed, .shiftSource] := by
  rcases c with ⟨_ | seed, source⟩ <;> rfl

/-- The plain value of a member gives it. -/
theorem gives_scalar (c : Config) (f : Field) : c.Gives f [(c.scalar f).token] := by
  cases f with
  | rngSeed =>
    cases h : c.rngSeed with
    | none =>
      rw [scalar, h]
      exact .unseeded h
    | some seed =>
      rw [scalar, h]
      exact .seeded h
  | shiftSource => exact .named

/-- Seeds fit into the numbers that are read. -/
theorem fits_scalar (c : Config) (f : Field) : (c.scalar f).Fits := by
  cases f with
  | rngSeed =>
    cases h : c.rngSeed with
    | none =>
      rw [scalar, h]
      trivial
    | some seed =>
      rw [scalar, h]
      exact seed.toNat_lt
  | shiftSource => trivial

/-- Members as they are in a config, each at most once and all that are not standard, write
it. -/
theorem lists_scalars (hd : fields.Nodup) (hs : ∀ f ∉ fields, c.IsStandard f) :
    c.Lists (fields.map fun f => (f, [(c.scalar f).token])) := by
  have hk : (fields.map fun f => (f, [(c.scalar f).token])).map Prod.fst = fields := by
    rw [List.map_map]
    exact List.map_id fields
  refine ⟨by rwa [hk], ?_, by rwa [hk]⟩
  intro m hm
  obtain ⟨f, _, rfl⟩ := List.mem_map.mp hm
  exact c.gives_scalar f

/-- So does the object of these members. -/
theorem written_membersOf (hd : fields.Nodup) (hs : ∀ f ∉ fields, c.IsStandard f) :
    c.Written (Token.object (c.membersOf fields).tokens) := by
  have hw := Written.object (lists_scalars hd hs)
  rw [List.map_map] at hw
  rw [membersOf, Json.Members.tokens, List.map_map]
  exact hw

/-- However a config is laid out as an object, with its members in any order, without
standard ones and with any blanks around the tokens, reading it gives the config back; so
does reading its compact text. -/
theorem read_layout (c : Config) :
    (∀ fields : List Field, fields.Nodup → (∀ f ∉ fields, c.IsStandard f) →
      ∀ text : String, Token.Spaced (Token.object (c.membersOf fields).tokens) text.toList →
        read text = .ok c) ∧ read c.toJson = .ok c := by
  have hlayout : ∀ fields : List Field, fields.Nodup → (∀ f ∉ fields, c.IsStandard f) →
      ∀ text : String, Token.Spaced (Token.object (c.membersOf fields).tokens) text.toList →
        read text = .ok c := fun fields hd hs text ht =>
    read_eq_ok_iff.mpr (ofJson_eq_ok_iff.mpr ⟨_, written_membersOf hd hs, ht⟩)
  refine ⟨hlayout, hlayout [.rngSeed, .shiftSource] (by decide) ?_ c.toJson ?_⟩
  · intro f hf
    cases f <;> simp at hf
  · rw [toJson, String.toList_ofList, members_eq]
    apply Json.spaced_objectChars
    intro m hm
    obtain ⟨f, _, rfl⟩ := List.mem_map.mp hm
    exact c.fits_scalar f

/-- The members in the other order, with blanks of every kind and the largest seed. -/
theorem read_of_swapped_members :
    read "\n\x7b\t\"shift_source\" : \"vy\",\r\"rng_seed\":18446744073709551615 \x7d " =
      .ok ⟨some 18446744073709551615, .vy⟩ := by
  have hs : Token.Spaced
      (Token.object (membersOf ⟨some 18446744073709551615, .vy⟩ [.shiftSource, .rngSeed]).tokens)
      "\n\x7b\t\"shift_source\" : \"vy\",\r\"rng_seed\":18446744073709551615 \x7d ".toList :=
    .cons (.single (c := '\n') (by decide)) .openBrace
    (.cons (.single (c := '\t') (by decide)) (Token.spelled_escaped
      ['s', 'h', 'i', 'f', 't', '_', 's', 'o', 'u', 'r', 'c', 'e'])
    (.cons (.single (c := ' ') (by decide)) .colon
    (.cons (.single (c := ' ') (by decide)) (Token.spelled_escaped ['v', 'y'])
    (.cons .nil .comma
    (.cons (.single (c := '\r') (by decide)) (Token.spelled_escaped
      ['r', 'n', 'g', '_', 's', 'e', 'e', 'd'])
    (.cons .nil .colon
    (.cons .nil (.natural (n := 18446744073709551615) (by decide))
    (.cons (.single (c := ' ') (by decide)) .closeBrace
    (.nil (.single (c := ' ') (by decide)))))))))))
  exact (read_layout ⟨some 18446744073709551615, .vy⟩).1 [.shiftSource, .rngSeed] (by decide)
    (by intro f hf; cases f <;> simp at hf) _ hs

end Chip8.Config
