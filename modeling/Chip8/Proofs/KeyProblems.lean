import Chip8.Proofs.ConfigText

/-!
# Problems at keys

A config text is refused at its first problem, whatever follows. A key is judged when its
closing quote is read: behind members that are accepted, a key that no member has and a key
that was there before are refused at once, and the rest of the text may be anything at all,
not even made of tokens.
-/

namespace Chip8

namespace Json.Token

variable {tokens : List Token} {text rest : List Char}

/-- A text in front of another one stops a number if both do. -/
theorem stops_append (h : Literal.Stops text) (hr : Literal.Stops rest) :
    Literal.Stops (text ++ rest) := by
  cases text with
  | nil => exact hr
  | cons c text => exact h

/-- The tokens that are spelled at the front of a text are cut off, whatever stands behind
them, if it does not go on with a number. -/
theorem ofChars_append_of_spaced (h : Spaced tokens text) (ha : tokens.IsChain Apart)
    (hr : Literal.Stops rest) : ofChars (text ++ rest) = tokens ++ ofChars rest := by
  induction h with
  | nil hb => exact ofChars_blanks hb rest
  | @cons t tokens blanks lexeme text hb ht h ih =>
    obtain ⟨hn, hc⟩ := List.isChain_cons.mp ha
    have hs : t.isNumber = true → Literal.Stops (text ++ rest) := fun hi =>
      stops_append (h.stops fun next hm => hn next hm hi) hr
    rw [List.append_assoc, List.append_assoc, ofChars_blanks hb, ofChars_spelled ht hs, ih hc,
      List.cons_append]

end Json.Token

namespace Config

open Json (Token)

/-- A member with the tokens of a value that it has in some config. -/
def Accepted (m : Field × List Token) : Prop := ∃ c : Config, c.Gives m.1 m.2

/-- The tokens of an object up to the key behind some members. -/
def opening (given : List (Field × List Token)) : List Token :=
  .openBrace :: given.flatMap fun m => Token.member (keyed m) ++ [Token.comma]

/-- A reader that waits for a key, with the members that a draft has heard of behind it. -/
inductive AwaitsKey : Draft → Reader → Prop
  /-- The first key. -/
  | first : AwaitsKey .empty .firstKey
  /-- The key behind a comma. -/
  | next (d : Draft) : AwaitsKey d (.key d)

variable {d : Draft} {r : Reader} {t : Token} {problem : Problem} {tokens : List Token}
  {m : Field × List Token} {given : List (Field × List Token)} {name : String}

/-- The first problem is the answer, whatever follows it. -/
theorem ofTokens_eq_error (h : Reaches .start tokens r) (hs : r.step t = .error problem)
    (rest : List Token) : ofTokens (tokens ++ t :: rest) = .error problem := by
  have hf : (tokens ++ t :: rest).foldlM Reader.step .start = .error problem := by
    rw [List.foldlM_append, Reader.foldlM_eq_ok_iff.mpr h]
    show (t :: rest).foldlM Reader.step r = _
    rw [List.foldlM_cons, hs]
    rfl
  rw [ofTokens, hf]

namespace AwaitsKey

/-- A reader that waits for a key judges it at once. -/
theorem step_eq (h : AwaitsKey d r) (name : String) :
    r.step (.text (some name)) = Reader.takeKey d name := by
  cases h with
  | first => rfl
  | next d => rfl

/-- A member that is accepted is read up to the comma behind it. -/
theorem member (h : AwaitsKey d r) (hm : Accepted m) (hd : d.has m.1 = false) :
    ∃ c : Config, Reaches r (Token.member (keyed m) ++ [.comma]) (.key (d.take c m.1)) := by
  obtain ⟨c, hg⟩ := hm
  have hk : Steps r (.text (some m.1.key)) (.colon d m.1) := by
    cases h with
    | first => exact .firstKey m.1
    | next d => exact .key hd
  exact ⟨c, .cons hk (.cons (.colon d m.1)
    ((Reaches.of_gives hg .member d).append (.single (.comma _))))⟩

/-- Members that are accepted are read up to the comma behind the last one, and the draft
has then heard of them. -/
theorem members (h : AwaitsKey d r) (hg : ∀ m ∈ given, Accepted m)
    (hd : (given.map Prod.fst).Nodup) (hn : ∀ m ∈ given, d.has m.1 = false) :
    ∃ d' r', AwaitsKey d' r' ∧
      Reaches r (given.flatMap fun m => Token.member (keyed m) ++ [.comma]) r' ∧
      ∀ f, d'.has f = true ↔ d.has f = true ∨ f ∈ given.map Prod.fst := by
  induction given generalizing d r with
  | nil => exact ⟨d, r, h, .nil r, fun f => by simp⟩
  | cons m given ih =>
    obtain ⟨hfirst, hothers⟩ := List.forall_mem_cons.mp hg
    rw [List.map_cons, List.nodup_cons] at hd
    obtain ⟨hnew, hlater⟩ := List.forall_mem_cons.mp hn
    obtain ⟨c, hm⟩ := h.member hfirst hnew
    have hrest : ∀ m' ∈ given, (d.take c m.1).has m'.1 = false := by
      intro m' hm'
      have hne : m.1 ≠ m'.1 := fun he => hd.1 (List.mem_map.mpr ⟨m', hm', he.symm⟩)
      rw [Draft.has_take, hlater m' hm', decide_eq_false hne, Bool.or_self]
    obtain ⟨d', r', ha, hr, hh⟩ := ih (.next _) hothers hd.2 hrest
    refine ⟨d', r', ha, hm.append hr, ?_⟩
    intro f
    rw [hh f, Draft.has_take, Bool.or_eq_true, decide_eq_true_eq, List.map_cons,
      List.mem_cons, or_assoc, @eq_comm _ m.1 f]

/-- A key that no member has is refused. -/
theorem step_of_unknown (h : AwaitsKey d r) (hn : ∀ f : Field, name ≠ f.key) :
    r.step (.text (some name)) = .error (.unknownField name) := by
  have hk : Field.ofKey? name = none := by
    cases hf : Field.ofKey? name with
    | none => rfl
    | some f => exact absurd (Field.ofKey?_eq_some_iff.mp hf) (hn f)
  rw [h.step_eq, Reader.takeKey, hk]

/-- The key of a member that was there before is refused. -/
theorem step_of_duplicate {f : Field} (h : AwaitsKey d r) (hf : d.has f = true) :
    r.step (.text (some f.key)) = .error (.duplicateField f) := by
  rw [h.step_eq, Reader.takeKey, Field.ofKey?_key]
  exact if_pos hf

end AwaitsKey

/-- The opening of an object leads to a reader that waits for a key and has heard of the
members in it. -/
theorem exists_awaitsKey (hg : ∀ m ∈ given, Accepted m) (hd : (given.map Prod.fst).Nodup) :
    ∃ d r, AwaitsKey d r ∧ Reaches .start (opening given) r ∧
      ∀ f, d.has f = true ↔ f ∈ given.map Prod.fst := by
  obtain ⟨d, r, ha, hr, hh⟩ :=
    AwaitsKey.first.members hg hd fun m _ => Draft.has_empty m.1
  refine ⟨d, r, ha, .cons .openBrace hr, ?_⟩
  intro f
  rw [hh f, Draft.has_empty]
  simp

/-- No two numbers stand side by side in the opening of an object. -/
theorem isChain_apart_opening (hg : ∀ m ∈ given, Accepted m) :
    (opening given).IsChain Token.Apart := by
  have hm : (given.flatMap fun m => Token.member (keyed m) ++ [Token.comma]).IsChain
      Token.Apart := by
    induction given with
    | nil => exact .nil
    | cons m given ih =>
      obtain ⟨⟨c, hfirst⟩, hothers⟩ := List.forall_mem_cons.mp hg
      rw [List.flatMap_cons, List.append_assoc, List.singleton_append,
        Token.isChain_apart_append_cons rfl]
      exact ⟨Token.isChain_apart_member hfirst.isChain_apart, ih hothers⟩
  rw [opening, ← List.nil_append (Token.openBrace :: _), Token.isChain_apart_append_cons rfl]
  exact ⟨.nil, hm⟩

/-- A key behind the opening of an object is cut off as a token, whatever follows its
closing quote. -/
theorem ofChars_opening_key {front body content : List Char}
    (hg : ∀ m ∈ given, Accepted m) (hf : Token.Spaced (opening given) front)
    (hq : Json.Quoted body content) (rest : List Char) :
    Token.ofChars (front ++ '\x22' :: body ++ '\x22' :: rest) =
      opening given ++ .text (some (String.ofList content)) :: Token.ofChars rest := by
  have hk : Token.ofChars ('\x22' :: body ++ '\x22' :: rest) =
      .text (some (String.ofList content)) :: Token.ofChars rest := by
    have hs : Token.ofChars (('\x22' :: body ++ ['\x22']) ++ rest) = _ :=
      Token.ofChars_spelled (.text hq) (by simp [Token.isNumber])
    rwa [List.append_assoc, List.singleton_append] at hs
  have hstop : Json.Literal.Stops ('\x22' :: body ++ '\x22' :: rest) := by
    intro c hc
    cases hc
    decide
  rw [List.append_assoc, Token.ofChars_append_of_spaced hf (isChain_apart_opening hg) hstop, hk]

/-- The first problem of a text that has it at a key: behind an opening brace and members
that are accepted and not repeated, each with a comma behind it, a key that no member has is
refused as an unknown one, and the key of one of these members as a second one, whatever
follows the closing quote of the key. -/
theorem read_of_problem_at_key (hg : ∀ m ∈ given, Accepted m)
    (hd : (given.map Prod.fst).Nodup) {front body content : List Char}
    (hf : Token.Spaced (opening given) front) (hq : Json.Quoted body content)
    (rest : List Char) (text : String)
    (ht : text.toList = front ++ '\x22' :: body ++ '\x22' :: rest) :
    ((∀ f : Field, String.ofList content ≠ f.key) →
      read text = .error (.invalidConfig (.unknownField (String.ofList content))) ∧
        (Problem.unknownField (String.ofList content)).message =
          "unknown field `" ++ String.ofList content ++
            "`, expected `rng_seed` or `shift_source`") ∧
    ∀ f ∈ given.map Prod.fst, String.ofList content = f.key →
      read text = .error (.invalidConfig (.duplicateField f)) ∧
        (Problem.duplicateField f).message = "duplicate field `" ++ f.key ++ "`" := by
  obtain ⟨d, r, ha, hr, hh⟩ := exists_awaitsKey hg hd
  have hread : ∀ {problem}, r.step (.text (some (String.ofList content))) = .error problem →
      read text = .error (.invalidConfig problem) := by
    intro problem hs
    have ho := ofTokens_eq_error hr hs (Token.ofChars rest)
    rw [← ofChars_opening_key hg hf hq, ← ht] at ho
    rw [read, ofJson, Token.ofString, ho]
  refine ⟨?_, ?_⟩
  · intro hn
    exact ⟨hread (ha.step_of_unknown hn), rfl⟩
  · intro f hm he
    have hs := ha.step_of_duplicate ((hh f).mpr hm)
    rw [← he] at hs
    exact ⟨hread hs, rfl⟩

/-- A register in braces, and then its key again with an escape, in front of a bracket that
fits nowhere; and an unknown key at the end of a text that breaks off. -/
theorem read_of_problem_at_key_of_escape :
    read "\n\x7b\"shift_source\":\x7b\"vy\":null\x7d ,\t\"\\u0073hift_source\"]" =
      .error (.invalidConfig (.duplicateField .shiftSource)) ∧
    read "\x7b\"seed\"" = .error (.invalidConfig (.unknownField "seed")) := by
  let given : List (Field × List Token) :=
    [(.shiftSource, [.openBrace, .text (some "vy"), .colon, .null, .closeBrace])]
  have hg : ∀ m ∈ given, Accepted m :=
    List.forall_mem_singleton.mpr ⟨⟨none, .vy⟩, .braced⟩
  have hf : Token.Spaced (opening given)
      "\n\x7b\"shift_source\":\x7b\"vy\":null\x7d ,\t".toList :=
    .cons (.single (c := '\n') (by decide)) .openBrace
    (.cons .nil (Token.spelled_escaped
      ['s', 'h', 'i', 'f', 't', '_', 's', 'o', 'u', 'r', 'c', 'e'])
    (.cons .nil .colon
    (.cons .nil .openBrace
    (.cons .nil (Token.spelled_escaped ['v', 'y'])
    (.cons .nil .colon
    (.cons .nil .null
    (.cons .nil .closeBrace
    (.cons (.single (c := ' ') (by decide)) .comma
    (.nil (.single (c := '\t') (by decide)))))))))))
  have hs : Json.FourDigits ['0', '0', '7', '3'] 0x73 :=
    Json.Piece.unitValue?_eq_some_iff.mp (by decide)
  have hq : Json.Quoted "\\u0073hift_source".toList "shift_source".toList :=
    .unit hs (by decide)
      (Json.quoted_flatMap_escapedChar ['h', 'i', 'f', 't', '_', 's', 'o', 'u', 'r', 'c', 'e'])
  have hnone : ∀ m ∈ ([] : List (Field × List Token)), Accepted m := by simp
  have he : Token.Spaced (opening []) ['\x7b'] := .spelled .openBrace (.nil .nil)
  have hu : Json.Quoted "seed".toList "seed".toList :=
    Json.quoted_flatMap_escapedChar ['s', 'e', 'e', 'd']
  have hn : ∀ f : Field, String.ofList "seed".toList ≠ f.key := by
    intro f
    cases f with
    | _ => decide
  have hduplicate := (read_of_problem_at_key hg (by decide) hf hq [']']
    "\n\x7b\"shift_source\":\x7b\"vy\":null\x7d ,\t\"\\u0073hift_source\"]" rfl).2
  have hunknown := (read_of_problem_at_key hnone (by decide) he hu [] "\x7b\"seed\"" rfl).1
  exact ⟨(hduplicate .shiftSource (by decide) rfl).1, (hunknown hn).1⟩

end Config

end Chip8
