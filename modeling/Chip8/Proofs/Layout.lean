import Chip8.Proofs.Spacing

/-!
# Layouts

Objects and arrays as sequences of tokens. Written with any spacing they are cut into
these tokens again, because no two numbers ever touch; written compactly they are one
such text.
-/

namespace Chip8.Json

/-- Pieces with a mark between them are the first piece and each other one behind a
mark. -/
theorem intercalate_cons {α : Type} (mark : α) (first : List α) (others : List (List α)) :
    [mark].intercalate (first :: others) = first ++ others.flatMap (mark :: ·) := by
  induction others generalizing first with
  | nil => rw [List.intercalate_singleton, List.flatMap_nil, List.append_nil]
  | cons second others ih =>
    rw [List.intercalate_cons_cons, ih, List.flatMap_cons, List.append_assoc,
      List.singleton_append, List.cons_append]

namespace Token

variable {α : Type} {p t : Token} {s : List Token} {tokens others : List Token}
  {text rest : List Char}

/-- The tokens of a member with the tokens of its value. -/
def member (m : String × List Token) : List Token := .text (some m.1) :: .colon :: m.2

/-- The tokens of an object with the tokens of its values. -/
def object (members : List (String × List Token)) : List Token :=
  .openBrace :: [.comma].intercalate (members.map member) ++ [.closeBrace]

/-- The tokens of an array with the tokens of its items. -/
def array (items : List (List Token)) : List Token :=
  .openBracket :: [.comma].intercalate items ++ [.closeBracket]

/-- An object is its first member, and then each other one behind a comma. -/
theorem object_cons (m : String × List Token) (members : List (String × List Token)) :
    object (m :: members) = .openBrace :: (member m ++
      (members.flatMap (fun m => .comma :: member m) ++ [.closeBrace])) := by
  rw [object, List.map_cons, intercalate_cons, List.flatMap_map, List.cons_append,
    List.append_assoc]

/-- An array is its first item, and then each other one behind a comma. -/
theorem array_cons (item : List Token) (items : List (List Token)) :
    array (item :: items) = .openBracket :: (item ++
      (items.flatMap (.comma :: ·) ++ [.closeBracket])) := by
  rw [array, intercalate_cons, List.cons_append, List.append_assoc]

/-- What is no number keeps its neighbours apart. -/
theorem isChain_apart_append_cons (hp : p.isNumber = false) :
    (tokens ++ p :: others).IsChain Apart ↔
      tokens.IsChain Apart ∧ others.IsChain Apart := by
  have hl : ∀ t, Apart t p := fun _ _ => hp
  have hr : ∀ t, Apart p t := by
    intro t hn
    rw [hp] at hn
    cases hn
  simp [List.isChain_append, List.isChain_cons, hl, hr]

/-- Commas keep numbers apart. -/
theorem isChain_apart_intercalate {items : List (List Token)}
    (hi : ∀ item ∈ items, item.IsChain Apart) :
    ([Token.comma].intercalate items).IsChain Apart := by
  induction items with
  | nil => exact .nil
  | cons item items ih =>
    obtain ⟨hfirst, hothers⟩ := List.forall_mem_cons.mp hi
    cases items with
    | nil =>
      rw [List.intercalate_singleton]
      exact hfirst
    | cons second items =>
      rw [List.intercalate_cons_cons, List.append_assoc, List.singleton_append,
        isChain_apart_append_cons rfl]
      exact ⟨hfirst, ih hothers⟩

/-- Between brackets numbers are as far apart as they were. -/
theorem isChain_apart_bracketed {opening closing : Token} (ho : opening.isNumber = false)
    (hc : closing.isNumber = false) (h : tokens.IsChain Apart) :
    (opening :: tokens ++ [closing]).IsChain Apart := by
  rw [isChain_apart_append_cons hc, ← List.nil_append (opening :: tokens),
    isChain_apart_append_cons ho]
  exact ⟨⟨.nil, h⟩, .nil⟩

/-- No two numbers of a member touch if none do in its value. -/
theorem isChain_apart_member {m : String × List Token} (hm : m.2.IsChain Apart) :
    (member m).IsChain Apart := by
  show ([Token.text (some m.1)] ++ Token.colon :: m.2).IsChain Apart
  rw [isChain_apart_append_cons rfl]
  exact ⟨.singleton _, hm⟩

/-- No two numbers of an object touch if none do in its values. -/
theorem isChain_apart_object {members : List (String × List Token)}
    (hm : ∀ m ∈ members, m.2.IsChain Apart) : (object members).IsChain Apart := by
  apply isChain_apart_bracketed rfl rfl
  apply isChain_apart_intercalate
  intro item hi
  obtain ⟨m, hmem, rfl⟩ := List.mem_map.mp hi
  exact isChain_apart_member (hm m hmem)

/-- No two numbers of an array touch if none do in its items. -/
theorem isChain_apart_array {items : List (List Token)}
    (hi : ∀ item ∈ items, item.IsChain Apart) : (array items).IsChain Apart :=
  isChain_apart_bracketed rfl rfl (isChain_apart_intercalate hi)

/-- Texts behind each other spell all their tokens. -/
theorem Spaced.append (h : Spaced tokens text) (ho : Spaced others rest) :
    Spaced (tokens ++ others) (text ++ rest) := by
  induction h with
  | nil hb => exact ho.pad hb
  | cons hb ht h ih =>
    rw [List.cons_append, List.append_assoc]
    exact .cons hb ht ih

/-- The spelling of a token spells it alone. -/
theorem Spaced.singleton (ht : Spelled t text) : Spaced [t] text := by
  rw [← List.append_nil text]
  exact .spelled ht (.nil .nil)

/-- Characters in quotes, escaped where they must be, spell their text. -/
theorem spelled_escaped (content : List Char) :
    Spelled (.text (some (String.ofList content)))
      ('\x22' :: content.flatMap escapedChar ++ ['\x22']) :=
  .text (quoted_flatMap_escapedChar content)

/-- Texts with commas between them spell their tokens with commas between them. -/
theorem Spaced.intercalate {items : List α} {f : α → List Token} {g : α → List Char}
    (hi : ∀ a ∈ items, Spaced (f a) (g a)) :
    Spaced ([.comma].intercalate (items.map f)) ([','].intercalate (items.map g)) := by
  induction items with
  | nil => exact .nil .nil
  | cons a items ih =>
    obtain ⟨hfirst, hothers⟩ := List.forall_mem_cons.mp hi
    cases items with
    | nil =>
      rw [List.map_singleton, List.map_singleton, List.intercalate_singleton,
        List.intercalate_singleton]
      exact hfirst
    | cons b items =>
      rw [List.map_cons, List.map_cons, List.map_cons, List.map_cons,
        List.intercalate_cons_cons, List.intercalate_cons_cons]
      exact (hfirst.append (.singleton .comma)).append (ih hothers)

end Token

namespace Scalar

/-- The token of a plain value. -/
def token : Scalar → Token
  | .null => .null
  | .bool b => .bool b
  | .natural n => .number (.natural n)
  | .text s => .text (some s)

/-- A plain value with its number, if it is one, below `2^64`. -/
def Fits : Scalar → Prop
  | .natural n => n < Nat.pow 2 64
  | _ => True

/-- Text in quotes as it is printed spells itself. -/
theorem spelled_quotedChars (s : String) :
    Token.Spelled (.text (some s)) (quotedChars s) := by
  have hs := Token.spelled_escaped s.toList
  rw [String.ofList_toList] at hs
  exact hs

/-- A plain value as it is printed spells its token. -/
theorem spelled_chars {s : Scalar} (h : s.Fits) : Token.Spelled s.token s.chars := by
  cases s with
  | null => exact .null
  | bool b => exact .bool b
  | natural n => exact .natural h
  | text s => exact spelled_quotedChars s

end Scalar

/-- Members with the tokens of their values. -/
def Members.tokens (members : Members) : List (String × List Token) :=
  members.map fun m => (m.1, [m.2.token])

/-- An object as it is printed spells its tokens. -/
theorem spaced_objectChars {members : Members} (h : ∀ m ∈ members, m.2.Fits) :
    Token.Spaced (Token.object members.tokens) (objectChars members) := by
  have hm : ∀ m ∈ members, Token.Spaced (Token.member (m.1, [m.2.token])) (memberChars m) := by
    intro m hm
    rw [memberChars, List.append_assoc]
    exact .spelled (Scalar.spelled_quotedChars m.1)
      (.spelled .colon (.singleton (Scalar.spelled_chars (h m hm))))
  rw [Token.object, Members.tokens, List.map_map, objectChars]
  exact (Token.Spaced.spelled .openBrace (.intercalate hm)).append (.singleton .closeBrace)

end Chip8.Json
