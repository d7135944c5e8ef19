import Mathlib.Data.List.Basic

/-!
Owns JSON values and their reading from tokens. Numbers are kept as they are spelled and objects
as the list of their members, in order and with repetitions, so that a reader can tell what it
was given. The reader is a machine with a stack of open containers, at most `limit` of them, taking
one token at a time; it reads the tokens of a value back as that value.

Does not own: the characters tokens are spelled with, or what a value means to a program.
-/

namespace Wsarb.Library

/-! ### Numbers -/

namespace Numeral

/-- How far into a number a reader is. -/
inductive Stage
  | start
  | sign
  | zero
  | whole
  | point
  | fraction
  | mark
  | markSign
  | exponent
  deriving DecidableEq

/-- The first digit: a number does not start with a zero unless that is all of it. -/
def leading (c : Char) : Option Stage :=
  if c = '0' then some .zero else if c.isDigit then some .whole else none

/-- What may follow the digits before the exponent. -/
def marked (c : Char) : Option Stage :=
  if c = 'e' ∨ c = 'E' then some .mark else none

def next : Stage → Char → Option Stage
  | .start, c => if c = '-' then some .sign else leading c
  | .sign, c => leading c
  | .zero, c => if c = '.' then some .point else marked c
  | .whole, c => if c.isDigit then some .whole else if c = '.' then some .point else marked c
  | .point, c => if c.isDigit then some .fraction else none
  | .fraction, c => if c.isDigit then some .fraction else marked c
  | .mark, c =>
      if c = '+' ∨ c = '-' then some .markSign else if c.isDigit then some .exponent else none
  | .markSign, c => if c.isDigit then some .exponent else none
  | .exponent, c => if c.isDigit then some .exponent else none

def Stage.ends : Stage → Bool
  | .zero | .whole | .fraction | .exponent => true
  | .start | .sign | .point | .mark | .markSign => false

/-- The text spells a number. -/
def Spells (text : List Char) : Prop := (text.foldlM next .start).any (·.ends) = true

instance (text : List Char) : Decidable (Spells text) :=
  inferInstanceAs (Decidable (_ = true))

end Numeral

structure Numeral where
  lexeme : List Char
  spells : Numeral.Spells lexeme

namespace Numeral

def ofLexeme? (text : List Char) : Option Numeral :=
  if spells : Spells text then some ⟨text, spells⟩ else none

theorem ofLexeme?_lexeme (value : Numeral) : ofLexeme? value.lexeme = some value := by
  rw [ofLexeme?, dif_pos value.spells]

/-- The natural number spelled with digits alone. -/
def natural? (value : Numeral) : Option Nat :=
  if value.lexeme.all Char.isDigit then some (Nat.ofDigitChars 10 value.lexeme 0) else none

theorem next_digit {digit : Nat} (small : digit < 10) :
    next .whole digit.digitChar = some .whole := by
  have isDigit : digit.digitChar.isDigit = true := by
    rw [Nat.isDigit_digitChar, decide_eq_true small]
  rw [next, if_pos isDigit]

/-- The decimal digits of a positive number spell it without a leading zero. -/
theorem foldlM_toDigits {n : Nat} (positive : 0 < n) :
    (Nat.toDigits 10 n).foldlM next .start = some .whole := by
  induction n using Nat.strongRecOn with
  | ind n inductionHypothesis =>
      by_cases small : n < 10
      · have isDigit : n.digitChar.isDigit = true := by
          rw [Nat.isDigit_digitChar, decide_eq_true small]
        have nonzero : n.digitChar ≠ '0' := by
          rw [Ne, Nat.digitChar_eq_zero]
          omega
        have unsigned : n.digitChar ≠ '-' := by
          intro same
          rw [same] at isDigit
          cases isDigit
        rw [Nat.toDigits_of_lt_base small]
        simp only [List.foldlM_cons, List.foldlM_nil, next, leading, if_neg nonzero,
          if_neg unsigned, isDigit, if_true]
        rfl
      · have shorter := inductionHypothesis (n / 10) (by omega) (by omega)
        rw [Nat.toDigits_of_base_le (by decide) (by omega), List.foldlM_append, shorter]
        simp only [List.foldlM_cons, List.foldlM_nil, Option.bind_eq_bind, Option.bind_some,
          next_digit (Nat.mod_lt n (by decide)), Option.pure_def]

theorem spells_toDigits (n : Nat) : Spells (Nat.toDigits 10 n) := by
  by_cases zero : n = 0
  · rw [zero, Nat.toDigits_zero]
    decide
  · rw [Spells, foldlM_toDigits (Nat.pos_of_ne_zero zero)]
    rfl

def ofNat (n : Nat) : Numeral := ⟨Nat.toDigits 10 n, spells_toDigits n⟩

theorem natural?_ofNat (n : Nat) : (ofNat n).natural? = some n := by
  have digits : (Nat.toDigits 10 n).all Char.isDigit = true := by
    rw [List.all_eq_true]
    exact fun c member => Nat.isDigit_of_mem_toDigits (by decide) (by decide) member
  rw [natural?, ofNat, if_pos digits, Nat.ofDigitChars_ten_toDigits]

end Numeral

/-! ### Values -/

inductive Json
  | null
  | bool (value : Bool)
  | num (value : Numeral)
  | str (value : String)
  | arr (items : List Json)
  | obj (members : List (String × Json))

namespace Json

inductive Token
  | openArr
  | closeArr
  | openObj
  | closeObj
  | comma
  | colon
  | null
  | bool (value : Bool)
  | num (value : Numeral)
  | str (value : String)

mutual

def tokens : Json → List Token
  | .null => [.null]
  | .bool value => [.bool value]
  | .num value => [.num value]
  | .str value => [.str value]
  | .arr items => .openArr :: ((laterItems items).drop 1 ++ [.closeArr])
  | .obj members => .openObj :: ((laterMembers members).drop 1 ++ [.closeObj])

def laterItems : List Json → List Token
  | [] => []
  | item :: rest => .comma :: (tokens item ++ laterItems rest)

def laterMembers : List (String × Json) → List Token
  | [] => []
  | (name, value) :: rest =>
      .comma :: .str name :: .colon :: (tokens value ++ laterMembers rest)

end

mutual

def depth : Json → Nat
  | .null | .bool _ | .num _ | .str _ => 0
  | .arr items => depthItems items + 1
  | .obj members => depthMembers members + 1

def depthItems : List Json → Nat
  | [] => 0
  | item :: rest => max (depth item) (depthItems rest)

def depthMembers : List (String × Json) → Nat
  | [] => 0
  | (_, value) :: rest => max (depth value) (depthMembers rest)

end

/-! ### Reading -/

/-- An open container, with what it holds so far. -/
inductive Frame
  | items (done : List Json)
  | members (done : List (String × Json)) (name : String)

/-- What the reader is waiting for. -/
inductive Mode
  /-- A value. -/
  | value
  /-- The first item of an array, or its end. -/
  | first
  /-- The name of a member; the end of the object, if it has none yet. -/
  | name (done : List (String × Json))
  /-- The colon after a name. -/
  | colon (done : List (String × Json)) (name : String)
  /-- What comes after a value. -/
  | after (value : Json)

/-- The reader between two tokens. -/
structure Reader where
  stack : List Frame
  mode : Mode

def enter (limit : Nat) (stack : List Frame) : Token → Option Reader
  | .null => some ⟨stack, .after .null⟩
  | .bool value => some ⟨stack, .after (.bool value)⟩
  | .num value => some ⟨stack, .after (.num value)⟩
  | .str value => some ⟨stack, .after (.str value)⟩
  | .openArr => if stack.length < limit then some ⟨.items [] :: stack, .first⟩ else none
  | .openObj => if stack.length < limit then some ⟨stack, .name []⟩ else none
  | .closeArr | .closeObj | .comma | .colon => none

def leave (value : Json) : List Frame → Token → Option Reader
  | .items done :: rest, .comma => some ⟨.items (done ++ [value]) :: rest, .value⟩
  | .items done :: rest, .closeArr => some ⟨rest, .after (.arr (done ++ [value]))⟩
  | .members done name :: rest, .comma => some ⟨rest, .name (done ++ [(name, value)])⟩
  | .members done name :: rest, .closeObj => some ⟨rest, .after (.obj (done ++ [(name, value)]))⟩
  | _, _ => none

def read (limit : Nat) : Reader → Token → Option Reader
  | ⟨stack, .value⟩, token => enter limit stack token
  | ⟨.items _ :: rest, .first⟩, .closeArr => some ⟨rest, .after (.arr [])⟩
  | ⟨stack, .first⟩, token => enter limit stack token
  | ⟨stack, .name done⟩, .str name => some ⟨stack, .colon done name⟩
  | ⟨stack, .name []⟩, .closeObj => some ⟨stack, .after (.obj [])⟩
  | ⟨_, .name _⟩, _ => none
  | ⟨stack, .colon done name⟩, .colon => some ⟨.members done name :: stack, .value⟩
  | ⟨_, .colon _ _⟩, _ => none
  | ⟨stack, .after value⟩, token => leave value stack token

/-- The reader has read one value and nothing else. -/
def Reader.result? : Reader → Option Json
  | ⟨[], .after value⟩ => some value
  | _ => none

/-- The value some tokens spell. -/
def ofTokens (limit : Nat) (tokens : List Token) : Option Json :=
  (tokens.foldlM (read limit) ⟨[], .value⟩).bind (·.result?)

/-! ### A value is read back -/

section ReadBack

variable {limit : Nat}

/-- The first item of an array is read like any other value. -/
theorem foldlM_first (value : Json) (more : List Token) (stack : List Frame) :
    (value.tokens ++ more).foldlM (read limit) ⟨.items [] :: stack, .first⟩ =
      (value.tokens ++ more).foldlM (read limit) ⟨.items [] :: stack, .value⟩ := by
  cases value <;> rfl

mutual

/-- Where a value is expected, the tokens of one leave the reader after it. -/
theorem foldlM_tokens (value : Json) (stack : List Frame)
    (fits : stack.length + value.depth ≤ limit) :
    value.tokens.foldlM (read limit) ⟨stack, .value⟩ = some ⟨stack, .after value⟩ := by
  match value with
  | .null => rfl
  | .bool value => rfl
  | .num value => rfl
  | .str value => rfl
  | .arr [] =>
      have room : stack.length < limit := fits
      have opened : read limit ⟨stack, .value⟩ .openArr = some ⟨.items [] :: stack, .first⟩ :=
        if_pos room
      exact congrArg (Option.bind · _) opened
  | .arr (item :: rest) =>
      have deeper : stack.length + (max item.depth (depthItems rest) + 1) ≤ limit := fits
      have opened : read limit ⟨stack, .value⟩ .openArr = some ⟨.items [] :: stack, .first⟩ :=
        if_pos (by omega)
      have first := foldlM_tokens item (.items [] :: stack) (by simp only [List.length_cons]; omega)
      have later := foldlM_laterItems rest [] item stack (by omega)
      have spelled : (Json.arr (item :: rest)).tokens =
          .openArr :: (item.tokens ++ (laterItems rest ++ [.closeArr])) := by
        rw [← List.append_assoc]
        rfl
      rw [spelled, List.foldlM_cons, opened, Option.bind_eq_bind, Option.bind_some, foldlM_first,
        List.foldlM_append, first]
      exact later
  | .obj [] =>
      have room : stack.length < limit := fits
      have opened : read limit ⟨stack, .value⟩ .openObj = some ⟨stack, .name []⟩ := if_pos room
      exact congrArg (Option.bind · _) opened
  | .obj ((name, value) :: rest) =>
      have deeper : stack.length + (max value.depth (depthMembers rest) + 1) ≤ limit := fits
      have opened : read limit ⟨stack, .value⟩ .openObj = some ⟨stack, .name []⟩ :=
        if_pos (by omega)
      have first := foldlM_tokens value (.members [] name :: stack)
        (by simp only [List.length_cons]; omega)
      have later := foldlM_laterMembers rest [] name value stack (by omega)
      have spelled : (Json.obj ((name, value) :: rest)).tokens =
          .openObj :: .str name :: .colon ::
            (value.tokens ++ (laterMembers rest ++ [.closeObj])) := by
        rw [← List.append_assoc]
        rfl
      rw [spelled, List.foldlM_cons, opened]
      show (value.tokens ++ _).foldlM (read limit) ⟨.members [] name :: stack, .value⟩ = _
      rw [List.foldlM_append, first]
      exact later

/-- After an item, the items that follow and the end close the array. -/
theorem foldlM_laterItems (items : List Json) (done : List Json) (value : Json)
    (stack : List Frame) (fits : stack.length + 1 + depthItems items ≤ limit) :
    (laterItems items ++ [Token.closeArr]).foldlM (read limit)
        ⟨.items done :: stack, .after value⟩ =
      some ⟨stack, .after (.arr (done ++ value :: items))⟩ := by
  match items with
  | [] => rfl
  | item :: rest =>
      have deeper : stack.length + 1 + max item.depth (depthItems rest) ≤ limit := fits
      have first := foldlM_tokens item (.items (done ++ [value]) :: stack)
        (by simp only [List.length_cons]; omega)
      have later := foldlM_laterItems rest (done ++ [value]) item stack (by omega)
      have spelled : laterItems (item :: rest) ++ [Token.closeArr] =
          .comma :: (item.tokens ++ (laterItems rest ++ [.closeArr])) := by
        rw [← List.append_assoc]
        rfl
      rw [spelled]
      show (item.tokens ++ _).foldlM (read limit) ⟨.items (done ++ [value]) :: stack, .value⟩ = _
      rw [List.foldlM_append, first]
      rw [List.append_assoc] at later
      exact later

/-- After a member, the members that follow and the end close the object. -/
theorem foldlM_laterMembers (members : List (String × Json)) (done : List (String × Json))
    (name : String) (value : Json) (stack : List Frame)
    (fits : stack.length + 1 + depthMembers members ≤ limit) :
    (laterMembers members ++ [Token.closeObj]).foldlM (read limit)
        ⟨.members done name :: stack, .after value⟩ =
      some ⟨stack, .after (.obj (done ++ (name, value) :: members))⟩ := by
  match members with
  | [] => rfl
  | (next, item) :: rest =>
      have deeper : stack.length + 1 + max item.depth (depthMembers rest) ≤ limit := fits
      have first := foldlM_tokens item (.members (done ++ [(name, value)]) next :: stack)
        (by simp only [List.length_cons]; omega)
      have later := foldlM_laterMembers rest (done ++ [(name, value)]) next item stack (by omega)
      have spelled : laterMembers ((next, item) :: rest) ++ [Token.closeObj] =
          .comma :: .str next :: .colon ::
            (item.tokens ++ (laterMembers rest ++ [.closeObj])) := by
        rw [← List.append_assoc]
        rfl
      rw [spelled]
      show (item.tokens ++ _).foldlM (read limit)
        ⟨.members (done ++ [(name, value)]) next :: stack, .value⟩ = _
      rw [List.foldlM_append, first]
      rw [List.append_assoc] at later
      exact later

end

/-- A value is read back from its tokens. -/
theorem ofTokens_tokens (value : Json) (fits : value.depth ≤ limit) :
    ofTokens limit value.tokens = some value := by
  rw [ofTokens, foldlM_tokens value [] (by simpa using fits)]
  rfl

end ReadBack

end Json

end Wsarb.Library
