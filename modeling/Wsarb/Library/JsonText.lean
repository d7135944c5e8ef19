import Wsarb.Library.Json

/-!
Owns how JSON is spelled: the compact text a value is written as, and the reading of a text, one
character at a time, into tokens. A text read back gives the value it was written from.

Strings are escaped as far as they must be: quotation marks, backslashes and control characters.
A reader also takes the escapes nobody has to write, surrogate pairs among them, and white space
between tokens.
-/

namespace Wsarb.Library.Json

/-! ### Characters -/

def quote : Char := '\x22'

def backslash : Char := '\x5c'

/-- The characters with an escape of their own, and its letter. -/
def shortEscapes : List (Char × Char) :=
  [(quote, quote), (backslash, backslash), ('\x08', 'b'), ('\x0c', 'f'), ('\x0a', 'n'),
    ('\x0d', 'r'), ('\x09', 't')]

/-- How a character stands in a string. -/
def escape (c : Char) : List Char :=
  match shortEscapes.find? (·.1 = c) with
  | some (_, letter) => [backslash, letter]
  | none =>
      if c.toNat < 0x20 then
        [backslash, 'u', '0', '0', Nat.digitChar (c.toNat / 16), Nat.digitChar (c.toNat % 16)]
      else [c]

/-- The character a letter stands for after a backslash. -/
def unescape? (letter : Char) : Option Char :=
  if letter = '/' then some '/' else (shortEscapes.find? (·.2 = letter)).map (·.1)

def hexValue? (c : Char) : Option Nat :=
  if '0' ≤ c ∧ c ≤ '9' then some (c.toNat - '0'.toNat)
  else if 'a' ≤ c ∧ c ≤ 'f' then some (c.toNat - 'a'.toNat + 10)
  else if 'A' ≤ c ∧ c ≤ 'F' then some (c.toNat - 'A'.toNat + 10)
  else none

def isHighSurrogate (unit : Nat) : Bool := decide (0xD800 ≤ unit) && decide (unit < 0xDC00)

def isLowSurrogate (unit : Nat) : Bool := decide (0xDC00 ≤ unit) && decide (unit < 0xE000)

/-! ### Inside a string -/

inductive Escape
  | plain
  /-- After a backslash. -/
  | mark
  /-- After `count` of the four digits of a code unit, which follows `high` if there is one. -/
  | unit (high : Option Nat) (count value : Nat)
  /-- After a high surrogate, before the backslash of the low one. -/
  | lowMark (high : Nat)
  /-- Before the letter of the low surrogate's escape. -/
  | lowUnit (high : Nat)
  deriving DecidableEq

def closeUnit (done : List Char) : Option Nat → Nat → Option (List Char × Escape)
  | none, value =>
      if isHighSurrogate value then some (done, .lowMark value)
      else if isLowSurrogate value then none
      else some (Char.ofNat value :: done, .plain)
  | some high, value =>
      if isLowSurrogate value then
        some (Char.ofNat (0x10000 + (high - 0xD800) * 0x400 + (value - 0xDC00)) :: done, .plain)
      else none

/-- One character of a string, the characters read so far latest first. -/
def readChar : List Char × Escape → Char → Option (List Char × Escape)
  | (done, .plain), c =>
      if c = backslash then some (done, .mark)
      else if c = quote ∨ c.toNat < 0x20 then none
      else some (c :: done, .plain)
  | (done, .mark), c =>
      if c = 'u' then some (done, .unit none 0 0)
      else (unescape? c).map fun plain => (plain :: done, .plain)
  | (done, .unit high count value), c =>
      (hexValue? c).bind fun digit =>
        if count = 3 then closeUnit done high (16 * value + digit)
        else some (done, .unit high (count + 1) (16 * value + digit))
  | (done, .lowMark high), c => if c = backslash then some (done, .lowUnit high) else none
  | (done, .lowUnit high), c => if c = 'u' then some (done, .unit (some high) 0 0) else none

theorem hexValue?_digitChar {digit : Nat} (small : digit < 16) :
    hexValue? (Nat.digitChar digit) = some digit := by
  have each : ∀ digit : Fin 16, hexValue? (Nat.digitChar digit) = some digit.val := by decide
  exact each ⟨digit, small⟩

theorem unescape?_of_mem {pair : Char × Char} (member : pair ∈ shortEscapes) :
    pair.2 ≠ 'u' ∧ unescape? pair.2 = some pair.1 := by
  have each : ∀ pair ∈ shortEscapes, pair.2 ≠ 'u' ∧ unescape? pair.2 = some pair.1 := by decide
  exact each pair member

/-- The four digits of a small code unit. -/
theorem readChar_digits (done : List Char) {value : Nat} (small : value < 0x20) :
    ['0', '0', Nat.digitChar (value / 16), Nat.digitChar (value % 16)].foldlM readChar
      (done, .unit none 0 0) = some (Char.ofNat value :: done, .plain) := by
  have zero : hexValue? '0' = some 0 := by decide
  have high : hexValue? (Nat.digitChar (value / 16)) = some (value / 16) :=
    hexValue?_digitChar (by omega)
  have low : hexValue? (Nat.digitChar (value % 16)) = some (value % 16) :=
    hexValue?_digitChar (Nat.mod_lt _ (by decide))
  have whole : 16 * (value / 16) + value % 16 = value := Nat.div_add_mod value 16
  have notHigh : isHighSurrogate value = false := by simp [isHighSurrogate]; omega
  have notLow : isLowSurrogate value = false := by simp [isLowSurrogate]; omega
  simp [readChar, zero, high, low, whole, closeUnit, notHigh, notLow]

/-- A character is read back from the way it stands in a string. -/
theorem foldlM_escape (done : List Char) (c : Char) :
    (escape c).foldlM readChar (done, .plain) = some (c :: done, .plain) := by
  unfold escape
  split
  · next original letter found =>
      have same : original = c := by simpa using List.find?_some found
      obtain ⟨other, short⟩ := unescape?_of_mem (List.mem_of_find?_eq_some found)
      simp only [List.foldlM_cons, List.foldlM_nil, readChar, if_true, Option.bind_eq_bind,
        Option.bind_some, if_neg other, short, Option.map_some, same, Option.pure_def]
  · next found =>
      have notMark : c ≠ backslash := by
        intro same
        subst same
        cases found
      have notQuote : c ≠ quote := by
        intro same
        subst same
        cases found
      split
      · next small =>
          have digits := readChar_digits done small
          rw [Char.ofNat_toNat] at digits
          exact digits
      · next large =>
          simp only [List.foldlM_cons, List.foldlM_nil, readChar, if_neg notMark,
            if_neg (not_or.mpr ⟨notQuote, large⟩), Option.bind_eq_bind, Option.bind_some,
            Option.pure_def]

/-- So is a whole string. -/
theorem foldlM_escapes (done text : List Char) :
    (text.flatMap escape).foldlM readChar (done, .plain) = some (text.reverse ++ done, .plain) := by
  induction text generalizing done with
  | nil => rfl
  | cons c rest inductionHypothesis =>
      rw [List.flatMap_cons, List.foldlM_append, foldlM_escape, List.reverse_cons,
        List.append_assoc]
      exact inductionHypothesis (c :: done)

/-! ### Tokens -/

/-- The token a character is by itself. -/
def punctuation? (c : Char) : Option Token :=
  if c = '[' then some .openArr
  else if c = ']' then some .closeArr
  else if c = '\x7b' then some .openObj
  else if c = '\x7d' then some .closeObj
  else if c = ',' then some .comma
  else if c = ':' then some .colon
  else none

def isSpace (c : Char) : Bool := c = ' ' || c = '\x0a' || c = '\x0d' || c = '\x09'

def isNumeral (c : Char) : Bool :=
  c.isDigit || c = '-' || c = '+' || c = '.' || c = 'e' || c = 'E'

def Token.spelling : Token → List Char
  | .openArr => ['[']
  | .closeArr => [']']
  | .openObj => ['\x7b']
  | .closeObj => ['\x7d']
  | .comma => [',']
  | .colon => [':']
  | .null => ['n', 'u', 'l', 'l']
  | .bool true => ['t', 'r', 'u', 'e']
  | .bool false => ['f', 'a', 'l', 's', 'e']
  | .num value => value.lexeme
  | .str value => quote :: (value.toList.flatMap escape ++ [quote])

inductive Place
  /-- Between tokens. -/
  | between
  /-- In a string. -/
  | string (done : List Char) (escape : Escape)
  /-- In a number. -/
  | number (done : List Char)
  /-- In a word, of which `left` is still to come. -/
  | word (left : List Char) (token : Token)

/-- A character between tokens: the tokens it completes, and where it leads. -/
def begin (c : Char) : Option (List Token × Place) :=
  if isSpace c then some ([], .between)
  else if c = quote then some ([], .string [] .plain)
  else if isNumeral c then some ([], .number [c])
  else if c = 'n' then some ([], .word ['u', 'l', 'l'] .null)
  else if c = 't' then some ([], .word ['r', 'u', 'e'] (.bool true))
  else if c = 'f' then some ([], .word ['a', 'l', 's', 'e'] (.bool false))
  else (punctuation? c).map fun token => ([token], .between)

def advance : Place → Char → Option (List Token × Place)
  | .between, c => begin c
  | .string done escape, c =>
      if escape = .plain ∧ c = quote then
        some ([.str (String.ofList done.reverse)], .between)
      else (readChar (done, escape) c).map fun now => ([], .string now.1 now.2)
  | .number done, c =>
      if isNumeral c then some ([], .number (c :: done))
      else (Numeral.ofLexeme? done.reverse).bind fun value =>
        (begin c).map fun now => (.num value :: now.1, now.2)
  | .word left token, c =>
      match left with
      | [] => none
      | [last] => if c = last then some ([token], .between) else none
      | expected :: rest => if c = expected then some ([], .word rest token) else none

def close : Place → Option (List Token)
  | .between => some []
  | .number done => (Numeral.ofLexeme? done.reverse).map fun value => [.num value]
  | .string .. | .word .. => none

def lexFrom : Place → List Char → Option (List Token)
  | place, [] => close place
  | place, c :: rest =>
      (advance place c).bind fun now => (lexFrom now.2 rest).map (now.1 ++ ·)

def render (tokens : List Token) : List Char := tokens.flatMap Token.spelling

/-! ### A token is read back -/

theorem lexFrom_silent {place next : Place} {c : Char} (leads : advance place c = some ([], next))
    (rest : List Char) : lexFrom place (c :: rest) = lexFrom next rest := by
  rw [lexFrom, leads, Option.bind_some]
  exact Option.map_id'

theorem lexFrom_emits {place next : Place} {c : Char} {token : Token}
    (leads : advance place c = some ([token], next)) (rest : List Char) :
    lexFrom place (c :: rest) = (lexFrom next rest).map (token :: ·) := by
  rw [lexFrom, leads, Option.bind_some]
  rfl

/-- The characters of a string. -/
theorem lexFrom_string {text done done' : List Char} {escape escape' : Escape}
    (reads : text.foldlM readChar (done, escape) = some (done', escape')) (rest : List Char) :
    lexFrom (.string done escape) (text ++ rest) = lexFrom (.string done' escape') rest := by
  induction text generalizing done escape with
  | nil =>
      cases reads
      rfl
  | cons c text inductionHypothesis =>
      rw [List.foldlM_cons] at reads
      obtain ⟨⟨between, stage⟩, one, later⟩ := Option.bind_eq_some_iff.mp reads
      have inside : ¬ (escape = .plain ∧ c = quote) := by
        rintro ⟨rfl, rfl⟩
        cases one
      have leads : advance (.string done escape) c = some ([], .string between stage) := by
        rw [advance, if_neg inside, one, Option.map_some]
      rw [List.cons_append, lexFrom_silent leads]
      exact inductionHypothesis later

/-- What follows cannot be taken for the rest of a number. -/
def Ends (rest : List Char) : Prop := ∀ c more, rest = c :: more → isNumeral c = false

theorem begin_of_isNumeral {c : Char} (numeral : isNumeral c = true) :
    begin c = some ([], .number [c]) := by
  have notSpace : isSpace c = false := by
    by_contra space
    simp only [isSpace, Bool.not_eq_false, Bool.or_eq_true, decide_eq_true_eq] at space
    rcases space with ((rfl | rfl) | rfl) | rfl <;> cases numeral
  have notQuote : c ≠ quote := by
    rintro rfl
    cases numeral
  rw [begin, notSpace, if_neg Bool.false_ne_true, if_neg notQuote, if_pos numeral]

/-- The characters of a number. -/
theorem lexFrom_number {text : List Char} (numeral : ∀ c ∈ text, isNumeral c = true)
    (done rest : List Char) :
    lexFrom (.number done) (text ++ rest) = lexFrom (.number (text.reverse ++ done)) rest := by
  induction text generalizing done with
  | nil => rfl
  | cons c text inductionHypothesis =>
      obtain ⟨first, later⟩ := List.forall_mem_cons.mp numeral
      have leads : advance (.number done) c = some ([], .number (c :: done)) := if_pos first
      rw [List.cons_append, lexFrom_silent leads, inductionHypothesis later, List.reverse_cons,
        List.append_assoc]
      rfl

/-- The end of a number. -/
theorem lexFrom_ends {done rest : List Char} {value : Numeral}
    (spells : Numeral.ofLexeme? done.reverse = some value) (ends : Ends rest) :
    lexFrom (.number done) rest = (lexFrom .between rest).map (.num value :: ·) := by
  cases rest with
  | nil =>
      rw [lexFrom, close, spells]
      rfl
  | cons c more =>
      have stops : isNumeral c = false := ends c more rfl
      rw [lexFrom, lexFrom, advance, advance, stops, if_neg Bool.false_ne_true, spells,
        Option.bind_some]
      cases begin c with
      | none => rfl
      | some now =>
          simp only [Option.map_some, Option.bind_some, Option.map_map]
          rfl

theorem isNumeral_of_next {stage after : Numeral.Stage} {c : Char}
    (step : Numeral.next stage c = some after) : isNumeral c = true := by
  have zero : c = '0' → c.isDigit = true := by
    rintro rfl
    rfl
  cases stage <;>
    simp only [Numeral.next, Numeral.leading, Numeral.marked] at step <;>
    grind [isNumeral]

/-- A number is spelled with the characters of numbers, and with one at least. -/
theorem isNumeral_lexeme (value : Numeral) :
    value.lexeme ≠ [] ∧ ∀ c ∈ value.lexeme, isNumeral c = true := by
  have all : ∀ (text : List Char) (stage : Numeral.Stage),
      (text.foldlM Numeral.next stage).isSome = true → ∀ c ∈ text, isNumeral c = true := by
    intro text
    induction text with
    | nil => exact fun _ _ _ member => absurd member List.not_mem_nil
    | cons c rest inductionHypothesis =>
        intro stage reads
        obtain ⟨last, reads⟩ := Option.isSome_iff_exists.mp reads
        rw [List.foldlM_cons] at reads
        obtain ⟨after, step, later⟩ := Option.bind_eq_some_iff.mp reads
        intro d member
        rcases List.mem_cons.mp member with rfl | follows
        · exact isNumeral_of_next step
        · exact inductionHypothesis after (Option.isSome_iff_exists.mpr ⟨last, later⟩) d follows
  have spells := value.spells
  constructor
  · intro empty
    rw [empty] at spells
    cases spells
  · apply all value.lexeme .start
    cases reads : value.lexeme.foldlM Numeral.next .start with
    | none =>
        rw [Numeral.Spells, reads] at spells
        cases spells
    | some stage => rfl

/-- The reader tells the token from what follows it, unless that goes on with a number. -/
theorem lexFrom_num (value : Numeral) {rest : List Char} (ends : Ends rest) :
    lexFrom .between (Token.spelling (.num value) ++ rest) =
      (lexFrom .between rest).map (.num value :: ·) := by
  obtain ⟨nonempty, numeral⟩ := isNumeral_lexeme value
  obtain ⟨c, text, same⟩ := List.exists_cons_of_ne_nil nonempty
  rw [same] at numeral
  obtain ⟨first, later⟩ := List.forall_mem_cons.mp numeral
  have leads : advance .between c = some ([], .number [c]) := begin_of_isNumeral first
  have spells : Numeral.ofLexeme? (text.reverse ++ [c]).reverse = some value := by
    rw [List.reverse_append, List.reverse_reverse, List.reverse_singleton, List.singleton_append,
      ← same, Numeral.ofLexeme?_lexeme]
  rw [Token.spelling, same, List.cons_append, lexFrom_silent leads, lexFrom_number later,
    lexFrom_ends spells ends]

theorem lexFrom_str (value : String) (rest : List Char) :
    lexFrom .between (Token.spelling (.str value) ++ rest) =
      (lexFrom .between rest).map (.str value :: ·) := by
  have opens : advance .between quote = some ([], .string [] .plain) := rfl
  have reads := foldlM_escapes [] value.toList
  have whole : advance (.string (value.toList.reverse ++ []) .plain) quote =
      some ([.str value], .between) := by
    rw [advance, if_pos ⟨rfl, rfl⟩, List.append_nil, List.reverse_reverse, String.ofList_toList]
  rw [Token.spelling, List.cons_append, lexFrom_silent opens, List.append_assoc,
    lexFrom_string reads]
  exact lexFrom_emits whole rest

/-- The rest of a word. -/
theorem lexFrom_word (first : Char) (left : List Char) (token : Token) (rest : List Char) :
    lexFrom (.word (first :: left) token) (first :: (left ++ rest)) =
      (lexFrom .between rest).map (token :: ·) := by
  induction left generalizing first with
  | nil =>
      have leads : advance (.word [first] token) first = some ([token], .between) := if_pos rfl
      exact lexFrom_emits leads rest
  | cons next left inductionHypothesis =>
      have leads : advance (.word (first :: next :: left) token) first =
          some ([], .word (next :: left) token) := if_pos rfl
      rw [lexFrom_silent leads]
      exact inductionHypothesis next

def Token.isPlain : Token → Bool
  | .num _ => false
  | _ => true

theorem lexFrom_plain {token : Token} (plain : token.isPlain = true) (rest : List Char) :
    lexFrom .between (token.spelling ++ rest) = (lexFrom .between rest).map (token :: ·) := by
  cases token with
  | num value => cases plain
  | str value => exact lexFrom_str value rest
  | null =>
      have begins : advance .between 'n' = some ([], .word ['u', 'l', 'l'] .null) := rfl
      exact (lexFrom_silent begins _).trans (lexFrom_word 'u' ['l', 'l'] .null rest)
  | bool value =>
      cases value with
      | true =>
          have begins : advance .between 't' = some ([], .word ['r', 'u', 'e'] (.bool true)) := rfl
          exact (lexFrom_silent begins _).trans (lexFrom_word 'r' ['u', 'e'] (.bool true) rest)
      | false =>
          have begins : advance .between 'f' =
              some ([], .word ['a', 'l', 's', 'e'] (.bool false)) := rfl
          exact (lexFrom_silent begins _).trans
            (lexFrom_word 'a' ['l', 's', 'e'] (.bool false) rest)
  | openArr | closeArr | openObj | closeObj | comma | colon => exact lexFrom_emits rfl rest

/-! ### A value is read back -/

/-- The tokens are told apart from whatever ends a number. -/
def Separable (tokens : List Token) : Prop :=
  ∀ rest, Ends rest →
    lexFrom .between (render tokens ++ rest) = (lexFrom .between rest).map (tokens ++ ·)

theorem ends_of_plain {token : Token} (plain : token.isPlain = true) (more : List Token)
    (rest : List Char) : Ends (render (token :: more) ++ rest) := by
  intro c text same
  cases token with
  | num value => cases plain
  | bool value => cases value <;> cases same <;> rfl
  | _ => cases same; rfl

theorem Separable.cons {token : Token} {more : List Token} (plain : token.isPlain = true)
    (later : Separable more) : Separable (token :: more) := by
  intro rest ends
  rw [render, List.flatMap_cons, List.append_assoc, lexFrom_plain plain, ← render, later rest ends,
    Option.map_map]
  rfl

/-- The tokens start with one that is no number. -/
def Opens (tokens : List Token) : Prop :=
  ∃ token more, tokens = token :: more ∧ token.isPlain = true

theorem opens_laterItems (items : List Json) : Opens (laterItems items ++ [.closeArr]) := by
  cases items <;> exact ⟨_, _, rfl, rfl⟩

theorem opens_laterMembers (members : List (String × Json)) :
    Opens (laterMembers members ++ [.closeObj]) := by
  cases members <;> exact ⟨_, _, rfl, rfl⟩

theorem Separable.append {first later : List Token} (head : Separable first)
    (opens : Opens later) (tail : Separable later) : Separable (first ++ later) := by
  intro rest ends
  obtain ⟨token, more, rfl, plain⟩ := opens
  rw [render, List.flatMap_append, List.append_assoc, ← render, ← render,
    head _ (ends_of_plain plain more rest), tail rest ends, Option.map_map]
  apply congrArg (Option.map · _)
  funext tokens
  exact (List.append_assoc first (token :: more) tokens).symm

/-- The same with a last token set apart, as containers are written. -/
theorem Separable.closes {first later last : List Token} (head : Separable first)
    (opens : Opens (later ++ last)) (tail : Separable (later ++ last)) :
    Separable (first ++ later ++ last) := by
  rw [List.append_assoc]
  exact head.append opens tail

theorem separable_nil : Separable [] := fun _ _ => Option.map_id'.symm

mutual

/-- So are the tokens of a value, since numbers do not stand next to each other. -/
theorem separable_tokens (value : Json) : Separable value.tokens := by
  match value with
  | .null => exact separable_nil.cons rfl
  | .bool value => exact separable_nil.cons rfl
  | .str value => exact separable_nil.cons rfl
  | .num value =>
      intro rest ends
      rw [tokens, render, List.flatMap_singleton, lexFrom_num value ends]
      rfl
  | .arr [] => exact (separable_nil.cons rfl).cons rfl
  | .obj [] => exact (separable_nil.cons rfl).cons rfl
  | .arr (item :: rest) =>
      have inside := (separable_tokens item).closes (opens_laterItems rest)
        (separable_laterItems rest)
      exact inside.cons rfl
  | .obj ((name, value) :: rest) =>
      have inside := (separable_tokens value).closes (opens_laterMembers rest)
        (separable_laterMembers rest)
      have named : Separable (.str name :: .colon ::
          (value.tokens ++ laterMembers rest ++ [.closeObj])) := (inside.cons rfl).cons rfl
      exact named.cons rfl

theorem separable_laterItems (items : List Json) :
    Separable (laterItems items ++ [.closeArr]) := by
  match items with
  | [] => exact separable_nil.cons rfl
  | item :: rest =>
      have inside := (separable_tokens item).closes (opens_laterItems rest)
        (separable_laterItems rest)
      exact inside.cons rfl

theorem separable_laterMembers (members : List (String × Json)) :
    Separable (laterMembers members ++ [.closeObj]) := by
  match members with
  | [] => exact separable_nil.cons rfl
  | (name, value) :: rest =>
      have inside := (separable_tokens value).closes (opens_laterMembers rest)
        (separable_laterMembers rest)
      have named : Separable (.str name :: .colon ::
          (value.tokens ++ laterMembers rest ++ [.closeObj])) := (inside.cons rfl).cons rfl
      exact named.cons rfl

end

/-- The compact text of a value. -/
def print (value : Json) : String := String.ofList (render value.tokens)

/-- The value a text spells, if no more than `limit` containers are ever open at once. -/
def parse (limit : Nat) (text : String) : Option Json :=
  (lexFrom .between text.toList).bind (ofTokens limit)

/-- A value is read back from its text. -/
theorem parse_print {limit : Nat} (value : Json) (fits : value.depth ≤ limit) :
    parse limit value.print = some value := by
  have nothing : Ends [] := fun _ _ same => absurd same (List.cons_ne_nil _ _).symm
  have separable := separable_tokens value [] nothing
  rw [List.append_nil] at separable
  rw [parse, print, String.toList_ofList, separable]
  show ofTokens limit (value.tokens ++ []) = some value
  rw [List.append_nil, ofTokens_tokens value fits]

end Wsarb.Library.Json
