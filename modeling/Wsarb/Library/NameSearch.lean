import Mathlib.Data.List.Infix
import Wsarb.Library.JsonText

/-!
Owns the raw search for a name in a compact JSON text: the characters of the name in quotation
marks and a colon, wherever they stand first. What it finds are the tokens after the first string
that is followed by a colon and shows the name: it is the name, or ends with a quotation mark and
the name.
-/

namespace Wsarb.Library.Json

/-! ### Searching -/

section Search

variable {key text : List Char} {c : Char}

/-- What follows the first place where the key stands. -/
def search (key text : List Char) : Option (List Char) := (text.dropInfix? key).map (·.2)

theorem search_eq_some_iff {rest : List Char} :
    search key text = some rest ↔
      ∃ before, text = before ++ key ++ rest ∧
        ∀ earlier later, text = earlier ++ key ++ later → before.length ≤ earlier.length := by
  rw [search, Option.map_eq_some_iff]
  constructor
  · rintro ⟨⟨before, rest⟩, found, rfl⟩
    obtain ⟨⟨same, split, equal⟩, first⟩ := List.dropInfix?_eq_some_iff.mp found
    obtain rfl := beq_iff_eq.mp equal
    exact ⟨before, split, fun earlier later other => first earlier same later other equal⟩
  · rintro ⟨before, split, first⟩
    refine ⟨(before, rest), List.dropInfix?_eq_some_iff.mpr ⟨⟨key, split, beq_iff_eq.mpr rfl⟩, ?_⟩,
      rfl⟩
    intro earlier same later other equal
    obtain rfl := beq_iff_eq.mp equal
    exact first earlier later other

/-- Where the key stands the search ends. -/
theorem search_append (key rest : List Char) : search key (key ++ rest) = some rest :=
  search_eq_some_iff.mpr ⟨[], rfl, fun _ _ _ => Nat.zero_le _⟩

/-- Where it does not the search goes on with the next character. -/
theorem search_cons (other : ¬ key <+: c :: text) : search key (c :: text) = search key text := by
  apply Option.ext
  intro rest
  rw [search_eq_some_iff, search_eq_some_iff]
  constructor
  · rintro ⟨before, split, first⟩
    cases before with
    | nil => exact absurd ⟨rest, split.symm⟩ other
    | cons d before =>
        obtain ⟨rfl, shorter⟩ := List.cons.inj split
        refine ⟨before, shorter, ?_⟩
        intro earlier later also
        have shifted := first (c :: earlier) later (by rw [also]; rfl)
        simpa using shifted
  · rintro ⟨before, split, first⟩
    refine ⟨c :: before, by rw [split]; rfl, ?_⟩
    intro earlier later also
    cases earlier with
    | nil => exact absurd ⟨later, also.symm⟩ other
    | cons d earlier =>
        obtain ⟨rfl, shorter⟩ := List.cons.inj also
        simpa using first earlier later shorter

end Search

/-! ### The search for a name -/

/-- A name as it is written, and the colon after it. -/
def written (word : List Char) : List Char := quote :: (word ++ [quote, ':'])

/-- The search takes the string for the name. -/
def Shows (word : List Char) (name : String) : Prop := quote :: word <:+ quote :: name.toList

instance (word : List Char) (name : String) : Decidable (Shows word name) :=
  inferInstanceAs (Decidable (_ <:+ _))

/-- The tokens after the first string with a colon after it that shows the name. -/
def afterName (word : List Char) : List Token → Option (List Token)
  | [] => none
  | .str name :: .colon :: rest => if Shows word name then some rest else afterName word rest
  | _ :: rest => afterName word rest

/-- The word stands for itself in a string. -/
def Plain (word : List Char) : Prop := ∀ c ∈ word, escape c = [c] ∧ c ≠ quote ∧ c ≠ backslash

/-- No tokens are spelled with the word and a quotation mark in front. -/
def Unspelled (word : List Char) : Prop := ∀ tokens, ¬ word ++ [quote, ':'] <+: render tokens

variable {word text more : List Char}

/-- A character stands for itself or is escaped, and only a quotation mark is written with one. -/
theorem escape_cases (c : Char) :
    escape c = [c] ∧ c ≠ quote ∧ c ≠ backslash ∨
      c = quote ∧ escape c = [backslash, quote] ∨
      c ≠ quote ∧ ∃ rest, escape c = backslash :: rest ∧ ∀ d ∈ rest, d ≠ quote := by
  by_cases marked : c = quote
  · exact .inr (.inl ⟨marked, by rw [marked]; rfl⟩)
  · unfold escape
    split
    · next original letter found =>
        have same : original = c := by simpa using List.find?_some found
        have each : ∀ pair ∈ shortEscapes, pair.1 ≠ quote → pair.2 ≠ quote := by decide
        have other := each _ (List.mem_of_find?_eq_some found) (same ▸ marked)
        exact .inr (.inr ⟨marked, [letter], rfl, by simpa using other⟩)
    · next found =>
        have unmarked : c ≠ backslash := by
          rintro rfl
          cases found
        split
        · next small =>
            have digits : ∀ n : Fin 16, Nat.digitChar n ≠ quote := by decide
            have high := digits ⟨c.toNat / 16, by omega⟩
            have low := digits ⟨c.toNat % 16, by omega⟩
            refine .inr (.inr ⟨marked, _, rfl, ?_⟩)
            simp only [List.mem_cons, List.not_mem_nil, or_false, forall_eq_or_imp, forall_eq]
            exact ⟨by decide, by decide, by decide, high, low⟩
        · exact .inl ⟨rfl, marked, unmarked⟩

theorem flatMap_escape (plain : Plain word) : word.flatMap escape = word := by
  induction word with
  | nil => rfl
  | cons c word inductionHypothesis =>
      obtain ⟨⟨itself, -⟩, later⟩ := List.forall_mem_cons.mp plain
      rw [List.flatMap_cons, itself, inductionHypothesis later, List.singleton_append]

/-- Characters that are no quotation marks are passed over. -/
theorem search_pass (word : List Char) {passed : List Char} (unmarked : ∀ c ∈ passed, c ≠ quote)
    (rest : List Char) : search (written word) (passed ++ rest) = search (written word) rest := by
  induction passed with
  | nil => rfl
  | cons c passed inductionHypothesis =>
      obtain ⟨first, later⟩ := List.forall_mem_cons.mp unmarked
      have other : ¬ written word <+: c :: (passed ++ rest) := by
        rw [written, List.cons_prefix_cons]
        exact fun both => first both.1.symm
      rw [List.cons_append, search_cons other, inductionHypothesis later]

/-- After a quotation mark stands the rest of a string: this is the word with a colon behind it, if
the string is the word and a colon follows. -/
theorem word_prefix_iff (plain : Plain word) (text more : List Char) :
    word ++ [quote, ':'] <+: text.flatMap escape ++ quote :: more ↔
      text = word ∧ ∃ rest, more = ':' :: rest := by
  induction word generalizing text with
  | nil =>
      cases text with
      | nil => simp [List.cons_prefix_iff]
      | cons c text =>
          rcases escape_cases c with ⟨itself, unmarked, -⟩ | ⟨-, escaped⟩ | ⟨-, rest, escaped, -⟩
          · simp [itself, Ne.symm unmarked]
          · simp [escaped, quote, backslash]
          · simp [escaped, quote, backslash]
  | cons d word inductionHypothesis =>
      obtain ⟨⟨-, unmarked, unescaped⟩, later⟩ := List.forall_mem_cons.mp plain
      cases text with
      | nil => simp [unmarked]
      | cons c text =>
          rcases escape_cases c with ⟨itself, -, -⟩ | ⟨same, escaped⟩ | ⟨-, rest, escaped, -⟩
          · simp only [List.flatMap_cons, itself, List.cons_append, List.nil_append,
              List.cons_prefix_cons, inductionHypothesis later, List.cons.injEq, and_assoc]
            exact and_congr_left fun _ => eq_comm
          · have other : c ≠ d := fun also => unmarked (also.symm.trans same)
            simp [escaped, unescaped, other]
          · have other : c ≠ d := by
              rintro rfl
              simp [(plain c List.mem_cons_self).1] at escaped
              exact unescaped escaped.1
            simp [escaped, unescaped, other]

/-- A string from the quotation mark before some of its characters on: the word is found there or
it is searched for in the characters. -/
theorem search_quote (plain : Plain word) (text more : List Char) :
    search (written word) (quote :: (text.flatMap escape ++ quote :: more)) =
      if text = word ∧ more.head? = some ':' then some more.tail
      else search (written word) (text.flatMap escape ++ quote :: more) := by
  have here := word_prefix_iff plain text more
  split
  · next found =>
      obtain ⟨rfl, colon⟩ := found
      obtain ⟨rest, rfl⟩ : ∃ rest, more = ':' :: rest := by
        cases more with
        | nil => cases colon
        | cons c rest => exact ⟨rest, by rw [Option.some.inj colon]⟩
      have whole : quote :: (text.flatMap escape ++ quote :: ':' :: rest) =
          written text ++ rest := by
        rw [flatMap_escape plain, written]
        simp
      rw [whole, search_append, List.tail_cons]
  · next missed =>
      apply search_cons
      rw [written, List.cons_prefix_cons, here]
      rintro ⟨-, rfl, rest, rfl⟩
      exact missed ⟨rfl, rfl⟩

/-- Behind a quotation mark the word is shown at once or further on. -/
theorem shows_cons_iff (text : List Char) :
    quote :: word <:+ quote :: text ↔ text = word ∨ quote :: word <:+ text := by
  rw [List.suffix_cons_iff, List.cons.injEq]
  simp [eq_comm]

/-- A string from after the quotation mark it opens with: the word is found in it, behind an
escaped quotation mark at the end, or it is searched for in what follows. -/
theorem search_inside (plain : Plain word) (apart : ¬ word ++ [quote, ':'] <+: more)
    (text : List Char) :
    search (written word) (text.flatMap escape ++ quote :: more) =
      if quote :: word <:+ text ∧ more.head? = some ':' then some more.tail
      else search (written word) more := by
  induction text with
  | nil =>
      have other : ¬ written word <+: quote :: more := by
        rw [written, List.cons_prefix_cons]
        exact fun both => apart both.2
      simp [search_cons other]
  | cons c text inductionHypothesis =>
      rw [List.flatMap_cons, List.append_assoc]
      by_cases marked : c = quote
      · subst marked
        have bare : ∀ c ∈ [backslash], c ≠ quote := by simp [quote, backslash]
        have passed : search (written word)
              (escape quote ++ (text.flatMap escape ++ quote :: more)) =
            search (written word) (quote :: (text.flatMap escape ++ quote :: more)) :=
          search_pass word bare _
        rw [passed, search_quote plain, inductionHypothesis]
        simp only [shows_cons_iff, or_and_right]
        by_cases whole : text = word ∧ more.head? = some ':' <;> simp [whole]
      · have unmarked : ∀ d ∈ escape c, d ≠ quote := by
          rcases escape_cases c with ⟨itself, -⟩ | ⟨same, -⟩ | ⟨-, rest, escaped, others⟩
          · simpa [itself] using marked
          · exact absurd same marked
          · rw [escaped, List.forall_mem_cons]
            exact ⟨by decide, others⟩
        have inner : quote :: word <:+ c :: text ↔ quote :: word <:+ text := by
          rw [List.suffix_cons_iff]
          simp [Ne.symm marked]
        simp only [search_pass word unmarked, inductionHypothesis, inner]

/-- A string as a token, with what follows it. -/
theorem search_str (plain : Plain word) (apart : ¬ word ++ [quote, ':'] <+: more)
    (name : String) :
    search (written word) (Token.spelling (.str name) ++ more) =
      if Shows word name ∧ more.head? = some ':' then some more.tail
      else search (written word) more := by
  have spelled : Token.spelling (.str name) ++ more =
      quote :: (name.toList.flatMap escape ++ quote :: more) := by
    simp [Token.spelling]
  simp only [spelled, search_quote plain, search_inside plain apart, Shows, shows_cons_iff,
    or_and_right]
  by_cases whole : name.toList = word ∧ more.head? = some ':' <;> simp [whole]

/-- A token that is no string is spelled without a quotation mark. -/
theorem unmarked_spelling {token : Token} (noString : ∀ name, token ≠ .str name) :
    ∀ c ∈ token.spelling, c ≠ quote := by
  cases token with
  | str name => exact absurd rfl (noString name)
  | num value =>
      rintro c member rfl
      cases (isNumeral_lexeme value).2 quote member
  | bool value => cases value <;> simp [Token.spelling, quote]
  | _ => simp [Token.spelling, quote]

/-- A colon follows exactly if the next token is one. -/
theorem head_render_iff (tokens : List Token) :
    (render tokens).head? = some ':' ↔ ∃ rest, tokens = .colon :: rest := by
  cases tokens with
  | nil => simp [render]
  | cons token rest =>
      cases token with
      | num value =>
          obtain ⟨nonempty, numeral⟩ := isNumeral_lexeme value
          obtain ⟨c, lexeme, same⟩ := List.exists_cons_of_ne_nil nonempty
          have other : c ≠ ':' := by
            rintro rfl
            cases numeral ':' (by rw [same]; exact List.mem_cons_self)
          simp [render, Token.spelling, same, other]
      | bool value => cases value <;> simp [render, Token.spelling]
      | _ => simp [render, Token.spelling, quote]

/-- The search in a compact text finds the tokens after the first name that shows the word. -/
theorem search_render (plain : Plain word) (unspelled : Unspelled word) (tokens : List Token) :
    search (written word) (render tokens) = (afterName word tokens).map render := by
  fun_induction afterName word tokens with
  | case1 => rfl
  | case2 name rest shows =>
      have found := search_str plain (unspelled (.colon :: rest)) name
      rw [if_pos ⟨shows, (head_render_iff _).mpr ⟨rest, rfl⟩⟩] at found
      exact found
  | case3 name rest hidden inductionHypothesis =>
      have passed := search_str plain (unspelled (.colon :: rest)) name
      rw [if_neg fun both => hidden both.1] at passed
      have colon : search (written word) (render (.colon :: rest)) =
          search (written word) (render rest) :=
        search_pass word (unmarked_spelling fun _ => Token.noConfusion) (render rest)
      rw [← inductionHypothesis, ← colon, ← passed]
      rfl
  | case4 token rest other inductionHypothesis =>
      rw [← inductionHypothesis]
      by_cases string : ∃ name, token = .str name
      · obtain ⟨name, rfl⟩ := string
        have passed := search_str plain (unspelled rest) name
        have noColon : ¬ (render rest).head? = some ':' := by
          rw [head_render_iff]
          rintro ⟨more, rfl⟩
          exact other name more rfl rfl
        rwa [if_neg fun both => noColon both.2] at passed
      · exact search_pass word (unmarked_spelling (not_exists.mp string)) (render rest)

end Wsarb.Library.Json
