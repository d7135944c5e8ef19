import Mathlib.Algebra.Ring.Nat
import Mathlib.Data.List.Basic

/-!
Owns reading from a connection whose items arrive in chunks, and writing to it: what a program
reads, as what value, and what it writes meanwhile does not depend on where the chunks are cut, and
composes. Owns the big-endian digits of a number.

Does not own: any wire format.
-/

namespace Wsarb.Library

universe u v w

/-- A connection: what has come and is not read, the chunks still to come, what has been sent. -/
structure Conn (β : Type u) where
  buf : List β
  coming : List (List β)
  sent : List β := []

abbrev Talking (β : Type u) (ε : Type v) (α : Type u) := StateT (Conn β) (Except ε) α

namespace Conn

variable {β : Type u}

/-- Everything that is yet to be read. -/
def stream (conn : Conn β) : List β := conn.buf ++ conn.coming.flatten

/-- No chunk to come is empty: an empty one is the end of the connection. -/
def Lively (conn : Conn β) : Prop := ∀ chunk ∈ conn.coming, chunk ≠ []

instance [DecidableEq β] (conn : Conn β) : Decidable conn.Lively :=
  inferInstanceAs (Decidable (∀ chunk ∈ conn.coming, chunk ≠ []))

end Conn

section Programs

variable {β : Type u} {ε : Type v} {α γ : Type u}

/-- Wait until so many items have come. -/
def fill (closed silent : ε) (n : Nat) (buf : List β) :
    List (List β) → Except ε (List β × List (List β))
  | [] => if n ≤ buf.length then .ok (buf, []) else .error silent
  | chunk :: rest =>
      if n ≤ buf.length then .ok (buf, chunk :: rest)
      else if chunk.isEmpty then .error closed
      else fill closed silent n (buf ++ chunk) rest

def readItems (closed silent : ε) (n : Nat) : Talking β ε (List β) := fun conn =>
  (fill closed silent n conn.buf conn.coming).map fun filled =>
    (filled.1.take n, { conn with buf := filled.1.drop n, coming := filled.2 })

def writeItems (items : List β) : Talking β ε PUnit := fun conn =>
  .ok (⟨⟩, { conn with sent := conn.sent ++ items })

/-- The program reads these items, in whatever chunks they come, as this value, sends these, and
leaves the rest. -/
def Reads (program : Talking β ε α) (items : List β) (value : α) (out : List β) : Prop :=
  ∀ conn rest, conn.Lively → conn.stream = items ++ rest → ∃ after,
    program conn = .ok (value, after) ∧ after.Lively ∧ after.stream = rest ∧
      after.sent = conn.sent ++ out

theorem fill_of_lively (closed silent : ε) (n : Nat) (buf : List β) (coming : List (List β))
    (lively : ∀ chunk ∈ coming, chunk ≠ []) (enough : n ≤ (buf ++ coming.flatten).length) :
    ∃ full left, fill closed silent n buf coming = .ok (full, left) ∧ n ≤ full.length ∧
      full ++ left.flatten = buf ++ coming.flatten ∧ ∀ chunk ∈ left, chunk ≠ [] := by
  induction coming generalizing buf with
  | nil =>
      have within : n ≤ buf.length := by simpa using enough
      exact ⟨buf, [], by rw [fill, if_pos within], within, rfl, lively⟩
  | cons chunk rest inductionHypothesis =>
      by_cases within : n ≤ buf.length
      · exact ⟨buf, chunk :: rest, by rw [fill, if_pos within], within, rfl, lively⟩
      · have some : chunk.isEmpty = false := by
          simpa using lively chunk List.mem_cons_self
        obtain ⟨full, left, fills, long, same, still⟩ := inductionHypothesis (buf ++ chunk)
          (fun other member => lively other (List.mem_cons_of_mem _ member))
          (by simpa [List.append_assoc] using enough)
        refine ⟨full, left, ?_, long, by simpa [List.append_assoc] using same, still⟩
        rw [fill, if_neg within, some, if_neg Bool.false_ne_true, fills]

theorem reads_readItems (closed silent : ε) (items : List β) {n : Nat} (size : items.length = n) :
    Reads (readItems closed silent n) items items [] := by
  intro conn rest lively holds
  have enough : n ≤ (conn.buf ++ conn.coming.flatten).length := by
    rw [← Conn.stream, holds, List.length_append]
    omega
  obtain ⟨full, left, fills, long, same, still⟩ :=
    fill_of_lively closed silent n conn.buf conn.coming lively enough
  rw [← Conn.stream, holds] at same
  refine ⟨{ conn with buf := full.drop n, coming := left }, ?_, still, ?_,
    (List.append_nil _).symm⟩
  · have taken : full.take n = items := by
      have front : (full ++ left.flatten).take n = full.take n :=
        List.take_append_of_le_length long
      rw [← front, same, ← size, List.take_left]
    rw [readItems, fills, ← taken]
    rfl
  · show full.drop n ++ left.flatten = rest
    rw [← List.drop_append_of_le_length long, same, ← size, List.drop_left]

theorem reads_writeItems (items : List β) :
    Reads (writeItems items : Talking β ε PUnit) [] ⟨⟩ items :=
  fun _ _ lively holds => ⟨_, rfl, lively, holds, rfl⟩

theorem Reads.pure (value : α) : Reads (Pure.pure value : Talking β ε α) [] value [] :=
  fun _ _ lively holds => ⟨_, rfl, lively, holds, (List.append_nil _).symm⟩

/-- What one program reads and then another. -/
theorem Reads.bind {first : Talking β ε α} {next : α → Talking β ε γ} {items more : List β}
    {value : α} {result : γ} {out further : List β} (reads : Reads first items value out)
    (then' : Reads (next value) more result further) :
    Reads (first >>= next) (items ++ more) result (out ++ further) := by
  intro conn rest lively holds
  rw [List.append_assoc] at holds
  obtain ⟨middle, runs, lively, left, sent⟩ := reads conn _ lively holds
  obtain ⟨after, runs', lively, left, sent'⟩ := then' middle rest lively left
  refine ⟨after, ?_, lively, left, by rw [sent', sent, List.append_assoc]⟩
  show (first conn >>= fun pair => next pair.1 pair.2) = _
  rw [runs]
  exact runs'

theorem Reads.map {program : Talking β ε α} {items out : List β} {value : α}
    (reads : Reads program items value out) (f : α → γ) :
    Reads (f <$> program) items (f value) out := by
  intro conn rest lively holds
  obtain ⟨after, runs, result⟩ := reads conn rest lively holds
  refine ⟨after, ?_, result⟩
  show (program conn >>= fun pair => Pure.pure (f pair.1, pair.2)) = _
  rw [runs]
  rfl

/-! ### What is used up -/

/-- Wherever the program ends, it has used up so many items at least. -/
def Spends (program : Talking β ε α) (n : Nat) : Prop :=
  ∀ conn value after, program conn = .ok (value, after) →
    after.stream.length + n ≤ conn.stream.length

theorem fill_keeps {closed silent : ε} {n : Nat} {buf full : List β} {coming left : List (List β)}
    (fills : fill closed silent n buf coming = .ok (full, left)) :
    n ≤ full.length ∧ full ++ left.flatten = buf ++ coming.flatten := by
  induction coming generalizing buf with
  | nil =>
      rw [fill] at fills
      split at fills
      · next within =>
          cases fills
          exact ⟨within, rfl⟩
      · cases fills
  | cons chunk rest inductionHypothesis =>
      rw [fill] at fills
      split at fills
      · next within =>
          cases fills
          exact ⟨within, rfl⟩
      · split at fills
        · cases fills
        · obtain ⟨long, same⟩ := inductionHypothesis fills
          exact ⟨long, by rw [same, List.flatten_cons, List.append_assoc]⟩

theorem spends_readItems (closed silent : ε) (n : Nat) :
    Spends (readItems closed silent n : Talking β ε (List β)) n := by
  intro conn value after reads
  rw [readItems] at reads
  cases fills : fill closed silent n conn.buf conn.coming with
  | error failure =>
      rw [fills] at reads
      cases reads
  | ok filled =>
      rw [fills] at reads
      cases reads
      obtain ⟨long, same⟩ := fill_keeps fills
      have lengths := congrArg List.length same
      simp only [Conn.stream, List.length_append, List.length_drop] at lengths ⊢
      omega

theorem Spends.pure (value : α) : Spends (Pure.pure value : Talking β ε α) 0 := by
  intro conn other after same
  cases same
  exact Nat.le_refl _

theorem Spends.bind {first : Talking β ε α} {next : α → Talking β ε γ} {n m : Nat}
    (spends : Spends first n) (then' : ∀ value, Spends (next value) m) :
    Spends (first >>= next) (n + m) := by
  intro conn value after runs
  have shape : (first conn >>= fun pair => next pair.1 pair.2) = .ok (value, after) := runs
  cases begins : first conn with
  | error failure =>
      rw [begins] at shape
      cases shape
  | ok pair =>
      rw [begins] at shape
      have before := spends conn pair.1 pair.2 begins
      have later := then' pair.1 pair.2 value after shape
      omega

theorem Spends.weaken {program : Talking β ε α} {n m : Nat} (spends : Spends program n)
    (le : m ≤ n) : Spends program m := by
  intro conn value after runs
  have least := spends conn value after runs
  omega

end Programs

/-! ### Numbers in bytes -/

/-- The last so many digits of a number in base 256, the most significant first. -/
def bigEndian : Nat → Nat → List UInt8
  | 0, _ => []
  | size + 1, n => bigEndian size (n / 256) ++ [UInt8.ofNat n]

/-- The number some bytes spell, the most significant first. -/
def ofBigEndian (bytes : List UInt8) : Nat := bytes.foldl (fun n b => n * 256 + b.toNat) 0

theorem length_bigEndian (size n : Nat) : (bigEndian size n).length = size := by
  induction size generalizing n with
  | zero => rfl
  | succ size inductionHypothesis => simp [bigEndian, inductionHypothesis]

theorem ofBigEndian_bigEndian (size n : Nat) (fits : n < 256 ^ size) :
    ofBigEndian (bigEndian size n) = n := by
  induction size generalizing n with
  | zero =>
      have zero : n = 0 := by simpa using fits
      rw [zero]
      rfl
  | succ size inductionHypothesis =>
      have upper : n / 256 < 256 ^ size := by
        rw [Nat.div_lt_iff_lt_mul (by decide), ← Nat.pow_succ]
        exact fits
      have spelled := inductionHypothesis (n / 256) upper
      rw [ofBigEndian] at spelled ⊢
      rw [bigEndian, List.foldl_append, spelled]
      simp only [List.foldl_cons, List.foldl_nil, UInt8.toNat_ofNat']
      omega

end Wsarb.Library
