import Wsarb.Library.NameSearch
import Wsarb.Upstream.FrameText

/-!
Owns what becomes of a text from the upstream: the freshness gate, which reads the block time off
the raw text, and when that gate keeps out a frame stamped in the future. The reader of frames is a
parameter, so that what is said of the gate holds whatever texts it takes.

Does not own: what the shared state does with a frame let through.
-/

namespace Wsarb

open Wsarb.Library Wsarb.Library.Json

/-! ### The block time of a text -/

/-- How far ahead of the clock a frame's block time may be, in milliseconds. -/
def futureLimit : Nat := 5000

def timeKey : List Char := [quote, 't', 'i', 'm', 'e', quote, ':']

/-- `str::parse::<u64>` of some digits. -/
def parseU64 (digits : List Char) : Option Nat :=
  let n := Nat.ofDigitChars 10 digits 0
  if n < UInt64.size then some n else none

/-- The number some text begins with. -/
def leadingU64 (text : List Char) : Option Nat :=
  let digits := text.takeWhile Char.isDigit
  if digits.isEmpty then none else parseU64 digits

/-- The block time a frame carries, in unix milliseconds. -/
def blockTimeMs (text : String) : Option Nat := (search timeKey text.toList).bind leadingU64

/-! ### A text arrives -/

inductive Handled
  | unparsed
  /-- The upstream rejected a request. -/
  | rejected (msg : String)
  | unrouted
  | fromFuture
  | tooOld
  /-- `on_update` is called. -/
  | update (key : SubKey) (seq : Seq)
  deriving DecidableEq

/-- Parse an upstream text frame and, if it routes to a subscription, apply it. The clock reads
`now` at the first check and `later` at the second, in milliseconds like the limit. -/
def handleText (fromStr : String → Option Frame) (now later : Nat) (maxAge : Option Nat)
    (text : String) : Handled :=
  match fromStr text with
  | none => .unparsed
  | some (.error msg) => .rejected msg
  | some frame =>
      match route frame with
      | none => .unrouted
      | some (key, seq) =>
          if (blockTimeMs text).any fun t => now < t ∧ futureLimit < t - now then .fromFuture
          else if maxAge.any fun max =>
              (blockTimeMs text).any fun t => t < later ∧ max % UInt64.size < later - t then .tooOld
          else .update key seq

/-- The time a frame of the two channels ordered by it carries. -/
def Frame.time? : Frame → Option Nat
  | .bbo d => some d.time
  | .l2Book d => some d.time
  | _ => none

/-- Such a frame is routed, and ordered by that time. -/
theorem route_of_time? {frame : Frame} {stamp : Nat} (timed : frame.time? = some stamp) :
    ∃ key seq, route frame = some (key, seq) ∧ seq.stamp = stamp := by
  cases frame with
  | bbo d => exact ⟨_, _, rfl, Option.some.inj timed⟩
  | l2Book d => exact ⟨_, _, rfl, Option.some.inj timed⟩
  | _ => cases timed

/-! ### What the gate reads -/

/-- The first `"time":` of the text is directly followed by the digits of this number, and they by
something else. -/
def StampedWith (text : String) (t : Nat) : Prop :=
  ∃ before digits after, text.toList = before ++ timeKey ++ (digits ++ after) ∧
    (∀ earlier later, text.toList = earlier ++ timeKey ++ later →
      before.length ≤ earlier.length) ∧
    digits ≠ [] ∧ (∀ c ∈ digits, c.isDigit = true) ∧
    (∀ c more, after = c :: more → c.isDigit = false) ∧
    Nat.ofDigitChars 10 digits 0 = t ∧ t < UInt64.size

/-- The digits some text begins with. -/
theorem takeWhile_isDigit {digits after : List Char} (all : ∀ c ∈ digits, c.isDigit = true)
    (ends : ∀ c more, after = c :: more → c.isDigit = false) :
    (digits ++ after).takeWhile Char.isDigit = digits := by
  rw [List.takeWhile_append_of_pos all]
  cases after with
  | nil => simp
  | cons c more => simp [ends c more rfl]

theorem leadingU64_eq_some_iff {text : List Char} {t : Nat} :
    leadingU64 text = some t ↔
      ∃ digits after, text = digits ++ after ∧ digits ≠ [] ∧ (∀ c ∈ digits, c.isDigit = true) ∧
        (∀ c more, after = c :: more → c.isDigit = false) ∧
        Nat.ofDigitChars 10 digits 0 = t ∧ t < UInt64.size := by
  constructor
  · intro read
    simp only [leadingU64, parseU64, Option.ite_none_left_eq_some, Option.ite_none_right_eq_some,
      Option.some.injEq, List.isEmpty_iff] at read
    obtain ⟨nonempty, small, same⟩ := read
    refine ⟨_, _, List.takeWhile_append_dropWhile.symm, nonempty,
      List.all_eq_true.mp List.all_takeWhile, ?_, same, same ▸ small⟩
    intro c more ends
    have head := List.head?_dropWhile_not Char.isDigit text
    rw [ends] at head
    simpa using head
  · rintro ⟨digits, after, rfl, nonempty, all, ends, rfl, small⟩
    simp only [leadingU64, takeWhile_isDigit all ends, List.isEmpty_iff, if_neg nonempty, parseU64,
      if_pos small]

/-- What the raw search returns is what the first `"time":` is directly followed by. -/
theorem blockTimeMs_eq_some_iff {text : String} {t : Nat} :
    blockTimeMs text = some t ↔ StampedWith text t := by
  simp only [blockTimeMs, Option.bind_eq_some_iff, search_eq_some_iff, leadingU64_eq_some_iff]
  constructor
  · rintro ⟨rest, ⟨before, split, first⟩, digits, after, rfl, read⟩
    exact ⟨before, digits, after, split, first, read⟩
  · rintro ⟨before, digits, after, split, first, read⟩
    exact ⟨digits ++ after, ⟨before, split, first⟩, digits, after, rfl, read⟩

/-! ### What the gate lets through -/

section Gate

variable {fromStr : String → Option Frame} {text : String} {frame : Frame} {key : SubKey}
  {seq : Seq}

/-- A frame that is routed is let through unless the text's own number is ahead of the clock or
behind it by more than the limits. -/
theorem handleText_eq_update_iff (parsed : fromStr text = some frame)
    (routed : route frame = some (key, seq)) (now later : Nat) (maxAge : Option Nat) :
    handleText fromStr now later maxAge text = .update key seq ↔
      ¬ ∃ t, StampedWith text t ∧ (now + futureLimit < t ∨
        ∃ max, maxAge = some max ∧ t + max % UInt64.size < later) := by
  have gated : handleText fromStr now later maxAge text =
      if (blockTimeMs text).any fun t => now < t ∧ futureLimit < t - now then .fromFuture
      else if maxAge.any fun max =>
          (blockTimeMs text).any fun t => t < later ∧ max % UInt64.size < later - t then .tooOld
      else .update key seq := by
    cases frame with
    | error msg => cases routed
    | _ => simp only [handleText, parsed, routed]
  simp only [← blockTimeMs_eq_some_iff, gated]
  cases blockTimeMs text with
  | none => simp
  | some t =>
      have ahead : (now < t ∧ futureLimit < t - now) ↔ now + futureLimit < t := by omega
      have old (max : Nat) : (t < later ∧ max < later - t) ↔ t + max < later := by omega
      simp only [Option.any_some, ahead, old, Option.some.injEq, exists_eq_left', not_or]
      by_cases future : now + futureLimit < t
      · simp [future]
      · cases maxAge with
        | none => simp [future]
        | some max => by_cases stale : t + max % UInt64.size < later <;> simp [future, stale]

end Gate

/-! ### The layout the upstream writes -/

/-- The name the search is for. -/
def timeWord : List Char := ['t', 'i', 'm', 'e']

theorem plain_timeWord : Plain timeWord := by
  simp only [Plain, timeWord, List.forall_mem_cons, List.not_mem_nil, false_imp_iff, implies_true,
    and_true]
  decide

/-- No token begins like the name. -/
theorem unspelled_timeWord : Unspelled timeWord := by
  intro tokens
  cases tokens with
  | nil => simp [render]
  | cons token rest =>
      cases token with
      | num value =>
          obtain ⟨nonempty, numeral⟩ := isNumeral_lexeme value
          obtain ⟨c, lexeme, same⟩ := List.exists_cons_of_ne_nil nonempty
          have other : 't' ≠ c := by
            rintro rfl
            cases numeral 't' (by rw [same]; exact List.mem_cons_self)
          simp [render, timeWord, Token.spelling, same, other]
      | bool value => cases value <;> simp [render, timeWord, Token.spelling]
      | _ => simp [render, timeWord, Token.spelling, quote]

/-- In a compact text the search finds what stands under the first name that shows `time`,
wherever in the value that is. -/
theorem stampedWith_print_iff (json : Json) (t : Nat) :
    StampedWith json.print t ↔
      ∃ rest, afterName timeWord json.tokens = some rest ∧ leadingU64 (render rest) = some t := by
  have found : search timeKey json.print.toList = (afterName timeWord json.tokens).map render := by
    rw [print, String.toList_ofList]
    exact search_render plain_timeWord unspelled_timeWord json.tokens
  rw [← blockTimeMs_eq_some_iff, blockTimeMs, found, Option.bind_eq_some_iff]
  simp only [Option.map_eq_some_iff]
  constructor
  · rintro ⟨_, ⟨rest, after, rfl⟩, read⟩
    exact ⟨rest, after, read⟩
  · rintro ⟨rest, after, read⟩
    exact ⟨_, ⟨rest, after, rfl⟩, read⟩

/-- A number written with digits is read off, if something else follows. -/
theorem leadingU64_num {value : Numeral} {t : Nat} (natural : value.natural? = some t)
    (small : t < UInt64.size) {more : List Token} (opens : Json.Opens more) :
    leadingU64 (render (.num value :: more)) = some t := by
  obtain ⟨nonempty, -⟩ := isNumeral_lexeme value
  rw [Numeral.natural?] at natural
  split at natural
  · next digits =>
      refine leadingU64_eq_some_iff.mpr ⟨value.lexeme, render more, rfl, nonempty,
        List.all_eq_true.mp digits, ?_, Option.some.inj natural, small⟩
      obtain ⟨token, later, rfl, plain⟩ := opens
      intro c text same
      have ends := ends_of_plain plain later []
      rw [List.append_nil] at ends
      have stops := ends c text same
      simp only [isNumeral, Bool.or_eq_false_iff] at stops
      exact stops.1.1.1.1.1
  · cases natural

/-- A frame of the two channels as the upstream lays it out: the channel, then the data, with the
coin and the time first. -/
def headJson (channel coin : String) (t : Nat) (rest : Members) : Json :=
  .obj [("channel", .str channel),
    ("data", .obj (("coin", .str coin) :: ("time", .num (Numeral.ofNat t)) :: rest))]

theorem stampedWith_headJson (channel coin : String) {t : Nat} (small : t < UInt64.size)
    (rest : Members) : StampedWith (headJson channel coin t rest).print t := by
  rw [stampedWith_print_iff]
  have names : ¬ Shows timeWord "channel" ∧ ¬ Shows timeWord "data" ∧ ¬ Shows timeWord "coin" ∧
      Shows timeWord "time" := by decide
  have after : afterName timeWord (headJson channel coin t rest).tokens =
      some (.num (Numeral.ofNat t) ::
        (laterMembers rest ++ [.closeObj, .closeObj])) := by
    simp [headJson, tokens, laterMembers, afterName, names]
  refine ⟨_, after, leadingU64_num (Numeral.natural?_ofNat t) small ?_⟩
  cases rest <;> exact ⟨_, _, rfl, rfl⟩

/-- Both readers take the time of such a frame: the frame is read with it, and so is the text. -/
theorem read_headJson (coin : String) {t : Nat} (small : t < UInt64.size) {rest : Members}
    (noCoin : standing rest "coin" = []) (noTime : standing rest "time" = [])
    (fits : depthMembers rest + 2 ≤ openContainers) :
    Frame.read (headJson "bbo" coin t rest).print = some (.bbo { coin := coin, time := t }) ∧
      blockTimeMs (headJson "bbo" coin t rest).print = some t := by
  refine ⟨?_, blockTimeMs_eq_some_iff.mpr (stampedWith_headJson "bbo" coin small rest)⟩
  have shallow : (headJson "bbo" coin t rest).depth ≤ openContainers := by
    simp only [headJson, depth, depthMembers]
    omega
  have named : text? (("coin", .str coin) :: ("time", .num (Numeral.ofNat t)) :: rest) "coin" =
      some coin := by
    rw [text?_eq_some_iff]
    simp [standing_cons, noCoin]
  have timed : u64Of? (("coin", .str coin) :: ("time", .num (Numeral.ofNat t)) :: rest) "time" =
      some t := by
    have stands : standing (("coin", .str coin) :: ("time", .num (Numeral.ofNat t)) :: rest)
        "time" = (some (Json.num (Numeral.ofNat t))).toList := by
      simp [standing_cons, noTime]
    rw [u64Of?, number?, field?_eq_some_iff.mpr stands]
    exact bounded?_eq_some_iff.mpr ⟨Numeral.natural?_ofNat t, small⟩
  have data : CoinTime.ofJson (.obj (("coin", .str coin) ::
      ("time", .num (Numeral.ofNat t)) :: rest)) = some { coin := coin, time := t } := by
    simp only [CoinTime.ofJson, record?, named, timed, Option.bind_eq_bind, Option.bind_some]
  rw [Frame.read, parse_print _ shallow, Option.bind_some]
  show (CoinTime.ofJson _).map Frame.bbo = _
  rw [data, Option.map_some]

/-! ### The gate -/

/-- For every reader of frames, every text it reads as a frame of the two channels and every reading
of the clock: the frame is routed and ordered by its time. If that time is ahead of the clock by
more than the limit, the frame is kept out exactly if the first `"time":` of the text is directly
followed by the digits of a number that is itself that far ahead (or too old, where an age is set).
At every reading of the clock the gate holds exactly if that number is no less than the time, or
the time is within the limit of zero. The raw search returns the time exactly if the first
`"time":` is directly followed by its digits; in a compact text that is what stands under the first
name that shows `time`. -/
theorem future_refused_iff (fromStr : String → Option Frame) (text : String) (frame : Frame)
    (stamp : Nat) (parsed : fromStr text = some frame) (timed : frame.time? = some stamp) :
    ∃ key seq, route frame = some (key, seq) ∧ seq.stamp = stamp ∧
      (∀ now later maxAge,
        (now + futureLimit < stamp →
            handleText fromStr now later maxAge text ≠ .update key seq) ↔
          stamp ≤ now + futureLimit ∨
            ∃ t, StampedWith text t ∧ (now + futureLimit < t ∨
              ∃ max, maxAge = some max ∧ t + max % UInt64.size < later)) ∧
      ((∀ now later maxAge, now + futureLimit < stamp →
          handleText fromStr now later maxAge text ≠ .update key seq) ↔
        stamp ≤ futureLimit ∨ ∃ t, StampedWith text t ∧ stamp ≤ t) ∧
      (blockTimeMs text = some stamp ↔ StampedWith text stamp) ∧
      ∀ json : Json, text = json.print →
        (StampedWith text stamp ↔ ∃ rest, afterName timeWord json.tokens = some rest ∧
          leadingU64 (render rest) = some stamp) := by
  obtain ⟨key, seq, routed, rfl⟩ := route_of_time? timed
  have gate := handleText_eq_update_iff parsed routed
  have each : ∀ now later maxAge,
      (now + futureLimit < seq.stamp →
          handleText fromStr now later maxAge text ≠ .update key seq) ↔
        seq.stamp ≤ now + futureLimit ∨
          ∃ t, StampedWith text t ∧ (now + futureLimit < t ∨
            ∃ max, maxAge = some max ∧ t + max % UInt64.size < later) := by
    intro now later maxAge
    rw [Ne, gate now later maxAge, Classical.not_not, ← Nat.not_lt, Decidable.imp_iff_not_or]
  refine ⟨key, seq, routed, rfl, each, ?_, blockTimeMs_eq_some_iff, ?_⟩
  · constructor
    · intro always
      by_cases near : seq.stamp ≤ futureLimit
      · exact .inl near
      · -- The clock just far enough behind the stamp, and no age limit.
        have kept := (each (seq.stamp - futureLimit - 1) 0 none).mp (always _ _ _)
        rcases kept with close | ⟨t, stamped, ahead | ⟨max, none, -⟩⟩
        · omega
        · exact .inr ⟨t, stamped, by omega⟩
        · cases none
    · rintro (near | ⟨t, stamped, reaches⟩) now later maxAge
      · exact (each now later maxAge).mpr (.inl (by omega))
      · intro ahead
        exact (each now later maxAge).mpr (.inr ⟨t, stamped, .inl (by omega)⟩) ahead
  · rintro json rfl
    exact stampedWith_print_iff json seq.stamp

/-- A frame a minute ahead, as the upstream lays it out. -/
theorem future_refused_iff_compact :
    let text := (headJson "bbo" "BTC" 60000 [("bid", .null), ("ask", .null)]).print
    Frame.read text = some (.bbo { coin := "BTC", time := 60000 }) ∧
      handleText Frame.read 0 0 none text ≠ .update (.bbo "BTC") (.lead 60000) := by
  have parsed : Frame.read (headJson "bbo" "BTC" 60000 [("bid", .null), ("ask", .null)]).print =
      some (.bbo { coin := "BTC", time := 60000 }) :=
    (read_headJson "BTC" (by decide) rfl rfl (by decide)).1
  obtain ⟨key, seq, routed, -, each, -⟩ := future_refused_iff Frame.read _ _ 60000 parsed rfl
  obtain ⟨rfl, rfl⟩ := Prod.mk.inj (Option.some.inj routed)
  refine ⟨parsed, (each 0 0 none).mpr (.inr ⟨60000, ?_, .inl (by decide)⟩) (by decide)⟩
  exact stampedWith_headJson "bbo" "BTC" (by decide) _

/-- A frame stamped centuries ahead, with a blank before the number. -/
def spaced : String :=
  "\x7b\"channel\":\"bbo\",\"data\":\x7b\"coin\":\"BTC\",\"time\": 99999999999999\x7d\x7d"

/-- A frame with a blank before its time is read with that time and let through, whatever the
clock, for the raw search finds no digits behind the colon. -/
theorem not_future_refused :
    Frame.read spaced = some (.bbo { coin := "BTC", time := 99999999999999 }) ∧
      route (.bbo { coin := "BTC", time := 99999999999999 }) =
        some (.bbo "BTC", .lead 99999999999999) ∧
      blockTimeMs spaced = none ∧ 1700000000000 + futureLimit < 99999999999999 ∧
      handleText Frame.read 1700000000000 1700000000000 none spaced =
        .update (.bbo "BTC") (.lead 99999999999999) := by
  decide

end Wsarb
