import Mathlib.Data.List.GetD
import Wsarb.Library.Reading

/-!
Owns the framing of the checking tools' own WebSocket client: what it sends for a text, and what it
reads back as one, over frames of any length form, masked or not, texts in fragments, and control
frames between them, in whatever chunks the bytes come.

Texts are the bytes they are encoded in; the last step of `recv_text`, decoding them, is not
modelled. Neither are the handshake and the socket itself: a chunk is what one `recv` returns, an
empty one the end, and where no chunk is left the socket times out. A ping's payload is at most 125
bytes, as the protocol has it: the client's answer has a single byte for the length.
-/

namespace Wsarb

open Wsarb.Library

namespace Ws

inductive Failure
  | runtimeError (text : String)
  | timeout
  | structError
  deriving DecidableEq

abbrev M (α : Type) := Talking UInt8 Failure α

/-- `_read`. -/
def read (n : Nat) : M (List UInt8) :=
  readItems (.runtimeError "connection closed by the server") .timeout n

/-- `bytes(b ^ mask[i % 4] for i, b in enumerate(payload))`. -/
def xorMask (mask payload : List UInt8) : List UInt8 :=
  payload.mapIdx fun i b => b ^^^ mask.getD (i % 4) 0

/-- `text.encode()`. -/
def encode (text : String) : List UInt8 := text.toUTF8.data.toList

/-- `send_text`, with the mask it drew. -/
def sendText (mask : List UInt8) (text : String) : M PUnit :=
  let payload := encode text
  let n := payload.length
  if n < 126 then writeItems ([0x81, 0x80 ||| UInt8.ofNat n] ++ mask ++ xorMask mask payload)
  else if n < 65536 then
    writeItems ([0x81, 0x80 ||| 126] ++ bigEndian 2 n ++ mask ++ xorMask mask payload)
  else if n < 2 ^ 64 then
    writeItems ([0x81, 0x80 ||| 127] ++ bigEndian 8 n ++ mask ++ xorMask mask payload)
  else throw .structError

/-- The length of a frame: as the seven bits have it, or in the bytes that follow. -/
def readLength (code : Nat) : M Nat :=
  if code = 126 then ofBigEndian <$> read 2
  else if code = 127 then ofBigEndian <$> read 8
  else pure code

def readMask (masked : Bool) : M (List UInt8) := if masked then read 4 else pure []

/-- `_frame`: whether it is final, its opcode, its payload. -/
def frame : M (Bool × UInt8 × List UInt8) := do
  let head ← read 2
  let b0 := head.getD 0 0
  let b1 := head.getD 1 0
  let n ← readLength (b1 &&& 0x7F).toNat
  let mask ← readMask (b1 &&& 0x80 ≠ 0)
  let payload ← read n
  pure (b0 &&& 0x80 ≠ 0, b0 &&& 0x0F, if mask ≠ [] then xorMask mask payload else payload)

/-- The answer to a ping, masked with zeros. A length byte that does not fit is refused. -/
def sendPong (payload : List UInt8) : M PUnit :=
  if 0x80 ||| payload.length < 256 then
    writeItems ([0x8A, UInt8.ofNat (0x80 ||| payload.length)] ++ [0, 0, 0, 0] ++ payload)
  else throw .structError

/-- The loop of `recv_text`, over at most so many frames. -/
def recvLoop : Nat → List (List UInt8) → M (List UInt8)
  | 0, _ => throw .timeout
  | fuel + 1, parts => do
      let (fin, opcode, payload) ← frame
      if opcode = 0x8 then throw (.runtimeError "server closed the connection")
      else if opcode = 0x9 then do
        sendPong payload
        recvLoop fuel parts
      else if opcode = 0xA then recvLoop fuel parts
      else if opcode ≠ 0x0 ∧ opcode ≠ 0x1 ∧ opcode ≠ 0x2 then recvLoop fuel parts
      else if fin then pure (parts ++ [payload]).flatten
      else recvLoop fuel (parts ++ [payload])

/-- `recv_text`: a frame takes two bytes at least, so that no more frames than bytes can come. -/
def recvText : M (List UInt8) := fun conn => recvLoop (conn.stream.length + 1) [] conn

end Ws

/-! ### Frames -/

/-- How the length of a frame is written. -/
inductive LengthForm
  | short
  | medium
  | long

namespace LengthForm

/-- The lengths the form can write. -/
def Fits : LengthForm → Nat → Prop
  | short, n => n < 126
  | medium, n => n < 2 ^ 16
  | long, n => n < 2 ^ 64

instance : ∀ (form : LengthForm) (n : Nat), Decidable (form.Fits n)
  | short, n => inferInstanceAs (Decidable (n < 126))
  | medium, n => inferInstanceAs (Decidable (n < 2 ^ 16))
  | long, n => inferInstanceAs (Decidable (n < 2 ^ 64))

/-- The seven bits of the second byte. -/
def code : LengthForm → Nat → Nat
  | short, n => n
  | medium, _ => 126
  | long, _ => 127

def extra : LengthForm → Nat → List UInt8
  | short, _ => []
  | medium, n => bigEndian 2 n
  | long, n => bigEndian 8 n

end LengthForm

/-- A frame as it may stand on the wire. -/
structure WireFrame where
  fin : Bool
  opcode : Fin 16
  mask : Option { mask : List UInt8 // mask.length = 4 }
  payload : List UInt8
  form : LengthForm
  fits : form.Fits payload.length

namespace WireFrame

def first (fin : Bool) (opcode : Fin 16) : UInt8 :=
  (if fin then 0x80 else 0) ||| UInt8.ofNat opcode

def second (masked : Bool) (code : Nat) : UInt8 := (if masked then 0x80 else 0) ||| UInt8.ofNat code

/-- The mask as it stands before the payload, if there is one. -/
def maskBytes (f : WireFrame) : List UInt8 := f.mask.elim [] (·.1)

def body (f : WireFrame) : List UInt8 :=
  f.mask.elim f.payload fun mask => Ws.xorMask mask.1 f.payload

def bytes (f : WireFrame) : List UInt8 :=
  [first f.fin f.opcode, second f.mask.isSome (f.form.code f.payload.length)] ++
    (f.form.extra f.payload.length ++ (f.maskBytes ++ f.body))

end WireFrame

/-! ### Reading one frame -/

namespace WireFrame

theorem first_bits (fin : Bool) (opcode : Fin 16) :
    decide (first fin opcode &&& 0x80 ≠ 0) = fin ∧
      first fin opcode &&& 0x0F = UInt8.ofNat opcode := by
  revert fin opcode
  decide

theorem second_bits (masked : Bool) (code : Fin 128) :
    decide (second masked code &&& 0x80 ≠ 0) = masked ∧
      (second masked code &&& 0x7F).toNat = code := by
  revert masked code
  decide

end WireFrame

theorem LengthForm.code_lt {form : LengthForm} {n : Nat} (fits : form.Fits n) :
    form.code n < 128 := by
  cases form with
  | short => exact Nat.lt_trans fits (by decide)
  | medium => exact (by decide : 126 < 128)
  | long => exact (by decide : 127 < 128)

namespace Ws

/-- Masking twice is masking not at all. -/
theorem xorMask_xorMask (mask payload : List UInt8) :
    xorMask mask (xorMask mask payload) = payload := by
  apply List.ext_getElem
  · simp [xorMask]
  · intro i _ _
    simp only [xorMask, List.getElem_mapIdx]
    rw [UInt8.xor_assoc, UInt8.xor_self, UInt8.xor_zero]

theorem length_xorMask (mask payload : List UInt8) :
    (xorMask mask payload).length = payload.length := by
  simp [xorMask]

theorem reads_read (items : List UInt8) {n : Nat} (size : items.length = n) :
    Reads (read n) items items [] := reads_readItems _ _ items size

/-- The length is read in the form it is written in. -/
theorem reads_length {form : LengthForm} {n : Nat} (fits : form.Fits n) :
    Reads (readLength (form.code n)) (form.extra n) n [] := by
  rw [readLength]
  cases form with
  | short =>
      have small : n < 126 := fits
      rw [LengthForm.code, if_neg (by omega), if_neg (by omega)]
      exact .pure n
  | medium =>
      have spelled := (reads_read (bigEndian 2 n) (length_bigEndian 2 n)).map ofBigEndian
      rwa [ofBigEndian_bigEndian 2 n fits] at spelled
  | long =>
      have spelled := (reads_read (bigEndian 8 n) (length_bigEndian 8 n)).map ofBigEndian
      rwa [ofBigEndian_bigEndian 8 n (by simpa [LengthForm.Fits] using fits)] at spelled

theorem reads_mask (f : WireFrame) :
    Reads (readMask f.mask.isSome) f.maskBytes f.maskBytes [] := by
  rw [WireFrame.maskBytes]
  cases f.mask with
  | none => exact .pure []
  | some mask => exact reads_read mask.1 mask.2

/-- What is read of the body is the payload. -/
theorem reads_body (f : WireFrame) {α : Type} (value : List UInt8 → α) :
    Reads (do
      let payload ← read f.payload.length
      pure (value (if f.maskBytes ≠ [] then xorMask f.maskBytes payload else payload)) : M α)
      f.body (value f.payload) [] := by
  have size : f.body.length = f.payload.length := by
    rw [WireFrame.body]
    cases f.mask with
    | none => rfl
    | some mask => exact length_xorMask mask.1 f.payload
  have plain : (if f.maskBytes ≠ [] then xorMask f.maskBytes f.body else f.body) = f.payload := by
    rw [WireFrame.body, WireFrame.maskBytes]
    cases f.mask with
    | none => rfl
    | some mask =>
        have some : mask.1 ≠ [] := by
          intro none
          have size := mask.2
          rw [none] at size
          cases size
        exact (if_pos some).trans (xorMask_xorMask mask.1 f.payload)
  rw [← List.append_nil f.body]
  refine (reads_read f.body size).bind ?_
  rw [plain]
  exact .pure _

theorem reads_frame (f : WireFrame) :
    Reads frame f.bytes (f.fin, UInt8.ofNat f.opcode, f.payload) [] := by
  have second := WireFrame.second_bits f.mask.isSome ⟨_, LengthForm.code_lt f.fits⟩
  obtain ⟨fin, opcode⟩ := WireFrame.first_bits f.fin f.opcode
  refine (reads_read _ rfl).bind ?_
  simp only [List.getD_cons_zero, List.getD_cons_succ, second, fin, opcode]
  refine (reads_length f.fits).bind ((reads_mask f).bind ?_)
  exact reads_body f fun payload => (f.fin, UInt8.ofNat f.opcode, payload)

/-- A frame takes two bytes at least. -/
theorem spends_frame : Spends frame 2 := by
  have any (code : Nat) : Spends (readLength code) 0 := by
    rw [readLength]
    split_ifs
    · exact ((spends_readItems _ _ 2).bind fun _ => .pure _).weaken (Nat.zero_le _)
    · exact ((spends_readItems _ _ 8).bind fun _ => .pure _).weaken (Nat.zero_le _)
    · exact .pure _
  have mask (masked : Bool) : Spends (readMask masked) 0 := by
    rw [readMask]
    split_ifs
    · exact (spends_readItems _ _ 4).weaken (Nat.zero_le _)
    · exact .pure _
  exact (spends_readItems _ _ 2).bind fun _ => (any _).bind fun _ => (mask _).bind fun _ =>
    ((spends_readItems _ _ _).weaken (Nat.zero_le _)).bind fun _ => .pure _

/-- With more fuel than there are bytes the loop does not run out of it. -/
theorem recvLoop_of_le (fuel : Nat) : ∀ (more : Nat) (parts : List (List UInt8))
    (conn : Conn UInt8), conn.stream.length < fuel → fuel ≤ more →
      recvLoop more parts conn = recvLoop fuel parts conn := by
  induction fuel with
  | zero => exact fun _ _ _ never _ => absurd never (Nat.not_lt_zero _)
  | succ fuel inductionHypothesis =>
      intro more parts conn enough le
      obtain ⟨more, rfl⟩ := Nat.exists_eq_succ_of_ne_zero (Nat.ne_of_gt (Nat.zero_lt_of_lt le))
      have le : fuel ≤ more := Nat.le_of_succ_le_succ le
      show (frame conn >>= _) = (frame conn >>= _)
      cases begins : frame conn with
      | error failure => rfl
      | ok pair =>
          obtain ⟨⟨fin, opcode, payload⟩, after⟩ := pair
          have spent := spends_frame conn _ after begins
          have later (parts : List (List UInt8)) (next : Conn UInt8)
              (same : next.stream = after.stream) :
              recvLoop more parts next = recvLoop fuel parts next :=
            inductionHypothesis more parts next (by rw [same]; omega) le
          simp only [bind, Except.bind]
          split
          · rfl
          · split
            · simp only [sendPong]
              split
              · exact later parts _ rfl
              · rfl
            · split_ifs
              · exact later parts after rfl
              · exact later parts after rfl
              · rfl
              · exact later _ after rfl

end Ws

/-! ### Reading a text -/

namespace WireFrame

def isData (f : WireFrame) : Bool := decide (f.opcode.1 ≤ 2)

def isPing (f : WireFrame) : Bool := decide (f.opcode.1 = 9)

/-- The frame does not end a text nor the connection: a piece that is not the last, or anything but
a close. -/
def Passing (f : WireFrame) : Prop :=
  f.opcode.1 ≠ 8 ∧ (f.isData = true → f.fin = false) ∧
    (f.isPing = true → f.payload.length < 126)

/-- The frame carries the last piece of a text. -/
def Ends (f : WireFrame) : Prop := f.isData = true ∧ f.fin = true

def pong (payload : List UInt8) (short : payload.length < 126) : WireFrame where
  fin := true
  opcode := 10
  mask := some ⟨[0, 0, 0, 0], rfl⟩
  payload := payload
  form := .short
  fits := short

/-- What is sent back for a frame: its payload as a pong, if it is a ping. -/
def answer (f : WireFrame) : List UInt8 :=
  if short : f.isPing = true ∧ f.payload.length < 126 then (pong f.payload short.2).bytes else []

end WireFrame

namespace Ws

theorem xorMask_zeros (payload : List UInt8) : xorMask [0, 0, 0, 0] payload = payload := by
  have zero (i : Nat) : ([0, 0, 0, 0] : List UInt8).getD i 0 = 0 :=
    List.getElem?_getD_replicate_default_eq (0 : UInt8) 4 i
  apply List.ext_getElem
  · exact length_xorMask _ payload
  · intro i _ _
    simp only [xorMask, List.getElem_mapIdx, zero, UInt8.xor_zero]

theorem pong_bits (size : Fin 126) : 0x80 ||| size.1 < 256 ∧
    UInt8.ofNat (0x80 ||| size.1) = WireFrame.second true size := by
  revert size
  decide

/-- A ping is answered with a well-formed pong. -/
theorem reads_sendPong (payload : List UInt8) (short : payload.length < 126) :
    Reads (sendPong payload) [] ⟨⟩ (WireFrame.pong payload short).bytes := by
  obtain ⟨fits, byte⟩ := pong_bits ⟨payload.length, short⟩
  have same : (WireFrame.pong payload short).bytes =
      [0x8A, UInt8.ofNat (0x80 ||| payload.length)] ++ [0, 0, 0, 0] ++ payload := by
    rw [byte, WireFrame.bytes, WireFrame.body, WireFrame.maskBytes]
    show [WireFrame.first true 10, WireFrame.second true payload.length] ++
      ([] ++ ([0, 0, 0, 0] ++ xorMask [0, 0, 0, 0] payload)) = _
    have head : WireFrame.first true 10 = 0x8A := by decide
    rw [xorMask_zeros, head]
    rfl
  rw [sendPong, if_pos fits, same]
  exact reads_writeItems _

/-- The tests of the loop on an opcode. -/
theorem opcode_tests (opcode : Fin 16) :
    (UInt8.ofNat opcode = 0x8 ↔ opcode.1 = 8) ∧ (UInt8.ofNat opcode = 0x9 ↔ opcode.1 = 9) ∧
      (UInt8.ofNat opcode = 0xA ↔ opcode.1 = 10) ∧
      ((UInt8.ofNat opcode ≠ 0x0 ∧ UInt8.ofNat opcode ≠ 0x1 ∧ UInt8.ofNat opcode ≠ 0x2) ↔
        ¬ opcode.1 ≤ 2) := by
  revert opcode
  decide

/-- One turn of the loop: what it does with a frame it has read. -/
theorem reads_turn (f : WireFrame) {fuel : Nat} {parts : List (List UInt8)} {items out : List UInt8}
    {text : List UInt8}
    (then' : Reads (if f.opcode.1 = 8 then throw (.runtimeError "server closed the connection")
      else if f.opcode.1 = 9 then do
        sendPong f.payload
        recvLoop fuel parts
      else if f.opcode.1 = 10 then recvLoop fuel parts
      else if ¬ f.opcode.1 ≤ 2 then recvLoop fuel parts
      else if f.fin then pure (parts ++ [f.payload]).flatten
      else recvLoop fuel (parts ++ [f.payload]) : M (List UInt8)) items text out) :
    Reads (recvLoop (fuel + 1) parts) (f.bytes ++ items) text out := by
  obtain ⟨close, ping, pong, data⟩ := opcode_tests f.opcode
  rw [recvLoop, ← List.nil_append out]
  refine (reads_frame f).bind ?_
  simpa only [close, ping, pong, data] using then'

theorem reads_recvLoop (passed : List WireFrame) (last : WireFrame)
    (passing : ∀ f ∈ passed, f.Passing) (ends : last.Ends) {fuel : Nat}
    (enough : passed.length < fuel) (parts : List (List UInt8)) :
    Reads (recvLoop fuel parts) ((passed ++ [last]).flatMap WireFrame.bytes)
      (parts.flatten ++ (passed.filter (·.isData) ++ [last]).flatMap (·.payload))
      (passed.flatMap WireFrame.answer) := by
  induction passed generalizing fuel parts with
  | nil =>
      obtain ⟨fuel, rfl⟩ := Nat.exists_eq_succ_of_ne_zero (Nat.ne_of_gt enough)
      obtain ⟨data, fin⟩ := ends
      have small : last.opcode.1 ≤ 2 := of_decide_eq_true data
      refine reads_turn last ?_
      rw [if_neg (by omega), if_neg (by omega), if_neg (by omega), if_neg (by omega), fin,
        if_pos rfl]
      simpa using Reads.pure (parts ++ [last.payload]).flatten
  | cons f rest inductionHypothesis =>
      obtain ⟨fuel, rfl⟩ := Nat.exists_eq_succ_of_ne_zero (Nat.ne_of_gt (Nat.zero_lt_of_lt enough))
      have later := fun parts => inductionHypothesis
        (fun other member => passing other (List.mem_cons_of_mem _ member))
        (Nat.lt_of_succ_lt_succ enough) parts
      obtain ⟨open', unfinished, short⟩ := passing f List.mem_cons_self
      refine reads_turn f ?_
      rw [if_neg open']
      by_cases ping : f.opcode.1 = 9
      · have isPing : f.isPing = true := decide_eq_true ping
        have apart : f.isData = false := decide_eq_false (by omega)
        have answers : f.answer = (WireFrame.pong f.payload (short isPing)).bytes :=
          dif_pos ⟨isPing, short isPing⟩
        rw [if_pos ping, List.filter_cons_of_neg (by simp [apart]), List.flatMap_cons, answers]
        exact (reads_sendPong f.payload (short isPing)).bind (later parts)
      · have silent : f.answer = [] := dif_neg fun both => ping (of_decide_eq_true both.1)
        rw [if_neg ping, List.flatMap_cons, silent, List.nil_append]
        by_cases data : f.opcode.1 ≤ 2
        · have isData : f.isData = true := decide_eq_true data
          rw [if_neg (by omega), if_neg (by omega), unfinished isData, if_neg Bool.false_ne_true,
            List.filter_cons_of_pos isData]
          have joined : (parts ++ [f.payload]).flatten ++
              (rest.filter (·.isData) ++ [last]).flatMap (·.payload) = parts.flatten ++
              (f :: rest.filter (·.isData) ++ [last]).flatMap (·.payload) := by
            simp [List.append_assoc]
          exact joined ▸ later (parts ++ [f.payload])
        · have apart : f.isData = false := decide_eq_false data
          rw [if_pos data, ite_self, List.filter_cons_of_neg (by simp [apart])]
          exact later parts

/-- The bound on the loop of `recv_text` is none: with more fuel it would do the same. -/
theorem recvText_eq_recvLoop (conn : Conn UInt8) {fuel : Nat} (enough : conn.stream.length < fuel) :
    recvText conn = recvLoop fuel [] conn :=
  (recvLoop_of_le _ fuel [] conn (Nat.lt_succ_self _) enough).symm

theorem length_le_bytes (frames : List WireFrame) :
    frames.length ≤ (frames.flatMap WireFrame.bytes).length := by
  induction frames with
  | nil => exact Nat.le_refl 0
  | cons f rest inductionHypothesis =>
      have some : 0 < f.bytes.length := Nat.succ_pos _
      rw [List.flatMap_cons, List.length_append, List.length_cons]
      omega

/-- Whatever frames come before the last piece of a text, pings of at most 125 bytes among them,
`recv_text` ends with the text's bytes, still to be decoded, in whatever chunks they came, having
answered the pings in turn, and leaves what follows. -/
theorem recvText_reads (passed : List WireFrame) (last : WireFrame)
    (passing : ∀ f ∈ passed, f.Passing) (ends : last.Ends) :
    Reads recvText ((passed ++ [last]).flatMap WireFrame.bytes)
      ((passed.filter (·.isData) ++ [last]).flatMap (·.payload))
      (passed.flatMap WireFrame.answer) := by
  intro conn rest lively holds
  have enough : passed.length < conn.stream.length + 1 := by
    have bytes := length_le_bytes (passed ++ [last])
    rw [List.length_append] at bytes
    rw [holds, List.length_append]
    omega
  exact reads_recvLoop passed last passing ends enough [] conn rest lively holds

/-- A text in two pieces with a ping between them, cut anywhere, and the start of another frame. -/
theorem recvText_reads_pieces : ∃ after,
    recvText ⟨[0x01], [[0x02, 104, 101, 0x89], [0x01, 7, 0x80, 0x03], [108, 108, 111, 0x81]], []⟩ =
      .ok ([104, 101, 108, 108, 111], after) ∧ after.stream = [0x81] ∧
      after.sent = [0x8A, 0x81, 0, 0, 0, 0, 7] := by
  let piece : WireFrame := ⟨false, 1, none, [104, 101], .short, by decide⟩
  let ping : WireFrame := ⟨true, 9, none, [7], .short, by decide⟩
  let last : WireFrame := ⟨true, 0, none, [108, 108, 111], .short, by decide⟩
  have passing : ∀ f ∈ [piece, ping], f.Passing := by
    intro f member
    rcases List.mem_pair.mp member with rfl | rfl
    · exact ⟨by decide, fun _ => rfl, fun never => absurd never (by decide)⟩
    · exact ⟨by decide, fun never => absurd never (by decide), fun _ => by decide⟩
  obtain ⟨after, runs, -, left, sent⟩ := recvText_reads [piece, ping] last passing
    ⟨by decide, rfl⟩ ⟨[0x01], [[0x02, 104, 101, 0x89], [0x01, 7, 0x80, 0x03],
      [108, 108, 111, 0x81]], []⟩ [0x81] (by decide) (by decide)
  exact ⟨after, runs, left, sent.trans (by decide)⟩

/-! ### From one client to another -/

/-- What `send_text` sends is one frame that carries the whole text. -/
theorem reads_sendText (mask : { mask : List UInt8 // mask.length = 4 }) (text : String)
    (sized : (encode text).length < 2 ^ 64) :
    ∃ f : WireFrame, f.Ends ∧ f.payload = encode text ∧
      Reads (sendText mask.1 text) [] ⟨⟩ f.bytes := by
  have head : WireFrame.first true 1 = 0x81 := by decide
  have frame (form : LengthForm) (fits : form.Fits (encode text).length)
      (sends : sendText mask.1 text = writeItems ([0x81, 0x80 ||| UInt8.ofNat
        (form.code (encode text).length)] ++ form.extra (encode text).length ++ mask.1 ++
        xorMask mask.1 (encode text))) :
      ∃ f : WireFrame, f.Ends ∧ f.payload = encode text ∧
        Reads (sendText mask.1 text) [] ⟨⟩ f.bytes := by
    refine ⟨⟨true, 1, some mask, encode text, form, fits⟩, ⟨rfl, rfl⟩, rfl, ?_⟩
    have bytes : (⟨true, 1, some mask, encode text, form, fits⟩ : WireFrame).bytes =
        [0x81, 0x80 ||| UInt8.ofNat (form.code (encode text).length)] ++
          form.extra (encode text).length ++ mask.1 ++ xorMask mask.1 (encode text) := by
      rw [WireFrame.bytes, head, List.append_assoc, List.append_assoc]
      rfl
    rw [bytes, sends]
    exact reads_writeItems _
  by_cases short : (encode text).length < 126
  · refine frame .short short ?_
    rw [sendText, if_pos short, LengthForm.extra, List.append_nil]
    rfl
  · by_cases medium : (encode text).length < 65536
    · refine frame .medium medium ?_
      rw [sendText, if_neg short, if_pos medium]
      rfl
    · refine frame .long sized ?_
      rw [sendText, if_neg short, if_neg medium, if_pos sized]
      rfl

def sendTexts : List ({ mask : List UInt8 // mask.length = 4 } × String) → M PUnit
  | [] => pure ⟨⟩
  | (mask, text) :: rest => do
      sendText mask.1 text
      sendTexts rest

def recvTexts : Nat → M (List (List UInt8))
  | 0 => pure []
  | n + 1 => do
      let text ← recvText
      let rest ← recvTexts n
      pure (text :: rest)

/-- The texts one client sends are the texts another receives, as the bytes they are encoded in, in
whatever chunks these come. -/
theorem texts_arrive (texts : List ({ mask : List UInt8 // mask.length = 4 } × String))
    (sized : ∀ text ∈ texts, (encode text.2).length < 2 ^ 64) :
    ∃ bytes, Reads (sendTexts texts) [] ⟨⟩ bytes ∧
      Reads (recvTexts texts.length) bytes (texts.map fun text => encode text.2) [] := by
  induction texts with
  | nil => exact ⟨[], .pure _, .pure _⟩
  | cons first rest inductionHypothesis =>
      obtain ⟨bytes, sends, receives⟩ := inductionHypothesis fun text member =>
        sized text (List.mem_cons_of_mem _ member)
      obtain ⟨f, ends, payload, sendsFirst⟩ :=
        reads_sendText first.1 first.2 (sized first List.mem_cons_self)
      have receivesFirst := recvText_reads [] f (fun _ member => absurd member List.not_mem_nil)
        ends
      simp only [List.nil_append, List.flatMap_cons, List.flatMap_nil, List.append_nil, payload,
        List.filter_nil] at receivesFirst
      refine ⟨f.bytes ++ bytes, sendsFirst.bind sends, ?_⟩
      have receivesRest : Reads (recvTexts rest.length >>= fun others =>
          pure (encode first.2 :: others)) (bytes ++ []) (encode first.2 ::
          rest.map fun text => encode text.2) ([] ++ []) := receives.bind (.pure _)
      rw [List.append_nil] at receivesRest
      exact receivesFirst.bind receivesRest

theorem texts_arrive_two : ∃ bytes,
    Reads (sendTexts [(⟨[1, 2, 3, 4], rfl⟩, "ab"), (⟨[5, 6, 7, 8], rfl⟩, "")]) [] ⟨⟩ bytes ∧
      Reads (recvTexts 2) bytes [encode "ab", encode ""] [] := by
  refine texts_arrive [(⟨[1, 2, 3, 4], rfl⟩, "ab"), (⟨[5, 6, 7, 8], rfl⟩, "")] ?_
  intro text member
  rcases List.mem_pair.mp member with rfl | rfl
  · exact (by decide : 2 < 2 ^ 64)
  · exact (by decide : 0 < 2 ^ 64)

end Ws

end Wsarb
