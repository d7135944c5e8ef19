import Wsarb.State.Registry

/-!
Owns one upstream connection as far as the proxy relies on it: the source reads the requests
sent to it in order, and its frames arrive in the order it sent them. Once it has read a
`Subscribe` for an incremental key it sends a snapshot of the key before any increment; once
it has read an `Unsubscribe` it sends nothing more of the key, but what it sent before is
still on its way.

Does not own: what becomes of a frame that arrives.
-/

namespace Wsarb

open AppState

/-- How far a source has got with a key it was asked for. -/
inductive Mode
  | off
  | opening
  | streaming
  deriving DecidableEq

/-- A frame a source sent, with how many requests it had read by then. -/
structure Parcel where
  message : Message
  read : Nat
  deriving DecidableEq

namespace Parcel

/-- A request to stop the key was sent that the source had not read when it sent the frame. -/
def Late (sent : List SubRequest) (p : Parcel) : Prop :=
  .unsubscribe p.message.key ∈ sent.drop p.read

/-- The frame is a snapshot of the key, and not a late one. -/
def Opens (sent : List SubRequest) (key : SubKey) (p : Parcel) : Prop :=
  p.message.key = key ∧ p.message.seq.isSnapshot = true ∧ ¬ p.Late sent

instance (sent : List SubRequest) (p : Parcel) : Decidable (p.Late sent) :=
  inferInstanceAs (Decidable (_ ∈ _))

instance (sent : List SubRequest) (key : SubKey) (p : Parcel) : Decidable (p.Opens sent key) :=
  inferInstanceAs (Decidable (_ ∧ _))

end Parcel

/-- The connection to one source. -/
structure Link where
  /-- How many requests the source has read. -/
  read : Nat
  mode : SubKey → Mode
  /-- The frames it sent, those lost with a connection apart, oldest first. -/
  frames : List Parcel
  /-- How many of them have arrived. -/
  arrived : Nat

namespace Link

def new : Link := ⟨0, fun _ => .off, [], 0⟩

variable (link : Link)

/-- The source reads the next request sent to it, if there is one. -/
def serve (sent : List SubRequest) : Link :=
  match sent[link.read]? with
  | none => link
  | some (.subscribe key) =>
      { link with read := link.read + 1, mode := Function.update link.mode key .opening }
  | some (.unsubscribe key) =>
      { link with read := link.read + 1, mode := Function.update link.mode key .off }

/-- The source may send this frame now. -/
def Allows (message : Message) : Prop :=
  message.key.isIncremental = true → link.mode message.key ≠ .off ∧
    (link.mode message.key = .opening → message.seq.isSnapshot = true)

instance (message : Message) : Decidable (link.Allows message) :=
  inferInstanceAs (Decidable (_ → _))

def emit (message : Message) : Link :=
  if link.Allows message then
    { link with
      mode := Function.update link.mode message.key .streaming
      frames := link.frames ++ [⟨message, link.read⟩] }
  else link

def next : Option Parcel := link.frames[link.arrived]?

def heard : List Parcel := link.frames.take link.arrived

def arrive : Link := { link with arrived := link.arrived + 1 }

/-- The connection is made anew: what had not arrived is lost, the requests not yet read are
dropped, and the source is subscribed to what is live. -/
def reconnect (sent live : List SubRequest) : Link where
  read := sent.length
  mode key := if .subscribe key ∈ live then .opening else .off
  frames := link.heard
  arrived := link.arrived

end Link

/-! ### Late frames -/

section Late

variable {sent more : List SubRequest} {p : Parcel}

theorem late_append (within : p.read ≤ sent.length) :
    p.Late (sent ++ more) ↔ p.Late sent ∨ .unsubscribe p.message.key ∈ more := by
  rw [Parcel.Late, List.drop_append_of_le_length within, List.mem_append, Parcel.Late]

theorem opens_append (within : p.read ≤ sent.length) {key : SubKey} :
    p.Opens (sent ++ more) key ↔ p.Opens sent key ∧ .unsubscribe key ∉ more := by
  unfold Parcel.Opens
  rw [late_append within, not_or]
  constructor
  · rintro ⟨rfl, snapshot, early, kept⟩
    exact ⟨⟨rfl, snapshot, early⟩, kept⟩
  · rintro ⟨⟨rfl, snapshot, early⟩, kept⟩
    exact ⟨rfl, snapshot, early, kept⟩

/-- A request to stop was sent after the source had read that the key was wanted. -/
theorem unsubscribed_of_last {key : SubKey} {read : Nat}
    (asked : lastRequest key (sent.take read) = some (.subscribe key))
    (last : lastRequest key sent ≠ some (.subscribe key)) :
    .unsubscribe key ∈ sent.drop read := by
  by_contra kept
  have still := lastRequest_append asked kept
  rw [List.take_append_drop] at still
  exact last still

end Late

namespace Link

/-- What a source that keeps to the protocol, asked `sent`, leaves on its connection. -/
structure Sound (source : Nat) (sent : List SubRequest) (link : Link) : Prop where
  behind : link.read ≤ sent.length
  arrived : link.arrived ≤ link.frames.length
  asked : ∀ key, key.isIncremental = true → link.mode key ≠ .off →
    lastRequest key (sent.take link.read) = some (.subscribe key)
  own : ∀ p ∈ link.frames, p.message.source = source
  within : ∀ p ∈ link.frames, p.read ≤ sent.length
  wanted : ∀ p ∈ link.frames, p.message.key.isIncremental = true →
    lastRequest p.message.key (sent.take p.read) = some (.subscribe p.message.key)
  /-- An increment that is not late comes behind a snapshot that is not. -/
  opened : ∀ before p, before ++ [p] <+: link.frames → p.message.key.isIncremental = true →
    p.message.seq.isSnapshot = false → ¬ p.Late sent →
    ∃ q ∈ before, q.Opens sent p.message.key
  streams : ∀ key, key.isIncremental = true → link.mode key = .streaming →
    .unsubscribe key ∉ sent.drop link.read → ∃ q ∈ link.frames, q.Opens sent key

theorem sound_new (source : Nat) : Sound source [] Link.new where
  behind := Nat.le_refl 0
  arrived := Nat.le_refl 0
  asked _ _ on := absurd rfl on
  own _ member := absurd member List.not_mem_nil
  within _ member := absurd member List.not_mem_nil
  wanted _ member := absurd member List.not_mem_nil
  opened _ _ isPrefix := by simp [Link.new] at isPrefix
  streams _ _ mode := nomatch mode

variable {source : Nat} {sent : List SubRequest} {link : Link}

namespace Sound

/-- More requests on their way change nothing for the source. -/
theorem more (sound : Sound source sent link) (said : List SubRequest) :
    Sound source (sent ++ said) link where
  behind := by
    rw [List.length_append]
    exact Nat.le_add_right_of_le sound.behind
  arrived := sound.arrived
  asked key incremental on := by
    rw [List.take_append_of_le_length sound.behind]
    exact sound.asked key incremental on
  own := sound.own
  within p member := by
    rw [List.length_append]
    exact Nat.le_add_right_of_le (sound.within p member)
  wanted p member incremental := by
    rw [List.take_append_of_le_length (sound.within p member)]
    exact sound.wanted p member incremental
  opened before p isPrefix incremental plain early := by
    have member : p ∈ link.frames := isPrefix.subset (by simp)
    obtain ⟨notLate, kept⟩ := not_or.mp ((late_append (sound.within p member)).not.mp early)
    obtain ⟨q, sentBefore, opens⟩ := sound.opened before p isPrefix incremental plain notLate
    have listed : q ∈ link.frames := isPrefix.subset (List.mem_append_left _ sentBefore)
    exact ⟨q, sentBefore, (opens_append (sound.within q listed)).mpr ⟨opens, kept⟩⟩
  streams key incremental mode kept := by
    rw [List.drop_append_of_le_length sound.behind, List.mem_append, not_or] at kept
    obtain ⟨q, member, opens⟩ := sound.streams key incremental mode kept.1
    exact ⟨q, member, (opens_append (sound.within q member)).mpr ⟨opens, kept.2⟩⟩

/-- Reading a request about one key moves the mode of that key alone. -/
theorem read_next (sound : Sound source sent link) {req : SubRequest} (mode : Mode)
    (due : sent[link.read]? = some req) (idle : mode ≠ .streaming)
    (on : mode ≠ .off → req = .subscribe req.key) :
    Sound source sent
      { link with read := link.read + 1, mode := Function.update link.mode req.key mode } := by
  obtain ⟨inside, same⟩ := List.getElem?_eq_some_iff.mp due
  have taken : sent.take (link.read + 1) = sent.take link.read ++ [req] := by
    rw [List.take_add_one, due]
    rfl
  refine { sound with behind := inside, asked := ?_, streams := ?_ }
  · intro key incremental wanted
    replace wanted : Function.update link.mode req.key mode key ≠ .off := wanted
    rw [taken, lastRequest_concat]
    split
    · next about =>
        subst about
        rw [Function.update_self] at wanted
        rw [on wanted]
        rfl
    · next other =>
        rw [Function.update_of_ne (Ne.symm other)] at wanted
        exact sound.asked key incremental wanted
  · intro key incremental streaming kept
    replace streaming : Function.update link.mode req.key mode key = .streaming := streaming
    by_cases about : key = req.key
    · subst about
      rw [Function.update_self] at streaming
      exact absurd streaming idle
    · rw [Function.update_of_ne about] at streaming
      apply sound.streams key incremental streaming
      intro listed
      rw [List.drop_eq_getElem_cons inside, same] at listed
      rcases List.mem_cons.mp listed with rfl | later
      · exact about rfl
      · exact kept later

theorem serve (sound : Sound source sent link) : Sound source sent (link.serve sent) := by
  unfold Link.serve
  split
  · exact sound
  · next key due =>
      exact sound.read_next .opening due (fun same => nomatch same) fun _ => rfl
  · next key due =>
      exact sound.read_next .off due (fun same => nomatch same) fun on => absurd rfl on

theorem emit (sound : Sound source sent link) {message : Message}
    (own : message.source = source) : Sound source sent (link.emit message) := by
  unfold Link.emit
  split
  · next allows =>
      -- Every invariant of frames is one of the old frames or of the new one.
      have each : ∀ {P : Parcel → Prop}, (∀ p ∈ link.frames, P p) → P ⟨message, link.read⟩ →
          ∀ p ∈ link.frames ++ [⟨message, link.read⟩], P p := by
        intro P old new p member
        rcases List.mem_append.mp member with before | last
        · exact old p before
        · rw [List.mem_singleton.mp last]
          exact new
      refine ⟨sound.behind, ?_, ?_, each sound.own own, each sound.within sound.behind,
        each sound.wanted fun incremental => sound.asked _ incremental (allows incremental).1,
        ?_, ?_⟩
      · show link.arrived ≤ (link.frames ++ [_]).length
        rw [List.length_append]
        exact Nat.le_add_right_of_le sound.arrived
      · intro key incremental on
        replace on : Function.update link.mode message.key .streaming key ≠ .off := on
        by_cases about : key = message.key
        · subst about
          exact sound.asked _ incremental (allows incremental).1
        · rw [Function.update_of_ne about] at on
          exact sound.asked key incremental on
      · intro before p isPrefix incremental plain early
        rcases List.prefix_concat_iff.mp isPrefix with whole | shorter
        · obtain ⟨rfl, same⟩ := List.append_inj' whole rfl
          obtain rfl := List.singleton_inj.mp same
          obtain ⟨on, opening⟩ := allows incremental
          cases mode : link.mode message.key with
          | off => exact absurd mode on
          | opening =>
              rw [opening mode] at plain
              cases plain
          | streaming => exact sound.streams _ incremental mode early
        · exact sound.opened before p shorter incremental plain early
      · intro key incremental streaming kept
        replace streaming : Function.update link.mode message.key .streaming key = .streaming :=
          streaming
        have old : link.mode key = .streaming →
            ∃ q ∈ link.frames ++ [⟨message, link.read⟩], q.Opens sent key := by
          intro mode
          obtain ⟨q, member, opens⟩ := sound.streams key incremental mode kept
          exact ⟨q, List.mem_append_left _ member, opens⟩
        by_cases about : key = message.key
        · subst about
          obtain ⟨on, opening⟩ := allows incremental
          cases mode : link.mode message.key with
          | off => exact absurd mode on
          | opening =>
              exact ⟨⟨message, link.read⟩, List.mem_append_right _ (List.mem_singleton.mpr rfl),
                rfl, opening mode, kept⟩
          | streaming => exact old mode
        · rw [Function.update_of_ne about] at streaming
          exact old streaming
  · exact sound

theorem arrive (sound : Sound source sent link) {p : Parcel} (due : link.next = some p) :
    Sound source sent link.arrive :=
  { sound with arrived := (List.getElem?_eq_some_iff.mp due).1 }

theorem reconnect (sound : Sound source sent link) {live : List SubRequest}
    (wanted : ∀ key, .subscribe key ∈ live → lastRequest key sent = some (.subscribe key)) :
    Sound source sent (link.reconnect sent live) := by
  have part : link.heard <+: link.frames := List.take_prefix _ _
  have length : link.heard.length = link.arrived := by
    rw [heard, List.length_take, Nat.min_eq_left sound.arrived]
  refine ⟨Nat.le_refl _, length.ge, ?_, fun p member => sound.own p (part.subset member),
    fun p member => sound.within p (part.subset member),
    fun p member => sound.wanted p (part.subset member), ?_, ?_⟩
  · intro key _ on
    show lastRequest key (sent.take sent.length) = _
    rw [List.take_length]
    apply wanted
    by_contra absent
    exact on (if_neg absent)
  · exact fun before p isPrefix => sound.opened before p (isPrefix.trans part)
  · intro key _ streaming
    replace streaming : (if SubRequest.subscribe key ∈ live then Mode.opening else Mode.off) =
        .streaming := streaming
    split at streaming <;> cases streaming

/-- Once a key is no longer wanted, every frame of it is late. -/
theorem late_of_last (sound : Sound source sent link) {p : Parcel} (member : p ∈ link.frames)
    (incremental : p.message.key.isIncremental = true)
    (last : lastRequest p.message.key sent ≠ some (.subscribe p.message.key)) : p.Late sent :=
  unsubscribed_of_last (sound.wanted p member incremental) last

end Sound

/-! ### What has arrived -/

theorem mem_frames_of_next {p : Parcel} (due : link.next = some p) : p ∈ link.frames :=
  List.mem_of_getElem? due

theorem heard_arrive {p : Parcel} (due : link.next = some p) :
    link.arrive.heard = link.heard ++ [p] := by
  show link.frames.take (link.arrived + 1) = _
  rw [List.take_add_one, show link.frames[link.arrived]? = some p from due]
  rfl

theorem heard_serve : (link.serve sent).heard = link.heard := by
  unfold serve
  split <;> rfl

theorem Sound.heard_emit (sound : Sound source sent link) (message : Message) :
    (link.emit message).heard = link.heard := by
  unfold Link.emit
  split
  · exact List.take_append_of_le_length sound.arrived
  · rfl

theorem heard_reconnect (live : List SubRequest) :
    (link.reconnect sent live).heard = link.heard := by
  show (link.frames.take link.arrived).take link.arrived = _
  rw [List.take_take, Nat.min_self]
  rfl

/-- An increment that arrives and is not late has a snapshot before it that has arrived. -/
theorem Sound.heard_of_next (sound : Sound source sent link) {p : Parcel}
    (due : link.next = some p) (incremental : p.message.key.isIncremental = true)
    (plain : p.message.seq.isSnapshot = false) (early : ¬ p.Late sent) :
    ∃ q ∈ link.heard, q.Opens sent p.message.key := by
  refine sound.opened link.heard p ?_ incremental plain early
  rw [← heard_arrive due]
  exact List.take_prefix _ _

end Link

end Wsarb
