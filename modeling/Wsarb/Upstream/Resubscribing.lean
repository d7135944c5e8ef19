import Mathlib.Data.List.Induction
import Wsarb.Concurrent.Desk

/-!
Owns what one source is subscribed to upstream. On a new connection the source's task empties
its control queue, then reads the live keys off the registry part by part and sends them, and
from then on forwards the queue. Registrations fall anywhere between, and between the flag of
a key and the request about it; only the operations on one key do not overlap.

Does not own: what the upstream sends.
-/

namespace Wsarb

open Wsarb.Library AppState

/-! ### The upstream's own set -/

/-- The upstream's subscriptions after a request; one that changes nothing is ignored. -/
def SubRequest.apply (held : List SubKey) : SubRequest → List SubKey
  | .subscribe key => if key ∈ held then held else key :: held
  | .unsubscribe key => held.filter (· ≠ key)

/-- What the upstream is subscribed to once a connection has carried these requests. -/
def subscribedOn (wire : List SubRequest) : List SubKey := wire.foldl SubRequest.apply []

/-- The upstream is subscribed to a key exactly when the last request about it says so. -/
theorem mem_subscribedOn (wire : List SubRequest) (key : SubKey) :
    key ∈ subscribedOn wire ↔ lastRequest key wire = some (.subscribe key) := by
  induction wire using List.reverseRecOn with
  | nil => exact iff_of_false List.not_mem_nil (by simp [lastRequest])
  | append_singleton before req inductionHypothesis =>
      have applied : subscribedOn (before ++ [req]) = req.apply (subscribedOn before) := by
        simp [subscribedOn]
      rw [applied, lastRequest_concat]
      cases req with
      | subscribe asked =>
          have told : key ∈ SubRequest.apply (subscribedOn before) (.subscribe asked) ↔
              key = asked ∨ key ∈ subscribedOn before := by
            show key ∈ (if asked ∈ subscribedOn before then _ else _) ↔ _
            split
            · next held => exact (or_iff_right_of_imp fun same => same ▸ held).symm
            · exact List.mem_cons
          rw [told, inductionHypothesis]
          by_cases about : asked = key
          · simp [SubRequest.key, about]
          · simp [SubRequest.key, about, Ne.symm about]
      | unsubscribe asked =>
          rw [SubRequest.apply, List.mem_filter, inductionHypothesis]
          by_cases about : asked = key
          · simp [SubRequest.key, about]
          · simp [SubRequest.key, about, Ne.symm about]

/-! ### What calls have under way -/

namespace Phase

/-- A request about the key is due. -/
def Owes : Phase → SubKey → Prop
  | .announcing due, key | .withdrawing due _, key => due = key
  | _, _ => False

/-- The call has decided about the key and is not through with it. -/
def Claims (phase : Phase) (key : SubKey) : Prop :=
  phase = .announcing key ∨ phase.Drops key

/-- The call's next step visits the key's entry. -/
def Visits : Phase → SubKey → Prop
  | .entering next, key | .detaching (next :: _), key => next = key
  | _, _ => False

end Phase

/-- A request about the key is due. -/
def Desk.Owed (desk : Desk) (key : SubKey) : Prop := ∃ client, (desk.phase client).Owes key

/-- Some call has decided about the key and is not through with it. -/
def Desk.Claimed (desk : Desk) (key : SubKey) : Prop :=
  ∃ client, (desk.phase client).Claims key

namespace AppState

variable {β : Type}

def pinEntry (st : AppState β) (now : Nat) (key : SubKey) : AppState β × Bool :=
  let e := st.entryOr now key
  (st.setEntry key { e with pinned := true, upstreamSubscribed := true }, !e.upstreamSubscribed)

theorem pin_eq (st : AppState β) (now : Nat) (key : SubKey) :
    st.pin now key =
      if (st.pinEntry now key).2 then (st.pinEntry now key).1.broadcastCtrl (.subscribe key)
      else (st.pinEntry now key).1 := rfl

theorem pinEntry_need (st : AppState β) (now : Nat) (key : SubKey) :
    (st.pinEntry now key).2 = true ↔ ¬ st.Upstream key := by
  rw [← entryOr_upstreamSubscribed now]
  show (!(st.entryOr now key).upstreamSubscribed) = true ↔ _
  simp

theorem upstream_pinEntry (st : AppState β) (now : Nat) (key other : SubKey) :
    (st.pinEntry now key).1.Upstream other ↔ other = key ∨ st.Upstream other := by
  have entered : (st.pinEntry now key).1.getEntry other =
      if other = key then
        some { st.entryOr now key with pinned := true, upstreamSubscribed := true }
      else st.getEntry other := getEntry_setEntry ..
  by_cases same : other = key
  · subst same
    exact iff_of_true ⟨_, entered.trans (if_pos rfl), rfl⟩ (Or.inl rfl)
  · rw [upstream_congr (entered.trans (if_neg same)), or_iff_right same]

/-- The requests that subscribe to the live keys among some. -/
def liveAmong (st : AppState β) (part : SubKey → Bool) : List SubRequest :=
  st.subscribedRequests.filter fun req => part req.key

end AppState

/-! ### The task of a source -/

/-- How far a source's task is. -/
inductive Stage
  | down
  /-- The control queue is being emptied. -/
  | draining
  /-- The registry is being read: the keys read, and the requests they make. -/
  | reading (seen : SubKey → Bool) (reqs : List SubRequest)
  /-- These requests are still to be sent. -/
  | resending (reqs : List SubRequest)
  | forwarding

namespace Stage

/-- What has been read off the registry and not been sent. -/
def reqs : Stage → List SubRequest
  | .reading _ reqs | .resending reqs => reqs
  | _ => []

/-- The key has been read off the registry on this connection. -/
def Covers : Stage → SubKey → Prop
  | .down, _ | .draining, _ => False
  | .reading seen _, key => seen key = true
  | .resending _, _ | .forwarding, _ => True

end Stage

/-- The registry with the calls on it, and the task of one source. -/
structure Session where
  desk : Desk
  stage : Stage
  /-- How many requests have been taken off the control queue. -/
  taken : Nat
  /-- What this connection has carried. -/
  wire : List SubRequest

inductive Session.Move
  | desk (move : Desk.Move)
  /-- A task with no call under way pins a key. -/
  | pin (now caller : Nat) (key : SubKey)
  | connect
  | drain
  | read (part : SubKey → Bool)
  | readRest
  | resend
  | forward
  | disconnect

namespace Session

/-- Start-up: the keys pinned then, and no connection yet. -/
def start (ids : List Nat) (pins : List SubKey) : Session where
  desk := .start ids pins
  stage := .down
  taken := 0
  wire := []

variable (source : Nat) (s : Session)

def queue : List SubRequest := (s.desk.st.sentTo source).drop s.taken

/-- A task pins a key; its `Subscribe` is due. -/
def pin (now caller : Nat) (key : SubKey) : Session :=
  if s.desk.phase caller = .idle then
    let (st, needUpstream) := s.desk.st.pinEntry now key
    { s with desk := s.desk.next st caller (if needUpstream then .announcing key else .idle) }
  else s

def connect : Session :=
  match s.stage with
  | .down => { s with stage := .draining, wire := [] }
  | _ => s

/-- `try_recv` drops a request, or finds the queue empty. -/
def drain : Session :=
  match s.stage, s.queue source with
  | .draining, [] => { s with stage := .reading (fun _ => false) [] }
  | .draining, _ :: _ => { s with taken := s.taken + 1 }
  | _, _ => s

/-- A part of the registry is read, as far as it has not been. -/
def read (part : SubKey → Bool) : Session :=
  match s.stage with
  | .reading seen reqs =>
      { s with
        stage := .reading (fun key => seen key || part key)
          (reqs ++ s.desk.st.liveAmong fun key => !seen key && part key) }
  | _ => s

def readRest : Session :=
  match s.stage with
  | .reading seen reqs =>
      { s with stage := .resending (reqs ++ s.desk.st.liveAmong fun key => !seen key) }
  | _ => s

def resend : Session :=
  match s.stage with
  | .resending [] => { s with stage := .forwarding }
  | .resending (req :: rest) => { s with stage := .resending rest, wire := s.wire ++ [req] }
  | _ => s

def forward : Session :=
  match s.stage, s.queue source with
  | .forwarding, req :: _ => { s with taken := s.taken + 1, wire := s.wire ++ [req] }
  | _, _ => s

def disconnect : Session :=
  match s.stage with
  | .forwarding => { s with stage := .down }
  | _ => s

def step (s : Session) : Move → Session
  | .desk move => { s with desk := s.desk.step move }
  | .pin now caller key => s.pin now caller key
  | .connect => s.connect
  | .drain => s.drain source
  | .read part => s.read part
  | .readRest => s.readRest
  | .resend => s.resend
  | .forward => s.forward source
  | .disconnect => s.disconnect

/-- No operation visits the entry of a key that another is not through with. -/
def InTurn (s : Session) : Move → Prop
  | .desk (.proceed _ client) =>
      ∀ key, (s.desk.phase client).Visits key → ¬ s.desk.Claimed key
  | .pin _ _ key => ¬ s.desk.Claimed key
  | _ => True

/-- A pin that nothing interrupts is the operation as one step. -/
theorem run_pin {now caller : Nat} {key : SubKey} (idle : s.desk.phase caller = .idle) :
    (run (step source) s [.pin now caller key, .desk (.proceed now caller)]).desk.st =
      s.desk.st.pin now key := by
  show ((s.pin now caller key).desk.proceed now caller).st = _
  rw [pin, if_pos idle, AppState.pin_eq]
  cases need : (s.desk.st.pinEntry now key).2 <;> simp [Desk.proceed, Desk.next, need]

/-- What will have been carried once nothing is left to send. -/
def outlook : List SubRequest := s.wire ++ s.stage.reqs ++ s.queue source

/-- These requests leave a key subscribed exactly if it is live upstream. -/
def Agrees (st : AppState.Live) (key : SubKey) (requests : List SubRequest) : Prop :=
  lastRequest key requests = some (.subscribe key) ↔ st.Upstream key

/-- What every step keeps. -/
structure Sound (s : Session) : Prop where
  known : source < s.desk.st.sources.length
  within : s.taken ≤ (s.desk.st.sentTo source).length
  /-- A key that is to be announced is live. -/
  announced : ∀ client key, s.desk.phase client = .announcing key → s.desk.st.Upstream key
  /-- A key that is being dropped is not. -/
  dropped : ∀ client key, (s.desk.phase client).Drops key → ¬ s.desk.st.Upstream key
  /-- Unless a request about it is due, what was sent about a key is right. -/
  asked : ∀ key, ¬ s.desk.Owed key → Agrees s.desk.st key (s.desk.st.sentTo source)
  /-- Nothing has been read or carried about a key that has not been read. -/
  unread : s.stage ≠ .down → ∀ key, ¬ s.stage.Covers key →
    lastRequest key (s.wire ++ s.stage.reqs) = none
  /-- Once a key is read, what the connection is going to carry about it is right. -/
  carried : ∀ key, s.stage.Covers key → ¬ s.desk.Owed key →
    Agrees s.desk.st key (s.outlook source)

variable {source} {s}

/-! ### Registrations -/

/-- The requests sent to one source when some are sent to all. -/
theorem sentTo_of_requests {st after : AppState.Live} {said : List SubRequest}
    (known : source < st.sources.length)
    (requests : after.requests = st.requests.map (· ++ said)) :
    after.sentTo source = st.sentTo source ++ said := by
  have inside : source < st.requests.length := by rwa [AppState.requests, List.length_map]
  rw [sentTo, requests, List.getElem?_map, List.getElem?_eq_getElem inside, sentTo,
    List.getElem?_eq_getElem inside]
  rfl

/-- Requests that say nothing of a key leave what is right about it right, and a request that
tells what became of the key makes it right. -/
theorem Agrees.extend {st after : AppState.Live} {key : SubKey} {said : List SubRequest}
    (requests : List SubRequest)
    (tells : (Agrees st key requests ∧ (after.Upstream key ↔ st.Upstream key) ∧
        lastRequest key said = none) ∨
      ∃ req, lastRequest key said = some req ∧ (req = .subscribe key ↔ after.Upstream key)) :
    Agrees after key (requests ++ said) := by
  rw [Agrees, lastRequest_join]
  rcases tells with ⟨right, same, nothing⟩ | ⟨req, last, right⟩
  · rw [nothing, Option.none_or, same]
    exact right
  · rw [last, Option.some_or, Option.some.injEq]
    exact right

/-- A step of the registry that leaves the flags of claimed keys alone, and that says of every
key it changes what became of it, unless that is now due. -/
theorem Sound.registry (sound : Sound source s) {desk : Desk} (said : List SubRequest)
    (requests : desk.st.requests = s.desk.st.requests.map (· ++ said))
    (steady : ∀ key, s.desk.Claimed key → (desk.st.Upstream key ↔ s.desk.st.Upstream key))
    (phases : ∀ client, desk.phase client = s.desk.phase client ∨
      (∀ key, desk.phase client = .announcing key → desk.st.Upstream key) ∧
        ∀ key, (desk.phase client).Drops key → ¬ desk.st.Upstream key)
    (tells : ∀ key, ¬ desk.Owed key →
      (¬ s.desk.Owed key ∧ (desk.st.Upstream key ↔ s.desk.st.Upstream key) ∧
        lastRequest key said = none) ∨
      ∃ req, lastRequest key said = some req ∧
        (req = .subscribe key ↔ desk.st.Upstream key)) :
    Sound source { s with desk := desk } := by
  have sent := sentTo_of_requests sound.known requests
  have waiting : ({ s with desk := desk } : Session).queue source = s.queue source ++ said := by
    show (desk.st.sentTo source).drop s.taken = _
    rw [sent, List.drop_append_of_le_length sound.within, queue]
  have counted : desk.st.sources.length = s.desk.st.sources.length := by
    simpa [AppState.requests] using congrArg List.length requests
  have right : ∀ key, ¬ desk.Owed key → ∀ before,
      (¬ s.desk.Owed key → Agrees s.desk.st key before) →
      Agrees desk.st key (before ++ said) := by
    intro key settled before was
    apply Agrees.extend
    exact (tells key settled).imp_left fun still => ⟨was still.1, still.2⟩
  refine ⟨?_, ?_, ?_, ?_, ?_, sound.unread, ?_⟩
  · show source < desk.st.sources.length
    rw [counted]
    exact sound.known
  · show s.taken ≤ (desk.st.sentTo source).length
    rw [sent, List.length_append]
    exact Nat.le_add_right_of_le sound.within
  · intro client key announcing
    rcases phases client with same | ⟨announces, -⟩
    · replace announcing : s.desk.phase client = .announcing key := same ▸ announcing
      rw [steady key ⟨client, Or.inl announcing⟩]
      exact sound.announced client key announcing
    · exact announces key announcing
  · intro client key dropping
    rcases phases client with same | ⟨-, drops⟩
    · replace dropping : (s.desk.phase client).Drops key := same ▸ dropping
      rw [steady key ⟨client, Or.inr dropping⟩]
      exact sound.dropped client key dropping
    · exact drops key dropping
  · intro key settled
    show Agrees desk.st key (desk.st.sentTo source)
    rw [sent]
    exact right key settled _ (sound.asked key)
  · intro key covered settled
    rw [outlook, waiting, ← List.append_assoc]
    exact right key settled _ (sound.carried key covered)

/-- A step of the registry that asks nothing and leaves flags and calls as they are. -/
theorem Sound.silent (sound : Sound source s) {st : AppState.Live}
    (requests : st.requests = s.desk.st.requests)
    (upstream : ∀ key, st.Upstream key ↔ s.desk.st.Upstream key) :
    Sound source { s with desk := { s.desk with st := st } } := by
  apply sound.registry []
  · simpa using requests
  · exact fun key _ => upstream key
  · exact fun client => Or.inl rfl
  · exact fun key settled => Or.inl ⟨settled, upstream key, rfl⟩

/-- A call goes into its next phase. -/
theorem Sound.goOn (sound : Sound source s) {st : AppState.Live} {client : Nat} {phase : Phase}
    (said : List SubRequest) (requests : st.requests = s.desk.st.requests.map (· ++ said))
    (steady : ∀ key, s.desk.Claimed key → (st.Upstream key ↔ s.desk.st.Upstream key))
    (announces : ∀ key, phase = .announcing key → st.Upstream key)
    (drops : ∀ key, phase.Drops key → ¬ st.Upstream key)
    (tells : ∀ key, ¬ phase.Owes key →
      (¬ (s.desk.phase client).Owes key ∧ (st.Upstream key ↔ s.desk.st.Upstream key) ∧
        lastRequest key said = none) ∨
      ∃ req, lastRequest key said = some req ∧ (req = .subscribe key ↔ st.Upstream key)) :
    Sound source { s with desk := s.desk.next st client phase } := by
  apply sound.registry said requests steady
  · intro other
    rw [Desk.phase_next]
    split
    · exact Or.inr ⟨announces, drops⟩
    · exact Or.inl rfl
  · intro key settled
    have own : ¬ phase.Owes key := fun owes =>
      settled ⟨client, by rwa [Desk.phase_next, if_pos rfl]⟩
    rcases tells key own with ⟨free, rest⟩ | told
    · refine Or.inl ⟨fun ⟨other, owes⟩ => ?_, rest⟩
      by_cases same : other = client
      · exact free (same ▸ owes)
      · exact settled ⟨other, by rwa [Desk.phase_next, if_neg same]⟩
    · exact Or.inr told

/-- A call begins, or goes on, with nothing to do with any key's flag. -/
theorem Sound.quiet (sound : Sound source s) {st : AppState.Live} {client : Nat} {phase : Phase}
    (requests : st.requests = s.desk.st.requests) (entries : st.subs = s.desk.st.subs)
    (before : ∀ key, ¬ (s.desk.phase client).Owes key)
    (free : ∀ key, ¬ phase.Claims key) :
    Sound source { s with desk := s.desk.next st client phase } := by
  have upstream : ∀ key, st.Upstream key ↔ s.desk.st.Upstream key := fun key =>
    upstream_congr (by rw [getEntry, entries, getEntry])
  apply sound.goOn []
  · simpa using requests
  · exact fun key _ => upstream key
  · exact fun key announcing => absurd (Or.inl announcing) (free key)
  · exact fun key drops => absurd (Or.inr drops) (free key)
  · exact fun key _ => Or.inl ⟨before key, upstream key, rfl⟩

/-- A call visits the entry of a key nobody is at, which makes the key live. -/
theorem Sound.opens (sound : Sound source s) {st : AppState.Live} {client : Nat} {key : SubKey}
    {need : Bool} (requests : st.requests = s.desk.st.requests)
    (upstream : ∀ other, st.Upstream other ↔ other = key ∨ s.desk.st.Upstream other)
    (needed : need = true ↔ ¬ s.desk.st.Upstream key)
    (before : ∀ other, ¬ (s.desk.phase client).Owes other) (apart : ¬ s.desk.Claimed key) :
    Sound source { s with
      desk := s.desk.next st client (if need then .announcing key else .idle) } := by
  have others : ∀ other, other ≠ key → (st.Upstream other ↔ s.desk.st.Upstream other) :=
    fun other differs => (upstream other).trans (or_iff_right differs)
  apply sound.goOn []
  · simpa using requests
  · exact fun other claimed => others other fun same => apart (same ▸ claimed)
  · intro other announcing
    split at announcing
    · obtain rfl := Phase.announcing.inj announcing
      exact (upstream key).mpr (Or.inl rfl)
    · cases announcing
  · intro other drops
    split at drops <;> exact drops.elim
  · intro other owes
    refine Or.inl ⟨before other, ?_, rfl⟩
    by_cases same : other = key
    · subst same
      -- Nothing is due, so the key was live already.
      have live : s.desk.st.Upstream other := by
        by_contra dead
        rw [if_pos (needed.mpr dead)] at owes
        exact owes rfl
      exact iff_of_true ((upstream other).mpr (Or.inl rfl)) live
    · exact others other same

/-- A call visits the entry of a key nobody is at, and may drop the key. -/
theorem Sound.closes (sound : Sound source s) {st : AppState.Live} {client : Nat} {key : SubKey}
    {rest : List SubKey} {drop : Bool} (requests : st.requests = s.desk.st.requests)
    (upstream : ∀ other, st.Upstream other ↔
      s.desk.st.Upstream other ∧ ¬ (other = key ∧ drop = true))
    (before : ∀ other, ¬ (s.desk.phase client).Owes other) (apart : ¬ s.desk.Claimed key) :
    Sound source { s with
      desk := s.desk.next st client
        (if drop then .withdrawing key rest else .detaching rest) } := by
  apply sound.goOn []
  · simpa using requests
  · intro other claimed
    exact (upstream other).trans (and_iff_left fun both => apart (both.1 ▸ claimed))
  · intro other announcing
    split at announcing <;> cases announcing
  · intro other drops alive
    split at drops
    · next dropped => exact ((upstream other).mp alive).2 ⟨Eq.symm drops, dropped⟩
    · exact drops
  · intro other owes
    refine Or.inl ⟨before other, ?_, rfl⟩
    refine (upstream other).trans (and_iff_left fun ⟨same, dropped⟩ => ?_)
    rw [if_pos dropped] at owes
    exact owes same.symm

/-- A request about a key is sent that says what its flag is. -/
theorem Sound.broadcast (sound : Sound source s) {client : Nat} {phase : Phase}
    (req : SubRequest) (owes : ∀ key, (s.desk.phase client).Owes key → key = req.key)
    (right : req = .subscribe req.key ↔ s.desk.st.Upstream req.key)
    (announces : ∀ key, phase ≠ .announcing key)
    (drops : ∀ key, phase.Drops key → ¬ s.desk.st.Upstream key) :
    Sound source { s with desk := s.desk.next (s.desk.st.broadcastCtrl req) client phase } := by
  apply sound.goOn [req] (requests_broadcastCtrl _ _)
  · exact fun key _ => Iff.rfl
  · exact fun key announcing => absurd announcing (announces key)
  · exact drops
  · intro key _
    by_cases about : req.key = key
    · subst about
      exact Or.inr ⟨req, by simp [lastRequest], right⟩
    · refine Or.inl ⟨fun due => about (owes key due).symm, Iff.rfl, ?_⟩
      rw [lastRequest_eq_none]
      exact fun other listed same => about (List.mem_singleton.mp listed ▸ same)

theorem Sound.proceed (sound : Sound source s) {now client : Nat}
    (inTurn : s.InTurn (.desk (.proceed now client))) :
    Sound source { s with desk := s.desk.proceed now client } := by
  have dropped := sound.dropped client
  unfold Desk.proceed
  cases phase : s.desk.phase client with
  | idle => exact sound
  | entering key =>
      refine sound.opens rfl (s.desk.st.upstream_subscribeEntry now client key)
        (s.desk.st.subscribeEntry_need now client key) ?_ (inTurn key (by rw [phase]; rfl))
      rw [phase]
      exact fun _ => id
  | announcing key =>
      apply sound.broadcast (.subscribe key)
      · rw [phase]
        exact fun _ due => due.symm
      · exact iff_of_true rfl (sound.announced client key phase)
      · exact fun other announcing => by cases announcing
      · exact fun other drops => drops.elim
  | detaching keys =>
      cases keys with
      | nil =>
          apply sound.quiet rfl rfl
          · rw [phase]
            exact fun _ => id
          · rintro key (announcing | drops)
            · cases announcing
            · exact drops
      | cons key rest =>
          refine sound.closes (requests_detachEntry client key)
            (s.desk.st.upstream_detachEntry client key) ?_ (inTurn key (by rw [phase]; rfl))
          rw [phase]
          exact fun _ => id
  | withdrawing key rest =>
      rw [phase] at dropped
      apply sound.broadcast (.unsubscribe key)
      · rw [phase]
        exact fun _ due => due.symm
      · exact iff_of_false (by simp [SubRequest.key]) (dropped key rfl)
      · exact fun other announcing => by cases announcing
      · exact fun other drops => dropped other drops
  | removing key rest =>
      rw [phase] at dropped
      have entries := fun other => s.desk.st.getEntry_removeEntry key other
      have same : ∀ other, (s.desk.st.removeEntry key).Upstream other ↔
          s.desk.st.Upstream other := by
        intro other
        by_cases own : other = key
        · subst own
          refine iff_of_false ?_ (dropped other rfl)
          rintro ⟨e, found, -⟩
          rw [entries, if_pos rfl] at found
          cases found
        · exact upstream_congr ((entries other).trans (if_neg own))
      apply sound.goOn []
      · simp [removeEntry, AppState.requests]
      · exact fun other _ => same other
      · exact fun other announcing => by cases announcing
      · exact fun other drops => drops.elim
      · exact fun other _ => Or.inl ⟨by rw [phase]; exact id, same other, rfl⟩

theorem Sound.desk (sound : Sound source s) {move : Desk.Move} (inTurn : s.InTurn (.desk move)) :
    Sound source { s with desk := s.desk.step move } := by
  have begins : ∀ {st : AppState.Live} {client phase}, s.desk.phase client = .idle →
      st.requests = s.desk.st.requests → st.subs = s.desk.st.subs →
      (∀ key, ¬ phase.Claims key) →
      Sound source { s with desk := s.desk.next st client phase } := by
    intro st client phase idle requests entries free
    apply sound.quiet requests entries _ free
    rw [idle]
    exact fun _ => id
  have unclaimed : ∀ {phase : Phase}, (∀ key, phase ≠ .announcing key) →
      (∀ key, ¬ phase.Drops key) → ∀ key, ¬ phase.Claims key :=
    fun announces drops key claims => claims.elim (announces key) (drops key)
  cases move with
  | register ip => exact sound.silent rfl fun _ => Iff.rfl
  | subscribe client key =>
      show Sound source { s with desk := s.desk.subscribe client key }
      unfold Desk.subscribe
      split
      · next may => exact begins may.1 rfl rfl (unclaimed (by simp) fun _ => id)
      · exact sound
  | unsubscribe client key =>
      show Sound source { s with desk := s.desk.unsubscribe client key }
      unfold Desk.unsubscribe
      split
      · next may => exact begins may.1 rfl rfl (unclaimed (by simp) fun _ => id)
      · exact sound
  | cleanup client =>
      show Sound source { s with desk := s.desk.cleanup client }
      unfold Desk.cleanup
      split
      · next idle => exact begins idle rfl rfl (unclaimed (by simp) fun _ => id)
      · exact sound
  | proceed now client => exact sound.proceed inTurn
  | traffic op =>
      show Sound source { s with desk := if op.isTraffic then _ else s.desk }
      split
      · next traffic =>
          exact sound.silent (requests_of_traffic traffic) (upstream_of_traffic traffic)
      · exact sound

theorem Sound.pin (sound : Sound source s) {now caller : Nat} {key : SubKey}
    (apart : ¬ s.desk.Claimed key) : Sound source (s.pin now caller key) := by
  unfold Session.pin
  split
  · next idle =>
      refine sound.opens rfl (s.desk.st.upstream_pinEntry now key)
        (s.desk.st.pinEntry_need now key) ?_ apart
      rw [idle]
      exact fun _ => id
  · exact sound

/-! ### The connection -/

/-- What is read of a key is whether it is live. -/
theorem agrees_liveAmong (st : AppState.Live) {part : SubKey → Bool} {key : SubKey}
    (read : part key = true) : Agrees st key (st.liveAmong part) := by
  have listed : .subscribe key ∈ st.liveAmong part ↔ st.Upstream key := by
    rw [liveAmong, List.mem_filter, mem_subscribedRequests]
    exact and_iff_left read
  have subscribes : ∀ req ∈ st.liveAmong part, req = .subscribe req.key := by
    intro req member
    obtain ⟨entry, -, rfl⟩ := List.mem_map.mp (List.mem_of_mem_filter member)
    rfl
  rw [Agrees, ← listed]
  constructor
  · exact fun last => (mem_of_lastRequest last).1
  · intro member
    cases last : lastRequest key (st.liveAmong part) with
    | none => exact absurd rfl (lastRequest_eq_none.mp last _ member)
    | some req =>
        obtain ⟨listed', rfl⟩ := mem_of_lastRequest last
        rw [← subscribes req listed']

theorem lastRequest_liveAmong (st : AppState.Live) {part : SubKey → Bool} {key : SubKey}
    (unread : part key = false) : lastRequest key (st.liveAmong part) = none := by
  rw [lastRequest_eq_none]
  rintro req member rfl
  have read := (List.mem_filter.mp member).2
  rw [unread] at read
  cases read

/-- Reading more of the registry. A key whose request is still on its way is not touched by
the reading's missing it or having it: the request comes after. -/
theorem Sound.reads (sound : Sound source s) (part : SubKey → Bool) {seen : SubKey → Bool}
    {reqs : List SubRequest} {stage : Stage} (reading : s.stage = .reading seen reqs)
    (more : stage.reqs = reqs ++ s.desk.st.liveAmong fun key => !seen key && part key)
    (covers : ∀ key, stage.Covers key ↔ (seen key || part key) = true) :
    Sound source { s with stage := stage } := by
  have unread : ∀ key, seen key = false → lastRequest key (s.wire ++ reqs) = none := by
    intro key unseen
    have none := sound.unread (by simp [reading]) key
      (by rw [reading, Stage.Covers, unseen]; exact Bool.false_ne_true)
    rwa [reading] at none
  refine ⟨sound.known, sound.within, sound.announced, sound.dropped, sound.asked, ?_, ?_⟩
  · intro _ key uncovered
    obtain ⟨unseen, apart⟩ := Bool.or_eq_false_iff.mp
      (eq_false_of_ne_true (mt (covers key).mpr uncovered))
    show lastRequest key (s.wire ++ stage.reqs) = none
    rw [more, ← List.append_assoc, lastRequest_join, unread key unseen,
      lastRequest_liveAmong _ (by rw [apart, Bool.and_false])]
    rfl
  · intro key covered settled
    have waiting := sound.asked key settled
    rw [← List.take_append_drop s.taken (s.desk.st.sentTo source), Agrees, lastRequest_join]
      at waiting
    show lastRequest key (s.wire ++ stage.reqs ++ s.queue source) = _ ↔ _
    rw [more, lastRequest_join, ← List.append_assoc, lastRequest_join]
    cases earlier : seen key with
    | true =>
        have right := sound.carried key (by rw [reading]; exact earlier) settled
        rw [Agrees, outlook, reading, lastRequest_join] at right
        rw [lastRequest_liveAmong _ (by rw [earlier]; rfl), Option.none_or]
        exact right
    | false =>
        have now : part key = true := by simpa [earlier] using (covers key).mp covered
        rw [unread key earlier, Option.or_none]
        change (lastRequest key (s.queue source)).or _ = _ ↔ _ at waiting
        cases last : lastRequest key (s.queue source) with
        | some req => rwa [last] at waiting
        | none => exact agrees_liveAmong _ (by rw [earlier, now]; rfl)

/-- A step that moves requests on towards the wire, all keys having been read. -/
theorem Sound.moves (sound : Sound source s) {stage : Stage} {taken : Nat}
    {wire : List SubRequest} (within : taken ≤ (s.desk.st.sentTo source).length)
    (read : ∀ key, s.stage.Covers key) (all : ∀ key, stage.Covers key)
    (same : (⟨s.desk, stage, taken, wire⟩ : Session).outlook source = s.outlook source) :
    Sound source ⟨s.desk, stage, taken, wire⟩ := by
  refine ⟨sound.known, within, sound.announced, sound.dropped, sound.asked, ?_, ?_⟩
  · exact fun _ key uncovered => absurd (all key) uncovered
  · intro key _ settled
    rw [same]
    exact sound.carried key (read key) settled

/-- A step before anything is read, on a connection that has carried nothing. -/
theorem Sound.opening (sound : Sound source s) {stage : Stage} {taken : Nat}
    {wire : List SubRequest} (within : taken ≤ (s.desk.st.sentTo source).length)
    (unseen : ∀ key, ¬ stage.Covers key)
    (bare : stage ≠ .down → ∀ key, lastRequest key (wire ++ stage.reqs) = none) :
    Sound source ⟨s.desk, stage, taken, wire⟩ := by
  refine ⟨sound.known, within, sound.announced, sound.dropped, sound.asked, ?_, ?_⟩
  · exact fun up key _ => bare up key
  · exact fun key covered => absurd covered (unseen key)

/-- A queue that is not empty has requests that were not taken off it. -/
theorem within_of_queue {req : SubRequest} {rest : List SubRequest}
    (waiting : s.queue source = req :: rest) :
    s.taken + 1 ≤ (s.desk.st.sentTo source).length := by
  have left : (s.queue source).length = rest.length + 1 := by rw [waiting, List.length_cons]
  rw [queue, List.length_drop] at left
  omega

theorem drop_queue {req : SubRequest} {rest : List SubRequest}
    (waiting : s.queue source = req :: rest) :
    (s.desk.st.sentTo source).drop (s.taken + 1) = rest := by
  rw [← List.drop_drop]
  show (s.queue source).drop 1 = _
  rw [waiting]
  rfl

theorem Sound.drain (sound : Sound source s) : Sound source (s.drain source) := by
  have bare : s.stage = .draining → ∀ key, lastRequest key (s.wire ++ []) = none := by
    intro draining key
    have nothing := sound.unread (by simp [draining]) key (by rw [draining]; exact id)
    rwa [draining] at nothing
  unfold Session.drain
  split
  · next draining empty =>
      exact sound.opening sound.within (fun _ seen => by cases seen) fun _ => bare draining
  · next draining waiting =>
      rw [draining]
      exact sound.opening (within_of_queue waiting) (fun _ => id) fun _ => bare draining
  · exact sound

theorem Sound.forward (sound : Sound source s) : Sound source (s.forward source) := by
  unfold Session.forward
  split
  · next req rest forwarding waiting =>
      refine sound.moves (within_of_queue waiting) ?_ ?_ ?_
      · rw [forwarding]
        exact fun _ => trivial
      · rw [forwarding]
        exact fun _ => trivial
      · rw [outlook, outlook, queue, drop_queue waiting, waiting, forwarding]
        simp [Stage.reqs]
  · exact sound

theorem Sound.resend (sound : Sound source s) : Sound source s.resend := by
  unfold Session.resend
  split
  · next resending =>
      refine sound.moves sound.within ?_ (fun _ => trivial) ?_
      · rw [resending]
        exact fun _ => trivial
      · rw [outlook, outlook, resending]
        rfl
  · next req rest resending =>
      refine sound.moves sound.within ?_ (fun _ => trivial) ?_
      · rw [resending]
        exact fun _ => trivial
      · rw [outlook, outlook, resending]
        simp [Stage.reqs, queue]
  · exact sound

theorem Sound.read (sound : Sound source s) (part : SubKey → Bool) :
    Sound source (s.read part) := by
  unfold Session.read
  split
  · next seen reqs reading => exact sound.reads part reading rfl fun _ => Iff.rfl
  · exact sound

theorem Sound.readRest (sound : Sound source s) : Sound source s.readRest := by
  unfold Session.readRest
  split
  · next seen reqs reading =>
      apply sound.reads (fun _ => true) reading
      · simp [Stage.reqs]
      · simp [Stage.Covers]
  · exact sound

theorem Sound.connect (sound : Sound source s) : Sound source s.connect := by
  unfold Session.connect
  split
  · exact sound.opening sound.within (fun _ => id) fun _ _ => rfl
  · exact sound

theorem Sound.disconnect (sound : Sound source s) : Sound source s.disconnect := by
  unfold Session.disconnect
  split
  · exact sound.opening sound.within (fun _ => id) fun up => absurd rfl up
  · exact sound

/-! ### Runs -/

theorem Sound.step (sound : Sound source s) (move : Move) (inTurn : s.InTurn move) :
    Sound source (s.step source move) := by
  cases move with
  | desk move => exact sound.desk inTurn
  | pin now caller key => exact sound.pin inTurn
  | connect => exact sound.connect
  | drain => exact sound.drain
  | read part => exact sound.read part
  | readRest => exact sound.readRest
  | resend => exact sound.resend
  | forward => exact sound.forward
  | disconnect => exact sound.disconnect

theorem sound_start {ids : List Nat} (pins : List SubKey) (known : source < ids.length) :
    Sound source (start ids pins) := by
  have begun : (Desk.start ids pins).st.Tuned ∧
      (Desk.start ids pins).st.sources.length = ids.length := by
    apply Desk.start_keeps (P := fun st => st.Tuned ∧ st.sources.length = ids.length)
    · exact ⟨tuned_start ids, by simp [AppState.new]⟩
    · intro st key begun
      have announces := st.announces_pin 0 key
      exact ⟨begun.1.announced announces, announces.sources_length.trans begun.2⟩
  obtain ⟨tuned, count⟩ := begun
  have counted : source < (Desk.start ids pins).st.sources.length := count ▸ known
  refine ⟨counted, Nat.zero_le _, ?_, ?_, ?_, ?_, ?_⟩
  · exact fun client key announcing => by cases announcing
  · exact fun client key drops => drops.elim
  · exact fun key _ => ⟨tuned.upstream_of_sentTo, tuned.last_sentTo counted⟩
  · exact fun up => absurd rfl up
  · exact fun key covered => covered.elim

/-- With no call under way and nothing left to send, the upstream is subscribed to exactly the
keys that are live. -/
theorem Sound.converged (sound : Sound source s) (quiet : s.desk.Quiescent)
    (connected : s.stage = .forwarding) (empty : s.queue source = []) (key : SubKey) :
    key ∈ subscribedOn s.wire ↔ s.desk.st.Upstream key := by
  have right := sound.carried key (by rw [connected]; trivial) fun ⟨client, owes⟩ => by
    rw [quiet client] at owes
    exact owes
  have carried : s.outlook source = s.wire := by
    rw [outlook, connected, empty]
    simp [Stage.reqs]
  rw [mem_subscribedOn, ← carried]
  exact right

/-- After any run in which operations on one key do not overlap, with any number of
reconnects: once no call is under way and the control queue of a connected source is empty,
the upstream is subscribed to exactly the keys that are live. -/
theorem reconnect_converges (ids : List Nat) (pins : List SubKey) (known : source < ids.length)
    (moves : List Move) (inTurn : Throughout (step source) InTurn (start ids pins) moves)
    (quiet : (run (step source) (start ids pins) moves).desk.Quiescent)
    (connected : (run (step source) (start ids pins) moves).stage = .forwarding)
    (empty : (run (step source) (start ids pins) moves).queue source = []) (key : SubKey) :
    key ∈ subscribedOn (run (step source) (start ids pins) moves).wire ↔
      (run (step source) (start ids pins) moves).desk.st.Upstream key := by
  have sound : Sound source (run (step source) (start ids pins) moves) :=
    run_keeps (fun _ move sound => sound.step move) moves (sound_start pins known) inTurn
  exact sound.converged quiet connected empty key

/-- Client 1's `subscribe` sets the flag after the queue was emptied, the registry is read in
two parts, and the request follows. -/
theorem reconnect_converges_between :
    SubKey.trades "BTC" ∈ subscribedOn (run (step 0) (start [0, 1] [])
        [.desk (.register "a"), .connect, .drain, .desk (.subscribe 1 (.trades "BTC")),
          .read fun key => key.isIncremental, .desk (.proceed 1 1), .readRest, .resend,
          .desk (.proceed 1 1), .resend, .forward]).wire ↔
      (run (step 0) (start [0, 1] [])
        [.desk (.register "a"), .connect, .drain, .desk (.subscribe 1 (.trades "BTC")),
          .read fun key => key.isIncremental, .desk (.proceed 1 1), .readRest, .resend,
          .desk (.proceed 1 1), .resend, .forward]).desk.st.Upstream (.trades "BTC") := by
  refine reconnect_converges [0, 1] [] (by decide) _ ?_ ?_ rfl rfl (.trades "BTC")
  · refine ⟨trivial, trivial, trivial, trivial, trivial, fun entered _ => ?_, trivial, trivial,
      fun _ visits => visits.elim, trivial, trivial, trivial⟩
    rintro ⟨client, claims⟩
    by_cases own : client = 1
    · subst own
      rcases claims with announcing | drops
      · cases announcing
      · exact drops
    · have idle := Function.update_of_ne own (.entering (.trades "BTC")) fun _ => Phase.idle
      rw [show Desk.phase _ client = .idle from idle] at claims
      rcases claims with announcing | drops
      · cases announcing
      · exact drops
  · intro client
    show Function.update (Function.update (Function.update (fun _ => Phase.idle) 1
      (.entering (.trades "BTC"))) 1 (.announcing (.trades "BTC"))) 1 .idle client = _
    simp only [Function.update_apply]
    split <;> rfl

/-! ### Catching up -/

/-- The steps of the source's task, short of losing the connection. -/
def Move.isTask : Move → Bool
  | .connect | .drain | .read _ | .readRest | .resend | .forward => true
  | _ => false

/-- The source's task, left to itself, ends up connected with nothing left to send. -/
def CatchesUp (source : Nat) (s : Session) : Prop :=
  ∃ moves, (∀ move ∈ moves, move.isTask = true) ∧
    (run (step source) s moves).stage = .forwarding ∧
    (run (step source) s moves).queue source = []

theorem CatchesUp.after (move : Move) (task : move.isTask = true)
    (later : CatchesUp source (s.step source move)) : CatchesUp source s := by
  obtain ⟨moves, tasks, forwarding, empty⟩ := later
  exact ⟨move :: moves, List.forall_mem_cons.mpr ⟨task, tasks⟩, forwarding, empty⟩

theorem catchesUp_of_forwarding (forwarding : s.stage = .forwarding) : CatchesUp source s := by
  induction waiting : s.queue source generalizing s with
  | nil => exact ⟨[], fun _ listed => absurd listed List.not_mem_nil, forwarding, waiting⟩
  | cons req rest inductionHypothesis =>
      have step : s.step source .forward =
          { s with taken := s.taken + 1, wire := s.wire ++ [req] } := by
        simp only [Session.step, Session.forward, forwarding, waiting]
      apply CatchesUp.after .forward rfl
      rw [step]
      exact inductionHypothesis forwarding (drop_queue waiting)

theorem catchesUp_of_resending {reqs : List SubRequest} (resending : s.stage = .resending reqs) :
    CatchesUp source s := by
  apply CatchesUp.after .resend rfl
  induction reqs generalizing s with
  | nil =>
      apply catchesUp_of_forwarding
      simp only [Session.step, Session.resend, resending]
  | cons req rest inductionHypothesis =>
      apply CatchesUp.after .resend rfl
      apply inductionHypothesis
      simp only [Session.step, Session.resend, resending]

theorem catchesUp_of_reading {seen : SubKey → Bool} {reqs : List SubRequest}
    (reading : s.stage = .reading seen reqs) : CatchesUp source s := by
  have read : (s.step source .readRest).stage =
      .resending (reqs ++ s.desk.st.liveAmong fun key => !seen key) := by
    simp only [Session.step, Session.readRest, reading]
  exact .after .readRest rfl (catchesUp_of_resending read)

theorem catchesUp_of_draining (draining : s.stage = .draining) : CatchesUp source s := by
  apply CatchesUp.after .drain rfl
  induction waiting : s.queue source generalizing s with
  | nil =>
      have emptied : (s.step source .drain).stage = .reading (fun _ => false) [] := by
        simp only [Session.step, Session.drain, draining, waiting]
      exact catchesUp_of_reading emptied
  | cons req rest inductionHypothesis =>
      have step : s.step source .drain = { s with taken := s.taken + 1 } := by
        simp only [Session.step, Session.drain, draining, waiting]
      apply CatchesUp.after .drain rfl
      rw [step]
      exact inductionHypothesis draining (drop_queue waiting)

/-- Wherever the source's task is, it can catch up. -/
theorem catchesUp (source : Nat) (s : Session) : CatchesUp source s := by
  cases stage : s.stage with
  | down =>
      apply CatchesUp.after .connect rfl
      apply catchesUp_of_draining
      simp only [Session.step, Session.connect, stage]
  | draining => exact catchesUp_of_draining stage
  | reading seen reqs => exact catchesUp_of_reading stage
  | resending reqs => exact catchesUp_of_resending stage
  | forwarding => exact catchesUp_of_forwarding stage

theorem desk_run_of_tasks (source : Nat) (s : Session) {moves : List Move}
    (tasks : ∀ move ∈ moves, move.isTask = true) :
    (run (step source) s moves).desk = s.desk := by
  induction moves generalizing s with
  | nil => rfl
  | cons move rest inductionHypothesis =>
      obtain ⟨task, later⟩ := List.forall_mem_cons.mp tasks
      rw [run_cons, inductionHypothesis _ later]
      cases move with
      | connect =>
          show s.connect.desk = _
          unfold connect
          split <;> rfl
      | drain =>
          show (s.drain source).desk = _
          unfold drain
          split <;> rfl
      | read part =>
          show (s.read part).desk = _
          unfold read
          split <;> rfl
      | readRest =>
          show s.readRest.desk = _
          unfold readRest
          split <;> rfl
      | resend =>
          show s.resend.desk = _
          unfold resend
          split <;> rfl
      | forward =>
          show (s.forward source).desk = _
          unfold forward
          split <;> rfl
      | _ => cases task

/-- Once no call is under way, the source's task left to itself brings the upstream to exactly
the keys that are live, wherever it stands. -/
theorem subscribed_in_the_end (ids : List Nat) (pins : List SubKey) (known : source < ids.length)
    (moves : List Move) (inTurn : Throughout (step source) InTurn (start ids pins) moves)
    (quiet : (run (step source) (start ids pins) moves).desk.Quiescent) :
    ∃ tasks, (∀ move ∈ tasks, move.isTask = true) ∧
      ∀ key, key ∈ subscribedOn (run (step source) (start ids pins) (moves ++ tasks)).wire ↔
        (run (step source) (start ids pins) moves).desk.st.Upstream key := by
  obtain ⟨tasks, own, forwarding, empty⟩ :=
    catchesUp source (run (step source) (start ids pins) moves)
  have same := desk_run_of_tasks source (run (step source) (start ids pins) moves) own
  have alone : Throughout (step source) InTurn (run (step source) (start ids pins) moves) tasks :=
    throughout_of_forall _ fun move listed s => by
      have task := own move listed
      cases move with
      | desk move => cases task
      | pin now caller key => cases task
      | _ => trivial
  have sound : Sound source (run (step source) (start ids pins) (moves ++ tasks)) :=
    run_keeps (fun _ move sound => sound.step move) (moves ++ tasks) (sound_start pins known)
      ((throughout_append _ _ _ _ _).mpr ⟨inTurn, alone⟩)
  refine ⟨tasks, own, fun key => ?_⟩
  rw [run_append] at sound ⊢
  rw [sound.converged (same ▸ quiet) forwarding empty key, same]

end Session

end Wsarb
