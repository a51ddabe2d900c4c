-- SUMMARY: The client's pending interactions under every order of replay, handshake, navigation and instantiation, and the invariant that ties list, buffers and instances to the host.
import Harness.ClientSessions.Manager

/-!
# Pending interactions and their host

A world is the manager with what the host did: which requests the current connection generation has
delivered and which ones are settled. Frames come only while a generation's stream is open.
-/

namespace Harness

open List Option OrderedMap

namespace ClientSessions

/-! ## The world -/

structure World where
  manager : SessionManager
  streaming : Bool := false
  /-- The requests that the current generation has delivered. -/
  delivered : List PendingWait := []
  /-- The requests that are settled. -/
  resolved : List PendingWait := []

inductive Event where
  | streamOpens
  /-- A still-pending request arrives, new or replayed. -/
  | requested (request : PendingWait)
  | resolved (request : PendingWait) (frameId : RpcId)
  /-- A request is settled while no stream is open: no frame tells of it. -/
  | resolvedUnseen (request : PendingWait)
  | queue (sessionId : SessionId) (frameId : RpcId) (items : Json)
  | subscribed (sessionId : SessionId) (frameId : RpcId) (lastSeq : Num)
  | get (sessionId : SessionId)
  | open_ (sessionId : SessionId)
  | finishOpen (sessionId : SessionId) (generation : Nat) (ok : Bool)
  | releaseOpen (sessionId : SessionId) (generation : Nat)
  | select (sessionId : SessionId)
  | selectSubagent (address : SubagentAddress)
  | catalogArrives (parentSessionId : SessionId) (catalog : SubagentCatalog)
  | listArrives (summaries : List SessionId)
  | handleConnected
  | handleDisconnected

def PendingWait.requestKey (request : PendingWait) : InteractionKey :=
  ClientSessions.requestKey request.rpcId request.body

/-- The frame that delivers a request. -/
def PendingWait.envelope (request : PendingWait) : RpcRequest where
  rpcId := request.rpcId
  payload := .requested request.body

/-- Whether a request is among some, by its rpc id. -/
def isAmong (requests : List PendingWait) (request : PendingWait) : Bool :=
  requests.any fun r => r.rpcId == request.rpcId

namespace World

def step (w : World) : Event → Option World
  | .streamOpens => if w.streaming then none else some { w with streaming := true }
  | .requested request =>
    if !w.streaming || isAmong w.delivered request || isAmong w.resolved request then none
    else some { w with
      manager := w.manager.handleMuxEnvelope request.sessionId request.envelope
      delivered := request :: w.delivered }
  | .resolved request frameId =>
    if !w.streaming || isAmong w.resolved request then none
    else some { w with
      manager := w.manager.handleMuxEnvelope request.sessionId
        { rpcId := frameId, payload := .resolved request.requestKey }
      resolved := request :: w.resolved }
  | .resolvedUnseen request =>
    if w.streaming || isAmong w.resolved request then none
    else some { w with resolved := request :: w.resolved }
  | .queue sessionId frameId items =>
    if !w.streaming then none
    else some { w with
      manager := w.manager.handleMuxEnvelope sessionId { rpcId := frameId, payload := .queue items } }
  | .subscribed sessionId frameId lastSeq =>
    if !w.streaming then none
    else some { w with
      manager := w.manager.handleMuxEnvelope sessionId
        { rpcId := frameId, payload := .subscribed lastSeq } }
  | .get sessionId => some { w with manager := w.manager.get sessionId }
  | .open_ sessionId => some { w with manager := w.manager.onSession sessionId Session.open_ }
  | .finishOpen sessionId generation ok =>
    some { w with manager := w.manager.onSession sessionId fun s => s.finishOpen generation ok }
  | .releaseOpen sessionId generation =>
    some { w with manager := w.manager.onSession sessionId fun s => s.releaseOpen generation }
  | .select sessionId => (w.manager.select sessionId).map fun manager => { w with manager }
  | .selectSubagent address =>
    (w.manager.selectSubagent address).map fun manager => { w with manager }
  | .catalogArrives parentSessionId catalog =>
    some { w with manager := w.manager.catalogArrives parentSessionId catalog }
  | .listArrives summaries => some { w with manager := { w.manager with summaries } }
  | .handleConnected =>
    if w.streaming then some { w with manager := w.manager.handleConnected } else none
  | .handleDisconnected =>
    some { w with
      manager := w.manager.handleDisconnected
      streaming := false
      delivered := [] }

/-- A client that has started with what it remembers of its last selection. -/
def start (selected : Option SessionId) (restored : Option SubagentAddress) : World where
  manager :=
    { selected
      addresses := (restored.map fun address => (address.childSessionId, address)).toList }

end World

/-! ## What the user is owed -/

/-- A request can be answered: it is buffered for the first instance, or the instance waits on it. -/
def SessionManager.Answerable (m : SessionManager) (request : PendingWait) : Prop :=
  match get? m.sessions request.sessionId with
  | none => request.envelope ∈ m.buffer request.sessionId
  | some session => get? session.pending request.key = some request

/-- What is listed as pending is what this generation delivered and nobody settled, all of it can be
answered, and nothing that is settled is listed or can be answered. -/
structure World.Truthful (w : World) : Prop where
  listed : ∀ sessionId key status,
    get? (w.manager.interactions sessionId) key = some status ↔
      ∃ request ∈ w.delivered, request ∉ w.resolved ∧ request.sessionId = sessionId ∧
        request.requestKey = key ∧ request.body.status = status
  answerable : ∀ request ∈ w.delivered, request ∉ w.resolved → w.manager.Answerable request
  settled : ∀ request ∈ w.resolved,
    get? (w.manager.interactions request.sessionId) request.requestKey = none ∧
      ¬ w.manager.Answerable request

/-- The ids of the host tell its requests apart. -/
structure HostIds (issued : PendingWait → Prop) : Prop where
  rpcIds : ∀ r r', issued r → issued r' → r.rpcId = r'.rpcId → r = r'
  keys : ∀ r r', issued r → issued r' → r.sessionId = r'.sessionId →
    r.requestKey = r'.requestKey → r = r'

def Event.Issued (issued : PendingWait → Prop) : Event → Prop
  | .requested request | .resolved request _ | .resolvedUnseen request => issued request
  | _ => True

/-- An instance's window is rebuilt without losing a listed wait. -/
def SessionManager.Rebuilds (m : SessionManager) (session : Session) : Prop :=
  session.openState ≠ .cold → m.interactions session.sessionId = []

/-- The steps that keep the three copies together: a handshake comes before the replay of a request
of an opened session, navigation changes the address of no opened session with a listed request, and
no request is settled unseen while an instance waits on it. -/
def Event.Keeps (w : World) : Event → Prop
  | .handleConnected => ∀ sessionId session,
      get? w.manager.sessions sessionId = some session → w.manager.Rebuilds session
  | .select sessionId => ∀ session,
      get? w.manager.sessions sessionId = some session →
        session.address ≠ w.manager.navigationAddress sessionId → w.manager.Rebuilds session
  | .selectSubagent address => ∀ session,
      get? w.manager.sessions address.childSessionId = some session →
        session.address ≠ some address → w.manager.Rebuilds session
  | .resolvedUnseen request => ∀ session,
      get? w.manager.sessions request.sessionId = some session →
        get? session.pending request.key = none
  | _ => True

/-! ## Buffers -/

namespace SessionManager

variable (m : SessionManager) {s t : SessionId}

theorem buffer_setBuffer (buffer : List RpcRequest) :
    (m.setBuffer s buffer).buffer t = if t = s then buffer else m.buffer t := by
  unfold SessionManager.buffer SessionManager.setBuffer
  simp only
  split
  case isTrue hempty =>
    rw [get?_delete, List.isEmpty_iff.mp hempty]
    split <;> rfl
  case isFalse hfull =>
    rw [get?_set]
    split <;> rfl

theorem nodup_setBuffer (h : (keys m.pendingBuffers).Nodup) (buffer : List RpcRequest) :
    (keys (m.setBuffer s buffer).pendingBuffers).Nodup := by
  unfold SessionManager.setBuffer
  simp only
  split
  · exact nodup_delete h s
  · exact nodup_set h s buffer

theorem interactions_trackPending (key : InteractionKey) (status : PendingInteractionStatus) :
    (m.trackPending s key status).interactions t
      = if t = s then set (m.interactions s) key status else m.interactions t := by
  rw [SessionManager.interactions, SessionManager.trackPending, get?_set]
  split <;> rfl

theorem interactions_resolvePending (key : InteractionKey) :
    (m.resolvePending s key).interactions t
      = if t = s then delete (m.interactions s) key else m.interactions t := by
  cases hget : get? m.pendingInteractions s with
  | none =>
    have hnone : m.interactions s = [] := by rw [SessionManager.interactions, hget]; rfl
    have hsame : m.resolvePending s key = m := by simp only [SessionManager.resolvePending, hget]
    rw [hsame]
    split
    · subst t
      rw [hnone]
      rfl
    · rfl
  | some interactions =>
    have hsome : m.interactions s = interactions := by
      rw [SessionManager.interactions, hget]
      rfl
    simp only [SessionManager.resolvePending, SessionManager.interactions, hget, getD_some]
    by_cases hempty : (delete interactions key).isEmpty = true
    · rw [if_pos hempty, get?_delete]
      split
      · exact (List.isEmpty_iff.mp hempty).symm
      · rfl
    · rw [if_neg hempty, get?_set]
      split <;> rfl

end SessionManager

/-- The buffer of a session without an instance after a frame. -/
def bufferAfter (buffer : List RpcRequest) (envelope : RpcRequest) : List RpcRequest :=
  match envelope.payload with
  | .requested _ | .queue _ => SessionManager.bufferFrame buffer envelope
  | .resolved settled => buffer.eraseP fun item => bufferedRequestKey item == some settled
  | .subscribed _ => buffer.filter fun item => !SessionManager.isQueue item

/-- What is listed for a session after a frame. -/
def interactionsAfter (interactions : OrderedMap InteractionKey PendingInteractionStatus)
    (envelope : RpcRequest) : OrderedMap InteractionKey PendingInteractionStatus :=
  match envelope.payload with
  | .requested body => set interactions (requestKey envelope.rpcId body) body.status
  | .resolved settled => delete interactions settled
  | .queue _ | .subscribed _ => interactions

namespace SessionManager

variable (m : SessionManager) {s t : SessionId} (envelope : RpcRequest)

theorem track_sessions (payload : MuxFrame) (rpcId : RpcId) :
    (m.track s rpcId payload).sessions = m.sessions := by
  cases payload with
  | resolved settled =>
    simp only [SessionManager.track, SessionManager.resolvePending]
    split <;> rfl
  | _ => rfl

theorem interactions_track :
    (m.track s envelope.rpcId envelope.payload).interactions t
      = if t = s then interactionsAfter (m.interactions s) envelope else m.interactions t := by
  obtain ⟨rpcId, payload⟩ := envelope
  cases payload with
  | requested body => exact interactions_trackPending m _ _
  | resolved settled => exact interactions_resolvePending m _
  | queue items =>
    split
    · subst t
      rfl
    · rfl
  | subscribed lastSeq =>
    split
    · subst t
      rfl
    · rfl

theorem interactions_handleMuxEnvelope :
    (m.handleMuxEnvelope s envelope).interactions t
      = if t = s then interactionsAfter (m.interactions s) envelope else m.interactions t := by
  rw [← interactions_track]
  unfold SessionManager.handleMuxEnvelope
  simp only
  split
  · rfl
  · split <;> rfl

theorem handleMuxEnvelope_sessionId (session : Session) (rpcId : RpcId) (payload : MuxFrame) :
    (session.handleMuxEnvelope rpcId payload).sessionId = session.sessionId := by
  cases payload with
  | resolved settled => cases settled <;> rfl
  | _ => rfl

theorem handleMuxEnvelope_sessions (hnone : get? m.sessions s = none) :
    (m.handleMuxEnvelope s envelope).sessions = m.sessions := by
  obtain ⟨rpcId, payload⟩ := envelope
  unfold SessionManager.handleMuxEnvelope
  simp only [track_sessions, hnone]
  cases payload with
  | _ => exact track_sessions m _ _

theorem sessions_handleMuxEnvelope
    (hids : ∀ session, get? m.sessions s = some session → session.sessionId = s) :
    get? (m.handleMuxEnvelope s envelope).sessions t
      = if t = s then
          (get? m.sessions s).map (·.handleMuxEnvelope envelope.rpcId envelope.payload)
        else get? m.sessions t := by
  cases hget : get? m.sessions s with
  | none =>
    rw [handleMuxEnvelope_sessions m envelope hget]
    split
    · subst t
      exact hget
    · rfl
  | some session =>
    have hid := hids session hget
    unfold SessionManager.handleMuxEnvelope
    simp only [track_sessions, hget, SessionManager.setSession, get?_set,
      handleMuxEnvelope_sessionId, hid, map_some]

theorem buffer_track (payload : MuxFrame) (rpcId : RpcId) :
    (m.track s rpcId payload).buffer t
      = match payload with
        | .subscribed _ =>
          if t = s then (m.buffer s).filter fun item => !isQueue item else m.buffer t
        | _ => m.buffer t := by
  cases payload with
  | requested body => rfl
  | queue items => rfl
  | resolved settled =>
    simp only [SessionManager.track, SessionManager.resolvePending]
    split <;> rfl
  | subscribed lastSeq => exact buffer_setBuffer m _

theorem buffer_handleMuxEnvelope (hnone : get? m.sessions s = none) :
    (m.handleMuxEnvelope s envelope).buffer t
      = if t = s then bufferAfter (m.buffer s) envelope else m.buffer t := by
  obtain ⟨rpcId, payload⟩ := envelope
  unfold SessionManager.handleMuxEnvelope
  simp only [track_sessions, hnone]
  cases payload with
  | subscribed lastSeq => exact buffer_track m _ _
  | _ => simp only [buffer_setBuffer, buffer_track, bufferAfter]

theorem buffer_handleMuxEnvelope_resident {session : Session}
    (hsome : get? m.sessions s = some session) (hempty : m.buffer s = []) :
    (m.handleMuxEnvelope s envelope).buffer t = m.buffer t := by
  obtain ⟨rpcId, payload⟩ := envelope
  unfold SessionManager.handleMuxEnvelope
  simp only [track_sessions, hsome]
  have hbuffer : ∀ m' : SessionManager, ∀ session, (m'.setSession session).buffer t = m'.buffer t :=
    fun _ _ => rfl
  rw [hbuffer, buffer_track]
  cases payload with
  | subscribed lastSeq =>
    simp only
    split
    · subst t
      rw [hempty]
      rfl
    · rfl
  | _ => rfl

theorem nodup_handleMuxEnvelope (h : (keys m.pendingBuffers).Nodup) :
    (keys (m.handleMuxEnvelope s envelope).pendingBuffers).Nodup := by
  obtain ⟨rpcId, payload⟩ := envelope
  have htrack : (keys (m.track s rpcId payload).pendingBuffers).Nodup := by
    cases payload with
    | requested body => exact h
    | queue items => exact h
    | resolved settled =>
      simp only [SessionManager.track, SessionManager.resolvePending]
      split <;> exact h
    | subscribed lastSeq => exact nodup_setBuffer m h _
  unfold SessionManager.handleMuxEnvelope
  simp only
  split
  · exact htrack
  split
  · exact nodup_setBuffer _ htrack _
  · exact nodup_setBuffer _ htrack _
  · exact nodup_setBuffer _ htrack _
  · exact htrack

end SessionManager

/-! ## The three copies of one session -/

section

variable (allowed live : PendingWait → Prop) (s : SessionId)

/-- The list holds the live requests, each with what it waits for. -/
def ListedOf (interactions : OrderedMap InteractionKey PendingInteractionStatus) : Prop :=
  ∀ key status, get? interactions key = some status ↔
    ∃ r, live r ∧ r.sessionId = s ∧ r.requestKey = key ∧ r.body.status = status

/-- The buffer holds the frames of the live requests, each once, and no settlement. -/
structure BufferOf (buffer : List RpcRequest) : Prop where
  sound : ∀ envelope ∈ buffer, SessionManager.isRequested envelope = true →
    ∃ r, live r ∧ r.sessionId = s ∧ envelope = r.envelope
  complete : ∀ r, live r → r.sessionId = s → r.envelope ∈ buffer
  once : (buffer.filterMap bufferedRequestKey).Nodup
  unsettling : ∀ envelope ∈ buffer, ∀ settled, envelope.payload ≠ .resolved settled

/-- The instance waits on the live requests, and on none that is not allowed. -/
structure PendingOf (pending : OrderedMap InteractionKey PendingWait) : Prop where
  own : ∀ key wait, get? pending key = some wait →
    wait.key = key ∧ wait.sessionId = s ∧ allowed wait
  complete : ∀ r, live r → r.sessionId = s → get? pending r.key = some r
  nodup : (keys pending).Nodup

end

section

variable {issued allowed allowed' live live' : PendingWait → Prop} {s : SessionId}

variable {interactions : OrderedMap InteractionKey PendingInteractionStatus}

theorem ListedOf.congr
    (h : ListedOf live s interactions) (hlive : ∀ r, r.sessionId = s → (live' r ↔ live r)) :
    ListedOf live' s interactions := by
  intro key status
  rw [h key status]
  constructor
  · rintro ⟨r, hr, hs, hrest⟩
    exact ⟨r, (hlive r hs).mpr hr, hs, hrest⟩
  · rintro ⟨r, hr, hs, hrest⟩
    exact ⟨r, (hlive r hs).mp hr, hs, hrest⟩

variable {buffer : List RpcRequest}

theorem BufferOf.congr (h : BufferOf live s buffer)
    (hlive : ∀ r, r.sessionId = s → (live' r ↔ live r)) : BufferOf live' s buffer where
  sound := by
    intro envelope hmem hrequested
    obtain ⟨r, hr, hs, henvelope⟩ := h.sound envelope hmem hrequested
    exact ⟨r, (hlive r hs).mpr hr, hs, henvelope⟩
  complete := fun r hr hs => h.complete r ((hlive r hs).mp hr) hs
  once := h.once
  unsettling := h.unsettling

theorem PendingOf.mono {pending : OrderedMap InteractionKey PendingWait}
    (h : PendingOf allowed live s pending)
    (hallowed : ∀ r, r.sessionId = s → allowed r → allowed' r)
    (hlive : ∀ r, r.sessionId = s → live' r → live r) : PendingOf allowed' live' s pending where
  own := by
    intro key wait hget
    obtain ⟨hkey, hs, hwait⟩ := h.own key wait hget
    exact ⟨hkey, hs, hallowed wait hs hwait⟩
  complete := fun r hr hs => h.complete r (hlive r hs hr) hs
  nodup := h.nodup

/-! ### A request arrives -/

theorem PendingWait.rpcId_of_key {r r' : PendingWait} (hkey : r.key = r'.key) :
    r.rpcId = r'.rpcId := by
  obtain ⟨s, i, b⟩ := r
  obtain ⟨s', i', b'⟩ := r'
  cases b <;> cases b' <;> cases hkey <;> rfl

variable {r : PendingWait}

theorem ListedOf.requested (hids : HostIds issued)
    (h : ListedOf live s interactions) (hissued : ∀ r, live r → issued r)
    (hr : issued r) (hs : r.sessionId = s) :
    ListedOf (fun r' => live r' ∨ r' = r) s
      (set interactions r.requestKey r.body.status) := by
  intro key status
  rw [get?_set]
  constructor
  · split
    case isTrue hkey =>
      rintro hstatus
      exact ⟨r, .inr rfl, hs, hkey.symm, some.inj hstatus⟩
    case isFalse hkey =>
      intro hget
      obtain ⟨r', hr', hrest⟩ := (h key status).mp hget
      exact ⟨r', .inl hr', hrest⟩
  · rintro ⟨r', hr' | rfl, hs', hkey', hstatus⟩
    · split
      case isTrue hkey =>
        have hsame : r' = r :=
          hids.keys r' r (hissued r' hr') hr (hs'.trans hs.symm) (hkey'.trans hkey)
        rw [← hstatus, hsame]
      case isFalse hkey => exact (h key status).mpr ⟨r', hr', hs', hkey', hstatus⟩
    · rw [if_pos hkey'.symm, hstatus]

theorem PendingOf.mint (hids : HostIds issued) {pending : OrderedMap InteractionKey PendingWait}
    (h : PendingOf allowed live s pending) (hissued : ∀ r, live r → issued r)
    (hr : issued r) (hallowed : allowed r) (hs : r.sessionId = s) :
    PendingOf allowed (fun r' => live r' ∨ r' = r) s (set pending r.key r) where
  own := by
    intro key wait hget
    rw [get?_set] at hget
    split at hget
    case isTrue hkey =>
      cases hget
      exact ⟨hkey.symm, hs, hallowed⟩
    case isFalse hkey => exact h.own key wait hget
  complete := by
    rintro r' (hr' | rfl) hs'
    · rw [get?_set]
      split
      case isTrue hkey =>
        exact congrArg some
          (hids.rpcIds r r' hr (hissued r' hr') (PendingWait.rpcId_of_key hkey).symm)
      case isFalse hkey => exact h.complete r' hr' hs'
    · rw [get?_set, if_pos rfl]
  nodup := nodup_set h.nodup _ _

theorem BufferOf.requested (hids : HostIds issued)
    (h : BufferOf live s buffer) (hissued : ∀ r, live r → issued r)
    (hr : issued r) (hnew : ¬ live r) (hs : r.sessionId = s) :
    BufferOf (fun r' => live r' ∨ r' = r) s (SessionManager.bufferFrame buffer r.envelope) := by
  have hfresh : r.requestKey ∉ buffer.filterMap bufferedRequestKey := by
    intro hmem
    obtain ⟨envelope, henvelope, hkey⟩ := mem_filterMap.mp hmem
    have hrequested : SessionManager.isRequested envelope = true := by
      obtain ⟨rpcId, payload⟩ := envelope
      cases payload <;> simp_all [bufferedRequestKey, SessionManager.isRequested]
    obtain ⟨r', hr', hs', rfl⟩ := h.sound envelope henvelope hrequested
    have hsame : r' = r :=
      hids.keys r' r (hissued r' hr') hr (hs'.trans hs.symm) (some.inj hkey)
    exact hnew (hsame ▸ hr')
  have hnone : buffer.findIdx? (fun item =>
      bufferedRequestKey item == bufferedRequestKey r.envelope) = none := by
    rw [findIdx?_eq_none_iff]
    intro item hitem
    rw [beq_eq_false_iff_ne]
    exact fun heq => hfresh (mem_filterMap.mpr ⟨item, hitem, heq⟩)
  have happend : SessionManager.bufferFrame buffer r.envelope = buffer ++ [r.envelope] := by
    simp only [SessionManager.bufferFrame, hnone]
  rw [happend]
  constructor
  · intro envelope hmem hrequested
    rcases mem_append.mp hmem with hold | hlast
    · obtain ⟨r', hr', hrest⟩ := h.sound envelope hold hrequested
      exact ⟨r', .inl hr', hrest⟩
    · exact ⟨r, .inr rfl, hs, mem_singleton.mp hlast⟩
  · rintro r' (hr' | rfl) hs'
    · exact mem_append_left _ (h.complete r' hr' hs')
    · exact mem_append_right _ mem_cons_self
  · rw [filterMap_append]
    refine nodup_append'.mpr ⟨h.once, nodup_singleton _, ?_⟩
    intro key hold hlast
    rw [mem_singleton.mp hlast] at hold
    exact hfresh hold
  · intro envelope hmem settled
    rcases mem_append.mp hmem with hold | hlast
    · exact h.unsettling envelope hold settled
    · rw [mem_singleton.mp hlast]
      exact nofun

/-! ### A request is settled -/

theorem ListedOf.resolved (hids : HostIds issued)
    (h : ListedOf live s interactions) (hissued : ∀ r, live r → issued r)
    (hr : issued r) (hs : r.sessionId = s) :
    ListedOf (fun r' => live r' ∧ r' ≠ r) s (delete interactions r.requestKey) := by
  intro key status
  rw [get?_delete]
  constructor
  · split
    case isTrue hkey => exact fun hget => absurd hget (by simp)
    case isFalse hkey =>
      intro hget
      obtain ⟨r', hr', hs', hkey', hstatus⟩ := (h key status).mp hget
      exact ⟨r', ⟨hr', fun hsame => hkey (hkey'.symm.trans (congrArg _ hsame))⟩, hs', hkey', hstatus⟩
  · rintro ⟨r', ⟨hr', hne⟩, hs', hkey', hstatus⟩
    rw [if_neg fun hkey => hne
      (hids.keys r' r (hissued r' hr') hr (hs'.trans hs.symm) (hkey'.trans hkey))]
    exact (h key status).mpr ⟨r', hr', hs', hkey', hstatus⟩

theorem PendingWait.isSettledBy_iff {wait : PendingWait} {settled : InteractionKey} :
    wait.isSettledBy settled = true ↔ wait.requestKey = settled := by
  obtain ⟨sessionId, rpcId, body⟩ := wait
  cases settled <;> cases body <;>
    simp [PendingWait.isSettledBy, PendingWait.requestKey, ClientSessions.requestKey]

theorem PendingOf.settle (hids : HostIds issued) {session : Session}
    (h : PendingOf allowed live s session.pending) (hissued : ∀ r, live r → issued r)
    (hr : issued r) (hs : r.sessionId = s) :
    PendingOf (fun r' => allowed r' ∧ r' ≠ r) (fun r' => live r' ∧ r' ≠ r) s
      (session.settle r.requestKey).pending := by
  cases hkey : r.requestKey with
  | a approvalId =>
    have hget : ∀ key, get? (session.settle (.a approvalId)).pending key
        = (get? session.pending key).filter fun wait => !wait.isSettledBy (.a approvalId) :=
      fun key => get?_filter h.nodup (fun e => !e.2.isSettledBy (.a approvalId)) key
    constructor
    · intro key wait hwait
      rw [hget] at hwait
      obtain ⟨hwait, hopen⟩ := filter_eq_some_iff.mp hwait
      obtain ⟨hkey', hs', hallowed⟩ := h.own key wait hwait
      refine ⟨hkey', hs', hallowed, ?_⟩
      rintro rfl
      rw [PendingWait.isSettledBy_iff.mpr hkey] at hopen
      cases hopen
    · rintro r' ⟨hr', hne⟩ hs'
      rw [hget, h.complete r' hr' hs']
      refine filter_eq_some_iff.mpr ⟨rfl, ?_⟩
      rw [Bool.not_eq_true', ← Bool.not_eq_true]
      intro hsettled
      exact hne (hids.keys r' r (hissued r' hr') hr (hs'.trans hs.symm)
        ((PendingWait.isSettledBy_iff.mp hsettled).trans hkey.symm))
    · exact nodup_filter h.nodup _
  | q rpcId =>
    have hown : r.key = .q rpcId := by
      obtain ⟨sessionId, id, body⟩ := r
      cases body <;>
        simp_all [PendingWait.requestKey, ClientSessions.requestKey, PendingWait.key]
    constructor
    · intro key wait hwait
      rw [Session.settle, get?_delete] at hwait
      split at hwait
      case isTrue heq => cases hwait
      case isFalse hne =>
        obtain ⟨hkey', hs', hallowed⟩ := h.own key wait hwait
        refine ⟨hkey', hs', hallowed, ?_⟩
        rintro rfl
        exact hne (hkey'.symm.trans hown)
    · rintro r' ⟨hr', hne⟩ hs'
      rw [Session.settle, get?_delete, if_neg, h.complete r' hr' hs']
      exact fun heq => hne (hids.rpcIds r' r (hissued r' hr') hr
        (PendingWait.rpcId_of_key (heq.trans hown.symm)))
    · exact nodup_delete h.nodup _

theorem key_of_mem_eraseP (hnodup : (buffer.filterMap bufferedRequestKey).Nodup)
    {key : InteractionKey} {envelope : RpcRequest}
    (hmem : envelope ∈ buffer.eraseP fun item => bufferedRequestKey item == some key) :
    bufferedRequestKey envelope ≠ some key := by
  induction buffer with
  | nil => cases hmem
  | cons item rest ih =>
    rw [eraseP_cons] at hmem
    cases hitem : bufferedRequestKey item with
    | none =>
      rw [filterMap_cons_none hitem] at hnodup
      simp only [hitem] at hmem
      rcases mem_cons.mp hmem with rfl | hrest
      · rw [hitem]
        simp
      · exact ih hnodup hrest
    | some key' =>
      rw [filterMap_cons_some hitem] at hnodup
      obtain ⟨hfresh, hnodup⟩ := nodup_cons.mp hnodup
      by_cases hkey : key' = key
      · subst hkey
        simp only [hitem, beq_self_eq_true, cond_true] at hmem
        exact fun heq => hfresh (mem_filterMap.mpr ⟨envelope, hmem, heq⟩)
      have hne : (some key' == some key) = false := by simpa using hkey
      simp only [hitem, hne, cond_false] at hmem
      rcases mem_cons.mp hmem with rfl | hrest
      · rw [hitem]
        simpa using hkey
      · exact ih hnodup hrest

theorem BufferOf.resolved (hids : HostIds issued)
    (h : BufferOf live s buffer) (hissued : ∀ r, live r → issued r)
    (hr : issued r) (hs : r.sessionId = s) :
    BufferOf (fun r' => live r' ∧ r' ≠ r) s
      (buffer.eraseP fun item => bufferedRequestKey item == some r.requestKey) where
  sound := by
    intro envelope hmem hrequested
    obtain ⟨r', hr', hs', rfl⟩ := h.sound envelope (mem_of_mem_eraseP hmem) hrequested
    refine ⟨r', ⟨hr', ?_⟩, hs', rfl⟩
    rintro rfl
    exact key_of_mem_eraseP h.once hmem rfl
  complete := by
    rintro r' ⟨hr', hne⟩ hs'
    refine (mem_eraseP_of_neg ?_).mpr (h.complete r' hr' hs')
    rw [beq_iff_eq]
    exact fun heq => hne (hids.keys r' r (hissued r' hr') hr (hs'.trans hs.symm) (some.inj heq))
  once := h.once.sublist (eraseP_sublist.filterMap _)
  unsettling := fun envelope hmem => h.unsettling envelope (mem_of_mem_eraseP hmem)

/-! ### Other frames -/

theorem BufferOf.subscribed (h : BufferOf live s buffer) :
    BufferOf live s (buffer.filter fun item => !SessionManager.isQueue item) where
  sound := fun envelope hmem => h.sound envelope (mem_of_mem_filter hmem)
  complete := fun r hr hs => mem_filter.mpr ⟨h.complete r hr hs, rfl⟩
  once := h.once.sublist (List.filter_sublist.filterMap _)
  unsettling := fun envelope hmem => h.unsettling envelope (mem_of_mem_filter hmem)

theorem filterMap_set_of_none {α β : Type} (f : α → Option β) {l : List α} {i : Nat} {x : α}
    (hx : f x = none) (hold : ∀ y, l[i]? = some y → f y = none) :
    (l.set i x).filterMap f = l.filterMap f := by
  induction l generalizing i with
  | nil => rfl
  | cons y rest ih =>
    cases i with
    | zero =>
      rw [set_cons_zero, filterMap_cons_none hx, filterMap_cons_none (hold y rfl)]
    | succ i =>
      rw [set_cons_succ, filterMap_cons, filterMap_cons, ih hold]

theorem BufferOf.queue (h : BufferOf live s buffer) (frameId : RpcId) (items : Json) :
    BufferOf live s (SessionManager.bufferFrame buffer ⟨frameId, .queue items⟩) := by
  have hplain : ∀ envelope, SessionManager.isRequested envelope = true →
      envelope ≠ ⟨frameId, .queue items⟩ := by
    rintro envelope hrequested rfl
    cases hrequested
  unfold SessionManager.bufferFrame
  split
  case h_1 =>
    constructor
    · intro envelope hmem hrequested
      rcases mem_append.mp hmem with hold | hlast
      · exact h.sound envelope hold hrequested
      · exact absurd (mem_singleton.mp hlast) (hplain envelope hrequested)
    · exact fun r hr hs => mem_append_left _ (h.complete r hr hs)
    · rw [filterMap_append,
        show List.filterMap bufferedRequestKey [⟨frameId, .queue items⟩] = [] from rfl,
        append_nil]
      exact h.once
    · intro envelope hmem settled
      rcases mem_append.mp hmem with hold | hlast
      · exact h.unsettling envelope hold settled
      · rw [mem_singleton.mp hlast]
        exact nofun
  case h_2 prior hprior =>
    have hold : ∀ item, buffer[prior]? = some item → bufferedRequestKey item = none := by
      intro item hitem
      obtain ⟨hlt, hkey, -⟩ := findIdx?_eq_some_iff_getElem.mp hprior
      obtain ⟨hlt', heq⟩ := List.getElem?_eq_some_iff.mp hitem
      rw [← heq]
      exact beq_iff_eq.mp hkey
    constructor
    · intro envelope hmem hrequested
      rcases mem_or_eq_of_mem_set hmem with hmem | heq
      · exact h.sound envelope hmem hrequested
      · exact absurd heq (hplain envelope hrequested)
    · intro r hr hs
      obtain ⟨i, hlt, hi⟩ := mem_iff_getElem.mp (h.complete r hr hs)
      have hne : prior ≠ i := by
        rintro rfl
        have := hold r.envelope (by rw [getElem?_eq_getElem hlt, hi])
        cases this
      refine mem_iff_getElem.mpr ⟨i, by simpa using hlt, ?_⟩
      rw [getElem_set_of_ne hne, hi]
    · rw [filterMap_set_of_none _ rfl hold]
      exact h.once
    · intro envelope hmem settled
      rcases mem_or_eq_of_mem_set hmem with hmem | rfl
      · exact h.unsettling envelope hmem settled
      · exact nofun

end

end ClientSessions

end Harness
