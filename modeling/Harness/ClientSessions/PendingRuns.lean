-- SUMMARY: Runs of the client's pending interactions: the steps that keep the list, the buffers and the instances together, and the ones that do not.
import Harness.ClientSessions.Pending

namespace Harness

open List OrderedMap

namespace ClientSessions

open Transitions

/-! ## The invariant -/

/-- A request of the current generation that nobody has settled. -/
def World.Live (w : World) (request : PendingWait) : Prop :=
  request ∈ w.delivered ∧ request ∉ w.resolved

/-- What an instance may still wait on. -/
def World.Unsettled (w : World) (issued : PendingWait → Prop) (request : PendingWait) : Prop :=
  issued request ∧ request ∉ w.resolved

structure Inv (issued : PendingWait → Prop) (w : World) : Prop where
  delivered : ∀ r ∈ w.delivered, issued r
  resolved : ∀ r ∈ w.resolved, issued r
  ids : ∀ s session, get? w.manager.sessions s = some session → session.sessionId = s
  listed : ∀ s, ListedOf w.Live s (w.manager.interactions s)
  buffered : ∀ s, get? w.manager.sessions s = none →
    BufferOf w.Live s (w.manager.buffer s)
  emptied : ∀ s session, get? w.manager.sessions s = some session →
    w.manager.buffer s = []
  waiting : ∀ s session, get? w.manager.sessions s = some session →
    PendingOf (w.Unsettled issued) w.Live s session.pending
  nodup : (keys w.manager.pendingBuffers).Nodup
  quiet : w.streaming = false → w.delivered = []

section

variable {issued : PendingWait → Prop} {w : World}

theorem Inv.issued_of_live (h : Inv issued w) (r : PendingWait) (hr : w.Live r) : issued r :=
  h.delivered r hr.1

variable {r : PendingWait}

theorem isAmong_iff (hids : HostIds issued) {requests : List PendingWait}
    (hissued : ∀ r ∈ requests, issued r) (hr : issued r) :
    isAmong requests r = true ↔ r ∈ requests := by
  rw [isAmong, any_eq_true]
  constructor
  · rintro ⟨r', hmem, hid⟩
    rwa [← hids.rpcIds r' r (hissued r' hmem) hr (beq_iff_eq.mp hid)]
  · exact fun hmem => ⟨r, hmem, beq_self_eq_true _⟩

/-! ## Frames -/

variable {s : SessionId}

/-- A frame of one session leaves what belongs to the others. -/
theorem Inv.envelope (h : Inv issued w) {envelope : RpcRequest}
    (delivered resolved : List PendingWait)
    {w' : World} (hw' : w' = { w with
      manager := w.manager.handleMuxEnvelope s envelope
      delivered := delivered
      resolved := resolved })
    (hdelivered : ∀ r ∈ delivered, issued r) (hresolved : ∀ r ∈ resolved, issued r)
    (hlive : ∀ r, r.sessionId ≠ s → (w'.Live r ↔ w.Live r))
    (hunsettled : ∀ r, r.sessionId ≠ s → r ∉ w.resolved → r ∉ resolved)
    (hlisted : ListedOf w'.Live s (interactionsAfter (w.manager.interactions s) envelope))
    (hbuffered : get? w.manager.sessions s = none →
      BufferOf w'.Live s (bufferAfter (w.manager.buffer s) envelope))
    (hwaiting : ∀ session, get? w.manager.sessions s = some session →
      PendingOf (w'.Unsettled issued) w'.Live s
        (session.handleMuxEnvelope envelope.rpcId envelope.payload).pending)
    (hquiet : w.streaming = false → delivered = []) : Inv issued w' := by
  have hsessions : ∀ t, get? w'.manager.sessions t
      = if t = s then
          (get? w.manager.sessions s).map
            (·.handleMuxEnvelope envelope.rpcId envelope.payload)
        else get? w.manager.sessions t := by
    intro t
    rw [hw']
    exact SessionManager.sessions_handleMuxEnvelope w.manager envelope (h.ids s)
  have hbuffer : get? w.manager.sessions s = none → ∀ t, w'.manager.buffer t
      = if t = s then bufferAfter (w.manager.buffer s) envelope else w.manager.buffer t := by
    intro hnone t
    rw [hw']
    exact SessionManager.buffer_handleMuxEnvelope w.manager envelope hnone
  have hresident : ∀ session, get? w.manager.sessions s = some session →
      ∀ t, w'.manager.buffer t = w.manager.buffer t := by
    intro session hsome t
    rw [hw']
    exact SessionManager.buffer_handleMuxEnvelope_resident w.manager envelope hsome
      (h.emptied s session hsome)
  have hbuffer_ne : ∀ t, t ≠ s → w'.manager.buffer t = w.manager.buffer t := by
    intro t hne
    cases hget : get? w.manager.sessions s with
    | none => rw [hbuffer hget, if_neg hne]
    | some session => exact hresident session hget t
  constructor
  · rw [hw']
    exact hdelivered
  · rw [hw']
    exact hresolved
  · intro t session hget
    rw [hsessions] at hget
    split at hget
    case isTrue heq =>
      obtain ⟨prior, hprior, rfl⟩ := Option.map_eq_some_iff.mp hget
      rw [SessionManager.handleMuxEnvelope_sessionId, h.ids s prior hprior, heq]
    case isFalse => exact h.ids t session hget
  · intro t
    have hinteractions : w'.manager.interactions t
        = if t = s then interactionsAfter (w.manager.interactions s) envelope
          else w.manager.interactions t := by
      rw [hw']
      exact SessionManager.interactions_handleMuxEnvelope w.manager envelope
    rw [hinteractions]
    split
    case isTrue heq => exact heq ▸ hlisted
    case isFalse hne => exact (h.listed t).congr fun r hr => hlive r (hr ▸ hne)
  · intro t hget
    rw [hsessions] at hget
    split at hget
    case isTrue heq =>
      have hnone := Option.map_eq_none_iff.mp hget
      rw [hbuffer hnone, if_pos heq, heq]
      exact hbuffered hnone
    case isFalse hne =>
      rw [hbuffer_ne t hne]
      exact (h.buffered t hget).congr fun r hr => hlive r (hr ▸ hne)
  · intro t session hget
    rw [hsessions] at hget
    split at hget
    case isTrue heq =>
      obtain ⟨prior, hprior, -⟩ := Option.map_eq_some_iff.mp hget
      rw [hresident prior hprior, heq]
      exact h.emptied s prior hprior
    case isFalse hne =>
      rw [hbuffer_ne t hne]
      exact h.emptied t session hget
  · intro t session hget
    rw [hsessions] at hget
    split at hget
    case isTrue heq =>
      obtain ⟨prior, hprior, rfl⟩ := Option.map_eq_some_iff.mp hget
      rw [heq]
      exact hwaiting prior hprior
    case isFalse hne =>
      refine (h.waiting t session hget).mono ?_ fun r hr => (hlive r (hr ▸ hne)).mp
      intro r hr hunsettled'
      have hresolved' : w'.resolved = resolved := by rw [hw']
      exact ⟨hunsettled'.1, hresolved' ▸ hunsettled r (hr ▸ hne) hunsettled'.2⟩
  · rw [hw']
    exact SessionManager.nodup_handleMuxEnvelope w.manager envelope h.nodup
  · rw [hw']
    exact hquiet

theorem Inv.requested (hids : HostIds issued) (h : Inv issued w) (hr : issued r)
    (hnew : r ∉ w.resolved) (hstreaming : w.streaming = true) (hfresh : r ∉ w.delivered) :
    Inv issued { w with
      manager := w.manager.handleMuxEnvelope r.sessionId r.envelope
      delivered := r :: w.delivered } := by
  have hlive : ∀ r', World.Live { w with
      manager := w.manager.handleMuxEnvelope r.sessionId r.envelope
      delivered := r :: w.delivered } r' ↔ w.Live r' ∨ r' = r := by
    intro r'
    constructor
    · rintro ⟨hmem, hopen⟩
      rcases mem_cons.mp hmem with rfl | hold
      · exact .inr rfl
      · exact .inl ⟨hold, hopen⟩
    · rintro (⟨hold, hopen⟩ | rfl)
      · exact ⟨mem_cons_of_mem _ hold, hopen⟩
      · exact ⟨mem_cons_self, hnew⟩
  refine h.envelope (s := r.sessionId) (r :: w.delivered) w.resolved rfl ?_ h.resolved ?_
    (fun _ _ hopen => hopen) ?_ ?_ ?_ (fun hquiet => absurd hstreaming (by simp [hquiet]))
  · intro r' hmem
    rcases mem_cons.mp hmem with rfl | hold
    · exact hr
    · exact h.delivered r' hold
  · intro r' hne
    rw [hlive]
    exact or_iff_left fun heq => hne (congrArg PendingWait.sessionId heq)
  · exact ((h.listed r.sessionId).requested hids h.issued_of_live hr rfl).congr fun r' _ => hlive r'
  · intro hnone
    exact ((h.buffered r.sessionId hnone).requested hids h.issued_of_live hr
      (fun hold => hfresh hold.1) rfl).congr fun r' _ => hlive r'
  · intro session hsome
    have hmint := (h.waiting r.sessionId session hsome).mint hids h.issued_of_live hr
      (show w.Unsettled issued r from ⟨hr, hnew⟩) rfl
    have hsame : session.handleMuxEnvelope r.envelope.rpcId r.envelope.payload = session.mint r := by
      simp only [PendingWait.envelope, Session.handleMuxEnvelope, h.ids _ session hsome]
    rw [hsame]
    exact hmint.mono (fun _ _ hallowed => hallowed) fun r' _ hr' => (hlive r').mp hr'

theorem Inv.settled (hids : HostIds issued) (h : Inv issued w) (hr : issued r) (frameId : RpcId) :
    Inv issued { w with
      manager := w.manager.handleMuxEnvelope r.sessionId
        { rpcId := frameId, payload := .resolved r.requestKey }
      resolved := r :: w.resolved } := by
  have hlive : ∀ r', World.Live { w with
      manager := w.manager.handleMuxEnvelope r.sessionId
        { rpcId := frameId, payload := .resolved r.requestKey }
      resolved := r :: w.resolved } r' ↔ w.Live r' ∧ r' ≠ r := by
    intro r'
    constructor
    · rintro ⟨hmem, hopen⟩
      obtain ⟨hne, hopen⟩ := not_or.mp (mt mem_cons.mpr hopen)
      exact ⟨⟨hmem, hopen⟩, hne⟩
    · rintro ⟨⟨hmem, hopen⟩, hne⟩
      exact ⟨hmem, mt mem_cons.mp (not_or.mpr ⟨hne, hopen⟩)⟩
  refine h.envelope (s := r.sessionId) w.delivered (r :: w.resolved) rfl h.delivered
    ?_ ?_ ?_ ?_ ?_ ?_
    h.quiet
  · intro r' hmem
    rcases mem_cons.mp hmem with rfl | hold
    · exact hr
    · exact h.resolved r' hold
  · intro r' hne
    rw [hlive]
    exact and_iff_left fun heq => hne (congrArg PendingWait.sessionId heq)
  · intro r' hne hopen
    exact mt mem_cons.mp
      (not_or.mpr ⟨fun heq => hne (congrArg PendingWait.sessionId heq), hopen⟩)
  · exact ((h.listed r.sessionId).resolved hids h.issued_of_live hr rfl).congr fun r' _ => hlive r'
  · intro hnone
    exact ((h.buffered r.sessionId hnone).resolved hids h.issued_of_live hr rfl).congr
      fun r' _ => hlive r'
  · intro session hsome
    refine ((h.waiting r.sessionId session hsome).settle hids h.issued_of_live hr rfl).mono ?_
      fun r' _ hr' => (hlive r').mp hr'
    rintro r' - ⟨⟨hissued, hopen⟩, hne⟩
    exact ⟨hissued, mt mem_cons.mp (not_or.mpr ⟨hne, hopen⟩)⟩

/-- Frames that name no request. -/
theorem Inv.plain (h : Inv issued w) {envelope : RpcRequest}
    (hlisted : interactionsAfter (w.manager.interactions s) envelope = w.manager.interactions s)
    (hbuffered : BufferOf w.Live s (w.manager.buffer s) →
      BufferOf w.Live s (bufferAfter (w.manager.buffer s) envelope))
    (hpending : ∀ session : Session,
      (session.handleMuxEnvelope envelope.rpcId envelope.payload).pending = session.pending) :
    Inv issued { w with manager := w.manager.handleMuxEnvelope s envelope } := by
  refine h.envelope (s := s) w.delivered w.resolved rfl h.delivered
    h.resolved (fun _ _ => Iff.rfl) (fun _ _ hopen => hopen) ?_ ?_ ?_ h.quiet
  · rw [hlisted]
    exact h.listed s
  · exact fun hnone => hbuffered (h.buffered s hnone)
  · intro session hsome
    rw [hpending]
    exact h.waiting s session hsome

/-! ## Instances -/

/-- A step on the instances keeps their waits, or drops those of a session without listed ones. -/
theorem Inv.instances (h : Inv issued w) {m : SessionManager}
    (hlisted : ∀ s, m.interactions s = w.manager.interactions s)
    (hbuffers : m.pendingBuffers = w.manager.pendingBuffers)
    (hnone : ∀ s, get? m.sessions s = none →
      get? w.manager.sessions s = none)
    (hsome : ∀ s session, get? m.sessions s = some session →
      ∃ prior, get? w.manager.sessions s = some prior ∧
        session.sessionId = prior.sessionId ∧
        (session.pending = prior.pending ∨
          session.pending = [] ∧ w.manager.interactions s = [])) :
    Inv issued { w with manager := m } := by
  have hbuffer : ∀ s, m.buffer s = w.manager.buffer s := by
    intro s
    rw [SessionManager.buffer, hbuffers]
    rfl
  constructor
  · exact h.delivered
  · exact h.resolved
  · intro s session hget
    obtain ⟨prior, hprior, hid, -⟩ := hsome s session hget
    rw [hid]
    exact h.ids s prior hprior
  · intro s
    rw [hlisted]
    exact h.listed s
  · intro s hget
    rw [hbuffer]
    exact h.buffered s (hnone s hget)
  · intro s session hget
    obtain ⟨prior, hprior, -⟩ := hsome s session hget
    rw [hbuffer]
    exact h.emptied s prior hprior
  · intro s session hget
    obtain ⟨prior, hprior, -, hpending | ⟨hempty, hinteractions⟩⟩ := hsome s session hget
    · rw [hpending]
      exact h.waiting s prior hprior
    rw [hempty]
    constructor
    · exact fun key wait hwait => absurd hwait (by simp [get?])
    · intro r hr hs
      have hkey := ((h.listed s) r.requestKey r.body.status).mpr ⟨r, hr, hs, rfl, rfl⟩
      rw [hinteractions] at hkey
      cases hkey
    · exact nodup_nil
  · rw [hbuffers]
    exact h.nodup
  · exact h.quiet

theorem Inv.onSession (h : Inv issued w) {f : Session → Session}
    (hf : ∀ session, get? w.manager.sessions s = some session →
      (f session).sessionId = session.sessionId ∧
        ((f session).pending = session.pending ∨
          (f session).pending = [] ∧ w.manager.interactions s = [])) :
    Inv issued { w with manager := w.manager.onSession s f } := by
  cases hget : get? w.manager.sessions s with
  | none =>
    simp only [SessionManager.onSession, hget]
    exact h
  | some session =>
    obtain ⟨hid, hpending⟩ := hf session hget
    have hsessions : ∀ t, get? (w.manager.onSession s f).sessions t
        = if t = s then some (f session) else get? w.manager.sessions t := by
      intro t
      simp only [SessionManager.onSession, hget, SessionManager.setSession, get?_set, hid,
        h.ids s session hget]
    have hrest : w.manager.onSession s f = w.manager.setSession (f session) := by
      simp only [SessionManager.onSession, hget]
    refine h.instances (fun t => ?_) ?_ ?_ ?_
    · rw [hrest]
      rfl
    · rw [hrest]
      rfl
    · intro t hnone
      rw [hsessions] at hnone
      split at hnone
      case isTrue => cases hnone
      case isFalse => exact hnone
    · intro t session' hsome
      rw [hsessions] at hsome
      split at hsome
      case isTrue heq =>
        cases hsome
        subst t
        exact ⟨session, hget, hid, hpending⟩
      case isFalse => exact ⟨session', hsome, rfl, .inl rfl⟩

variable (session : Session)

theorem Session.open_pending : session.open_.pending = session.pending := by
  unfold Session.open_
  split <;> rfl

theorem Session.open_sessionId : session.open_.sessionId = session.sessionId := by
  unfold Session.open_
  split <;> rfl

theorem Session.finishOpen_same (generation : Nat) (ok : Bool) :
    (session.finishOpen generation ok).sessionId = session.sessionId ∧
      (session.finishOpen generation ok).pending = session.pending := by
  unfold Session.finishOpen
  split <;> exact ⟨rfl, rfl⟩

theorem Session.releaseOpen_same (generation : Nat) :
    (session.releaseOpen generation).sessionId = session.sessionId ∧
      (session.releaseOpen generation).pending = session.pending := by
  unfold Session.releaseOpen
  split <;> exact ⟨rfl, rfl⟩

theorem Session.resync_sessionId : session.resync.sessionId = session.sessionId := by
  unfold Session.resync
  split
  · rfl
  · rw [Session.open_sessionId]

/-- A rebuild drops the waits of an opened instance, and only of one. -/
theorem Session.resync_pending :
    session.resync.pending = if session.openState = .cold then session.pending else [] := by
  unfold Session.resync
  split
  · rfl
  · rw [Session.open_pending]

theorem Session.configureSubagent_sessionId (address : Option SubagentAddress) (available : Bool) :
    (session.configureSubagent address available).sessionId = session.sessionId := by
  unfold Session.configureSubagent
  simp only
  split
  · rfl
  · rw [Session.resync_sessionId]

theorem Session.configureSubagent_pending (address : Option SubagentAddress) (available : Bool) :
    (session.configureSubagent address available).pending
      = if session.address = address ∨ session.openState = .cold then session.pending else [] := by
  unfold Session.configureSubagent
  simp only
  split
  case isTrue hsame => rw [if_pos (.inl hsame)]
  case isFalse hchanged =>
    rw [Session.resync_pending]
    exact if_congr (or_iff_right hchanged).symm rfl rfl

variable (m : SessionManager)

theorem SessionManager.navigate_eq (s : SessionId) (address : Option SubagentAddress) :
    m.navigate s address
      = ({ m with
          addresses := (address.map (set m.addresses s)).getD m.addresses
          selected := some s } : SessionManager).onSession s fun session => session.configureSubagent address
            (address.any fun address : SubagentAddress =>
              m.parentAvailable address.parentSessionId) := rfl

theorem Inv.navigate (h : Inv issued w) {address : Option SubagentAddress}
    (hkeeps : ∀ session, get? w.manager.sessions s = some session →
      session.address ≠ address → w.manager.Rebuilds session) :
    Inv issued { w with manager := w.manager.navigate s address } := by
  have hselected : Inv issued { w with
      manager := { w.manager with
        addresses := (address.map (set w.manager.addresses s)).getD w.manager.addresses
        selected := some s } } :=
    h.instances (fun _ => rfl) rfl (fun _ hnone => hnone)
      fun _ session hget => ⟨session, hget, rfl, .inl rfl⟩
  rw [SessionManager.navigate_eq]
  refine hselected.onSession fun session hget => ⟨Session.configureSubagent_sessionId .., ?_⟩
  rw [Session.configureSubagent_pending]
  split
  case isTrue => exact .inl rfl
  case isFalse hchanged =>
    obtain ⟨haddress, hopened⟩ := not_or.mp hchanged
    have hempty := hkeeps session hget haddress hopened
    rw [h.ids s session hget] at hempty
    exact .inr ⟨rfl, hempty⟩

theorem SessionManager.get?_sessions_catalogArrives (parent : SessionId)
    (catalog : SubagentCatalog) (s : SessionId) :
    get? (m.catalogArrives parent catalog).sessions s
      = (get? m.sessions s).map fun session =>
          if (get? m.addresses s).any
              fun address : SubagentAddress => address.parentSessionId = parent then
            session.handleSubagentParentAvailable catalog.parentAvailable
          else session := by
  unfold SessionManager.catalogArrives
  simp only
  induction m.sessions with
  | nil => rfl
  | cons e rest ih =>
    obtain ⟨t, session⟩ := e
    rw [map_cons, get?_cons, get?_cons, ih]
    simp only
    split
    case isTrue heq =>
      by_cases hst : t = s
      · subst t
        rw [if_pos rfl, if_pos rfl, Option.map_some, if_pos heq]
      · rw [if_neg hst, if_neg hst]
    case isFalse hother =>
      by_cases hst : t = s
      · subst t
        rw [if_pos rfl, if_pos rfl, Option.map_some, if_neg hother]
      · rw [if_neg hst, if_neg hst]

theorem Inv.catalogArrives (h : Inv issued w) (parent : SessionId) (catalog : SubagentCatalog) :
    Inv issued { w with manager := w.manager.catalogArrives parent catalog } := by
  refine h.instances (fun _ => rfl) rfl ?_ ?_
  · intro s hnone
    rw [SessionManager.get?_sessions_catalogArrives] at hnone
    exact Option.map_eq_none_iff.mp hnone
  intro s session hsome
  rw [SessionManager.get?_sessions_catalogArrives] at hsome
  obtain ⟨prior, hprior, rfl⟩ := Option.map_eq_some_iff.mp hsome
  refine ⟨prior, hprior, ?_⟩
  split
  · exact ⟨rfl, .inl rfl⟩
  · exact ⟨rfl, .inl rfl⟩

theorem Inv.handleConnected (h : Inv issued w)
    (hkeeps : ∀ s session, get? w.manager.sessions s = some session →
      w.manager.Rebuilds session) :
    Inv issued { w with manager := w.manager.handleConnected } := by
  refine h.instances (fun _ => rfl) rfl ?_ ?_
  · intro s hnone
    simp only [SessionManager.handleConnected, get?_mapValues] at hnone
    exact Option.map_eq_none_iff.mp hnone
  intro s session hsome
  simp only [SessionManager.handleConnected, get?_mapValues] at hsome
  obtain ⟨prior, hprior, rfl⟩ := Option.map_eq_some_iff.mp hsome
  refine ⟨prior, hprior, Session.resync_sessionId prior, ?_⟩
  rw [Session.resync_pending]
  split
  case isTrue => exact .inl rfl
  case isFalse hopened =>
    have hempty := hkeeps s prior hprior hopened
    rw [h.ids s prior hprior] at hempty
    exact .inr ⟨rfl, hempty⟩

/-! ### The first instance -/

/-- Consuming a buffer mints a wait for each request in it. -/
theorem PendingOf.replay (hids : HostIds issued) {allowed live : PendingWait → Prop}
    {buffer : List RpcRequest} {session : Session} (hid : session.sessionId = s)
    {seen : PendingWait → Prop} (h : PendingOf allowed seen s session.pending)
    (hseen : ∀ r, seen r → live r) (hlive : ∀ r, live r → issued r ∧ allowed r)
    (hsettled : ∀ envelope ∈ buffer, ∀ settled, envelope.payload ≠ .resolved settled)
    (hsound : ∀ envelope ∈ buffer, SessionManager.isRequested envelope = true →
      ∃ r, live r ∧ r.sessionId = s ∧ envelope = r.envelope) :
    PendingOf allowed (fun r => seen r ∨ live r ∧ r.envelope ∈ buffer) s
      (buffer.foldl (fun session item => session.handleMuxEnvelope item.rpcId item.payload)
        session).pending := by
  induction buffer generalizing session seen with
  | nil =>
    refine h.mono (fun _ _ hr => hr) ?_
    rintro r - (hr | ⟨-, hmem⟩)
    · exact hr
    · cases hmem
  | cons item rest ih =>
    have hrest := fun envelope hmem => hsettled envelope (mem_cons_of_mem item hmem)
    have hsound' := fun envelope hmem => hsound envelope (mem_cons_of_mem item hmem)
    rw [foldl_cons]
    have hid' := (SessionManager.handleMuxEnvelope_sessionId session item.rpcId item.payload).trans hid
    have hplain : (session.handleMuxEnvelope item.rpcId item.payload).pending = session.pending →
        SessionManager.isRequested item = false → PendingOf allowed
          (fun r => seen r ∨ live r ∧ r.envelope ∈ item :: rest) s
          (rest.foldl (fun session item => session.handleMuxEnvelope item.rpcId item.payload)
            (session.handleMuxEnvelope item.rpcId item.payload)).pending := by
      intro hpending hother
      refine (ih hid' (hpending ▸ h) hseen hrest hsound').mono (fun _ _ hr => hr) ?_
      rintro r - (hr | ⟨hr, hmem⟩)
      · exact .inl hr
      rcases mem_cons.mp hmem with heq | hold
      · rw [← heq] at hother
        cases hother
      · exact .inr ⟨hr, hold⟩
    cases hpayload : item.payload with
    | queue items =>
      rw [hpayload] at hplain
      exact hplain rfl (by simp [SessionManager.isRequested, hpayload])
    | subscribed lastSeq =>
      rw [hpayload] at hplain
      exact hplain rfl (by simp [SessionManager.isRequested, hpayload])
    | resolved settled => exact absurd hpayload (hsettled item mem_cons_self settled)
    | requested body =>
      obtain ⟨r, hr, hs, hitem⟩ := hsound item mem_cons_self
        (by simp [SessionManager.isRequested, hpayload])
      have hmint := h.mint hids (fun r' hr' => (hlive r' (hseen r' hr')).1) (hlive r hr).1
        (hlive r hr).2 hs
      have hwait : session.handleMuxEnvelope item.rpcId (.requested body) = session.mint r := by
        rw [← hpayload, hitem]
        simp only [PendingWait.envelope, Session.handleMuxEnvelope, hid, ← hs]
      rw [hwait]
      refine (ih (show (session.mint r).sessionId = s from hid) hmint ?_ hrest hsound').mono
        (fun _ _ hr => hr) ?_
      · rintro r' (hr' | rfl)
        · exact hseen r' hr'
        · exact hr
      rintro r' - (hr' | ⟨hr', hmem⟩)
      · exact .inl (.inl hr')
      rcases mem_cons.mp hmem with heq | hold
      · have hsame : r'.rpcId = r.rpcId := by
          rw [hitem] at heq
          exact congrArg RpcRequest.rpcId heq
        exact .inl (.inr (hids.rpcIds r' r (hlive r' hr').1 (hlive r hr).1 hsame))
      · exact .inr ⟨hr', hold⟩

theorem SessionManager.replay_sessionId (buffer : List RpcRequest) (session : Session) :
    (buffer.foldl (fun session item => session.handleMuxEnvelope item.rpcId item.payload)
      session).sessionId = session.sessionId := by
  induction buffer generalizing session with
  | nil => rfl
  | cons item rest ih => rw [foldl_cons, ih, SessionManager.handleMuxEnvelope_sessionId]

theorem SessionManager.sessions_get (hnone : get? m.sessions s = none) (t : SessionId) :
    ∃ session : Session, session.sessionId = s ∧ session.pending = [] ∧
      get? (m.get s).sessions t
        = if t = s then some ((m.buffer s).foldl
            (fun session item => session.handleMuxEnvelope item.rpcId item.payload) session)
          else get? m.sessions t := by
  refine ⟨{
    sessionId := s
    address := get? m.addresses s
    parentAvailable := (get? m.addresses s).any
      fun address => m.parentAvailable address.parentSessionId }, rfl, rfl, ?_⟩
  simp only [SessionManager.get, hnone, SessionManager.setSession, replay_sessionId,
    get?_set]

theorem SessionManager.buffer_get (hnone : get? m.sessions s = none) (t : SessionId) :
    (m.get s).buffer t = if t = s then [] else m.buffer t := by
  simp only [SessionManager.get, hnone, SessionManager.setSession, SessionManager.buffer,
    get?_delete]
  split <;> rfl

theorem Inv.get (hids : HostIds issued) (h : Inv issued w) (s : SessionId) :
    Inv issued { w with manager := w.manager.get s } := by
  cases hget : get? w.manager.sessions s with
  | some session =>
    simp only [SessionManager.get, hget]
    exact h
  | none =>
    have hbuffer := SessionManager.buffer_get w.manager hget
    have hbuffered := h.buffered s hget
    have hinteractions : ∀ t, (w.manager.get s).interactions t = w.manager.interactions t := by
      intro t
      simp only [SessionManager.get, hget]
      rfl
    constructor
    · exact h.delivered
    · exact h.resolved
    · intro t session hsome
      obtain ⟨built, hid, hpending, hsessions⟩ := SessionManager.sessions_get w.manager hget t
      rw [hsessions] at hsome
      split at hsome
      case isTrue heq =>
        cases hsome
        rw [SessionManager.replay_sessionId, hid, heq]
      case isFalse => exact h.ids t session hsome
    · intro t
      rw [hinteractions]
      exact h.listed t
    · intro t hnone
      obtain ⟨built, hid, hpending, hsessions⟩ := SessionManager.sessions_get w.manager hget t
      rw [hsessions] at hnone
      split at hnone
      case isTrue => cases hnone
      case isFalse hne =>
        rw [hbuffer, if_neg hne]
        exact h.buffered t hnone
    · intro t session hsome
      obtain ⟨built, hid, hpending, hsessions⟩ := SessionManager.sessions_get w.manager hget t
      rw [hbuffer]
      split
      case isTrue => rfl
      case isFalse hne =>
        rw [hsessions, if_neg hne] at hsome
        exact h.emptied t session hsome
    · intro t session hsome
      obtain ⟨built, hid, hpending, hsessions⟩ := SessionManager.sessions_get w.manager hget t
      rw [hsessions] at hsome
      split at hsome
      case isTrue heq =>
        cases hsome
        subst t
        have hempty : PendingOf (w.Unsettled issued) (fun _ => False) s built.pending := by
          rw [hpending]
          constructor
          · exact fun key wait hwait => absurd hwait (by simp [get?])
          · exact fun _ hr => hr.elim
          · exact nodup_nil
        refine (PendingOf.replay hids hid hempty (fun _ hr => hr.elim)
          (fun r hr => ⟨h.issued_of_live r hr, h.issued_of_live r hr, hr.2⟩)
          hbuffered.unsettling hbuffered.sound).mono (fun _ _ hr => hr) ?_
        exact fun r hs hr => .inr ⟨hr, hbuffered.complete r hr hs⟩
      case isFalse => exact h.waiting t session hsome
    · have hbuffers : (w.manager.get s).pendingBuffers
          = delete w.manager.pendingBuffers s := by
        simp only [SessionManager.get, hget]
        rfl
      rw [hbuffers]
      exact nodup_delete h.nodup s
    · exact h.quiet

/-! ## Connections -/

theorem SessionManager.buffer_handleDisconnected
    (hnodup : (keys m.pendingBuffers).Nodup) (s : SessionId) :
    m.handleDisconnected.buffer s = (m.buffer s).filter fun item => !isRequested item := by
  simp only [SessionManager.handleDisconnected, SessionManager.buffer]
  rw [get?_filter (by rwa [keys_mapValues]), get?_mapValues]
  cases get? m.pendingBuffers s with
  | none => rfl
  | some buffer =>
    simp only [Option.map_some, Option.getD_some, Option.filter_some]
    split
    case isTrue => rfl
    case isFalse hempty =>
      have hnil : (buffer.filter fun item => !isRequested item) = [] := by simpa using hempty
      rw [hnil]
      rfl

theorem Inv.handleDisconnected (h : Inv issued w) :
    Inv issued { w with
      manager := w.manager.handleDisconnected
      streaming := false
      delivered := [] } := by
  have hbuffer := SessionManager.buffer_handleDisconnected w.manager h.nodup
  have hdead : ∀ r, ¬ World.Live { w with
      manager := w.manager.handleDisconnected
      streaming := false
      delivered := [] } r := fun r hr => by cases hr.1
  constructor
  · exact fun r hmem => by cases hmem
  · exact h.resolved
  · exact h.ids
  · intro s key status
    constructor
    · exact fun hget => by cases hget
    · rintro ⟨r, hr, -⟩
      exact absurd hr (hdead r)
  · intro s hnone
    have hs := h.buffered s hnone
    rw [hbuffer]
    constructor
    · intro envelope hmem hrequested
      have hplain := (mem_filter.mp hmem).2
      rw [hrequested] at hplain
      cases hplain
    · exact fun r hr => absurd hr (hdead r)
    · exact hs.once.sublist (List.filter_sublist.filterMap _)
    · exact fun envelope hmem => hs.unsettling envelope (mem_of_mem_filter hmem)
  · intro s session hsome
    rw [hbuffer, h.emptied s session hsome]
    rfl
  · intro s session hsome
    exact (h.waiting s session hsome).mono (fun _ _ hr => hr) fun r _ hr => absurd hr (hdead r)
  · refine nodup_filter ?_ _
    rw [keys_mapValues]
    exact h.nodup
  · exact fun _ => rfl

theorem Inv.resolvedUnseen (h : Inv issued w) (hr : issued r) (hquiet : w.streaming = false)
    (hkeeps : ∀ session, get? w.manager.sessions r.sessionId = some session →
      get? session.pending r.key = none) :
    Inv issued { w with resolved := r :: w.resolved } := by
  have hnone := h.quiet hquiet
  have hlive : ∀ r', World.Live { w with resolved := r :: w.resolved } r' ↔ w.Live r' := by
    intro r'
    simp only [World.Live, hnone, not_mem_nil, false_and]
  constructor
  · exact h.delivered
  · intro r' hmem
    rcases mem_cons.mp hmem with rfl | hold
    · exact hr
    · exact h.resolved r' hold
  · exact h.ids
  · exact fun s => (h.listed s).congr fun r' _ => hlive r'
  · exact fun s hget => (h.buffered s hget).congr fun r' _ => hlive r'
  · exact h.emptied
  · intro s session hsome
    have hs := h.waiting s session hsome
    constructor
    · intro key wait hwait
      obtain ⟨hkey, hsession, hissued, hopen⟩ := hs.own key wait hwait
      refine ⟨hkey, hsession, hissued, mt mem_cons.mp (not_or.mpr ⟨?_, hopen⟩)⟩
      rintro rfl
      subst hkey hsession
      rw [hkeeps session hsome] at hwait
      cases hwait
    · exact fun r' hr' => hs.complete r' ((hlive r').mp hr')
    · exact hs.nodup
  · exact h.nodup
  · exact h.quiet

/-! ## Steps -/

theorem Inv.start (selected : Option SessionId) (restored : Option SubagentAddress) :
    Inv issued (World.start selected restored) where
  delivered := fun r hmem => by cases hmem
  resolved := fun r hmem => by cases hmem
  ids := fun s session hget => by cases hget
  listed := by
    intro s key status
    constructor
    · exact fun hget => by cases hget
    · rintro ⟨r, hr, -⟩
      cases hr.1
  buffered := fun s _ => {
    sound := fun envelope hmem => by cases hmem
    complete := fun r hr => by cases hr.1
    once := nodup_nil
    unsettling := fun envelope hmem => by cases hmem }
  emptied := fun _ _ _ => rfl
  waiting := fun s session hget => by cases hget
  nodup := nodup_nil
  quiet := fun _ => rfl

/-- A step that keeps the copies together keeps the invariant. -/
theorem Inv.step (hids : HostIds issued) (h : Inv issued w) {e : Event} (hissued : e.Issued issued)
    (hkeeps : e.Keeps w) {w' : World} (hstep : w.step e = some w') : Inv issued w' := by
  cases e with
  | streamOpens =>
    simp only [World.step] at hstep
    split at hstep
    · cases hstep
    · cases hstep
      exact { h with quiet := fun hquiet => by cases hquiet }
  | requested r =>
    simp only [World.step] at hstep
    split at hstep
    case isTrue => cases hstep
    case isFalse hguard =>
      cases hstep
      simp only [Bool.or_eq_true, Bool.not_eq_true', not_or, Bool.not_eq_false] at hguard
      obtain ⟨⟨hstreaming, hfresh⟩, hnew⟩ := hguard
      exact h.requested hids hissued
        (fun hmem => hnew ((isAmong_iff hids h.resolved hissued).mpr hmem)) hstreaming
        (fun hmem => hfresh ((isAmong_iff hids h.delivered hissued).mpr hmem))
  | resolved r frameId =>
    simp only [World.step] at hstep
    split at hstep
    · cases hstep
    · cases hstep
      exact h.settled hids hissued frameId
  | resolvedUnseen r =>
    simp only [World.step] at hstep
    split at hstep
    case isTrue => cases hstep
    case isFalse hguard =>
      cases hstep
      simp only [Bool.or_eq_true, not_or, Bool.not_eq_true] at hguard
      exact h.resolvedUnseen hissued hguard.1 hkeeps
  | queue s frameId items =>
    simp only [World.step] at hstep
    split at hstep
    · cases hstep
    · cases hstep
      exact h.plain rfl (fun hs => hs.queue frameId items) fun _ => rfl
  | subscribed s frameId lastSeq =>
    simp only [World.step] at hstep
    split at hstep
    · cases hstep
    · cases hstep
      exact h.plain rfl BufferOf.subscribed fun _ => rfl
  | get s =>
    cases hstep
    exact h.get hids s
  | open_ s =>
    cases hstep
    exact h.onSession fun session _ =>
      ⟨Session.open_sessionId session, .inl (Session.open_pending session)⟩
  | finishOpen s generation ok =>
    cases hstep
    exact h.onSession fun session _ => ⟨(Session.finishOpen_same session generation ok).1,
      .inl (Session.finishOpen_same session generation ok).2⟩
  | releaseOpen s generation =>
    cases hstep
    exact h.onSession fun session _ => ⟨(Session.releaseOpen_same session generation).1,
      .inl (Session.releaseOpen_same session generation).2⟩
  | select s =>
    obtain ⟨m, hselect, rfl⟩ := Option.map_eq_some_iff.mp hstep
    simp only [SessionManager.select] at hselect
    split at hselect
    · cases hselect
    · cases hselect
      exact h.navigate hkeeps
  | selectSubagent address =>
    obtain ⟨m, hselect, rfl⟩ := Option.map_eq_some_iff.mp hstep
    unfold SessionManager.selectSubagent at hselect
    split at hselect
    · cases hselect
    split at hselect
    · cases hselect
      exact h.navigate hkeeps
    · cases hselect
  | catalogArrives parent catalog =>
    cases hstep
    exact h.catalogArrives parent catalog
  | listArrives summaries =>
    cases hstep
    exact h.instances (fun _ => rfl) rfl (fun _ hnone => hnone)
      fun _ session hget => ⟨session, hget, rfl, .inl rfl⟩
  | handleConnected =>
    simp only [World.step] at hstep
    split at hstep
    · cases hstep
      exact h.handleConnected hkeeps
    · cases hstep
  | handleDisconnected =>
    cases hstep
    exact h.handleDisconnected

end

end ClientSessions

end Harness
