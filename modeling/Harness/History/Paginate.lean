-- SUMMARY: Message-boundary pagination of a session history (`apiproxy/src/api-proxy.ts`): pages tile the log, and keep a message with what it cites exactly when no group reaches into another.
import Harness.Session.SurfaceFold

/-!
# History pages

A client asks for the newest page, then again and again for the page before the first event it
has. A page is cut at the start of a message group: a message and the earlier events it cites.
-/

namespace Harness

open List
namespace History

/-! ## One page -/

def MESSAGE_TYPES : List JsString := ["user/message", "assistant/message"]

/-- An append-origin conversation message: replacement copies consume no quota. -/
def isConversationMessage (event : SessionEvent) : Bool :=
  MESSAGE_TYPES.contains event.type && isAppendSurfaceEvent event

/-- `sourceEventSeqs` of an admitted event. -/
def citedSeqs (event : SessionEvent) : List Nat :=
  match event.sourceEventSeqs with
  | some (.arr raw) => raw.filterMap asEventSeq
  | _ => []

/-- Where the group of a message starts: `Math.min(event.seq, ...sources)`. -/
def groupStart (event : SessionEvent) : Nat := (citedSeqs event).foldl min event.seq

/-- The loop from the end of the window: the group start of the `maxMessages`-th message. -/
def findCut (maxMessages : Nat) : List SessionEvent → Nat → Nat
  | [], _ => 0
  | event :: rest, count =>
    if !isConversationMessage event then findCut maxMessages rest count
    else if count + 1 ≥ maxMessages then groupStart event
    else findCut maxMessages rest (count + 1)

structure HistoryPage where
  events : List SessionEvent
  hasMore : Bool

def paginate (events : List SessionEvent) (beforeSeq : Option Nat) (maxMessages : Nat) :
    HistoryPage :=
  let window := match beforeSeq with
    | none => events
    | some beforeSeq => events.filter (·.seq < beforeSeq)
  let cut := findCut maxMessages window.reverse 0
  { events := window.filter (cut ≤ ·.seq), hasMore := cut > 0 }

/-! ## Paging back -/

/-- The pages a client gets from `beforeSeq` on, the newest first: while there is more, it asks for
what is before the first event of the last page. -/
inductive PagedBack (events : List SessionEvent) (maxMessages : Nat) :
    Option Nat → List HistoryPage → Prop where
  | last {beforeSeq} : (paginate events beforeSeq maxMessages).hasMore = false →
      PagedBack events maxMessages beforeSeq [paginate events beforeSeq maxMessages]
  | more {beforeSeq event older} : (paginate events beforeSeq maxMessages).hasMore = true →
      (paginate events beforeSeq maxMessages).events.head? = some event →
      PagedBack events maxMessages (some event.seq) older →
      PagedBack events maxMessages beforeSeq (paginate events beforeSeq maxMessages :: older)

/-- A log whose events stand at their own seqs. -/
def Contiguous (log : List SessionEvent) : Prop :=
  ∀ (seq : Nat) (event : SessionEvent), log[seq]? = some event → event.seq = seq

/-! ## The cut -/

theorem foldl_min_le (seqs : List Nat) (start : Nat) :
    seqs.foldl min start ≤ start ∧ ∀ seq ∈ seqs, seqs.foldl min start ≤ seq := by
  induction seqs generalizing start with
  | nil => simp
  | cons seq seqs ih =>
    obtain ⟨hstart, hrest⟩ := ih (min start seq)
    refine ⟨Nat.le_trans hstart (Nat.min_le_left _ _), fun other hmem => ?_⟩
    rcases mem_cons.mp hmem with rfl | hmem
    · exact Nat.le_trans hstart (Nat.min_le_right _ _)
    · exact hrest other hmem

theorem le_foldl_min {seqs : List Nat} {start bound : Nat} (hstart : bound ≤ start)
    (hseqs : ∀ seq ∈ seqs, bound ≤ seq) : bound ≤ seqs.foldl min start := by
  induction seqs generalizing start with
  | nil => exact hstart
  | cons seq seqs ih =>
    apply ih
    · exact Nat.le_min.mpr ⟨hstart, hseqs seq mem_cons_self⟩
    · exact fun other hmem => hseqs other (mem_cons_of_mem _ hmem)

theorem groupStart_le (event : SessionEvent) : groupStart event ≤ event.seq :=
  (foldl_min_le _ _).1

/-- A group starts at or after a bound exactly when its message and everything it cites does. -/
theorem le_groupStart_iff {event : SessionEvent} {bound : Nat} (hevent : bound ≤ event.seq) :
    bound ≤ groupStart event ↔ ∀ seq ∈ citedSeqs event, bound ≤ seq := by
  constructor
  · exact fun h seq hmem => Nat.le_trans h ((foldl_min_le _ _).2 seq hmem)
  · exact le_foldl_min hevent

/-- The loop stops at the message that fills the page, or runs out. -/
theorem findCut_spec (maxMessages : Nat) (newestFirst : List SessionEvent) {count : Nat}
    (hcount : count < maxMessages) :
    (newestFirst.countP isConversationMessage + count < maxMessages
        ∧ findCut maxMessages newestFirst count = 0)
      ∨ ∃ newer event older, newestFirst = newer ++ event :: older
          ∧ isConversationMessage event = true
          ∧ (newer ++ [event]).countP isConversationMessage + count = maxMessages
          ∧ findCut maxMessages newestFirst count = groupStart event := by
  induction newestFirst generalizing count with
  | nil => exact .inl ⟨by simpa using hcount, rfl⟩
  | cons event rest ih =>
    rw [findCut]
    cases hmessage : isConversationMessage event with
    | false =>
      rw [Bool.not_false, if_pos rfl, countP_cons_of_neg (by simp [hmessage])]
      apply (ih hcount).imp_right
      rintro ⟨newer, found, older, rfl, hfound, hfull, hcut⟩
      refine ⟨event :: newer, found, older, rfl, hfound, ?_, hcut⟩
      rwa [cons_append, countP_cons_of_neg (by simp [hmessage])]
    | true =>
      rw [Bool.not_true, if_neg Bool.false_ne_true, countP_cons_of_pos hmessage]
      split
      · rename_i hfull
        refine .inr ⟨[], event, rest, rfl, hmessage, ?_, rfl⟩
        rw [nil_append, countP_singleton, if_pos hmessage]
        omega
      · rename_i hmore
        rcases @ih (count + 1) (by omega) with ⟨hless, hcut⟩ | ⟨newer, found, older, hsplit⟩
        · exact .inl ⟨by omega, hcut⟩
        obtain ⟨rfl, hfound, hfull, hcut⟩ := hsplit
        refine .inr ⟨event :: newer, found, older, rfl, hfound, ?_, hcut⟩
        rw [cons_append, countP_cons_of_pos hmessage]
        omega

end History

end Harness

namespace Harness

open List
namespace History

/-! ## Contiguous logs -/

section
variable {log : List SessionEvent} (hlog : Contiguous log)
include hlog

theorem Contiguous.take (b : Nat) : Contiguous (log.take b) := by
  intro seq event hevent
  rw [getElem?_take] at hevent
  split at hevent
  · exact hlog seq event hevent
  · cases hevent

theorem Contiguous.seq_lt {b : Nat} {event : SessionEvent} (h : event ∈ log.take b) :
    event.seq < b := by
  obtain ⟨seq, hseq⟩ := mem_iff_getElem?.mp h
  rw [hlog.take b seq event hseq]
  rw [getElem?_take] at hseq
  split at hseq
  · assumption
  · cases hseq

theorem Contiguous.le_seq {c : Nat} {event : SessionEvent} (h : event ∈ log.drop c) :
    c ≤ event.seq := by
  obtain ⟨seq, hseq⟩ := mem_iff_getElem?.mp h
  rw [getElem?_drop] at hseq
  rw [hlog _ event hseq]
  exact Nat.le_add_right _ _

theorem Contiguous.filter_lt (b : Nat) : (log.filter fun event => event.seq < b) = log.take b := by
  conv => lhs; rw [← take_append_drop b log]
  rw [filter_append, filter_eq_self.mpr, filter_eq_nil_iff.mpr, append_nil]
  · intro event hmem
    have hle := hlog.le_seq hmem
    simpa using hle
  · intro event hmem
    exact decide_eq_true (hlog.seq_lt hmem)

theorem Contiguous.filter_le (c : Nat) : (log.filter fun event => c ≤ event.seq) = log.drop c := by
  have hbefore : ((log.take c).filter fun event => c ≤ event.seq) = [] := by
    apply filter_eq_nil_iff.mpr
    intro event hmem
    have hlt := hlog.seq_lt hmem
    simpa using hlt
  have hafter : ((log.drop c).filter fun event => c ≤ event.seq) = log.drop c := by
    apply filter_eq_self.mpr
    intro event hmem
    exact decide_eq_true (hlog.le_seq hmem)
  conv => lhs; rw [← take_append_drop c log]
  rw [filter_append, hbefore, hafter, nil_append]

end

/-! ## Windows -/

/-- Where the newest page of the first `b` events is cut. -/
def cutOf (log : List SessionEvent) (maxMessages b : Nat) : Nat :=
  findCut maxMessages (log.take b).reverse 0

/-- The newest page of the first `b` events. -/
def pageOf (log : List SessionEvent) (maxMessages b : Nat) : HistoryPage where
  events := (log.take b).drop (cutOf log maxMessages b)
  hasMore := cutOf log maxMessages b > 0

/-- How many events a request reads. -/
def windowEnd (log : List SessionEvent) : Option Nat → Nat
  | none => log.length
  | some beforeSeq => beforeSeq

section
variable {log : List SessionEvent} {maxMessages b : Nat}

theorem paginate_eq (hlog : Contiguous log) (beforeSeq : Option Nat) :
    paginate log beforeSeq maxMessages = pageOf log maxMessages (windowEnd log beforeSeq) := by
  cases beforeSeq with
  | none =>
    have hall : log.take log.length = log := take_length
    simp only [paginate, pageOf, cutOf, windowEnd, hall, hlog.filter_le]
  | some b =>
    simp only [paginate, pageOf, cutOf, windowEnd, hlog.filter_lt]
    rw [(hlog.take b).filter_le]
    rfl

/-- The message that fills the newest page of the first `b` events. -/
def FillsPage (log : List SessionEvent) (maxMessages b : Nat) (event : SessionEvent) : Prop :=
  isConversationMessage event = true ∧ event ∈ log ∧ event.seq < b
    ∧ ((log.take b).drop event.seq).countP isConversationMessage = maxMessages

theorem cutOf_spec (hlog : Contiguous log) (hmax : 0 < maxMessages) (b : Nat) :
    ((log.take b).countP isConversationMessage < maxMessages ∧ cutOf log maxMessages b = 0)
      ∨ ∃ event, FillsPage log maxMessages b event ∧ cutOf log maxMessages b = groupStart event := by
  rcases findCut_spec maxMessages (log.take b).reverse hmax with ⟨hless, hcut⟩ | hfilled
  · refine .inl ⟨?_, hcut⟩
    rwa [countP_reverse] at hless
  obtain ⟨newer, event, older, hsplit, hmessage, hfull, hcut⟩ := hfilled
  have hwindow : log.take b = older.reverse ++ event :: newer.reverse := by
    rw [← reverse_reverse (log.take b), hsplit]
    simp
  have hseq : event.seq = older.length := by
    apply hlog.take b
    rw [hwindow, getElem?_append_right (by simp)]
    simp
  refine .inr ⟨event, ⟨hmessage, ?_, ?_, ?_⟩, hcut⟩
  · apply mem_of_mem_take (i := b)
    rw [hwindow]
    simp
  · apply hlog.seq_lt
    rw [hwindow]
    simp
  · rw [hwindow, hseq, ← length_reverse, drop_left, ← hfull,
      ← countP_reverse]
    simp

theorem cutOf_lt (hlog : Contiguous log) (hmax : 0 < maxMessages) (hpos : 0 < cutOf log maxMessages b) :
    cutOf log maxMessages b < b ∧ cutOf log maxMessages b < log.length := by
  rcases cutOf_spec hlog hmax b with ⟨-, hcut⟩ | ⟨event, ⟨-, hmem, hlt, -⟩, hcut⟩
  · omega
  have hle := groupStart_le event
  obtain ⟨seq, hseq⟩ := mem_iff_getElem?.mp hmem
  have hlength := (List.getElem?_eq_some_iff.mp hseq).1
  have := hlog seq event hseq
  omega

end

/-! ## The pages of one client -/

/-- How many events the requests of a client read: all of them at first, then those before the
group of the message that filled the page. -/
inductive Window (log : List SessionEvent) (maxMessages : Nat) : Nat → Prop where
  | all : Window log maxMessages log.length
  | older {b event} : Window log maxMessages b → FillsPage log maxMessages b event →
      Window log maxMessages (groupStart event)

section
variable {log : List SessionEvent} {maxMessages b : Nat}

section

variable (hlog : Contiguous log)
include hlog

section

variable (hmax : 0 < maxMessages)
include hmax

theorem head_pageOf (hpos : 0 < cutOf log maxMessages b) :
    ∃ event, (pageOf log maxMessages b).events.head? = some event
      ∧ event.seq = cutOf log maxMessages b := by
  obtain ⟨hlt, hlength⟩ := cutOf_lt hlog hmax hpos
  refine ⟨log[cutOf log maxMessages b], ?_, hlog _ _ (getElem?_eq_getElem hlength)⟩
  rw [pageOf, head?_drop, getElem?_take, if_pos hlt, getElem?_eq_getElem hlength]

/-- The request after a page that has more reads what is before its cut. -/
theorem PagedBack.windowEnd_next
    {beforeSeq : Option Nat} {event : SessionEvent}
    (hmore : (paginate log beforeSeq maxMessages).hasMore = true)
    (hhead : (paginate log beforeSeq maxMessages).events.head? = some event) :
    0 < cutOf log maxMessages (windowEnd log beforeSeq)
      ∧ event.seq = cutOf log maxMessages (windowEnd log beforeSeq) := by
  rw [paginate_eq hlog] at hmore hhead
  have hpos : 0 < cutOf log maxMessages (windowEnd log beforeSeq) := of_decide_eq_true hmore
  obtain ⟨event', hhead', hseq⟩ := head_pageOf hlog hmax hpos
  rw [hhead] at hhead'
  rw [Option.some.inj hhead']
  exact ⟨hpos, hseq⟩

theorem cutOf_le (b : Nat) : cutOf log maxMessages b ≤ b := by
  rcases Nat.eq_zero_or_pos (cutOf log maxMessages b) with hzero | hpos
  · omega
  · exact Nat.le_of_lt (cutOf_lt hlog hmax hpos).1

theorem take_cut_append (b : Nat) :
    log.take (cutOf log maxMessages b) ++ (pageOf log maxMessages b).events = log.take b := by
  have hsplit := take_append_drop (cutOf log maxMessages b) (log.take b)
  rwa [take_take, Nat.min_eq_left (cutOf_le hlog hmax b)] at hsplit

/-- The pages tile what the first request reads. -/
theorem PagedBack.tiles {beforeSeq : Option Nat}
    {pages : List HistoryPage} (h : PagedBack log maxMessages beforeSeq pages) :
    (pages.map HistoryPage.events).reverse.flatten = log.take (windowEnd log beforeSeq) := by
  induction h with
  | @last beforeSeq hlast =>
    rw [paginate_eq hlog] at hlast ⊢
    have hzero : cutOf log maxMessages (windowEnd log beforeSeq) = 0 := by
      have hnot := of_decide_eq_false hlast
      omega
    have hall := take_cut_append hlog hmax (windowEnd log beforeSeq)
    rw [hzero, take_zero, nil_append] at hall
    simpa using hall
  | @more beforeSeq event older hmore hhead _ ih =>
    obtain ⟨-, hseq⟩ := PagedBack.windowEnd_next hlog hmax hmore hhead
    rw [map_cons, reverse_cons, flatten_append, ih, paginate_eq hlog,
      flatten_singleton, windowEnd, hseq, take_cut_append hlog hmax]

/-- A client comes to its last page, from wherever it starts. -/
theorem exists_pagedBack (beforeSeq : Option Nat) :
    ∃ pages, PagedBack log maxMessages beforeSeq pages := by
  induction hb : windowEnd log beforeSeq using Nat.strongRecOn generalizing beforeSeq with
  | _ b ih =>
    cases hmore : (paginate log beforeSeq maxMessages).hasMore with
    | false => exact ⟨_, .last hmore⟩
    | true =>
      have hpos : 0 < cutOf log maxMessages (windowEnd log beforeSeq) := by
        rw [paginate_eq hlog] at hmore
        exact of_decide_eq_true hmore
      obtain ⟨event, hhead, hseq⟩ := head_pageOf hlog hmax hpos
      rw [← paginate_eq hlog] at hhead
      have hlt := (cutOf_lt hlog hmax hpos).1
      obtain ⟨older, holder⟩ := ih event.seq (by omega) (some event.seq) rfl
      exact ⟨_, .more hmore hhead holder⟩

end

end

/-- Each page is the newest one of a window, and the pages after it tile what is before it. -/
theorem PagedBack.page {beforeSeq : Option Nat} {pages newer older : List HistoryPage}
    {page : HistoryPage} (hlog : Contiguous log) (hmax : 0 < maxMessages)
    (h : PagedBack log maxMessages beforeSeq pages)
    (hwindow : Window log maxMessages (windowEnd log beforeSeq))
    (hinside : 0 < windowEnd log beforeSeq ∨ log = []) (hsplit : pages = newer ++ page :: older) :
    ∃ b, Window log maxMessages b ∧ (0 < b ∨ log = []) ∧ page = pageOf log maxMessages b
      ∧ (older.map HistoryPage.events).reverse.flatten = log.take (cutOf log maxMessages b)
      ∧ (older ≠ [] → 0 < cutOf log maxMessages b) := by
  induction h generalizing newer with
  | @last beforeSeq hlast =>
    cases newer with
    | nil =>
      obtain ⟨rfl, rfl⟩ := cons_eq_cons.mp hsplit
      refine ⟨_, hwindow, hinside, paginate_eq hlog beforeSeq, ?_, fun hne => absurd rfl hne⟩
      rw [paginate_eq hlog] at hlast
      have hzero : cutOf log maxMessages (windowEnd log beforeSeq) = 0 := by
        have hnot := of_decide_eq_false hlast
        omega
      rw [hzero]
      rfl
    | cons first newer => simp at hsplit
  | @more beforeSeq event rest hmore hhead hrest ih =>
    obtain ⟨hpos, hseq⟩ := PagedBack.windowEnd_next hlog hmax hmore hhead
    cases newer with
    | nil =>
      obtain ⟨rfl, rfl⟩ := cons_eq_cons.mp hsplit
      refine ⟨_, hwindow, hinside, paginate_eq hlog beforeSeq, ?_, fun _ => hpos⟩
      rw [hrest.tiles hlog hmax, windowEnd, hseq]
    | cons first newer =>
      apply ih _ _ (cons_eq_cons.mp hsplit).2
      · rw [windowEnd, hseq]
        rcases cutOf_spec hlog hmax (windowEnd log beforeSeq) with ⟨-, hzero⟩ | hfilled
        · omega
        obtain ⟨filler, hfills, hcut⟩ := hfilled
        rw [hcut]
        exact .older hwindow hfills
      · exact .inl (by rw [windowEnd, hseq]; exact hpos)

end

/-! ## Every page -/

/-- The pages tile the log, each says whether events precede it, and all but the oldest are full. -/
structure WellPaged (log : List SessionEvent) (maxMessages : Nat) (pages : List HistoryPage) :
    Prop where
  tiles : (pages.map HistoryPage.events).reverse.flatten = log
  hasMore : ∀ newer page older, pages = newer ++ page :: older →
    (page.hasMore = true ↔ ∃ event ∈ log, ∀ shown ∈ page.events, event.seq < shown.seq)
  full : ∀ newer page older, pages = newer ++ page :: older → older ≠ [] →
    maxMessages ≤ page.events.countP isConversationMessage

/-- No message on a page cites an event on an older page. -/
def KeepsGroups (pages : List HistoryPage) : Prop :=
  ∀ newer page older, pages = newer ++ page :: older →
    ∀ event ∈ page.events, isConversationMessage event = true →
      ∀ before ∈ older, ∀ cited ∈ before.events, cited.seq ∉ citedSeqs event

/-- From the start of the group that fills a page on, no message of that page's window cites
anything before the group. -/
def WindowsKeepGroups (log : List SessionEvent) (maxMessages : Nat) : Prop :=
  ∀ b filler, Window log maxMessages b → FillsPage log maxMessages b filler →
    ∀ event ∈ log, isConversationMessage event = true →
      groupStart filler ≤ event.seq → event.seq < b → groupStart filler ≤ groupStart event

/-- From the start of a message's group on, no message cites anything before the group. -/
def GroupsNest (log : List SessionEvent) : Prop :=
  ∀ message ∈ log, isConversationMessage message = true →
    ∀ event ∈ log, isConversationMessage event = true →
      groupStart message ≤ event.seq → groupStart message ≤ groupStart event

section
variable {log : List SessionEvent} {maxMessages b : Nat}

theorem mem_pageOf (hlog : Contiguous log) {event : SessionEvent} :
    event ∈ (pageOf log maxMessages b).events ↔
      event ∈ log ∧ cutOf log maxMessages b ≤ event.seq ∧ event.seq < b := by
  constructor
  · intro hmem
    exact ⟨mem_of_mem_take (mem_of_mem_drop hmem), (hlog.take b).le_seq hmem,
      hlog.seq_lt (mem_of_mem_drop hmem)⟩
  · rintro ⟨hmem, hle, hlt⟩
    rw [pageOf, ← (hlog.take b).filter_le, ← hlog.filter_lt]
    simp [hmem, hle, hlt]

theorem FillsPage.cutOf_eq (hlog : Contiguous log) (hmax : 0 < maxMessages) {event : SessionEvent}
    (h : FillsPage log maxMessages b event) : cutOf log maxMessages b = groupStart event := by
  have hcount {earlier later : SessionEvent} (hearlier : FillsPage log maxMessages b earlier)
      (hlater : FillsPage log maxMessages b later) : ¬ earlier.seq < later.seq := by
    intro hlt
    obtain ⟨hmessage, hmem, hbefore, hfull⟩ := hearlier
    obtain ⟨-, -, -, hfull'⟩ := hlater
    have hget : (log.take b)[earlier.seq]? = some earlier := by
      obtain ⟨seq, hseq⟩ := mem_iff_getElem?.mp hmem
      have hsame := hlog seq earlier hseq
      rw [getElem?_take, if_pos hbefore, hsame, hseq]
    obtain ⟨hlength, hget⟩ := List.getElem?_eq_some_iff.mp hget
    rw [drop_eq_getElem_cons hlength, hget, countP_cons_of_pos hmessage] at hfull
    have hsub : ((log.take b).drop later.seq).Sublist ((log.take b).drop (earlier.seq + 1)) := by
      rw [show later.seq = earlier.seq + 1 + (later.seq - (earlier.seq + 1)) by omega,
        ← drop_drop]
      exact drop_sublist _ _
    have hle := hsub.countP_le (p := isConversationMessage)
    omega
  rcases cutOf_spec hlog hmax b with ⟨hless, -⟩ | ⟨filler, hfills, hcut⟩
  · obtain ⟨-, -, -, hfull⟩ := h
    have hle := (drop_sublist event.seq (log.take b)).countP_le (p := isConversationMessage)
    omega
  have hsame : filler.seq = event.seq :=
    Nat.le_antisymm (Nat.le_of_not_lt (hcount h hfills)) (Nat.le_of_not_lt (hcount hfills h))
  obtain ⟨seq, hseq⟩ := mem_iff_getElem?.mp h.2.1
  obtain ⟨seq', hseq'⟩ := mem_iff_getElem?.mp hfills.2.1
  have heq : seq = seq' := by
    rw [← hlog seq event hseq, ← hlog seq' filler hseq', hsame]
  rw [heq, hseq'] at hseq
  rw [hcut, Option.some.inj hseq]

theorem PagedBack.wellPaged (hlog : Contiguous log) (hmax : 0 < maxMessages)
    {pages : List HistoryPage} (h : PagedBack log maxMessages none pages) :
    WellPaged log maxMessages pages := by
  have hinside : 0 < windowEnd log none ∨ log = [] := by
    cases log with
    | nil => exact .inr rfl
    | cons event log => exact .inl (Nat.succ_pos _)
  refine ⟨?_, fun newer page older hsplit => ?_, fun newer page older hsplit hne => ?_⟩
  · rw [h.tiles hlog hmax]
    exact take_length
  · obtain ⟨b, -, hb, rfl, -, -⟩ := h.page hlog hmax .all hinside hsplit
    constructor
    · intro hmore
      have hpos : 0 < cutOf log maxMessages b := of_decide_eq_true hmore
      have hlength := (cutOf_lt hlog hmax hpos).2
      obtain ⟨first, hfirst⟩ : ∃ first, log[0]? = some first :=
        ⟨_, getElem?_eq_getElem (by omega)⟩
      refine ⟨first, mem_of_getElem? hfirst, fun shown hshown => ?_⟩
      have hle := (mem_pageOf hlog).mp hshown
      have := hlog 0 _ hfirst
      omega
    · rintro ⟨event, hmem, hbefore⟩
      apply decide_eq_true
      by_contra hnot
      have hlength := length_pos_of_mem hmem
      obtain ⟨first, hfirst⟩ : ∃ first, log[0]? = some first :=
        ⟨_, getElem?_eq_getElem hlength⟩
      have hzero := hlog 0 _ hfirst
      have hshown : first ∈ (pageOf log maxMessages b).events := by
        refine (mem_pageOf hlog).mpr ⟨mem_of_getElem? hfirst, by omega, ?_⟩
        rcases hb with hb | rfl
        · omega
        · cases hmem
      have := hbefore _ hshown
      omega
  · obtain ⟨b, -, -, rfl, -, hpos⟩ := h.page hlog hmax .all hinside hsplit
    rcases cutOf_spec hlog hmax b with ⟨-, hzero⟩ | ⟨filler, hfills, hcut⟩
    · have := hpos hne
      omega
    have hle := groupStart_le filler
    have hsub : ((log.take b).drop filler.seq).Sublist ((log.take b).drop (groupStart filler)) := by
      rw [show filler.seq = groupStart filler + (filler.seq - groupStart filler) by omega,
        ← drop_drop]
      exact drop_sublist _ _
    rw [pageOf, hcut, ← hfills.2.2.2]
    exact hsub.countP_le

end

/-! ## Groups -/

section
variable {log : List SessionEvent} {maxMessages b : Nat}

/-- What is before the first event of a page that has more is on the next page. -/
theorem PagedBack.next {beforeSeq : Option Nat} {pages : List HistoryPage} (hlog : Contiguous log)
    (hmax : 0 < maxMessages) (h : PagedBack log maxMessages beforeSeq pages)
    (hpage : pageOf log maxMessages b ∈ pages) (hpos : 0 < cutOf log maxMessages b) :
    pageOf log maxMessages (cutOf log maxMessages b) ∈ pages := by
  obtain ⟨first, hfirst, hseq⟩ := head_pageOf hlog hmax hpos
  have hnext {beforeSeq older} (h : PagedBack log maxMessages (some beforeSeq) older) :
      pageOf log maxMessages beforeSeq ∈ older := by
    have hpage := @paginate_eq log maxMessages hlog (some beforeSeq)
    cases h <;> rw [hpage] <;> exact mem_cons_self
  induction h with
  | @last beforeSeq hlast =>
    rw [← mem_singleton.mp hpage] at hlast
    exact absurd hpos (of_decide_eq_false hlast)
  | @more beforeSeq event older hmore hhead holder ih =>
    apply mem_cons_of_mem
    rcases mem_cons.mp hpage with hsame | hmem
    · rw [← hsame, hfirst] at hhead
      rw [← hseq, Option.some.inj hhead]
      exact hnext holder
    · exact ih hmem

/-- Every window has its newest page shown. -/
theorem PagedBack.shows {pages : List HistoryPage} (hlog : Contiguous log) (hmax : 0 < maxMessages)
    (h : PagedBack log maxMessages none pages) (hwindow : Window log maxMessages b)
    (hb : 0 < b ∨ log = []) : pageOf log maxMessages b ∈ pages := by
  induction hwindow with
  | all =>
    have hpage := @paginate_eq log maxMessages hlog none
    rw [windowEnd] at hpage
    cases h <;> rw [hpage] <;> exact mem_cons_self
  | @older b filler hwindow hfills ih =>
    have hcut := hfills.cutOf_eq hlog hmax
    have hlt : filler.seq < b := hfills.2.2.1
    have hpos : 0 < cutOf log maxMessages b := by
      rcases hb with hb | rfl
      · rwa [hcut]
      · cases hfills.2.1
    rw [← hcut]
    exact h.next hlog hmax (ih (.inl (by omega))) hpos

theorem PagedBack.keepsGroups_iff {pages : List HistoryPage} (hlog : Contiguous log)
    (hmax : 0 < maxMessages) (h : PagedBack log maxMessages none pages) :
    KeepsGroups pages ↔ WindowsKeepGroups log maxMessages := by
  have hinside : 0 < windowEnd log none ∨ log = [] := by
    cases log with
    | nil => exact .inr rfl
    | cons event log => exact .inl (Nat.succ_pos _)
  constructor
  · intro hkeeps b filler hwindow hfills event hmem hmessage hle hlt
    rw [le_groupStart_iff hle]
    intro seq hcited
    by_contra hearlier
    have hcut := hfills.cutOf_eq hlog hmax
    have hpos : 0 < cutOf log maxMessages b := by omega
    obtain ⟨newer, older, hsplit⟩ :=
      append_of_mem (h.shows hlog hmax hwindow (.inl (by omega)))
    obtain ⟨b', -, -, hpage, htiles, -⟩ := h.page hlog hmax .all hinside hsplit
    have hsame : cutOf log maxMessages b' = cutOf log maxMessages b := by
      obtain ⟨first, hfirst, hseq⟩ := head_pageOf hlog hmax hpos
      have hpos' : 0 < cutOf log maxMessages b' := by
        have hmore := congrArg HistoryPage.hasMore hpage
        exact of_decide_eq_true (hmore.symm.trans (decide_eq_true hpos))
      obtain ⟨first', hfirst', hseq'⟩ := head_pageOf hlog hmax hpos'
      rw [← hpage, hfirst] at hfirst'
      rw [← hseq, ← hseq', Option.some.inj hfirst']
    rw [hsame, hcut] at htiles
    have hlength := (cutOf_lt hlog hmax hpos).2
    obtain ⟨cited, hget⟩ : ∃ cited, log[seq]? = some cited :=
      ⟨_, getElem?_eq_getElem (by omega)⟩
    have hshown : cited ∈ (older.map HistoryPage.events).reverse.flatten := by
      rw [htiles, ← hlog.filter_lt]
      simp only [mem_filter, mem_of_getElem? hget, true_and, decide_eq_true_eq]
      have := hlog seq _ hget
      omega
    obtain ⟨events, hevents, hshown⟩ := mem_flatten.mp hshown
    obtain ⟨before, hbefore, rfl⟩ := List.mem_map.mp (mem_reverse.mp hevents)
    refine hkeeps newer _ older hsplit event ?_ hmessage before hbefore _ hshown ?_
    · exact (mem_pageOf hlog).mpr ⟨hmem, by omega, hlt⟩
    · rwa [hlog seq _ hget]
  · intro hwindows newer page older hsplit event hevent hmessage before hbefore cited hshown hcited
    obtain ⟨b, hwindow, -, rfl, htiles, -⟩ := h.page hlog hmax .all hinside hsplit
    have hearlier : cited ∈ log.take (cutOf log maxMessages b) := by
      rw [← htiles]
      refine mem_flatten.mpr ⟨before.events, ?_, hshown⟩
      exact mem_reverse.mpr (List.mem_map_of_mem hbefore)
    have hlt := hlog.seq_lt hearlier
    obtain ⟨hmem, hle, hbefore⟩ := (mem_pageOf hlog).mp hevent
    rcases cutOf_spec hlog hmax b with ⟨-, hzero⟩ | ⟨filler, hfills, hcut⟩
    · omega
    rw [hcut] at hle hlt
    have hgroup := hwindows b filler hwindow hfills event hmem hmessage hle hbefore
    have := (le_groupStart_iff hle).mp hgroup _ hcited
    omega

/-- A client pages back through the log page by page, and no page cuts a group. -/
def PagesWell (log : List SessionEvent) (maxMessages : Nat) : Prop :=
  ∃ pages, PagedBack log maxMessages none pages ∧ WellPaged log maxMessages pages
    ∧ KeepsGroups pages

theorem pagesWell_iff (hlog : Contiguous log) (hmax : 0 < maxMessages) :
    PagesWell log maxMessages ↔ WindowsKeepGroups log maxMessages := by
  constructor
  · rintro ⟨pages, hpaged, -, hkeeps⟩
    exact (hpaged.keepsGroups_iff hlog hmax).mp hkeeps
  intro hwindows
  obtain ⟨pages, hpaged⟩ := exists_pagedBack hlog hmax none
  exact ⟨pages, hpaged, hpaged.wellPaged hlog hmax,
    (hpaged.keepsGroups_iff hlog hmax).mpr hwindows⟩

theorem windowsKeepGroups_iff (hlog : Contiguous log) :
    (∀ maxMessages, 0 < maxMessages → WindowsKeepGroups log maxMessages) ↔ GroupsNest log := by
  constructor
  · intro h message hmem hmessage event hevent hconversation hle
    obtain ⟨seq, hget⟩ := mem_iff_getElem?.mp hmem
    have hseq := hlog seq message hget
    obtain ⟨hlength, hget⟩ := List.getElem?_eq_some_iff.mp hget
    have hpos : 0 < (log.drop message.seq).countP isConversationMessage := by
      rw [hseq, drop_eq_getElem_cons hlength, hget, countP_cons_of_pos hmessage]
      omega
    have hfills : FillsPage log ((log.drop message.seq).countP isConversationMessage) log.length
        message :=
      ⟨hmessage, hmem, by omega, by rw [take_length]⟩
    have hlast : event.seq < log.length := by
      obtain ⟨seq', hget'⟩ := mem_iff_getElem?.mp hevent
      rw [hlog seq' event hget']
      exact (List.getElem?_eq_some_iff.mp hget').1
    exact h _ hpos log.length message .all hfills event hevent hconversation hle hlast
  · intro h maxMessages _ b filler _ hfills event hmem hmessage hle _
    exact h filler hfills.2.1 hfills.1 event hmem hmessage hle

end

/-! ## Every log -/

/-- Paging back through a session log tiles it with full pages; it cuts no group exactly when no
message from the start of another one's group on cites anything before that group. -/
theorem paging_iff {log : List SessionEvent} {state : SurfaceFoldState}
    {replacements : List SurfaceFoldReplacement} (haccepts : SurfaceAccepts log state replacements) :
    (∀ maxMessages, 0 < maxMessages →
        (∃ pages, PagedBack log maxMessages none pages)
          ∧ (∀ pages, PagedBack log maxMessages none pages →
              WellPaged log maxMessages pages
                ∧ (KeepsGroups pages ↔ WindowsKeepGroups log maxMessages)))
      ∧ ((∀ maxMessages, 0 < maxMessages → PagesWell log maxMessages) ↔ GroupsNest log) := by
  have hlog : Contiguous log := fun _ _ hevent => haccepts.seq_eq hevent
  refine ⟨fun maxMessages hmax => ⟨exists_pagedBack hlog hmax none, fun pages hpaged => ?_⟩, ?_⟩
  · exact ⟨hpaged.wellPaged hlog hmax, hpaged.keepsGroups_iff hlog hmax⟩
  · rw [← windowsKeepGroups_iff hlog]
    exact forall_congr' fun maxMessages => imp_congr_right fun hmax => pagesWell_iff hlog hmax

/-- A chunk of an answer, a user message, and the answer, which cites its chunk. -/
def steered : List SessionEvent :=
  [{ seq := 0, time := 0, data := .assistantChunk 1 1 (.textDelta (.int 0) ⟨[97]⟩) },
    { seq := 1, time := 0, data := .userMessage ⟨⟨[117]⟩, [], .user⟩
      surfaceOp := some (.str "append") },
    { seq := 2, time := 0
      data := .assistantMessage 1 1 ⟨⟨[109]⟩, [.text ⟨[97]⟩], ⟨⟨[112]⟩, ⟨[109]⟩, none⟩⟩ none
      surfaceOp := some (.str "append"), sourceEventSeqs := some (.arr [Json.ofNat 0]) }]

theorem steered_accepted : ∃ state, SurfaceAccepts steered state [] := by
  have hfold : foldSurface steered = .ok ⟨[1, 2], []⟩ := rfl
  obtain ⟨state, haccepts, -⟩ := foldSurface_ok_iff.mp hfold
  exact ⟨state, haccepts⟩

theorem paging_iff_steered :
    (∀ maxMessages, 0 < maxMessages →
        (∃ pages, PagedBack steered maxMessages none pages)
          ∧ (∀ pages, PagedBack steered maxMessages none pages →
              WellPaged steered maxMessages pages
                ∧ (KeepsGroups pages ↔ WindowsKeepGroups steered maxMessages)))
      ∧ ((∀ maxMessages, 0 < maxMessages → PagesWell steered maxMessages) ↔ GroupsNest steered) :=
  steered_accepted.elim fun _ haccepts => paging_iff haccepts

/-- With two messages to a page the answer is parted from its chunk. -/
theorem steered_parted :
    ¬ ∀ (log : List SessionEvent) (state : SurfaceFoldState)
        (replacements : List SurfaceFoldReplacement) (maxMessages : Nat),
      SurfaceAccepts log state replacements → 0 < maxMessages → PagesWell log maxMessages := by
  intro h
  obtain ⟨state, haccepts⟩ := steered_accepted
  obtain ⟨pages, hpaged, -, hkeeps⟩ := h steered state [] 2 haccepts (by decide)
  have hlog : Contiguous steered := fun _ _ hevent => haccepts.seq_eq hevent
  have hwindows := (hpaged.keepsGroups_iff hlog (by decide)).mp hkeeps
  have hprompt : steered[1] ∈ steered := getElem_mem _
  have hfills : FillsPage steered 2 3 steered[1] := ⟨by decide, hprompt, by decide, by decide⟩
  have hgroup := hwindows 3 _ .all hfills steered[2] (getElem_mem _) (by decide) (by decide)
    (by decide)
  exact absurd hgroup (by decide)

end History

end Harness
