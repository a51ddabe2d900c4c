-- SUMMARY: One document under any number of processes: exclusion, no lost section, truthful caches, and no orphaned lock.
import Harness.SettingsFile.Provider

/-!
# One document, many processes

The invariant is about one process at a time, but for the lock: whoever holds it has rendered from
the document that is on disk, and nobody else can replace that document meanwhile.
-/

namespace Harness

open List Option Transitions

namespace FileWorld

variable {ι : Type} [DecidableEq ι] {spec : FileSpec} {plain : JsString → Prop}
  {initial : Option JsString} {s s' : FileWorld ι} {p q : ι} {act : Act ι}

/-! ## Histories -/

/-- The document after the commits, newest first. -/
def latestDoc (initial : Option JsString) : List (FileCommit ι) → Option JsString
  | [] => initial
  | commit :: _ => some commit.text

/-- Every commit replaces the document of the one before it. -/
def Chained (initial : Option JsString) : List (FileCommit ι) → Prop
  | [] => True
  | commit :: earlier => commit.before = latestDoc initial earlier ∧ Chained initial earlier

/-- A commit of a section has the sections of the document it replaces but for that one. A commit
without one creates the empty document. -/
def Conserves (spec : FileSpec) (commit : FileCommit ι) : Prop :=
  match commit.section_ with
  | some (ns, _) => ∃ root next, spec.read commit.before = some root ∧
      spec.parse commit.text = some next ∧ FileSpec.OnlyChanges ns root next
  | none => commit.before = none ∧ commit.text = ""

/-! ## The invariant -/

/-- What one process can rely on. -/
structure Local (spec : FileSpec) (s : FileWorld ι) (p : ι) : Prop where
  parses : ∀ text, (s.providers p).text = some text → (spec.parse text).isSome = true
  known : (s.providers p).alive = true → (s.providers p).text ∈ (s.providers p).known
  rendered : ∀ run output, (s.providers p).running = some run →
    (run.stage = .write output ∨ run.stage = .rename output) →
    ∃ ns value, run.job = .persist ns value ∧ (s.providers p).text = s.doc ∧
      spec.render s.doc ns value.1 = some output
  uncommitted : ∀ run, (s.providers p).running = some run → run.committed = true →
    run.stage = .unlock true
  latest : ∀ commit earlier, s.commits = commit :: earlier → commit.by_ = p →
    (s.providers p).alive = true → (s.providers p).text = some commit.text
  stopped : (s.providers p).alive = false → (s.providers p).running = none

structure Inv (spec : FileSpec) (plain : JsString → Prop) (initial : Option JsString)
    (s : FileWorld ι) : Prop where
  exclusive : ∀ p q, (s.providers p).holds = true → (s.providers q).holds = true → p = q
  locked : ∀ p, (s.providers p).holds = true → s.lock = true
  each : ∀ p, Local spec s p
  current : s.doc = latestDoc initial s.commits
  chained : Chained initial s.commits
  conserves : ∀ commit ∈ s.commits, Conserves spec commit
  plain : ∀ text, s.doc = some text → spec.Plain plain text
  rejected : ∀ outcome ∈ s.outcomes, outcome.ok = false → outcome.committed = false
  owned : s.lock = true → (∃ p, (s.providers p).holds = true) ∨ s.crashed = true

@[simp] theorem providers_set (s : FileWorld ι) (p : ι) (provider : FileProvider) :
    (s.set p provider).providers p = provider := by
  simp [set]

@[simp] theorem set_doc (s : FileWorld ι) (p : ι) (provider : FileProvider) :
    (s.set p provider).doc = s.doc := rfl

@[simp] theorem set_commits (s : FileWorld ι) (p : ι) (provider : FileProvider) :
    (s.set p provider).commits = s.commits := rfl

theorem providers_set_of_ne (s : FileWorld ι) (provider : FileProvider) (hne : q ≠ p) :
    (s.set p provider).providers q = s.providers q := by
  simp [set, hne]

omit [DecidableEq ι] in
/-- A process that another step leaves alone relies on what it did. -/
theorem Local.frame (h : Local spec s q) (hsame : s'.providers q = s.providers q)
    (hdoc : s'.doc = s.doc) (hcommits : s'.commits = s.commits) : Local spec s' q where
  parses := by
    rw [hsame]
    exact h.parses
  known := by
    rw [hsame]
    exact h.known
  rendered := by
    rw [hsame, hdoc]
    exact h.rendered
  uncommitted := by
    rw [hsame]
    exact h.uncommitted
  latest := by
    rw [hsame, hcommits]
    exact h.latest
  stopped := by
    rw [hsame]
    exact h.stopped

/-- A step of one process that neither replaces the document nor takes or releases the lock. -/
theorem Inv.move (h : Inv spec plain initial s) (p : ι)
    (hothers : ∀ q, q ≠ p → s'.providers q = s.providers q) (hdoc : s'.doc = s.doc)
    (hlock : s'.lock = s.lock) (hcommits : s'.commits = s.commits) (hcrashed : s'.crashed = s.crashed)
    (hholds : (s'.providers p).holds = (s.providers p).holds) (hlocal : Local spec s' p)
    (houtcomes : ∀ outcome ∈ s'.outcomes,
      outcome ∈ s.outcomes ∨ (outcome.ok = false → outcome.committed = false)) :
    Inv spec plain initial s' := by
  have hsame : ∀ q, (s'.providers q).holds = (s.providers q).holds := fun q => by
    by_cases hq : q = p
    · rw [hq, hholds]
    · rw [hothers q hq]
  exact {
    exclusive := fun a b ha hb => h.exclusive a b (by rwa [← hsame]) (by rwa [← hsame])
    locked := fun a ha => hlock.trans (h.locked a (by rwa [← hsame]))
    each := fun q => by
      by_cases hq : q = p
      · rw [hq]
        exact hlocal
      · exact (h.each q).frame (hothers q hq) hdoc hcommits
    current := by rw [hdoc, hcommits, h.current]
    chained := by
      rw [hcommits]
      exact h.chained
    conserves := by
      rw [hcommits]
      exact h.conserves
    plain := by
      rw [hdoc]
      exact h.plain
    rejected := fun outcome hmem => (houtcomes outcome hmem).elim (h.rejected outcome) id
    owned := fun hheld => by
      rw [hcrashed]
      obtain ⟨a, ha⟩ | hcrash := h.owned (hlock ▸ hheld)
      · exact .inl ⟨a, (hsame a).trans ha⟩
      · exact .inr hcrash }

/-! ### One process -/

section

variable {run : FileRun} {stage : FileStage} {provider : FileProvider}

omit [DecidableEq ι] in
/-- A provider whose running job renders nothing relies on its cache only. -/
theorem local_of_cache (hparses : ∀ text, (s.providers p).text = some text →
      (spec.parse text).isSome = true)
    (hknown : (s.providers p).alive = true → (s.providers p).text ∈ (s.providers p).known)
    (hlatest : ∀ commit earlier, s.commits = commit :: earlier → commit.by_ = p →
      (s.providers p).alive = true → (s.providers p).text = some commit.text)
    (hstopped : (s.providers p).alive = false → (s.providers p).running = none)
    (hrunning : ∀ run, (s.providers p).running = some run →
      (∀ output, run.stage ≠ .write output ∧ run.stage ≠ .rename output) ∧
        (run.committed = true → run.stage = .unlock true)) : Local spec s p where
  parses := hparses
  known := hknown
  rendered run output hrun hstage := by
    have hno := (hrunning run hrun).1 output
    exact absurd hstage (not_or.mpr hno)
  uncommitted run hrun := (hrunning run hrun).2
  latest := hlatest
  stopped := hstopped

omit [DecidableEq ι] in
/-- A process with a running job lives. -/
theorem Local.alive (h : Local spec s p) (hrun : (s.providers p).running = some run) :
    (s.providers p).alive = true := by
  by_contra hdown
  have hnone := h.stopped (by simpa using hdown)
  rw [hrun] at hnone
  cases hnone

/-- The job of `p` goes on to a stage that renders nothing. -/
theorem Local.goOn (h : Local spec s p) (hrun : (s.providers p).running = some run)
    (hstage : ∀ output, stage ≠ .write output ∧
      stage ≠ .rename output) (hcommitted : run.committed = true → stage = .unlock true) :
    Local spec (s.goOn p run stage) p :=
  local_of_cache (by simpa [FileWorld.goOn] using h.parses) (by simpa [FileWorld.goOn] using h.known)
    (by simpa [FileWorld.goOn] using h.latest) (by simp [FileWorld.goOn, h.alive hrun])
    fun run' hrun' => by
      have heq : run' = { run with stage } := by
        simpa [FileWorld.goOn, eq_comm] using hrun'
      subst heq
      exact ⟨hstage, hcommitted⟩

theorem Local.settle (h : Local spec s p) (ok : Bool) : Local spec (s.settle p run ok) p :=
  local_of_cache (by simpa [FileWorld.settle] using h.parses)
    (by simpa [FileWorld.settle] using h.known) (by simpa [FileWorld.settle] using h.latest)
    (by simp [FileWorld.settle]) (by simp [FileWorld.settle])

/-- The job of `p` goes on without the lock moving. -/
theorem Inv.goOn (h : Inv spec plain initial s) (hrun : (s.providers p).running = some run)
    (hholds : stage.holds = run.stage.holds)
    (hstage : ∀ output, stage ≠ .write output ∧ stage ≠ .rename output)
    (hcommitted : run.committed = true → stage = .unlock true) :
    Inv spec plain initial (s.goOn p run stage) :=
  h.move p (fun q hq => providers_set_of_ne s _ hq) rfl rfl rfl rfl
    (by simp [FileWorld.goOn, FileProvider.holds, hrun, hholds])
    ((h.each p).goOn hrun hstage hcommitted) fun _ hmem => .inl hmem

/-- A job that never held the lock settles. -/
theorem Inv.settle (h : Inv spec plain initial s) (hrun : (s.providers p).running = some run)
    (hholds : run.stage.holds = false) (ok : Bool) :
    Inv spec plain initial (s.settle p run ok) := by
  have hcommitted : run.committed = false := by
    by_contra hcommitted
    have hunlock := (h.each p).uncommitted run hrun (by simpa using hcommitted)
    rw [hunlock] at hholds
    cases hholds
  refine h.move p (fun q hq => providers_set_of_ne s _ hq) rfl rfl rfl rfl
    (by simp [FileWorld.settle, FileProvider.holds, hrun, hholds]) ((h.each p).settle ok)
    fun outcome hmem => ?_
  rcases mem_cons.mp hmem with rfl | hmem
  · exact .inr fun _ => hcommitted
  · exact .inl hmem

/-- A change of what `p` has read or queued. -/
theorem Inv.update (h : Inv spec plain initial s) (hrunning : provider.running = (s.providers p).running)
    (hlocal : Local spec (s.set p provider) p) : Inv spec plain initial (s.set p provider) :=
  h.move p (fun q hq => providers_set_of_ne s _ hq) rfl rfl rfl rfl
    (by simp [FileProvider.holds, hrunning]) hlocal fun _ hmem => .inl hmem

/-! ### Reading -/

/-- A reconcile moves the cache to the document that it read, if it moves it, and then the document
parses. Unless the provider is closed, its cache is the document afterwards. -/
theorem reconcile_cases (spec : FileSpec) (provider : FileProvider) (doc : Option JsString)
    (published : Bool) :
    ∃ text ok, reconcile spec provider doc published =
        ({ provider with text, known := doc :: provider.known }, ok) ∧
      (text = provider.text ∨ text = doc ∧ ∀ t, doc = some t → (spec.parse t).isSome = true) ∧
      (ok = true → provider.closed = false ∨ provider.text = doc → text = doc) := by
  by_cases hsame : doc = provider.text
  · exact ⟨provider.text, true, by simp [reconcile, hsame], .inl rfl, fun _ _ => hsame.symm⟩
  cases hclosed : provider.closed with
  | true =>
    refine ⟨provider.text, true, by simp [reconcile, hclosed], .inl rfl, fun _ hopen => ?_⟩
    exact absurd (hopen.resolve_left (by simp)).symm hsame
  | false =>
    cases doc with
    | none =>
      refine ⟨none, published, ?_, .inr ⟨rfl, by simp⟩, fun _ _ => rfl⟩
      simp only [reconcile, hclosed, Bool.or_false, decide_eq_true_eq, if_neg hsame]
    | some text =>
      cases hparse : spec.parse text with
      | none =>
        refine ⟨provider.text, false, ?_, .inl rfl, by simp⟩
        simp only [reconcile, hclosed, Bool.or_false, decide_eq_true_eq, if_neg hsame, hparse]
      | some root =>
        refine ⟨some text, published, ?_, .inr ⟨rfl, ?_⟩, fun _ _ => rfl⟩
        · simp only [reconcile, hclosed, Bool.or_false, decide_eq_true_eq, if_neg hsame, hparse]
        intro t ht
        cases ht
        rw [hparse]
        rfl

/-- What `p` relies on after it has read the document. -/
theorem Inv.reconciled (h : Inv spec plain initial s) {text : Option JsString}
    (hrunning : ∀ run, (s.providers p).running = some run →
      (∀ output, run.stage ≠ .write output ∧ run.stage ≠ .rename output))
    (htext : text = (s.providers p).text ∨
      text = s.doc ∧ ∀ t, s.doc = some t → (spec.parse t).isSome = true) :
    Inv spec plain initial
      (s.set p { s.providers p with text, known := s.doc :: (s.providers p).known }) := by
  have hlocal := h.each p
  refine h.update rfl (local_of_cache ?_ ?_ ?_ (by simpa using hlocal.stopped) ?_)
  · intro t ht
    rw [providers_set] at ht
    rcases htext with rfl | ⟨rfl, hparses⟩
    · exact hlocal.parses t ht
    · exact hparses t ht
  · intro halive
    rw [providers_set] at halive ⊢
    rcases htext with rfl | ⟨rfl, -⟩
    · exact mem_cons_of_mem _ (hlocal.known halive)
    · exact mem_cons_self
  · intro commit earlier hcommits hby halive
    rw [providers_set] at halive ⊢
    rcases htext with rfl | ⟨rfl, -⟩
    · exact hlocal.latest commit earlier hcommits hby halive
    rw [set_commits] at hcommits
    have hcurrent := h.current
    rw [hcommits] at hcurrent
    exact hcurrent
  · intro run hrun
    rw [providers_set] at hrun
    exact ⟨hrunning run hrun, hlocal.uncommitted run hrun⟩

/-- The running job of `p` after another text of its cache. -/
theorem running_set {provider : FileProvider} (hrunning : provider.running = some run) :
    ((s.set p provider).providers p).running = some run := by
  rw [providers_set, hrunning]

/-- `p` has rendered from the document, and goes on to write what it rendered. -/
theorem Inv.rendered (h : Inv spec plain initial s) {ns : JsString}
    {value : { j : Json // j.Proper }} {output : JsString}
    (hrun : (s.providers p).running = some run) (hheld : run.stage.holds = true)
    (hjob : run.job = .persist ns value) (hcommitted : run.committed = false)
    (htext : (s.providers p).text = s.doc)
    (hrender : spec.render s.doc ns value.1 = some output)
    (hstage : stage = .write output ∨ stage = .rename output) :
    Inv spec plain initial (s.goOn p run stage) := by
  have hlocal := h.each p
  have hholds : stage.holds = run.stage.holds := by
    rw [hheld]
    rcases hstage with rfl | rfl <;> rfl
  refine h.move p (fun q hq => providers_set_of_ne s _ hq) rfl rfl rfl rfl
    (by simp [FileWorld.goOn, FileProvider.holds, hrun, hholds]) ?_ fun _ hmem => .inl hmem
  exact {
    parses := by simpa [FileWorld.goOn] using hlocal.parses
    known := by simpa [FileWorld.goOn] using hlocal.known
    rendered := fun run' output' hrun' hstage' => by
      have heq : run' = { run with stage } := by
        simpa [FileWorld.goOn, eq_comm] using hrun'
      subst heq
      have hout : output' = output := by
        rcases hstage with rfl | rfl <;> rcases hstage' with h' | h' <;> cases h' <;> rfl
      subst hout
      exact ⟨ns, value, hjob, by simpa [FileWorld.goOn] using htext, hrender⟩
    uncommitted := fun run' hrun' htrue => by
      have heq : run' = { run with stage } := by
        simpa [FileWorld.goOn, eq_comm] using hrun'
      subst heq
      rw [hcommitted] at htrue
      cases htrue
    latest := by simpa [FileWorld.goOn] using hlocal.latest
    stopped := by simp [FileWorld.goOn, hlocal.alive hrun] }

/-! ### Replacing the document -/

/-- The holder of the lock replaces the document. -/
theorem Inv.commit (h : Inv spec plain initial s) (hrun : (s.providers p).running = some run)
    (hheld : run.stage.holds = true) {text : JsString} {section_ : Option (JsString × Json)}
    {committed ok : Bool} (hplain : spec.Plain plain text)
    (hparses : (spec.parse text).isSome = true)
    (hconserves : Conserves spec { by_ := p, before := s.doc, text, section_ })
    (hcommitted : committed = true → ok = true) :
    Inv spec plain initial
      ((s.commit p text section_).goOn p { run with committed } (.unlock ok)) := by
  have hp : (s.providers p).holds = true := by simpa [FileProvider.holds, hrun] using hheld
  let s' : FileWorld ι := (s.commit p text section_).goOn p { run with committed } (.unlock ok)
  have hothers : ∀ q, q ≠ p → s'.providers q = s.providers q := fun q hq =>
    (providers_set_of_ne _ _ hq).trans (providers_set_of_ne s _ hq)
  have hsame : ∀ q, (s'.providers q).holds = (s.providers q).holds := fun q => by
    by_cases hq : q = p
    · rw [hq, hp]
      simp [s', FileWorld.goOn, FileProvider.holds, FileStage.holds]
    · rw [hothers q hq]
  have hself : s'.providers p = { s.providers p with
      text := some text, known := some text :: (s.providers p).known
      running := some { run with committed, stage := .unlock ok } } := by
    simp [s', FileWorld.goOn, FileWorld.commit]
  change Inv spec plain initial s'
  exact {
    exclusive := fun a b ha hb => h.exclusive a b (by rwa [← hsame]) (by rwa [← hsame])
    locked := fun a ha => h.locked a (by rwa [← hsame])
    each := fun q => by
      by_cases hq : q = p
      · subst hq
        refine local_of_cache ?_ ?_ ?_ (by simp [hself, (h.each q).alive hrun]) ?_
        · intro t ht
          rw [hself] at ht
          cases ht
          exact hparses
        · intro _
          rw [hself]
          exact mem_cons_self
        · intro commit earlier hcommits _ _
          rw [hself]
          cases hcommits
          rfl
        · intro run' hrun'
          rw [hself] at hrun'
          cases hrun'
          exact ⟨by simp, fun htrue => by rw [hcommitted htrue]⟩
      · -- Nobody else renders: that takes the lock.
        have hlocal := h.each q
        have hnot : (s.providers q).holds = false := by
          by_contra hq'
          exact hq (h.exclusive q p (by simpa using hq') hp)
        refine local_of_cache ?_ ?_ ?_ (by rw [hothers q hq]; exact hlocal.stopped) ?_
        · rw [hothers q hq]
          exact hlocal.parses
        · rw [hothers q hq]
          exact hlocal.known
        · intro commit earlier hcommits hby
          cases hcommits
          exact absurd hby.symm hq
        · intro run' hrun'
          rw [hothers q hq] at hrun'
          refine ⟨fun output => ?_, hlocal.uncommitted run' hrun'⟩
          constructor <;> intro hstage <;>
            simp [FileProvider.holds, hrun', hstage, FileStage.holds] at hnot
    current := rfl
    chained := ⟨h.current, h.chained⟩
    conserves := fun commit hmem => by
      rcases mem_cons.mp hmem with rfl | hmem
      · exact hconserves
      · exact h.conserves commit hmem
    plain := fun t ht => by
      cases ht
      exact hplain
    rejected := h.rejected
    owned := fun hlock => by
      obtain ⟨a, ha⟩ | hcrash := h.owned hlock
      · exact .inl ⟨a, (hsame a).trans ha⟩
      · exact .inr hcrash }

/-! ### The lock and the end of a process -/

omit [DecidableEq ι] in
theorem holds_of_running (hrun : (s.providers p).running = some run) :
    (s.providers p).holds = run.stage.holds := by
  simp [FileProvider.holds, hrun]

/-- The exclusive create of the lock file. -/
theorem Inv.take (h : Inv spec plain initial s) (hrun : (s.providers p).running = some run)
    (hfree : s.lock = false)
    (hcommitted : run.committed = false) :
    Inv spec plain initial { s.goOn p run .held with lock := true } := by
  have hnone : ∀ q, (s.providers q).holds = false := fun q => by
    by_contra hq
    have hlock := h.locked q (by simpa using hq)
    rw [hfree] at hlock
    cases hlock
  have hothers : ∀ q, q ≠ p → (s.goOn p run .held).providers q = s.providers q :=
    fun q hq => providers_set_of_ne s _ hq
  have honly : ∀ q, ((s.goOn p run .held).providers q).holds = true → q = p := fun q hq => by
    by_contra hne
    rw [hothers q hne, hnone q] at hq
    cases hq
  exact {
    exclusive := fun a b ha hb => (honly a ha).trans (honly b hb).symm
    locked := fun _ _ => rfl
    each := fun q => by
      by_cases hq : q = p
      · subst hq
        have hlocal : Local spec (s.goOn q run .held) q :=
          (h.each q).goOn hrun (by simp) fun htrue => by rw [hcommitted] at htrue; cases htrue
        exact { hlocal with }
      · exact (h.each q).frame (hothers q hq) rfl rfl
    current := h.current
    chained := h.chained
    conserves := h.conserves
    plain := h.plain
    rejected := h.rejected
    owned := fun _ => .inl ⟨p, by simp [FileWorld.goOn, FileProvider.holds, FileStage.holds]⟩ }

/-- The removal of the lock file by its holder. -/
theorem Inv.release (h : Inv spec plain initial s) {ok : Bool}
    (hrun : (s.providers p).running = some run) (hstage : run.stage = .unlock ok) :
    Inv spec plain initial { s.settle p run ok with lock := false } := by
  have hp : (s.providers p).holds = true := by
    rw [holds_of_running hrun, hstage]
    rfl
  have hothers : ∀ q, q ≠ p → (s.settle p run ok).providers q = s.providers q :=
    fun q hq => providers_set_of_ne s _ hq
  have hnone : ∀ q, ((s.settle p run ok).providers q).holds = false := fun q => by
    by_cases hq : q = p
    · rw [hq]
      simp [FileWorld.settle, FileProvider.holds]
    rw [hothers q hq]
    by_contra hq'
    exact hq (h.exclusive q p (by simpa using hq') hp)
  exact {
    exclusive := fun a b ha _ => by
      rw [hnone a] at ha
      cases ha
    locked := fun a ha => by
      rw [hnone a] at ha
      cases ha
    each := fun q => by
      by_cases hq : q = p
      · subst hq
        have hlocal : Local spec (s.settle q run ok) q := (h.each q).settle ok
        exact { hlocal with }
      · exact (h.each q).frame (hothers q hq) rfl rfl
    current := h.current
    chained := h.chained
    conserves := h.conserves
    plain := h.plain
    rejected := fun outcome hmem hfailed => by
      rcases mem_cons.mp hmem with rfl | hmem
      · by_contra hcommitted
        have hunlock := (h.each p).uncommitted run hrun (by simpa using hcommitted)
        rw [hstage] at hunlock
        cases hunlock
        cases hfailed
      · exact h.rejected outcome hmem hfailed
    owned := fun hlock => by cases hlock }

/-- A process that stops takes its lock with it. -/
theorem Inv.crash (h : Inv spec plain initial s) (p : ι) :
    Inv spec plain initial
      { s.set p .down with crashed := s.crashed || (s.providers p).holds } := by
  have hothers : ∀ q, q ≠ p → (s.set p FileProvider.down).providers q = s.providers q :=
    fun q hq => providers_set_of_ne s _ hq
  have hdown : ((s.set p FileProvider.down).providers p) = .down := providers_set s p _
  have hold : ∀ q, ((s.set p FileProvider.down).providers q).holds = true →
      (s.providers q).holds = true := fun q hq => by
    by_cases hqp : q = p
    · rw [hqp, hdown] at hq
      cases hq
    · rwa [hothers q hqp] at hq
  exact {
    exclusive := fun a b ha hb => h.exclusive a b (hold a ha) (hold b hb)
    locked := fun a ha => h.locked a (hold a ha)
    each := fun q => by
      by_cases hq : q = p
      · subst hq
        refine local_of_cache ?_ ?_ ?_ ?_ ?_ <;>
          simp [FileProvider.down]
      · exact (h.each q).frame (hothers q hq) rfl rfl
    current := h.current
    chained := h.chained
    conserves := h.conserves
    plain := h.plain
    rejected := h.rejected
    owned := fun hlock => by
      obtain ⟨a, ha⟩ | hcrash := h.owned hlock
      · by_cases hap : a = p
        · exact .inr (by simp [← hap, ha])
        · exact .inl ⟨a, (congrArg FileProvider.holds (hothers a hap)).trans ha⟩
      · exact .inr (by simp [hcrash]) }

/-! ## Steps -/

/-- The steps on which the code keeps its promises: no lock file is left behind by a create that
fails or by a removal that fails, and a provider that is closed does not write from a cache that
is not the document. -/
def Orderly (s : FileWorld ι) : Act ι → Prop
  | .lock _ outcome => outcome = .failedAfter → s.lock = true
  | .unlock _ ok => ok = true
  | .read p _ _ => (s.providers p).holds = true → (s.providers p).closed = true →
      (s.providers p).text = s.doc
  | _ => True

omit [DecidableEq ι] in
theorem inv_start (hplain : ∀ text, initial = some text → spec.Plain plain text) :
    Inv spec plain initial (start initial : FileWorld ι) where
  exclusive a b ha _ := by cases ha
  locked a ha := by cases ha
  each p := by refine local_of_cache ?_ ?_ ?_ ?_ ?_ <;> simp [start, FileProvider.down]
  current := rfl
  chained := trivial
  conserves := by simp [start]
  plain := hplain
  rejected := by simp [start]
  owned := fun hlock => by cases hlock

omit [DecidableEq ι] in
/-- A job that has not reached its rename has committed nothing. -/
theorem Inv.uncommitted (h : Inv spec plain initial s) (hrun : (s.providers p).running = some run)
    (hstage : run.stage ≠ .unlock true) : run.committed = false := by
  by_contra htrue
  exact hstage ((h.each p).uncommitted run hrun (by simpa using htrue))

theorem Inv.stepLock (h : Inv spec plain initial s) (hrun : (s.providers p).running = some run)
    (hstage : run.stage = .lock) {outcome : CreateOutcome}
    (horderly : outcome = .failedAfter → s.lock = true) :
    Inv spec plain initial (s.stepLock p run outcome) := by
  have hidle : run.stage.holds = false := by rw [hstage]; rfl
  cases outcome with
  | failed => exact h.settle hrun hidle false
  | done =>
    simp only [FileWorld.stepLock]
    split
    · exact h
    · rename_i hfree
      exact h.take hrun (by simpa using hfree) (h.uncommitted hrun (by simp [hstage]))
  | failedAfter =>
    simp only [FileWorld.stepLock, horderly rfl, if_true]
    exact h

theorem Inv.stepRead (h : Inv spec plain initial s) (hrun : (s.providers p).running = some run)
    {readable published : Bool}
    (horderly : (s.providers p).holds = true → (s.providers p).closed = true →
      (s.providers p).text = s.doc)
    (hstep : s.stepRead spec p run readable published = some s') : Inv spec plain initial s' := by
  obtain ⟨text, ok, hreconcile, htext, hdoc⟩ :=
    reconcile_cases spec (s.providers p) s.doc published
  simp only [FileWorld.stepRead, hreconcile] at hstep
  split at hstep
  · rename_i ns value hjob hstage
    have hcommitted : run.committed = false := h.uncommitted hrun (by simp [hstage])
    have hheld : run.stage.holds = true := by rw [hstage]; rfl
    have hunlock : ∀ {s₁ : FileWorld ι}, Inv spec plain initial s₁ →
        (s₁.providers p).running = some run → Inv spec plain initial (s₁.goOn p run (.unlock false)) :=
      fun h₁ hrun₁ => h₁.goOn hrun₁ (by rw [hheld]; rfl) (by simp) fun htrue => by
        rw [hcommitted] at htrue
        cases htrue
    have hread := h.reconciled (p := p) (fun run' hrun' => by
      cases hrun.symm.trans hrun'
      simp [hstage]) htext
    split at hstep
    · cases hstep
      exact hunlock h hrun
    split at hstep
    · cases hstep
      exact hunlock hread (running_set hrun)
    split at hstep
    · cases hstep
      exact hunlock hread (running_set hrun)
    rename_i hok _ output hrender
    cases hstep
    have hcache : text = s.doc := by
      refine hdoc (by simpa using hok) ?_
      cases hclosed : (s.providers p).closed with
      | false => exact .inl rfl
      | true => exact .inr (horderly (by rw [holds_of_running hrun, hheld]) hclosed)
    subst hcache
    exact hread.rendered (running_set hrun) hheld hjob hcommitted (by simp) hrender (.inl rfl)
  · rename_i hstage
    have hidle : run.stage.holds = false := by rw [hstage]; rfl
    split at hstep
    · cases hstep
      exact h.settle hrun hidle true
    cases hstep
    have hread := h.reconciled (p := p) (fun run' hrun' => by
      cases hrun.symm.trans hrun'
      simp [hstage]) htext
    exact hread.settle (running_set hrun) hidle true
  · cases hstep

section

variable (h : Inv spec plain initial s)
include h

theorem Inv.load (hdown : (s.providers p).alive = false) {text : Option JsString} (htext : text = s.doc)
    (hparses : ∀ t, s.doc = some t → (spec.parse t).isSome = true) :
    Inv spec plain initial (s.set p { FileProvider.down with alive := true, text, known := [text] }) := by
  subst htext
  refine h.update ((h.each p).stopped hdown).symm (local_of_cache ?_ ?_ ?_ (by simp) ?_)
  · intro t ht
    rw [providers_set] at ht
    exact hparses t ht
  · intro _
    rw [providers_set]
    exact mem_singleton_self _
  · intro commit earlier hcommits _ _
    rw [providers_set]
    have hcurrent := h.current
    rw [set_commits] at hcommits
    rw [hcommits] at hcurrent
    exact hcurrent
  · intro run hrun
    rw [providers_set] at hrun
    cases hrun

/-- A change of the queue, or of whether the provider is closed. -/
theorem Inv.arrange (queue : List FileJob) (closed : Bool) :
    Inv spec plain initial (s.set p { s.providers p with queue, closed }) := by
  have hlocal := h.each p
  refine h.update rfl ?_
  exact {
    parses := by simpa using hlocal.parses
    known := by simpa using hlocal.known
    rendered := by simpa using hlocal.rendered
    uncommitted := by simpa using hlocal.uncommitted
    latest := by simpa using hlocal.latest
    stopped := by simpa using hlocal.stopped }

/-- An idle process begins a job, or skips it. -/
theorem Inv.begins (halive : (s.providers p).alive = true)
    (hidle : (s.providers p).running = none) (hholds : stage.holds = false)
    (hstage : ∀ output, stage ≠ .write output ∧ stage ≠ .rename output)
    (hcommitted : run.committed = false) : Inv spec plain initial (s.goOn p run stage) := by
  have hlocal := h.each p
  refine h.move p (fun q hq => providers_set_of_ne s _ hq) rfl rfl rfl rfl
    (by simp [FileWorld.goOn, FileProvider.holds, hidle, hholds]) ?_ fun _ hmem => .inl hmem
  refine local_of_cache (by simpa [FileWorld.goOn] using hlocal.parses)
    (by simpa [FileWorld.goOn] using hlocal.known) (by simpa [FileWorld.goOn] using hlocal.latest)
    (by simp [FileWorld.goOn, halive]) fun run' hrun' => ?_
  have heq : run' = { run with stage } := by
    simpa [FileWorld.goOn, eq_comm] using hrun'
  subst heq
  exact ⟨hstage, fun htrue => by rw [hcommitted] at htrue; cases htrue⟩

theorem Inv.skips (hidle : (s.providers p).running = none)
    (hcommitted : run.committed = false) (ok : Bool) :
    Inv spec plain initial (s.settle p run ok) := by
  refine h.move p (fun q hq => providers_set_of_ne s _ hq) rfl rfl rfl rfl
    (by simp [FileWorld.settle, FileProvider.holds, hidle]) ((h.each p).settle ok)
    fun outcome hmem => ?_
  rcases mem_cons.mp hmem with rfl | hmem
  · exact .inr fun _ => hcommitted
  · exact .inl hmem

end

theorem Inv.stepCreate (hyaml : spec.yaml.Lawful plain) (h : Inv spec plain initial s)
    (hrun : (s.providers p).running = some run) (hstage : run.stage = .held) (ok published : Bool) :
    Inv spec plain initial (s.stepCreate p run ok published) := by
  have hcommitted : run.committed = false := h.uncommitted hrun (by simp [hstage])
  have hheld : run.stage.holds = true := by rw [hstage]; rfl
  have hunlock : ∀ ok, Inv spec plain initial (s.goOn p run (.unlock ok)) := fun ok =>
    h.goOn hrun (by rw [hheld]; rfl) (by simp) fun htrue => by
      rw [hcommitted] at htrue
      cases htrue
  simp only [FileWorld.stepCreate]
  split
  · exact hunlock false
  split
  · exact hunlock true
  rename_i hdoc
  have hempty := FileSpec.parse_empty hyaml
  have hcreated : run.committed = true → ((s.providers p).closed || published) = true :=
    fun htrue => by
      rw [hcommitted] at htrue
      cases htrue
  exact h.commit hrun hheld (fun _ => hyaml.plain_empty) (by rw [hempty]; rfl) ⟨hdoc, rfl⟩ hcreated

/-- The rename replaces the document by what was rendered from it. -/
theorem Inv.renamed (hyaml : spec.yaml.Lawful plain) (h : Inv spec plain initial s)
    {ns : JsString} {value : { j : Json // j.Proper }} {output : JsString} {committed : Bool}
    (hrun : (s.providers p).running = some ⟨.persist ns value, .rename output, committed⟩) :
    Inv spec plain initial ((s.commit p output (some (ns, value.1))).goOn p
      ⟨.persist ns value, .rename output, true⟩ (.unlock true)) := by
  have hlocal := h.each p
  obtain ⟨ns', value', hjob, htext, hrender⟩ := hlocal.rendered _ output hrun (.inr rfl)
  cases hjob
  have hread : ∃ root, spec.read s.doc = some root := by
    cases hdoc : s.doc with
    | none => exact ⟨[], rfl⟩
    | some text => exact isSome_iff_exists.mp (hlocal.parses text (htext.trans hdoc))
  obtain ⟨root, hroot⟩ := hread
  obtain ⟨hplain, next, hparse, hchange⟩ :=
    FileSpec.render_onlyChanges hyaml h.plain value.2 hroot hrender
  exact h.commit hrun rfl hplain (by rw [hparse]; rfl) ⟨root, next, hroot, hparse, hchange⟩
    fun _ => rfl

theorem Inv.step (hyaml : spec.yaml.Lawful plain) (h : Inv spec plain initial s)
    (horderly : Orderly s act) (hstep : step spec s act = some s') :
    Inv spec plain initial s' := by
  cases act with
  | load p readable =>
    simp only [FileWorld.step] at hstep
    split at hstep
    · cases hstep
    rename_i hdown
    have hdown : (s.providers p).alive = false := by simpa using hdown
    split at hstep
    · cases hstep
      exact h
    · rename_i hdoc
      cases hstep
      exact h.load hdown hdoc.symm (by simp [hdoc])
    · rename_i text hdoc
      split at hstep
      · cases hstep
        exact h
      rename_i root hparse
      cases hstep
      exact h.load hdown hdoc.symm (by simp [hdoc, hparse])
  | enqueue p job =>
    simp only [FileWorld.step, ite_none_right_eq_some, some.injEq] at hstep
    obtain ⟨-, rfl⟩ := hstep
    exact h.arrange _ (s.providers p).closed
  | begin_ p =>
    simp only [FileWorld.step] at hstep
    split at hstep
    · rename_i job queue halive hidle _
      have hqueue := h.arrange (p := p) queue (s.providers p).closed
      have halive' : ((s.set p { s.providers p with queue }).providers p).alive = true := by
        rw [providers_set]
        exact halive
      have hidle' : ((s.set p { s.providers p with queue }).providers p).running = none := by
        rw [providers_set]
        exact hidle
      cases job with
      | refresh =>
        simp only [some.injEq] at hstep
        subst hstep
        split
        · exact hqueue.skips hidle' rfl true
        · exact hqueue.begins halive' hidle' rfl (by simp) rfl
      | persist ns value =>
        cases hstep
        exact hqueue.begins halive' hidle' rfl (by simp) rfl
      | prepareDocument =>
        cases hstep
        exact hqueue.begins halive' hidle' rfl (by simp) rfl
    · cases hstep
  | mkdir p ok =>
    simp only [FileWorld.step] at hstep
    split at hstep
    · rename_i job committed hrun
      have hcommitted : committed = false := h.uncommitted hrun (by simp)
      cases hstep
      split
      · exact h.goOn hrun rfl (by simp) fun htrue => by
          rw [show committed = true from htrue] at hcommitted
          cases hcommitted
      · exact h.settle hrun rfl false
    · cases hstep
  | lock p outcome =>
    simp only [FileWorld.step] at hstep
    split at hstep
    · rename_i job committed hrun
      cases hstep
      exact h.stepLock hrun rfl horderly
    · cases hstep
  | giveUp p =>
    simp only [FileWorld.step] at hstep
    split at hstep
    · rename_i job committed hrun
      cases hstep
      exact h.settle hrun rfl false
    · cases hstep
  | read p readable published =>
    simp only [FileWorld.step] at hstep
    split at hstep
    · rename_i run hrun
      exact h.stepRead hrun horderly hstep
    · cases hstep
  | create p ok published =>
    simp only [FileWorld.step] at hstep
    split at hstep
    · rename_i committed hrun
      cases hstep
      exact h.stepCreate hyaml hrun rfl ok published
    · cases hstep
  | write p ok =>
    simp only [FileWorld.step] at hstep
    split at hstep
    · rename_i job output committed hrun
      have hcommitted : committed = false := h.uncommitted hrun (by simp)
      cases hstep
      cases ok with
      | true =>
        obtain ⟨ns, value, hjob, htext, hrender⟩ := (h.each p).rendered _ output hrun (.inl rfl)
        exact h.rendered hrun rfl hjob hcommitted htext hrender (.inr rfl)
      | false =>
        exact h.goOn hrun rfl (by simp) fun htrue => by
          rw [show committed = true from htrue] at hcommitted
          cases hcommitted
    · cases hstep
  | rename p ok =>
    simp only [FileWorld.step] at hstep
    split at hstep
    · rename_i ns value output committed hrun
      have hcommitted : committed = false := h.uncommitted hrun (by simp)
      split at hstep
      · cases hstep
        exact h.renamed hyaml hrun
      cases hstep
      exact h.goOn hrun rfl (by simp) fun htrue => by
        rw [show committed = true from htrue] at hcommitted
        cases hcommitted
    · cases hstep
  | unlock p ok =>
    simp only [FileWorld.step] at hstep
    split at hstep
    · rename_i job succeeded committed hrun
      have hok : ok = true := horderly
      subst hok
      cases hstep
      exact h.release hrun rfl
    · cases hstep
  | close p =>
    simp only [FileWorld.step, ite_none_right_eq_some, some.injEq] at hstep
    obtain ⟨-, rfl⟩ := hstep
    exact h.arrange (s.providers p).queue true
  | crash p =>
    cases hstep
    exact h.crash p

end

/-! ## The contract -/

/-- A library whose documents are JSON texts, and which refuses to edit them. -/
def jsonTexts : YamlLibrary where
  toJS text := if text = "" then some .null else Json.parse text.units
  create sections := ⟨Json.stringifyIndented 0 (.obj sections) ++ [unit '\n']⟩
  edit _ _ := none

theorem jsonTexts_lawful : jsonTexts.Lawful fun _ => True where
  toJS_empty := rfl
  plain_empty := trivial
  create sections hproper := by
    obtain ⟨rest, hopen⟩ := FileSpec.stringifyIndented_obj sections
    have hne : (⟨Json.stringifyIndented 0 (.obj sections) ++ [unit '\n']⟩ : JsString) ≠ "" := by
      rw [hopen]
      intro heq
      cases congrArg JsString.units heq
    refine ⟨?_, trivial⟩
    simp only [jsonTexts, if_neg hne]
    exact Json.parse_indented hproper
  edit := by
    intro text root sections ns edits output _ _ _ _ hedit
    cases hedit

def jsonSpec : FileSpec := { format := .json, yaml := jsonTexts }

/-- One process writes a section of an absent document. -/
def persisted : List (Act Unit) :=
  [.load () true, .enqueue () (.persist "theme" ⟨.obj [], ⟨nodup_nil, trivial⟩⟩), .begin_ (),
    .mkdir () true, .lock () .done, .read () true true, .write () true, .rename () true,
    .unlock () true]

end FileWorld

end Harness
