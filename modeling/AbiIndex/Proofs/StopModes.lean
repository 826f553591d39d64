import AbiIndex.Proofs.ProjectOverlap
import AbiIndex.Proofs.StoppedScan
import Mathlib.Data.Set.List

/-!
# The two modes of a scan that is stopped

A scan that is stopped gives what it has, or fails if the settings want that. Up to the place where
one of the two fails, a scan does the same in both modes. A single project fails exactly if its
result is partial. A scan of all projects fails also if the request to stop comes when nothing is
left to do, so that its result is not partial.

## Key results

- `Neutral`: work that does not depend on the mode
- `Modes.workAll`: the work on a list of items in both modes
- `Request.scan_modes`: how a scan with the wish to fail and one without it differ
-/

namespace AbiIndex.Scan

open AbiIndex.Abi AbiIndex.Source

/-- The session with the wish to fail when it is stopped, or without it. -/
def Session.inMode (s : Session) (raise : Bool) : Session :=
  { s with settings := { s.settings with raiseOnCancel := raise } }

/-! ## Work that does not depend on the mode -/

section Neutral

variable {α β : Type}

/-- Work that begins in the session ends in both modes with the same outcome and, but for the mode,
with the same session. It does not fail because it was stopped, and no request to stop is taken
back. -/
def SameEnding (s : Session) (ending : Bool → Except ScanError α × Session) : Prop :=
  ∃ (outcome : Except ScanError α) (s' : Session),
    (∀ raise, ending raise = (outcome, s'.inMode raise)) ∧
    (∀ root, outcome ≠ .error (.cancelled root)) ∧ (s.cancelled = true → s'.cancelled = true)

/-- Work whose ending does not depend on the mode. -/
def Neutral (work : SessionM α) : Prop :=
  ∀ s : Session, SameEnding s fun raise => work.exec (s.inMode raise)

namespace Neutral

theorem pure (a : α) : Neutral (pure a) :=
  fun s => ⟨.ok a, s, fun _ => rfl, nofun, id⟩

theorem throw {e : ScanError} (h : ∀ root, e ≠ .cancelled root) :
    Neutral (throw e : SessionM α) :=
  fun s => ⟨.error e, s, fun _ => rfl, fun root heq => h root (Except.error.inj heq), id⟩

theorem bind {work : SessionM α} {next : α → SessionM β} (h : Neutral work)
    (hnext : ∀ a, Neutral (next a)) : Neutral (work >>= next) := by
  intro s
  obtain ⟨outcome, s₁, hexec, hother, hkept⟩ := h s
  cases outcome with
  | error e =>
    refine ⟨.error e, s₁, fun raise => exec_bind_error (hexec raise), ?_, hkept⟩
    exact fun root heq => hother root (congrArg Except.error (Except.error.inj heq))
  | ok a =>
    obtain ⟨outcome', s₂, hexec', hother', hkept'⟩ := hnext a s₁
    exact ⟨outcome', s₂, fun raise => (exec_bind_ok (hexec raise)).trans (hexec' raise), hother',
      hkept' ∘ hkept⟩

/-- What looks at the session must not look at its mode. -/
theorem get {next : Session → SessionM α}
    (hmode : ∀ s raise, next (Session.inMode s raise) = next s) (h : ∀ s, Neutral (next s)) :
    Neutral (get >>= next) := by
  intro s
  obtain ⟨outcome, s', hexec, hrest⟩ := h s s
  refine ⟨outcome, s', fun raise => ?_, hrest⟩
  rw [← hexec raise, ← hmode s raise]
  rfl

theorem change {f : Session → Session}
    (h : ∀ s raise, f (s.inMode raise) = (f s).inMode raise)
    (hkept : ∀ s, s.cancelled = true → (f s).cancelled = true) :
    Neutral (modify f : SessionM Unit) := by
  intro s
  refine ⟨.ok (), f s, fun raise => ?_, by rintro root ⟨⟩, hkept s⟩
  rw [← h]
  rfl

theorem advance (step : Progress → Progress) : Neutral (modify (·.advance step) : SessionM Unit) := by
  refine change (fun _ _ => rfl) fun s h => ?_
  show (s.cancelled || _) = true
  rw [h, Bool.true_or]

theorem poll : Neutral SessionM.poll :=
  (advance _).bind fun _ => get (fun _ _ => rfl) fun s => pure s.cancelled

theorem report (entries : List Log.Entry) : Neutral (SessionM.report entries) :=
  change (fun _ _ => rfl) fun _ => id

theorem ofExcept {outcome : Except ScanError α} (h : ∀ root, outcome ≠ .error (.cancelled root)) :
    Neutral (SessionM.ofExcept outcome) := by
  cases outcome with
  | error e => exact throw fun root heq => h root (congrArg Except.error heq)
  | ok a => exact pure a

/-- Tasks one after the other do not depend on the mode if none of them does. -/
theorem workAll {task : α → SessionM β} (h : ∀ a, Neutral (task a)) (goesOn : Bool) (items : List α)
    (s : Session) : SameEnding s fun raise => workAll goesOn task items (s.inMode raise) := by
  induction items generalizing s with
  | nil => exact ⟨.ok [], s, fun _ => rfl, by rintro root ⟨⟩, id⟩
  | cons a items ih =>
    obtain ⟨outcome, s₁, hexec, hother, hkept⟩ := h a s
    obtain ⟨outcome', s₂, hexec', hother', hkept'⟩ := ih s₁
    dsimp only at hexec hexec'
    cases outcome with
    | ok b =>
      refine ⟨outcome'.map (b :: ·), s₂, fun raise => ?_, ?_, hkept' ∘ hkept⟩
      · dsimp only
        rw [workAll_ok (hexec raise), hexec']
      · intro root heq
        cases outcome' with
        | ok bs => cases heq
        | error e => exact hother' root (congrArg Except.error (Except.error.inj heq))
    | error e =>
      refine ⟨.error e, if goesOn then s₂ else s₁, fun raise => ?_, ?_, fun hs => ?_⟩
      · dsimp only
        rw [workAll_error (hexec raise), hexec']
        cases goesOn <;> rfl
      · exact fun root heq => hother root (congrArg Except.error (Except.error.inj heq))
      · cases goesOn with
        | true => exact hkept' (hkept hs)
        | false => exact hkept hs

/-- So do tasks of one worker or of several. -/
theorem forEach {items : List α} {task : α → SessionM β} (h : ∀ a, Neutral (task a)) :
    Neutral (SessionM.forEach items task) := by
  intro s
  simp only [exec_forEach]
  cases hrefuses : s.settings.refuses items.length with
  | true =>
    refine ⟨.error .noWorkers, s, fun raise => ?_, by rintro root ⟨⟩, id⟩
    exact if_pos hrefuses
  | false =>
    obtain ⟨outcome, s', hexec, hrest⟩ :=
      workAll h (!(items.length < 2 || s.settings.maxWorkers = some 1)) items s
    refine ⟨outcome, s', fun raise => ?_, hrest⟩
    exact (if_neg (Bool.eq_false_iff.1 hrefuses)).trans (hexec raise)

/-- Work that is left out when the session is told to stop. -/
theorem unless_stopped {a : α} {work : SessionM α} (h : Neutral work) :
    Neutral (SessionM.poll >>= fun b => if b = true then Pure.pure a else work) := by
  refine poll.bind fun b => ?_
  cases b with
  | true => exact pure a
  | false => exact h

end Neutral

end Neutral

/-- The work on a file. -/
theorem extractFile_neutral (t : FileTree) (root path : Path) : Neutral (extractFile t root path) := by
  refine .unless_stopped ?_
  cases LoadedFile.load t root path with
  | error e => exact (Neutral.report _).bind fun _ => .pure _
  | ok file =>
    refine (Neutral.report _).bind fun _ => .get (fun _ _ => rfl) fun s => ?_
    dsimp only
    generalize file.lookUp s.cache = found
    refine Neutral.bind (.change (fun _ _ => rfl) fun _ => id) fun _ => ?_
    cases found.1 with
    | some unit => exact .pure _
    | none =>
      refine Neutral.bind (.advance _) fun _ => ?_
      cases file.extract with
      | error e =>
        refine (Neutral.report _).bind fun _ => ?_
        exact Neutral.bind (.change (fun _ _ => rfl) fun _ => id) fun _ => .pure _
      | ok unit => exact Neutral.bind (.change (fun _ _ => rfl) fun _ => id) fun _ => .pure _

theorem resolveFile_neutral (reg : Registry) (unit : SourceUnit) : Neutral (resolveFile reg unit) := by
  refine .unless_stopped (Neutral.bind (.advance _) fun _ => ?_)
  cases resolveUnit reg unit with
  | error e => exact .throw (by rintro root ⟨⟩)
  | ok r => exact (Neutral.report _).bind fun _ => .pure _

/-- The scan of a project up to its result. -/
theorem readProject_neutral (t : FileTree) (info : Project.Info) (label : Option String) :
    Neutral (readProject t info label) := by
  refine .get (fun _ _ => rfl) fun s => ?_
  refine Neutral.bind (.ofExcept ?_) fun files => (Neutral.report _).bind fun _ => ?_
  · intro root heq
    obtain ⟨e, -, he⟩ := mapError_eq_error_iff.1 heq
    cases he
  refine Neutral.bind (.forEach fun path => extractFile_neutral t info.root path) fun outcomes => ?_
  refine Neutral.bind (.forEach fun unit => resolveFile_neutral _ unit) fun attempts => ?_
  exact Neutral.poll.bind fun cancelled => .pure _

/-- A result is partial only if the session was told to stop. -/
theorem cancelled_of_readProject {t : FileTree} {info : Project.Info} {label : Option String}
    {s s' : Session} {r : Result} (h : (readProject t info label).exec s = (.ok r, s'))
    (hpartial : r.isPartial = true) : s'.cancelled = true := by
  obtain ⟨_, _, -, h⟩ := exists_of_exec_bind h
  obtain ⟨_, _, -, h⟩ := exists_of_exec_bind h
  obtain ⟨_, _, -, h⟩ := exists_of_exec_bind h
  obtain ⟨_, _, -, h⟩ := exists_of_exec_bind h
  obtain ⟨_, _, -, h⟩ := exists_of_exec_bind h
  obtain ⟨cancelled, s₁, hpoll, h⟩ := exists_of_exec_bind h
  cases hpoll
  cases h
  exact (Bool.and_eq_true_iff.1 hpartial).1

/-! ## Work that ends differently in the two modes -/

section Modes

variable {α β : Type}

/-- How the endings of work that begins in the session compare, given what the mode is. Either they
are the same, or both fail for the same reason, or the work gives something without the wish to fail
and fails with it, because it was stopped. What lacks something was given by a session that was told
to stop. -/
inductive Modes (s : Session) (lacks : β → Bool) (ending : Bool → Except ScanError β × Session) : Prop
  | done {b : β} {s' : Session} (both : ∀ raise, ending raise = (.ok b, s'.inMode raise))
      (kept : s.cancelled = true → s'.cancelled = true)
      (stopped : lacks b = true → s'.cancelled = true)
  | failed {e : ScanError} (both : ∀ raise, (ending raise).1 = .error e)
      (other : ∀ root, e ≠ .cancelled root)
  | parted {b : β} {root : Path} {s' s'' : Session} (gives : ending false = (.ok b, s'.inMode false))
      (fails : ending true = (.error (.cancelled root), s''.inMode true)) (lacking : lacks b = true)
      (stopped : s'.cancelled = true) (stopped' : s''.cancelled = true)

variable {s : Session} {lacks : β → Bool} {ending : Bool → Except ScanError β × Session}

/-- How the endings of work compare as a whole: the work fails in both modes for the same reason, or
it gives something without the wish to fail. With that wish it then fails if there is a reason for
it, and gives the same if there is none. -/
def FailsWhen (reason : β → Session → Prop) (ending : Bool → Except ScanError β × Session) : Prop :=
  (∃ e, (∀ raise, (ending raise).1 = .error e) ∧ ∀ root, e ≠ .cancelled root) ∨
  ∃ b s', ending false = (.ok b, s') ∧
    (reason b s' → ∃ root, (ending true).1 = .error (.cancelled root)) ∧
    (¬reason b s' → (ending true).1 = .ok b)

/-- Work that gives nothing in either mode. -/
theorem FailsWhen.of_error {reason : β → Session → Prop} {P : β → Session → Prop} {e : ScanError}
    (h : ∀ raise, ending raise = (.error e, s.inMode raise)) (other : ∀ root, e ≠ .cancelled root) :
    FailsWhen reason ending ∧ ∀ b s', ending false = (.ok b, s') → P b s' := by
  refine ⟨.inl ⟨e, fun raise => congrArg Prod.fst (h raise), other⟩, fun b s' hgives => ?_⟩
  rw [h] at hgives
  cases hgives

theorem FailsWhen.spec {reason : β → Session → Prop} (h : FailsWhen reason ending) :
    ((∃ root, (ending true).1 = .error (.cancelled root)) ↔
      ∃ b s', ending false = (.ok b, s') ∧ reason b s') ∧
    ((∀ root, (ending true).1 ≠ .error (.cancelled root)) → (ending true).1 = (ending false).1) := by
  rcases h with ⟨e, both, other⟩ | ⟨b, s', gives, fails, goes⟩
  · refine ⟨⟨?_, ?_⟩, fun _ => (both true).trans (both false).symm⟩
    · rintro ⟨root, hroot⟩
      rw [both, Except.error.injEq] at hroot
      exact (other root hroot).elim
    · rintro ⟨b, s', gives, -⟩
      have hfails := both false
      rw [gives] at hfails
      cases hfails
  · rw [gives]
    by_cases hreason : reason b s'
    · exact ⟨⟨fun _ => ⟨b, s', rfl, hreason⟩, fun _ => fails hreason⟩,
        fun h => ((fails hreason).elim h).elim⟩
    · refine ⟨⟨?_, ?_⟩, fun _ => goes hreason⟩
      · rintro ⟨root, hroot⟩
        rw [goes hreason] at hroot
        cases hroot
      · rintro ⟨b', s'', heq, hreason'⟩
        cases heq
        exact (hreason hreason').elim

/-- Work that has no reason to fail gives the same as without the wish to fail. -/
theorem FailsWhen.exec_of_ok {work : SessionM β} {reason : β → Session → Prop} {b : β}
    (h : FailsWhen reason fun raise => work.exec (s.inMode raise)) (hok : (work.exec s).1 = .ok b) :
    (work.exec (s.inMode false)).1 = .ok b := by
  have hself : s.inMode s.settings.raiseOnCancel = s := rfl
  cases hraise : s.settings.raiseOnCancel with
  | false =>
    rw [hraise] at hself
    rwa [hself]
  | true =>
    rw [hraise] at hself
    rw [← hself] at hok
    rw [← h.spec.2 fun root => by rw [hok]; rintro ⟨⟩]
    exact hok

/-- A change of what is given, with a reason that comes to the same. -/
theorem FailsWhen.map {γ : Type} {work : SessionM β} {f : β → γ} {reason : β → Session → Prop}
    {reason' : γ → Session → Prop} (h : FailsWhen reason fun raise => work.exec (s.inMode raise))
    (hreason : ∀ b s', work.exec (s.inMode false) = (.ok b, s') → (reason' (f b) s' ↔ reason b s')) :
    FailsWhen reason' fun raise => (work >>= fun b => pure (f b)).exec (s.inMode raise) := by
  simp only [FailsWhen, exec_map_eq] at h ⊢
  rcases h with ⟨e, both, other⟩ | ⟨b, s', gives, fails, goes⟩
  · refine .inl ⟨e, fun raise => ?_, other⟩
    rw [both]
    rfl
  · refine .inr ⟨f b, s', ?_, fun h => ?_, fun h => ?_⟩
    · rw [gives]
      rfl
    · obtain ⟨root, hroot⟩ := fails ((hreason b s' gives).1 h)
      exact ⟨root, by rw [hroot]; rfl⟩
    · rw [goes fun h' => h ((hreason b s' gives).2 h')]
      rfl

/-- A change of what is given, when the session has gone on before. -/
theorem Modes.map {γ : Type} {s₁ : Session} {f : β → γ} {lacks' : γ → Bool}
    {ending' : Bool → Except ScanError γ × Session} (h : Modes s₁ lacks ending)
    (hending : ∀ raise, ending' raise = ((ending raise).1.map f, (ending raise).2))
    (hlacks : ∀ b, lacks' (f b) = lacks b) (hs : s.cancelled = true → s₁.cancelled = true) :
    Modes s lacks' ending' := by
  cases h with
  | @done b s₂ both kept stopped =>
    refine .done (fun raise => ?_) (kept ∘ hs) (hlacks b ▸ stopped)
    rw [hending, both]
    rfl
  | @failed e both other =>
    refine .failed (fun raise => ?_) other
    rw [hending, both]
    rfl
  | @parted b root s₂ s₃ gives fails lacking hs₂ hs₃ =>
    have hgives : ending' false = (.ok (f b), s₂.inMode false) := by
      rw [hending, gives]
      rfl
    have hfails : ending' true = (.error (.cancelled root), s₃.inMode true) := by
      rw [hending, fails]
      rfl
    exact .parted hgives hfails (hlacks b ▸ lacking) hs₂ hs₃

/-- What lacks something was given by a session that was told to stop. -/
theorem Modes.cancelled {b : β} {s' : Session} (h : Modes s lacks ending)
    (hb : ending false = (.ok b, s')) (hlacks : lacks b = true) : s'.cancelled = true := by
  cases h with
  | done both _ stopped =>
    rw [both] at hb
    cases hb
    exact stopped hlacks
  | failed both _ =>
    have hfails := both false
    rw [hb] at hfails
    cases hfails
  | parted gives _ _ stopped _ =>
    rw [gives] at hb
    cases hb
    exact stopped

/-- In both modes, the item is left out by a session that is told to stop. -/
def LeftOut (task : SessionM (Option β)) : Prop :=
  ∀ s : Session, s.cancelled = true → ∃ s' : Session,
    (∀ raise, task.exec (s.inMode raise) = (.ok none, s'.inMode raise)) ∧ s'.cancelled = true

/-- Once the session is told to stop, all items are left out. -/
theorem workAll_left {task : α → SessionM (Option β)} (htask : ∀ a, LeftOut (task a))
    (goesOn : Bool) (items : List α) {s : Session} (hs : s.cancelled = true) :
    ∃ (bs : List (Option β)) (s' : Session),
      (∀ raise, workAll goesOn task items (s.inMode raise) = (.ok bs, s'.inMode raise)) ∧
      s'.cancelled = true := by
  induction items generalizing s with
  | nil => exact ⟨[], s, fun _ => rfl, hs⟩
  | cons a items ih =>
    obtain ⟨s₁, hexec, hs₁⟩ := htask a s hs
    obtain ⟨bs, s₂, hrest, hs₂⟩ := ih hs₁
    refine ⟨none :: bs, s₂, fun raise => ?_, hs₂⟩
    rw [workAll_ok (hexec raise), hrest]
    rfl

/-- The work on items of which some may lack something or be left out. The modes part with the first
task for which they do, since all items behind it are left out. -/
theorem Modes.workAll {task : α → SessionM (Option β)} {items : List α} {goesOn : Bool}
    (htask : ∀ a (s : Session), Modes s (Option.all lacks) fun raise => (task a).exec (s.inMode raise))
    (hleft : ∀ a, LeftOut (task a)) (s : Session) :
    Modes s (fun bs => bs.any (Option.all lacks)) fun raise =>
      Scan.workAll goesOn task items (s.inMode raise) := by
  induction items generalizing s with
  | nil => exact .done (fun _ => rfl) id (absurd · Bool.false_ne_true)
  | cons a items ih =>
    cases htask a s with
    | @done b s₁ both kept stopped =>
      -- the same until now, so that the rest decides
      simp only [workAll_ok (both _)]
      cases ih s₁ with
      | @done bs s₂ both' kept' stopped' =>
        simp only [both']
        refine .done (fun _ => rfl) (kept' ∘ kept) fun hlacks => ?_
        rcases Bool.or_eq_true_iff.1 hlacks with hb | hbs
        · exact kept' (stopped hb)
        · exact stopped' hbs
      | failed both' other =>
        simp only [both']
        exact .failed (fun _ => rfl) other
      | parted gives fails lacking hs₂ hs₃ =>
        refine .parted (by rw [gives]; rfl) (by rw [fails]; rfl) ?_ hs₂ hs₃
        exact Bool.or_eq_true_iff.2 (.inr lacking)
    | @failed e both other =>
      refine .failed (fun raise => ?_) other
      rw [workAll_error (Prod.ext (both raise) rfl)]
    | @parted b root s₁ s₂ gives fails lacking hs₁ hs₂ =>
      obtain ⟨bs, s₃, hrest, hs₃⟩ := workAll_left hleft goesOn items hs₁
      obtain ⟨bs', s₄, hrest', hs₄⟩ := workAll_left hleft goesOn items hs₂
      have hgives : Scan.workAll goesOn task (a :: items) (s.inMode false) =
          (.ok (b :: bs), s₃.inMode false) := by
        rw [workAll_ok gives, hrest]
        rfl
      have hfails : Scan.workAll goesOn task (a :: items) (s.inMode true) =
          (.error (.cancelled root), (if goesOn then s₄ else s₂).inMode true) := by
        rw [workAll_error fails, hrest']
        cases goesOn <;> rfl
      refine .parted hgives hfails (Bool.or_eq_true_iff.2 (.inl lacking)) hs₃ ?_
      split
      · exact hs₄
      · exact hs₂

/-- So does the work with one worker or with several. -/
theorem Modes.forEach {task : α → SessionM (Option β)} {items : List α}
    (htask : ∀ a (s : Session), Modes s (Option.all lacks) fun raise => (task a).exec (s.inMode raise))
    (hleft : ∀ a, LeftOut (task a)) (s : Session) :
    Modes s (fun bs => bs.any (Option.all lacks)) fun raise =>
      (SessionM.forEach items task).exec (s.inMode raise) := by
  have hexec : ∀ raise, (SessionM.forEach items task).exec (s.inMode raise) =
      if s.settings.refuses items.length then (.error .noWorkers, s.inMode raise)
      else Scan.workAll (!(items.length < 2 || s.settings.maxWorkers = some 1)) task items
        (s.inMode raise) := by
    intro raise
    rw [exec_forEach]
    rfl
  simp only [hexec]
  split
  · exact .failed (fun _ => rfl) (by rintro root ⟨⟩)
  · exact .workAll htask hleft s

end Modes

/-! ## Projects in both modes -/

section Projects

variable {t : FileTree} {s : Session} {info : Project.Info} {label : Option String} {r : Result}

/-- With the wish to fail, a scan that was stopped fails. -/
theorem exec_stopped_raising (root : Path) (s : Session) :
    (stopped root).exec (s.inMode true) = (.error (.cancelled root), Session.inMode
      { s with log := s.log ++ [message .info s!"Scan of {root.render} cancelled"] } true) := rfl

theorem exec_announce_raising (h : r.isPartial = true) (s : Session) :
    (announce info r).exec (s.inMode true) = (.error (.cancelled info.root), Session.inMode
      { s with log := s.log ++ [message .info s!"Scan of {info.root.render} cancelled"] } true) := by
  rw [announce, h]
  exact exec_bind_error (exec_stopped_raising info.root s)

theorem announce_neutral (h : r.isPartial = false) : Neutral (announce info r) := by
  rw [announce, h]
  exact (Neutral.report _).bind fun _ => (Neutral.report _).bind fun _ => .pure r

/-- The scan of a project fails with the wish to fail exactly if it gives a partial result without
it. -/
theorem scanInfo_modes (t : FileTree) (info : Project.Info) (label : Option String) (s : Session) :
    Modes s Result.isPartial (fun raise => (scanInfo t info label).exec (s.inMode raise)) ∧
    FailsWhen (fun r _ => r.isPartial = true)
      fun raise => (scanInfo t info label).exec (s.inMode raise) := by
  simp only [scanInfo_eq]
  obtain ⟨outcome, s₁, hread, hother, hkept⟩ := readProject_neutral t info label s
  cases outcome with
  | error e =>
    have hexec : ∀ raise, (readProject t info label >>= announce info).exec (s.inMode raise) =
        (.error e, s₁.inMode raise) := fun raise => exec_bind_error (hread raise)
    have hother' : ∀ root, e ≠ .cancelled root :=
      fun root heq => hother root (congrArg Except.error heq)
    simp only [hexec]
    exact ⟨.failed (fun _ => rfl) hother', .inl ⟨e, fun _ => rfl, hother'⟩⟩
  | ok r =>
    have hexec : ∀ raise, (readProject t info label >>= announce info).exec (s.inMode raise) =
        (announce info r).exec (s₁.inMode raise) := fun raise => exec_bind_ok (hread raise)
    simp only [hexec]
    obtain ⟨entries, hgives⟩ := @exec_announce (s₁.inMode false) info r rfl
    cases hpartial : r.isPartial with
    | false =>
      have hwhole : ¬r.isPartial = true := by
        rw [hpartial]
        exact Bool.false_ne_true
      obtain ⟨outcome, s₂, hsame, hother', hkept'⟩ := @announce_neutral info r hpartial s₁
      have houtcome : outcome = .ok r := congrArg Prod.fst ((hsame false).symm.trans hgives)
      subst houtcome
      refine ⟨.done hsame (hkept' ∘ hkept) fun h => (hwhole h).elim, ?_⟩
      exact .inr ⟨r, _, hsame false, fun h => (hwhole h).elim, fun _ => congrArg Prod.fst (hsame true)⟩
    | true =>
      have hcancelled := cancelled_of_readProject (hread false) hpartial
      have hfails := @exec_announce_raising info r hpartial s₁
      have hkeeps : (announce info r).exec (s₁.inMode false) =
          (.ok r, Session.inMode { s₁ with log := s₁.log ++ entries } false) := hgives
      refine ⟨.parted hkeeps hfails hpartial hcancelled hcancelled, ?_⟩
      exact .inr ⟨r, _, hgives, fun _ => ⟨info.root, congrArg Prod.fst hfails⟩, fun h => (h hpartial).elim⟩

/-- One of several projects is left out if the session was told to stop, or else scanned. -/
theorem scanMember_modes (t : FileTree) (root : Path) (info : Project.Info) (s : Session) :
    Modes s (Option.all Result.isPartial) fun raise =>
      (scanMember t root info).exec (s.inMode raise) := by
  simp only [scanMember_eq, exec_unless_stopped]
  have hpolled : s.cancelled = true → s.polled.cancelled = true := (Session.Onward.poll t s).cancelled
  have hmode : ∀ raise, (s.inMode raise).polled = s.polled.inMode raise := fun _ => rfl
  have hcancelled : ∀ raise, (s.polled.inMode raise).cancelled = s.polled.cancelled := fun _ => rfl
  simp only [hmode, hcancelled]
  cases hstopped : s.polled.cancelled with
  | true => exact .done (fun _ => rfl) hpolled fun _ => hstopped
  | false =>
    have hscan := (scanInfo_modes t info (some (root.label info.root)) s.polled).1
    refine hscan.map (f := some) (fun raise => ?_) (fun _ => rfl) hpolled
    rw [if_neg Bool.false_ne_true, exec_map_eq]

/-- Once the session is told to stop, every further project is left out. -/
theorem scanMember_left (t : FileTree) (root : Path) (info : Project.Info) :
    LeftOut (scanMember t root info) := by
  intro s hs
  have hpolled : s.polled.cancelled = true := (Session.Onward.poll t s).cancelled hs
  refine ⟨s.polled, fun raise => ?_, hpolled⟩
  rw [scanMember_eq, exec_unless_stopped]
  exact if_pos hpolled

end Projects

/-! ## Requests in both modes -/

section Requests

variable {t : FileTree} {s : Session}

/-- Several results together are partial if one of them is or if one of them is missing. -/
theorem lacking_of_combineAll {root : Path} {roots : List Path} {attempts : List (Option Result)}
    {c : Combined} (h : combineAll t root roots (attempts.filterMap id) = .ok c)
    (hlength : attempts.length = roots.length) (hpartial : c.combined.isPartial = true) :
    attempts.any (Option.all Result.isPartial) = true := by
  obtain ⟨info, -, h⟩ := bind_eq_ok_iff.1 h
  cases h
  have hlacks : ((attempts.filterMap id).any (·.isPartial) ||
      decide ((attempts.filterMap id).length < roots.length)) = true := hpartial
  rw [← hlength] at hlacks
  by_cases hnone : none ∈ attempts
  · exact List.any_eq_true.2 ⟨none, hnone, rfl⟩
  · -- every project has a result
    obtain ⟨rs, rfl⟩ : attempts ∈ Set.range (List.map some) := by
      rw [Set.range_list_map]
      intro o ho
      cases o with
      | none => exact absurd ho hnone
      | some r => exact ⟨r, rfl⟩
    rw [filterMap_id_map_some, List.length_map, decide_eq_false (Nat.lt_irrefl _), Bool.or_false]
      at hlacks
    rw [List.any_map]
    exact hlacks

/-- The results of all projects are combined as long as the session is not told to stop. -/
theorem combineScanned_modes {root : Path} {infos : List Project.Info} {c : Combined}
    {attempts : List (Option Result)}
    (h : combineAll t root (infos.map (·.root)) (attempts.filterMap id) = .ok c) (s : Session) :
    ∃ s', (combineScanned t root infos attempts).exec (s.inMode false) = (.ok c, s') ∧
      s'.cancelled = s.polled.cancelled ∧
      ((combineScanned t root infos attempts).exec (s.inMode true)).1 =
        if s.polled.cancelled = true then .error (.cancelled root) else .ok c := by
  have hpoll : ∀ raise, SessionM.poll.exec (s.inMode raise) =
      (.ok s.polled.cancelled, s.polled.inMode raise) := fun _ => rfl
  have hcombine : ∀ s' : Session, (SessionM.ofExcept (combineAll t root (infos.map (·.root))
      (attempts.filterMap id))).exec s' = (.ok c, s') := by
    intro s'
    rw [h]
    rfl
  simp only [combineScanned, exec_bind_ok (hpoll _)]
  cases hcancelled : s.polled.cancelled with
  | false => exact ⟨s.polled.inMode false, hcombine _, hcancelled, congrArg Prod.fst (hcombine _)⟩
  | true =>
    have hfails := exec_stopped_raising root s.polled
    have hgoes := @exec_stopped root (s.polled.inMode false) rfl
    exact ⟨_, (exec_bind_ok hgoes).trans (hcombine _), hcancelled,
      congrArg Prod.fst (exec_bind_error hfails)⟩

/-- The scan of a project. -/
theorem scanProject_failsWhen (t : FileTree) (given : String) (s : Session) :
    FailsWhen (fun r _ => r.isPartial = true)
      (fun raise => (scanProject t given).exec (s.inMode raise)) ∧
    ∀ r s', (scanProject t given).exec (s.inMode false) = (.ok r, s') → r.isPartial = true →
      s'.cancelled = true := by
  have hscan := exec_scanProject t s.settings given
  cases hplan : (Request.project given).plan s.settings t with
  | error e =>
    rw [hplan] at hscan
    obtain ⟨e', -, rfl⟩ := mapError_eq_error_iff.1 hplan
    exact FailsWhen.of_error (fun raise => hscan (s.inMode raise) rfl) (by rintro root ⟨⟩)
  | ok plan =>
    rw [hplan] at hscan
    obtain ⟨info, -, hexec⟩ := hscan
    have hmode (raise : Bool) := hexec (s.inMode raise) rfl
    simp only [hmode]
    obtain ⟨hmodes, hfails⟩ := scanInfo_modes t info none s
    exact ⟨hfails, fun r s' => hmodes.cancelled⟩

/-- The work on all projects and what it gives together. -/
theorem scanMembers_failsWhen {root : Path} {info : Project.Info} (infos : List Project.Info)
    (hclassify : Project.classifyDir t root = .ok info) (s : Session) :
    FailsWhen (fun _ s' => s'.cancelled = true) (fun raise =>
      (SessionM.forEach infos (scanMember t root) >>= combineScanned t root infos).exec
        (s.inMode raise)) ∧
    ∀ c s', (SessionM.forEach infos (scanMember t root) >>= combineScanned t root infos).exec
      (s.inMode false) = (.ok c, s') → c.combined.isPartial = true → s'.cancelled = true := by
  have hcombine : ∀ attempts : List (Option Result), ∃ c,
      combineAll t root (infos.map (·.root)) (attempts.filterMap id) = .ok c := by
    intro attempts
    simp only [combineAll, hclassify]
    exact ⟨_, rfl⟩
  have hmodes : Modes s (fun attempts => attempts.any (Option.all Result.isPartial)) fun raise =>
      (SessionM.forEach infos (scanMember t root)).exec (s.inMode raise) :=
    .forEach (scanMember_modes t root) (scanMember_left t root) s
  cases hmodes with
  | @done attempts s₁ both kept stopped =>
    obtain ⟨c, hc⟩ := hcombine attempts
    obtain ⟨s₂, hgives, hs₂, hfails⟩ := combineScanned_modes hc s₁
    have hexec : ∀ raise, (SessionM.forEach infos (scanMember t root) >>=
        combineScanned t root infos).exec (s.inMode raise) =
        (combineScanned t root infos attempts).exec (s₁.inMode raise) :=
      fun raise => exec_bind_ok (both raise)
    simp only [hexec, hgives]
    refine ⟨.inr ⟨c, s₂, hgives, fun h => ⟨root, ?_⟩, fun h => ?_⟩, fun c' s' heq hpartial => ?_⟩
    · rw [hfails, if_pos (hs₂ ▸ h)]
    · rw [hfails, if_neg (hs₂ ▸ h)]
    · cases heq
      have hlength : attempts.length = (infos.map (·.root)).length := by
        rw [← (forall₂_of_forEach (both false)).length_eq, List.length_map]
      rw [hs₂]
      exact (Session.Onward.poll t s₁).cancelled
        (stopped (lacking_of_combineAll hc hlength hpartial))
  | @failed e both other =>
    have hexec (raise : Bool) : ((SessionM.forEach infos (scanMember t root) >>=
        combineScanned t root infos).exec (s.inMode raise)).1 = .error e :=
      congrArg Prod.fst (exec_bind_error (Prod.ext (both raise) rfl))
    refine ⟨.inl ⟨e, hexec, other⟩, fun c s' heq => ?_⟩
    have hfails := hexec false
    rw [heq] at hfails
    cases hfails
  | @parted attempts project s₁ s₁' gives fails lacking stopped stopped' =>
    obtain ⟨c, hc⟩ := hcombine attempts
    obtain ⟨s₂, hgives, hs₂, -⟩ := combineScanned_modes hc s₁
    have hcancelled : s₂.cancelled = true := hs₂.trans ((Session.Onward.poll t s₁).cancelled stopped)
    have hexec := (exec_bind_ok gives).trans hgives
    refine ⟨.inr ⟨c, s₂, hexec, fun _ => ⟨project, ?_⟩, fun h => (h hcancelled).elim⟩, ?_⟩
    · exact congrArg Prod.fst (exec_bind_error fails)
    · intro c' s' heq _
      rw [hexec] at heq
      cases heq
      exact hcancelled

/-- The scan of all projects in a directory fails with the wish to fail exactly if it is told to
stop before it is over. Only then is its result partial without that wish. -/
theorem scanAll_failsWhen (t : FileTree) (given : String) (s : Session) :
    FailsWhen (fun _ s' => s'.cancelled = true)
      (fun raise => (scanAll t given).exec (s.inMode raise)) ∧
    ∀ c s', (scanAll t given).exec (s.inMode false) = (.ok c, s') → c.combined.isPartial = true →
      s'.cancelled = true := by
  have hscan := exec_scanAll t s.settings given
  cases hplan : (Request.all given).plan s.settings t with
  | error e =>
    rw [hplan] at hscan
    obtain ⟨e', -, rfl⟩ := mapError_eq_error_iff.1 hplan
    exact FailsWhen.of_error (fun raise => hscan (s.inMode raise) rfl) (by rintro root ⟨⟩)
  | ok plan =>
    rw [hplan] at hscan
    obtain ⟨infos, entries, hfound, -, hexec⟩ := hscan
    obtain ⟨info, hclassify⟩ := Project.exists_classifyDir_of_projectsOf hfound
    have hmode (raise : Bool) : (scanAll t given).exec (s.inMode raise) =
        (SessionM.forEach infos (scanMember t plan.root) >>= combineScanned t plan.root infos).exec
          (Session.inMode { s with log := s.log ++ entries } raise) :=
      hexec (s.inMode raise) rfl
    simp only [hmode]
    exact scanMembers_failsWhen infos hclassify _

/-- Whether the result that was asked for is partial. -/
def Report.isPartial (report : Report) : Bool := report.main.any (·.isPartial)

/-- A scan in which a request to stop is a reason to fail is stopped exactly if the same scan
without that wish gives a partial result, or, if all projects of a directory are scanned, if the
request to stop comes before the results are combined. It then fails; otherwise both scans have the
same outcome. A result is partial only if there was a request to stop. -/
theorem Request.scan_modes (t : FileTree) (request : Request) (s : Session) :
    ((∃ root, ((request.scan t).exec (s.inMode true)).1 = .error (.cancelled root)) ↔
      ∃ report s', (request.scan t).exec (s.inMode false) = (.ok report, s') ∧
        (report.isPartial = true ∨ (∃ given, request = .all given) ∧ s'.cancelled = true)) ∧
    ((∀ root, ((request.scan t).exec (s.inMode true)).1 ≠ .error (.cancelled root)) →
      ((request.scan t).exec (s.inMode true)).1 = ((request.scan t).exec (s.inMode false)).1) ∧
    ∀ report s', (request.scan t).exec (s.inMode false) = (.ok report, s') →
      report.isPartial = true → s'.cancelled = true := by
  cases request with
  | project given =>
    obtain ⟨hfails, hpartial⟩ := scanProject_failsWhen t given s
    have hscan : (project given).scan t = scanProject t given >>= fun r => pure ⟨[r], none⟩ := rfl
    rw [hscan]
    have hreport : FailsWhen (fun report s' => report.isPartial = true ∨
        (∃ given', project given = .all given') ∧ s'.cancelled = true)
        fun raise => (scanProject t given >>= fun r => pure (Report.mk [r] none)).exec
          (s.inMode raise) :=
      hfails.map fun r s' _ => or_iff_left (by rintro ⟨⟨given', ⟨⟩⟩, -⟩)
    refine ⟨hreport.spec.1, hreport.spec.2, fun report s' h => ?_⟩
    obtain ⟨r, s₁, hr, hpure⟩ := exists_of_exec_bind h
    cases hpure
    exact hpartial r _ hr
  | all given =>
    obtain ⟨hfails, hpartial⟩ := scanAll_failsWhen t given s
    have hscan : (all given).scan t =
        scanAll t given >>= fun c => pure ⟨c.projects, some c.combined⟩ := rfl
    rw [hscan]
    have hreport : FailsWhen (fun report s' => report.isPartial = true ∨
        (∃ given', all given = .all given') ∧ s'.cancelled = true)
        fun raise => (scanAll t given >>= fun c =>
          pure (Report.mk c.projects (some c.combined))).exec (s.inMode raise) :=
      hfails.map fun c s' hc =>
        ⟨fun h => h.elim (hpartial c s' hc) And.right, fun h => .inr ⟨⟨given, rfl⟩, h⟩⟩
    refine ⟨hreport.spec.1, hreport.spec.2, fun report s' h => ?_⟩
    obtain ⟨c, s₁, hc, hpure⟩ := exists_of_exec_bind h
    cases hpure
    exact hpartial c _ hc

end Requests

/-! ## A late request to stop -/

/-- A directory without entries. -/
def emptyTree : FileTree := ⟨.dir [], Path.mk .root []⟩

/-- The directory as a project. -/
def emptyProject : Project.Info := ⟨.unknown, ⟨.root, []⟩, ⟨.root, []⟩, none, []⟩

/-- Nothing is in the directory. -/
theorem visited_emptyTree (descend : Path → String → Bool) :
    Project.visited emptyTree descend ⟨.root, []⟩ = [⟨⟨.root, []⟩, []⟩] := by
  have hlocate : emptyTree.locate ⟨.root, []⟩ = .ok (.dir []) := rfl
  rw [Project.visited, hlocate]
  exact Node.walk_dir_of_pairwise .nil

theorem plan_emptyTree : (Request.all "/").plan .default emptyTree =
    .ok ⟨⟨.root, []⟩, [(emptyProject, some ".")]⟩ := by
  have hroot : Project.validateRoot emptyTree "/" = .ok ⟨.root, []⟩ :=
    eq_ok_of_toOption (by decide +kernel)
  have hmarked : Project.markedDirs emptyTree Settings.default.search ⟨.root, []⟩ = [] := by
    rw [Project.markedDirs, visited_emptyTree]
    rfl
  have hprojects : Project.projectsOf emptyTree Settings.default.search ⟨.root, []⟩ [] =
      .ok [emptyProject] := eq_ok_of_toOption (by decide +kernel)
  simp only [Request.plan, hroot, bind, Except.bind, hmarked, hprojects]
  rfl

/-- A session that is told to stop when it has asked for the third time. -/
def lateSession : Session := .start .default (.new 1) fun p => 3 ≤ p.polls

/-- The project is scanned, since the session is asked only twice until then. -/
theorem exec_scanMember_emptyTree (entries : List Log.Entry) :
    ∃ entries', (scanMember emptyTree ⟨.root, []⟩ emptyProject).exec { lateSession with log := entries } =
      (.ok (some (.ofFiles emptyProject (some ".") false [] [])),
        { lateSession.polled.polled with log := entries' }) := by
  have hfiles : ∀ excludeDirs includeTests,
      Project.sourceFiles emptyTree excludeDirs includeTests emptyProject = .ok [] := by
    intro excludeDirs includeTests
    have hdir : Project.ask (emptyTree.isDir ⟨.root, []⟩) = .ok true := rfl
    simp only [Project.sourceFiles, emptyProject, hdir, bind, Except.bind, visited_emptyTree,
      List.flatMap_cons, List.flatMap_nil, Text.sorted, List.mergeSort_nil]
    rfl
  have hread : ∃ entries', (readProject emptyTree emptyProject (some ".")).exec
      { lateSession.polled with log := entries } = (.ok (.ofFiles emptyProject (some ".") false [] []),
        { lateSession.polled.polled with log := entries' }) := by
    rw [readProject, exec_get_bind]
    dsimp only
    rw [hfiles]
    exact ⟨_, rfl⟩
  obtain ⟨entries', hread⟩ := hread
  obtain ⟨entries'', hannounce⟩ := @exec_announce { lateSession.polled.polled with log := entries' }
    emptyProject (.ofFiles emptyProject (some ".") false [] []) rfl
  refine ⟨entries' ++ entries'', ?_⟩
  rw [scanMember_eq, exec_unless_stopped, if_neg (by exact Bool.false_ne_true), scanInfo_eq]
  exact exec_bind_ok ((exec_bind_ok hread).trans hannounce)

/-- A request to stop that comes when nothing is left to do is a reason to fail, though the result
is not partial. -/
theorem scan_modes_emptyTree : ∃ root report s',
    (((Request.all "/").scan emptyTree).exec (lateSession.inMode true)).1 = .error (.cancelled root) ∧
    ((Request.all "/").scan emptyTree).exec (lateSession.inMode false) = (.ok report, s') ∧
    report.isPartial = false := by
  have hgives : ∃ report s', ((Request.all "/").scan emptyTree).exec (lateSession.inMode false) =
      (.ok report, s') ∧ report.isPartial = false ∧ s'.cancelled = true := by
    have hscan := exec_scanAll emptyTree .default "/"
    rw [plan_emptyTree] at hscan
    obtain ⟨infos, entries, -, hinfos, hscan⟩ := hscan
    obtain ⟨info, rfl, hinfo⟩ := List.map_eq_singleton_iff.1 hinfos.symm
    cases hinfo
    obtain ⟨entries', hmember⟩ := exec_scanMember_emptyTree (lateSession.log ++ entries)
    have hwork : (SessionM.forEach [emptyProject] (scanMember emptyTree ⟨.root, []⟩)).exec
        { lateSession with log := lateSession.log ++ entries } =
        (.ok [some (.ofFiles emptyProject (some ".") false [] [])],
          { lateSession.polled.polled with log := entries' }) := by
      rw [exec_forEach, if_neg (by exact Bool.false_ne_true), workAll, hmember]
      rfl
    have hcombine : ∃ c, combineAll emptyTree ⟨.root, []⟩ [⟨.root, []⟩]
        [.ofFiles emptyProject (some ".") false [] []] = .ok c ∧ c.combined.isPartial = false := by
      have hclassify : Project.classifyDir emptyTree ⟨.root, []⟩ = .ok emptyProject :=
        eq_ok_of_toOption (by decide +kernel)
      rw [combineAll, hclassify]
      exact ⟨_, rfl, rfl⟩
    obtain ⟨c, hc, hwhole⟩ := hcombine
    obtain ⟨s', hgives, hs', -⟩ := @combineScanned_modes emptyTree ⟨.root, []⟩ [emptyProject] c
      [some (.ofFiles emptyProject (some ".") false [] [])] hc
      { lateSession.polled.polled with log := entries' }
    have hexec := (hscan lateSession rfl).trans ((exec_report_bind ..).trans ((exec_bind_ok hwork).trans hgives))
    have hreport := @exec_bind_ok _ _ _
      (fun c : Combined => pure (Report.mk c.projects (some c.combined))) _ _ _ hexec
    exact ⟨_, s', hreport, hwhole, hs'⟩
  obtain ⟨report, s', hexec, hwhole, hcancelled⟩ := hgives
  obtain ⟨root, hroot⟩ := (Request.scan_modes emptyTree (.all "/") lateSession).1.2
    ⟨report, s', hexec, .inr ⟨⟨"/", rfl⟩, hcancelled⟩⟩
  exact ⟨root, report, s', hroot, hexec, hwhole⟩

end AbiIndex.Scan
