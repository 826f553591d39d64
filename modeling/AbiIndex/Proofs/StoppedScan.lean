import AbiIndex.Proofs.PartialResult

/-!
# Scans in turn that may be stopped

A session may get a request to stop at any point of its work. Every task asks for it before it
begins, and once one task was told to stop, so are all that come after it. A scan that works on its
files one after the other therefore gives all results up to some point, and none from there on.

## Key results

- `EndsAll.forEach`: the work on a list of items, with one worker or with several
- `scanInfo_yields`: the scan of a project in a session that may be stopped
- `Request.scan_answers`: the scan gives a prefix of what it gives if it is not stopped
-/

namespace AbiIndex.Scan

open AbiIndex.Abi AbiIndex.Source

/-! ## Sessions that go on -/

/-- A later state of a session in which the files of a tree are scanned. -/
structure Session.Onward (t : FileTree) (s s' : Session) : Prop where
  settings : s'.settings = s.settings
  cancelled : s.cancelled = true → s'.cancelled = true
  faithful : Faithful t s.cache → Faithful t s'.cache

namespace Session.Onward

variable {t : FileTree} {s s₁ s₂ : Session}

theorem refl (t : FileTree) (s : Session) : s.Onward t s := ⟨rfl, id, id⟩

theorem trans (h : s.Onward t s₁) (h' : s₁.Onward t s₂) : s.Onward t s₂ :=
  ⟨h'.settings.trans h.settings, h'.cancelled ∘ h.cancelled, h'.faithful ∘ h.faithful⟩

theorem advance (t : FileTree) (s : Session) (step : Progress → Progress) :
    s.Onward t (s.advance step) := by
  refine ⟨rfl, ?_, id⟩
  intro h
  show (s.cancelled || _) = true
  rw [h, Bool.true_or]

theorem poll (t : FileTree) (s : Session) : s.Onward t s.polled := advance t s _

/-- No request to stop is taken back. -/
theorem running (h : s.Onward t s₁) (hs₁ : s₁.cancelled = false) : s.cancelled = false := by
  cases hs : s.cancelled with
  | false => rfl
  | true =>
    rw [h.cancelled hs] at hs₁
    cases hs₁

/-- Messages change nothing else. -/
theorem report (t : FileTree) (s : Session) (entries : List Log.Entry) :
    s.Onward t { s with log := s.log ++ entries } := ⟨rfl, id, id⟩

end Session.Onward

/-! ## Work that may be stopped -/

section Work

variable {α β : Type} {t : FileTree}

/-- How work ends: with something good, for which a request to stop has come if it is marked, or
with a failure for which there is a reason. -/
inductive Yields (t : FileTree) (Good : β → Prop) (marked : β → Bool) (Bad : Prop) (s : Session) :
    Except ScanError β × Session → Prop
  | done {b : β} {s' : Session} (onward : s.Onward t s') (good : Good b)
      (mark : marked b = true → s'.cancelled = true) : Yields t Good marked Bad s (.ok b, s')
  | failed {e : ScanError} {s' : Session} (onward : s.Onward t s') (bad : Bad) :
      Yields t Good marked Bad s (.error e, s')

/-- How a task ends that asks first whether to stop: it is left out, or it has begun before any
request. -/
inductive Ends (t : FileTree) (Good : β → Prop) (marked : β → Bool) (Bad : Prop) (s : Session) :
    Except ScanError (Option β) × Session → Prop
  | left {s' : Session} (onward : s.Onward t s') (cancelled : s'.cancelled = true) :
      Ends t Good marked Bad s (.ok none, s')
  | done {b : β} {s' : Session} (onward : s.Onward t s') (running : s.cancelled = false)
      (good : Good b) (mark : marked b = true → s'.cancelled = true) :
      Ends t Good marked Bad s (.ok (some b), s')
  | failed {e : ScanError} {s' : Session} (onward : s.Onward t s') (bad : Bad) :
      Ends t Good marked Bad s (.error e, s')

theorem Ends.onward {Good : β → Prop} {marked : β → Bool} {Bad : Prop} {s : Session}
    {ending : Except ScanError (Option β) × Session} (h : Ends t Good marked Bad s ending) :
    s.Onward t ending.2 := by
  cases h with
  | left onward _ => exact onward
  | done onward _ _ _ => exact onward
  | failed onward _ => exact onward

theorem Ends.imp {Good : β → Prop} {marked : β → Bool} {Bad Bad' : Prop} {s : Session}
    {ending : Except ScanError (Option β) × Session} (h : Ends t Good marked Bad s ending)
    (hbad : Bad → Bad') : Ends t Good marked Bad' s ending := by
  cases h with
  | left onward cancelled => exact .left onward cancelled
  | done onward running good mark => exact .done onward running good mark
  | failed onward bad => exact .failed onward (hbad bad)

/-- How the tasks for several items end in turn. -/
inductive EndsAll (t : FileTree) (Good : α → β → Prop) (marked : β → Bool) (Bad : Prop)
    (items : List α) (s : Session) : Except ScanError (List (Option β)) × Session → Prop
  | done {bs : List (Option β)} {s' : Session} (onward : s.Onward t s')
      (attempted : Attempted .inTurn Good marked items bs)
      (begun : s.cancelled = true → bs.filterMap id = [])
      (left : none ∈ bs → s'.cancelled = true)
      (mark : ∀ b ∈ bs.filterMap id, marked b = true → s'.cancelled = true) :
      EndsAll t Good marked Bad items s (.ok bs, s')
  | failed {e : ScanError} {s' : Session} (onward : s.Onward t s') (bad : Bad) :
      EndsAll t Good marked Bad items s (.error e, s')

variable {Good : α → β → Prop} {marked : β → Bool} {Bad : Prop} {a : α} {items : List α}
  {task : α → SessionM (Option β)} {s s₁ s₂ : Session}

namespace EndsAll

theorem nil (s : Session) : EndsAll t Good marked Bad [] s (.ok [], s) :=
  .done (.refl t s) .nil (fun _ => rfl) (fun h => nomatch h) (fun _ h => nomatch h)

/-- A task in front of others. After its failure the others may still be worked on. -/
theorem cons {outcome : Except ScanError (Option β)} {rest : Except ScanError (List (Option β))}
    (head : Ends t (Good a) marked Bad s (outcome, s₁))
    (tail : EndsAll t Good marked Bad items s₁ (rest, s₂)) :
    EndsAll t Good marked Bad (a :: items) s
      (do let b ← outcome; let bs ← rest; return b :: bs, s₂) := by
  cases tail with
  | failed onward bad =>
    cases head with
    | left onward₁ _ => exact .failed (onward₁.trans onward) bad
    | done onward₁ _ _ _ => exact .failed (onward₁.trans onward) bad
    | failed onward₁ _ => exact .failed (onward₁.trans onward) bad
  | @done bs _ onward attempted begun left mark =>
    cases head with
    | failed onward₁ bad => exact .failed (onward₁.trans onward) bad
    | left onward₁ cancelled =>
      -- the session has been told to stop, so that all others are left out as well
      have hempty : bs.filterMap id = [] := begun cancelled
      refine .done (onward₁.trans onward) (.left attempted fun _ => hempty) (fun _ => hempty)
        (fun _ => onward.cancelled cancelled) ?_
      intro b hb
      rw [filterMap_id_none, hempty] at hb
      cases hb
    | @done b _ onward₁ running good mark₁ =>
      refine .done (onward₁.trans onward) (.done good attempted fun _ hb => begun (mark₁ hb)) ?_ ?_ ?_
      · intro hcancelled
        rw [running] at hcancelled
        cases hcancelled
      · intro hnone
        exact left ((List.mem_cons.1 hnone).resolve_left nofun)
      · intro b' hb'
        rw [filterMap_id_some] at hb'
        rcases List.mem_cons.1 hb' with rfl | hlater
        · exact fun hmarked => onward.cancelled (mark₁ hmarked)
        · exact mark b' hlater

/-- Items are worked on in order, whether or not the work goes on after a failure. -/
theorem workAll {goesOn : Bool} (htask : ∀ a ∈ items, ∀ s', s.Onward t s' →
      Ends t (Good a) marked Bad s' ((task a).exec s')) :
    EndsAll t Good marked Bad items s (workAll goesOn task items s) := by
  induction items generalizing s with
  | nil => exact .nil s
  | cons a items ih =>
    have hhead := htask a List.mem_cons_self s (.refl t s)
    have honward := hhead.onward
    have hrest := ih fun a' ha' s' hs' =>
      htask a' (List.mem_cons_of_mem _ ha') s' (honward.trans hs')
    rw [Scan.workAll]
    cases hexec : (task a).exec s with
    | mk outcome s₁ =>
      rw [hexec] at hhead hrest
      have hboth := cons hhead hrest
      cases outcome with
      | ok b =>
        dsimp only at hboth ⊢
        cases hall : Scan.workAll goesOn task items s₁ with
        | mk rest s₂ =>
          rw [hall] at hboth
          cases rest <;> exact hboth
      | error e =>
        cases goesOn with
        | true => exact hboth
        | false =>
          cases hhead with
          | failed onward bad => exact .failed onward bad

/-- Items are worked on in order, by one worker or by several. Without any worker nothing is done.
-/
theorem forEach (htask : ∀ a ∈ items, ∀ s', s.Onward t s' →
      Ends t (Good a) marked Bad s' ((task a).exec s'))
    (hrefused : s.settings.refuses items.length = true → Bad) :
    EndsAll t Good marked Bad items s ((SessionM.forEach items task).exec s) := by
  rw [exec_forEach]
  split
  · rename_i hrefuses
    exact .failed (.refl t s) (hrefused hrefuses)
  · exact .workAll htask

end EndsAll

namespace Yields

variable {γ : Type} {Good : β → Prop}

theorem pure {b : β} (good : Good b) (mark : marked b = true → s.cancelled = true) :
    Yields t Good marked Bad s ((Pure.pure b : SessionM β).exec s) :=
  .done (.refl t s) good mark

/-- Work that is in order, and what follows it. -/
theorem after {work : SessionM γ} {next : γ → SessionM β} {c : γ}
    (hwork : work.exec s = (.ok c, s₁)) (honward : s.Onward t s₁)
    (hnext : Yields t Good marked Bad s₁ ((next c).exec s₁)) :
    Yields t Good marked Bad s ((work >>= next).exec s) := by
  rw [exec_bind_ok hwork]
  cases hexec : (next c).exec s₁ with
  | mk outcome s₂ =>
    rw [hexec] at hnext
    cases hnext with
    | done onward good mark => exact .done (honward.trans onward) good mark
    | failed onward bad => exact .failed (honward.trans onward) bad

/-- Work that ends in either way, and what follows it. -/
theorem bind {GoodWork : γ → Prop} {markedWork : γ → Bool} {work : SessionM γ}
    {next : γ → SessionM β} (hwork : Yields t GoodWork markedWork Bad s (work.exec s))
    (hnext : ∀ c s', s.Onward t s' → GoodWork c → (markedWork c = true → s'.cancelled = true) →
      Yields t Good marked Bad s' ((next c).exec s')) :
    Yields t Good marked Bad s ((work >>= next).exec s) := by
  cases hexec : work.exec s with
  | mk outcome s' =>
    rw [hexec] at hwork
    cases hwork with
    | done onward good mark => exact after hexec onward (hnext _ s' onward good mark)
    | failed onward bad =>
      rw [exec_bind_error hexec]
      exact .failed onward bad

/-- Work that fails, whatever was to follow it. -/
theorem afterFailure {work : SessionM γ} {next : γ → SessionM β} {e : ScanError}
    (hwork : work.exec s = (.error e, s₁)) (honward : s.Onward t s₁) (bad : Bad) :
    Yields t Good marked Bad s ((work >>= next).exec s) := by
  rw [exec_bind_error hwork]
  exact .failed honward bad

/-- Tasks in turn, and what follows unless one of them fails. -/
theorem afterAll {δ : Type} {GoodItem : δ → γ → Prop} {markedItem : γ → Bool} {items : List δ}
    {work : SessionM (List (Option γ))} {next : List (Option γ) → SessionM β}
    (hwork : EndsAll t GoodItem markedItem Bad items s (work.exec s))
    (hnext : ∀ bs s', EndsAll t GoodItem markedItem Bad items s (.ok bs, s') →
      Yields t Good marked Bad s' ((next bs).exec s')) :
    Yields t Good marked Bad s ((work >>= next).exec s) := by
  cases hexec : work.exec s with
  | mk outcome s' =>
    rw [hexec] at hwork
    cases outcome with
    | error e =>
      cases hwork with
      | failed onward bad => exact afterFailure hexec onward bad
    | ok bs =>
      have hrest := hnext bs s' hwork
      cases hwork with
      | done onward _ _ _ _ => exact after hexec onward hrest

theorem afterReport {next : Unit → SessionM β} (entries : List Log.Entry)
    (hnext : Yields t Good marked Bad { s with log := s.log ++ entries }
      ((next ()).exec { s with log := s.log ++ entries })) :
    Yields t Good marked Bad s ((SessionM.report entries >>= next).exec s) :=
  after rfl (.report t s entries) hnext

theorem afterPoll {next : Bool → SessionM β}
    (hnext : Yields t Good marked Bad s.polled ((next s.polled.cancelled).exec s.polled)) :
    Yields t Good marked Bad s ((SessionM.poll >>= next).exec s) :=
  after rfl (.poll t s) hnext

theorem afterGet {next : Session → SessionM β}
    (hnext : Yields t Good marked Bad s ((next s).exec s)) :
    Yields t Good marked Bad s ((get >>= next).exec s) :=
  after rfl (.refl t s) hnext

end Yields

/-- A task that asks first whether to stop. -/
theorem Ends.unless_stopped {Good : β → Prop} {work : SessionM (Option β)}
    (hwork : ∀ s₁, s.Onward t s₁ → s₁.cancelled = false →
      Yields t (fun o => ∃ b, o = some b ∧ Good b) (·.any marked) Bad s₁ (work.exec s₁)) :
    Ends t Good marked Bad s
      ((SessionM.poll >>= fun b => if b = true then pure none else work).exec s) := by
  have honward : s.Onward t s.polled := .poll t s
  rw [exec_unless_stopped]
  split
  · rename_i hcancelled
    exact .left honward hcancelled
  · rename_i hcancelled
    have hpolled := Bool.eq_false_iff.2 hcancelled
    have hrunning := honward.running hpolled
    have hyields := hwork s.polled honward hpolled
    cases hexec : work.exec s.polled with
    | mk outcome s' =>
      rw [hexec] at hyields
      cases hyields with
      | failed onward bad => exact .failed (honward.trans onward) bad
      | done onward good mark =>
        obtain ⟨b, rfl, good⟩ := good
        exact .done (honward.trans onward) hrunning good mark

end Work

/-! ## Files -/

section Files

variable {t : FileTree} {s : Session}

/-- A file is read or found in the store, unless it is left out. -/
theorem extractFile_ends {Bad : Prop} (ht : t.top.Plain) (root path : Path)
    (hcache : Faithful t s.cache) :
    Ends t (fun o => o = FileOutcome.direct t root path) (fun _ => false) Bad s
      ((extractFile t root path).exec s) := by
  refine .unless_stopped ?_
  intro s₁ honward _
  have hcache₁ := honward.faithful hcache
  rw [FileOutcome.direct]
  cases hload : LoadedFile.load t root path with
  | error e => exact .afterReport _ (.pure ⟨_, rfl, rfl⟩ (absurd · Bool.false_ne_true))
  | ok file =>
    refine .afterReport _ (.afterGet ?_)
    have hkept := hcache₁.lookUp file
    cases hlookUp : file.lookUp s₁.cache with
    | mk found cache =>
      rw [hlookUp] at hkept
      refine .after rfl ⟨rfl, id, fun _ => hkept⟩ ?_
      cases found with
      | some unit =>
        have hextract := (Faithful.trusted ht).found hcache₁ hload (congrArg Prod.fst hlookUp)
        exact .pure ⟨_, rfl, congrArg _ hextract.symm⟩ (absurd · Bool.false_ne_true)
      | none =>
        refine .after rfl (.advance t _ _) ?_
        -- what was read is kept, whether or not there is something to report
        have hend : ∀ s₂ : Session, Faithful t s₂.cache →
            Yields t (fun o => ∃ b, o = some b ∧ b = FileOutcome.ofUnit file file.extract)
              (·.any fun _ => false) Bad s₂ ((do
                modify fun s : Session => { s with cache := file.remember s.cache file.extract }
                return some (FileOutcome.ofUnit file file.extract) : SessionM _).exec s₂) := by
          intro s₂ hcache₂
          refine .after rfl ⟨rfl, id, fun _ => ?_⟩ (.pure ⟨_, rfl, rfl⟩ (absurd · Bool.false_ne_true))
          exact hcache₂.remember ht hload
        dsimp only
        split
        · exact .afterReport _ (hend _ hkept)
        · exact hend _ hkept

/-- A file is resolved, unless it is left out. -/
theorem resolveFile_ends {Bad : Prop} {reg : Registry} {unit : SourceUnit}
    (hbad : ∀ e, s.cancelled = false → resolveUnit reg unit = .error e → Bad) :
    Ends t (fun r => resolveUnit reg unit = .ok r) (fun _ => false) Bad s
      ((resolveFile reg unit).exec s) := by
  refine .unless_stopped ?_
  intro s₁ honward hrunning
  refine .after rfl (.advance t _ _) ?_
  cases hresolve : resolveUnit reg unit with
  | error e => exact .failed (.refl t _) (hbad e (honward.running hrunning) hresolve)
  | ok r => exact .afterReport _ (.pure ⟨r, rfl, rfl⟩ (absurd · Bool.false_ne_true))

end Files

/-! ## Projects -/

section Projects

variable {t : FileTree} {s : Session}

/-- The resolution of what was read. Nothing is resolved if the session has been told to stop
before. -/
theorem resolveRead_yields {settings : Settings} {job : ProjectJob} {files : List Path} {root : Path}
    {outcomes : List (Option FileOutcome)}
    (hcontributions : job.contributions t = files.map (FileOutcome.direct t root))
    (hread : Attempted .inTurn (fun path o => o = FileOutcome.direct t root path) (fun _ => false)
      files outcomes)
    (hleft : none ∈ outcomes → s.cancelled = true) (hsettings : s.settings = settings)
    (hrefused : settings.refuses files.length = true → ∀ r, job.direct settings t ≠ .ok r) :
    Yields t (job.Gives .inTurn t) Result.isPartial (∀ r, job.direct settings t ≠ .ok r) s
      ((resolveRead job.info job.label files.length outcomes).exec s) := by
  generalize hunits : (outcomes.filterMap id).filterMap (·.unit) = units
  rw [resolveRead]
  simp only [hunits]
  refine .afterAll (.forEach (fun unit hunit s' hs' => resolveFile_ends ?_) ?_) ?_
  · -- as long as nothing is left out, all names are known
    intro e hrunning herror
    have hall : outcomes.filterMap id = job.contributions t := by
      rw [hcontributions]
      refine hread.filterMap_eq_map ?_ (fun _ _ => rfl) fun h _ => h
      intro hnone
      rw [hs'.cancelled (hleft hnone)] at hrunning
      cases hrunning
    rw [hall] at hunits
    subst hunits
    exact ProjectJob.direct_ne_ok_of_resolve hunit herror
  · -- there are at least as many files as there are to resolve
    intro hrefuses
    refine hrefused (Settings.refuses_mono ?_ (hsettings ▸ hrefuses))
    have hunits' := List.length_filterMap_le (·.unit) (outcomes.filterMap id)
    have hread' := List.length_filterMap_le id outcomes
    rw [hunits] at hunits'
    rw [hread.length_eq] at hread'
    exact hunits'.trans hread'
  intro attempts s₁ hresolved
  cases hresolved with
  | done onward attempted begun left _ =>
    have honward := onward.trans (.poll t s₁)
    have hgives := ProjectJob.gives_of_attempted hcontributions hread hunits.symm attempted
      (fun hnone => ⟨honward.cancelled (hleft hnone), begun (hleft hnone)⟩)
      (fun hnone => (Session.Onward.poll t s₁).cancelled (left hnone))
    exact .afterPoll (.pure hgives fun hmark => (Bool.and_eq_true_iff.1 hmark).1)

/-- The declarations of all files of a project are read, and then the files are resolved. -/
theorem readProject_yields {settings : Settings} (ht : t.top.Plain) (info : Project.Info)
    (label : Option String) (hsettings : s.settings = settings) (hcache : Faithful t s.cache) :
    Yields t ((ProjectJob.start settings t info label).Gives .inTurn t) Result.isPartial
      (∀ r, (ProjectJob.start settings t info label).direct settings t ≠ .ok r) s
      ((readProject t info label).exec s) := by
  refine .afterGet ?_
  dsimp only
  rw [hsettings]
  cases hfiles : Project.sourceFiles t settings.excludeDirs settings.includeTests info with
  | error e =>
    refine .afterFailure rfl (.refl t s) ?_
    rw [ProjectJob.start, hfiles]
    rintro r ⟨⟩
  | ok files =>
    have hjob : ProjectJob.start settings t info label =
        ⟨info, label, none, files.map fun path => ⟨info.root, path, .waiting⟩⟩ := by
      rw [ProjectJob.start, hfiles]
    rw [hjob]
    have hcontributions : ProjectJob.contributions t
        ⟨info, label, none, files.map fun path => ⟨info.root, path, .waiting⟩⟩ =
        files.map (FileOutcome.direct t info.root) := by
      rw [ProjectJob.contributions, List.map_map]
      rfl
    have hrefused : settings.refuses files.length = true → ∀ r, ProjectJob.direct settings t
        ⟨info, label, none, files.map fun path => ⟨info.root, path, .waiting⟩⟩ ≠ .ok r := by
      intro hrefuses
      refine ProjectJob.direct_ne_ok_of_refused ?_
      rwa [List.length_map]
    refine .after rfl (.refl t s) (.afterReport _ ?_)
    refine .afterAll (.forEach (fun path _ s' hs' =>
      extractFile_ends ht info.root path (hs'.faithful hcache))
      fun hrefuses => hrefused (hsettings ▸ hrefuses)) ?_
    intro outcomes s₁ hread
    cases hread with
    | done onward attempted _ left _ =>
      exact resolveRead_yields hcontributions attempted left (onward.settings.trans hsettings) hrefused

/-- Without the wish to fail, a result is given as it is. -/
theorem exec_announce {info : Project.Info} {r : Result} (h : s.settings.raiseOnCancel = false) :
    ∃ entries, (announce info r).exec s = (.ok r, { s with log := s.log ++ entries }) := by
  rw [announce]
  split
  · rw [exec_bind_ok (exec_stopped h), exec_report_bind, exec_report_bind]
    dsimp only
    rw [List.append_assoc, List.append_assoc]
    exact ⟨_, rfl⟩
  · dsimp only
    rw [exec_report_bind, exec_report_bind]
    dsimp only
    rw [List.append_assoc]
    exact ⟨_, rfl⟩

/-- The scan of a project in a session that may be stopped. -/
theorem scanInfo_yields {settings : Settings} (ht : t.top.Plain) (info : Project.Info)
    (label : Option String) (hraise : settings.raiseOnCancel = false)
    (hsettings : s.settings = settings) (hcache : Faithful t s.cache) :
    Yields t ((ProjectJob.start settings t info label).Gives .inTurn t) Result.isPartial
      (∀ r, (ProjectJob.start settings t info label).direct settings t ≠ .ok r) s
      ((scanInfo t info label).exec s) := by
  rw [scanInfo_eq]
  refine .bind (readProject_yields ht info label hsettings hcache) ?_
  intro r s₁ onward good mark
  obtain ⟨entries, hexec⟩ := @exec_announce s₁ info r (by rw [onward.settings, hsettings, hraise])
  rw [hexec]
  exact .done (.report t s₁ entries) good mark

end Projects

/-! ## Requests -/

section Requests

variable {t : FileTree} {settings : Settings} {s : Session}

/-- The scan of one of several projects in a session that may be stopped. -/
theorem scanMember_ends (ht : t.top.Plain) (root : Path) (info : Project.Info)
    (hraise : settings.raiseOnCancel = false) (hsettings : s.settings = settings)
    (hcache : Faithful t s.cache) :
    Ends t ((ProjectJob.start settings t info (some (root.label info.root))).Gives .inTurn t)
      Result.isPartial (∀ r, (ProjectJob.start settings t info
        (some (root.label info.root))).direct settings t ≠ .ok r) s
      ((scanMember t root info).exec s) := by
  refine .unless_stopped ?_
  intro s₁ honward _
  refine .bind (scanInfo_yields ht info _ hraise (honward.settings.trans hsettings)
    (honward.faithful hcache)) ?_
  intro r s₂ _ good mark
  exact .pure ⟨r, rfl, good⟩ mark

/-- Without the wish to fail, the results are combined in any case. -/
theorem exec_combineScanned {root : Path} {infos : List Project.Info}
    {attempts : List (Option Result)} (hraise : s.settings.raiseOnCancel = false) :
    ((combineScanned t root infos attempts).exec s).1 =
      combineAll t root (infos.map (·.root)) (attempts.filterMap id) := by
  have hcombine : ∀ s' : Session, ((SessionM.ofExcept (combineAll t root (infos.map (·.root))
      (attempts.filterMap id))).exec s').1 =
      combineAll t root (infos.map (·.root)) (attempts.filterMap id) := by
    intro s'
    cases combineAll t root (infos.map (·.root)) (attempts.filterMap id) <;> rfl
  have hpoll : SessionM.poll.exec s = (.ok s.polled.cancelled, s.polled) := rfl
  rw [combineScanned, exec_bind_ok hpoll]
  split
  · dsimp only
    rw [exec_bind_ok (exec_stopped (s := s.polled) hraise)]
    exact hcombine _
  · exact hcombine _

namespace Request

/-- A scan of a single project that may be stopped. -/
theorem scan_answers_project (ht : t.top.Plain) (hraise : settings.raiseOnCancel = false)
    (hsettings : s.settings = settings) (hcache : Faithful t s.cache) (given : String) :
    (project given).Answers .inTurn settings t (((project given).scan t).exec s).1 := by
  have hscan := exec_scanProject t settings given
  cases hplan : (project given).plan settings t with
  | error e =>
    rw [hplan] at hscan
    rw [scan, exec_bind_error (hscan s (congrArg _ hsettings))]
    exact answers_error_of_plan hplan
  | ok plan =>
    rw [hplan] at hscan
    obtain ⟨info, hprojects, hexec⟩ := hscan
    have hscan := hexec s (congrArg _ hsettings)
    have hstart : (project given).start settings t = [ProjectJob.start settings t info none] := by
      rw [start, hplan]
      simp only [hprojects, List.map_cons, List.map_nil]
    have hyields := scanInfo_yields ht info none hraise hsettings hcache
    cases hexec : (scanInfo t info none).exec s with
    | mk outcome s' =>
      rw [hexec] at hscan hyields
      cases hyields with
      | failed _ bad =>
        rw [scan, exec_bind_error hscan]
        refine answers_error_of_job ?_ bad
        rw [hstart]
        exact List.mem_singleton_self _
      | @done r _ _ good _ =>
        have hgives : GivesAll .inTurn t ((project given).start settings t) [some r] := by
          rw [hstart]
          exact .done good .nil fun _ _ => rfl
        rw [scan, exec_bind_ok hscan]
        exact answers_conclude hplan hgives (by simp)

/-- A scan of all projects in a directory that may be stopped. -/
theorem scan_answers_all (ht : t.top.Plain) (hraise : settings.raiseOnCancel = false)
    (hsettings : s.settings = settings) (hcache : Faithful t s.cache) (given : String) :
    (all given).Answers .inTurn settings t (((all given).scan t).exec s).1 := by
  have hscan := exec_scanAll t settings given
  cases hplan : (all given).plan settings t with
  | error e =>
    rw [hplan] at hscan
    rw [scan, exec_bind_error (hscan s (congrArg _ hsettings))]
    exact answers_error_of_plan hplan
  | ok plan =>
    rw [hplan] at hscan
    obtain ⟨infos, entries, -, hprojects, hexec⟩ := hscan
    have hscan := hexec s (congrArg _ hsettings)
    have hstart : (all given).start settings t = infos.map fun info =>
        ProjectJob.start settings t info (some (plan.root.label info.root)) := by
      rw [start, hplan]
      simp only [hprojects, List.map_map]
      rfl
    have hends : ∀ s₁ : Session, s.Onward t s₁ → EndsAll t (fun info => (ProjectJob.start settings t
        info (some (plan.root.label info.root))).Gives .inTurn t) Result.isPartial
        (∀ e, (all given).Answers .inTurn settings t (.error e)) infos s₁
        ((SessionM.forEach infos (scanMember t plan.root)).exec s₁) := by
      intro s₁ onward
      have hsettings₁ := onward.settings.trans hsettings
      refine .forEach (fun info hinfo s₂ onward₁ => ?_) fun hrefuses e => ?_
      · refine (scanMember_ends ht plan.root info hraise (onward₁.settings.trans hsettings₁)
          (onward₁.faithful (onward.faithful hcache))).imp fun bad e => ?_
        refine answers_error_of_job ?_ bad
        rw [hstart]
        exact List.mem_map_of_mem hinfo
      · refine answers_error_of_refused hplan ?_
        rw [hprojects, List.length_map, ← hsettings₁]
        exact hrefuses
    have hreport : (SessionM.report entries).exec s =
        (.ok (), { s with log := s.log ++ entries }) := rfl
    rw [exec_bind_ok hreport] at hscan
    have hends₁ := hends _ (.report t s entries)
    cases hexec : (SessionM.forEach infos (scanMember t plan.root)).exec
        { s with log := s.log ++ entries } with
    | mk outcome s₁ =>
      rw [hexec] at hends₁
      cases hends₁ with
      | failed _ bad =>
        rw [exec_bind_error hexec] at hscan
        rw [scan, exec_bind_error hscan]
        exact bad _
      | @done attempts _ onward attempted _ _ _ =>
        have hgives : GivesAll .inTurn t ((all given).start settings t) attempts := by
          rw [hstart]
          exact attempted.map
        have hraise₁ : s₁.settings.raiseOnCancel = false := by
          rw [onward.settings, hsettings, hraise]
        have hfound := @exec_combineScanned t s₁ plan.root infos attempts hraise₁
        rw [exec_bind_ok hexec] at hscan
        have houtcome : (((all given).scan t).exec s).1 =
            (all given).conclude t plan (attempts.filterMap id) := by
          rw [scan, exec_map, hscan, hfound, conclude, hprojects, List.map_map]
          rfl
        rw [houtcome]
        exact answers_conclude hplan hgives (by rintro project ⟨⟩)

/-- A scan that may be stopped gives a prefix of what it gives otherwise, and fails only if it would
fail anyway. -/
theorem scan_answers (ht : t.top.Plain) (hraise : settings.raiseOnCancel = false)
    (hsettings : s.settings = settings) (hcache : Faithful t s.cache) (request : Request) :
    request.Answers .inTurn settings t ((request.scan t).exec s).1 := by
  cases request with
  | project given => exact scan_answers_project ht hraise hsettings hcache given
  | all given => exact scan_answers_all ht hraise hsettings hcache given

end Request

end Requests

end AbiIndex.Scan
