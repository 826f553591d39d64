import AbiIndex.Proofs.ScanStages
import AbiIndex.Proofs.TypeGrammar

/-!
# Records and their signatures

Whatever a record comes from, a single file, a scan or a combination of scans: its signature is made
of its name and its types, it can be read back from the signature, and its selector is the digest of
the signature. This needs nothing but that the declarations were read from texts, so that it holds in
every session, however often scans were stopped and whatever the store of parsed files holds.

## Key results

- `Record.IsSigned`: what the work on declarations guarantees of every record
- `resolveUnit_isSigned`: it holds of what is resolved against names that are written in sources
- `Ensures`: work that keeps a store of parsed files, with a rule for each kind of work
- `Scanned.isSigned`: it holds of the records of all results
- `signature_faithful`: signatures can be decoded, and selectors are theirs
-/

namespace AbiIndex

open AbiIndex.Source AbiIndex.Abi

/-! ## Digests -/

namespace Digest

theorem Keccak.length_digest (message : List UInt8) : (Keccak.digest message).length = 32 := by
  simp [Keccak.digest, Keccak.bytesOfLane, List.range_succ]

theorem length_hex (bytes : List UInt8) : (hex bytes).length = 2 * bytes.length := by
  rw [hex, String.length_ofList, List.length_flatMap]
  have hbyte : ∀ b, (hexByte b).length = 2 := fun _ => rfl
  simp only [hbyte, List.map_const', List.sum_replicate_nat]
  omega

/-- Digits are lower-case. -/
theorem mem_of_mem_hex (bytes : List UInt8) : ∀ c ∈ (hex bytes).toList,
    c ∈ "0123456789abcdef".toList := by
  intro c hc
  rw [hex, String.toList_ofList] at hc
  obtain ⟨b, -, hc⟩ := List.mem_flatMap.1 hc
  have hdigit : ∀ n < 16, Nat.digitChar n ∈ "0123456789abcdef".toList := by decide
  have hb := UInt8.toNat_lt b
  simp only [hexByte, List.mem_cons, List.not_mem_nil, or_false] at hc
  rcases hc with rfl | rfl
  · exact hdigit _ (by omega)
  · exact hdigit _ (by omega)

theorem hex_append (xs ys : List UInt8) : hex (xs ++ ys) = hex xs ++ hex ys := by
  rw [← String.toList_inj]
  simp [hex]

end Digest

namespace Abi

theorem length_signatureDigest (signature : String) : (signatureDigest signature).length = 32 :=
  Digest.Keccak.length_digest _

/-- The selector of a signature, as digits of its digest. -/
theorem selector_eq (kind : SignatureKind) (signature : String) :
    selector kind signature = "0x" ++ Digest.hex
      (if kind = .event then signatureDigest signature else (signatureDigest signature).take 4) := by
  cases kind <;> rfl

/-- The selector of an event begins with what a function with the same signature has. -/
theorem functionSelector_prefix (signature : String) :
    (functionSelector signature).toList <+: (eventTopic signature).toList := by
  rw [functionSelector, eventTopic, ← List.take_append_drop 4 (signatureDigest signature),
    Digest.hex_append, List.take_left' (by simp [length_signatureDigest])]
  simp

/-! ## Records of a file -/

/-- The record is named by a word, its types are canonical, and it carries the signature and the
selector that belong to them. -/
structure Record.IsSigned (r : Record) : Prop where
  isName : isName r.name
  abiType : ∀ i ∈ r.inputs, AbiType i.type
  signature : r.signature = Abi.signature r.name (r.inputs.map (·.type))
  selector : r.selector = Abi.selector r.kind r.signature

/-- The name and the types of a record can be read off its signature. -/
theorem Record.IsSigned.decode {r : Record} (h : r.IsSigned) :
    Abi.decode r.signature = (r.name, r.inputs.map (·.type)) := by
  rw [h.signature]
  apply decode_signature h.isName
  intro type htype
  obtain ⟨i, hi, rfl⟩ := List.mem_map.1 htype
  exact h.abiType i hi

/-- The inputs of a record have the types of its signature. -/
theorem Declared.map_type_inputs {d : Declared} {types : List String}
    (h : d.parameters.length = types.length) (path : String) :
    (d.record path types).inputs.map (·.type) = types := by
  apply List.ext_getElem
  · simp [record, h]
  · intro i _ _
    simp [record]

theorem Declared.isSigned_of_resolve {reg : Registry} (hreg : reg.IsWritten) {d : Declared}
    (hd : IsSignature d.name d.parameters) {path : String} {r : Record}
    (h : d.resolve reg path = .ok (.inl r)) : r.IsSigned := by
  unfold resolve at h
  split at h
  · rename_i types htypes
    cases h
    have hforall := mapM_eq_ok_iff.1 htypes
    have hinputs := map_type_inputs hforall.length_eq path
    refine ⟨hd.1, ?_, ?_, rfl⟩
    · intro i hi
      have hmem : i.type ∈ types := by
        rw [← hinputs]
        exact List.mem_map_of_mem hi
      obtain ⟨p, hp, hcanonical⟩ := exists_of_mem_mapM htypes hmem
      obtain ⟨n, hn⟩ := canonicalWithin_sound hcanonical
      exact hn.abiType hreg (hd.2 p hp)
    · rw [hinputs]
      rfl
  · split at h <;> cases h

/-- The records of a file carry the signatures and selectors of its declarations. -/
theorem resolveUnit_isSigned {reg : Registry} (hreg : reg.IsWritten) {unit : SourceUnit}
    (hunit : unit.IsWritten) {resolved : ResolvedUnit} (h : resolveUnit reg unit = .ok resolved) :
    ∀ r ∈ resolved.records, r.IsSigned := by
  obtain ⟨outcomes, houtcomes, h⟩ := bind_eq_ok_iff.1 h
  cases h
  intro r hr
  obtain ⟨outcome, houtcome, hr⟩ := List.mem_filterMap.1 hr
  obtain ⟨d, hd, hresolve⟩ := exists_of_mem_mapM houtcomes houtcome
  cases outcome with
  | inl r' =>
    cases hr
    exact Declared.isSigned_of_resolve hreg (Declared.isSignature hunit hd) hresolve
  | inr _ => cases hr

theorem parse_isSigned {text : List Char} {path : String} {resolved : ResolvedUnit}
    (h : parse text path = .ok resolved) : ∀ r ∈ resolved.records, r.IsSigned := by
  unfold parse at h
  split at h
  · cases h
  rename_i unit hunit
  have hwritten := SourceUnit.isWritten_of_extractAs hunit
  split at h
  · cases h
  · rename_i hresolve
    cases h
    exact resolveUnit_isSigned (Registry.isWritten_ofUnits (by simpa using hwritten)) hwritten
      hresolve

end Abi

namespace Scan

/-! ## Work in a session -/

/-- The store holds only what was read from texts. -/
def HoldsWritten (cache : Cache SourceUnit) : Prop := ∀ e ∈ cache.entries, e.value.IsWritten

/-- In every session, also in one that is to stop, the work adds to the store only what was read from
texts, and what it gives, if it gives anything, is as stated. -/
def Ensures {α : Type} (work : SessionM α) (post : α → Prop) : Prop :=
  ∀ s : Session, HoldsWritten s.cache → HoldsWritten (work.exec s).2.cache ∧
    ∀ a, (work.exec s).1 = .ok a → post a

namespace Ensures

variable {α β : Type} {work : SessionM α} {post : α → Prop} {result : β → Prop}

theorem pure {a : α} (h : post a) : Ensures (Pure.pure a) post := by
  intro s hs
  refine ⟨hs, ?_⟩
  rintro _ ⟨⟩
  exact h

theorem throw (e : ScanError) : Ensures (throw e) post := by
  intro s hs
  refine ⟨hs, ?_⟩
  rintro _ ⟨⟩

theorem bind {next : α → SessionM β} (hwork : Ensures work post)
    (hnext : ∀ a, post a → Ensures (next a) result) : Ensures (work >>= next) result := by
  intro s hs
  obtain ⟨hcache, hpost⟩ := hwork s hs
  cases hrun : (work.exec s).1 with
  | error e =>
    rw [exec_bind_error (Prod.ext hrun rfl)]
    refine ⟨hcache, ?_⟩
    rintro _ ⟨⟩
  | ok a =>
    rw [exec_bind_ok (Prod.ext hrun rfl)]
    exact hnext a (hpost a hrun) _ hcache

/-- Work of whose result nothing has to be known. -/
theorem andThen {next : α → SessionM β} (hwork : Ensures work fun _ => True)
    (hnext : ∀ a, Ensures (next a) result) : Ensures (work >>= next) result :=
  hwork.bind fun a _ => hnext a

/-- Work that looks at the session finds a store as it should be. -/
theorem get {next : Session → SessionM β}
    (hnext : ∀ s : Session, HoldsWritten s.cache → Ensures (next s) result) :
    Ensures (MonadState.get >>= next) result :=
  fun s hs => hnext s hs s hs

/-- A change of the session. -/
theorem modify {change : Session → Session}
    (h : ∀ s : Session, HoldsWritten s.cache → HoldsWritten (change s).cache) :
    Ensures (modify change) fun _ => True :=
  fun s hs => ⟨h s hs, fun _ _ => trivial⟩

theorem report (entries : List Log.Entry) : Ensures (SessionM.report entries) fun _ => True :=
  modify fun _ hs => hs

theorem poll : Ensures SessionM.poll fun _ => True := by
  refine .andThen (.modify fun _ hs => hs) fun _ => .get fun _ _ => ?_
  exact .pure trivial

theorem ofExcept {outcome : Except ScanError α} (h : ∀ a, outcome = .ok a → post a) :
    Ensures (SessionM.ofExcept outcome) post := by
  cases outcome with
  | ok a => exact .pure (h a rfl)
  | error e => exact .throw e

/-- What holds of the work on each item holds of all of it, whether or not it goes on after a
failure. -/
theorem workAll {task : α → SessionM β} {items : List α} (goesOn : Bool)
    (h : ∀ a ∈ items, Ensures (task a) result) :
    Ensures (workAll goesOn task items) fun bs => ∀ b ∈ bs, result b := by
  induction items with
  | nil => exact .pure (by simp)
  | cons a as ih =>
    obtain ⟨ha, has⟩ := List.forall_mem_cons.1 h
    intro s hs
    obtain ⟨hcache, hpost⟩ := ha s hs
    obtain ⟨hcaches, hposts⟩ := ih has _ hcache
    rw [exec_workAll]
    cases houtcome : ((task a).exec s).1 with
    | error e =>
      rw [workAll_error (Prod.ext houtcome rfl)]
      refine ⟨?_, by rintro _ ⟨⟩⟩
      dsimp only
      split
      · exact hcaches
      · exact hcache
    | ok b =>
      rw [workAll_ok (Prod.ext houtcome rfl)]
      refine ⟨hcaches, fun bs hbs => ?_⟩
      obtain ⟨bs', hbs', rfl⟩ := map_eq_ok_iff.1 hbs
      exact List.forall_mem_cons.2 ⟨hpost b houtcome, hposts bs' hbs'⟩

/-- What holds of the work on each item holds of all of it, with one worker or with several. -/
theorem forEach {task : α → SessionM β} {items : List α}
    (h : ∀ a ∈ items, Ensures (task a) result) :
    Ensures (SessionM.forEach items task) fun bs => ∀ b ∈ bs, result b := by
  intro s hs
  rw [exec_forEach]
  split
  · exact ⟨hs, by rintro _ ⟨⟩⟩
  · exact workAll _ h s hs

end Ensures

/-! ## Scans -/

theorem HoldsWritten.lookUp {cache : Cache SourceUnit} (h : HoldsWritten cache) (file : LoadedFile) :
    HoldsWritten (file.lookUp cache).2 ∧
      ∀ unit, (file.lookUp cache).1 = some unit → unit.IsWritten := by
  refine ⟨fun e he => h e (Cache.mem_of_mem_get he), fun unit hunit => ?_⟩
  obtain ⟨hget, -⟩ := Option.filter_eq_some_iff.1 hunit
  obtain ⟨e, he, -, -, rfl⟩ := Cache.exists_of_get_eq_some hget
  exact h e he

theorem HoldsWritten.remember {cache : Cache SourceUnit} (h : HoldsWritten cache)
    (file : LoadedFile) : HoldsWritten (file.remember cache file.extract) := by
  intro e he
  rcases LoadedFile.mem_remember he with hold | ⟨unit, hextract, rfl⟩
  · exact h e hold
  · exact SourceUnit.isWritten_of_extractAs hextract

theorem ensures_extractFile (t : FileTree) (root path : Path) :
    Ensures (extractFile t root path) fun found =>
      ∀ outcome ∈ found, ∀ unit ∈ outcome.unit, unit.IsWritten := by
  refine .andThen .poll fun stop => ?_
  split
  · exact .pure (by simp)
  split
  -- a file that cannot be loaded has no unit
  · refine .andThen (.report _) fun _ => .pure ?_
    simp [FileOutcome.unreadable]
  · rename_i file _
    refine .andThen (.report _) fun _ => .get fun s hs => ?_
    obtain ⟨hcache, hfound⟩ := hs.lookUp file
    dsimp only
    refine .andThen (.modify fun _ _ => hcache) fun _ => ?_
    split
    -- the unit comes from the store, or else from the text of the file
    · rename_i unit hunit
      refine .pure ?_
      simpa [FileOutcome.ofUnit] using hfound unit hunit
    · refine .andThen (.modify fun _ hs => hs) fun _ => ?_
      have hlast : Ensures (do
          modify fun s => { s with cache := file.remember s.cache file.extract }
          return some (FileOutcome.ofUnit file file.extract)) fun found =>
            ∀ outcome ∈ found, ∀ unit ∈ outcome.unit, unit.IsWritten := by
        refine .andThen (.modify fun _ hs => hs.remember file) fun _ => .pure ?_
        cases hextract : file.extract with
        | error e => simp [FileOutcome.ofUnit]
        | ok unit => simpa [FileOutcome.ofUnit] using SourceUnit.isWritten_of_extractAs hextract
      split
      · exact .andThen (.report _) fun _ => hlast
      · exact hlast

theorem ensures_resolveFile {reg : Registry} (hreg : reg.IsWritten) {unit : SourceUnit}
    (hunit : unit.IsWritten) :
    Ensures (resolveFile reg unit) fun found =>
      ∀ resolved ∈ found, ∀ r ∈ resolved.records, r.IsSigned := by
  refine .andThen .poll fun stop => ?_
  split
  · exact .pure (by simp)
  refine .andThen (.modify fun _ hs => hs) fun _ => ?_
  split
  · exact .throw _
  · rename_i resolved hresolved
    refine .andThen (.report _) fun _ => .pure ?_
    simpa using resolveUnit_isSigned hreg hunit hresolved

/-- All records of the result are signed. -/
def Result.IsSigned (result : Result) : Prop := ∀ r ∈ result.records, r.IsSigned

theorem isSigned_tagged {r : Record} (h : r.IsSigned) (project : Option String) :
    (tagged project r).IsSigned := by
  unfold tagged
  split
  · exact ⟨h.isName, h.abiType, h.signature, h.selector⟩
  · exact h

/-- A result has the records of its files. -/
theorem Result.isSigned_ofFiles {resolved : List ResolvedUnit}
    (h : ∀ file ∈ resolved, ∀ r ∈ file.records, r.IsSigned) (info : Project.Info)
    (project : Option String) (isPartial : Bool) (outcomes : List FileOutcome) :
    (Result.ofFiles info project isPartial outcomes resolved).IsSigned := by
  have hpick : ∀ file ∈ resolved, ∀ contract, ∀ r ∈ (file.recordsFor contract).map (tagged project),
      r.IsSigned := by
    intro file hfile contract r hr
    obtain ⟨r₀, hr₀, rfl⟩ := List.mem_map.1 hr
    exact isSigned_tagged (h file hfile r₀ (List.mem_filter.1 hr₀).1) project
  intro r hr
  rcases List.mem_append.1 hr with hr | hr
  · obtain ⟨c, hc, hr⟩ := List.mem_flatMap.1 hr
    obtain ⟨file, hfile, hc⟩ := List.mem_flatMap.1 hc
    obtain ⟨decl, -, rfl⟩ := List.mem_map.1 hc
    exact hpick file hfile _ r hr
  · obtain ⟨file, hfile, hr⟩ := List.mem_flatMap.1 hr
    exact hpick file hfile _ r hr

/-- Combined results have the records of their parts. -/
theorem Result.isSigned_combine {results : List Result} (h : ∀ result ∈ results, result.IsSigned)
    (info : Project.Info) : (Result.combine info results).IsSigned := by
  intro r hr
  rcases List.mem_append.1 hr with hr | hr
  · obtain ⟨c, hc, hr⟩ := List.mem_flatMap.1 hr
    obtain ⟨result, hresult, hc⟩ := List.mem_flatMap.1 hc
    exact h result hresult r (List.mem_append_left _ (List.mem_flatMap.2 ⟨c, hc, hr⟩))
  · obtain ⟨result, hresult, hr⟩ := List.mem_flatMap.1 hr
    exact h result hresult r (List.mem_append_right _ hr)

theorem ensures_stopped (root : Path) : Ensures (stopped root) fun _ => True := by
  refine .andThen (.report _) fun _ => .get fun s _ => ?_
  split
  · exact .throw _
  · exact .pure trivial

/-- What is resolved against the names of the files that were read is signed. -/
theorem ensures_resolveRead (info : Project.Info) (label : Option String) (count : Nat)
    {found : List (Option FileOutcome)} (hfound : ∀ o ∈ found, ∀ outcome ∈ o,
      ∀ unit ∈ outcome.unit, unit.IsWritten) :
    Ensures (resolveRead info label count found) Result.IsSigned := by
  have hunits : ∀ unit ∈ (found.filterMap id).filterMap (·.unit), unit.IsWritten := by
    intro unit hunit
    obtain ⟨outcome, houtcome, hunit⟩ := List.mem_filterMap.1 hunit
    obtain ⟨o, ho, rfl⟩ := List.mem_filterMap.1 houtcome
    exact hfound _ ho outcome rfl unit hunit
  have hreg := Registry.isWritten_ofUnits hunits
  refine .bind (.forEach fun unit hunit => ensures_resolveFile hreg (hunits unit hunit))
    fun attempts hattempts => .andThen .poll fun cancelled => .pure ?_
  refine Result.isSigned_ofFiles (fun file hfile => ?_) info label _ _
  obtain ⟨o, ho, rfl⟩ := List.mem_filterMap.1 hfile
  exact hattempts _ ho file rfl

theorem ensures_readProject (t : FileTree) (info : Project.Info) (label : Option String) :
    Ensures (readProject t info label) Result.IsSigned := by
  refine .get fun s _ => .andThen (.ofExcept fun _ _ => trivial) fun files => ?_
  refine .andThen (.report _) fun _ => ?_
  exact .bind (.forEach fun path _ => ensures_extractFile t info.root path) fun found hfound =>
    ensures_resolveRead info label files.length hfound

/-- A result is announced as it is. -/
theorem ensures_announce (info : Project.Info) {r : Result} (h : r.IsSigned) :
    Ensures (announce info r) Result.IsSigned := by
  have hlast (entries entries' : List Log.Entry) : Ensures (do
      SessionM.report entries
      SessionM.report entries'
      return r) Result.IsSigned :=
    .andThen (.report _) fun _ => .andThen (.report _) fun _ => .pure h
  rw [announce]
  split
  · exact .andThen (ensures_stopped _) fun _ => hlast _ _
  · exact hlast _ _

theorem ensures_scanInfo (t : FileTree) (info : Project.Info) (label : Option String) :
    Ensures (scanInfo t info label) Result.IsSigned := by
  rw [scanInfo_eq]
  exact .bind (ensures_readProject t info label) fun r hr => ensures_announce info hr

theorem ensures_scanProject (t : FileTree) (given : String) :
    Ensures (scanProject t given) Result.IsSigned :=
  .get fun _ _ => .andThen (.ofExcept fun _ _ => trivial) fun info => ensures_scanInfo t info none

theorem ensures_scanMember (t : FileTree) (root : Path) (info : Project.Info) :
    Ensures (scanMember t root info) fun found => ∀ result ∈ found, result.IsSigned := by
  refine .andThen .poll fun stop => ?_
  split
  · exact .pure (by simp)
  · exact (ensures_scanInfo t info _).bind fun result hresult => .pure (by simpa using hresult)

/-- Both the results that are combined and what they give together are signed. -/
theorem ensures_combineScanned (t : FileTree) (root : Path) (infos : List Project.Info)
    {attempts : List (Option Result)} (h : ∀ o ∈ attempts, ∀ result ∈ o, result.IsSigned) :
    Ensures (combineScanned t root infos attempts) fun found =>
      (∀ result ∈ found.projects, result.IsSigned) ∧ found.combined.IsSigned := by
  have hresults : ∀ result ∈ attempts.filterMap id, result.IsSigned := by
    intro result hresult
    obtain ⟨o, ho, rfl⟩ := List.mem_filterMap.1 hresult
    exact h _ ho result rfl
  have hcombine : Ensures (SessionM.ofExcept
      (combineAll t root (infos.map (·.root)) (attempts.filterMap id))) fun found =>
        (∀ result ∈ found.projects, result.IsSigned) ∧ found.combined.IsSigned := by
    refine .ofExcept fun found hfound => ?_
    obtain ⟨info, -, hfound⟩ := bind_eq_ok_iff.1 hfound
    cases hfound
    exact ⟨hresults, Result.isSigned_combine hresults
      { info with nested := (infos.map (·.root)).filter (· ≠ root) }⟩
  refine .andThen .poll fun stop => ?_
  split
  · exact .andThen (ensures_stopped _) fun _ => hcombine
  · exact hcombine

theorem ensures_scanAll (t : FileTree) (given : String) :
    Ensures (scanAll t given) fun found =>
      (∀ result ∈ found.projects, result.IsSigned) ∧ found.combined.IsSigned := by
  rw [scanAll_eq]
  refine .get fun _ _ => .andThen (.ofExcept fun _ _ => trivial) fun ⟨root, marked, infos⟩ => ?_
  refine .andThen (.report _) fun _ => ?_
  exact .bind (.forEach fun info _ => ensures_scanMember t root info) fun attempts hattempts =>
    ensures_combineScanned t root infos hattempts

/-! ## All records -/

/-- The sessions that scans lead to. Several sessions may use one store, and entries may be removed
from it at any time. -/
inductive Session.Reachable : Session → Prop
  | start (settings : Settings) (limit : Int) (interrupt : Progress → Bool) :
      Reachable (.start settings (.new limit) interrupt)
  | share {s : Session} (h : Reachable s) (settings : Settings) (interrupt : Progress → Bool) :
      Reachable (.start settings s.cache interrupt)
  | cancel {s : Session} (h : Reachable s) : Reachable s.cancel
  | invalidate {s : Session} (h : Reachable s) (path : String) :
      Reachable { s with cache := s.cache.invalidate path }
  | clear {s : Session} (h : Reachable s) : Reachable { s with cache := s.cache.clear }
  | project {s : Session} (h : Reachable s) (t : FileTree) (given : String) :
      Reachable ((scanProject t given).exec s).2
  | all {s : Session} (h : Reachable s) (t : FileTree) (given : String) :
      Reachable ((scanAll t given).exec s).2

/-- The results of scans in such sessions, and those that they give together. -/
inductive Scanned : Result → Prop
  | project {s : Session} (hs : s.Reachable) {t : FileTree} {given : String} {result : Result}
      (h : ((scanProject t given).exec s).1 = .ok result) : Scanned result
  | member {s : Session} (hs : s.Reachable) {t : FileTree} {given : String} {found : Combined}
      (h : ((scanAll t given).exec s).1 = .ok found) {result : Result}
      (hresult : result ∈ found.projects) : Scanned result
  | all {s : Session} (hs : s.Reachable) {t : FileTree} {given : String} {found : Combined}
      (h : ((scanAll t given).exec s).1 = .ok found) : Scanned found.combined
  | combine (info : Project.Info) {results : List Result}
      (h : ∀ result ∈ results, Scanned result) : Scanned (Result.combine info results)

/-- The records of single files and of scans. -/
inductive Found : Record → Prop
  | parsed {text : List Char} {path : String} {resolved : ResolvedUnit}
      (h : parse text path = .ok resolved) {r : Record} (hr : r ∈ resolved.records) : Found r
  | scanned {result : Result} (h : Scanned result) {r : Record} (hr : r ∈ result.records) : Found r

theorem Session.Reachable.holdsWritten {s : Session} (h : s.Reachable) : HoldsWritten s.cache := by
  induction h with
  | start settings limit interrupt => exact fun e he => by cases he
  | share _ settings interrupt ih => exact ih
  | cancel _ ih => exact ih
  | invalidate _ path ih => exact fun e he => ih e (Cache.mem_others he)
  | clear _ ih => exact fun e he => by cases he
  | project _ t given ih => exact (ensures_scanProject t given _ ih).1
  | all _ t given ih => exact (ensures_scanAll t given _ ih).1

theorem Scanned.isSigned {result : Result} (h : Scanned result) : result.IsSigned := by
  induction h with
  | project hs h => exact (ensures_scanProject _ _ _ hs.holdsWritten).2 _ h
  | member hs h hresult => exact ((ensures_scanAll _ _ _ hs.holdsWritten).2 _ h).1 _ hresult
  | all hs h => exact ((ensures_scanAll _ _ _ hs.holdsWritten).2 _ h).2
  | combine info _ ih => exact Result.isSigned_combine ih info

theorem Found.isSigned {r : Record} (h : Found r) : r.IsSigned := by
  cases h with
  | parsed h hr => exact parse_isSigned h r hr
  | scanned h hr => exact h.isSigned r hr

/-- For every record of a file, a scan or a combination of scans: its signature is its name and the
list of its canonical types, and both can be read off it, so that the signatures of two records are
equal exactly if their names and types are. The selector is the digest of the signature in lower-case
digits: eight of them for functions and errors, all sixty-four for events, which start with those of a
function or error of the same signature. -/
theorem signature_faithful (r r' : Record) (h : Found r) (h' : Found r') :
    r.signature = r.name ++ "(" ++ ",".intercalate (r.inputs.map (·.type)) ++ ")" ∧
    (∀ i ∈ r.inputs, AbiType i.type) ∧
    decode r.signature = (r.name, r.inputs.map (·.type)) ∧
    (r.signature = r'.signature ↔
      r.name = r'.name ∧ r.inputs.map (·.type) = r'.inputs.map (·.type)) ∧
    (∃ digits : String, r.selector = "0x" ++ digits ∧
      (∀ c ∈ digits.toList, c ∈ "0123456789abcdef".toList) ∧
      if r.kind = .event then
        digits = Digest.hex (signatureDigest r.signature) ∧ digits.length = 64
      else digits = Digest.hex ((signatureDigest r.signature).take 4) ∧ digits.length = 8) ∧
    (r.signature = r'.signature → r.kind ≠ .event → r'.kind = .event →
      r.selector.toList <+: r'.selector.toList) := by
  have hr := h.isSigned
  have hr' := h'.isSigned
  refine ⟨hr.signature, hr.abiType, hr.decode, ⟨fun heq => ?_, fun heq => ?_⟩, ?_, ?_⟩
  · have hdecode := hr.decode
    rw [heq, hr'.decode] at hdecode
    obtain ⟨hname, htypes⟩ := Prod.mk.inj hdecode
    exact ⟨hname.symm, htypes.symm⟩
  · rw [hr.signature, hr'.signature, heq.1, heq.2]
  · refine ⟨_, selector_eq r.kind r.signature ▸ hr.selector, Digest.mem_of_mem_hex _, ?_⟩
    split
    · exact ⟨rfl, by rw [Digest.length_hex, length_signatureDigest]⟩
    · exact ⟨rfl, by rw [Digest.length_hex, List.length_take, length_signatureDigest]; rfl⟩
  · intro heq hkind hkind'
    rw [hr.selector, hr'.selector, ← heq, selector_eq, selector_eq, if_neg hkind, if_pos hkind']
    exact functionSelector_prefix r.signature

/-! ## A struct without fields -/

/-- A file in which a tuple without parts is the type of a parameter. -/
def emptyStructText : List Char := "struct S \x7b\x7d error E(S s, uint n);".toList

/-- What the text declares. -/
def emptyStructUnit : SourceUnit :=
  .ofMembers "A.sol" .contracts
    [.struct ⟨"S", [], 1⟩,
     .error ⟨"E", [⟨"s", .user ["S"], false⟩, ⟨"n", .elementary "uint", false⟩], 1, none⟩]

theorem extract_emptyStruct : SourceUnit.extract emptyStructText "A.sol" = .ok emptyStructUnit :=
  eq_ok_of_toOption (by decide +kernel)

/-- The error as a declaration with a signature. -/
def emptyStructError : Declared :=
  ⟨.error, "E", [⟨"s", .user ["S"], false⟩, ⟨"n", .elementary "uint", false⟩], none, 1, none, none,
    none, [], false⟩

theorem parse_emptyStruct : parse emptyStructText "A.sol" =
    .ok ⟨emptyStructUnit, [emptyStructError.record "A.sol" ["()", "uint256"]], []⟩ := by
  have hstruct : (Registry.ofUnits [emptyStructUnit]).resolvePath ⟨"A.sol", none⟩ ["S"] =
      .ok ⟨⟨"A.sol", none⟩, .struct ⟨"S", [], 1⟩⟩ := by rfl
  have htuple : canonical (Registry.ofUnits [emptyStructUnit]) ⟨"A.sol", none⟩ (.user ["S"]) =
      .ok "()" := by
    rw [canonical, canonicalWithin_user hstruct]
    rfl
  have hnumber : canonical (Registry.ofUnits [emptyStructUnit]) ⟨"A.sol", none⟩
      (.elementary "uint") = .ok "uint256" := by
    rw [canonical, canonicalWithin]
    rfl
  have hresolve : emptyStructError.resolve (Registry.ofUnits [emptyStructUnit]) "A.sol" =
      .ok (.inl (emptyStructError.record "A.sol" ["()", "uint256"])) := by
    have htypes : emptyStructError.parameters.mapM (fun p => canonical
        (Registry.ofUnits [emptyStructUnit]) ⟨"A.sol", emptyStructError.contract⟩ p.type) =
        .ok ["()", "uint256"] := mapM_eq_ok_iff.2 (.cons htuple (.cons hnumber .nil))
    rw [Declared.resolve, htypes]
  have hall : (Declared.ofUnit emptyStructUnit).mapM
      (fun d => d.resolve (Registry.ofUnits [emptyStructUnit]) emptyStructUnit.path) =
      .ok [.inl (emptyStructError.record "A.sol" ["()", "uint256"])] :=
    mapM_eq_ok_iff.2 (.cons hresolve .nil)
  have hunit : resolveUnit (Registry.ofUnits [emptyStructUnit]) emptyStructUnit =
      .ok ⟨emptyStructUnit, [emptyStructError.record "A.sol" ["()", "uint256"]], []⟩ :=
    bind_eq_ok_iff.2 ⟨_, hall, rfl⟩
  rw [parse, extract_emptyStruct]
  dsimp only
  rw [hunit]

/-- The signature with an empty tuple can be taken apart. -/
theorem signature_faithful_emptyTuple :
    Found (emptyStructError.record "A.sol" ["()", "uint256"]) ∧
      (emptyStructError.record "A.sol" ["()", "uint256"]).signature = "E((),uint256)" ∧
      decode "E((),uint256)" = ("E", ["()", "uint256"]) := by
  have hfound : Found (emptyStructError.record "A.sol" ["()", "uint256"]) :=
    .parsed parse_emptyStruct (List.mem_singleton_self _)
  exact ⟨hfound, by decide, (signature_faithful _ _ hfound hfound).2.2.1⟩

end Scan

end AbiIndex
