import Mathlib
import RecordFilter.Cli.Run
import RecordFilter.Like.Counted
import RecordFilter.Proofs.Compile.Simulation
import RecordFilter.Proofs.Filter.Traverse
import RecordFilter.Proofs.Json.Texts

/-!
# Selecting documents from files

The command `filter` as a whole, over any file system whose files can be read without a change, and
whichever markers are drawn for its filter. `Stops` lists, stage by stage, why it gives up before it
has anything to write; each stage comes with the success of all stages before it, so that the reason
is the first one there is. `Finds` is the success of them all.

Each step of the command is characterized by its answers: those it succeeds with and those it fails
with (`exec_load_eq_ok_iff`, `exec_load_eq_error_iff` and so on), and in both cases it has only
read. What the command then writes are the documents that match, all of them and in their order, as
a text of their array (`isTextOf_selected`), or nothing at all (`filter_writes_matches_or_nothing`).
-/

namespace RecordFilter.Cli

open RecordFilter.Filter.Node

variable {σ ε α β : Type}

/-! ## Files that are only read -/

/-- Reading a file changes nothing. -/
def Files.ReadsOnly (files : Files (StateM σ)) : Prop := ∀ path s, (files.read path s).2 = s

/-- What reading a path answers in a state. -/
def Files.held (files : Files (StateM σ)) (s : σ) (path : String) : Except String String :=
  (files.read path s).1

theorem Files.ReadsOnly.exec_read {files : Files (StateM σ)} (h : files.ReadsOnly) (path : String)
    (s : σ) : exec (liftM (files.read path) : ExceptT ε (StateM σ) _) s =
      (.ok (files.held s path), s) := by
  rw [exec_lift, h]
  rfl

/-- The files of a directory can be read without a change. -/
theorem Directory.readsOnly_files : Directory.files.ReadsOnly := fun _ _ => rfl

/-! ## The stages -/

/-- The arguments of the command. -/
structure Selection where
  schema : String
  entity : String
  filter : String
  input : String
  naming : Option Naming
  settings : Option String
  output : Option String

namespace Selection

/-- The command with its arguments. -/
def command (q : Selection) : Command :=
  .filter q.schema q.entity q.filter q.input q.naming q.settings q.output

end Selection

section Stages

-- what the files hold, and the markers that are drawn
variable (held : String → Except String String) (draws : Like.Draws)

/-- The settings to work with: those of a file, or the defaults without one. -/
inductive HasSettings : Option String → Settings → Prop
  | default : HasSettings none {}
  | file {path text : String} {st : Settings} (hfile : held path = .ok text)
      (hread : Settings.read text.toList = some st) : HasSettings (some path) st

/-- Why there are no settings to work with. -/
inductive NoSettings : Option String → Failure → Prop
  | file {path system : String} (hfile : held path = .error system) :
      NoSettings (some path) (.settingsFile path system)
  | text {path text : String} (hfile : held path = .ok text)
      (hread : Settings.read text.toList = none) : NoSettings (some path) .settings

/-- The registry of a schema document. -/
def HasRegistry (path : String) (r : Registry) : Prop :=
  ∃ text, held path = .ok text ∧ Registry.read text.toList = .ok r

/-- What is there before the input is looked at: the settings, the entity of the schema document,
and the filter compiled with the convention of the arguments or else that of the settings. -/
def Loads (q : Selection) (l : Loaded) : Prop :=
  ∃ st r, HasSettings held q.settings st ∧ HasRegistry held q.schema r ∧
    r.get? q.entity = some l.entity ∧ l.naming = q.naming.getD st.naming ∧
    (r.compileText q.entity l.naming q.filter draws).1 = .ok l.predicate

/-- **Why nothing can be loaded.** The stages are in their order, and for each of them all those
before it succeed. -/
inductive LoadStops (q : Selection) : Failure → Prop
  | settings {e : Failure} (h : NoSettings held q.settings e) : LoadStops q e
  | schemaFile {st : Settings} {system : String} (hsettings : HasSettings held q.settings st)
      (h : held q.schema = .error system) : LoadStops q (.file system)
  | schema {st : Settings} {text : String} {cause : SchemaError}
      (hsettings : HasSettings held q.settings st) (hfile : held q.schema = .ok text)
      (h : Registry.read text.toList = .error cause) : LoadStops q (.schema cause)
  | entity {st : Settings} {r : Registry} (hsettings : HasSettings held q.settings st)
      (hregistry : HasRegistry held q.schema r) (h : r.get? q.entity = none) :
      LoadStops q (.unknownEntity q.entity)
  | filter {st : Settings} {r : Registry} {e : Entity} {cause : CompileError}
      (hsettings : HasSettings held q.settings st) (hregistry : HasRegistry held q.schema r)
      (hentity : r.get? q.entity = some e)
      (h : (r.compileText q.entity (q.naming.getD st.naming) q.filter draws).1 = .error cause) :
      LoadStops q (.ofCompileError cause)

/-- The documents of an input file that is a JSON array. -/
def HasDocuments (path : String) (documents : List Json) : Prop :=
  ∃ text, held path = .ok text ∧ Json.read text.toList = some (.array documents)

/-- Why no documents can be selected from the input, once the filter is loaded. Of several documents
that are no records it is the first, whatever records stand before it. -/
inductive InputStops (l : Loaded) (path : String) : Failure → Prop
  | file {system : String} (h : held path = .error system) : InputStops l path (.file system)
  | text {text : String} (hfile : held path = .ok text) (h : Json.read text.toList = none) :
      InputStops l path .records
  | array {text : String} {j : Json} (hfile : held path = .ok text)
      (hread : Json.read text.toList = some j) (h : ∀ documents, j ≠ .array documents) :
      InputStops l path .notAnArray
  | record {before after : List Json} {d : Json} {cause : Record.ReadError}
      (hinput : HasDocuments held path (before ++ d :: after))
      (hbefore : AllOk (Record.ofJson l.entity) before)
      (h : Record.ofJson l.entity d = .error cause) : InputStops l path (.record cause)

/-- **Why the command has nothing to write.** -/
inductive Stops (q : Selection) : Failure → Prop
  | load {e : Failure} (h : LoadStops held draws q e) : Stops q e
  | input {l : Loaded} {e : Failure} (hloads : Loads held draws q l)
      (h : InputStops held l q.input e) : Stops q e

/-- All stages succeed: the documents are those of the input, and each of them is a record. -/
structure Finds (q : Selection) (l : Loaded) (documents : List Json) : Prop where
  loads : Loads held draws q l
  input : HasDocuments held q.input documents
  records : AllOk (Record.ofJson l.entity) documents

variable {held draws}

theorem HasSettings.unique {settings : Option String} {st st' : Settings}
    (h : HasSettings held settings st) (h' : HasSettings held settings st') : st = st' := by
  cases h with
  | default => cases h' with
    | default => rfl
  | file hfile hread => cases h' with
    | file hfile' hread' =>
      obtain rfl := Except.ok.inj (hfile.symm.trans hfile')
      exact Option.some.inj (hread.symm.trans hread')

theorem HasRegistry.unique {path : String} {r r' : Registry} (h : HasRegistry held path r)
    (h' : HasRegistry held path r') : r = r' := by
  obtain ⟨text, hfile, hread⟩ := h
  obtain ⟨text', hfile', hread'⟩ := h'
  obtain rfl := Except.ok.inj (hfile.symm.trans hfile')
  exact Except.ok.inj (hread.symm.trans hread')

theorem HasDocuments.unique {path : String} {documents documents' : List Json}
    (h : HasDocuments held path documents) (h' : HasDocuments held path documents') :
    documents = documents' := by
  obtain ⟨text, hfile, hread⟩ := h
  obtain ⟨text', hfile', hread'⟩ := h'
  obtain rfl := Except.ok.inj (hfile.symm.trans hfile')
  exact Json.array.inj (Option.some.inj (hread.symm.trans hread'))

theorem Loads.unique {q : Selection} {l l' : Loaded} (h : Loads held draws q l)
    (h' : Loads held draws q l') : l = l' := by
  obtain ⟨st, r, hst, hr, hentity, hnaming, hcompile⟩ := h
  obtain ⟨st', r', hst', hr', hentity', hnaming', hcompile'⟩ := h'
  obtain rfl := hst.unique hst'
  obtain rfl := hr.unique hr'
  have hn : l.naming = l'.naming := hnaming.trans hnaming'.symm
  have he := Option.some.inj (hentity.symm.trans hentity')
  rw [← hn] at hcompile'
  have hp := Except.ok.inj (hcompile.symm.trans hcompile')
  cases l
  cases l'
  simp_all

/-- There is one selection at most. -/
theorem Finds.unique {q : Selection} {l l' : Loaded} {documents documents' : List Json}
    (h : Finds held draws q l documents) (h' : Finds held draws q l' documents') :
    l = l' ∧ documents = documents' :=
  ⟨h.loads.unique h'.loads, h.input.unique h'.input⟩

end Stages

namespace Loaded

/-- The record that a document is satisfies the predicate. -/
def accepts (l : Loaded) (d : Json) : Bool :=
  match Record.ofJson l.entity d with
  | .ok r => l.predicate.evaluate r.get
  | .error _ => false

/-- The array of the documents that match, in their order, as it is written. -/
def selected (l : Loaded) (documents : List Json) : String :=
  pretty (.array ((documents.filter l.accepts).map Json.toRaw))

end Loaded

/-! ## Loading -/

variable {files : Files (StateM σ)} {draws : Like.Draws} {s s' : σ}

theorem exec_readInput (hreads : files.ReadsOnly) (path : String) (s : σ) :
    exec (readInput files path) s = ((files.held s path).mapError .file, s) := by
  unfold readInput
  rw [exec_bind, hreads.exec_read]
  cases files.held s path <;> rfl

theorem exec_loadSettings_eq_ok_iff (hreads : files.ReadsOnly) {settings : Option String}
    {st : Settings} : exec (loadSettings files settings) s = (.ok st, s') ↔
      HasSettings (files.held s) settings st ∧ s' = s := by
  constructor
  · intro h
    rcases settings with _ | path
    · cases h
      exact ⟨.default, rfl⟩
    · rw [loadSettings, exec_bind, hreads.exec_read] at h
      rcases hfile : files.held s path with system | text <;> simp only [hfile] at h
      · cases h
      · rcases hread : Settings.read text.toList with _ | st' <;> simp only [hread] at h
        · cases h
        · cases h
          exact ⟨.file hfile hread, rfl⟩
  · rintro ⟨hsettings, rfl⟩
    cases hsettings with
    | default => rfl
    | file hfile hread =>
      rw [loadSettings, exec_bind, hreads.exec_read]
      simp [hfile, hread]

theorem exec_loadSettings_eq_error_iff (hreads : files.ReadsOnly) {settings : Option String}
    {e : Failure} : exec (loadSettings files settings) s = (.error e, s') ↔
      NoSettings (files.held s) settings e ∧ s' = s := by
  constructor
  · intro h
    rcases settings with _ | path
    · cases h
    · rw [loadSettings, exec_bind, hreads.exec_read] at h
      rcases hfile : files.held s path with system | text <;> simp only [hfile] at h
      · cases h
        exact ⟨.file hfile, rfl⟩
      · rcases hread : Settings.read text.toList with _ | st' <;> simp only [hread] at h
        · cases h
          exact ⟨.text hfile hread, rfl⟩
        · cases h
  · rintro ⟨hsettings, rfl⟩
    cases hsettings with
    | file hfile =>
      rw [loadSettings, exec_bind, hreads.exec_read]
      simp [hfile]
    | text hfile hread =>
      rw [loadSettings, exec_bind, hreads.exec_read]
      simp [hfile, hread]

theorem exec_load_eq_ok_iff (hreads : files.ReadsOnly) {q : Selection} {l : Loaded} :
    exec (load files draws q.schema q.entity q.filter q.naming q.settings) s = (.ok l, s') ↔
      Loads (files.held s) draws q l ∧ s' = s := by
  simp only [load, exec_bind_eq_ok_iff, exec_loadSettings_eq_ok_iff hreads, exec_readInput hreads,
    exec_liftExcept, Prod.mk.injEq, mapError_eq_ok_iff]
  constructor
  · rintro ⟨st, _, ⟨hst, rfl⟩, text, _, ⟨htext, rfl⟩, r, _, ⟨hr, rfl⟩, h⟩
    cases he : r.get? q.entity with
    | none =>
      rw [he] at h
      cases h
    | some e =>
      simp only [he, exec_bind_eq_ok_iff, exec_liftExcept, Prod.mk.injEq, mapError_eq_ok_iff] at h
      obtain ⟨p, _, ⟨hp, rfl⟩, h⟩ := h
      cases h
      exact ⟨⟨st, r, hst, ⟨text, htext, hr⟩, he, rfl, hp⟩, rfl⟩
  · rintro ⟨⟨st, r, hst, ⟨text, htext, hr⟩, he, hn, hp⟩, rfl⟩
    refine ⟨st, s', ⟨hst, rfl⟩, text, s', ⟨htext, rfl⟩, r, s', ⟨hr, rfl⟩, ?_⟩
    simp only [he, exec_bind, exec_liftExcept, ← hn, hp]
    rfl

theorem exec_load_eq_error_iff (hreads : files.ReadsOnly) {q : Selection} {e : Failure} :
    exec (load files draws q.schema q.entity q.filter q.naming q.settings) s = (.error e, s') ↔
      LoadStops (files.held s) draws q e ∧ s' = s := by
  simp only [load, exec_bind_eq_error_iff, exec_loadSettings_eq_ok_iff hreads,
    exec_loadSettings_eq_error_iff hreads, exec_readInput hreads, exec_liftExcept, Prod.mk.injEq,
    mapError_eq_ok_iff, mapError_eq_error_iff]
  constructor
  · rintro (⟨h, rfl⟩ | ⟨st, _, ⟨hst, rfl⟩, ⟨⟨system, h, rfl⟩, rfl⟩ |
      ⟨text, _, ⟨htext, rfl⟩, ⟨⟨cause, h, rfl⟩, rfl⟩ | ⟨r, _, ⟨hr, rfl⟩, h⟩⟩⟩)
    · exact ⟨.settings h, rfl⟩
    · exact ⟨.schemaFile hst h, rfl⟩
    · exact ⟨.schema hst htext h, rfl⟩
    · cases he : r.get? q.entity with
      | none =>
        rw [he] at h
        cases h
        exact ⟨.entity hst ⟨text, htext, hr⟩ he, rfl⟩
      | some entity =>
        simp only [he, exec_bind_eq_error_iff, exec_liftExcept, Prod.mk.injEq,
          mapError_eq_error_iff] at h
        rcases h with ⟨⟨cause, h, rfl⟩, rfl⟩ | ⟨_, _, -, h⟩
        · exact ⟨.filter hst ⟨text, htext, hr⟩ he h, rfl⟩
        · cases h
  · rintro ⟨h, rfl⟩
    cases h with
    | settings h => exact .inl ⟨h, rfl⟩
    | schemaFile hst h => exact .inr ⟨_, s', ⟨hst, rfl⟩, .inl ⟨⟨_, h, rfl⟩, rfl⟩⟩
    | schema hst htext h =>
      exact .inr ⟨_, s', ⟨hst, rfl⟩, .inr ⟨_, s', ⟨htext, rfl⟩, .inl ⟨⟨_, h, rfl⟩, rfl⟩⟩⟩
    | entity hst hregistry h =>
      obtain ⟨text, htext, hr⟩ := hregistry
      refine .inr ⟨_, s', ⟨hst, rfl⟩, .inr ⟨_, s', ⟨htext, rfl⟩, .inr ⟨_, s', ⟨hr, rfl⟩, ?_⟩⟩⟩
      simp [h]
    | filter hst hregistry he h =>
      obtain ⟨text, htext, hr⟩ := hregistry
      refine .inr ⟨_, s', ⟨hst, rfl⟩, .inr ⟨_, s', ⟨htext, rfl⟩, .inr ⟨_, s', ⟨hr, rfl⟩, ?_⟩⟩⟩
      simp only [he, exec_bind, exec_liftExcept, h]
      rfl

/-! ## Selecting -/

/-- A document with its record. -/
def pairWithRecord (e : Entity) (d : Json) : Except Failure (Json × Record) :=
  ((Record.ofJson e d).mapError Failure.record).map fun r => (d, r)

theorem pairWithRecord_eq_ok_iff {e : Entity} {d : Json} {pair : Json × Record} :
    pairWithRecord e d = .ok pair ↔ pair.1 = d ∧ Record.ofJson e d = .ok pair.2 := by
  unfold pairWithRecord
  obtain ⟨d', r⟩ := pair
  cases Record.ofJson e d <;> simp [Except.map, Except.mapError, eq_comm]

theorem pairWithRecord_eq_error_iff {e : Entity} {d : Json} {failure : Failure} :
    pairWithRecord e d = .error failure ↔
      ∃ cause, Record.ofJson e d = .error cause ∧ failure = .record cause := by
  unfold pairWithRecord
  cases Record.ofJson e d <;> simp [Except.map, Except.mapError, eq_comm]

theorem allOk_pairWithRecord {e : Entity} {documents : List Json} :
    AllOk (pairWithRecord e) documents ↔ AllOk (Record.ofJson e) documents := by
  simp [AllOk, pairWithRecord_eq_ok_iff]

/-- Choosing among the records is choosing among the documents. -/
theorem filter_pairs {l : Loaded} {documents : List Json} {pairs : List (Json × Record)}
    (h : documents.mapM (pairWithRecord l.entity) = .ok pairs) :
    (pairs.filter fun (_, r) => l.predicate.evaluate r.get).map (·.1) =
      documents.filter l.accepts := by
  have hpairs := mapM_eq_ok_iff.1 h
  clear h
  induction hpairs with
  | nil => rfl
  | @cons d pair documents pairs hpair _ ih =>
    obtain ⟨d', r⟩ := pair
    obtain ⟨rfl, hrecord⟩ := pairWithRecord_eq_ok_iff.1 hpair
    have haccepts : l.accepts d' = l.predicate.evaluate r.get := by
      rw [Loaded.accepts, hrecord]
    by_cases hholds : l.predicate.evaluate r.get = true
    · simp [haccepts, hholds, ih]
    · simp [haccepts, hholds, ih]

theorem selectDocuments_eq_ok_iff {l : Loaded} {documents selected : List Json} :
    selectDocuments l.entity l.predicate documents = .ok selected ↔
      AllOk (Record.ofJson l.entity) documents ∧ selected = documents.filter l.accepts := by
  rw [← allOk_pairWithRecord, ← exists_mapM_eq_ok_iff]
  change (documents.mapM (pairWithRecord l.entity) >>= _) = _ ↔ _
  rw [bind_eq_ok_iff]
  constructor
  · rintro ⟨pairs, hpairs, ⟨⟩⟩
    exact ⟨⟨pairs, hpairs⟩, filter_pairs hpairs⟩
  · rintro ⟨⟨pairs, hpairs⟩, rfl⟩
    exact ⟨pairs, hpairs, congrArg Except.ok (filter_pairs hpairs)⟩

theorem selectDocuments_eq_error_iff {l : Loaded} {documents : List Json} {e : Failure} :
    selectDocuments l.entity l.predicate documents = .error e ↔
      ∃ before d after cause, documents = before ++ d :: after ∧
        AllOk (Record.ofJson l.entity) before ∧ Record.ofJson l.entity d = .error cause ∧
        e = .record cause := by
  change (documents.mapM (pairWithRecord l.entity) >>= _) = _ ↔ _
  rw [bind_eq_error_iff, mapM_eq_error_iff, firstError_iff_split]
  simp only [allOk_pairWithRecord, pairWithRecord_eq_error_iff]
  constructor
  · rintro (⟨before, d, after, hsplit, hbefore, cause, hd, he⟩ | ⟨_, _, ⟨⟩⟩)
    exact ⟨before, d, after, cause, hsplit, hbefore, hd, he⟩
  · rintro ⟨before, d, after, cause, hsplit, hbefore, hd, he⟩
    exact .inl ⟨before, d, after, hsplit, hbefore, cause, hd, he⟩

theorem exec_selectFrom_eq_ok_iff (hreads : files.ReadsOnly) {l : Loaded} {path : String}
    {selected : List Json} {total : Nat} :
    exec (selectFrom files l path) s = (.ok (selected, total), s') ↔
      (∃ documents, HasDocuments (files.held s) path documents ∧
        AllOk (Record.ofJson l.entity) documents ∧ selected = documents.filter l.accepts ∧
        total = documents.length) ∧ s' = s := by
  simp only [selectFrom, exec_bind_eq_ok_iff, exec_readInput hreads, Prod.mk.injEq,
    mapError_eq_ok_iff]
  constructor
  · rintro ⟨text, _, ⟨htext, rfl⟩, h⟩
    split at h
    · cases h
    · rename_i documents hread
      simp only [exec_bind_eq_ok_iff, exec_liftExcept, Prod.mk.injEq] at h
      obtain ⟨_, _, ⟨hselected, rfl⟩, h⟩ := h
      cases h
      obtain ⟨hrecords, rfl⟩ := selectDocuments_eq_ok_iff.1 hselected
      exact ⟨⟨documents, ⟨text, htext, hread⟩, hrecords, rfl, rfl⟩, rfl⟩
    · cases h
  · rintro ⟨⟨documents, ⟨text, htext, hread⟩, hrecords, rfl, rfl⟩, rfl⟩
    refine ⟨text, s', ⟨htext, rfl⟩, ?_⟩
    simp only [hread, exec_bind, exec_liftExcept, selectDocuments_eq_ok_iff.2 ⟨hrecords, rfl⟩]
    rfl

theorem exec_selectFrom_eq_error_iff (hreads : files.ReadsOnly) {l : Loaded} {path : String}
    {e : Failure} : exec (selectFrom files l path) s = (.error e, s') ↔
      InputStops (files.held s) l path e ∧ s' = s := by
  simp only [selectFrom, exec_bind_eq_error_iff, exec_readInput hreads, Prod.mk.injEq,
    mapError_eq_ok_iff, mapError_eq_error_iff]
  constructor
  · rintro (⟨⟨system, h, rfl⟩, rfl⟩ | ⟨text, _, ⟨htext, rfl⟩, h⟩)
    · exact ⟨.file h, rfl⟩
    · split at h
      · rename_i hread
        cases h
        exact ⟨.text htext hread, rfl⟩
      · rename_i documents hread
        simp only [exec_bind_eq_error_iff, exec_liftExcept, Prod.mk.injEq] at h
        rcases h with ⟨hselected, rfl⟩ | ⟨_, _, -, h⟩
        · obtain ⟨before, d, after, cause, rfl, hbefore, hd, rfl⟩ :=
            selectDocuments_eq_error_iff.1 hselected
          exact ⟨.record ⟨text, htext, hread⟩ hbefore hd, rfl⟩
        · cases h
      · rename_i j harray hread
        cases h
        exact ⟨.array htext hread fun documents => harray documents, rfl⟩
  · rintro ⟨h, rfl⟩
    cases h with
    | file h => exact .inl ⟨⟨_, h, rfl⟩, rfl⟩
    | text htext hread =>
      refine .inr ⟨_, s', ⟨htext, rfl⟩, ?_⟩
      simp [hread]
    | array htext hread harray =>
      refine .inr ⟨_, s', ⟨htext, rfl⟩, ?_⟩
      simp only [hread, exec_throw]
    | @record before after d cause hinput hbefore hd =>
      obtain ⟨text, htext, hread⟩ := hinput
      refine .inr ⟨text, s', ⟨htext, rfl⟩, ?_⟩
      have hselected := selectDocuments_eq_error_iff.2
        ⟨before, d, after, cause, rfl, hbefore, hd, rfl⟩
      simp only [hread, exec_bind, exec_liftExcept, hselected]

/-! ## The command -/

/-- Loading and selecting, before anything is written. -/
def Selection.select (q : Selection) (files : Files (StateM σ)) (draws : Like.Draws) :
    ExceptT Failure (StateM σ) (List Json × Nat) := do
  let l ← load files draws q.schema q.entity q.filter q.naming q.settings
  selectFrom files l q.input

theorem exec_select_eq_ok_iff (hreads : files.ReadsOnly) {q : Selection} {selected : List Json}
    {total : Nat} : exec (q.select files draws) s = (.ok (selected, total), s') ↔
      (∃ l documents, Finds (files.held s) draws q l documents ∧
        selected = documents.filter l.accepts ∧ total = documents.length) ∧ s' = s := by
  simp only [Selection.select, exec_bind_eq_ok_iff, exec_load_eq_ok_iff hreads]
  constructor
  · rintro ⟨l, _, ⟨hloads, rfl⟩, h⟩
    obtain ⟨⟨documents, hinput, hrecords, hselected, htotal⟩, rfl⟩ :=
      (exec_selectFrom_eq_ok_iff hreads).1 h
    exact ⟨⟨l, documents, ⟨hloads, hinput, hrecords⟩, hselected, htotal⟩, rfl⟩
  · rintro ⟨⟨l, documents, hfinds, hselected, htotal⟩, rfl⟩
    exact ⟨l, s', ⟨hfinds.loads, rfl⟩, (exec_selectFrom_eq_ok_iff hreads).2
      ⟨⟨documents, hfinds.input, hfinds.records, hselected, htotal⟩, rfl⟩⟩

theorem exec_select_eq_error_iff (hreads : files.ReadsOnly) {q : Selection} {e : Failure} :
    exec (q.select files draws) s = (.error e, s') ↔ Stops (files.held s) draws q e ∧ s' = s := by
  simp only [Selection.select, exec_bind_eq_error_iff, exec_load_eq_ok_iff hreads,
    exec_load_eq_error_iff hreads]
  constructor
  · rintro (⟨h, rfl⟩ | ⟨l, _, ⟨hloads, rfl⟩, h⟩)
    · exact ⟨.load h, rfl⟩
    · obtain ⟨hstops, rfl⟩ := (exec_selectFrom_eq_error_iff hreads).1 h
      exact ⟨.input hloads hstops, rfl⟩
  · rintro ⟨h, rfl⟩
    cases h with
    | load h => exact .inl ⟨h, rfl⟩
    | input hloads h =>
      exact .inr ⟨_, s', ⟨hloads, rfl⟩, (exec_selectFrom_eq_error_iff hreads).2 ⟨h, rfl⟩⟩

/-- Running one computation after another, where neither can fail. -/
theorem run_bind (x : StateM σ α) (f : α → StateM σ β) (s : σ) :
    (x >>= f).run s = (f (x s).1).run (x s).2 := rfl

/-- The command selects, and then writes what it has or reports why it has nothing. -/
theorem runCommand_filter (q : Selection) (files : Files (StateM σ)) (draws : Like.Draws) (s : σ) :
    (runCommand files draws q.command).run s = match exec (q.select files draws) s with
      | (.ok (selected, total), t) =>
        (deliver files [report s!"{selected.length} of {total} record(s) matched"]
          (pretty (.array (selected.map Json.toRaw))) q.output).run t
      | (.error e, t) => (.failed [] e, t) := by
  change StateT.run ((q.select files draws).run >>= _) s = _
  rw [run_bind, show (q.select files draws).run s = exec (q.select files draws) s from rfl]
  rcases exec (q.select files draws) s with ⟨_ | ⟨selected, total⟩, t⟩ <;> rfl

theorem deliver_path (files : Files (StateM σ)) (log : List String) (text path : String) (s : σ) :
    (deliver files log text (some path)).run s = match files.write path text s with
      | (.ok (), t) => ({ log }, t)
      | (.error system, t) => (.failed log (.file system), t) := by
  change StateT.run (files.write path text >>= _) s = _
  rw [run_bind]
  rcases files.write path text s with ⟨_ | _, t⟩ <;> rfl

/-- What is written is a text of the documents that match. -/
theorem isTextOf_selected (l : Loaded) {held : String → Except String String} {path : String}
    {documents : List Json} (h : HasDocuments held path documents) :
    Json.IsTextOf (l.selected documents).toList (.array (documents.filter l.accepts)) := by
  obtain ⟨text, -, hread⟩ := h
  rw [Loaded.selected, pretty, String.toList_ofList, ← Json.toRawItems_eq]
  exact Json.isTextOf_filter hread l.accepts

/-- Why the command fails: it has nothing to write, or what it has cannot be written. -/
inductive Fails (files : Files (StateM σ)) (draws : Like.Draws) (s : σ) (q : Selection) :
    Failure → Prop
  | stops {e : Failure} (h : Stops (files.held s) draws q e) : Fails files draws s q e
  | write {l : Loaded} {documents : List Json} {path system : String}
      (hfinds : Finds (files.held s) draws q l documents) (houtput : q.output = some path)
      (h : (files.write path (l.selected documents) s).1 = .error system) :
      Fails files draws s q (.file system)

/-- The result of the command is where it was asked for, and nothing else has changed. -/
def Delivers (files : Files (StateM σ)) (s : σ) (text : String) (outcome : Outcome) (after : σ) :
    Option String → Prop
  | none => outcome.stdout = text ++ "\n" ∧ after = s
  | some path => outcome.stdout = "" ∧ files.write path text s = (.ok (), after)

theorem runCommand_of_stops (hreads : files.ReadsOnly) {q : Selection} {e : Failure}
    (h : Stops (files.held s) draws q e) :
    (runCommand files draws q.command).run s = (.failed [] e, s) := by
  rw [runCommand_filter, (exec_select_eq_error_iff hreads).2 ⟨h, rfl⟩]

theorem runCommand_of_finds (hreads : files.ReadsOnly) {q : Selection} {l : Loaded}
    {documents : List Json} (h : Finds (files.held s) draws q l documents) :
    ∃ log, (runCommand files draws q.command).run s =
      (deliver files log (l.selected documents) q.output).run s := by
  rw [runCommand_filter, (exec_select_eq_ok_iff hreads).2 ⟨⟨l, documents, h, rfl, rfl⟩, rfl⟩]
  exact ⟨_, rfl⟩

/-- There is always a reason to stop, or else something to write. -/
theorem stops_or_finds (hreads : files.ReadsOnly) (draws : Like.Draws) (q : Selection) (s : σ) :
    (∃ e, Stops (files.held s) draws q e) ∨
      ∃ l documents, Finds (files.held s) draws q l documents := by
  rcases h : exec (q.select files draws) s with ⟨e | ⟨selected, total⟩, t⟩
  · exact .inl ⟨e, ((exec_select_eq_error_iff hreads).1 h).1⟩
  · obtain ⟨⟨l, documents, hfinds, -⟩, -⟩ := (exec_select_eq_ok_iff hreads).1 h
    exact .inr ⟨l, documents, hfinds⟩

/-- A failure is reported, and nothing is printed. -/
theorem runCommand_of_fails (hreads : files.ReadsOnly) {q : Selection} {e : Failure}
    (h : Fails files draws s q e) :
    ∃ log after, (runCommand files draws q.command).run s = (.failed log e, after) := by
  cases h with
  | stops h => exact ⟨[], s, runCommand_of_stops hreads h⟩
  | @write l documents path system hfinds houtput h =>
    obtain ⟨log, hrun⟩ := runCommand_of_finds hreads hfinds
    rw [houtput, deliver_path] at hrun
    rcases hwrite : files.write path (l.selected documents) s with ⟨_ | ⟨⟩, t⟩
    · rw [hwrite] at hrun h
      cases h
      exact ⟨log, t, hrun⟩
    · rw [hwrite] at h
      cases h

/-- Where nothing fails, the result is delivered. -/
theorem fails_or_delivers (hreads : files.ReadsOnly) (draws : Like.Draws) (q : Selection) (s : σ) :
    (∃ e, Fails files draws s q e) ∨
      ∃ l documents outcome after, Finds (files.held s) draws q l documents ∧
        (runCommand files draws q.command).run s = (outcome, after) ∧
        outcome.exit = 0 ∧ outcome.failure = none ∧
        Delivers files s (l.selected documents) outcome after q.output := by
  rcases stops_or_finds hreads draws q s with ⟨e, h⟩ | ⟨l, documents, hfinds⟩
  · exact .inl ⟨e, .stops h⟩
  · obtain ⟨log, hrun⟩ := runCommand_of_finds hreads hfinds
    cases houtput : q.output with
    | none =>
      rw [houtput] at hrun
      exact .inr ⟨l, documents, _, s, hfinds, hrun, rfl, rfl, rfl, rfl⟩
    | some path =>
      rw [houtput, deliver_path] at hrun
      rcases hwrite : files.write path (l.selected documents) s with ⟨system | ⟨⟩, t⟩
      · exact .inl ⟨_, .write hfinds houtput (by rw [hwrite])⟩
      · rw [hwrite] at hrun
        exact .inr ⟨l, documents, _, t, hfinds, hrun, rfl, rfl, rfl, hwrite⟩

/-- **The command writes the matching documents or nothing.** It fails exactly if some stage does,
and reports the first one that does; then nothing is printed, and unless writing is what failed
nothing has changed. Otherwise it delivers a text of the array of the documents whose records
satisfy the predicate, in the order of the input. -/
theorem filter_writes_matches_or_nothing (hreads : files.ReadsOnly) (draws : Like.Draws)
    (q : Selection) (s : σ) :
    let (outcome, after) := (runCommand files draws q.command).run s
    (outcome.exit = 1 ↔ ∃ e, Fails files draws s q e) ∧
    (∀ e, Fails files draws s q e → outcome.exit = 1 ∧ outcome.stdout = "" ∧
      outcome.failure = some e ∧ ∀ reason, outcome.stderr reason = e.message reason ++ "\n") ∧
    (∀ e, Stops (files.held s) draws q e → after = s) ∧
    (outcome.exit ≠ 1 → outcome.exit = 0 ∧ outcome.failure = none ∧
      (∀ reason, outcome.stderr reason = "") ∧
      ∃ l documents, Finds (files.held s) draws q l documents ∧
        Delivers files s (l.selected documents) outcome after q.output ∧
        Json.IsTextOf (l.selected documents).toList (.array (documents.filter l.accepts))) := by
  rcases hrun : (runCommand files draws q.command).run s with ⟨outcome, after⟩
  have hfails : ∀ e, Fails files draws s q e → outcome.exit = 1 ∧ outcome.stdout = "" ∧
      outcome.failure = some e ∧ ∀ reason, outcome.stderr reason = e.message reason ++ "\n" := by
    intro e h
    obtain ⟨log, t, hfailed⟩ := runCommand_of_fails hreads h
    rw [hrun] at hfailed
    cases hfailed
    exact ⟨rfl, rfl, rfl, fun _ => rfl⟩
  have huntouched : ∀ e, Stops (files.held s) draws q e → after = s := by
    intro e h
    rw [runCommand_of_stops hreads h] at hrun
    exact (congrArg Prod.snd hrun).symm
  rcases fails_or_delivers hreads draws q s with
    ⟨e, hfailure⟩ | ⟨l, documents, _, _, hfinds, hdelivered, hexit, hnone, hdelivers⟩
  · have hexit := (hfails e hfailure).1
    exact ⟨⟨fun _ => ⟨e, hfailure⟩, fun _ => hexit⟩, hfails, huntouched, fun h => absurd hexit h⟩
  · rw [hrun] at hdelivered
    cases hdelivered
    refine ⟨⟨?_, fun ⟨e, h⟩ => (hfails e h).1⟩, hfails, huntouched, fun _ => ?_⟩
    · intro h
      rw [hexit] at h
      cases h
    · have hstderr (reason : String) : outcome.stderr reason = "" := by
        rw [Outcome.stderr, hnone]
      exact ⟨hexit, hnone, hstderr, l, documents, hfinds, hdelivers,
        isTextOf_selected l hfinds.input⟩

/-- One of two records matches, and it is printed. -/
theorem filter_writes_matches_or_nothing_ann :
    let schema := "\x7b\"entities\":[[\"User\",[[\"Name\",\"text\"]]]]\x7d"
    let users := "[\x7b\"Name\":\"Bob\"\x7d,\x7b\"Name\":\"Ann\"\x7d]"
    let d : Directory := [(⟨true, ["s"]⟩, schema), (⟨true, ["in"]⟩, users)]
    let q : Selection :=
      { schema := "s", entity := "User", filter := "Name==Ann", input := "in"
        naming := none, settings := none, output := none }
    let (outcome, after) := (runCommand Directory.files (.counted 0) q.command).run d
    Directory.files.ReadsOnly ∧ outcome.exit = 0 ∧ outcome.stderr "" = "" ∧ after = d ∧
      ∃ text, outcome.stdout = text ++ "\n" ∧
        Json.read text.toList = some (.array [.object [("Name", .string "Ann")]]) := by
  have hregistry :
      Registry.read "\x7b\"entities\":[[\"User\",[[\"Name\",\"text\"]]]]\x7d".toList =
        .ok ⟨[⟨"User", [{ name := "Name", kind := .string }], by decide⟩], by decide⟩ := by
    cbv
  have hcompile : (Registry.compileText
      ⟨[⟨"User", [{ name := "Name", kind := .string }], by decide⟩], by decide⟩
      "User" .asIs "Name==Ann" (.counted 0)).1 = .ok (.compare "Name" .eq (.string "Ann")) := by
    cbv
  have hdocuments : Json.read "[\x7b\"Name\":\"Bob\"\x7d,\x7b\"Name\":\"Ann\"\x7d]".toList =
      some (.array [.object [("Name", .string "Bob")], .object [("Name", .string "Ann")]]) := by
    cbv
  have hpath : Directory.pathOf "s" = .ok ⟨⟨true, []⟩, ["s"], false⟩ := by cbv
  have hpath' : Directory.pathOf "in" = .ok ⟨⟨true, []⟩, ["in"], false⟩ := by cbv
  intro schema users d q
  have hschema : Directory.files.held d "s" = .ok schema := by
    change (d.readText "s").mapError _ = _
    rw [Directory.readText, hpath]
    rfl
  have husers : Directory.files.held d "in" = .ok users := by
    change (d.readText "in").mapError _ = _
    rw [Directory.readText, hpath']
    rfl
  let l : Loaded :=
    ⟨⟨"User", [{ name := "Name", kind := .string }], by decide⟩, .asIs,
      .compare "Name" .eq (.string "Ann")⟩
  have hfinds : Finds (Directory.files.held d) (.counted 0) q l
      [.object [("Name", .string "Bob")], .object [("Name", .string "Ann")]] := by
    refine ⟨⟨{}, _, .default, ⟨schema, hschema, hregistry⟩, rfl, rfl, hcompile⟩,
      ⟨users, husers, hdocuments⟩, ?_⟩
    intro j hj
    simp only [List.mem_cons, List.not_mem_nil, or_false] at hj
    rcases hj with rfl | rfl <;> exact ⟨_, rfl⟩
  have hselected : [Json.object [("Name", .string "Bob")], .object [("Name", .string "Ann")]].filter
      l.accepts = [.object [("Name", .string "Ann")]] := by
    cbv
  have hspec := filter_writes_matches_or_nothing Directory.readsOnly_files (.counted 0) q d
  obtain ⟨log, hrun⟩ := runCommand_of_finds Directory.readsOnly_files hfinds
  rw [hrun] at hspec ⊢
  obtain ⟨-, -, -, hdelivers⟩ := hspec
  obtain ⟨hexit, -, hstderr, l', documents, hfinds', ⟨hstdout, hafter⟩, htext⟩ :=
    hdelivers Nat.zero_ne_one
  obtain ⟨rfl, rfl⟩ := hfinds.unique hfinds'
  have hread := htext.read
  rw [hselected] at hread
  exact ⟨Directory.readsOnly_files, hexit, hstderr "", hafter, _, hstdout,
    hread ⟨⟨trivial, trivial⟩, trivial⟩⟩

end RecordFilter.Cli
