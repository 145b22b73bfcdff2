import ClassListing.Proofs.ClassRecord.Checking
import ClassListing.Proofs.ClassRecord.Texts
import Mathlib.Data.Finset.Card
import Mathlib.Data.List.Dedup

/-!
# Histories of a catalog

Whatever is loaded and inserted, and however many loads fail, a catalog answers like the list of the records
added so far, in which the last record of a name counts. A load that fails adds none of its records, and one that
succeeds adds the records that its text lists.
-/

namespace ClassListing

set_option autoImplicit false

namespace Catalog

/-! ## Records in the order they were added -/

def last? (records : List ClassRecord) (name : String) : Option ClassRecord :=
  records.findRev? fun r => r.name = name

/-- The answer to a look-up if these records were added. -/
def lookup (records : List ClassRecord) (name : String) : Except Error JavaClass :=
  match last? records name with
  | none => .error (.classNotFound name)
  | some r => r.toClass.mapError .malformed

theorem last?_cons (r : ClassRecord) (records : List ClassRecord) (name : String) :
    last? (r :: records) name =
      (last? records name).or (if r.name = name then some r else none) := by
  unfold last?
  rw [List.findRev?]
  cases List.findRev? (fun r => decide (r.name = name)) records with
  | none => by_cases h : r.name = name <;> simp [h]
  | some x => rfl

theorem last?_eq_none_iff {records : List ClassRecord} {name : String} :
    last? records name = none ↔ ∀ r ∈ records, r.name ≠ name := by
  simp [last?, List.findRev?_eq_find?_reverse]

theorem name_of_last? {records : List ClassRecord} {name : String} {r : ClassRecord}
    (h : last? records name = some r) : r.name = name := by
  rw [last?, List.findRev?_eq_find?_reverse] at h
  simpa using List.find?_some h

/-- A record says nothing about other names. -/
theorem last?_append_cons_of_ne {before after : List ClassRecord} {r : ClassRecord} {name : String}
    (h : r.name ≠ name) : last? (before ++ r :: after) name = last? (before ++ after) name := by
  simp [last?, List.findRev?_eq_find?_reverse, List.find?_append, h]

theorem lookup_eq_classNotFound_iff {records : List ClassRecord} {name : String} :
    lookup records name = .error (.classNotFound name) ↔ ∀ r ∈ records, r.name ≠ name := by
  rw [← last?_eq_none_iff, lookup]
  cases last? records name with
  | none => simp
  | some r => cases hr : r.toClass <;> simp [hr, Except.mapError]

theorem name_of_lookup {records : List ClassRecord} {name : String} {c : JavaClass}
    (h : lookup records name = .ok c) : c.name = name := by
  rw [lookup] at h
  cases hr : last? records name with
  | none => simp [hr] at h
  | some r =>
    rw [hr] at h
    cases hc : r.toClass with
    | error m => simp [hc, Except.mapError] at h
    | ok view =>
      simp only [hc, Except.mapError, Except.ok.injEq] at h
      rw [← h, ClassRecord.name_of_toClass hc, name_of_last? hr]

/-! ## Adding records -/

theorem insertAll_append (c : Catalog) (rs ts : List ClassRecord) :
    c.insertAll (rs ++ ts) = (c.insertAll rs).insertAll ts := List.foldl_append

theorem getElem?_insertAll (c : Catalog) (rs : List ClassRecord) (name : String) :
    (c.insertAll rs).records[name]? = (last? rs name).or c.records[name]? := by
  induction rs generalizing c with
  | nil => rfl
  | cons r rs ih =>
    change ((c.insert r).insertAll rs).records[name]? = _
    rw [ih, getElem?_insert, last?_cons, Option.or_assoc]
    by_cases h : r.name = name <;> simp [h]

theorem getElem?_empty_insertAll (rs : List ClassRecord) (name : String) :
    (empty.insertAll rs).records[name]? = last? rs name := by
  rw [getElem?_insertAll, empty, Std.HashMap.getElem?_empty, Option.or_none]

theorem resolve_insertAll (rs : List ClassRecord) (name : String) :
    (empty.insertAll rs).resolve name = lookup rs name := by
  rw [resolve, getElem?_empty_insertAll, lookup]
  cases last? rs name with
  | none => rfl
  | some r => cases hr : r.toClass <;> simp [hr, Except.mapError]

theorem size_insertAll (rs : List ClassRecord) :
    (empty.insertAll rs).size = (rs.map ClassRecord.name).toFinset.card := by
  induction rs using List.reverseRecOn with
  | nil => rfl
  | append_singleton rs r ih =>
    have hm : r.name ∈ (empty.insertAll rs).records ↔ r.name ∈ (rs.map ClassRecord.name).toFinset := by
      rw [Std.HashMap.mem_iff_isSome_getElem?, getElem?_empty_insertAll, ← not_iff_not,
        Bool.not_eq_true, Option.isSome_eq_false_iff, Option.isNone_iff_eq_none, last?_eq_none_iff]
      simp
    have hn : ((rs ++ [r]).map ClassRecord.name).toFinset =
        Insert.insert r.name (rs.map ClassRecord.name).toFinset := by
      ext name
      simp
    rw [insertAll_append]
    change ((empty.insertAll rs).records.insert r.name r).size = _
    rw [Std.HashMap.size_insert, hn, Finset.card_insert_eq_ite, ← ih]
    simp only [hm]
    rfl

/-! ## Calls that may add records -/

/-- Files are read from the host as it is at the time of the call. -/
inductive Call where
  | load (text : List UInt8)
  | loadFile (path : String) (h : Host)
  | insert (r : ClassRecord)

namespace Call

/-- The records that a call adds, or why it fails. -/
def records : Call → Except Error (List ClassRecord)
  | load text => (ClassRecord.listOfJson text).mapError .catalog
  | loadFile path h =>
    match h.disk.read path with
    | .error e => .error (.source path e)
    | .ok content => (ClassRecord.listOfJson content.data.toList).mapError .catalog
  | insert r => .ok [r]

def perform : Call → Catalog → Except Error Nat × Catalog
  | load text, c => c.load text
  | loadFile path h, c => ((c.loadFile path h).1, (c.loadFile path h).2.1)
  | insert r, c => (.ok 1, c.insert r)

def outcome (c : Catalog) : Except Error (List ClassRecord) → Except Error Nat × Catalog
  | .error e => (.error e, c)
  | .ok rs => (.ok rs.length, c.insertAll rs)

theorem perform_eq (call : Call) (c : Catalog) : call.perform c = outcome c call.records := by
  cases call with
  | load text =>
    simp only [perform, Catalog.load, records]
    cases ClassRecord.listOfJson text <;> rfl
  | loadFile path h =>
    simp only [perform, Catalog.loadFile, records]
    cases h.disk.read path with
    | error e => rfl
    | ok content =>
      simp only [Catalog.load]
      cases ClassRecord.listOfJson content.data.toList <;> rfl
  | insert r => rfl

theorem records_load_eq_ok_iff {text : List UInt8} {rs : List ClassRecord} :
    (load text).records = .ok rs ↔ ClassRecord.listOfJson text = .ok rs := by
  rw [records]
  cases ClassRecord.listOfJson text <;> simp [Except.mapError]

theorem records_load_of_error {text : List UInt8} {e : Json.Error}
    (h : ClassRecord.listOfJson text = .error e) : (load text).records = .error (.catalog e) := by
  rw [records, h]
  rfl

theorem catalog_of_records_load {text : List UInt8} {e : Error} (h : (load text).records = .error e) :
    ∃ reason, e = .catalog reason := by
  rw [records] at h
  cases hlist : ClassRecord.listOfJson text with
  | error reason =>
    rw [hlist] at h
    cases h
    exact ⟨reason, rfl⟩
  | ok rs =>
    rw [hlist] at h
    cases h

theorem records_loadFile_of_read {path : String} {h : Host} {content : ByteArray}
    (hread : h.disk.read path = .ok content) :
    (loadFile path h).records = (load content.data.toList).records := by
  simp only [records, hread]

end Call

def after (calls : List Call) (c : Catalog) : Catalog :=
  calls.foldl (fun c call => (call.perform c).2) c

def added (calls : List Call) : List ClassRecord :=
  calls.flatMap fun call => call.records.toOption.getD []

theorem after_eq_insertAll (calls : List Call) (c : Catalog) :
    after calls c = c.insertAll (added calls) := by
  induction calls generalizing c with
  | nil => rfl
  | cons call calls ih =>
    have hadded : added (call :: calls) = call.records.toOption.getD [] ++ added calls := rfl
    change after calls (call.perform c).2 = _
    rw [ih, hadded, insertAll_append, call.perform_eq c]
    cases call.records <;> rfl

theorem after_inserts (rs : List ClassRecord) (c : Catalog) :
    after (rs.map .insert) c = c.insertAll rs := by
  rw [after_eq_insertAll]
  simp [added, List.flatMap_map, Call.records, Except.toOption]

/-! ## Several files -/

theorem loadFile_eq (c : Catalog) (path : String) (h : Host) :
    (c.loadFile path h).1 = ((Call.loadFile path h).perform c).1 ∧
      (c.loadFile path h).2.1 = ((Call.loadFile path h).perform c).2 ∧
      (c.loadFile path h).2.2.disk = h.disk := by
  refine ⟨rfl, rfl, ?_⟩
  unfold loadFile
  cases h.disk.read path with
  | error e => rfl
  | ok content =>
    dsimp only
    rcases c.load content.data.toList with ⟨_ | _, _⟩ <;> rfl

theorem Call.records_of_disk {h k : Host} (hd : h.disk = k.disk) (path : String) :
    (Call.loadFile path h).records = (Call.loadFile path k).records := by
  simp only [Call.records, hd]

theorem after_of_disk {h k : Host} (hd : h.disk = k.disk) (paths : List String) (c : Catalog) :
    after (paths.map (.loadFile · h)) c = after (paths.map (.loadFile · k)) c := by
  simp only [after_eq_insertAll, added, List.flatMap_map, Call.records_of_disk hd]

/-- All files are read from the same disk, whatever is logged in between. -/
theorem loadFiles_eq_ok_iff (paths : List String) (c d : Catalog) (h : Host) :
    (c.loadFiles paths h).1 = .ok d ↔
      (∀ path ∈ paths, ∃ rs, (Call.loadFile path h).records = .ok rs) ∧
        d = after (paths.map (.loadFile · h)) c := by
  induction paths generalizing c h with
  | nil => simp [loadFiles, after, eq_comm]
  | cons path paths ih =>
    obtain ⟨hr, hc, hd⟩ := c.loadFile_eq path h
    rw [Call.perform_eq] at hr hc
    rw [loadFiles, List.forall_mem_cons]
    generalize c.loadFile path h = x at hr hc hd
    obtain ⟨r, c', k⟩ := x
    cases hrec : (Call.loadFile path h).records with
    | error e =>
      rw [hrec] at hr
      cases hr
      simp
    | ok rs =>
      rw [hrec] at hr hc
      cases hr
      have hcall : after ((path :: paths).map (.loadFile · h)) c =
          after (paths.map (.loadFile · h)) c' := by
        change after (paths.map (.loadFile · h)) ((Call.loadFile path h).perform c).2 = _
        rw [Call.perform_eq, hrec, ← hc]
      rw [hcall, ← after_of_disk hd]
      simp only [ih, Call.records_of_disk hd, Except.ok.injEq, exists_eq', true_and]

/-! ## The answers of a catalog -/

/-- After any calls the record of a name is the one added last. A call that fails changes nothing, and one
that succeeds gives the number of its records and adds them in order. A record says nothing about
other names. Several files are loaded if all of them can be loaded.

The records of a text are those it lists, whatever their layout: a text is loaded if and only if it is a JSON
list of layouts, and a list with a faulty value is refused. A file stands for its content. -/
theorem history_decides_answers (calls : List Call) :
    let c := after calls empty
    let records := added calls
    (∀ name, c.resolve name = lookup records name) ∧
      (∀ name, c.resolve name = .error (.classNotFound name) ↔ ∀ r ∈ records, r.name ≠ name) ∧
      (∀ name view, c.resolve name = .ok view → view.name = name) ∧
      c.size = (records.map ClassRecord.name).toFinset.card ∧ (c.isEmpty ↔ c.size = 0) ∧
      (∀ (call : Call) (e : Error), call.records = .error e → call.perform c = (.error e, c)) ∧
      (∀ (call : Call) (rs : List ClassRecord), call.records = .ok rs →
        call.perform c = (.ok rs.length, after (rs.map .insert) c)) ∧
      (∀ before r rest name, records = before ++ r :: rest → r.name ≠ name →
        c.resolve name = (empty.insertAll (before ++ rest)).resolve name) ∧
      (∀ paths h d, (ofFiles paths h).1 = .ok d ↔
        (∀ path ∈ paths, ∃ n, ((Call.loadFile path h).perform empty).1 = .ok n) ∧
          d = after (paths.map (.loadFile · h)) empty) ∧
      (∀ rs text, ClassRecord.ListedIn rs text → (Call.load text).records = .ok rs) ∧
      (∀ (text : String) (rs : List ClassRecord),
        (Call.load text.toUTF8.data.toList).records = .ok rs ↔
          ClassRecord.ListedIn rs text.toUTF8.data.toList) ∧
      (∀ vs text, (∃ v ∈ vs, ClassRecord.Faulty v) → (Json.Value.array vs).HasText text →
        ∃ e, (Call.load text).records = .error (.catalog e)) ∧
      (∀ text e, (Call.load text).records = .error e → ∃ reason, e = .catalog reason) ∧
      (∀ path h e, h.disk.read path = .error e →
        (Call.loadFile path h).records = .error (.source path e)) ∧
      ∀ path h content, h.disk.read path = .ok content →
        (Call.loadFile path h).records = (Call.load content.data.toList).records := by
  intro c records
  have hc : c = empty.insertAll records := after_eq_insertAll calls empty
  have hr : ∀ name, c.resolve name = lookup records name := fun name => by
    rw [hc, resolve_insertAll]
  refine ⟨hr, ?_, ?_, ?_, ?_, ?_, ?_, ?_, ?_, ?_, ?_, ?_, ?_, ?_, ?_⟩
  · intro name
    rw [hr, lookup_eq_classNotFound_iff]
  · intro name view h
    exact name_of_lookup (hr name ▸ h)
  · rw [hc, size_insertAll]
  · simp [isEmpty, size, Std.HashMap.isEmpty_eq_size_eq_zero]
  · intro call e h
    rw [Call.perform_eq, h, Call.outcome]
  · intro call rs h
    rw [Call.perform_eq, h, Call.outcome, after_inserts]
  · intro before r rest name hsplit hne
    rw [hr, resolve_insertAll, hsplit, lookup, lookup, last?_append_cons_of_ne hne]
  · intro paths h d
    rw [ofFiles, loadFiles_eq_ok_iff]
    have hload : ∀ path, (∃ n, ((Call.loadFile path h).perform empty).1 = .ok n) ↔
        ∃ rs, (Call.loadFile path h).records = .ok rs := by
      intro path
      rw [Call.perform_eq]
      cases (Call.loadFile path h).records <;> simp [Call.outcome]
    simp only [hload]
  · intro rs text h
    exact Call.records_load_eq_ok_iff.mpr (ClassRecord.listOfJson_of_listedIn h)
  · intro text rs
    rw [Call.records_load_eq_ok_iff, ClassRecord.listOfJson_eq_ok_iff (Json.isText_toUTF8 text)]
  · intro vs text hvs ht
    obtain ⟨e, he⟩ := ClassRecord.listOfJson_of_faulty hvs ht
    exact ⟨e, Call.records_load_of_error he⟩
  · intro text e h
    exact Call.catalog_of_records_load h
  · intro path h e hread
    rw [Call.records, hread]
  · intro path h content hread
    exact Call.records_loadFile_of_read hread

end Catalog

end ClassListing
