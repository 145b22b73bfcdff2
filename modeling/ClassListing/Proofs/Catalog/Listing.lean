import ClassListing.Proofs.Catalog.History
import ClassListing.Proofs.ClassRecord.Checking
import ClassListing.Proofs.Listing.Result
import ClassListing.Proofs.Renderer.Formats

/-!
# Listings from a catalog

A catalog answers every look-up with a class or with an error that concerns this class alone, and every
format renders every class. So no name stops a listing, and the summary counts the names whose records
are missing or malformed.
-/

namespace ClassListing

set_option autoImplicit false

namespace Catalog

/-! ## Look-ups -/

/-- There is no record of the name, or the last one is malformed. -/
def unusable (records : List ClassRecord) (name : String) : Bool :=
  (last? records name).all (·.isMalformed)

theorem lookup_of_unusable {records : List ClassRecord} {name : String}
    (h : unusable records name = true) :
    ∃ e, lookup records name = .error e ∧ e.isRecoverable = true := by
  unfold unusable at h
  unfold lookup
  cases hr : last? records name with
  | none => exact ⟨_, rfl, rfl⟩
  | some r =>
    cases hc : r.toClass with
    | error m => exact ⟨.malformed m, by simp [hc, Except.mapError], rfl⟩
    | ok c =>
      have hm := ClassRecord.exists_toClass_iff.mp ⟨c, hc⟩
      simp [hr, hm] at h

theorem lookup_of_not_unusable {records : List ClassRecord} {name : String}
    (h : unusable records name = false) : ∃ c, lookup records name = .ok c := by
  unfold unusable at h
  unfold lookup
  cases hr : last? records name with
  | none => simp [hr] at h
  | some r =>
    rw [hr, Option.all_some] at h
    obtain ⟨c, hc⟩ := ClassRecord.exists_toClass_iff.mpr h
    exact ⟨c, by simp [hc, Except.mapError]⟩

/-! ## Names -/

variable {σ : Type} {f : Formatter} {k : Sink σ}

/-- Looking up changes no catalog, so the fate of a name does not depend on the names before it. -/
theorem fates_eq (names : List String) (c : Catalog) :
    Job.fates ⟨resolver, f, k⟩ names c = names.map fun name => f.fate (c.resolve name) := by
  induction names with
  | nil => rfl
  | cons name names ih =>
    rw [Job.fates_cons, List.map_cons, ← ih]
    rfl

theorem fate_of_lookup (hf : ∀ c, ∃ text, f.format c = .ok text) (records : List ClassRecord)
    (name : String) :
    let fate := f.fate (lookup records name)
    fate.failure? = none ∧ (fate = .skipped ↔ unusable records name = true) ∧
      (fate.found = true ↔ unusable records name = false) := by
  cases hu : unusable records name with
  | true =>
    obtain ⟨e, he, hr⟩ := lookup_of_unusable hu
    rw [he, Formatter.fate_of_recoverable hr]
    simp [Fate.failure?, Fate.found]
  | false =>
    obtain ⟨c, hc⟩ := lookup_of_not_unusable hu
    obtain ⟨hfound, hfail⟩ := Formatter.found_of_exists_format (hf c)
    rw [hc]
    refine ⟨hfail, ?_, by simp [hfound]⟩
    have hne : f.fate (.ok c) ≠ .skipped := by
      intro h
      rw [h] at hfound
      cases hfound
    simp [hne]

/-! ## The listing -/

/-- Whatever was loaded and inserted, a listing in any format with a sink that works comes to its end. It
skips the names without a usable record and finds the classes of all others. The filter of the caller
may be any instance, see `FilterScope.build_identified`. -/
theorem listing_succeeds (calls : List Call) (format : OutputFormat)
    {caller : Option (Filter Member)} (free : Nat) (hc : ∀ g ∈ caller, g.Identified)
    {Good : σ → Host → Prop} (hk : k.Reliable Good) {source : Source} (session : Session Catalog)
    {sink : σ} {h : Host} {feed : Feed} {names : List String}
    (hs : session.state = after calls empty) (hf : (source.feed h).1 = .ok feed)
    (hn : feed.Gives Good names) (ha : (k.acquire sink (source.feed h).2.2).1 = .ok ())
    (hg : Good (k.acquire sink (source.feed h).2.2).2.1 (k.acquire sink (source.feed h).2.2).2.2) :
    let j : Job Catalog σ := ⟨resolver, (format.renderer caller free).1, k⟩
    ∃ summary, (j.run source session sink h).1 = .ok summary ∧
      summary.skipped = names.countP (unusable (added calls) ·) ∧
      summary.resolved = names.countP (!unusable (added calls) ·) := by
  intro j
  have hfates : j.fates names session.state =
      names.map fun name => j.formatter.fate (lookup (added calls) name) := by
    simp only [hs, after_eq_insertAll, ← resolve_insertAll]
    exact fates_eq names _
  have hfate := fate_of_lookup (f := j.formatter) (format.exists_render hc free) (added calls)
  have hnone : (j.fates names session.state).findSome? Fate.failure? = none := by
    rw [hfates, List.findSome?_map, List.findSome?_eq_none_iff]
    exact fun name _ => (hfate name).1
  obtain ⟨s, hok, hskipped, hresolved⟩ :=
    Job.exists_summary_of_no_failure (j := j) session hk hf hn ha hg hnone
  refine ⟨s, hok, ?_, ?_⟩
  · rw [hskipped, hfates, List.count, List.countP_map]
    refine List.countP_congr fun name _ => ?_
    rw [Function.comp_apply, beq_iff_eq, (hfate name).2.1]
  · rw [hresolved, hfates, List.countP_map]
    refine List.countP_congr fun name _ => ?_
    rw [Function.comp_apply, (hfate name).2.2, Bool.not_eq_true']

/-- One class is there, one is only in a catalog that cannot be read, and of one the last record has a
method among its fields. The filter of the caller accepts fields, for which there are no signature
lines. -/
theorem listing_skips_missing_and_malformed :
    let field : MemberRecord := ⟨none, .empty, "int", "size", [], false, false, false⟩
    let method : MemberRecord := ⟨some .method, .empty, "void", "run", [], false, false, false⟩
    let calls : List Call := [.insert ⟨"B", .empty, [field], [method]⟩,
      .insert ⟨"A", .empty, [field], [method]⟩, .load "[\x7b\"name\":\"C\"".toUTF8.data.toList,
      .insert ⟨"B", .empty, [method], []⟩]
    let either : FilterTerm Member :=
      .combined .or (.given MemberFilter.field.filter) (.given MemberFilter.executable.filter)
    let caller := (FilterScope.initial.build either).map Prod.fst
    let j : Job Catalog TerminalSink :=
      ⟨resolver, (OutputFormat.signatures.renderer caller (FilterScope.firstFree + 1)).1,
        TerminalSink.sink⟩
    ∃ summary, (j.run (.list ["A", "B", "C", "A"]) (Session.start (after calls empty))
        TerminalSink.closed (Host.ofDisk (.empty []) [])).1 = .ok summary ∧
      summary.skipped = 2 ∧ summary.resolved = 2 := by
  intro field method calls either caller j
  let names := ["A", "B", "C", "A"]
  have hc : ∀ g ∈ caller, g.Identified := by
    intro g hg
    obtain ⟨⟨f, s⟩, hbuilt, rfl⟩ := Option.map_eq_some_iff.mp hg
    have heither : either.Identified := ⟨MemberFilter.identified _, MemberFilter.identified _⟩
    exact (FilterScope.build_identified heither FilterScope.identified_initial hbuilt).1
  have hf : (Source.feed (.list names) (Host.ofDisk (.empty []) [])).1 = .ok (.names names) := rfl
  obtain ⟨summary, hok, hskipped, hresolved⟩ := listing_succeeds calls .signatures
    (FilterScope.firstFree + 1) hc TerminalSink.reliable (Session.start (after calls empty)) rfl hf
    (Feed.gives_names _ names) (rfl : (TerminalSink.acquire TerminalSink.closed _).1 = .ok ()) rfl
  refine ⟨summary, hok, hskipped.trans ?_, hresolved.trans ?_⟩
  · decide +kernel
  · decide +kernel

end Catalog

end ClassListing
