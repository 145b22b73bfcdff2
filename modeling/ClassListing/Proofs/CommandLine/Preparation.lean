import ClassListing.CommandLine.Listing
import ClassListing.Proofs.Host.Agreement

/-!
# Before a listing is written

A command selects its names and loads its catalogs, and then it writes. Up to there it only logs, and the
session that it starts depends on the catalogs alone.
-/

namespace ClassListing

set_option autoImplicit false

open Host (Agree)

/-! ## Catalogs -/

namespace Catalog

theorem loadFiles_only_logs (c : Catalog) (paths : List String) (h : Host) :
    Agree h (c.loadFiles paths h).2 := by
  induction paths generalizing c h with
  | nil => exact .refl h
  | cons path paths ih =>
    unfold Catalog.loadFiles Catalog.loadFile
    cases h.disk.read path with
    | error e => exact .refl h
    | ok content =>
      simp only
      rcases c.load content.data.toList with ⟨r, c'⟩
      cases r with
      | error e => exact .refl h
      | ok n => exact ((Agree.refl h).logged ..).trans (ih c' _)

theorem loadFiles_of_disk {h k : Host} (hd : h.disk = k.disk) (c : Catalog)
    (paths : List String) : (c.loadFiles paths h).1 = (c.loadFiles paths k).1 := by
  induction paths generalizing c h k with
  | nil => rfl
  | cons path paths ih =>
    unfold loadFiles loadFile
    rw [← hd]
    cases h.disk.read path with
    | error e => rfl
    | ok content =>
      simp only
      rcases c.load content.data.toList with ⟨r, c'⟩
      cases r with
      | error e => rfl
      | ok n => exact ih (h := h.debug .catalog _) (k := k.debug .catalog _) hd c'

end Catalog

/-! ## Names and sessions -/

namespace Invocation

variable {i : Invocation} {h : Host}

theorem source_only_logs (i : Invocation) (h : Host) : Agree h (i.source h).2 := by
  unfold source
  cases i.selection with
  | classes names => exact .refl h
  | nameFile path => exact .refl h
  | boot =>
    simp only [ClassPath.boot]
    split
    · exact (Agree.refl h).logged ..
    · exact .refl h
  | classPathFile path platformOnly =>
    simp only
    cases ClassPath.ofFile path (nameFilter platformOnly) h.disk with
    | error e => exact .refl h
    | ok c => exact .refl h

theorem session_only_logs (i : Invocation) (paths : List String) (h : Host) :
    Agree h (i.session paths h).2 := by
  unfold session
  have hwarned : Agree h (if i.catalogs = [] then
      h.warn .command "No class catalog given, no class can be resolved" else h) := by
    split
    · exact (Agree.refl h).logged ..
    · exact .refl h
  generalize (if i.catalogs = [] then _ else h) = k at hwarned
  have hloaded := hwarned.trans (Catalog.loadFiles_only_logs .empty i.catalogs k)
  simp only [Catalog.ofFiles]
  rcases hl : Catalog.empty.loadFiles i.catalogs k with ⟨r, l⟩
  rw [hl] at hloaded
  cases r with
  | error e => exact hloaded
  | ok c =>
    simp only
    split
    · exact hloaded.logged ..
    · exact (hloaded.logged ..).logged ..

/-- The session starts with what the catalogs hold, and whatever the class path is. -/
theorem session_fst (i : Invocation) (paths : List String) (h : Host) :
    (i.session paths h).1 = match (Catalog.ofFiles i.catalogs h).1 with
      | .error e => .error ⟨"failed to load class catalogs", e⟩
      | .ok c => .ok (Session.start c) := by
  have hdisk : (if i.catalogs = [] then
      h.warn .command "No class catalog given, no class can be resolved" else h).disk = h.disk := by
    split <;> rfl
  unfold session
  generalize (if i.catalogs = [] then _ else h) = k at hdisk
  have hload : (Catalog.ofFiles i.catalogs k).1 = (Catalog.ofFiles i.catalogs h).1 :=
    Catalog.loadFiles_of_disk hdisk .empty i.catalogs
  rw [← hload]
  rcases hl : Catalog.ofFiles i.catalogs k with ⟨r, l⟩
  cases r with
  | error e => simp only [hl]
  | ok c =>
    simp only [hl]
    split <;> rfl

/-! ## The run -/

/-- What is done before the listing is written: the names are selected and the catalogs are loaded. -/
def prepare (i : Invocation) (h : Host) : Except Failure (Source × Session Catalog) × Host :=
  match i.source h with
  | (.error f, h) => (.error f, h)
  | (.ok (source, paths), h) =>
    match i.session paths (h.debug .command s!"Listing {source.tag}") with
    | (.error f, h) => (.error f, h)
    | (.ok s, h) => (.ok (source, s), h)

theorem run_eq (i : Invocation) (h : Host) :
    i.run h = match i.prepare h with
      | (.error f, h) => (.error f, h)
      | (.ok (source, s), h) =>
        match i.write source s h with
        | (.error f, h) => (.error f, h)
        | (.ok (s, summary), h) => (.ok summary, i.report summary (s.close h)) := by
  unfold run prepare
  rcases i.source h with ⟨_ | ⟨source, paths⟩, k⟩
  · rfl
  · simp only
    rcases i.session paths (k.debug .command s!"Listing {source.tag}") with ⟨_ | s, l⟩ <;> rfl

theorem prepare_only_logs (i : Invocation) (h : Host) : Agree h (i.prepare h).2 := by
  unfold prepare
  have hsource := i.source_only_logs h
  generalize i.source h = x at hsource
  obtain ⟨f | ⟨source, paths⟩, k⟩ := x
  · exact hsource
  · have hlogged : Agree h (k.debug .command s!"Listing {source.tag}") := hsource.logged ..
    have hsession := hlogged.trans (i.session_only_logs paths _)
    simp only
    generalize i.session paths (k.debug .command s!"Listing {source.tag}") = y at hsession
    obtain ⟨f | s, l⟩ := y
    · exact hsession
    · exact hsession

end Invocation

/-- The exit code says whether the run has failed. -/
theorem Outcome.ofListing_outcome (i : Invocation) (h : Host) :
    (ofListing i h).code = (match (i.run h).1 with | .ok _ => 0 | .error _ => 1) ∧
      (ofListing i h).stdout = (i.run h).2.stdout ∧ (ofListing i h).disk = (i.run h).2.disk := by
  unfold ofListing
  rcases i.run h with ⟨_ | _, k⟩ <;> exact ⟨rfl, rfl, rfl⟩

end ClassListing
