import Mathlib.Data.List.Sort
import Mathlib.Data.String.Basic
import ClassListing.Proofs.ClassPath.Paths
import ClassListing.Proofs.Disk.Directories

/-!
# The boot class path

The boot class path is what the environment gives, or else the archives of the Java installation, those of its runtime
first. They are in the order of their names, so the order in which a directory is gone through does
not matter.
-/

namespace ClassListing

set_option autoImplicit false

/-! ## Names of archives -/

/-- The extension is what follows the last dot, and something stands before that dot. -/
theorem Path.extension?_eq_some_iff {name ext : String} (h : '.' ∉ ext.toList) :
    extension? name = some ext ↔ ∃ stem, stem ≠ "" ∧ name = stem ++ "." ++ ext := by
  constructor
  · intro he
    have happend := List.takeWhile_append_dropWhile (p := (· ≠ '.')) (l := name.toList.reverse)
    have hhead := List.head?_dropWhile_not (· ≠ '.') name.toList.reverse
    simp only [extension?] at he
    split at he
    · next c d cs hdrop =>
      rw [hdrop] at happend hhead
      have hdot : c = '.' := by simpa using hhead
      generalize name.toList.reverse.takeWhile (· ≠ '.') = ending at happend he
      have hname : name.toList = (ending ++ c :: d :: cs).reverse := by
        rw [happend, List.reverse_reverse]
      refine ⟨String.ofList (d :: cs).reverse, by simp, ?_⟩
      rw [← Option.some.inj he, ← String.toList_inj, hname, hdot]
      simp
    · cases he
  · rintro ⟨stem, hstem, rfl⟩
    have hreverse : (stem ++ "." ++ ext).toList.reverse =
        ext.toList.reverse ++ '.' :: stem.toList.reverse := by
      simp
    have hbefore : ∀ c ∈ ext.toList.reverse, decide (c ≠ '.') = true := by
      intro c hc
      have hne : c ≠ '.' := fun he => h (he ▸ List.mem_reverse.mp hc)
      exact decide_eq_true hne
    obtain ⟨d, cs, hcs⟩ : ∃ d cs, stem.toList.reverse = d :: cs :=
      List.exists_cons_of_ne_nil (by simpa using hstem)
    simp only [extension?, hreverse, List.dropWhile_append_of_pos hbefore,
      List.takeWhile_append_of_pos hbefore, List.dropWhile_cons, List.takeWhile_cons, hcs]
    simp

namespace ClassPath

/-! ## Archives of a directory -/

theorem sorted_eq_insertionSort (names : List String) : sorted names = names.insertionSort (· ≤ ·) := by
  have hinsert : ∀ name names, insertSorted name names = names.orderedInsert (· ≤ ·) name := by
    intro name names
    induction names with
    | nil => rfl
    | cons n ns ih =>
      rw [insertSorted, List.orderedInsert_cons, ih]
      by_cases hn : n < name
      · rw [if_pos hn, if_neg (not_le_of_gt hn)]
      · rw [if_neg hn, if_pos (le_of_not_gt hn)]
  rw [sorted, List.insertionSort]
  exact congrArg (fun f => names.foldr f []) (funext₂ hinsert)

/-- An archive of a directory: something that stands in the directory, with a path that leads to a file and a
name with the extension of archives. -/
structure IsArchiveIn (h : Host) (dir name : String) : Prop where
  entry : ∃ place, h.Lists dir place ∧ (h.disk.node? (place ++ [name])).isSome
  file : h.disk.isFile (Path.join dir name)
  extension : ∃ stem, stem ≠ "" ∧ name = stem ++ ".jar"

/-- All archives of a directory, each once and in the order of their names. -/
structure ListsArchives (h : Host) (dir : String) (names : List String) : Prop where
  increasing : names.Pairwise (· < ·)
  complete : ∀ name, name ∈ names ↔ IsArchiveIn h dir name

variable {h k : Host} {dir name : String} {names : List String}

theorem isArchiveIn_iff {place : Location} (hl : h.Lists dir place) :
    IsArchiveIn h dir name ↔ name ∈ h.disk.namesIn place ∧
      (Path.extension? name = some "jar" ∧ h.disk.isFile (Path.join dir name)) := by
  have hextension : Path.extension? name = some "jar" ↔ ∃ stem, stem ≠ "" ∧ name = stem ++ ".jar" := by
    rw [Path.extension?_eq_some_iff (by decide)]
    simp only [String.append_assoc]
    rfl
  rw [hextension, Disk.mem_namesIn_iff]
  constructor
  · rintro ⟨⟨place', hl', hentry⟩, hfile, hext⟩
    obtain rfl := hl.unique hl'
    exact ⟨hentry, hext, hfile⟩
  · rintro ⟨hentry, hext, hfile⟩
    exact ⟨⟨place, hl, hentry⟩, hfile, hext⟩

/-- Where no directory can be read there are no archives. -/
theorem ListsArchives.eq_nil (hnames : ListsArchives h dir names) (hdir : ∀ place, ¬ h.Lists dir place) :
    names = [] := by
  refine List.eq_nil_iff_forall_not_mem.mpr fun name hname => ?_
  obtain ⟨place, hl, -⟩ := ((hnames.complete name).mp hname).entry
  exact hdir place hl

theorem listsArchives_sorted {place : Location} (hl : h.Lists dir place) :
    ListsArchives h dir (sorted ((h.disk.namesIn place).filter fun name =>
      Path.extension? name = some "jar" && h.disk.isFile (Path.join dir name))) := by
  generalize hall : ((h.disk.namesIn place).filter fun name =>
    Path.extension? name = some "jar" && h.disk.isFile (Path.join dir name)) = all
  have hnodup : all.Nodup := hall ▸ (h.disk.nodup_namesIn place).filter _
  have hperm : (sorted all).Perm all := by
    rw [sorted_eq_insertionSort]
    exact List.perm_insertionSort _ all
  have hsorted : (sorted all).Pairwise (· ≤ ·) := by
    rw [sorted_eq_insertionSort]
    exact List.pairwise_insertionSort _ all
  constructor
  · have hne : (sorted all).Pairwise (· ≠ ·) := hperm.nodup_iff.mpr hnodup
    exact (hsorted.and hne).imp fun h => lt_of_le_of_ne h.1 h.2
  · intro name
    rw [hperm.mem_iff, ← hall, List.mem_filter, isArchiveIn_iff hl]
    simp

theorem archivesIn_listed (dir : String) (h : Host) :
    ∃ names, archivesIn dir h = names.map (Path.join dir) ∧ ListsArchives h dir names := by
  by_cases hdir : ∃ place, h.Lists dir place
  · obtain ⟨place, hl⟩ := hdir
    exact ⟨_, by rw [archivesIn, hl.list?_eq], listsArchives_sorted hl⟩
  · have hno : ∀ place, ¬ h.Lists dir place := not_exists.mp hdir
    refine ⟨[], by rw [archivesIn, Host.list?_eq_none_iff.mpr hno, List.map_nil], .nil, fun name => ?_⟩
    exact ⟨nofun, fun ⟨⟨place, hl, _⟩, _, _⟩ => absurd hl (hno place)⟩

theorem ListsArchives.unique {names' : List String} (hnames : ListsArchives h dir names)
    (hnames' : ListsArchives h dir names') : names = names' :=
  hnames.increasing.eq_of_mem_iff hnames'.increasing fun name =>
    (hnames.complete name).trans (hnames'.complete name).symm

theorem IsArchiveIn.of_sameTree (hname : IsArchiveIn h dir name) (hk : h.SameTree k) :
    IsArchiveIn k dir name where
  entry := by
    obtain ⟨place, hl, hentry⟩ := hname.entry
    exact ⟨place, hl.of_sameTree hk, hk.disk.node _ ▸ hentry⟩
  file := hk.disk.isFile_eq _ ▸ hname.file
  extension := hname.extension

theorem ListsArchives.of_sameTree (hnames : ListsArchives h dir names) (hk : h.SameTree k) :
    ListsArchives k dir names where
  increasing := hnames.increasing
  complete name := (hnames.complete name).trans
    ⟨fun hname => hname.of_sameTree hk, fun hname => hname.of_sameTree hk.symm⟩

/-! ## The boot class path -/

theorem bootPaths_of_variable {h : Host} {value : String} (hv : h.var? bootVariable = some value) :
    bootPaths h = (Path.splitList value).filter (· ≠ "") := by
  simp only [bootPaths, hv]

theorem bootPaths_of_no_home {h : Host} (hv : h.var? bootVariable = none)
    (hh : h.var? homeVariable = none) : bootPaths h = [] := by
  simp only [bootPaths, hv, hh]

theorem bootPaths_of_home {h : Host} {home : String} (hv : h.var? bootVariable = none)
    (hh : h.var? homeVariable = some home) :
    bootPaths h = archivesIn (Path.join (Path.join home "jre") "lib") h ++
      archivesIn (Path.join home "lib") h := by
  simp only [bootPaths, hv, hh, libraryDirectories, List.flatMap_cons, List.flatMap_nil, List.append_nil]

theorem bootPaths_of_sameTree {h k : Host} (hv : k.var? bootVariable = h.var? bootVariable)
    (hh : k.var? homeVariable = h.var? homeVariable) (hk : h.SameTree k) :
    bootPaths k = bootPaths h := by
  have harchives : ∀ dir, archivesIn dir k = archivesIn dir h := by
    intro dir
    obtain ⟨names, heq, hnames⟩ := archivesIn_listed dir h
    obtain ⟨names', heq', hnames'⟩ := archivesIn_listed dir k
    rw [heq, heq', hnames'.unique (hnames.of_sameTree hk)]
  simp only [bootPaths, hv, hh, harchives]

/-- If the environment gives paths, they are what stands between the colons, less what is empty, and nothing else
matters. Otherwise they are the archives of the Java installation, those of the runtime before the others, each group
complete and in the order of its names, and empty if its directory is missing or cannot be read. How the
directories are gone through does not matter. -/
theorem boot_paths_determined (filter : Filter String) (h : Host) :
    let paths := (boot filter h).1.paths
    (∀ value, h.var? bootVariable = some value →
      (∃ parts : List String, parts ≠ [] ∧ (∀ part ∈ parts, ':' ∉ part.toList) ∧
        ":".intercalate parts = value ∧ paths = parts.filter (· ≠ "")) ∧
      (∀ given : List String, (∀ path ∈ given, path ≠ "" ∧ ':' ∉ path.toList) →
        value = ":".intercalate given → paths = given) ∧
      ∀ k : Host, k.var? bootVariable = some value → (boot filter k).1.paths = paths) ∧
    (h.var? bootVariable = none → h.var? homeVariable = none → paths = []) ∧
    (∀ home, h.var? bootVariable = none → h.var? homeVariable = some home →
      let runtime := Path.join (Path.join home "jre") "lib"
      let library := Path.join home "lib"
      ∃ first second : List String,
        paths = first.map (Path.join runtime) ++ second.map (Path.join library) ∧
        ListsArchives h runtime first ∧ ListsArchives h library second ∧
        ((∀ place, ¬ h.Lists runtime place) → first = []) ∧
        ((∀ place, ¬ h.Lists library place) → second = [])) ∧
    ∀ k : Host, k.var? bootVariable = h.var? bootVariable → k.var? homeVariable = h.var? homeVariable →
      h.SameTree k → (boot filter k).1.paths = paths := by
  intro paths
  refine ⟨?_, bootPaths_of_no_home, ?_, fun k => bootPaths_of_sameTree⟩
  · intro value hv
    refine ⟨⟨Path.splitList value, Path.splitList_ne_nil value, fun _ => Path.colon_of_mem_splitList,
      Path.intercalate_splitList value, bootPaths_of_variable hv⟩, ?_, ?_⟩
    · rintro given hgiven rfl
      exact bootPaths_of_intercalate hv hgiven
    · intro k hk
      exact (bootPaths_of_variable hk).trans (bootPaths_of_variable hv).symm
  · intro home hv hh runtime library
    obtain ⟨first, hfirst, hlists⟩ := archivesIn_listed runtime h
    obtain ⟨second, hsecond, hlists'⟩ := archivesIn_listed library h
    refine ⟨first, second, ?_, hlists, hlists', hlists.eq_nil, hlists'.eq_nil⟩
    rw [← hfirst, ← hsecond]
    exact bootPaths_of_home hv hh

example :
    let disk : Disk := ⟨[(["j"], .directory), (["j", "jre"], .directory), (["j", "jre", "lib"], .directory),
      (["j", "jre", "lib", "rt.jar"], .file .empty), (["j", "jre", "lib", "notes.txt"], .file .empty),
      (["j", "jre", "lib", "jce.jar"], .file .empty), (["j", "jre", "lib", "ext.jar"], .directory),
      (["j", "lib"], .directory), (["j", "lib", "tools.jar"], .file .empty)], []⟩
    bootPaths (.ofDisk disk [(homeVariable, "j")]) =
      ["j/jre/lib/jce.jar", "j/jre/lib/rt.jar", "j/lib/tools.jar"] := by
  decide +kernel

end ClassPath

end ClassListing
