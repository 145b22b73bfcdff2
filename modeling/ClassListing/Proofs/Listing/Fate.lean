import ClassListing.Proofs.Listing.Closing

/-!
# What comes of the names

Every name has a fate, which follows from what its look-up gives: it is skipped, or its class is found and
has a text or none, or it stops the listing. If the sink works, the steps of a name bring its fate
about.
-/

namespace ClassListing

set_option autoImplicit false

variable {ρ σ : Type}

/-! ## Fates -/

inductive Fate where
  | skipped
  | empty
  | written (text : String)
  /-- The class is not there and cannot be skipped. -/
  | unresolved (e : Error)
  /-- The class cannot be rendered. -/
  | unrendered (e : Error)
  deriving DecidableEq, Repr

namespace Fate

def failure? : Fate → Option Error
  | unresolved e => some e
  | unrendered e => some e
  | _ => none

def stops (f : Fate) : Bool := f.failure?.isSome

def text? : Fate → Option String
  | written text => some text
  | _ => none

theorem text?_of_failure {f : Fate} {e : Error} (h : f.failure? = some e) : f.text? = none := by
  cases f <;> first | rfl | cases h

/-- The fate that stops a listing is the first failure. -/
theorem findSome?_of_findIdx {fs : List Fate} {f : Fate} (h : fs[fs.findIdx stops]? = some f) :
    ∃ e, f.failure? = some e ∧ fs.findSome? failure? = some e := by
  induction fs with
  | nil => cases h
  | cons g gs ih =>
    cases hg : g.failure? with
    | none =>
      have hs : g.stops = false := by simp [stops, hg]
      rw [List.findIdx_cons, hs, cond_false, List.getElem?_cons_succ] at h
      rw [List.findSome?_cons, hg]
      exact ih h
    | some e =>
      have hs : g.stops = true := by simp [stops, hg]
      rw [List.findIdx_cons, hs, cond_true] at h
      cases h
      exact ⟨e, hg, by rw [List.findSome?_cons, hg]⟩

theorem findSome?_of_findIdx_eq_length {fs : List Fate} (h : fs.findIdx stops = fs.length) :
    fs.findSome? failure? = none := by
  refine List.findSome?_eq_none_iff.mpr fun f hf => ?_
  have hs := List.findIdx_eq_length.mp h f hf
  simpa [stops] using hs

def found : Fate → Bool
  | empty => true
  | written _ => true
  | unrendered _ => true
  | _ => false

end Fate

def Formatter.fate (f : Formatter) : Except Error JavaClass → Fate
  | .error e => if e.isRecoverable then .skipped else .unresolved e
  | .ok c =>
    match f.format c with
    | .error e => .unrendered e
    | .ok none => .empty
    | .ok (some text) => .written text

theorem Formatter.found_of_exists_format {f : Formatter} {c : JavaClass}
    (h : ∃ text, f.format c = .ok text) :
    (f.fate (.ok c)).found = true ∧ (f.fate (.ok c)).failure? = none := by
  obtain ⟨text, ht⟩ := h
  simp only [Formatter.fate, ht]
  cases text with
  | none => exact ⟨rfl, rfl⟩
  | some text => exact ⟨rfl, rfl⟩

theorem Formatter.fate_of_recoverable {f : Formatter} {e : Error} (h : e.isRecoverable = true) :
    f.fate (.error e) = .skipped := by
  rw [Formatter.fate, if_pos h]

def Resolver.lookups (r : Resolver ρ) : List String → ρ → List (Except Error JavaClass)
  | [], _ => []
  | name :: names, s => (r.resolve name s).1 :: r.lookups names (r.resolve name s).2

namespace Summary

def count (s : Summary) : Fate → Summary
  | .skipped => { s with skipped := s.skipped + 1 }
  | .empty => { s with resolved := s.resolved + 1, empty := s.empty + 1 }
  | .written _ => { s with resolved := s.resolved + 1, written := s.written + 1 }
  | .unresolved _ => s
  | .unrendered _ => { s with resolved := s.resolved + 1 }

theorem foldl_count (fs : List Fate) (s : Summary) :
    fs.foldl count s = ⟨s.resolved + fs.countP Fate.found, s.skipped + fs.count .skipped,
      s.empty + fs.count .empty, s.written + fs.countP (·.text?.isSome)⟩ := by
  induction fs generalizing s with
  | nil => rfl
  | cons f fs ih =>
    rw [List.foldl_cons, ih]
    cases f <;> simp [count, List.countP_cons, Fate.found, Fate.text?] <;> omega

end Summary

/-! ## Sinks that work -/

/-- As long as the sink and the host are good, writing and closing do not fail, and they stay good. -/
structure Sink.Reliable (k : Sink σ) (Good : σ → Host → Prop) : Prop where
  write : ∀ {s h} text, Good s h →
    (k.write text s h).1 = .ok () ∧ Good (k.write text s h).2.1 (k.write text s h).2.2
  release : ∀ {s h}, Good s h → (k.release s h).1 = .ok ()
  logged : ∀ {s h} component level text, Good s h → Good s (h.logged component level text)

theorem TerminalSink.reliable : TerminalSink.sink.Reliable fun s _ => s.waiting.isSome where
  write {s h} text hs := by
    obtain ⟨waiting, hw⟩ := Option.isSome_iff_exists.mp hs
    simp [TerminalSink.sink, TerminalSink.write, hw]
  release {s h} hs := by
    obtain ⟨waiting, hw⟩ := Option.isSome_iff_exists.mp hs
    simp [TerminalSink.sink, TerminalSink.release, hw]
  logged _ _ _ hs := hs

theorem FileSink.reliable : FileSink.sink.Reliable fun s _ => s.file.isSome where
  write {s h} text hs := by
    obtain ⟨f, hf⟩ := Option.isSome_iff_exists.mp hs
    simp [FileSink.sink, FileSink.write, hf]
  release {s h} hs := by
    obtain ⟨f, hf⟩ := Option.isSome_iff_exists.mp hs
    simp [FileSink.sink, FileSink.release, hf]
  logged _ _ _ hs := hs

/-- As long as the sink and the host are good, the feed gives the names, and they stay good. -/
def Feed.Gives (Good : σ → Host → Prop) : Feed → List String → Prop
  | f, [] => ∀ s h, Good s h → (f.next h).1 = none ∧ Good s (f.next h).2.2
  | f, x :: xs => ∀ s h, Good s h →
    (f.next h).1 = some x ∧ Good s (f.next h).2.2 ∧ Feed.Gives Good (f.next h).2.1 xs

theorem Feed.gives_names (Good : σ → Host → Prop) (xs : List String) :
    (Feed.names xs).Gives Good xs := by
  induction xs with
  | nil => exact fun _ _ h => ⟨rfl, h⟩
  | cons x xs ih => exact fun _ _ h => ⟨rfl, h, ih⟩

/-! ## One name -/

theorem Session.resolve_counts (s : Session ρ) (r : Resolver ρ) (name : String) :
    let c := (r.resolve name s.state).1
    s.resolve r name = (c, ⟨(r.resolve name s.state).2,
      s.resolved + [c].countP (failure · = none), s.failed + [c].countP (failure · ≠ none)⟩) := by
  unfold Session.resolve
  rcases r.resolve name s.state with ⟨c, state⟩
  cases c <;> rfl

structure BringsAbout (Good : σ → Host → Prop) (f : Fate) (steps : List Step) (p : Progress ρ σ)
    (r : Except Error Unit × Progress ρ σ) : Prop where
  failure : failure r.1 = f.failure?
  texts : steps.filterMap Step.text? = f.text?.toList
  good : Good r.2.sink r.2.host
  summary : r.2.summary = p.summary.count f

namespace Job

variable {j : Job ρ σ} {Good : σ → Host → Prop}

theorem emit_bringsAbout (hk : j.sink.Reliable Good) (name : String) (c : JavaClass)
    {p : Progress ρ σ} (hp : Good p.sink p.host) :
    BringsAbout Good (j.formatter.fate (.ok c)) (j.emitSteps c p) p (j.emit name c p) ∧
      (j.emit name c p).2.session = p.session := by
  unfold emitSteps emit
  cases hf : j.formatter.format c with
  | error e =>
    have hfate : j.formatter.fate (.ok c) = .unrendered e := by simp only [Formatter.fate, hf]
    rw [hfate]
    exact ⟨⟨rfl, rfl, hp, rfl⟩, rfl⟩
  | ok text =>
    cases text with
    | none =>
      have hfate : j.formatter.fate (.ok c) = .empty := by simp only [Formatter.fate, hf]
      rw [hfate]
      exact ⟨⟨rfl, rfl, hk.logged _ _ _ hp, rfl⟩, rfl⟩
    | some text =>
      have hfate : j.formatter.fate (.ok c) = .written text := by simp only [Formatter.fate, hf]
      obtain ⟨hok, hg⟩ := hk.write text hp
      rcases hw : j.sink.write text p.sink p.host with ⟨r, t, host⟩
      rw [hw] at hok hg
      cases hok
      rw [hfate]
      simp only [put, hw]
      exact ⟨⟨rfl, rfl, hg, rfl⟩, trivial⟩

theorem visit_bringsAbout (hk : j.sink.Reliable Good) (name : String) {p : Progress ρ σ}
    (hp : Good p.sink p.host) :
    BringsAbout Good (j.formatter.fate (j.resolver.resolve name p.session.state).1)
        (j.visitSteps name p) p (j.visit name p) ∧
      (j.visit name p).2.session = (p.session.resolve j.resolver name).2 := by
  have hr : (p.session.resolve j.resolver name).1 = (j.resolver.resolve name p.session.state).1 := by
    rw [Session.resolve_counts]
  rw [← hr]
  unfold visitSteps visit
  rcases p.session.resolve j.resolver name with ⟨c, session⟩
  cases c with
  | ok c =>
    obtain ⟨⟨hf, ht, hg, hs⟩, hse⟩ := emit_bringsAbout hk name c (p := { p with session }) hp
    exact ⟨⟨hf, ht, hg, hs⟩, hse⟩
  | error e =>
    cases he : e.isRecoverable with
    | true =>
      have hfate : j.formatter.fate (.error e) = .skipped := by simp [Formatter.fate, he]
      rw [hfate]
      simp only [he, if_true]
      exact ⟨⟨rfl, rfl, hk.logged _ _ _ hp, rfl⟩, trivial⟩
    | false =>
      have hfate : j.formatter.fate (.error e) = .unresolved e := by simp [Formatter.fate, he]
      rw [hfate]
      simp only [he, Bool.false_eq_true, if_false]
      exact ⟨⟨rfl, rfl, hp, rfl⟩, trivial⟩

end Job

end ClassListing
