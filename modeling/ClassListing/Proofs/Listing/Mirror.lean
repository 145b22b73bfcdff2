import ClassListing.Proofs.Host.Agreement
import ClassListing.Run

/-!
# Listings side by side

Two listings of the same names with the same look-ups and the same format go the same way as long as what
they do to their sinks comes to the same. In particular hosts that agree cannot be told apart by a
listing. Closing may end the likeness of sinks that are open, and leave another one.
-/

namespace ClassListing

set_option autoImplicit false

variable {ρ σ τ : Type}

/-- Sinks on their hosts that are written to, closed and logged about with the same results: `R` as long as
they are open and `Q` once they have been closed. -/
structure Sink.Mirrors (R Q : σ × Host → τ × Host → Prop) (k : Sink σ) (l : Sink τ) : Prop where
  write : ∀ {x y} text, R x y →
    (k.write text x.1 x.2).1 = (l.write text y.1 y.2).1 ∧
      R (k.write text x.1 x.2).2 (l.write text y.1 y.2).2
  release : ∀ {x y}, R x y →
    (k.release x.1 x.2).1 = (l.release y.1 y.2).1 ∧ Q (k.release x.1 x.2).2 (l.release y.1 y.2).2
  logged : ∀ {x y} component level text, R x y →
    R (x.1, x.2.logged component level text) (y.1, y.2.logged component level text)
  closed_logged : ∀ {x y} component level text, Q x y →
    Q (x.1, x.2.logged component level text) (y.1, y.2.logged component level text)

/-- Feeds that give the same names on both hosts, and are such feeds afterwards. -/
def Feed.Mirrors (R : σ × Host → τ × Host → Prop) (P : Feed → Prop) : Prop :=
  ∀ {f x y}, P f → R x y →
    (f.next x.2).1 = (f.next y.2).1 ∧ (f.next x.2).2.1 = (f.next y.2).2.1 ∧
      P (f.next x.2).2.1 ∧ R (x.1, (f.next x.2).2.2) (y.1, (f.next y.2).2.2)

/-- Two listings that have gone the same way so far. -/
structure Progress.Mirrors (R : σ × Host → τ × Host → Prop) (p : Progress ρ σ)
    (q : Progress ρ τ) : Prop where
  session : p.session = q.session
  summary : p.summary = q.summary
  sink : R (p.sink, p.host) (q.sink, q.host)

/-- The same answer, and the same way so far. -/
structure Progress.MirrorsWith {α : Type} (R : σ × Host → τ × Host → Prop) (x : α × Progress ρ σ)
    (y : α × Progress ρ τ) : Prop where
  result : x.1 = y.1
  progress : x.2.Mirrors R y.2

open Progress (MirrorsWith)

namespace Job

variable {r : Resolver ρ} {f : Formatter} {k : Sink σ} {l : Sink τ}
  {R Q : σ × Host → τ × Host → Prop} {P : Feed → Prop} {p : Progress ρ σ} {q : Progress ρ τ}

/-! ## One name -/

theorem put_mirrors (hk : Sink.Mirrors R Q k l) (text : String) (h : p.Mirrors R q) :
    MirrorsWith R (put ⟨r, f, k⟩ text p) (put ⟨r, f, l⟩ text q) := by
  obtain ⟨hresult, hsink⟩ := hk.write text h.sink
  exact ⟨hresult, h.session, h.summary, hsink⟩

theorem emit_mirrors (hk : Sink.Mirrors R Q k l) (name : String) (c : JavaClass)
    (h : p.Mirrors R q) : MirrorsWith R (emit ⟨r, f, k⟩ name c p) (emit ⟨r, f, l⟩ name c q) := by
  obtain ⟨session, sink, summary, host⟩ := p
  obtain ⟨session', sink', summary', host'⟩ := q
  obtain ⟨hsession, hsummary, hsink⟩ := h
  cases hsession
  cases hsummary
  unfold emit
  cases f.format c with
  | error e => exact ⟨rfl, rfl, rfl, hsink⟩
  | ok text =>
    cases text with
    | none => exact ⟨rfl, rfl, rfl, hk.logged _ _ _ hsink⟩
    | some text =>
      obtain ⟨hresult, hwritten⟩ := hk.write text hsink
      rcases hx : k.write text sink host with ⟨a, t, w⟩
      rcases hy : l.write text sink' host' with ⟨b, t', w'⟩
      rw [hx, hy] at hresult hwritten
      cases hresult
      simp only [put, hx, hy]
      cases a with
      | error e => exact ⟨rfl, rfl, rfl, hwritten⟩
      | ok u => exact ⟨rfl, rfl, rfl, hwritten⟩

theorem visit_mirrors (hk : Sink.Mirrors R Q k l) (name : String) (h : p.Mirrors R q) :
    MirrorsWith R (visit ⟨r, f, k⟩ name p) (visit ⟨r, f, l⟩ name q) := by
  obtain ⟨session, sink, summary, host⟩ := p
  obtain ⟨session', sink', summary', host'⟩ := q
  obtain ⟨hsession, hsummary, hsink⟩ := h
  cases hsession
  cases hsummary
  unfold visit
  dsimp only
  rcases session.resolve r name with ⟨c, session⟩
  cases c with
  | ok c => exact emit_mirrors hk name c ⟨rfl, rfl, hsink⟩
  | error e =>
    by_cases he : e.isRecoverable = true
    · simp only [he, if_true]
      exact ⟨rfl, rfl, rfl, hk.logged _ _ _ hsink⟩
    · simp only [he, Bool.false_eq_true, if_false]
      exact ⟨rfl, rfl, rfl, hsink⟩

/-! ## All names -/

/-- Both listings are given the same next name, and it comes to the same. -/
theorem exists_next_mirrors (hk : Sink.Mirrors R Q k l) (hf : Feed.Mirrors R P) {g g' : Feed}
    (hg : P g) (h : p.Mirrors R q) {name : String} {host : Host}
    (hn : g.next p.host = (some name, g', host)) :
    ∃ host', g.next q.host = (some name, g', host') ∧ P g' ∧
      MirrorsWith R (visit ⟨r, f, k⟩ name { p with host })
        (visit ⟨r, f, l⟩ name { q with host := host' }) := by
  obtain ⟨hname, hrest, hg', hsink⟩ := hf hg h.sink
  rcases hm : g.next q.host with ⟨y, g'', host'⟩
  rw [hn, hm] at hname hrest hsink
  rw [hn] at hg'
  cases hname
  cases hrest
  exact ⟨host', rfl, hg', visit_mirrors hk name ⟨h.session, h.summary, hsink⟩⟩

theorem visitAll_mirrors (hk : Sink.Mirrors R Q k l) (hf : Feed.Mirrors R P) {g : Feed} (hg : P g)
    (h : p.Mirrors R q) : MirrorsWith R (visitAll ⟨r, f, k⟩ g p) (visitAll ⟨r, f, l⟩ g q) := by
  -- the induction is on the names that the left listing is given
  fun_induction visitAll ⟨r, f, k⟩ g p generalizing q with
  | case1 g p g' host hn =>
    obtain ⟨hname, -, -, hsink⟩ := hf hg h.sink
    rcases hm : g.next q.host with ⟨y, g'', host'⟩
    rw [hn, hm] at hname hsink
    cases hname
    rw [visitAll, hm]
    exact ⟨rfl, h.session, h.summary, hsink⟩
  | case2 g p name g' host hn e p' hv =>
    obtain ⟨host', hm, -, hvisit⟩ := exists_next_mirrors (r := r) (f := f) hk hf hg h hn
    rw [visitAll.eq_def ⟨r, f, l⟩, hm]
    rcases hw : visit ⟨r, f, l⟩ name { q with host := host' } with ⟨b, q'⟩
    rw [hv, hw] at hvisit
    obtain ⟨hresult, hprogress⟩ := hvisit
    cases hresult
    simp only [hw]
    exact ⟨rfl, hprogress⟩
  | case3 g p name g' host hn p' hv ih =>
    obtain ⟨host', hm, hg', hvisit⟩ := exists_next_mirrors (r := r) (f := f) hk hf hg h hn
    rw [visitAll.eq_def ⟨r, f, l⟩, hm]
    rcases hw : visit ⟨r, f, l⟩ name { q with host := host' } with ⟨b, q'⟩
    rw [hv, hw] at hvisit
    obtain ⟨hresult, hprogress⟩ := hvisit
    cases hresult
    simp only [hw]
    exact ih hg' hprogress

/-! ## The listing -/

theorem body_mirrors (hk : Sink.Mirrors R Q k l) (hf : Feed.Mirrors R P) {g : Feed} (hg : P g)
    (h : p.Mirrors R q) : MirrorsWith R (body ⟨r, f, k⟩ g p) (body ⟨r, f, l⟩ g q) := by
  unfold body
  by_cases hh : f.header = ""
  · simp only [hh, if_true]
    exact visitAll_mirrors hk hf hg h
  · have hput := put_mirrors (r := r) (f := f) hk f.header h
    simp only [hh, if_false]
    rcases hx : put ⟨r, f, k⟩ f.header p with ⟨a, p'⟩
    rcases hy : put ⟨r, f, l⟩ f.header q with ⟨b, q'⟩
    rw [hx, hy] at hput
    obtain ⟨hresult, hprogress⟩ := hput
    cases hresult
    cases a with
    | error e => exact ⟨rfl, hprogress⟩
    | ok u => exact visitAll_mirrors hk hf hg hprogress

theorem abandon_mirrors (hk : Sink.Mirrors R Q k l) {x : σ × Host} {y : τ × Host} (h : R x y) :
    Q (k.abandon x.1 x.2) (l.abandon y.1 y.2) := by
  obtain ⟨hresult, hsink⟩ := hk.release h
  unfold Sink.abandon
  rcases hx : k.release x.1 x.2 with ⟨a, x'⟩
  rcases hy : l.release y.1 y.2 with ⟨b, y'⟩
  rw [hx, hy] at hresult hsink
  cases hresult
  cases a with
  | error e => exact hk.closed_logged _ _ _ hsink
  | ok u => exact hsink

theorem whileOpen_mirrors (hk : Sink.Mirrors R Q k l) (hf : Feed.Mirrors R P) (tag : String)
    {g : Feed} (hg : P g) (h : p.Mirrors R q) :
    MirrorsWith Q (whileOpen ⟨r, f, k⟩ tag g p) (whileOpen ⟨r, f, l⟩ tag g q) := by
  have hbody := body_mirrors (r := r) (f := f) hk hf hg h
  unfold whileOpen
  rcases hx : body ⟨r, f, k⟩ g p with ⟨a, session, sink, summary, host⟩
  rcases hy : body ⟨r, f, l⟩ g q with ⟨b, session', sink', summary', host'⟩
  rw [hx, hy] at hbody
  obtain ⟨hresult, hsession, hsummary, hsink⟩ := hbody
  cases hresult
  cases hsession
  cases hsummary
  cases a with
  | error e => exact ⟨rfl, rfl, rfl, abandon_mirrors hk hsink⟩
  | ok u =>
    obtain ⟨hclosed, hreleased⟩ := hk.release hsink
    rcases hx' : k.release sink host with ⟨c, t, w⟩
    rcases hy' : l.release sink' host' with ⟨d, t', w'⟩
    rw [hx', hy'] at hclosed hreleased
    cases hclosed
    simp only [hx', hy']
    cases c with
    | error e => exact ⟨rfl, rfl, rfl, hreleased⟩
    | ok u => exact ⟨rfl, rfl, rfl, hk.closed_logged _ _ _ hreleased⟩

end Job

/-! ## Hosts that agree -/

open Host (Agree AgreeWith)

/-- What a sink does depends on nothing in which the hosts differ. -/
structure Sink.Agrees (k : Sink σ) : Prop where
  acquire : ∀ {h h'} s, Agree h h' → Alike Eq Eq Agree (k.acquire s h) (k.acquire s h')
  write : ∀ {h h'} text s, Agree h h' → Alike Eq Eq Agree (k.write text s h) (k.write text s h')
  release : ∀ {h h'} s, Agree h h' → Alike Eq Eq Agree (k.release s h) (k.release s h')

theorem FileSink.sink_agrees : FileSink.sink.Agrees where
  acquire {h h'} s hh := by
    simp only [FileSink.sink, FileSink.acquire]
    cases s.file with
    | some file => exact ⟨rfl, rfl, hh⟩
    | none =>
      simp only [← hh.disk]
      cases h.disk.create s.path with
      | error e => exact ⟨rfl, rfl, hh⟩
      | ok created => exact ⟨rfl, rfl, rfl, hh.stdout, hh.asked⟩
  write {h h'} text s hh := by
    simp only [FileSink.sink, FileSink.write]
    cases s.file with
    | none => exact ⟨rfl, rfl, hh⟩
    | some file => exact ⟨rfl, rfl, by simp only [hh.disk], hh.stdout, hh.asked⟩
  release {h h'} s hh := by
    simp only [FileSink.sink, FileSink.release]
    cases s.file with
    | none => exact ⟨rfl, rfl, hh⟩
    | some file => exact ⟨rfl, rfl, by simp only [hh.disk], hh.stdout, hh.asked⟩

theorem TerminalSink.sink_agrees : TerminalSink.sink.Agrees where
  acquire {h h'} s hh := by
    simp only [TerminalSink.sink, TerminalSink.acquire]
    cases s.waiting <;> exact ⟨rfl, rfl, hh⟩
  write {h h'} text s hh := by
    simp only [TerminalSink.sink, TerminalSink.write]
    cases s.waiting with
    | none => exact ⟨rfl, rfl, hh⟩
    | some waiting => exact ⟨rfl, rfl, hh.disk, congrArg (· ++ _) hh.stdout, hh.asked⟩
  release {h h'} s hh := by
    simp only [TerminalSink.sink, TerminalSink.release]
    cases s.waiting with
    | none => exact ⟨rfl, rfl, hh⟩
    | some waiting => exact ⟨rfl, rfl, hh.disk, congrArg (· ++ _) hh.stdout, hh.asked⟩

theorem Sink.Agrees.mirrors {k : Sink σ} (hk : k.Agrees) : Sink.Mirrors AgreeWith AgreeWith k k where
  write := by
    rintro ⟨s, h⟩ ⟨_, h'⟩ text ⟨rfl, hh⟩
    obtain ⟨hr, hs, hw⟩ := hk.write text s hh
    exact ⟨hr, hs, hw⟩
  release := by
    rintro ⟨s, h⟩ ⟨_, h'⟩ ⟨rfl, hh⟩
    obtain ⟨hr, hs, hw⟩ := hk.release s hh
    exact ⟨hr, hs, hw⟩
  logged _ _ _ hh := ⟨hh.result, hh.host.logged_both ..⟩
  closed_logged _ _ _ hh := ⟨hh.result, hh.host.logged_both ..⟩

theorem Feed.mirrors : Feed.Mirrors (AgreeWith (α := σ)) fun _ => True := by
  rintro f ⟨s, h⟩ ⟨_, h'⟩ - ⟨rfl, hh⟩
  obtain ⟨hx, hg, hw⟩ := f.next_agrees hh
  exact ⟨hx, hg, trivial, rfl, hw⟩

/-- On hosts that agree a listing goes the same way. -/
theorem Job.run_agrees {j : Job ρ σ} (hk : j.sink.Agrees) (source : Source) (session : Session ρ)
    (sink : σ) {h h' : Host} (hh : Agree h h') :
    (j.run source session sink h).1 = (j.run source session sink h').1 ∧
      (j.run source session sink h).2.2.Mirrors AgreeWith (j.run source session sink h').2.2 := by
  obtain ⟨hfeed, htag, hw⟩ := source.feed_agrees hh
  unfold run
  rcases hx : source.feed h with ⟨r, source', w⟩
  rcases hy : source.feed h' with ⟨r', source'', w'⟩
  rw [hx, hy] at hfeed htag hw
  cases hfeed
  cases htag
  cases r with
  | error e => exact ⟨rfl, rfl, rfl, rfl, hw⟩
  | ok feed =>
    obtain ⟨ho, hs, hw⟩ := hk.acquire sink hw
    dsimp only at ho hs hw ⊢
    rcases hx : j.sink.acquire sink w with ⟨o, s, v⟩
    rcases hy : j.sink.acquire sink w' with ⟨o', s', v'⟩
    rw [hx, hy] at ho hs hw
    cases ho
    cases hs
    cases o with
    | error e => exact ⟨rfl, rfl, rfl, rfl, hw⟩
    | ok u =>
      obtain ⟨hresult, hprogress⟩ := whileOpen_mirrors (r := j.resolver) (f := j.formatter)
        hk.mirrors Feed.mirrors source'.tag (g := feed) trivial
        (p := ⟨session, s, .zero, v⟩) (q := ⟨session, s, .zero, v'⟩) ⟨rfl, rfl, rfl, hw⟩
      exact ⟨hresult, hprogress⟩

end ClassListing
