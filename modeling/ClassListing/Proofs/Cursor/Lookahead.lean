import ClassListing.Proofs.Cursor.Combination
import ClassListing.Proofs.Cursor.Observed

/-!
# How far a filtered cursor reads

A filtered cursor looks up its next match at the start and after every yield. Whatever is asked of it, what it
has taken from the inner cursor ends with that match, or it is everything. Each element taken has
been shown to the filter once, right after it was taken.
-/

namespace ClassListing

set_option autoImplicit false

variable {W σ α : Type}

def Cursor.Answer.isNext : Cursor.Answer α → Bool
  | next _ => true
  | _ => false

namespace Filtered

/-- What goes on below a filtered cursor: the inner cursor answers a call, the filter is asked. -/
inductive Access (α : Type) where
  | answered (a : Cursor.Answer α)
  | asked (x : α)

def watched (C : Cursor W σ α) : Cursor (W × List (Access α)) σ α :=
  C.observed fun _ a es => es ++ [.answered a]

def watchedAsk (ask : α → W → Bool × W) (x : α) (w : W × List (Access α)) :
    Bool × W × List (Access α) :=
  let (yes, v) := ask x w.1
  (yes, v, w.2 ++ [.asked x])

/-- Each element is taken and then shown to the filter. -/
def accesses (taken : List α) : List (Access α) :=
  taken.flatMap fun x => [.answered (.next (some x)), .asked x]

def endFound {β : Type} (lookahead : Option β) : List (Access α) :=
  if lookahead.isSome then [] else [.answered (.next none)]

theorem accesses_append (xs ys : List α) : accesses (xs ++ ys) = accesses xs ++ accesses ys :=
  List.flatMap_append

theorem accesses_cons (x : α) (xs : List α) :
    accesses (x :: xs) = [.answered (.next (some x)), .asked x] ++ accesses xs := rfl

theorem Image.eq {s t : Filtered σ α} (h : Image (fun x => x) Eq s t) : s = t := by
  obtain ⟨inner, lookahead⟩ := s
  obtain ⟨inner', lookahead'⟩ := t
  obtain ⟨hi, hl⟩ := h
  simp_all

/-- Watching what goes on below changes nothing above. -/
theorem run_watched (C : Cursor W σ α) (ask : α → W → Bool × W) (inner : σ) (w : W)
    (es : List (Access α)) (ops : List Cursor.Operation) :
    let s := start (watched C) (watchedAsk ask) inner (w, es)
    let r := (cursor (watched C) (watchedAsk ask)).run ops s.1 s.2
    (cursor C ask).run ops (start C ask inner w).1 (start C ask inner w).2 =
      (r.1, r.2.1, r.2.2.1) := by
  have ha : AskImage (fun x => x) (fun (w : W × List (Access α)) v => w.1 = v)
      (watchedAsk ask) ask := by
    rintro x w - rfl
    exact ⟨rfl, rfl⟩
  have hC := C.observed_image fun _ a (es : List (Access α)) => es ++ [.answered a]
  have hs := refill_image hC ha (s := inner) rfl (w := (w, es)) rfl
  obtain ⟨has, hst, hwo⟩ := (cursor_image hC ha).run ops hs.1 hs.2
  rw [Cursor.map_answers_id] at has
  exact Prod.ext has (Prod.ext hst.eq.symm hwo.symm)

variable {C : Cursor W σ α} {R : C.Reading} {ask : α → W → Bool × W} {accepts : α → Bool}

theorem next_eq_lookahead (f : Filtered σ α) (w : W) : (next C ask f w).1 = f.lookahead := by
  obtain ⟨inner, lookahead⟩ := f
  cases lookahead <;> rfl

theorem next_of_end {f : Filtered σ α} (h : f.lookahead = none) (w : W) :
    next C ask f w = (none, f, w) := by
  simp [next, h]

/-! ## Looking up one match -/

/-- What looking up a match takes: everything up to the match, which is the only one in it. -/
structure Found (R : C.Reading) (accepts : α → Bool) (before : List α) (es : List (Access α))
    (passed : List α) (r : Option α × σ × W × List (Access α)) : Prop where
  valid : R.Valid r.2.1
  left : before = passed ++ R.left r.2.1
  matches_eq : passed.filter accepts = r.1.toList
  last : ∀ x ∈ r.1, passed.getLast? = some x
  ended : r.1 = none → R.left r.2.1 = []
  record : r.2.2.2 = es ++ accesses passed ++ endFound r.1

theorem watched_next (s : σ) (w : W × List (Access α)) :
    (watched C).next s w = ((C.next s w.1).1, (C.next s w.1).2.1, (C.next s w.1).2.2,
      w.2 ++ [.answered (.next (C.next s w.1).1)]) := rfl

theorem find_found (ha : ∀ x w, (ask x w).1 = accepts x) (bound : Nat) {s : σ}
    (w : W × List (Access α)) (hs : R.Valid s) (hb : (R.left s).length < bound) :
    ∃ passed, Found R accepts (R.left s) w.2 passed
      (find (watched C) (watchedAsk ask) bound s w) := by
  induction bound generalizing s w with
  | zero => omega
  | succ bound ih =>
    have hn := R.next_eq w.1 hs
    have hv := R.next_valid w.1 hs
    have hl := R.next_left w.1 hs
    unfold find
    rw [watched_next]
    generalize C.next s w.1 = r at hn hv hl
    obtain ⟨x, s', w'⟩ := r
    simp only at hn hv hl
    cases hx : R.left s with
    | nil =>
      rw [hx, List.head?_nil] at hn
      rw [hx, List.tail_nil] at hl
      subst hn
      exact ⟨[], hv, by simp [hl], rfl, by simp, fun _ => hl, by simp [accesses, endFound]⟩
    | cons y ys =>
      rw [hx, List.head?_cons] at hn
      rw [hx, List.tail_cons] at hl
      subst hn
      cases hy : accepts y with
      | true =>
        refine ⟨[y], ?_⟩
        simp only [watchedAsk, ha, hy, if_true]
        exact ⟨hv, by simp [hl], by simp [hy], by simp, by simp, by simp [accesses, endFound]⟩
      | false =>
        -- one element is taken and passed over, so the bound still exceeds what is left
        have hlen : (R.left s').length < bound := by
          rw [hx, List.length_cons] at hb
          rw [hl]
          omega
        simp only [watchedAsk, ha, hy, Bool.false_eq_true, if_false]
        obtain ⟨passed, hf⟩ := ih ((ask y w').2, w.2 ++ [.answered (.next (some y))] ++ [.asked y])
          hv hlen
        rw [hl] at hf
        refine ⟨y :: passed, hf.valid, by simpa using hf.left, ?_, ?_, hf.ended, ?_⟩
        · rw [List.filter_cons_of_neg (by simp [hy]), hf.matches_eq]
        · intro x hx
          have hlast := hf.last x hx
          rw [List.getLast?_cons, hlast]
          rfl
        · rw [hf.record]
          simp [accesses_cons]

/-! ## Between two calls -/

/-- The elements taken are known from what has been yielded and the match looked up. -/
structure Ahead (R : C.Reading) (accepts : α → Bool) (items yielded taken : List α)
    (f : Filtered σ α) (es : List (Access α)) : Prop where
  valid : Valid R f
  left : items = taken ++ R.left f.inner
  matches_eq : taken.filter accepts = yielded ++ f.lookahead.toList
  last : ∀ x ∈ f.lookahead, taken.getLast? = some x
  record : es = accesses taken ++ endFound f.lookahead

theorem refill_ahead (ha : ∀ x w, (ask x w).1 = accepts x) {items yielded taken : List α} {s : σ}
    (w : W × List (Access α)) (hs : R.Valid s) (hl : items = taken ++ R.left s)
    (hy : taken.filter accepts = yielded) (he : w.2 = accesses taken) :
    ∃ taken', Ahead R accepts items yielded taken'
      (refill (watched C) (watchedAsk ask) s w).1 (refill (watched C) (watchedAsk ask) s w).2.2 := by
  obtain ⟨passed, hf⟩ := find_found ha (C.bound s + 1) w hs (Nat.lt_succ_of_le (R.length_le hs))
  refine ⟨taken ++ passed, ⟨hf.valid, hf.ended⟩, ?_, ?_, ?_, ?_⟩
  · rw [hl, hf.left, List.append_assoc]
    rfl
  · rw [List.filter_append, hy, hf.matches_eq]
    rfl
  · intro x hx
    rw [List.getLast?_append, hf.last x hx]
    rfl
  · refine hf.record.trans ?_
    rw [he, accesses_append]
    rfl

theorem Ahead.perform (ha : ∀ x w, (ask x w).1 = accepts x) {items yielded taken : List α}
    {f : Filtered σ α} {w : W × List (Access α)} (h : Ahead R accepts items yielded taken f w.2)
    (op : Cursor.Operation) :
    ∃ taken', Ahead R accepts items
      (yielded ++
        ((cursor (watched C) (watchedAsk ask)).perform op f w).1.yielded.toList) taken'
      ((cursor (watched C) (watchedAsk ask)).perform op f w).2.1
      ((cursor (watched C) (watchedAsk ask)).perform op f w).2.2.2 := by
  cases op with
  | hasNext => exact ⟨taken, by simpa [Cursor.perform, cursor, Cursor.Answer.yielded] using h⟩
  | remove => exact ⟨taken, by simpa [Cursor.perform, cursor, Cursor.Answer.yielded] using h⟩
  | next =>
    obtain ⟨inner, lookahead⟩ := f
    cases lookahead with
    | none => exact ⟨taken, by simpa [Cursor.perform, cursor, next, Cursor.Answer.yielded] using h⟩
    | some x =>
      exact refill_ahead ha w h.valid.inner h.left h.matches_eq (by simpa [endFound] using h.record)

theorem Ahead.run (ha : ∀ x w, (ask x w).1 = accepts x) {items yielded taken : List α}
    {f : Filtered σ α} {w : W × List (Access α)} (h : Ahead R accepts items yielded taken f w.2)
    (ops : List Cursor.Operation) :
    ∃ taken', Ahead R accepts items
      (yielded ++ ((cursor (watched C) (watchedAsk ask)).run ops f w).1.filterMap
        Cursor.Answer.yielded) taken'
      ((cursor (watched C) (watchedAsk ask)).run ops f w).2.1
      ((cursor (watched C) (watchedAsk ask)).run ops f w).2.2.2 := by
  induction ops generalizing yielded taken f w with
  | nil => exact ⟨taken, by simpa using h⟩
  | cons op ops ih =>
    obtain ⟨between, hb⟩ := h.perform ha op
    obtain ⟨taken', ht⟩ := ih hb
    refine ⟨taken', ?_⟩
    rw [Cursor.run_cons]
    cases hy : ((cursor (watched C) (watchedAsk ask)).perform op f w).1.yielded <;>
      simpa [hy] using ht

/-- The first elements with a number of accepted ones, and as few as that takes. -/
structure Shortest (accepts : α → Bool) (items : List α) (n : Nat) (taken : List α) : Prop where
  initial : taken <+: items
  count : taken.countP accepts = n
  least : ∀ front, front <+: items → front.countP accepts = n → taken <+: front

namespace Ahead

variable {items yielded taken : List α} {f : Filtered σ α} {es : List (Access α)}
  (h : Ahead R accepts items yielded taken f es)
include h

theorem filter_items :
    items.filter accepts = yielded ++ Filtered.left R accepts f := by
  rw [h.left, List.filter_append, h.matches_eq, List.append_assoc]
  rfl

theorem length_yielded_le : yielded.length ≤ items.countP accepts := by
  rw [List.countP_eq_length_filter, h.filter_items, List.length_append]
  omega

theorem lt_iff : yielded.length < items.countP accepts ↔ f.lookahead.isSome := by
  rw [List.countP_eq_length_filter, h.filter_items, List.length_append, hasNext_reading h.valid]
  cases Filtered.left R accepts f <;> simp

theorem lookahead_eq : f.lookahead = (items.filter accepts)[yielded.length]? := by
  rw [h.filter_items, List.getElem?_append_right (Nat.le_refl _), Nat.sub_self]
  cases hx : f.lookahead with
  | none => simp [Filtered.left, hx, h.valid.lookahead hx]
  | some x => simp [Filtered.left, hx]

theorem shortest (hx : f.lookahead.isSome) :
    Shortest accepts items (yielded.length + 1) taken := by
  obtain ⟨x, hx⟩ := Option.isSome_iff_exists.mp hx
  have hmatches : taken.filter accepts = yielded ++ [x] := by rw [h.matches_eq, hx]; rfl
  have hcount : taken.countP accepts = yielded.length + 1 := by
    rw [List.countP_eq_length_filter, hmatches, List.length_append, List.length_singleton]
  have hinit : taken <+: items := ⟨_, h.left.symm⟩
  refine ⟨hinit, hcount, fun front hf hc => ?_⟩
  -- a shorter beginning lacks the last element taken, which is an accepted one
  rcases List.prefix_or_prefix_of_prefix hinit hf with hle | hle
  · exact hle
  · obtain ⟨before, rfl⟩ := List.getLast?_eq_some_iff.mp (h.last x hx)
    have hx' : accepts x = true := by
      have hmem : x ∈ (before ++ [x]).filter accepts := hmatches ▸ List.mem_append_right _ (.head _)
      exact (List.mem_filter.mp hmem).2
    have hbefore : before.countP accepts = yielded.length := by
      simpa [List.countP_append, hx'] using hcount
    rcases List.prefix_concat_iff.mp hle with rfl | hshort
    · exact List.prefix_rfl
    · have hlt := hshort.sublist.countP_le (p := accepts)
      omega

theorem taken_eq (hx : f.lookahead = none) : taken = items := by
  rw [h.left, h.valid.lookahead hx, List.append_nil]

end Ahead

/-! ## Any calls -/

theorem run_filter_next (ops : List Cursor.Operation) (f : Filtered σ α) (w : W) :
    (cursor C ask).run (ops.filter (· = .next)) f w =
      (((cursor C ask).run ops f w).1.filter Cursor.Answer.isNext,
        ((cursor C ask).run ops f w).2) := by
  induction ops generalizing f w with
  | nil => rfl
  | cons op ops ih =>
    rw [Cursor.run_cons]
    cases op with
    | next =>
      rw [List.filter_cons_of_pos (by decide), Cursor.run_cons, ih]
      rfl
    | hasNext =>
      rw [List.filter_cons_of_neg (by decide), ih]
      rfl
    | remove =>
      rw [List.filter_cons_of_neg (by decide), ih]
      rfl

/-- With `k` elements yielded of `m` accepted ones, the shortest beginning that has one more of them has been
taken, or everything if there are no more; each element taken has been shown to the filter once.
Only calls of `next` that yield something go on from there. -/
theorem reads_one_match_ahead (R : C.Reading) (ha : ∀ x w, (ask x w).1 = accepts x) {inner : σ}
    (hs : R.Valid inner) (w : W) (ops : List Cursor.Operation) :
    let F := cursor (watched C) (watchedAsk ask)
    let s := start (watched C) (watchedAsk ask) inner (w, [])
    let r := F.run ops s.1 s.2
    let items := R.left inner
    let m := items.countP accepts
    let k := (r.1.filterMap Cursor.Answer.yielded).length
    k ≤ m ∧
    (∃ taken, (k < m → Shortest accepts items (k + 1) taken) ∧ (k = m → taken = items) ∧
      r.2.2.2 = accesses taken ++ if k < m then [] else [.answered (.next none)]) ∧
    (F.perform .next r.2.1 r.2.2).1 = .next (items.filter accepts)[k]? ∧
    (k = m → F.perform .next r.2.1 r.2.2 = (.next none, r.2)) ∧
    F.perform .hasNext r.2.1 r.2.2 = (.hasNext (decide (k < m)), r.2) ∧
    F.perform .remove r.2.1 r.2.2 = (.remove (.error .notSupported), r.2) ∧
    F.run (ops.filter (· = .next)) s.1 s.2 = (r.1.filter Cursor.Answer.isNext, r.2) ∧
    (cursor C ask).run ops (start C ask inner w).1 (start C ask inner w).2 =
      (r.1, r.2.1, r.2.2.1) := by
  intro F s r items m k
  obtain ⟨before, hstart⟩ := refill_ahead ha (w, []) hs (List.nil_append _).symm List.filter_nil rfl
  obtain ⟨taken, h⟩ := hstart.run ha ops
  have hk : k < m ↔ r.2.1.lookahead.isSome := h.lt_iff
  have hend : k = m → r.2.1.lookahead = none := fun heq => by simpa [heq] using hk
  refine ⟨h.length_yielded_le, ⟨taken, ?_, ?_, ?_⟩, ?_, ?_, ?_, rfl, run_filter_next ops _ _,
    run_watched C ask inner w [] ops⟩
  · exact fun hlt => h.shortest (hk.mp hlt)
  · exact fun heq => h.taken_eq (hend heq)
  · refine h.record.trans ?_
    simp only [endFound, hk]
    rfl
  · exact congrArg Cursor.Answer.next ((next_eq_lookahead _ _).trans h.lookahead_eq)
  · intro heq
    simp only [Cursor.perform, F, cursor]
    rw [next_of_end (hend heq)]
  · have hmore : decide (k < m) = r.2.1.lookahead.isSome := by simp only [hk, Bool.decide_eq_true]
    rw [hmore]
    rfl

/-- Of four texts the empty ones pass. After one of them has been yielded the other is looked up, and the last
text has not been taken. -/
theorem empty_text_looked_up :
    let short : String → Bool := fun x => x.isEmpty
    let C := Peeking.cursor Unit String
    let ask : String → Unit → Bool × Unit := fun x w => (short x, w)
    let texts := Peeking.ofList ["", "xx", "", "y"]
    let s := start (watched C) (watchedAsk ask) texts ((), [])
    let r := (cursor (watched C) (watchedAsk ask)).run [.hasNext, .next, .remove] s.1 s.2
    (∀ x w, (ask x w).1 = short x) ∧ texts.Valid ∧
      ∃ taken, Shortest short ["", "xx", "", "y"] 2 taken ∧ r.2.2.2 = accesses taken := by
  intro short C ask texts s r
  have ha : ∀ x w, (ask x w).1 = short x := fun _ _ => rfl
  have hv : texts.Valid := Peeking.valid_ofList _
  obtain ⟨-, ⟨taken, hshort, -, hrecord⟩, -⟩ :=
    reads_one_match_ahead (Peeking.reading Unit String) ha hv () [.hasNext, .next, .remove]
  have hlt : (r.1.filterMap Cursor.Answer.yielded).length < ["", "xx", "", "y"].countP short := by
    decide
  have hall : r.2.2.2 = accesses taken ++ [] := hrecord.trans (congrArg _ (if_pos hlt))
  exact ⟨ha, hv, taken, hshort hlt, by rw [hall, List.append_nil]⟩

end Filtered

end ClassListing
