import Mathlib.Data.List.Nodup
import ClassListing.Proofs.Json.Values

/-!
# Records in any layout

A record may be an object, with its keys in any order between unknown ones, or a list of the values in the
order of the fields. A list says the same as the object with the keys of the fields in their order, so what
a record means is defined by its keys alone.
-/

namespace ClassListing

set_option autoImplicit false

namespace Json

variable {α ε δ ρ : Type}

/-! ## Layouts -/

/-- The values that lay out the entries of a record. `Tells` says which values stand for an entry and `all` has the
entries in the order of the fields. -/
inductive LaysOut (key : ε → String) (Tells : Value → ε → Prop) (IsDefault : ε → Prop) (all : List ε) :
    Value → Prop
  | object {es : List (Option String × Value)} (texts : ∀ p ∈ es, p.1.isSome = true)
      (once : ∀ e ∈ all, (es.map Prod.fst).count (some (key e)) ≤ 1)
      (tells : ∀ e ∈ all, ∀ v, (some (key e), v) ∈ es → Tells v e)
      (omitted : ∀ e ∈ all, some (key e) ∉ es.map Prod.fst → IsDefault e) :
      LaysOut key Tells IsDefault all (.object es)
  | array {vs : List Value} {n : Nat} (tells : List.Forall₂ Tells vs (all.take n))
      (omitted : ∀ e ∈ all.drop n, IsDefault e) : LaysOut key Tells IsDefault all (.array vs)

/-- The values that lay out no record: an object that repeats a key of a field or is without a required one, or a
list that ends before a required field. -/
inductive Faulty (keys required : List String) : Value → Prop
  | repeated {es : List (Option String × Value)} {k : String} (hk : k ∈ keys)
      (h : 2 ≤ (es.map Prod.fst).count (some k)) : Faulty keys required (.object es)
  | omitted {es : List (Option String × Value)} {k : String} (hk : k ∈ required)
      (h : some k ∉ es.map Prod.fst) : Faulty keys required (.object es)
  | short {vs : List Value} {k : String} (hk : k ∈ required) (h : k ∉ keys.take vs.length) :
      Faulty keys required (.array vs)

/-! ## What the entries of an object make of a draft -/

/-- What an entry makes of a draft: nothing for an unknown key, and no draft for a key that has been given. -/
def takeEntry (columns : List (String × (Value → Option ε))) (isGiven : δ → ε → Bool)
    (enter : δ → ε → δ) (d : δ) (k : String) (v : Value) : Option δ :=
  match columns.lookup k with
  | none => some d
  | some meaning => (meaning v).bind fun e => if isGiven d e then none else some (enter d e)

/-- How the values of a record are understood: for each key, in the order of the fields, the entry that a value
stands for. -/
structure RecordColumns (ε δ : Type) (entry : String → δ → Reader δ) extends RecordKeys ε δ entry where
  columns : List (String × (Value → Option ε))
  key_eq : ∀ {k meaning v e}, columns.lookup k = some meaning → meaning v = some e → key e = k
  isGiven_congr : ∀ {d e f}, key e = key f → isGiven d e = isGiven d f
  isGiven_enter_self : ∀ {d e}, isGiven (enter d e) e = true
  takes : ∀ {d k v t w w' rest}, Spells (.value v) t → Blank w → Blank w' → Ends rest →
    (entry k d (w ++ 0x3A :: (w' ++ (t ++ rest)))).toOption =
      (takeEntry columns isGiven enter d k v).map (·, rest)

theorem mem_of_lookup {columns : List (String × (Value → Option ε))} {k : String}
    {meaning : Value → Option ε} (h : columns.lookup k = some meaning) : (k, meaning) ∈ columns := by
  obtain ⟨before, after, hcolumns, -⟩ := List.lookup_eq_some_iff.mp h
  simp [hcolumns]

/-- Columns give entries of their own keys if each of them does. -/
theorem key_of_lookup {key : ε → String} {columns : List (String × (Value → Option ε))}
    (h : ∀ c ∈ columns, ∀ v, ∀ e ∈ c.2 v, key e = c.1) {k : String} {meaning : Value → Option ε}
    {v : Value} {e : ε} (hk : columns.lookup k = some meaning) (he : meaning v = some e) :
    key e = k := h (k, meaning) (mem_of_lookup hk) v e he

namespace RecordColumns

variable {entry : String → δ → Reader δ} (r : RecordColumns ε δ entry)

def take (d : δ) (k : String) (v : Value) : Option δ := takeEntry r.columns r.isGiven r.enter d k v

def draft? (d : δ) : List (Option String × Value) → Option δ
  | [] => some d
  | (k, v) :: es => (k.bind fun k => r.take d k v).bind fun d => draft? d es

/-- A list has the values of the fields from the first on. -/
def labelled (vs : List Value) : List (Option String × Value) :=
  (r.columns.map fun c => some c.1).zip vs

def record? (start : δ) (finish : δ → Option ρ) : Value → Option ρ
  | .object es => (r.draft? start es).bind finish
  | .array vs =>
    if vs.length ≤ r.columns.length then (r.draft? start (r.labelled vs)).bind finish else none
  | _ => none

variable {r}

theorem lookup_ne_none_iff {k : String} :
    r.columns.lookup k ≠ none ↔ k ∈ r.columns.map Prod.fst := by
  simp only [ne_eq, List.lookup_eq_none_iff, List.mem_map]
  push Not
  constructor
  · rintro ⟨c, hc, hk⟩
    exact ⟨c, hc, by simpa using Eq.symm (by simpa using hk)⟩
  · rintro ⟨c, hc, rfl⟩
    exact ⟨c, hc, by simp⟩

theorem map_fst_labelled (vs : List Value) :
    (r.labelled vs).map Prod.fst = ((r.columns.map Prod.fst).take vs.length).map some := by
  have hzip : ∀ (ks : List (Option String)) (vs : List Value),
      (ks.zip vs).map Prod.fst = ks.take vs.length := by
    intro ks vs
    induction ks generalizing vs with
    | nil => simp
    | cons k ks ih => cases vs <;> simp [ih]
  rw [labelled, hzip, List.map_take, List.map_map]
  rfl

/-! ## The entries that make a draft -/

theorem take_unknown {k : String} (h : r.columns.lookup k = none) (d : δ) (v : Value) :
    r.take d k v = some d := by
  simp [take, takeEntry, h]

theorem take_known {k : String} {meaning : Value → Option ε} (h : r.columns.lookup k = some meaning)
    {v : Value} {e : ε} (he : meaning v = some e) {d : δ} (hd : r.isGiven d e = false) :
    r.take d k v = some (r.enter d e) := by
  simp [take, takeEntry, h, he, hd]

theorem take_eq_map {k : String} {meaning : Value → Option α} {make : α → ε}
    (h : r.columns.lookup k = some fun v => (meaning v).map make) {d : δ}
    (hd : ∀ x, r.isGiven d (make x) = false) (v : Value) :
    r.take d k v = (meaning v).map fun x => r.enter d (make x) := by
  rw [take, takeEntry, h]
  dsimp only
  cases meaning v <;> simp [hd]

/-- An entry that makes a draft is unknown, or gives a key that has not been given. -/
theorem take_eq_some {d d' : δ} {k : String} {v : Value} (h : r.take d k v = some d') :
    r.columns.lookup k = none ∧ d' = d ∨ ∃ meaning e, r.columns.lookup k = some meaning ∧
      meaning v = some e ∧ r.isGiven d e = false ∧ d' = r.enter d e := by
  rw [take, takeEntry] at h
  split at h
  · next hk => exact Or.inl ⟨hk, (Option.some.inj h).symm⟩
  · next meaning hk =>
    obtain ⟨e, he, hd⟩ := Option.bind_eq_some_iff.mp h
    split at hd
    · cases hd
    · next hnew => exact Or.inr ⟨meaning, e, hk, he, by simpa using hnew, (Option.some.inj hd).symm⟩

/-- A value that means nothing under its key makes no draft. -/
theorem draft?_eq_none {k : String} {meaning : Value → Option ε} (hk : r.columns.lookup k = some meaning)
    {v : Value} (hv : meaning v = none) {es : List (Option String × Value)} (hmem : (some k, v) ∈ es)
    (d : δ) : r.draft? d es = none := by
  induction es generalizing d with
  | nil => cases hmem
  | cons p es ih =>
    rcases List.mem_cons.mp hmem with rfl | hmem
    · simp [draft?, take, takeEntry, hk, hv]
    · rw [draft?]
      cases p.1.bind fun k => r.take d k p.2 with
      | none => rfl
      | some d => exact ih hmem d

/-- A draft has been given each known key as often as it stands in the object. -/
theorem count_of_draft? {d d' : δ} {es : List (Option String × Value)} (h : r.draft? d es = some d')
    {f : ε} (hf : r.key f ∈ r.columns.map Prod.fst) :
    (es.map Prod.fst).count (some (r.key f)) + (r.isGiven d f).toNat = (r.isGiven d' f).toNat := by
  induction es generalizing d with
  | nil =>
    obtain rfl : d = d' := Option.some.inj h
    simp
  | cons p es ih =>
    obtain ⟨k?, v⟩ := p
    obtain ⟨d₁, htake, hrest⟩ := Option.bind_eq_some_iff.mp h
    obtain ⟨k, rfl, htake⟩ := Option.bind_eq_some_iff.mp htake
    rw [List.map_cons, List.count_cons, ← ih hrest]
    rcases take_eq_some htake with ⟨hk, rfl⟩ | ⟨meaning, e, hk, he, hnew, rfl⟩
    · have hne : k ≠ r.key f := by
        rintro rfl
        exact lookup_ne_none_iff.mpr hf hk
      simp [hne]
    · obtain rfl := r.key_eq hk he
      by_cases hkey : r.key e = r.key f
      · have hgiven : r.isGiven (r.enter d e) f = true :=
          (r.isGiven_congr hkey).symm.trans r.isGiven_enter_self
        have hd : r.isGiven d f = false := (r.isGiven_congr hkey).symm.trans hnew
        simp [hkey, hgiven, hd]
      · simp [hkey, r.isGiven_enter hkey]

/-! ## Layouts are understood -/

section

variable {start : δ} {finish : δ → Option ρ} {Tells : Value → ε → Prop} {IsDefault : ε → Prop}
  {all : List ε} {Holds : δ → Prop} {x : ρ}

/-- What makes a record understood in every layout. The entries are in the order of the columns, and the column of an
entry gives the entry for every value that stands for it. A draft holds no more than the entries say, and
is finished with defaults for those it has not been given. -/
structure Describes (r : RecordColumns ε δ entry) (start : δ) (finish : δ → Option ρ)
    (Tells : Value → ε → Prop) (IsDefault : ε → Prop) (all : List ε) (Holds : δ → Prop) (x : ρ) :
    Prop where
  keys : r.columns.map Prod.fst = all.map r.key
  distinct : (all.map r.key).Nodup
  told : ∀ v e, Tells v e → ∃ meaning, r.columns.lookup (r.key e) = some meaning ∧ meaning v = some e
  empty : ∀ e, r.isGiven start e = false
  holds : Holds start
  enters : ∀ d, ∀ e ∈ all, Holds d → Holds (r.enter d e)
  finishes : ∀ d, Holds d → (∀ e ∈ all, r.isGiven d e = false → IsDefault e) → finish d = some x

theorem take_of_layout (hr : r.Describes start finish Tells IsDefault all Holds x) {k : String}
    {v : Value} (tells : ∀ e ∈ all, r.key e = k → Tells v e) {d : δ}
    (hnew : ∀ e ∈ all, r.key e = k → r.isGiven d e = false) (hd : Holds d) :
    ∃ d', r.take d k v = some d' ∧ Holds d' ∧
      ∀ f ∈ all, (r.isGiven d' f).toNat ≤
        (r.isGiven d f).toNat + if some k == some (r.key f) then 1 else 0 := by
  cases hk : r.columns.lookup k with
  | none => exact ⟨d, take_unknown hk d v, hd, fun f _ => Nat.le_add_right _ _⟩
  | some meaning =>
    have hmem : k ∈ all.map r.key := by
      rw [← hr.keys]
      exact lookup_ne_none_iff.mp (by simp [hk])
    obtain ⟨e, he, rfl⟩ := List.mem_map.mp hmem
    obtain ⟨meaning', hlookup, hmeaning⟩ := hr.told v e (tells e he rfl)
    refine ⟨r.enter d e, take_known hlookup hmeaning (hnew e he rfl), hr.enters d e he hd,
      fun f _ => ?_⟩
    by_cases hkey : r.key e = r.key f
    · rw [hkey, BEq.rfl, if_pos rfl]
      exact Nat.le_trans (Bool.toNat_le _) (Nat.le_add_left _ _)
    · rw [r.isGiven_enter hkey]
      exact Nat.le_add_right _ _

theorem exists_draft (hr : r.Describes start finish Tells IsDefault all Holds x)
    {es : List (Option String × Value)} (texts : ∀ p ∈ es, p.1.isSome = true)
    (tells : ∀ e ∈ all, ∀ v, (some (r.key e), v) ∈ es → Tells v e) {d : δ}
    (once : ∀ e ∈ all, (es.map Prod.fst).count (some (r.key e)) + (r.isGiven d e).toNat ≤ 1)
    (hd : Holds d) : ∃ d', r.draft? d es = some d' ∧ Holds d' := by
  induction es generalizing d with
  | nil => exact ⟨d, rfl, hd⟩
  | cons p es ih =>
    obtain ⟨k?, v⟩ := p
    obtain ⟨k, rfl⟩ := Option.isSome_iff_exists.mp (texts _ List.mem_cons_self)
    simp only [List.map_cons, List.count_cons] at once
    have hnew : ∀ e ∈ all, r.key e = k → r.isGiven d e = false := by
      rintro e he rfl
      have hcount := once e he
      rw [BEq.rfl, if_pos rfl] at hcount
      cases hgiven : r.isGiven d e with
      | false => rfl
      | true =>
        rw [hgiven, Bool.toNat_true] at hcount
        omega
    obtain ⟨d₁, htake, hd₁, hle⟩ := take_of_layout hr
      (fun e he hkey => tells e he v (by simp [hkey])) hnew hd
    have honce : ∀ e ∈ all,
        (es.map Prod.fst).count (some (r.key e)) + (r.isGiven d₁ e).toNat ≤ 1 := by
      intro e he
      have hcount := once e he
      have hgiven := hle e he
      omega
    obtain ⟨d', hdraft, hd'⟩ := ih (fun p hp => texts p (List.mem_cons_of_mem _ hp))
      (fun e he v hv => tells e he v (List.mem_cons_of_mem _ hv)) honce hd₁
    exact ⟨d', by simp [draft?, htake, hdraft], hd'⟩

theorem finish_of_object (hr : r.Describes start finish Tells IsDefault all Holds x)
    {es : List (Option String × Value)} (texts : ∀ p ∈ es, p.1.isSome = true)
    (once : ∀ e ∈ all, (es.map Prod.fst).count (some (r.key e)) ≤ 1)
    (tells : ∀ e ∈ all, ∀ v, (some (r.key e), v) ∈ es → Tells v e)
    (omitted : ∀ e ∈ all, some (r.key e) ∉ es.map Prod.fst → IsDefault e) :
    (r.draft? start es).bind finish = some x := by
  obtain ⟨d, hdraft, hd⟩ := exists_draft hr texts tells
    (fun e he => by rw [hr.empty e]; exact once e he) hr.holds
  rw [hdraft]
  refine hr.finishes d hd fun e he hgiven => omitted e he ?_
  have hmem : r.key e ∈ r.columns.map Prod.fst := by
    rw [hr.keys]
    exact List.mem_map_of_mem he
  have hcount := count_of_draft? hdraft hmem
  rw [hgiven, hr.empty e] at hcount
  exact List.count_eq_zero.mp (by simpa using hcount)

theorem labelled_eq_zip (hkeys : r.columns.map Prod.fst = all.map r.key) (vs : List Value) :
    r.labelled vs = (all.zip vs).map (Prod.map (some ∘ r.key) id) := by
  have hcolumns : r.columns.map (fun c => some c.1) = all.map (some ∘ r.key) := by
    rw [← List.map_map, ← hkeys, List.map_map]
    rfl
  rw [labelled, hcolumns, List.zip_map_left]

/-- The entries of a list, with the keys that their places give them. -/
theorem tells_of_labelled (hr : r.Describes start finish Tells IsDefault all Holds x) {vs : List Value}
    {n : Nat} (tells : List.Forall₂ Tells vs (all.take n)) {e : ε} (he : e ∈ all) {v : Value}
    (hv : (some (r.key e), v) ∈ r.labelled vs) : Tells v e := by
  have hzip : all.zip vs = (all.take n).zip vs := by
    have happend : (all.take n ++ all.drop n).zip (vs ++ []) =
        (all.take n).zip vs ++ (all.drop n).zip [] := List.zip_append tells.length_eq.symm
    rwa [List.take_append_drop, List.append_nil, List.zip_nil_right, List.append_nil] at happend
  rw [labelled_eq_zip hr.keys, hzip] at hv
  obtain ⟨⟨f, v'⟩, hmem, heq⟩ := List.mem_map.mp hv
  obtain ⟨hkey, rfl⟩ := Prod.mk.inj heq
  have hf : f ∈ all := List.mem_of_mem_take (List.of_mem_zip hmem).1
  obtain rfl : f = e := List.inj_on_of_nodup_map hr.distinct hf he (Option.some.inj hkey)
  exact (List.forall₂_iff_zip.mp tells.flip).2 hmem

/-- Whatever the layout is, the record is understood. A list is taken as the object that gives its values
the keys of the columns. -/
theorem record?_of_laysOut (hr : r.Describes start finish Tells IsDefault all Holds x) {v : Value}
    (h : LaysOut r.key Tells IsDefault all v) : r.record? start finish v = some x := by
  cases h with
  | object texts once tells omitted => exact finish_of_object hr texts once tells omitted
  | @array vs n tells omitted =>
    have hlength : vs.length = min n all.length := by
      rw [tells.length_eq, List.length_take]
    have hle : vs.length ≤ r.columns.length := by
      have hcolumns : r.columns.length = all.length := by simpa using congrArg List.length hr.keys
      omega
    have hkeys : (r.labelled vs).map Prod.fst = ((all.take n).map r.key).map some := by
      have htake : all.take vs.length = all.take n := by
        rw [hlength, ← List.take_take, List.take_length]
      rw [map_fst_labelled, hr.keys, ← List.map_take, htake]
    have hdistinct : ((r.labelled vs).map Prod.fst).Nodup := by
      rw [hkeys, List.map_take]
      exact (hr.distinct.sublist (List.take_sublist _ _)).map fun _ _ => Option.some.inj
    rw [record?, if_pos hle]
    refine finish_of_object hr (fun p hp => ?_) (fun e _ => ?_)
      (fun e he v hv => tells_of_labelled hr tells he hv) fun e he hno => ?_
    · have hmem := List.mem_map_of_mem (f := Prod.fst) hp
      rw [hkeys] at hmem
      obtain ⟨k, -, hk⟩ := List.mem_map.mp hmem
      rw [← hk]
      rfl
    · exact List.nodup_iff_count_le_one.mp hdistinct _
    · -- an entry whose key is not given stands among those that were cut off
      rw [hkeys] at hno
      rw [← List.take_append_drop n all] at he
      rcases List.mem_append.mp he with hgiven | hleft
      · exact absurd (List.mem_map_of_mem (List.mem_map_of_mem hgiven)) hno
      · exact omitted e hleft

/-! ## Only layouts are understood -/

/-- What makes a record of values only be read from its layouts. A column gives only what its value stands for, and
a draft is finished as the record only if it holds no more than the entries say, now and at every step
before, and leaves out nothing but defaults. -/
structure Reflects (r : RecordColumns ε δ entry) (start : δ) (finish : δ → Option ρ)
    (Tells : Value → ε → Prop) (IsDefault : ε → Prop) (all : List ε) (Holds : δ → Prop) (x : ρ) : Prop
    extends r.Describes start finish Tells IsDefault all Holds x where
  meant : ∀ c ∈ r.columns, ∀ v, ∀ e ∈ c.2 v, Tells v e
  entered : ∀ d e, r.isGiven d e = false → Holds (r.enter d e) → e ∈ all ∧ Holds d
  finished : ∀ d, finish d = some x → Holds d ∧ ∀ e ∈ all, r.isGiven d e = false → IsDefault e

/-- Every value that has made a draft of the record stands for the entry of its key. -/
theorem tells_of_draft? (hr : r.Reflects start finish Tells IsDefault all Holds x)
    {es : List (Option String × Value)} {d d' : δ} (h : r.draft? d es = some d') (hd' : Holds d') :
    Holds d ∧ ∀ p ∈ es, p.1.isSome = true ∧ ∀ e ∈ all, p.1 = some (r.key e) → Tells p.2 e := by
  induction es generalizing d with
  | nil =>
    obtain rfl : d = d' := Option.some.inj h
    exact ⟨hd', by simp⟩
  | cons p es ih =>
    obtain ⟨k?, v⟩ := p
    obtain ⟨d₁, htake, hrest⟩ := Option.bind_eq_some_iff.mp h
    obtain ⟨k, rfl, htake⟩ := Option.bind_eq_some_iff.mp htake
    obtain ⟨hd₁, htold⟩ := ih hrest
    rcases take_eq_some htake with ⟨hk, rfl⟩ | ⟨meaning, e, hk, he, hnew, rfl⟩
    · refine ⟨hd₁, List.forall_mem_cons.mpr ⟨⟨rfl, fun e he hkey => ?_⟩, htold⟩⟩
      have hmem : k ∈ r.columns.map Prod.fst := by
        rw [hr.keys, Option.some.inj hkey]
        exact List.mem_map_of_mem he
      exact absurd hk (lookup_ne_none_iff.mpr hmem)
    · obtain ⟨hmem, hd⟩ := hr.entered d e hnew hd₁
      refine ⟨hd, List.forall_mem_cons.mpr ⟨⟨rfl, fun f hf hkey => ?_⟩, htold⟩⟩
      have hsame : r.key e = r.key f := (r.key_eq hk he).trans (Option.some.inj hkey)
      obtain rfl := List.inj_on_of_nodup_map hr.distinct hmem hf hsame
      exact hr.meant (k, meaning) (mem_of_lookup hk) v e he

theorem laysOut_of_draft? (hr : r.Reflects start finish Tells IsDefault all Holds x)
    {es : List (Option String × Value)} (h : (r.draft? start es).bind finish = some x) :
    LaysOut r.key Tells IsDefault all (.object es) := by
  obtain ⟨d, hdraft, hfinish⟩ := Option.bind_eq_some_iff.mp h
  obtain ⟨hd, hdefault⟩ := hr.finished d hfinish
  obtain ⟨-, htold⟩ := tells_of_draft? hr hdraft hd
  have hcount : ∀ e ∈ all, (es.map Prod.fst).count (some (r.key e)) = (r.isGiven d e).toNat := by
    intro e he
    have hmem : r.key e ∈ r.columns.map Prod.fst := by
      rw [hr.keys]
      exact List.mem_map_of_mem he
    have hall := count_of_draft? hdraft hmem
    rwa [hr.empty e] at hall
  refine .object (fun p hp => (htold p hp).1) (fun e he => ?_) (fun e he v hv => ?_) fun e he hno => ?_
  · rw [hcount e he]
    exact Bool.toNat_le _
  · exact (htold _ hv).2 e he rfl
  · have hnone := hcount e he
    rw [List.count_eq_zero.mpr hno] at hnone
    exact hdefault e he (by simpa using hnone.symm)

/-- A list lays out what the object with its labels lays out. -/
theorem laysOut_of_labelled (hr : r.Reflects start finish Tells IsDefault all Holds x) {vs : List Value}
    (hlength : vs.length ≤ r.columns.length)
    (h : LaysOut r.key Tells IsDefault all (.object (r.labelled vs))) :
    LaysOut r.key Tells IsDefault all (.array vs) := by
  have hcolumns : r.columns.length = all.length := by simpa using congrArg List.length hr.keys
  obtain ⟨texts, once, tells, omitted⟩ := h
  refine .array (n := vs.length) (List.forall₂_iff_get.mpr ⟨?_, fun i hi hi' => ?_⟩) fun e he => ?_
  · rw [List.length_take]
    omega
  · have hall : i < all.length := by omega
    have hmem : (some (r.key all[i]), vs[i]) ∈ r.labelled vs := by
      rw [labelled_eq_zip hr.keys]
      refine List.mem_map.mpr ⟨(all[i], vs[i]), ?_, rfl⟩
      exact List.mem_of_getElem? (List.getElem?_zip_eq_some.mpr
        ⟨List.getElem?_eq_getElem hall, List.getElem?_eq_getElem hi⟩)
    simpa using tells all[i] (List.getElem_mem hall) vs[i] hmem
  · refine omitted e (List.mem_of_mem_drop he) ?_
    rw [map_fst_labelled, hr.keys]
    intro hmem
    obtain ⟨k, htake, hk⟩ := List.mem_map.mp hmem
    obtain rfl := Option.some.inj hk
    have hdrop : r.key e ∈ (all.map r.key).drop vs.length := by
      rw [← List.map_drop]
      exact List.mem_map_of_mem he
    exact List.disjoint_take_drop hr.distinct (Nat.le_refl _) htake hdrop

theorem laysOut_of_record? (hr : r.Reflects start finish Tells IsDefault all Holds x) {v : Value}
    (h : r.record? start finish v = some x) : LaysOut r.key Tells IsDefault all v := by
  cases v with
  | object es => exact laysOut_of_draft? hr h
  | array vs =>
    rw [record?] at h
    split at h
    · next hlength => exact laysOut_of_labelled hr hlength (laysOut_of_draft? hr h)
    · cases h
  | _ => cases h

end

theorem record?_of_faulty {start : δ} {finish : δ → Option ρ} {required : List String}
    (hempty : ∀ e, r.isGiven start e = false)
    (hkeys : ∀ k ∈ r.columns.map Prod.fst, ∃ e, r.key e = k)
    (hrequired : ∀ k ∈ required, k ∈ r.columns.map Prod.fst)
    (hfinish : ∀ d e, r.key e ∈ required → r.isGiven d e = false → finish d = none) {v : Value}
    (h : Faulty (r.columns.map Prod.fst) required v) : r.record? start finish v = none := by
  have homitted : ∀ {es : List (Option String × Value)} {k : String}, k ∈ required →
      some k ∉ es.map Prod.fst → (r.draft? start es).bind finish = none := by
    intro es k hk hno
    cases hdraft : r.draft? start es with
    | none => rfl
    | some d =>
      obtain ⟨e, rfl⟩ := hkeys k (hrequired k hk)
      have hcount := count_of_draft? hdraft (hrequired _ hk)
      rw [List.count_eq_zero.mpr hno, hempty e] at hcount
      exact hfinish d e hk (by simpa using hcount.symm)
  cases h with
  | @repeated es k hk htwice =>
    rw [record?]
    cases hdraft : r.draft? start es with
    | none => rfl
    | some d =>
      obtain ⟨e, rfl⟩ := hkeys k hk
      have hcount := count_of_draft? hdraft hk
      have hle := Bool.toNat_le (r.isGiven d e)
      omega
  | omitted hk hno => exact homitted hk hno
  | @short vs k hk hno =>
    rw [record?]
    split
    · refine homitted hk ?_
      rw [map_fst_labelled]
      intro hmem
      obtain ⟨k', hk', heq⟩ := List.mem_map.mp hmem
      rw [Option.some.inj heq] at hk'
      exact hno hk'
    · rfl

end RecordColumns

end Json

end ClassListing
