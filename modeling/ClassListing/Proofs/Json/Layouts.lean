import ClassListing.Proofs.Json.Records

/-!
# Records are read by their values

The entries of an object, and the elements of a list that is read as a record, take their texts one after
another. What is read depends on their values alone.
-/

namespace ClassListing

set_option autoImplicit false

namespace Json

variable {α ε δ ρ : Type}

/-! ## Objects -/

theorem nextKey_noEntry {w : Bytes} (hw : Blank w) (first : Bool) (rest : Bytes) :
    nextKey first (w ++ 0x7D :: rest) = .ok (.finished rest) := by
  rw [nextKey, skipBlank_append hw, skipBlank_cons rfl]
  rfl

theorem nextKey_entry {first : Bool} {g : Bytes} (hgap : Gap first g) (rest : Bytes) :
    nextKey first (g ++ 0x22 :: rest) = .ok (.more rest) := by
  cases hgap with
  | first hw =>
    rw [nextKey, skipBlank_append hw, skipBlank_cons rfl]
    rfl
  | next hw hw' =>
    rw [List.append_assoc, nextKey, skipBlank_append hw, List.cons_append, skipBlank_cons rfl]
    simp [skipBlank_append hw', skipBlank_cons (rfl : isBlank 0x22 = false)]

theorem entries_spelled {entry : String → δ → Reader δ} (r : RecordColumns ε δ entry) {first : Bool}
    {es : List (Option String × Value)} {t : Bytes} (ht : Spells (.entries first es) t) {bound : Bytes}
    (hbound : es.length < bound.length) (d : δ) (rest : Bytes) :
    (entries entry bound first d (t ++ rest)).toOption = (r.draft? d es).map (·, rest) := by
  induction es generalizing first t bound d with
  | nil =>
    obtain ⟨c, bound, rfl⟩ := List.exists_cons_of_length_pos hbound
    cases ht with
    | noEntry hw =>
      rw [List.append_assoc, List.singleton_append, entries, nextKey_noEntry hw]
      rfl
  | cons e es ih =>
    obtain ⟨c, bound, rfl⟩ := List.exists_cons_of_length_pos (Nat.zero_lt_of_lt hbound)
    cases ht with
    | @entry _ g w w' s t k? v _ hgap ps hkey hw hw' hv hes =>
      have hread := readString_quoted ps (w ++ 0x3A :: (w' ++ (s ++ (t ++ rest))))
      simp only [List.append_assoc, List.cons_append, entries, nextKey_entry hgap,
        RecordColumns.draft?]
      rw [hkey] at hread
      cases k? with
      | none =>
        obtain ⟨e, he⟩ := exists_error hread
        rw [he]
        rfl
      | some k =>
        have htake := r.takes (d := d) (k := k) hv hw hw' (hes.entries_ends rest)
        rw [eq_ok hread]
        cases hd : r.take d k v with
        | none =>
          obtain ⟨e, he⟩ := exists_error (htake.trans (congrArg _ hd))
          simp only [he, Option.bind_some, hd]
          rfl
        | some d' =>
          have hok := eq_ok (htake.trans (congrArg _ hd))
          simp only [hok, Option.bind_some, hd]
          exact ih hes (by simpa using hbound) d'

theorem onceOnly_understood {reader : Reader α} {meaning : Value → Option α}
    (h : Understands reader meaning) (key : String) (old : Option α) {v : Value} {t w w' rest : Bytes}
    (hv : Spells (.value v) t) (hw : Blank w) (hw' : Blank w') (hrest : Ends rest) :
    (onceOnly key old reader (w ++ 0x3A :: (w' ++ (t ++ rest)))).toOption =
      (if old.isSome then none else meaning v).map (·, rest) := by
  rw [onceOnly]
  cases old with
  | some x => rfl
  | none =>
    simp only [colon_append hw]
    exact h hv hw' hrest

/-- The value of a key makes an entry, unless the key has been given. -/
theorem enter_onceOnly {reader : Reader α} {meaning : Value → Option α} (h : Understands reader meaning)
    (make : α → ε) (enter : ε → δ) (isGiven : ε → Bool) (key : String) {old : Option α}
    (hgiven : ∀ x, isGiven (make x) = old.isSome) {v : Value} {t w w' rest : Bytes}
    (hv : Spells (.value v) t) (hw : Blank w) (hw' : Blank w') (hrest : Ends rest) :
    ((onceOnly key old reader (w ++ 0x3A :: (w' ++ (t ++ rest)))).map fun (x, s) =>
        (enter (make x), s)).toOption =
      (((meaning v).map make).bind fun e => if isGiven e then none else some (enter e)).map
        (·, rest) := by
  rw [toOption_map, onceOnly_understood h key old hv hw hw' hrest]
  cases old <;> cases meaning v <;> simp [hgiven]

theorem skip_unknown {v : Value} {t w w' rest : Bytes} (hv : Spells (.value v) t) (hw : Blank w)
    (hw' : Blank w') (hrest : Ends rest) (d : δ) :
    (match colon (w ++ 0x3A :: (w' ++ (t ++ rest))) with
      | .error e => Except.error e
      | .ok s => (skipValue s).map fun s => (d, s)) = .ok (d, rest) := by
  rw [colon_append hw]
  simp [skipValue_append hv hw' hrest, Except.map]

/-! ## Lists -/

/-- The position before the elements that are left. -/
def AtItems (first : Bool) (vs : List Value) (rest s : Bytes) : Prop :=
  ∃ t, s = t ++ rest ∧ Spells (.items first vs) t

theorem AtItems.end {first first' : Bool} {rest s : Bytes} (h : AtItems first [] rest s) :
    AtItems first' [] rest s := by
  obtain ⟨t, rfl, ht⟩ := h
  cases ht with
  | noItem hw => exact ⟨_, rfl, .noItem hw⟩

/-- After an element that is missing nothing is left, so it does not matter whether one has come before. -/
theorem AtItems.isNone {vs : List Value} {rest s : Bytes} (h : AtItems false vs rest s) {x : Option α}
    (hx : x = none → vs = []) : AtItems x.isNone vs rest s := by
  cases x with
  | none =>
    rw [hx rfl] at h ⊢
    exact h.end
  | some x => exact h

section

variable {entry : String → δ → Reader δ} {r : RecordColumns ε δ entry} {finish : δ → Option ρ}

/-- What values mean for the fields that are left: they are entered into the draft one after another. -/
def RecordColumns.list? (r : RecordColumns ε δ entry) (finish : δ → Option ρ) :
    List String → δ → List Value → Option ρ
  | _, d, [] => finish d
  | [], _, _ :: _ => none
  | k :: ks, d, v :: vs => (r.take d k v).bind fun d => list? r finish ks d vs

theorem record?_array (start : δ) (vs : List Value) :
    r.record? start finish (.array vs) = r.list? finish (r.columns.map Prod.fst) start vs := by
  have hlist : ∀ (ks : List String) (d : δ) (vs : List Value), r.list? finish ks d vs =
      if vs.length ≤ ks.length then (r.draft? d ((ks.map some).zip vs)).bind finish else none := by
    intro ks d vs
    induction ks generalizing d vs with
    | nil => cases vs <;> rfl
    | cons k ks ih =>
      cases vs with
      | nil => rfl
      | cons v vs =>
        simp only [RecordColumns.list?, ih, List.length_cons, Nat.add_le_add_iff_right, List.map_cons,
          List.zip_cons_cons, RecordColumns.draft?, Option.bind_some]
        split
        · rw [Option.bind_assoc]
        · cases r.take d k v <;> rfl
  rw [hlist, List.length_map, List.map_map]
  rfl

/-- The next field of a list. `put` is what a value, or its absence, makes of the draft. -/
theorem element?_bind {reader : Reader α} {meaning : Value → Option α} (h : Understands reader meaning)
    {first : Bool} {vs : List Value} {rest s : Bytes} (hs : AtItems first vs rest s) {k : String}
    {ks : List String} (make : α → ε) (put : Option α → δ)
    (hk : r.columns.lookup k = some fun v => (meaning v).map make)
    (hnew : ∀ x, r.isGiven (put none) (make x) = false)
    (hput : ∀ x, r.enter (put none) (make x) = put (some x))
    {read : Option α × Bytes → Except Error (ρ × Bytes)}
    (hnext : ∀ x vs s, AtItems false vs rest s → (x = none → vs = []) →
      (read (x, s)).toOption = (r.list? finish ks (put x) vs).map (·, rest)) :
    (element? first reader s >>= read).toOption =
      (r.list? finish (k :: ks) (put none) vs).map (·, rest) := by
  obtain ⟨t, rfl, ht⟩ := hs
  cases vs with
  | nil =>
    have hend : element? first reader (t ++ rest) = .ok (none, t ++ rest) := by
      cases ht with
      | noItem hw =>
        rw [List.append_assoc, List.singleton_append, element?, nextElement_noItem hw]
    have hread := hnext none [] _ (AtItems.end ⟨t, rfl, ht⟩) fun _ => rfl
    rw [RecordColumns.list?] at hread ⊢
    rw [hend]
    exact hread
  | cons v vs =>
    cases ht with
    | @item _ g s t _ _ hgap hv hvs =>
      have hread := h hv (w := []) (by decide) (hvs.items_ends rest)
      rw [List.nil_append] at hread
      rw [List.append_assoc, List.append_assoc, element?, nextElement_item hgap hv, RecordColumns.list?,
        RecordColumns.take_eq_map hk hnew]
      cases hm : meaning v with
      | none =>
        rw [hm] at hread
        obtain ⟨e, he⟩ := exists_error hread
        simp only [he]
        rfl
      | some x =>
        rw [hm] at hread
        simp only [eq_ok hread, Option.map_some, Option.bind_some, hput]
        exact hnext (some x) vs _ ⟨t, rfl, hvs⟩ nofun

theorem endOfRecord_bind {vs : List Value} {rest s : Bytes} (hs : AtItems false vs rest s) {d : δ} {x : ρ}
    (hx : finish d = some x) :
    (endOfRecord s >>= fun s => Except.ok (x, s)).toOption =
      (r.list? finish [] d vs).map (·, rest) := by
  obtain ⟨t, rfl, ht⟩ := hs
  cases ht with
  | noItem hw =>
    rw [List.append_assoc, endOfRecord, skipBlank_append hw, List.singleton_append, skipBlank_cons rfl,
      RecordColumns.list?, hx]
    rfl
  | item hgap hv hvs =>
    cases hgap with
    | next hw hw' =>
      rw [List.append_assoc, List.append_assoc, endOfRecord, skipBlank_append hw, List.cons_append,
        skipBlank_cons rfl]
      have hcomma : (0x2C : UInt8) ≠ 0x5D := by decide
      simp only [hcomma, if_false]
      -- a bracket after the comma makes another error, but no record
      split <;> rfl

end

/-! ## Both forms -/

/-- A record is read from an object or from a list, and from nothing else. -/
def readRecord (elements : Reader ρ) (entry : String → δ → Reader δ) (start : δ)
    (finish : δ → Except Error ρ) (expected : Expected) : Reader ρ := fun s =>
  match skipBlank s with
  | [] => .error (.ended .value)
  | b :: r =>
    if b = 0x5B then elements r
    else if b = 0x7B then
      match entries entry (b :: r) true start r with
      | .error e => .error e
      | .ok (d, rest) => (finish d).map fun x => (x, rest)
    else .error (wrongType expected (b :: r))

theorem readRecord_understands {entry : String → δ → Reader δ} (r : RecordColumns ε δ entry)
    {readElements : Reader ρ} {start : δ} {finish : δ → Except Error ρ} (expected : Expected)
    (hlist : ∀ {vs rest s}, AtItems true vs rest s → (readElements s).toOption =
      (r.record? start (fun d => (finish d).toOption) (.array vs)).map (·, rest)) :
    Understands (readRecord readElements entry start finish expected)
      (r.record? start fun d => (finish d).toOption) := by
  intro v t h w rest hw hrest
  obtain ⟨b, s, rfl, hopens, hs⟩ := h.skipBlank hw rest
  rw [readRecord, hs]
  cases h with
  | array h =>
    simp only [if_true]
    exact hlist ⟨s, rfl, h⟩
  | @object es _ h =>
    have hbracket : (0x7B : UInt8) ≠ 0x5B := by decide
    have hlength : es.length < (0x7B :: (s ++ rest)).length := by
      have hentries := h.length_entries
      simp only [List.length_cons, List.length_append]
      omega
    have hread := entries_spelled r h hlength start rest
    simp only [hbracket, if_true, if_false, RecordColumns.record?]
    cases hd : r.draft? start es with
    | none =>
      rw [hd] at hread
      obtain ⟨e, he⟩ := exists_error hread
      rw [he]
      rfl
    | some d =>
      rw [hd] at hread
      simp only [eq_ok hread, toOption_map, Option.bind_some]
  | _ =>
    simp only [Value.ne_of_opens hopens (rfl : Value.opens _ 0x5B = false),
      Value.ne_of_opens hopens (rfl : Value.opens _ 0x7B = false), if_false]
    rfl

end Json

end ClassListing
