import ClassListing.ClassRecord.Json
import ClassListing.Proofs.Json.Strings

/-!
# Reading what was written

A reader takes a text for a value if it gives the value and leaves what follows the text, whatever that
is. Strings, truth values, lists and objects are read like this as they are written, if their parts
are.
-/

namespace ClassListing

set_option autoImplicit false

namespace Json

variable {α δ : Type}

def Reads (reader : Reader α) (text : List Char) (x : α) : Prop :=
  ∀ rest, reader (encode text ++ rest) = .ok (x, rest)

theorem whole_of_reads {reader : Reader α} {text : List Char} {x : α} (h : Reads reader text x) :
    whole reader (encode text) = .ok x := by
  have hr := h []
  rw [List.append_nil] at hr
  rw [whole, hr]
  rfl

theorem skipBlank_cons {b : UInt8} (h : isBlank b = false) (s : Bytes) :
    skipBlank (b :: s) = b :: s := by
  rw [skipBlank, List.dropWhile_cons_of_neg (by simp [h])]

/-! ## Strings and truth values -/

theorem encode_writeString (s : String) (rest : Bytes) :
    encode (writeString s) ++ rest =
      0x22 :: (encode (s.toList.flatMap escapeChar) ++ 0x22 :: rest) := by
  have hq : String.utf8EncodeChar '"' = [0x22] := rfl
  simp [writeString, encode_cons, hq]

theorem stringOf_reads (e : Expected) (s : String) : Reads (stringOf e) (writeString s) s := by
  intro rest
  rw [encode_writeString, stringOf, skipBlank_cons rfl]
  exact readString_escaped s rest

theorem expectTail_append (ws rest : Bytes) : expectTail ws (ws ++ rest) = .ok rest := by
  induction ws with
  | nil => rfl
  | cons w ws ih => simp [expectTail, ih]

theorem boolean_reads (b : Bool) : Reads boolean (writeBool b) b := by
  intro rest
  cases b with
  | true =>
    change (expectTail trueTail (trueTail ++ rest)).map (fun r => (true, r)) = _
    rw [expectTail_append]
    rfl
  | false =>
    change (expectTail falseTail (falseTail ++ rest)).map (fun r => (false, r)) = _
    rw [expectTail_append]
    rfl

/-! ## Items between commas -/

theorem intercalate_comma {β : Type} (f : β → List Char) (x : β) (xs : List β) :
    [','].intercalate ((x :: xs).map f) = f x ++ xs.flatMap fun y => ',' :: f y := by
  induction xs generalizing x with
  | nil => simp
  | cons y ys ih =>
    rw [List.map_cons, List.map_cons, List.intercalate_cons_cons, ← List.map_cons, ih,
      List.flatMap_cons]
    simp

/-- The items after the first, with a comma before each, and the closing bracket. -/
def afterFirst (close : UInt8) (item : α → List Char) (xs : List α) (rest : Bytes) : Bytes :=
  encode (xs.flatMap fun x => ',' :: item x) ++ close :: rest

theorem afterFirst_cons (close : UInt8) (item : α → List Char) (x : α) (xs : List α) (rest : Bytes) :
    afterFirst close item (x :: xs) rest =
      0x2C :: (encode (item x) ++ afterFirst close item xs rest) := by
  have hcomma : String.utf8EncodeChar ',' = [0x2C] := rfl
  simp [afterFirst, encode_cons, hcomma]

/-- Every item takes at least its comma, so the text is enough for a bound. -/
theorem length_lt_afterFirst (close : UInt8) (item : α → List Char) (xs : List α) (rest : Bytes) :
    xs.length < (afterFirst close item xs rest).length := by
  induction xs with
  | nil => simp [afterFirst]
  | cons x xs ih =>
    rw [afterFirst_cons, List.length_cons, List.length_cons, List.length_append]
    omega

/-! ## Lists -/

/-- The text begins with a byte that no blank is and that closes no list. -/
def Opens (text : List Char) : Prop :=
  ∃ b s, encode text = b :: s ∧ isBlank b = false ∧ b ≠ 0x5D

theorem nextElement_close (first : Bool) (rest : Bytes) :
    nextElement first (0x5D :: rest) = .ok (.finished rest) := by
  rw [nextElement, skipBlank_cons rfl]
  rfl

theorem nextElement_first {b : UInt8} (hblank : isBlank b = false) (hclose : b ≠ 0x5D) (s : Bytes) :
    nextElement true (b :: s) = .ok (.more (b :: s)) := by
  rw [nextElement, skipBlank_cons hblank]
  simp only [hclose, if_true, if_false]

theorem nextElement_comma {b : UInt8} (hblank : isBlank b = false) (hclose : b ≠ 0x5D) (s : Bytes) :
    nextElement false (0x2C :: b :: s) = .ok (.more (b :: s)) := by
  rw [nextElement, skipBlank_cons rfl]
  simp [skipBlank_cons hblank, hclose]

theorem elements_afterFirst {element : Reader α} {item : α → List Char} {xs : List α}
    (h : ∀ x ∈ xs, Reads element (item x) x ∧ Opens (item x)) {bound : Bytes}
    (hb : xs.length < bound.length) (done : List α) (rest : Bytes) :
    elements element bound false done (afterFirst 0x5D item xs rest) =
      .ok (done.reverse ++ xs, rest) := by
  induction xs generalizing bound done with
  | nil =>
    obtain ⟨c, bound, rfl⟩ := List.exists_cons_of_length_pos hb
    rw [elements, afterFirst, List.flatMap_nil, encode_nil, List.nil_append, nextElement_close]
    simp
  | cons x xs ih =>
    obtain ⟨hx, b, s, hopen, hblank, hclose⟩ := h x List.mem_cons_self
    obtain ⟨c, bound, rfl⟩ := List.exists_cons_of_length_pos (Nat.zero_lt_of_lt hb)
    have hread := hx (afterFirst 0x5D item xs rest)
    -- this turn takes one byte of the bound, and the rest of the list has one element less
    rw [afterFirst_cons, elements, hopen, List.cons_append, nextElement_comma hblank hclose]
    rw [hopen, List.cons_append] at hread
    simp only [hread]
    rw [ih (fun y hy => h y (List.mem_cons_of_mem _ hy)) (by simpa using hb)]
    simp

theorem encode_writeList_nil (item : α → List Char) (rest : Bytes) :
    encode (writeList item []) ++ rest = 0x5B :: 0x5D :: rest := rfl

theorem encode_writeList_cons (item : α → List Char) (x : α) (xs : List α) (rest : Bytes) :
    encode (writeList item (x :: xs)) ++ rest =
      0x5B :: (encode (item x) ++ afterFirst 0x5D item xs rest) := by
  have hopen : String.utf8EncodeChar '[' = [0x5B] := rfl
  have hclose : String.utf8EncodeChar ']' = [0x5D] := rfl
  rw [writeList, intercalate_comma]
  simp [afterFirst, encode_cons, hopen, hclose]

theorem sequence_reads {element : Reader α} {item : α → List Char} {xs : List α}
    (h : ∀ x ∈ xs, Reads element (item x) x ∧ Opens (item x)) :
    Reads (sequence element) (writeList item xs) xs := by
  intro rest
  cases xs with
  | nil =>
    rw [encode_writeList_nil, sequence, skipBlank_cons rfl]
    simp only [if_true]
    rw [elements, nextElement_close]
    rfl
  | cons x xs =>
    obtain ⟨hx, b, s, hopen, hblank, hclose⟩ := h x List.mem_cons_self
    have hread := hx (afterFirst 0x5D item xs rest)
    have hlength := length_lt_afterFirst 0x5D item xs rest
    rw [encode_writeList_cons, sequence, skipBlank_cons rfl]
    rw [hopen, List.cons_append] at hread ⊢
    simp only [if_true]
    rw [elements, nextElement_first hblank hclose]
    simp only [hread]
    rw [elements_afterFirst fun y hy => h y (List.mem_cons_of_mem _ hy)]
    · simp
    · simp only [List.length_cons, List.length_append]
      omega

/-! ## Objects -/

/-- Texts that stand for themselves in a string, such as the names of fields. -/
def PlainText (key : String) : Prop := key.toList.flatMap escapeChar = key.toList

instance (key : String) : Decidable (PlainText key) :=
  inferInstanceAs (Decidable (key.toList.flatMap escapeChar = key.toList))

/-- What the entries of an object make of a draft, one after another. -/
inductive Enters (entry : String → δ → Reader δ) : δ → List (String × List Char) → δ → Prop
  | nil (d : δ) : Enters entry d [] d
  | cons {d d' d'' : δ} {key : String} {text : List Char} {es : List (String × List Char)}
      (hkey : PlainText key) (hentry : Reads (entry key d) (':' :: text) d')
      (hrest : Enters entry d' es d'') : Enters entry d ((key, text) :: es) d''

theorem readString_key {key : String} (h : PlainText key) (rest : Bytes) :
    readString (encode key.toList ++ 0x22 :: rest) = .ok (key, rest) := by
  have hr := readString_escaped key rest
  rwa [h] at hr

theorem nextKey_close (first : Bool) (rest : Bytes) :
    nextKey first (0x7D :: rest) = .ok (.finished rest) := by
  rw [nextKey, skipBlank_cons rfl]
  rfl

theorem nextKey_first (s : Bytes) : nextKey true (0x22 :: s) = .ok (.more s) := by
  rw [nextKey, skipBlank_cons rfl]
  rfl

theorem nextKey_comma (s : Bytes) : nextKey false (0x2C :: 0x22 :: s) = .ok (.more s) := by
  rw [nextKey, skipBlank_cons rfl]
  rfl

def entryText (e : String × List Char) : List Char := keyText e.1 ++ e.2

theorem encode_entryText (key : String) (text : List Char) (rest : Bytes) :
    encode (entryText (key, text)) ++ rest =
      0x22 :: (encode key.toList ++ 0x22 :: (encode (':' :: text) ++ rest)) := by
  have hquote : String.utf8EncodeChar '"' = [0x22] := rfl
  simp [entryText, keyText, encode_cons, hquote]

theorem writeObject_eq (es : List (String × List Char)) :
    writeObject es = '\x7b' :: [','].intercalate (es.map entryText) ++ ['\x7d'] := rfl

theorem entries_afterFirst {entry : String → δ → Reader δ} {d d' : δ}
    {es : List (String × List Char)} (h : Enters entry d es d') {bound : Bytes}
    (hb : es.length < bound.length) (rest : Bytes) :
    entries entry bound false d (afterFirst 0x7D entryText es rest) = .ok (d', rest) := by
  induction h generalizing bound with
  | nil d =>
    obtain ⟨c, bound, rfl⟩ := List.exists_cons_of_length_pos hb
    rw [entries, afterFirst, List.flatMap_nil, encode_nil, List.nil_append, nextKey_close]
  | cons hkey hentry hrest ih =>
    obtain ⟨c, bound, rfl⟩ := List.exists_cons_of_length_pos (Nat.zero_lt_of_lt hb)
    rw [afterFirst_cons, encode_entryText, entries, nextKey_comma]
    simp only [readString_key hkey, hentry _]
    exact ih (by simpa using hb)

theorem encode_writeObject_cons (e : String × List Char) (es : List (String × List Char))
    (rest : Bytes) :
    encode (writeObject (e :: es)) ++ rest =
      0x7B :: (encode (entryText e) ++ afterFirst 0x7D entryText es rest) := by
  have hopen : String.utf8EncodeChar '\x7b' = [0x7B] := rfl
  have hclose : String.utf8EncodeChar '\x7d' = [0x7D] := rfl
  rw [writeObject_eq, intercalate_comma]
  simp [afterFirst, encode_cons, hopen, hclose]

theorem entries_writeObject {entry : String → δ → Reader δ} {d d' : δ}
    {es : List (String × List Char)} (h : Enters entry d es d') (rest : Bytes) :
    ∃ s, encode (writeObject es) ++ rest = 0x7B :: s ∧
      entries entry (0x7B :: s) true d s = .ok (d', rest) := by
  cases h with
  | nil =>
    refine ⟨0x7D :: rest, rfl, ?_⟩
    rw [entries, nextKey_close]
  | @cons _ _ _ key text es hkey hentry hrest =>
    have hlength := length_lt_afterFirst 0x7D entryText es rest
    refine ⟨_, encode_writeObject_cons (key, text) es rest, ?_⟩
    rw [encode_entryText, entries, nextKey_first]
    simp only [readString_key hkey, hentry _]
    refine entries_afterFirst hrest ?_ rest
    simp only [List.length_cons, List.length_append]
    omega

/-! ## Objects that give each key once -/

theorem reads_onceOnly {value : Reader α} {text : List Char} {x : α} (h : Reads value text x)
    (key : String) {old : Option α} (hold : old.isSome = false) :
    Reads (onceOnly key old value) (':' :: text) x := by
  intro rest
  have hcolon : encode (':' :: text) ++ rest = 0x3A :: (encode text ++ rest) := rfl
  rw [onceOnly, hcolon, hold, colon, skipBlank_cons rfl]
  exact h rest

theorem Reads.map {reader : Reader α} {text : List Char} {x : α} (h : Reads reader text x)
    (f : α → δ) : Reads (fun s => (reader s).map fun (x, s) => (f x, s)) text (f x) := by
  intro rest
  simp only [h rest]
  rfl

/-- How the entries of a record are read: an entry is a value for one of the keys, and a draft holds the
values of the keys that have been given. -/
structure RecordKeys (ε δ : Type) (entry : String → δ → Reader δ) where
  key : ε → String
  /-- Whether the draft has a value for the key of the entry. -/
  isGiven : δ → ε → Bool
  enter : δ → ε → δ
  /-- The texts that stand for the value of an entry. -/
  Spelled : ε → List Char → Prop
  plainText : ∀ e, PlainText (key e)
  isGiven_enter : ∀ {d e f}, key e ≠ key f → isGiven (enter d e) f = isGiven d f
  reads : ∀ {d e text}, isGiven d e = false → Spelled e text →
    Reads (entry (key e) d) (':' :: text) (enter d e)

namespace RecordKeys

variable {ε : Type} {entry : String → δ → Reader δ} (keys : RecordKeys ε δ entry)

theorem enters {spell : ε → List Char} {es : List ε} (hspelled : ∀ e ∈ es, keys.Spelled e (spell e))
    (hdistinct : (es.map keys.key).Nodup) {d : δ} (hnew : ∀ e ∈ es, keys.isGiven d e = false) :
    Enters entry d (es.map fun e => (keys.key e, spell e)) (es.foldl keys.enter d) := by
  induction es generalizing d with
  | nil => exact .nil d
  | cons e es ih =>
    obtain ⟨hne, hdistinct⟩ := List.nodup_cons.mp hdistinct
    refine .cons (keys.plainText e)
      (keys.reads (hnew e List.mem_cons_self) (hspelled e List.mem_cons_self)) ?_
    refine ih (fun f hf => hspelled f (List.mem_cons_of_mem _ hf)) hdistinct fun f hf => ?_
    have hkey : keys.key e ≠ keys.key f := by
      intro h
      rw [h] at hne
      exact hne (List.mem_map_of_mem hf)
    rw [keys.isGiven_enter hkey]
    exact hnew f (List.mem_cons_of_mem _ hf)

/-- An object that gives each of its keys once makes a draft with all of its values. -/
theorem entries_of_distinct {spell : ε → List Char} {es : List ε}
    (hspelled : ∀ e ∈ es, keys.Spelled e (spell e)) (hdistinct : (es.map keys.key).Nodup) {d : δ}
    (hnew : ∀ e ∈ es, keys.isGiven d e = false) (rest : Bytes) :
    ∃ s, encode (writeObject (es.map fun e => (keys.key e, spell e))) ++ rest = 0x7B :: s ∧
      entries entry (0x7B :: s) true d s = .ok (es.foldl keys.enter d, rest) :=
  entries_writeObject (keys.enters hspelled hdistinct hnew) rest

end RecordKeys

end Json

end ClassListing
