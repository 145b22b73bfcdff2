import ClassListing.Json.Reader
import ClassListing.Proofs.Json.Strings

/-!
# Texts of JSON values

A value has many texts: characters may be escaped, numbers may be spelled in several ways, and blanks may stand
around every value, comma and colon. `Spells` derives all of them.
-/

namespace ClassListing

set_option autoImplicit false

namespace Json

/-! ## Values -/

/-- A value without its text. No record has a number, so all numbers are one value. A string stands for
no text if it has one half of a surrogate pair without the other. -/
inductive Value where
  | null
  | boolean (b : Bool)
  | number
  | string (text : Option String)
  | array (items : List Value)
  | object (entries : List (Option String × Value))

def Blank (w : Bytes) : Prop := ∀ b ∈ w, isBlank b = true

instance (w : Bytes) : Decidable (Blank w) := decidable_of_iff (w.all isBlank = true) List.all_eq_true

/-! ## Strings -/

/-- The letters that stand for a character after a backslash. -/
def shortEscapes : List (Char × Char) :=
  [('"', '"'), ('\\', '\\'), ('/', '/'), ('b', backspace), ('f', formFeed), ('n', '\n'), ('r', '\r'),
   ('t', '\t')]

/-- What may stand in a string. -/
inductive Piece where
  | char (c : Char) (h : c ≠ '"' ∧ c ≠ '\\' ∧ 0x20 ≤ c.toNat)
  | short (letter c : Char) (h : (letter, c) ∈ shortEscapes)
  | unit (d₁ d₂ d₃ d₄ : UInt8) (n : Nat) (h : hexUnit? d₁ d₂ d₃ d₄ = some n)

def Piece.spell : Piece → Bytes
  | .char c _ => String.utf8EncodeChar c
  | .short letter _ _ => 0x5C :: String.utf8EncodeChar letter
  | .unit d₁ d₂ d₃ d₄ _ _ => [0x5C, 0x75, d₁, d₂, d₃, d₄]

/-- The characters that pieces stand for, if every surrogate has its other half. -/
def chars? : List Piece → Option (List Char)
  | [] => some []
  | .char c _ :: ps => (chars? ps).map (c :: ·)
  | .short _ c _ :: ps => (chars? ps).map (c :: ·)
  | .unit _ _ _ _ n _ :: ps =>
    if isLowSurrogate n then none
    else if isHighSurrogate n then
      match ps with
      | .unit _ _ _ _ low _ :: ps =>
        if isLowSurrogate low then (chars? ps).map (Char.ofNat (pairPoint n low) :: ·) else none
      | _ => none
    else (chars? ps).map (Char.ofNat n :: ·)

def text? (ps : List Piece) : Option String := (chars? ps).map String.ofList

/-- The text of a string after its opening quote. -/
def quoted (ps : List Piece) : Bytes := ps.flatMap Piece.spell ++ [0x22]

/-! ## Numbers -/

structure Digits (ds : Bytes) : Prop where
  nonempty : ds ≠ []
  digits : ∀ b ∈ ds, isDigit b = true

instance (ds : Bytes) : Decidable (Digits ds) :=
  decidable_of_iff (ds ≠ [] ∧ ds.all isDigit = true)
    ⟨fun h => ⟨h.1, List.all_eq_true.mp h.2⟩, fun h => ⟨h.1, List.all_eq_true.mpr h.2⟩⟩

inductive Whole : Bytes → Prop
  | zero : Whole [0x30]
  | digits {d : UInt8} {ds : Bytes} (hzero : d ≠ 0x30) (h : Digits (d :: ds)) : Whole (d :: ds)

inductive Fraction : Bytes → Prop
  | absent : Fraction []
  | digits {ds : Bytes} (h : Digits ds) : Fraction (0x2E :: ds)

inductive Exponent : Bytes → Prop
  | absent : Exponent []
  | digits {mark : UInt8} {sign ds : Bytes} (hmark : mark = 0x65 ∨ mark = 0x45)
      (hsign : sign ∈ [[], [0x2B], [0x2D]]) (h : Digits ds) : Exponent (mark :: (sign ++ ds))

inductive Number : Bytes → Prop
  | mk {sign whole fraction exponent : Bytes} (hsign : sign ∈ [[], [0x2D]]) (hwhole : Whole whole)
      (hfraction : Fraction fraction) (hexponent : Exponent exponent) :
      Number (sign ++ (whole ++ (fraction ++ exponent)))

/-! ## Texts -/

/-- What stands before an element or a key: blanks, and a comma unless it is the first. -/
inductive Gap : Bool → Bytes → Prop
  | first {w : Bytes} (hw : Blank w) : Gap true w
  | next {w w' : Bytes} (hw : Blank w) (hw' : Blank w') : Gap false (w ++ 0x2C :: w')

/-- What may be spelled: a value, or what follows an opening bracket or an element, up to and with the
closing bracket. -/
inductive Part where
  | value (v : Value)
  | items (first : Bool) (vs : List Value)
  | entries (first : Bool) (es : List (Option String × Value))

inductive Spells : Part → Bytes → Prop
  | null : Spells (.value .null) (0x6E :: nullTail)
  | yes : Spells (.value (.boolean true)) (0x74 :: trueTail)
  | no : Spells (.value (.boolean false)) (0x66 :: falseTail)
  | number {s : Bytes} (h : Number s) : Spells (.value .number) s
  | string {text : Option String} (ps : List Piece) (h : text? ps = text) :
      Spells (.value (.string text)) (0x22 :: quoted ps)
  | array {vs : List Value} {s : Bytes} (h : Spells (.items true vs) s) :
      Spells (.value (.array vs)) (0x5B :: s)
  | object {es : List (Option String × Value)} {s : Bytes} (h : Spells (.entries true es) s) :
      Spells (.value (.object es)) (0x7B :: s)
  | noItem {first : Bool} {w : Bytes} (hw : Blank w) : Spells (.items first []) (w ++ [0x5D])
  | item {first : Bool} {g s t : Bytes} {v : Value} {vs : List Value} (hgap : Gap first g)
      (hv : Spells (.value v) s) (hvs : Spells (.items false vs) t) :
      Spells (.items first (v :: vs)) (g ++ (s ++ t))
  | noEntry {first : Bool} {w : Bytes} (hw : Blank w) : Spells (.entries first []) (w ++ [0x7D])
  | entry {first : Bool} {g w w' s t : Bytes} {key : Option String} {v : Value}
      {es : List (Option String × Value)} (hgap : Gap first g) (ps : List Piece) (hkey : text? ps = key)
      (hw : Blank w) (hw' : Blank w') (hv : Spells (.value v) s) (hes : Spells (.entries false es) t) :
      Spells (.entries first ((key, v) :: es))
        (g ++ 0x22 :: (quoted ps ++ (w ++ 0x3A :: (w' ++ (s ++ t)))))

/-- A text that is one value between blanks. -/
inductive Value.HasText (v : Value) : Bytes → Prop
  | mk {before text after : Bytes} (hbefore : Blank before) (h : Spells (.value v) text)
      (hafter : Blank after) : HasText v (before ++ (text ++ after))

/-! ## How texts begin and go on -/

theorem skipBlank_append {w : Bytes} (hw : Blank w) (s : Bytes) : skipBlank (w ++ s) = skipBlank s := by
  rw [skipBlank, List.dropWhile_append_of_pos hw, skipBlank]

theorem skipBlank_eq_nil {w : Bytes} (hw : Blank w) : skipBlank w = [] := by
  rw [← List.append_nil w, skipBlank_append hw]
  rfl

/-- The bytes that the text of a value may begin with. -/
def Value.opens : Value → UInt8 → Bool
  | null, b => b = 0x6E
  | boolean true, b => b = 0x74
  | boolean false, b => b = 0x66
  | number, b => b = 0x2D || isDigit b
  | string _, b => b = 0x22
  | array _, b => b = 0x5B
  | object _, b => b = 0x7B

theorem Whole.opens {w : Bytes} (h : Whole w) : ∃ b r, w = b :: r ∧ isDigit b = true := by
  cases h with
  | zero => exact ⟨_, _, rfl, rfl⟩
  | digits hzero hdigits => exact ⟨_, _, rfl, hdigits.digits _ List.mem_cons_self⟩

theorem Number.opens {s : Bytes} (h : Number s) : ∃ b r, s = b :: r ∧ Value.number.opens b = true := by
  obtain ⟨hsign, hwhole, -, -⟩ := h
  simp only [List.mem_cons, List.not_mem_nil, or_false] at hsign
  rcases hsign with rfl | rfl
  · obtain ⟨b, r, rfl, hdigit⟩ := hwhole.opens
    exact ⟨_, _, rfl, by simp [Value.opens, hdigit]⟩
  · exact ⟨_, _, rfl, rfl⟩

theorem Spells.opens {v : Value} {s : Bytes} (h : Spells (.value v) s) :
    ∃ b r, s = b :: r ∧ v.opens b = true := by
  cases h with
  | number h => exact h.opens
  | null => exact ⟨_, _, rfl, rfl⟩
  | yes => exact ⟨_, _, rfl, rfl⟩
  | no => exact ⟨_, _, rfl, rfl⟩
  | string ps h => exact ⟨_, _, rfl, rfl⟩
  | array h => exact ⟨_, _, rfl, rfl⟩
  | object h => exact ⟨_, _, rfl, rfl⟩

theorem Value.ne_of_opens {v : Value} {b c : UInt8} (h : v.opens b = true) (hc : v.opens c = false) :
    b ≠ c := by
  rintro rfl
  rw [h] at hc
  cases hc

theorem Value.not_opens_close (v : Value) : v.opens 0x5D = false := by
  cases v with
  | boolean b => cases b <;> rfl
  | _ => rfl

theorem Value.not_opens_blank {b : UInt8} (hb : isBlank b = true) (v : Value) : v.opens b = false := by
  simp only [isBlank, Bool.or_eq_true, decide_eq_true_eq] at hb
  rcases hb with ((rfl | rfl) | rfl) | rfl <;> cases v with
  | boolean b => cases b <;> rfl
  | _ => rfl

theorem Value.not_isBlank {v : Value} {b : UInt8} (h : v.opens b = true) : isBlank b = false := by
  cases hb : isBlank b with
  | false => rfl
  | true =>
    rw [v.not_opens_blank hb] at h
    cases h

/-- What may follow a number: nothing that would be read as a part of it. -/
def Ends (rest : Bytes) : Prop :=
  ∀ b ∈ rest.head?, isDigit b = false ∧ isDot b = false ∧ isExponentMark b = false

theorem ends_of_head {rest : Bytes}
    (h : ∀ b ∈ rest.head?, isBlank b = true ∨ b ∈ [0x2C, 0x5D, 0x7D]) : Ends rest := by
  intro b hb
  have hcases := h b hb
  simp only [isBlank, Bool.or_eq_true, decide_eq_true_eq, List.mem_cons, List.not_mem_nil,
    or_false] at hcases
  rcases hcases with (((rfl | rfl) | rfl) | rfl) | rfl | rfl | rfl <;> decide

theorem ends_blank {w : Bytes} (hw : Blank w) : Ends w :=
  ends_of_head fun b hb => Or.inl (hw b (List.mem_of_mem_head? hb))

theorem ends_blank_cons {w : Bytes} (hw : Blank w) {b : UInt8} (hb : b ∈ [0x2C, 0x5D, 0x7D])
    (rest : Bytes) : Ends (w ++ b :: rest) := by
  refine ends_of_head fun c hc => ?_
  cases w with
  | nil =>
    obtain rfl : b = c := by simpa using hc
    exact Or.inr hb
  | cons a w =>
    obtain rfl : a = c := by simpa using hc
    exact Or.inl (hw _ List.mem_cons_self)

theorem Gap.ends {g : Bytes} (h : Gap false g) (rest : Bytes) : Ends (g ++ rest) := by
  cases h with
  | next hw hw' =>
    rw [List.append_assoc, List.cons_append]
    exact ends_blank_cons hw (by simp) _

theorem Spells.items_ends {vs : List Value} {t : Bytes} (h : Spells (.items false vs) t) (rest : Bytes) :
    Ends (t ++ rest) := by
  cases h with
  | noItem hw =>
    rw [List.append_assoc]
    exact ends_blank_cons hw (by simp) _
  | item hgap hv hvs =>
    rw [List.append_assoc]
    exact hgap.ends _

theorem Spells.entries_ends {es : List (Option String × Value)} {t : Bytes}
    (h : Spells (.entries false es) t) (rest : Bytes) : Ends (t ++ rest) := by
  cases h with
  | noEntry hw =>
    rw [List.append_assoc]
    exact ends_blank_cons hw (by simp) _
  | entry hgap ps hkey hw hw' hv hes =>
    rw [List.append_assoc]
    exact hgap.ends _

theorem Spells.length_items {first : Bool} {vs : List Value} {t : Bytes}
    (h : Spells (.items first vs) t) : vs.length < t.length := by
  induction vs generalizing first t with
  | nil =>
    cases h with
    | noItem hw => simp
  | cons v vs ih =>
    cases h with
    | item hgap hv hvs =>
      obtain ⟨b, r, rfl, -⟩ := hv.opens
      have hlength := ih hvs
      simp only [List.length_append, List.length_cons]
      omega

theorem Spells.length_entries {first : Bool} {es : List (Option String × Value)} {t : Bytes}
    (h : Spells (.entries first es) t) : es.length < t.length := by
  induction es generalizing first t with
  | nil =>
    cases h with
    | noEntry hw => simp
  | cons e es ih =>
    cases h with
    | entry hgap ps hkey hw hw' hv hes =>
      have hlength := ih hes
      simp only [List.length_append, List.length_cons]
      omega

end Json

end ClassListing
