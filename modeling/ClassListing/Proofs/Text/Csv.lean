/-!
# Records of quoted fields

Text is read as records of quoted fields: a field ends at a quote that is not doubled, and a doubled quote
stands for one. Each list of records has one text that is read as these records, in which every quote of a
field is doubled.
-/

namespace ClassListing.Csv

set_option autoImplicit false

/-! ## Reading -/

/-- Where a reader of records stands. -/
inductive Place where
  | before
  | inside (field : List Char)
  /-- The quote is the first of two, or the field has ended with it. -/
  | afterQuote (field : List Char)

/-- The records from a place on. The given fields of the first one have been read before. -/
def recordsFrom : Place → List String → List Char → Option (List (List String))
  | .before, fields, [] => if fields = [] then some [] else none
  | .inside _, _, [] => none
  | .afterQuote _, _, [] => none
  | .before, fields, c :: cs => if c = '"' then recordsFrom (.inside []) fields cs else none
  | .inside field, fields, c :: cs =>
    if c = '"' then recordsFrom (.afterQuote field) fields cs
    else recordsFrom (.inside (field ++ [c])) fields cs
  | .afterQuote field, fields, c :: cs =>
    if c = '"' then recordsFrom (.inside (field ++ ['"'])) fields cs
    else if c = ',' then recordsFrom .before (fields ++ [String.ofList field]) cs
    else if c = '\n' then
      (recordsFrom .before [] cs).map ((fields ++ [String.ofList field]) :: ·)
    else none

/-- The records of a text in which every record ends with a line feed. -/
def records? (text : String) : Option (List (List String)) := recordsFrom .before [] text.toList

/-! ## Writing -/

def doubled (field : List Char) : List Char :=
  field.flatMap fun c => if c = '"' then ['"', '"'] else [c]

def quoted (field : String) : List Char := '"' :: (doubled field.toList ++ ['"'])

/-- What follows the first field of a record. -/
def rowEnd (fields : List String) : List Char := (fields.flatMap fun f => ',' :: quoted f) ++ ['\n']

def row : List String → List Char
  | [] => ['\n']
  | field :: fields => quoted field ++ rowEnd fields

def written (records : List (List String)) : List Char := records.flatMap row

@[simp] theorem doubled_cons (c : Char) (field : List Char) :
    doubled (c :: field) = (if c = '"' then ['"', '"'] else [c]) ++ doubled field := rfl

theorem doubled_of_not_mem {field : List Char} (h : '"' ∉ field) : doubled field = field := by
  induction field with
  | nil => rfl
  | cons c field ih =>
    simp only [List.mem_cons, not_or] at h
    rw [doubled_cons, if_neg (Ne.symm h.1), ih h.2, List.singleton_append]

theorem length_doubled (field : List Char) :
    (doubled field).length = field.length + field.count '"' := by
  induction field with
  | nil => rfl
  | cons c field ih =>
    rw [doubled_cons, List.length_append, ih, List.length_cons, List.count_cons]
    by_cases h : c = '"'
    · simp [h]
      omega
    · simp [h]
      omega

/-! ## What is written is read -/

theorem recordsFrom_doubled (field more : List Char) (fields : List String) (cs : List Char) :
    recordsFrom (.inside field) fields (doubled more ++ '"' :: cs) =
      recordsFrom (.afterQuote (field ++ more)) fields cs := by
  induction more generalizing field with
  | nil => simp [doubled, recordsFrom]
  | cons c more ih =>
    by_cases h : c = '"'
    · simp [recordsFrom, h, ih]
    · simp [recordsFrom, h, ih]

theorem recordsFrom_row (fields : List String) (field : String) (more : List String)
    (cs : List Char) :
    recordsFrom .before fields (quoted field ++ rowEnd more ++ cs) =
      (recordsFrom .before [] cs).map ((fields ++ field :: more) :: ·) := by
  induction more generalizing fields field with
  | nil => simp [quoted, rowEnd, recordsFrom, recordsFrom_doubled]
  | cons next more ih =>
    have hrow : quoted field ++ rowEnd (next :: more) ++ cs =
        '"' :: (doubled field.toList ++ '"' :: ',' :: (quoted next ++ rowEnd more ++ cs)) := by
      simp [quoted, rowEnd]
    have hread := ih (fields ++ [field]) next
    rw [hrow, recordsFrom, if_pos rfl, recordsFrom_doubled, recordsFrom, if_neg (by decide),
      if_pos rfl, List.nil_append, String.ofList_toList, hread, List.append_assoc,
      List.singleton_append]

theorem recordsFrom_written {records : List (List String)} (h : [] ∉ records) :
    recordsFrom .before [] (written records) = some records := by
  induction records with
  | nil => rfl
  | cons record records ih =>
    simp only [List.mem_cons, not_or] at h
    cases record with
    | nil => exact absurd rfl h.1
    | cons field fields =>
      have hread := recordsFrom_row [] field fields (written records)
      rw [ih h.2] at hread
      exact hread

/-! ## Nothing else is read -/

/-- The text of records from a place on. -/
def Place.Leads (place : Place) (fields : List String) (cs : List Char)
    (records : List (List String)) : Prop :=
  match place with
  | before => (fields = [] ∧ cs = [] ∧ records = []) ∨ ∃ field more rest,
      records = (fields ++ field :: more) :: rest ∧ [] ∉ rest ∧
        cs = quoted field ++ rowEnd more ++ written rest
  | inside field => ∃ added more rest,
      records = (fields ++ String.ofList (field ++ added) :: more) :: rest ∧ [] ∉ rest ∧
        cs = doubled added ++ '"' :: (rowEnd more ++ written rest)
  | afterQuote field => ∃ added more rest,
      records = (fields ++ String.ofList (field ++ added) :: more) :: rest ∧ [] ∉ rest ∧
        '"' :: cs = doubled added ++ '"' :: (rowEnd more ++ written rest)

theorem eq_written_of_leads {cs : List Char} {records : List (List String)}
    (h : Place.before.Leads [] cs records) : [] ∉ records ∧ cs = written records := by
  obtain ⟨-, rfl, rfl⟩ | ⟨field, more, rest, rfl, hrest, rfl⟩ := h
  · exact ⟨List.not_mem_nil, rfl⟩
  · exact ⟨by simpa using hrest, rfl⟩

theorem leads_of_recordsFrom {place : Place} {fields : List String} {cs : List Char}
    {records : List (List String)} (h : recordsFrom place fields cs = some records) :
    place.Leads fields cs records := by
  induction cs generalizing place fields records with
  | nil =>
    cases place with
    | before =>
      simp only [recordsFrom, Option.ite_none_right_eq_some, Option.some.injEq] at h
      exact .inl ⟨h.1, rfl, h.2.symm⟩
    | inside field => cases h
    | afterQuote field => cases h
  | cons c cs ih =>
    cases place with
    | before =>
      simp only [recordsFrom, Option.ite_none_right_eq_some] at h
      obtain ⟨rfl, h⟩ := h
      obtain ⟨added, more, rest, rfl, hrest, rfl⟩ := ih h
      exact .inr ⟨String.ofList added, more, rest, rfl, hrest, by simp [quoted]⟩
    | inside field =>
      rw [recordsFrom] at h
      split at h
      · next hc =>
        obtain ⟨added, more, rest, hrecords, hrest, hcs⟩ := ih h
        exact ⟨added, more, rest, hrecords, hrest, hc ▸ hcs⟩
      · next hc =>
        obtain ⟨added, more, rest, hrecords, hrest, rfl⟩ := ih h
        exact ⟨c :: added, more, rest, by simpa using hrecords, hrest, by simp [hc]⟩
    | afterQuote field =>
      rw [recordsFrom] at h
      split at h
      · next hc =>
        obtain ⟨added, more, rest, hrecords, hrest, rfl⟩ := ih h
        exact ⟨'"' :: added, more, rest, by simpa using hrecords, hrest, by simp [hc]⟩
      · split at h
        · next hc =>
          -- the field has ended, so some fields have been read and another one follows
          obtain ⟨hnone, -⟩ | ⟨next, more, rest, rfl, hrest, rfl⟩ := ih h
          · simp at hnone
          · exact ⟨[], next :: more, rest, by simp, hrest, by simp [hc, doubled, rowEnd]⟩
        · split at h
          · next hc =>
            obtain ⟨rest, hread, rfl⟩ := Option.map_eq_some_iff.mp h
            obtain ⟨hrest, rfl⟩ := eq_written_of_leads (ih hread)
            exact ⟨[], [], rest, by simp, hrest, by simp [hc, doubled, rowEnd]⟩
          · cases h

theorem records?_eq_some_iff {text : String} {records : List (List String)} :
    records? text = some records ↔ [] ∉ records ∧ text.toList = written records := by
  constructor
  · intro h
    exact eq_written_of_leads (leads_of_recordsFrom h)
  · rintro ⟨hne, htext⟩
    rw [records?, htext, recordsFrom_written hne]

end ClassListing.Csv
