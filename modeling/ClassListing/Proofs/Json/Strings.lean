import ClassListing.Json.Text

/-!
# Strings of JSON read back

A written string is read as the same string, whatever characters it has. Every character is escaped on its
own, and what stands for it in the text is read as its bytes.
-/

namespace ClassListing

set_option autoImplicit false

namespace Json

/-! ## Texts as bytes -/

def encode (cs : List Char) : Bytes := cs.flatMap String.utf8EncodeChar

@[simp] theorem encode_nil : encode [] = [] := rfl

theorem encode_cons (c : Char) (cs : List Char) :
    encode (c :: cs) = String.utf8EncodeChar c ++ encode cs := List.flatMap_cons

@[simp] theorem encode_append (cs ds : List Char) : encode (cs ++ ds) = encode cs ++ encode ds :=
  List.flatMap_append

theorem toUTF8_ofList (cs : List Char) : (String.ofList cs).toUTF8.data.toList = encode cs := by
  rw [String.toUTF8_eq_toByteArray, String.toByteArray_ofList, List.utf8Encode,
    List.data_toByteArray]
  rfl

theorem decode?_encode (s : String) : Utf8.decode? (encode s.toList) = some s := by
  have hb : (⟨(encode s.toList).toArray⟩ : ByteArray) = s.toByteArray := by
    rw [← toUTF8_ofList, String.ofList_toList, String.toUTF8_eq_toByteArray]
  rw [Utf8.decode?, hb, Utf8.fromUTF8?_eq_some, String.toUTF8_eq_toByteArray]

/-- A character has one byte, its number, or only bytes beyond ASCII. -/
theorem utf8EncodeChar_cases (c : Char) :
    (c.toNat < 0x80 ∧ String.utf8EncodeChar c = [UInt8.ofNat c.toNat]) ∨
      ∀ b ∈ String.utf8EncodeChar c, 0x80 ≤ b := by
  have hbyte : ∀ n, 128 ≤ n → n < 256 → (0x80 : UInt8) ≤ UInt8.ofNat n := by
    intro n hn hlt
    rw [UInt8.le_iff_toNat_le, UInt8.toNat_ofNat', Nat.mod_eq_of_lt hlt]
    exact hn
  unfold String.utf8EncodeChar
  dsimp only
  split
  · next h => exact Or.inl ⟨Nat.lt_succ_of_le h, rfl⟩
  · right
    split
    · simp only [List.forall_mem_cons]
      exact ⟨hbyte _ (by omega) (by omega), hbyte _ (by omega) (by omega), by simp⟩
    · split
      · simp only [List.forall_mem_cons]
        exact ⟨hbyte _ (by omega) (by omega), hbyte _ (by omega) (by omega),
          hbyte _ (by omega) (by omega), by simp⟩
      · simp only [List.forall_mem_cons]
        exact ⟨hbyte _ (by omega) (by omega), hbyte _ (by omega) (by omega),
          hbyte _ (by omega) (by omega), hbyte _ (by omega) (by omega), by simp⟩

/-! ## What stands for a character -/

/-- The bytes that stand for themselves in a string. -/
def isPlain (b : UInt8) : Bool := b ≠ 0x22 && b ≠ 0x5C && 0x20 ≤ b

theorem stringBytes_plain {bs : Bytes} (h : ∀ b ∈ bs, isPlain b = true) (done rest : Bytes) :
    stringBytes done (bs ++ rest) = stringBytes (bs.reverse ++ done) rest := by
  induction bs generalizing done with
  | nil => rfl
  | cons b bs ih =>
    have hb := h b List.mem_cons_self
    simp only [isPlain, Bool.and_eq_true, decide_eq_true_eq] at hb
    obtain ⟨⟨hquote, hslash⟩, hcontrol⟩ := hb
    rw [List.cons_append, stringBytes.eq_def]
    simp only [hquote, hslash, UInt8.not_lt.mpr hcontrol, if_false]
    rw [ih fun c hc => h c (List.mem_cons_of_mem _ hc)]
    simp

theorem stringBytes_simple {e c : UInt8} (he : e ≠ 0x75) (h : simpleEscape? e = some c)
    (done rest : Bytes) : stringBytes done (0x5C :: e :: rest) = stringBytes (c :: done) rest := by
  rw [stringBytes.eq_def]
  simp [he, h]

theorem stringBytes_unit {a b c d : UInt8} {n : Nat} (h : hexUnit? a b c d = some n)
    (hlow : isLowSurrogate n = false) (hhigh : isHighSurrogate n = false) (done rest : Bytes) :
    stringBytes done (0x5C :: 0x75 :: a :: b :: c :: d :: rest) =
      stringBytes (reversedBytes n ++ done) rest := by
  rw [stringBytes.eq_def]
  simp [h, hlow, hhigh]

/-- The byte of a hexadecimal digit. -/
def digitByte (n : Nat) : UInt8 := UInt8.ofNat (Nat.digitChar n).toNat

theorem utf8EncodeChar_digitChar : ∀ n < 16, String.utf8EncodeChar (Nat.digitChar n) = [digitByte n] := by
  decide

theorem hexUnit?_digitByte :
    ∀ n < 0x20, hexUnit? 0x30 0x30 (digitByte (n / 16)) (digitByte (n % 16)) = some n := by
  decide

theorem encode_unicodeEscape {n : Nat} (h : n < 0x20) :
    encode ['\\', 'u', '0', '0', Nat.digitChar (n / 16), Nat.digitChar (n % 16)] =
      [0x5C, 0x75, 0x30, 0x30, digitByte (n / 16), digitByte (n % 16)] := by
  have hhead : encode ['\\', 'u', '0', '0'] = [0x5C, 0x75, 0x30, 0x30] := rfl
  have hlast : encode [Nat.digitChar (n / 16), Nat.digitChar (n % 16)] =
      [digitByte (n / 16), digitByte (n % 16)] := by
    rw [encode_cons, encode_cons, encode_nil, utf8EncodeChar_digitChar _ (by omega),
      utf8EncodeChar_digitChar _ (by omega)]
    rfl
  have hsplit : encode ['\\', 'u', '0', '0', Nat.digitChar (n / 16), Nat.digitChar (n % 16)] =
      encode ['\\', 'u', '0', '0'] ++ encode [Nat.digitChar (n / 16), Nat.digitChar (n % 16)] :=
    encode_append ['\\', 'u', '0', '0'] _
  rw [hsplit, hhead, hlast]
  rfl

theorem isPlain_of_le {b : UInt8} (h : 0x80 ≤ b) : isPlain b = true := by
  have hn : 128 ≤ b.toNat := UInt8.le_iff_toNat_le.mp h
  have hquote : b ≠ 0x22 := fun hb => by simp [hb] at hn
  have hslash : b ≠ 0x5C := fun hb => by simp [hb] at hn
  have hcontrol : 0x20 ≤ b := UInt8.le_iff_toNat_le.mpr (Nat.le_trans (by decide) hn)
  simp [isPlain, hquote, hslash, hcontrol]

theorem isPlain_of_mem_utf8EncodeChar {c : Char} (hquote : c ≠ '"') (hslash : c ≠ '\\')
    (hcontrol : 0x20 ≤ c.toNat) : ∀ b ∈ String.utf8EncodeChar c, isPlain b = true := by
  rcases utf8EncodeChar_cases c with ⟨hlt, hc⟩ | hc
  · have hne : ∀ d : Char, c ≠ d → d.toNat < 0x80 → UInt8.ofNat c.toNat ≠ UInt8.ofNat d.toNat := by
      intro d hd hdlt h
      have hn := congrArg UInt8.toNat h
      rw [UInt8.toNat_ofNat', UInt8.toNat_ofNat', Nat.mod_eq_of_lt (by omega),
        Nat.mod_eq_of_lt (by omega)] at hn
      exact hd (Char.toNat_inj.mp hn)
    have hge : (0x20 : UInt8) ≤ UInt8.ofNat c.toNat := by
      rw [UInt8.le_iff_toNat_le, UInt8.toNat_ofNat', Nat.mod_eq_of_lt (by omega)]
      exact hcontrol
    rw [hc]
    intro b hb
    rw [List.mem_singleton.mp hb]
    simp only [isPlain, Bool.and_eq_true, decide_eq_true_eq]
    exact ⟨⟨hne '"' hquote (by decide), hne '\\' hslash (by decide)⟩, hge⟩
  · exact fun b hb => isPlain_of_le (hc b hb)

/-- What is written for a character stands for its bytes. -/
theorem stringBytes_escapeChar (c : Char) (done rest : Bytes) :
    stringBytes done (encode (escapeChar c) ++ rest) =
      stringBytes ((String.utf8EncodeChar c).reverse ++ done) rest := by
  by_cases hquote : c = '"'
  · subst hquote
    exact stringBytes_simple (by decide) rfl done rest
  by_cases hslash : c = '\\'
  · subst hslash
    exact stringBytes_simple (by decide) rfl done rest
  by_cases hback : c = backspace
  · subst hback
    exact stringBytes_simple (by decide) rfl done rest
  by_cases hfeed : c = formFeed
  · subst hfeed
    exact stringBytes_simple (by decide) rfl done rest
  by_cases hline : c = '\n'
  · subst hline
    exact stringBytes_simple (by decide) rfl done rest
  by_cases hreturn : c = '\r'
  · subst hreturn
    exact stringBytes_simple (by decide) rfl done rest
  by_cases htab : c = '\t'
  · subst htab
    exact stringBytes_simple (by decide) rfl done rest
  by_cases hcontrol : c.toNat < 0x20
  · have hesc : escapeChar c =
        ['\\', 'u', '0', '0', Nat.digitChar (c.toNat / 16), Nat.digitChar (c.toNat % 16)] := by
      simp only [escapeChar, hquote, hslash, hback, hfeed, hline, hreturn, htab, hcontrol, if_true,
        if_false]
    have hlow : isLowSurrogate c.toNat = false := by simp [isLowSurrogate]; omega
    have hhigh : isHighSurrogate c.toNat = false := by simp [isHighSurrogate]; omega
    rw [hesc, encode_unicodeEscape hcontrol]
    refine (stringBytes_unit (hexUnit?_digitByte _ hcontrol) hlow hhigh done rest).trans ?_
    rw [reversedBytes, Char.ofNat_toNat]
  · have hesc : escapeChar c = [c] := by
      simp only [escapeChar, hquote, hslash, hback, hfeed, hline, hreturn, htab, hcontrol, if_false]
    rw [hesc, encode_cons, encode_nil, List.append_nil]
    exact stringBytes_plain (isPlain_of_mem_utf8EncodeChar hquote hslash (Nat.not_lt.mp hcontrol)) done
      rest

/-! ## Whole strings -/

theorem stringBytes_escaped (cs : List Char) (done rest : Bytes) :
    stringBytes done (encode (cs.flatMap escapeChar) ++ 0x22 :: rest) =
      .ok (done.reverse ++ encode cs, rest) := by
  induction cs generalizing done with
  | nil =>
    rw [stringBytes.eq_def]
    simp
  | cons c cs ih =>
    rw [List.flatMap_cons, encode_append, List.append_assoc, stringBytes_escapeChar, ih, encode_cons]
    simp

theorem readString_escaped (s : String) (rest : Bytes) :
    readString (encode (s.toList.flatMap escapeChar) ++ 0x22 :: rest) = .ok (s, rest) := by
  rw [readString, stringBytes_escaped]
  simp only [List.reverse_nil, List.nil_append, decode?_encode]

end Json

end ClassListing
