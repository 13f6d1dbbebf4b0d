import DocumentMapper.Proofs.WrittenNumbers

/-!
# Values in texts

A string is read back from its text, piece by piece: a control character without an escape of its own
is a 16-bit unit, and any other character is itself. The first character of a text tells the form of
the value, and an item ends where a comma or a bracket follows. So no text belongs to two values, not
even to two that are equal but for the order of entries.

## Main results

* `Literal.readString_escaped`: a string is read back from its text;
* `Json.text_injective`: different values have different texts.
-/

namespace DocumentMapper

open Number

/-! ### Strings -/

/-- The characters of a string as they are written, in front of `tail`. -/
def Json.escaped (cs : List Char) (tail : List Char) : List Char :=
  cs.foldr (fun c acc => escapeChar c ++ acc) tail

namespace Literal

/-- The piece that a character of a string is read as. -/
def pieceOf (c : Char) : Piece :=
  if c.toNat < 32 ∧ c ≠ '\n' ∧ c ≠ '\r' ∧ c ≠ '\t' ∧ c.toNat ≠ 8 ∧ c.toNat ≠ 12 then .unit c.toNat
  else .char c

theorem char_eq_of_toNat {c : Char} {n : Nat} (h : c.toNat = n) : c = Char.ofNat n := by
  rw [← h, Char.ofNat_toNat]

/-- The hexadecimal digits of a control character are read as its number. -/
theorem hexValue4?_control {n : Nat} (h : n < 32) :
    hexValue4? '0' '0' (Json.hexDigit (n / 16)) (Json.hexDigit (n % 16)) = some n := by
  revert n
  decide

theorem readPieces_letter {letter c : Char} (h : escaped? letter = some c) (hu : letter ≠ 'u')
    (rest : List Char) : readPieces ('\\' :: letter :: rest) =
      (readPieces rest).bind fun found => some (.char c :: found.1, found.2) := by
  simp [readPieces, h, hu]

theorem readPieces_control {n : Nat} (h : n < 32) (rest : List Char) :
    readPieces ('\\' :: 'u' :: '0' :: '0' :: Json.hexDigit (n / 16) :: Json.hexDigit (n % 16) ::
        rest) =
      (readPieces rest).bind fun found => some (.unit n :: found.1, found.2) := by
  rw [readPieces, hexValue4?_control h]
  rfl

theorem readPieces_plain {c : Char} (hquote : c ≠ '"') (hslash : c ≠ '\\')
    (hcontrol : ¬ c.toNat < 32) (rest : List Char) : readPieces (c :: rest) =
      (readPieces rest).bind fun found => some (.char c :: found.1, found.2) := by
  rw [readPieces, if_neg (not_or.mpr ⟨hcontrol, hslash⟩)]
  · rfl
  · exact hquote
  · exact fun _ _ _ _ _ hc => absurd hc hslash
  · exact fun _ _ hc => absurd hc hslash

/-- A written character is read as its piece. -/
theorem readPieces_escapeChar (c : Char) (rest : List Char) :
    readPieces (Json.escapeChar c ++ rest) =
      (readPieces rest).bind fun found => some (pieceOf c :: found.1, found.2) := by
  unfold Json.escapeChar
  split_ifs with h h h h h h h hcontrol
  iterate 5
    subst h
    exact readPieces_letter rfl (by decide) rest
  iterate 2
    obtain rfl := char_eq_of_toNat h
    exact readPieces_letter rfl (by decide) rest
  · rw [pieceOf, if_pos (by simp [*])]
    exact readPieces_control hcontrol rest
  · rw [pieceOf, if_neg fun hunit => hcontrol hunit.1]
    exact readPieces_plain ‹_› ‹_› hcontrol rest

/-- The characters of a string are read as their pieces, up to the closing quote. -/
theorem readPieces_escaped (cs tail : List Char) :
    readPieces (Json.escaped cs ('"' :: tail)) = some (cs.map pieceOf, tail) := by
  induction cs with
  | nil => simp [Json.escaped, readPieces]
  | cons c cs ih =>
    change readPieces (Json.escapeChar c ++ Json.escaped cs ('"' :: tail)) = _
    rw [readPieces_escapeChar, ih]
    rfl

/-- A control character is no half of a surrogate pair. -/
theorem joinPieces_control {n : Nat} (h : n < 32) (pieces : List Piece) :
    joinPieces (.unit n :: pieces) = (joinPieces pieces).map (Char.ofNat n :: ·) := by
  have hhigh : ¬ (0xD800 ≤ n ∧ n < 0xDC00) := by omega
  have hlow : ¬ (0xDC00 ≤ n ∧ n < 0xE000) := by omega
  have hhalf : ¬ (0xD800 ≤ n ∧ n < 0xE000) := by omega
  cases pieces with
  | nil => simp only [joinPieces, if_neg hhalf]
  | cons piece pieces =>
    cases piece with
    | char c => simp only [joinPieces, if_neg hhalf]
    | unit l => simp only [joinPieces, if_neg hhigh, if_neg hlow]

/-- The pieces of a string make up the string. -/
theorem joinPieces_pieceOf (cs : List Char) : joinPieces (cs.map pieceOf) = some cs := by
  induction cs with
  | nil => rfl
  | cons c cs ih =>
    rw [List.map_cons, pieceOf]
    split
    · rename_i h
      rw [joinPieces_control h.1, ih, Option.map_some, Char.ofNat_toNat]
    · rw [joinPieces, ih, Option.map_some]

/-- **A string is read back from its text.** -/
theorem readString_escaped (s : String) (tail : List Char) :
    readString (Json.escaped s.toList ('"' :: tail)) = some (some s, tail) := by
  rw [readString, readPieces_escaped, Option.map_some]
  simp only [joinPieces_pieceOf, Option.map_some, String.ofList_toList]

end Literal

namespace Json

/-- A string is determined by its text, and so is what follows it. -/
theorem quote_inj {s s' : String} {tail tail' : List Char} (h : quote s tail = quote s' tail') :
    s = s' ∧ tail = tail' := by
  have htexts : escaped s.toList ('"' :: tail) = escaped s'.toList ('"' :: tail') :=
    (List.cons.inj h).2
  have hread := Literal.readString_escaped s tail
  rw [htexts, Literal.readString_escaped] at hread
  simp only [Option.some.injEq, Prod.mk.injEq] at hread
  exact ⟨hread.1.symm, hread.2.symm⟩

/-! ### Numbers -/

theorem write_whole (n : Whole) (tail : List Char) :
    write (.whole n) tail =
      (Parts.ofNat n.val.natAbs).signedText (decide (n.val < 0)) ++ tail := by
  rw [← integerText_eq]
  rfl

theorem write_float (x : Binary64) (tail : List Char) :
    write (.float x) tail = x.parts.signedText x.negative ++ tail := by
  rw [← Binary64.write_data]
  rfl

theorem whole_inj {m n : Whole} {tail tail' : List Char} (htail : Delimited tail)
    (htail' : Delimited tail') (h : write (.whole m) tail = write (.whole n) tail') :
    m = n ∧ tail = tail' := by
  rw [write_whole, write_whole] at h
  obtain ⟨hnumeral, htails⟩ :=
    (Parts.valid_ofNat _).numeral_unique (Parts.valid_ofNat _) htail htail' h
  have hval := eq_of_numeral_ofNat hnumeral
  cases m
  cases n
  subst hval
  exact ⟨rfl, htails⟩

theorem float_inj {x y : Binary64} {tail tail' : List Char} (htail : Delimited tail)
    (htail' : Delimited tail') (h : write (.float x) tail = write (.float y) tail') :
    x = y ∧ tail = tail' := by
  rw [write_float, write_float] at h
  obtain ⟨hnumeral, htails⟩ := x.valid_parts.numeral_unique y.valid_parts htail htail' h
  exact ⟨Binary64.eq_of_numeral hnumeral, htails⟩

/-- A whole number and a binary64 number have different texts. -/
theorem whole_ne_float {n : Whole} {x : Binary64} {tail tail' : List Char} (htail : Delimited tail)
    (htail' : Delimited tail') : write (.whole n) tail ≠ write (.float x) tail' := by
  intro h
  rw [write_whole, write_float] at h
  have hintegral := congrArg Numeral.integral
    ((Parts.valid_ofNat _).numeral_unique x.valid_parts htail htail' h).1
  rw [Parts.numeral_ofNat, x.integral_parts] at hintegral
  cases hintegral

/-! ### First characters -/

/-- What the first character of a text tells about the value. -/
inductive Form where
  | null
  | bool
  | number
  | string
  | array
  | object

/-- The form of a value. -/
def form : Json → Form
  | .null => .null
  | .bool _ => .bool
  | .whole _ => .number
  | .float _ => .number
  | .string _ => .string
  | .array _ => .array
  | .object _ => .object

/-- The form that a first character stands for. -/
def formOf? (c : Char) : Option Form :=
  if c.isDigit then some .number
  else if c = '-' then some .number
  else if c = 'n' then some .null
  else if c = 't' ∨ c = 'f' then some .bool
  else if c = '"' then some .string
  else if c = '[' then some .array
  else if c = '\x7b' then some .object
  else none

/-- A number begins with a minus sign or a digit. -/
theorem formOf?_signedText {p : Parts} (hp : p.Valid) (negative : Bool) (tail : List Char) :
    (p.signedText negative ++ tail).head?.bind formOf? = some .number := by
  cases negative with
  | true => rfl
  | false =>
    obtain ⟨c, cs, htext, hdigit⟩ := hp.exists_digit
    simp [Parts.signedText, htext, formOf?, hdigit]

/-- **The first character of a text tells the form of the value.** -/
theorem formOf?_write (j : Json) (tail : List Char) :
    (write j tail).head?.bind formOf? = some j.form := by
  cases j with
  | null => rfl
  | bool b => cases b <;> rfl
  | whole n =>
    rw [write_whole]
    exact formOf?_signedText (Parts.valid_ofNat _) _ tail
  | float x =>
    rw [write_float]
    exact formOf?_signedText x.valid_parts _ tail
  | string s => rfl
  | array items => cases items <;> rfl
  | object es => cases es <;> rfl

theorem form_eq {a b : Json} {tail tail' : List Char} (h : write a tail = write b tail') :
    a.form = b.form := by
  have hform := formOf?_write a tail
  rw [h, formOf?_write] at hform
  exact (Option.some.inj hform).symm

/-- No value begins with a closing bracket. -/
theorem write_ne_bracket (j : Json) (tail tail' : List Char) : write j tail ≠ ']' :: tail' := by
  intro h
  have hform := formOf?_write j tail
  rw [h] at hform
  cases hform

/-! ### Values -/

theorem delimited_items (vs : List Json) (tail : List Char) :
    Delimited (writeItems vs (']' :: tail)) := by
  cases vs with
  | nil => exact delimited_cons (.inr (.inl rfl)) tail
  | cons v vs => exact delimited_cons (.inl rfl) _

theorem delimited_entries (es : List (String × Json)) (tail : List Char) :
    Delimited (writeEntries es ('\x7d' :: tail)) := by
  cases es with
  | nil => exact delimited_cons (.inr (.inr rfl)) tail
  | cons e es => exact delimited_cons (.inl rfl) _

mutual

/-- A value is determined by a text that it begins, and so is what follows it. -/
theorem write_inj : ∀ (a b : Json) {tail tail' : List Char}, Delimited tail → Delimited tail' →
    write a tail = write b tail' → a = b ∧ tail = tail'
  | .null, b, _, _, _, _, h => by
    cases b with
    | null => exact ⟨rfl, List.append_cancel_left h⟩
    | _ => cases form_eq h
  | .bool p, b, _, _, _, _, h => by
    cases b with
    | bool q =>
      cases p <;> cases q
      · exact ⟨rfl, List.append_cancel_left h⟩
      · cases (List.cons.inj h).1
      · cases (List.cons.inj h).1
      · exact ⟨rfl, List.append_cancel_left h⟩
    | _ => cases form_eq h
  | .whole m, b, _, _, ht, ht', h => by
    cases b with
    | whole n =>
      obtain ⟨rfl, htails⟩ := whole_inj ht ht' h
      exact ⟨rfl, htails⟩
    | float y => exact absurd h (whole_ne_float ht ht')
    | _ => cases form_eq h
  | .float x, b, _, _, ht, ht', h => by
    cases b with
    | whole n => exact absurd h.symm (whole_ne_float ht' ht)
    | float y =>
      obtain ⟨rfl, htails⟩ := float_inj ht ht' h
      exact ⟨rfl, htails⟩
    | _ => cases form_eq h
  | .string s, b, _, _, _, _, h => by
    cases b with
    | string s' =>
      obtain ⟨rfl, htails⟩ := quote_inj h
      exact ⟨rfl, htails⟩
    | _ => cases form_eq h
  | .array [], b, _, _, _, _, h => by
    cases b with
    | array others =>
      cases others with
      | nil => exact ⟨rfl, (List.cons.inj (List.cons.inj h).2).2⟩
      | cons w ws => exact absurd (List.cons.inj h).2.symm (write_ne_bracket w _ _)
    | _ => cases form_eq h
  | .array (v :: vs), b, _, _, _, _, h => by
    cases b with
    | array others =>
      cases others with
      | nil => exact absurd (List.cons.inj h).2 (write_ne_bracket v _ _)
      | cons w ws =>
        obtain ⟨rfl, hitems⟩ := write_inj v w (delimited_items vs _) (delimited_items ws _)
          (List.cons.inj h).2
        obtain ⟨rfl, htails⟩ := writeItems_inj vs ws hitems
        exact ⟨rfl, htails⟩
    | _ => cases form_eq h
  | .object [], b, _, _, _, _, h => by
    cases b with
    | object others =>
      cases others with
      | nil => exact ⟨rfl, (List.cons.inj (List.cons.inj h).2).2⟩
      | cons f fs => cases (List.cons.inj (List.cons.inj h).2).1
    | _ => cases form_eq h
  | .object ((k, v) :: es), b, _, _, _, _, h => by
    cases b with
    | object others =>
      cases others with
      | nil => cases (List.cons.inj (List.cons.inj h).2).1
      | cons f fs =>
        obtain ⟨rfl, hvalue⟩ := quote_inj (List.cons.inj h).2
        obtain ⟨rfl, hentries⟩ := write_inj v f.2 (delimited_entries es _) (delimited_entries fs _)
          (List.cons.inj hvalue).2
        obtain ⟨rfl, htails⟩ := writeEntries_inj es fs hentries
        exact ⟨rfl, htails⟩
    | _ => cases form_eq h
termination_by structural a => a

/-- The same for the items after the first one. -/
theorem writeItems_inj : ∀ (vs ws : List Json) {tail tail' : List Char},
    writeItems vs (']' :: tail) = writeItems ws (']' :: tail') → vs = ws ∧ tail = tail'
  | [], ws, _, _, h => by
    cases ws with
    | nil => exact ⟨rfl, (List.cons.inj h).2⟩
    | cons w ws => cases (List.cons.inj h).1
  | v :: vs, ws, _, _, h => by
    cases ws with
    | nil => cases (List.cons.inj h).1
    | cons w ws =>
      obtain ⟨rfl, hitems⟩ := write_inj v w (delimited_items vs _) (delimited_items ws _)
        (List.cons.inj h).2
      obtain ⟨rfl, htails⟩ := writeItems_inj vs ws hitems
      exact ⟨rfl, htails⟩
termination_by structural vs => vs

/-- The same for the entries after the first one. -/
theorem writeEntries_inj : ∀ (es fs : List (String × Json)) {tail tail' : List Char},
    writeEntries es ('\x7d' :: tail) = writeEntries fs ('\x7d' :: tail') → es = fs ∧ tail = tail'
  | [], fs, _, _, h => by
    cases fs with
    | nil => exact ⟨rfl, (List.cons.inj h).2⟩
    | cons f fs => cases (List.cons.inj h).1
  | (k, v) :: es, fs, _, _, h => by
    cases fs with
    | nil => cases (List.cons.inj h).1
    | cons f fs =>
      obtain ⟨rfl, hvalue⟩ := quote_inj (List.cons.inj h).2
      obtain ⟨rfl, hentries⟩ := write_inj v f.2 (delimited_entries es _) (delimited_entries fs _)
        (List.cons.inj hvalue).2
      obtain ⟨rfl, htails⟩ := writeEntries_inj es fs hentries
      exact ⟨rfl, htails⟩
termination_by structural es => es

end

/-- **Different values have different texts.** -/
theorem text_injective : Function.Injective text := fun a b h =>
  (write_inj a b delimited_nil delimited_nil (String.ofList_injective h)).1

end Json

end DocumentMapper
