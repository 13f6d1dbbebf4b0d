/-!
# Cutting and joining texts

Dotted paths are cut at every point, keyword paths at every double underscore. A text with `n`
separators has `n + 1` parts, so the empty text has one part, the empty one. Texts are cut as
lists of characters; the functions on strings are the same ones behind a conversion.
-/

namespace DocumentMapper.Text

/-- Puts a character in front of the first part. -/
def consFirst (c : Char) : List (List Char) → List (List Char)
  | [] => [[c]]
  | part :: parts => (c :: part) :: parts

/-- Cuts at every occurrence of `sep`. -/
def splitAtChar (sep : Char) : List Char → List (List Char)
  | [] => [[]]
  | c :: cs => if c = sep then [] :: splitAtChar sep cs else consFirst c (splitAtChar sep cs)

/-- What stands in front of each occurrence of `sep`, from the shortest on. -/
def beginnings (sep : Char) : List Char → List (List Char)
  | [] => []
  | c :: cs =>
    let longer := (beginnings sep cs).map (c :: ·)
    if c = sep then [] :: longer else longer

/-- Cuts at every double underscore, from the left. -/
def splitAtUnderscores : List Char → List (List Char)
  | [] => [[]]
  | '_' :: '_' :: cs => [] :: splitAtUnderscores cs
  | c :: cs => consFirst c (splitAtUnderscores cs)

/-- The parts with `sep` between neighbours. -/
def joinWith (sep : List Char) : List (List Char) → List Char
  | [] => []
  | [part] => part
  | part :: parts => part ++ sep ++ joinWith sep parts

/-- The segments of a dotted path. -/
def dottedSegments (path : String) : List String :=
  (splitAtChar '.' path.toList).map String.ofList

/-- The segments of a keyword path. -/
def keywordSegments (path : String) : List String :=
  (splitAtUnderscores path.toList).map String.ofList

/-- The strings with `sep` between neighbours. -/
def joinStrings (sep : String) (parts : List String) : String :=
  String.ofList (joinWith sep.toList (parts.map String.toList))

/-- The dotted path of some segments. -/
def dotted (segments : List String) : String :=
  joinStrings "." segments

/-- Whether `s` begins with `p`. -/
def beginsWith (p s : String) : Bool :=
  p.toList.isPrefixOf s.toList

/-- What follows `p` in `s`, where `s` begins with `p`. -/
def dropStart? (p s : String) : Option String :=
  if beginsWith p s then some (String.ofList (s.toList.drop p.toList.length)) else none

/-- The parts before and after the first `sep`, if there is one. -/
def splitFirst? (sep : Char) : List Char → Option (List Char × List Char)
  | [] => none
  | c :: cs =>
    if c = sep then some ([], cs)
    else (splitFirst? sep cs).map fun (before, after) => (c :: before, after)

/-- Whether the text has the character. -/
def hasChar (c : Char) (s : String) : Bool :=
  s.toList.contains c

theorem splitAtChar_ne_nil (sep : Char) (cs : List Char) : splitAtChar sep cs ≠ [] := by
  cases cs with
  | nil => simp [splitAtChar]
  | cons c cs =>
    simp only [splitAtChar]
    split
    · simp
    · cases splitAtChar sep cs <;> simp [consFirst]

theorem joinWith_consFirst (sep : List Char) (c : Char) {parts : List (List Char)}
    (h : parts ≠ []) : joinWith sep (consFirst c parts) = c :: joinWith sep parts := by
  match parts, h with
  | [part], _ => simp [consFirst, joinWith]
  | part :: next :: rest, _ => simp [consFirst, joinWith]

/-- Joining undoes cutting. -/
theorem joinWith_splitAtChar (sep : Char) (cs : List Char) :
    joinWith [sep] (splitAtChar sep cs) = cs := by
  induction cs with
  | nil => rfl
  | cons c cs ih =>
    have hne := splitAtChar_ne_nil sep cs
    by_cases h : c = sep
    · subst h
      cases hs : splitAtChar c cs with
      | nil => exact absurd hs hne
      | cons part parts =>
        rw [hs] at ih
        simp [splitAtChar, joinWith, hs, ih]
    · simp [splitAtChar, h, joinWith_consFirst _ _ hne, ih]

/-- A part of a cut text has no separator. -/
theorem not_mem_of_mem_splitAtChar {sep : Char} {cs part : List Char}
    (h : part ∈ splitAtChar sep cs) : sep ∉ part := by
  induction cs generalizing part with
  | nil =>
    simp only [splitAtChar, List.mem_singleton] at h
    simp [h]
  | cons c cs ih =>
    by_cases hc : c = sep
    · simp only [splitAtChar, hc, ↓reduceIte, List.mem_cons] at h
      rcases h with rfl | h
      · simp
      · exact ih h
    · simp only [splitAtChar, hc, ↓reduceIte] at h
      cases hs : splitAtChar sep cs with
      | nil => exact absurd hs (splitAtChar_ne_nil sep cs)
      | cons first rest =>
        simp only [hs, consFirst, List.mem_cons] at h
        rcases h with rfl | h
        · have := ih (hs ▸ List.mem_cons_self)
          simp only [List.mem_cons, not_or]
          exact ⟨fun e => hc e.symm, this⟩
        · exact ih (hs ▸ List.mem_cons_of_mem _ h)

/-- The segments of a dotted path spell it. -/
theorem dotted_dottedSegments (path : String) : dotted (dottedSegments path) = path := by
  simp only [dotted, joinStrings, dottedSegments, List.map_map]
  have h : (splitAtChar '.' path.toList).map (String.toList ∘ String.ofList)
      = splitAtChar '.' path.toList := by
    simp
  have hsep : ".".toList = ['.'] := rfl
  rw [h, hsep, joinWith_splitAtChar, String.ofList_toList]

end DocumentMapper.Text
