import PulseCounter.BoardRevision
import Mathlib.Data.List.Infix

/-!
# Which boards the program finds

`piBoardRev` succeeds exactly when among the pieces that it reads of the file there are a line of the hardware
and a line of the revision that it can make sense of, whatever its buffer held before (`piBoardRev_eq_ok_iff`).
For lines that fit the buffer these pieces are the lines, and the last four characters of that of the revision
tell boards of the first revision from others (`revisionOf_eq_one_iff`).
-/

namespace PulseCounter

namespace WiringPi

/-! ## The line of the revision -/

/-- A line ends with the code: the four last characters of what starts with its first digit. -/
def HasCode (line code : List Char) : Prop :=
  ∃ before digits, chomp line = before ++ digits ∧ (∀ c ∈ before, c.isDigit = false) ∧
    (∃ c ∈ digits.head?, c.isDigit = true) ∧ code <:+ digits ∧ code.length = 4

/-- The revision that a code stands for. -/
def revisionOf (code : List Char) : Int32 :=
  if code = "0002".toList ∨ code = "0003".toList then 1 else 2

theorem dropWhile_before {before digits : List Char} (hbefore : ∀ c ∈ before, c.isDigit = false)
    (hdigit : ∃ c ∈ digits.head?, c.isDigit = true) :
    (before ++ digits).dropWhile (fun c => ¬c.isDigit) = digits := by
  rw [List.dropWhile_append_of_pos fun c hc => by simp [hbefore c hc]]
  obtain ⟨c, hc, hdigit⟩ := hdigit
  obtain ⟨rest, rfl⟩ := List.head?_eq_some_iff.mp hc
  exact List.dropWhile_cons_of_neg (by simp [hdigit])

theorem revision_of_hasCode {line code : List Char} (h : HasCode line code) :
    revision line = .ok (revisionOf code) := by
  obtain ⟨before, digits, hline, hbefore, hdigit, hsuffix, hlength⟩ := h
  have hc := dropWhile_before hbefore hdigit
  have hne : digits ≠ [] := by
    rintro rfl
    obtain ⟨c, hc, -⟩ := hdigit
    cases hc
  have hlong : ¬digits.length < 4 := by
    have := hsuffix.length_le
    omega
  have hcode : digits.drop (digits.length - 4) = code := by
    rw [← hlength]
    exact (List.suffix_iff_eq_drop.mp hsuffix).symm
  unfold revision revisionOf
  simp only [hline, hc, if_neg hne, if_neg hlong, hcode]
  split <;> rfl

theorem hasCode_of_revision {line : List Char} {rev : Int32} (h : revision line = .ok rev) :
    ∃ code, HasCode line code ∧ rev = revisionOf code := by
  have hcode : ∃ code, HasCode line code := by
    have hsplit := (List.takeWhile_append_dropWhile (p := fun c : Char => ¬c.isDigit) (l := chomp line)).symm
    have hhead : ∀ hne : (chomp line).dropWhile (fun c => ¬c.isDigit) ≠ [],
        (((chomp line).dropWhile fun c => ¬c.isDigit).head hne).isDigit = true := by
      intro hne
      simpa using List.head_dropWhile_not (fun c : Char => ¬c.isDigit) hne
    unfold revision at h
    generalize (chomp line).dropWhile (fun c => ¬c.isDigit) = digits at h hsplit hhead
    simp only at h
    split at h
    · cases h
    · next hne =>
      split at h
      · cases h
      · next hlong =>
        refine ⟨_, _, digits, hsplit, fun c hc => ?_, ?_, List.drop_suffix (digits.length - 4) _, ?_⟩
        · simpa using List.mem_takeWhile_imp hc
        · exact ⟨_, List.head?_eq_some_head hne, hhead hne⟩
        · rw [List.length_drop]
          omega
  obtain ⟨code, hcode⟩ := hcode
  refine ⟨code, hcode, ?_⟩
  rw [revision_of_hasCode hcode] at h
  injection h with h
  exact h.symm

/-! ## The file -/

/-- No line is that of the hardware and that of the revision. -/
theorem not_startsWith_both {line : List Char} (h : startsWith "Hardware" line = true)
    (h' : startsWith "Revision" line = true) : False := by
  unfold startsWith at h h'
  rw [List.isPrefixOf_iff_prefix] at h h'
  have hkeys := List.prefix_of_prefix_length_le h h' (by decide)
  exact absurd hkeys (by decide)

/-- The loop finds the first line with the key, unless it has nothing to read. -/
theorem startsWith_scan {key : String} {buffer text : List Char} :
    startsWith key (Fgets.scan 118 (startsWith key) buffer text) = true ↔
      ((Fgets.pieces 118 text).find? (startsWith key)).isSome ∨
        Fgets.pieces 118 text = [] ∧ startsWith key buffer = true := by
  rw [Fgets.scan_eq]
  cases hfind : (Fgets.pieces 118 text).find? (startsWith key) with
  | some line =>
    simp [List.find?_some hfind]
  | none =>
    rw [List.find?_eq_none] at hfind
    rcases List.eq_nil_or_concat (Fgets.pieces 118 text) with hnil | ⟨pieces, line, hpieces⟩
    · simp [hnil]
    · have hlast := hfind line (by rw [hpieces]; simp)
      rw [hpieces]
      simpa using hlast

section File

variable {buffer text : List Char}

theorem piBoardRev_of_found {hardware line : List Char}
    (hhardware : (Fgets.pieces 118 text).find? (startsWith "Hardware") = some hardware)
    (hline : (Fgets.pieces 118 text).find? (startsWith "Revision") = some line) :
    piBoardRev buffer (some text) = (piModel2 hardware).bind fun model2 =>
      (revision line).map fun rev => { boardRev := rev, piModel2 := model2 } := by
  have hscan := Fgets.scan_eq 118 (startsWith "Hardware") buffer text
  have hscan' := Fgets.scan_eq 118 (startsWith "Revision") hardware text
  rw [hhardware, Option.getD_some] at hscan
  rw [hline, Option.getD_some] at hscan'
  unfold piBoardRev
  simp only [hscan, if_pos (List.find?_some hhardware)]
  cases piModel2 hardware with
  | error failure => rfl
  | ok model2 =>
    change (if startsWith "Revision" _ = true then _ else _) = _
    rw [hscan', if_pos (List.find?_some hline)]
    change (revision line).bind _ = (revision line).map _
    cases revision line <;> rfl

/-- Without one of the lines there is no result. -/
theorem found_of_piBoardRev {board : Board} (h : piBoardRev buffer (some text) = .ok board) :
    ∃ hardware line, (Fgets.pieces 118 text).find? (startsWith "Hardware") = some hardware ∧
      (Fgets.pieces 118 text).find? (startsWith "Revision") = some line := by
  unfold piBoardRev at h
  simp only at h
  split at h
  · next hhardware =>
    cases hmodel : piModel2 (Fgets.scan 118 (startsWith "Hardware") buffer text) with
    | error failure =>
      rw [hmodel] at h
      cases h
    | ok model2 =>
      rw [hmodel] at h
      change (if startsWith "Revision" _ = true then _ else _) = _ at h
      split at h
      · next hrevision =>
        rcases startsWith_scan.mp hhardware with hsome | ⟨hnil, hbuffer⟩
        · rcases startsWith_scan.mp hrevision with hsome' | ⟨hnil, -⟩
          · obtain ⟨hardware, hfound⟩ := Option.isSome_iff_exists.mp hsome
            obtain ⟨line, hfound'⟩ := Option.isSome_iff_exists.mp hsome'
            exact ⟨hardware, line, hfound, hfound'⟩
          · rw [hnil] at hsome
            cases hsome
        · -- nothing has been read, so the buffer would have to be both lines
          rcases startsWith_scan.mp hrevision with hsome' | ⟨-, hline⟩
          · rw [hnil] at hsome'
            cases hsome'
          · exact (not_startsWith_both hhardware hline).elim
      · cases h
  · cases h

/-- **What `piBoardRev` makes of a file**: it succeeds exactly when the first line of the hardware names a
model that it knows and the first line of the revision has a code, lines being cut where the buffer is full.
What the buffer held before makes no difference. -/
theorem piBoardRev_eq_ok_iff (buffer text : List Char) (board : Board) :
    piBoardRev buffer (some text) = .ok board ↔
      ∃ hardware line code, (Fgets.pieces 118 text).find? (startsWith "Hardware") = some hardware ∧
        piModel2 hardware = .ok board.piModel2 ∧
        (Fgets.pieces 118 text).find? (startsWith "Revision") = some line ∧ HasCode line code ∧
        board.boardRev = revisionOf code := by
  constructor
  · intro h
    obtain ⟨hardware, line, hhardware, hline⟩ := found_of_piBoardRev h
    rw [piBoardRev_of_found hhardware hline] at h
    cases hmodel : piModel2 hardware with
    | error failure =>
      rw [hmodel] at h
      cases h
    | ok model2 =>
      cases hrev : revision line with
      | error failure =>
        rw [hmodel, hrev] at h
        cases h
      | ok rev =>
        rw [hmodel, hrev] at h
        injection h with h
        subst h
        obtain ⟨code, hcode, hvalue⟩ := hasCode_of_revision hrev
        exact ⟨hardware, line, code, hhardware, hmodel, hline, hcode, hvalue⟩
  · rintro ⟨hardware, line, code, hhardware, hmodel, hline, hcode, hvalue⟩
    rw [piBoardRev_of_found hhardware hline, hmodel, revision_of_hasCode hcode, ← hvalue]
    rfl

end File

/-! ## Lines that fit the buffer -/

theorem cString_newline (line : List Char) :
    cString (line ++ ['\n']) = cString line ∨ cString (line ++ ['\n']) = cString line ++ ['\n'] := by
  unfold cString
  rw [List.takeWhile_append]
  split
  · next hall =>
    have hwhole := (List.takeWhile_prefix (fun c => c ≠ '\x00') (l := line)).eq_of_length hall
    refine .inr ?_
    rw [hwhole]
    rfl
  · exact .inl rfl

theorem chomp_newline (line : List Char) : chomp (line ++ ['\n']) = chomp line := by
  unfold chomp
  rcases cString_newline line with hsame | hnewline
  · rw [hsame]
  · rw [hnewline]
    exact List.rdropWhile_concat_pos _ _ _ (by decide)

theorem startsWith_newline {key : String} (hkey : '\n' ∉ key.toList) (line : List Char) :
    startsWith key (line ++ ['\n']) = startsWith key line := by
  unfold startsWith
  rcases cString_newline line with hsame | hnewline
  · rw [hsame]
  · rw [hnewline, Bool.eq_iff_iff, List.isPrefixOf_iff_prefix, List.isPrefixOf_iff_prefix,
      List.prefix_concat_iff]
    refine or_iff_right fun hwhole => hkey ?_
    rw [hwhole]
    exact List.mem_append_right _ List.mem_cons_self

theorem strstr_newline {key : String} (hkey : '\n' ∉ key.toList) (line : List Char) :
    strstr key (line ++ ['\n']) = strstr key line := by
  have hinfix : ∀ l : List Char, l.tails.any (key.toList.isPrefixOf ·) = true ↔ key.toList <:+: l := by
    intro l
    rw [List.any_eq_true, List.infix_iff_prefix_suffix]
    simp only [List.isPrefixOf_iff_prefix, List.mem_tails, and_comm]
  unfold strstr
  rcases cString_newline line with hsame | hnewline
  · rw [hsame]
  · rw [hnewline, Bool.eq_iff_iff, hinfix, hinfix, List.infix_concat_iff]
    refine or_iff_right_of_imp fun hsuffix => ?_
    rcases List.suffix_concat_iff.mp hsuffix with hnil | ⟨rest, hrest, -⟩
    · rw [hnil]
      exact List.nil_infix
    · refine absurd ?_ hkey
      rw [hrest]
      exact List.mem_append_right _ List.mem_cons_self

theorem piModel2_newline {line : List Char} {model2 : Bool} :
    piModel2 (line ++ ['\n']) = .ok model2 ↔ piModel2 line = .ok model2 := by
  unfold piModel2
  rw [strstr_newline (by decide), strstr_newline (by decide)]
  split
  · exact Iff.rfl
  · split
    · exact Iff.rfl
    · simp

theorem hasCode_newline {line code : List Char} : HasCode (line ++ ['\n']) code ↔ HasCode line code := by
  unfold HasCode
  rw [chomp_newline]

/-- Which line is found does not depend on the newline. -/
theorem find?_newline {key : String} (hkey : '\n' ∉ key.toList) (lines : List (List Char)) :
    (lines.map (· ++ ['\n'])).find? (startsWith key) =
      (lines.find? (startsWith key)).map (· ++ ['\n']) := by
  have hcomp : startsWith key ∘ (· ++ ['\n']) = startsWith key :=
    funext fun line => startsWith_newline hkey line
  rw [List.find?_map, hcomp]

/-- The code is a pair of last characters that tells boards of the first revision. -/
theorem revisionOf_eq_one_iff {line code : List Char} (h : HasCode line code) :
    revisionOf code = 1 ↔ "0002".toList <:+ chomp line ∨ "0003".toList <:+ chomp line := by
  obtain ⟨before, digits, hline, -, -, hsuffix, hlength⟩ := h
  have hcode : code <:+ chomp line := by
    rw [hline]
    exact hsuffix.trans (List.suffix_append _ _)
  have hlast : ∀ last : List Char, last.length = 4 → (last <:+ chomp line ↔ code = last) := by
    intro last hlast
    constructor
    · intro hends
      refine (List.suffix_of_suffix_length_le hcode hends ?_).eq_of_length ?_ <;> omega
    · rintro rfl
      exact hcode
  rw [hlast _ (by decide), hlast _ (by decide)]
  unfold revisionOf
  split
  · next hfirst => exact iff_of_true rfl hfirst
  · next hsecond => exact iff_of_false (by decide) hsecond

end WiringPi

end PulseCounter
