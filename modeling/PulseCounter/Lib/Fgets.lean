import Mathlib.Data.List.Basic

/-!
# Reading a file with `fgets`

A call of `fgets` reads up to the end of the line, as far as the buffer has room, so that the calls read the
file in pieces: its lines, if they fit (`pieces_lines`). A loop that reads until a line satisfies a test leaves
the first such piece in the buffer, or the last piece if there is none (`scan_eq`).
-/

namespace Fgets

/-- One call with room for so many characters: the characters up to a newline, which is one of them, and what
is left of the file. -/
def fgets : Nat → List Char → List Char × List Char
  | 0, text => ([], text)
  | _ + 1, [] => ([], [])
  | room + 1, c :: text =>
    if c = '\n' then ([c], text) else (c :: (fgets room text).1, (fgets room text).2)

theorem length_rest_le (room : Nat) (text : List Char) : (fgets room text).2.length ≤ text.length := by
  induction room generalizing text with
  | zero => exact Nat.le_refl _
  | succ room ih =>
    cases text with
    | nil => exact Nat.le_refl _
    | cons c text =>
      unfold fgets
      split
      · exact Nat.le_succ _
      · exact Nat.le_succ_of_le (ih text)

theorem length_rest_lt (room : Nat) {text : List Char} (h : text ≠ []) :
    (fgets (room + 1) text).2.length < text.length := by
  obtain ⟨c, rest, rfl⟩ := List.exists_cons_of_ne_nil h
  unfold fgets
  split
  · exact Nat.lt_succ_self _
  · exact Nat.lt_succ_of_le (length_rest_le room rest)

/-- The pieces that the calls read, with room for `room + 1` characters each. -/
def pieces (room : Nat) (text : List Char) : List (List Char) :=
  if h : text = [] then []
  else
    have := length_rest_lt room h
    (fgets (room + 1) text).1 :: pieces room (fgets (room + 1) text).2
termination_by text.length

/-- What the buffer holds after reading until `found`, if it held `line` before. -/
def scan (room : Nat) (found : List Char → Bool) (line text : List Char) : List Char :=
  if h : text = [] then line
  else
    have := length_rest_lt room h
    if found (fgets (room + 1) text).1 then (fgets (room + 1) text).1
    else scan room found (fgets (room + 1) text).1 (fgets (room + 1) text).2
termination_by text.length

/-- **The loop** ends with the first piece that is found, or with the last. -/
theorem scan_eq (room : Nat) (found : List Char → Bool) (line text : List Char) :
    scan room found line text =
      ((pieces room text).find? found).getD ((pieces room text).getLastD line) := by
  by_cases h : text = []
  · rw [scan, dif_pos h, pieces, dif_pos h]
    rfl
  · have := length_rest_lt room h
    rw [scan, dif_neg h, pieces, dif_neg h, List.find?_cons, List.getLastD_cons]
    simp only
    split
    · next hfound => rw [hfound, Option.getD_some]
    · next hfound =>
      rw [Bool.not_eq_true] at hfound
      rw [hfound]
      exact scan_eq room found _ _
termination_by text.length

theorem fgets_line {line : List Char} (hline : '\n' ∉ line) {room : Nat} (hroom : line.length ≤ room)
    (text : List Char) : fgets (room + 1) (line ++ '\n' :: text) = (line ++ ['\n'], text) := by
  induction line generalizing room with
  | nil =>
    rw [List.nil_append, fgets, if_pos rfl]
    rfl
  | cons c line ih =>
    have hc := List.ne_of_not_mem_cons hline
    have hrest := List.not_mem_of_not_mem_cons hline
    obtain ⟨room, rfl⟩ : ∃ r, room = r + 1 := Nat.exists_eq_succ_of_ne_zero (by
      rintro rfl
      exact absurd hroom (Nat.not_succ_le_zero _))
    rw [List.cons_append, fgets, if_neg (Ne.symm hc), ih hrest (Nat.le_of_succ_le_succ hroom)]
    rfl

/-- **Lines that fit** are read one by one. -/
theorem pieces_lines {room : Nat} {lines : List (List Char)}
    (h : ∀ line ∈ lines, '\n' ∉ line ∧ line.length ≤ room) :
    pieces room (lines.flatMap (· ++ ['\n'])) = lines.map (· ++ ['\n']) := by
  induction lines with
  | nil => rw [List.flatMap_nil, pieces, dif_pos rfl, List.map_nil]
  | cons line lines ih =>
    obtain ⟨hline, hroom⟩ := h line List.mem_cons_self
    have htext : (line :: lines).flatMap (· ++ ['\n']) =
        line ++ '\n' :: lines.flatMap (· ++ ['\n']) := by
      rw [List.flatMap_cons, List.append_assoc, List.singleton_append]
    have hne : line ++ '\n' :: lines.flatMap (· ++ ['\n']) ≠ [] := by simp
    rw [htext, pieces, dif_neg hne]
    simp only [fgets_line hline hroom]
    rw [ih fun l hl => h l (List.mem_cons_of_mem line hl), List.map_cons]

end Fgets
