import Mathlib.Data.List.TakeWhile

/-!
# Reading a string stream field by field

A stream is the text that is still to be read with the two state bits that matter here. `getline`
follows the C++ standard: it extracts up to and including the delimiter, sets the end-of-file bit when
it runs into the end, and the fail bit when it extracted nothing or the stream was not good.

A loop that calls `getline` while the stream is good, and may break off after any of the lines, goes
through the fields of the text (`whileGood_ofText`): as many as there are delimiters and one more, an
empty field at the end included.
-/

structure StringStream where
  rest : List Char
  eofbit : Bool
  failbit : Bool
  deriving DecidableEq, Repr

namespace StringStream

/-- A stream on a text that nothing has been read of. -/
def ofText (text : List Char) : StringStream := ⟨text, false, false⟩

def good (s : StringStream) : Bool := !s.eofbit && !s.failbit

/-- The line read, and the stream after it. -/
def getline (delim : Char) (s : StringStream) : List Char × StringStream :=
  if s.good then
    let line := s.rest.takeWhile (· ≠ delim)
    match s.rest.dropWhile (· ≠ delim) with
    | [] => (line, ⟨[], true, line.isEmpty⟩)
    | _ :: rest => (line, ⟨rest, false, false⟩)
  else ([], { s with failbit := true })

/-- How often a good stream can still be read from, at most. -/
def remaining (s : StringStream) : Nat := if s.good then s.rest.length + 1 else 0

section Getline

variable {delim : Char} {line : List Char} (h : delim ∉ line)

include h

theorem forall_ne_of_not_mem : ∀ c ∈ line, decide (c ≠ delim) = true := by
  intro c hc
  rw [decide_eq_true_iff]
  rintro rfl
  exact h hc

theorem getline_ofText (rest : List Char) :
    (ofText (line ++ delim :: rest)).getline delim = (line, ofText rest) := by
  have hne := forall_ne_of_not_mem h
  have hgood : (ofText (line ++ delim :: rest)).good = true := rfl
  unfold getline
  rw [if_pos hgood]
  simp only [ofText, List.takeWhile_append_of_pos hne, List.dropWhile_append_of_pos hne]
  simp

/-- The last line of a text leaves a stream that is not good. -/
theorem getline_ofText_last :
    (ofText line).getline delim = (line, ⟨[], true, line.isEmpty⟩) := by
  have hne := forall_ne_of_not_mem h
  have hgood : (ofText line).good = true := rfl
  unfold getline
  rw [if_pos hgood]
  simp only [ofText, List.takeWhile_eq_self_iff.mpr hne, List.dropWhile_eq_nil_iff.mpr hne]

end Getline

theorem remaining_getline_lt {s : StringStream} (delim : Char) (h : s.good = true) :
    (s.getline delim).2.remaining < s.remaining := by
  have hlen : (s.rest.dropWhile (· ≠ delim)).length ≤ s.rest.length :=
    (List.dropWhile_suffix _).length_le
  unfold getline remaining
  rw [if_pos h, if_pos h]
  simp only
  split
  · exact Nat.succ_pos _
  · next c rest hrest =>
    rw [hrest] at hlen
    exact Nat.succ_lt_succ hlen

/-! ## The loop -/

section WhileGood

variable {m : Type → Type*} [Monad m]

/-- Read lines while the stream is good; the body of the loop tells whether it goes on. -/
def whileGood (delim : Char) (body : List Char → m Bool) (s : StringStream) : m Unit :=
  if h : s.good = true then
    have := remaining_getline_lt delim h
    do
      if ← body (s.getline delim).1 then
        whileGood delim body (s.getline delim).2
  else pure ()
termination_by s.remaining

/-- The same body on the lines of a list. -/
def forLines (body : List Char → m Bool) : List (List Char) → m Unit
  | [] => pure ()
  | line :: lines => do
    if ← body line then
      forLines body lines

theorem whileGood_of_good {delim : Char} {body : List Char → m Bool} {s : StringStream}
    (h : s.good = true) :
    whileGood delim body s = (do
      if ← body (s.getline delim).1 then
        whileGood delim body (s.getline delim).2) := by
  rw [whileGood, dif_pos h]

theorem whileGood_of_not_good {delim : Char} {body : List Char → m Bool} {s : StringStream}
    (h : s.good = false) : whileGood delim body s = pure () := by
  rw [whileGood, dif_neg (by rw [h]; exact Bool.false_ne_true)]

/-- **The loop goes through the fields** of a text. -/
theorem whileGood_ofText (delim : Char) (body : List Char → m Bool) (text : List Char) :
    whileGood delim body (ofText text) = forLines body (text.splitOn delim) := by
  by_cases hmem : delim ∈ text
  · obtain ⟨line, rest, htext, hline⟩ := List.eq_append_cons_of_mem hmem
    have hlt : rest.length < text.length := by
      rw [htext, List.length_append, List.length_cons]
      omega
    have ih := whileGood_ofText delim body rest
    rw [htext, List.splitOn_append_cons_self_of_not_mem hline, whileGood_of_good rfl,
      getline_ofText hline, ih, forLines]
  · rw [List.splitOn_eq_singleton hmem, whileGood_of_good rfl, getline_ofText_last hmem,
      whileGood_of_not_good rfl]
    rfl
termination_by text.length

end WhileGood

end StringStream
