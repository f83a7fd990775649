import Mathlib.Data.List.Basic

/-!
# A terminal

A terminal shows the lines that are finished and the line of the cursor, however wide they are. A character
replaces the one that stands at the cursor, a newline finishes the line, and a carriage return takes the
cursor back to the start of its line and leaves the line as it is. So a line that is written over another
one hides it only when it is at least as long, and of a series of lines that never get shorter only the
last one is left (`write_over`).
-/

namespace Terminal

/-- The line of the cursor is in two parts, before the cursor and from it on. -/
structure Screen where
  above : List (List Char)
  left : List Char
  right : List Char
  deriving DecidableEq, Repr

namespace Screen

def blank : Screen := ⟨[], [], []⟩

/-- The line of the cursor. -/
def line (s : Screen) : List Char := s.left ++ s.right

end Screen

def put (s : Screen) (c : Char) : Screen :=
  if c = '\n' then ⟨s.above ++ [s.line], [], []⟩
  else if c = '\r' then ⟨s.above, [], s.line⟩
  else ⟨s.above, s.left ++ [c], s.right.tail⟩

def write (s : Screen) (text : List Char) : Screen := text.foldl put s

/-- A text that stays on its line. -/
def Plain (text : List Char) : Prop := ∀ c ∈ text, c ≠ '\n' ∧ c ≠ '\r'

instance (text : List Char) : Decidable (Plain text) := List.decidableBAll _ text

@[simp] theorem write_nil (s : Screen) : write s [] = s := rfl

theorem write_append (s : Screen) (text rest : List Char) :
    write s (text ++ rest) = write (write s text) rest := List.foldl_append

theorem write_cons (s : Screen) (c : Char) (text : List Char) :
    write s (c :: text) = write (put s c) text := rfl

theorem put_newline (s : Screen) : put s '\n' = ⟨s.above ++ [s.line], [], []⟩ := if_pos rfl

theorem put_return (s : Screen) : put s '\r' = ⟨s.above, [], s.line⟩ := by
  unfold put
  rw [if_neg (by decide), if_pos rfl]

/-- A text on its line replaces as much of the line as it is long. -/
theorem write_plain {text : List Char} (h : Plain text) (s : Screen) :
    write s text = ⟨s.above, s.left ++ text, s.right.drop text.length⟩ := by
  induction text generalizing s with
  | nil => rw [List.append_nil, List.length_nil, List.drop_zero, write_nil]
  | cons c text ih =>
    obtain ⟨⟨hnewline, hreturn⟩, hplain⟩ := List.forall_mem_cons.mp h
    have hput : put s c = ⟨s.above, s.left ++ [c], s.right.tail⟩ := by
      unfold put
      rw [if_neg hnewline, if_neg hreturn]
    rw [write_cons, hput, ih hplain, List.append_assoc, List.drop_tail]
    rfl

/-- Nothing takes a finished line back. -/
theorem above_write (s : Screen) (text : List Char) : s.above <+: (write s text).above := by
  induction text generalizing s with
  | nil => exact List.prefix_refl _
  | cons c text ih =>
    refine List.IsPrefix.trans ?_ (ih (put s c))
    unfold put
    split
    · exact List.prefix_append _ _
    · split
      · exact List.prefix_refl _
      · exact List.prefix_refl _

/-- Finished lines below one another. -/
theorem write_lines (above : List (List Char)) (lines : List (List Char)) (h : ∀ l ∈ lines, Plain l) :
    write ⟨above, [], []⟩ (lines.flatMap fun l => l ++ ['\n']) = ⟨above ++ lines, [], []⟩ := by
  induction lines generalizing above with
  | nil => rw [List.flatMap_nil, List.append_nil, write_nil]
  | cons l lines ih =>
    obtain ⟨hplain, hplains⟩ := List.forall_mem_cons.mp h
    rw [List.flatMap_cons, write_append, write_append, write_plain hplain, write_cons, put_newline,
      write_nil]
    simp only [Screen.line, List.nil_append, List.drop_nil, List.append_nil]
    rw [ih _ hplains, List.append_assoc, List.singleton_append]

/-- **Lines over one another**: when none is shorter than the one before it, the last one is left. -/
theorem write_over (above : List (List Char)) (line : List Char) (lines : List (List Char))
    (h : ∀ l ∈ lines, Plain l)
    (hgrow : (line :: lines).IsChain fun l l' => l.length ≤ l'.length) :
    write ⟨above, [], line⟩ (lines.flatMap fun l => l ++ ['\r']) =
      ⟨above, [], lines.getLastD line⟩ := by
  induction lines generalizing line with
  | nil => rfl
  | cons l lines ih =>
    obtain ⟨hplain, hplains⟩ := List.forall_mem_cons.mp h
    obtain ⟨hlength, hgrow⟩ := List.isChain_cons_cons.mp hgrow
    rw [List.flatMap_cons, write_append, write_append, write_plain hplain, write_cons, put_return,
      write_nil, List.getLastD_cons]
    simp only [Screen.line, List.nil_append]
    rw [List.drop_eq_nil_of_le hlength, List.append_nil]
    exact ih l hplains hgrow

/-- A shorter line leaves the end of the one before it. -/
example : write ⟨[], [], "100".toList⟩ "7\r".toList = ⟨[], [], "700".toList⟩ := by decide

end Terminal
