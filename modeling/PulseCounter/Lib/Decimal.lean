import Mathlib.Data.List.Basic

/-!
# Decimal text

Integers are written as C's `%d` writes them and padded on the left as a field width does. A line of
such fields, each followed by a blank, splits at white space into the numbers that were written,
whatever the widths (`words_fields_append`): a field is never empty and the blank after it is never lost,
so that fields that outgrow their width still do not run together. Reading a literal back is
`readInt`, which takes an optional sign and at least one digit.
-/

namespace Decimal

/-- An integer as `%d` writes it. -/
def showInt (i : Int) : List Char :=
  if i < 0 then '-' :: Nat.toDigits 10 i.natAbs else Nat.toDigits 10 i.natAbs

/-- Blanks on the left up to a field width. -/
def padLeft (width : Nat) (text : List Char) : List Char :=
  List.replicate (width - text.length) ' ' ++ text

/-- A field of a line: the number in at least `width` characters, then a blank. -/
def field (width : Nat) (i : Int) : List Char := padLeft width (showInt i) ++ [' ']

/-- The parts of a text between white space. -/
def words (text : List Char) : List (List Char) :=
  (text.splitOnP Char.isWhitespace).filter (· ≠ [])

/-- A nonempty string of digits. -/
def readNat (text : List Char) : Option Nat :=
  if text ≠ [] ∧ text.all Char.isDigit then some (Nat.ofDigitChars 10 text 0) else none

/-- An optional sign and a nonempty string of digits. -/
def readInt : List Char → Option Int
  | '-' :: digits => (readNat digits).map fun n : Nat => -(n : Int)
  | '+' :: digits => (readNat digits).map fun n : Nat => (n : Int)
  | digits => (readNat digits).map fun n : Nat => (n : Int)

/-! ## Reading back -/

theorem readNat_toDigits (n : Nat) : readNat (Nat.toDigits 10 n) = some n := by
  have hdigits : (Nat.toDigits 10 n).all Char.isDigit = true := by
    rw [List.all_eq_true]
    intro c hc
    exact Nat.isDigit_of_mem_toDigits (by omega) (by omega) hc
  unfold readNat
  rw [if_pos ⟨Nat.toDigits_ne_nil, hdigits⟩, Nat.ofDigitChars_ten_toDigits]

theorem head_toDigits (n : Nat) : ∃ c cs, Nat.toDigits 10 n = c :: cs ∧ c.isDigit = true := by
  cases h : Nat.toDigits 10 n with
  | nil => exact absurd h Nat.toDigits_ne_nil
  | cons c cs =>
    refine ⟨c, cs, rfl, ?_⟩
    apply Nat.isDigit_of_mem_toDigits (b := 10) (n := n) (by omega) (by omega)
    rw [h]
    exact List.mem_cons_self

theorem readInt_of_digit {c : Char} {cs : List Char} (h : c.isDigit = true) :
    readInt (c :: cs) = (readNat (c :: cs)).map fun n : Nat => (n : Int) := by
  unfold readInt
  split
  · next heq =>
    injection heq with hc _
    subst hc
    exact absurd h (by decide)
  · next heq =>
    injection heq with hc _
    subst hc
    exact absurd h (by decide)
  · rfl

/-- Every written number reads back. -/
theorem readInt_showInt (i : Int) : readInt (showInt i) = some i := by
  unfold showInt
  split
  · next hneg =>
    change (readNat (Nat.toDigits 10 i.natAbs)).map (fun n : Nat => -(n : Int)) = some i
    rw [readNat_toDigits, Option.map_some]
    congr 1
    omega
  · next hpos =>
    obtain ⟨c, cs, hdigits, hc⟩ := head_toDigits i.natAbs
    rw [hdigits, readInt_of_digit hc, ← hdigits, readNat_toDigits, Option.map_some]
    congr 1
    omega

/-! ## Splitting a line -/

theorem showInt_ne_nil (i : Int) : showInt i ≠ [] := by
  unfold showInt
  split
  · exact List.cons_ne_nil _ _
  · exact Nat.toDigits_ne_nil

theorem not_isWhitespace_of_isDigit {c : Char} (h : c.isDigit = true) : c.isWhitespace = false := by
  by_contra hw
  rw [Bool.not_eq_false] at hw
  simp only [Char.isWhitespace, Bool.or_eq_true, decide_eq_true_eq] at hw
  rcases hw with ((rfl | rfl) | rfl) | rfl <;> exact absurd h (by decide)

/-- A written number consists of digits, but for its sign. -/
theorem mem_showInt {i : Int} {c : Char} (hc : c ∈ showInt i) : c = '-' ∨ c.isDigit = true := by
  have hdigits : c ∈ Nat.toDigits 10 i.natAbs → c.isDigit = true := fun h =>
    Nat.isDigit_of_mem_toDigits (by omega) (by omega) h
  unfold showInt at hc
  split at hc
  · exact (List.mem_cons.mp hc).imp_right hdigits
  · exact Or.inr (hdigits hc)

/-- A larger number does not take a narrower field. -/
theorem length_field_le (width : Nat) {m n : Nat} (h : m ≤ n) :
    (field width m).length ≤ (field width n).length := by
  have hshow : ∀ k : Nat, showInt k = Nat.toDigits 10 k := fun k => if_neg (by omega)
  have hdigits : (Nat.toDigits 10 m).length ≤ (Nat.toDigits 10 n).length := by
    rw [Nat.length_toDigits_le_iff (by omega) Nat.length_toDigits_pos]
    refine Nat.lt_of_le_of_lt h ?_
    exact (Nat.length_toDigits_le_iff (by omega) Nat.length_toDigits_pos).mp (Nat.le_refl _)
  simp only [field, padLeft, hshow, List.length_append, List.length_replicate]
  omega

/-- A written number contains no white space. -/
theorem not_isWhitespace_of_mem_showInt {i : Int} {c : Char} (hc : c ∈ showInt i) :
    c.isWhitespace = false := by
  rcases mem_showInt hc with rfl | hdigit
  · rfl
  · exact not_isWhitespace_of_isDigit hdigit

theorem words_blank_cons (text : List Char) : words (' ' :: text) = words text := by
  unfold words
  rw [List.splitOnP_cons_eq_if_modifyHead, if_pos (by decide)]
  rfl

theorem words_replicate_append (n : Nat) (text : List Char) :
    words (List.replicate n ' ' ++ text) = words text := by
  induction n with
  | zero => rfl
  | succ n ih => rw [List.replicate_succ, List.cons_append, words_blank_cons, ih]

theorem words_append_blank {word : List Char} (hne : word ≠ [])
    (hword : ∀ c ∈ word, c.isWhitespace = false) (text : List Char) :
    words (word ++ ' ' :: text) = word :: words text := by
  unfold words
  rw [List.splitOnP_append_cons_of_forall_mem hword ' ' (by decide), List.filter_cons_of_pos]
  simpa using hne

/-- **A line of fields** splits into the numbers written in it, whatever comes after it. -/
theorem words_fields_append (width : Nat) (l : List Int) (text : List Char) :
    words (l.flatMap (field width) ++ text) = l.map showInt ++ words text := by
  induction l with
  | nil => rfl
  | cons i l ih =>
    have hline : (i :: l).flatMap (field width) ++ text =
        List.replicate (width - (showInt i).length) ' ' ++
          (showInt i ++ ' ' :: (l.flatMap (field width) ++ text)) := by
      simp [field, padLeft]
    rw [hline, words_replicate_append, List.map_cons, List.cons_append, ← ih]
    exact words_append_blank (showInt_ne_nil i) (fun c hc => not_isWhitespace_of_mem_showInt hc) _

/-- The numbers of a line of fields. -/
def readFields (text : List Char) : List (Option Int) := (words text).map readInt

theorem readFields_fields_append (width : Nat) (l : List Int) {text : List Char}
    (h : words text = []) : readFields (l.flatMap (field width) ++ text) = l.map some := by
  unfold readFields
  rw [words_fields_append, h, List.append_nil, List.map_map]
  exact List.map_congr_left fun i _ => readInt_showInt i

/-! ## Lines -/

def lines (text : List Char) : List (List Char) := text.splitOn '\n'

theorem lines_append_newline {line : List Char} (h : '\n' ∉ line) (text : List Char) :
    lines (line ++ '\n' :: text) = line :: lines text :=
  List.splitOn_append_cons_self_of_not_mem h text

theorem lines_of_not_mem {line : List Char} (h : '\n' ∉ line) : lines line = [line] :=
  List.splitOn_eq_singleton h

/-- A line of fields consists of digits, signs and blanks. -/
theorem mem_fields {width : Nat} {l : List Int} {c : Char} (h : c ∈ l.flatMap (field width)) :
    c = ' ' ∨ c = '-' ∨ c.isDigit = true := by
  obtain ⟨i, -, hi⟩ := List.mem_flatMap.mp h
  simp only [field, padLeft, List.mem_append, List.mem_replicate, List.mem_singleton] at hi
  rcases hi with (⟨-, hblank⟩ | hshow) | hblank
  · exact .inl hblank
  · exact .inr (mem_showInt hshow)
  · exact .inl hblank

theorem newline_not_mem_fields (width : Nat) (l : List Int) : '\n' ∉ l.flatMap (field width) := by
  intro h
  obtain ⟨i, -, hi⟩ := List.mem_flatMap.mp h
  simp only [field, padLeft, List.mem_append, List.mem_replicate, List.mem_singleton] at hi
  rcases hi with (⟨-, hblank⟩ | hdigit) | hblank
  · exact absurd hblank (by decide)
  · exact absurd (not_isWhitespace_of_mem_showInt hdigit) (by decide)
  · exact absurd hblank (by decide)

/-- The numbers in line `i` of a text, the first line being line 0. -/
def columns (text : List Char) (i : Nat) : Option (List (Option Int)) :=
  (lines text)[i]?.map readFields

end Decimal
