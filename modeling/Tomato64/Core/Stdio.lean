import Tomato64.Core.Split
import Tomato64.Core.Text

/-!
# Reading lines from a stream

The bytes that a stream has yet to deliver are a list.  `fgets` takes a line
of at most `size - 1` bytes from it.  With a size of one it stores an empty
string and takes nothing.
-/

namespace Tomato64.Stdio

open List Split Text

def newline : Byte := 10

/-- The bytes up to the first newline, at most `limit` of them, and what
follows. -/
def takeLine : ℕ → Bytes → Bytes × Bytes
  | 0, input => ([], input)
  | _ + 1, [] => ([], [])
  | limit + 1, byte :: input =>
    if byte = newline then ([byte], input)
    else (byte :: (takeLine limit input).1, (takeLine limit input).2)

/-- `fgets(s, size, stream)`: the line and the bytes left, or nothing at the
end of the stream. -/
def fgets (size : ℤ) (input : Bytes) : Option (Bytes × Bytes) :=
  if size < 1 then none
  else if size = 1 then some ([], input)
  else if input = [] then none
  else some (takeLine (size - 1).toNat input)

theorem takeLine_append (limit : ℕ) (input : Bytes) :
    (takeLine limit input).1 ++ (takeLine limit input).2 = input := by
  induction limit generalizing input with
  | zero => rfl
  | succ limit ih =>
    cases input with
    | nil => rfl
    | cons byte input =>
      rw [takeLine]
      split
      · rfl
      · rw [cons_append, ih]

theorem length_takeLine_le (limit : ℕ) (input : Bytes) :
    (takeLine limit input).1.length ≤ limit := by
  induction limit generalizing input with
  | zero => simp [takeLine]
  | succ limit ih =>
    cases input with
    | nil => simp [takeLine]
    | cons byte input =>
      rw [takeLine]
      split
      · simp
      · simpa using ih input

variable {input : Bytes} {limit : ℕ}

theorem takeLine_ne_nil (hlimit : 0 < limit)
    (hinput : input ≠ []) : (takeLine limit input).1 ≠ [] := by
  obtain ⟨limit, rfl⟩ := Nat.exists_eq_add_of_lt hlimit
  cases input with
  | nil => exact absurd rfl hinput
  | cons byte input =>
    rw [Nat.zero_add, takeLine]
    split <;> simp

theorem takeLine_of_not_mem
    (hinput : newline ∉ input) (hlength : input.length ≤ limit) :
    takeLine limit input = (input, []) := by
  induction limit generalizing input with
  | zero =>
    rw [Nat.le_zero, length_eq_zero_iff] at hlength
    rw [hlength]
    rfl
  | succ limit ih =>
    cases input with
    | nil => rfl
    | cons byte input =>
      rw [mem_cons, not_or] at hinput
      rw [length_cons, Nat.add_le_add_iff_right] at hlength
      rw [takeLine, if_neg (Ne.symm hinput.1), ih hinput.2 hlength]

/-- A line is never read beyond its newline. -/
theorem takeLine_newline (limit : ℕ) (front back : Bytes) :
    ∃ left,
      front ++ [newline] =
        (takeLine limit (front ++ newline :: back)).1 ++ left ∧
      (takeLine limit (front ++ newline :: back)).2 = left ++ back := by
  induction limit generalizing front with
  | zero => exact ⟨front ++ [newline], rfl, by simp [takeLine]⟩
  | succ limit ih =>
    cases front with
    | nil => exact ⟨[], by simp [takeLine], by simp [takeLine]⟩
    | cons byte front =>
      simp only [cons_append, takeLine]
      split
      · exact ⟨front ++ [newline], rfl, by simp⟩
      · obtain ⟨left, hfront, hback⟩ := ih front
        exact ⟨left, by rw [hfront, cons_append], hback⟩

theorem takeLine_fits {line : Bytes} (hline : newline ∉ line)
    (hlength : line.length < limit) (back : Bytes) :
    takeLine limit (line ++ newline :: back) = (line ++ [newline], back) := by
  induction limit generalizing line with
  | zero => omega
  | succ limit ih =>
    cases line with
    | nil => simp [takeLine]
    | cons byte line =>
      rw [mem_cons, not_or] at hline
      rw [length_cons] at hlength
      rw [cons_append, takeLine, if_neg (Ne.symm hline.1),
        ih hline.2 (by omega)]
      rfl

theorem exists_takeLine_append {front : Bytes}
    (hnewline : newline ∉ front) (hlength : front.length ≤ limit)
    (back : Bytes) :
    ∃ more, (takeLine limit (front ++ back)).1 = front ++ more := by
  induction limit generalizing front with
  | zero =>
    obtain rfl := eq_nil_of_length_eq_zero (Nat.le_zero.mp hlength)
    exact ⟨_, rfl⟩
  | succ limit ih =>
    cases front with
    | nil => exact ⟨_, rfl⟩
    | cons byte front =>
      rw [mem_cons, not_or] at hnewline
      obtain ⟨more, hmore⟩ := ih hnewline.2 (Nat.le_of_succ_le_succ hlength)
      refine ⟨more, ?_⟩
      rw [cons_append, takeLine, if_neg (Ne.symm hnewline.1), hmore]
      rfl

theorem fgets_one (input : Bytes) : fgets 1 input = some ([], input) := by
  simp [fgets]

/-- A read with room for a byte takes a non-empty line that fits. -/
theorem fgets_eq_some {size : ℤ} (hsize : 1 < size) {line rest : Bytes}
    (hread : fgets size input = some (line, rest)) :
    input = line ++ rest ∧ line ≠ [] ∧ (line.length : ℤ) < size := by
  rw [fgets, if_neg (by omega), if_neg (by omega)] at hread
  split at hread
  · cases hread
  next hinput =>
  rw [Option.some.injEq] at hread
  have happend := takeLine_append (size - 1).toNat input
  have hlength := length_takeLine_le (size - 1).toNat input
  have hnonempty : (takeLine (size - 1).toNat input).1 ≠ [] :=
    takeLine_ne_nil (by omega) hinput
  rw [hread] at happend hlength hnonempty
  exact ⟨happend.symm, hnonempty, by simp only at hlength; omega⟩

theorem length_lt_of_fgets {size : ℤ} (hsize : 1 < size)
    {line rest : Bytes} (hread : fgets size input = some (line, rest)) :
    rest.length < input.length := by
  obtain ⟨rfl, hline, _⟩ := fgets_eq_some hsize hread
  have hpos := length_pos_iff.2 hline
  rw [length_append]
  omega

/-- The lines that a loop over `fgets` gets. -/
def lines {size : ℤ} (hsize : 1 < size) (input : Bytes) : List Bytes :=
  match _ : fgets size input with
  | none => []
  | some (line, rest) => line :: lines hsize rest
termination_by input.length
decreasing_by exact length_lt_of_fgets hsize ‹_›

section
variable {size : ℤ} (hsize : 1 < size)

theorem lines_nil : lines hsize [] = [] := by
  have hread : fgets size [] = none := by
    rw [fgets, if_neg (by omega), if_neg (by omega), if_pos rfl]
  rw [lines]
  split
  · rfl
  · next hsome =>
    rw [hread] at hsome
    cases hsome

theorem lines_of_ne_nil (hinput : input ≠ []) :
    lines hsize input = (takeLine (size - 1).toNat input).1 ::
        lines hsize (takeLine (size - 1).toNat input).2 := by
  have hread : fgets size input = some (takeLine (size - 1).toNat input) := by
    rw [fgets, if_neg (by omega), if_neg (by omega), if_neg hinput]
  rw [lines]
  split
  · next hnone =>
    rw [hread] at hnone
    cases hnone
  · next line rest hsome =>
    rw [hread, Option.some.injEq] at hsome
    rw [hsome]

/-- The lines behind a newline are read as they are. -/
theorem mem_lines_append {line back : Bytes}
    (hline : line ∈ lines hsize back) (front : Bytes) :
    line ∈ lines hsize (front ++ newline :: back) := by
  induction hlength : front.length using Nat.strongRecOn generalizing front with
  | ind length ih =>
    have hne : front ++ newline :: back ≠ [] := by simp
    obtain ⟨left, hfront, hrest⟩ := takeLine_newline (size - 1).toNat front back
    have hread : (takeLine (size - 1).toNat
        (front ++ newline :: back)).1 ≠ [] :=
      takeLine_ne_nil (by omega) hne
    rw [lines_of_ne_nil hsize hne, hrest]
    refine mem_cons_of_mem _ ?_
    rcases eq_nil_or_concat left with rfl | ⟨left, last, rfl⟩
    · exact hline
    -- the rest of this line, which a longer buffer would have taken
    rw [concat_eq_append, ← append_assoc] at hfront
    obtain ⟨hsplit, hlast⟩ := append_inj' hfront rfl
    rw [singleton_inj] at hlast
    rw [concat_eq_append, append_assoc, ← hlast, singleton_append]
    refine ih left.length ?_ left rfl
    have hpositive := length_pos_iff.2 hread
    have hcount := congrArg List.length hsplit
    rw [length_append] at hcount
    omega

/-- A file of lines that fit is read line by line. -/
theorem lines_flatMap {parts : List Bytes} (hparts : ∀ part ∈ parts,
      newline ∉ part ∧ (part.length : ℤ) + 1 < size) :
    lines hsize (parts.flatMap (· ++ [newline])) =
      parts.map (· ++ [newline]) := by
  induction parts with
  | nil => exact lines_nil hsize
  | cons first parts ih =>
    rw [forall_mem_cons] at hparts
    rw [flatMap_cons, append_assoc, singleton_append,
      lines_of_ne_nil hsize (by simp), takeLine_fits hparts.1.1 (by omega),
      ih hparts.2, map_cons]

/-- The beginning of a line of a file stands at the beginning of what some read
gets. -/
theorem exists_mem_lines_of_mem_splitOn {file front back : Bytes}
    (hline : front ++ back ∈ file.splitOn newline) (hfront : front ≠ [])
    (hlength : (front.length : ℤ) < size) :
    ∃ more, front ++ more ∈ lines hsize file := by
  have hstart (rest : Bytes) (hnewline : newline ∉ front ++ back) :
      ∃ more, front ++ more ∈ lines hsize (front ++ back ++ rest) := by
    have hne : front ++ back ++ rest ≠ [] := by simp [hfront]
    obtain ⟨more, hmore⟩ := exists_takeLine_append
      (fun hmem => hnewline (mem_append_left back hmem))
      (show front.length ≤ (size - 1).toNat by omega) (back ++ rest)
    refine ⟨more, ?_⟩
    rw [lines_of_ne_nil hsize hne, append_assoc, hmore]
    exact mem_cons_self
  induction hcount : file.length using Nat.strongRecOn generalizing file with
  | ind count ih =>
    cases hcut : splitFirst newline file with
    | none =>
      rw [splitFirst_eq_none_iff] at hcut
      rw [splitOn_eq_singleton hcut, mem_singleton] at hline
      subst hline
      have hwhole := hstart [] hcut
      rwa [append_nil] at hwhole
    | some cut =>
      obtain ⟨first, rest⟩ := cut
      have hless := length_of_splitFirst hcut
      obtain ⟨rfl, hfirst⟩ := splitFirst_eq_some_iff.mp hcut
      rw [splitOn_append_cons_self_of_not_mem hfirst, mem_cons] at hline
      rcases hline with rfl | hline
      · exact hstart (newline :: rest) hfirst
      · obtain ⟨more, hmore⟩ := ih rest.length (by omega) hline rfl
        exact ⟨more, mem_lines_append hsize hmore first⟩

end

end Tomato64.Stdio
