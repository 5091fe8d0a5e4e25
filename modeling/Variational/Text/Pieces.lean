/-!
# Pieces of a text

The pieces into which a separator divides a text. Joining the pieces with the
separator gives the text back, and no piece holds the separator.
-/

namespace Variational.Text

/-- The pieces between the occurrences of a separator. There is always at least one. -/
def pieces (separator : Char) : List Char → List (List Char)
  | [] => [[]]
  | c :: rest =>
    if c = separator then
      [] :: pieces separator rest
    else
      match pieces separator rest with
      | [] => [[c]]
      | piece :: others => (c :: piece) :: others

theorem pieces_ne_nil (separator : Char) (cs : List Char) : pieces separator cs ≠ [] := by
  cases cs with
  | nil => simp [pieces]
  | cons c rest =>
    rw [pieces]
    split
    · simp
    · split <;> simp

theorem intercalate_pieces (separator : Char) (cs : List Char) :
    [separator].intercalate (pieces separator cs) = cs := by
  induction cs with
  | nil => rfl
  | cons c rest ih =>
    rw [pieces]
    split
    · rename_i same
      cases parts : pieces separator rest with
      | nil => exact absurd parts (pieces_ne_nil separator rest)
      | cons piece others =>
        rw [parts] at ih
        rw [← ih, same]
        simp [List.intercalate, List.intersperse]
    · cases parts : pieces separator rest with
      | nil => exact absurd parts (pieces_ne_nil separator rest)
      | cons piece others =>
        rw [parts] at ih
        rw [← ih]
        cases others <;> simp [List.intercalate, List.intersperse]

/-- No piece holds the separator. -/
theorem not_mem_of_mem_pieces {separator : Char} {cs piece : List Char}
    (member : piece ∈ pieces separator cs) : separator ∉ piece := by
  induction cs generalizing piece with
  | nil =>
    simp only [pieces, List.mem_singleton] at member
    simp [member]
  | cons c rest ih =>
    rw [pieces] at member
    split at member
    · rcases List.mem_cons.1 member with rfl | later
      · simp
      · exact ih later
    · rename_i differs
      cases parts : pieces separator rest with
      | nil => exact absurd parts (pieces_ne_nil separator rest)
      | cons first others =>
        simp only [parts, List.mem_cons] at member ih
        rcases member with rfl | later
        · intro held
          rcases List.mem_cons.1 held with same | inFirst
          · exact differs same.symm
          · exact ih (Or.inl rfl) inFirst
        · exact ih (Or.inr later)

end Variational.Text
