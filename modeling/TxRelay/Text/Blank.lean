/-!
# White space

The characters that count as blank are those of Unicode's property White_Space. Trimming removes
them at both ends of a text and nowhere else.

Results:
* `isBlank_of_isWhitespace`: every character that is blank in ASCII is blank here.
* `trim_eq_nil_iff`: nothing is left exactly when every character is blank.
-/

namespace TxRelay.Text

/-- The ranges of Unicode's property White_Space, both ends included. -/
def blankRanges : List (Nat × Nat) :=
  [(0x09, 0x0d), (0x20, 0x20), (0x85, 0x85), (0xa0, 0xa0), (0x1680, 0x1680), (0x2000, 0x200a),
   (0x2028, 0x2029), (0x202f, 0x202f), (0x205f, 0x205f), (0x3000, 0x3000)]

/-- Membership in a list of ranges, both ends included. -/
def inRanges (ranges : List (Nat × Nat)) (code : Nat) : Bool :=
  ranges.any fun range => range.1 ≤ code && code ≤ range.2

/-- A blank character is one with the property White_Space. -/
def isBlank (c : Char) : Bool :=
  inRanges blankRanges c.toNat

/-- Removes the blank characters at the end of a text. -/
def trimEnd : List Char → List Char
  | [] => []
  | c :: rest =>
    match trimEnd rest with
    | [] => if isBlank c then [] else [c]
    | kept => c :: kept

/-- Removes the blank characters at both ends of a text (`trim`). -/
def trim (text : List Char) : List Char :=
  trimEnd (text.dropWhile isBlank)

theorem isBlank_of_isWhitespace (c : Char) (h : c.isWhitespace = true) : isBlank c = true := by
  simp only [Char.isWhitespace, Bool.or_eq_true, decide_eq_true_eq] at h
  rcases h with ((h | h) | h) | h <;> subst h <;> decide

theorem trimEnd_eq_nil_iff (text : List Char) :
    trimEnd text = [] ↔ ∀ c ∈ text, isBlank c = true := by
  induction text with
  | nil => simp [trimEnd]
  | cons c rest ih =>
    rw [trimEnd]
    split
    next h => by_cases hc : isBlank c = true <;> simp_all
    next h => simp_all

theorem trim_eq_nil_iff (text : List Char) :
    trim text = [] ↔ ∀ c ∈ text, isBlank c = true := by
  rw [trim, trimEnd_eq_nil_iff]
  constructor
  · induction text with
    | nil => simp
    | cons c rest ih =>
      intro h
      rw [List.dropWhile_cons] at h
      by_cases hc : isBlank c = true
      · rw [if_pos hc] at h
        simpa [hc] using ih h
      · exact absurd (by simpa [hc] using h c) hc
  · exact fun h c hc => h c ((List.dropWhile_sublist isBlank).subset hc)

end TxRelay.Text
