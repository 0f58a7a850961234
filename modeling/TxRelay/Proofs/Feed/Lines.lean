import Mathlib.Tactic
import TxRelay.Feed.Lines

/-!
# What lines make

However bytes are cut into chunks, their lines are those that a cut after every newline makes. A line
that is a text makes an item unless it is blank. The first line that is none makes an error, and what
comes after it makes nothing.

Results:
* `ofChunks_eq_split`: the lines of chunks depend only on the bytes of all of them.
* `results_ofLines`, `results_ofLines_of_bad`: what lines make if all of them are texts, and if one is
  none.
-/

namespace TxRelay.Feed.Lines

open TxRelay.Text

/-! ## Cutting bytes into lines -/

/-- Puts bytes in front of the first line. -/
def extend (front : List UInt8) : List (List UInt8) → List (List UInt8)
  | [] => if front.isEmpty then [] else [front]
  | line :: lines => (front ++ line) :: lines

/-- Cuts bytes after every newline. -/
def split : List UInt8 → List (List UInt8)
  | [] => []
  | b :: rest => if b = newline then [b] :: split rest else extend [b] (split rest)

theorem extend_nil (lines : List (List UInt8)) : extend [] lines = lines := by
  cases lines <;> rfl

theorem extend_extend (first second : List UInt8) (lines : List (List UInt8)) :
    extend first (extend second lines) = extend (first ++ second) lines := by
  cases lines with
  | nil => cases second <;> simp [extend]
  | cons line lines => simp [extend]

/-- A chunk ends the lines that its bytes end, and its last bytes go into the next line. -/
theorem takeChunk_append (pending chunk rest : List UInt8) :
    (takeChunk pending chunk).1 ++ extend (takeChunk pending chunk).2.reverse (split rest) =
      extend pending.reverse (split (chunk ++ rest)) := by
  induction chunk generalizing pending with
  | nil => rfl
  | cons b chunk ih =>
    rw [takeChunk, List.cons_append, split]
    split_ifs with ends
    · rw [List.cons_append, ih, List.reverse_nil, extend_nil, extend, List.reverse_cons]
    · rw [ih, List.reverse_cons, ← extend_extend]

theorem ofChunksFrom_eq (pending : List UInt8) (chunks : List (List UInt8)) :
    ofChunksFrom pending chunks = extend pending.reverse (split chunks.flatten) := by
  induction chunks generalizing pending with
  | nil => simp [ofChunksFrom, split, extend]
  | cons chunk chunks ih =>
    change (takeChunk pending chunk).1 ++ ofChunksFrom (takeChunk pending chunk).2 chunks = _
    rw [ih, takeChunk_append, List.flatten_cons]

/-- The lines of chunks depend only on the bytes of all of them. -/
theorem ofChunks_eq_split (chunks : List (List UInt8)) : ofChunks chunks = split chunks.flatten := by
  rw [ofChunks, ofChunksFrom_eq, List.reverse_nil, extend_nil]

theorem read_eq (report : Report) (size : ℕ) (bytes : List UInt8) :
    read report size bytes = ofLines report 1 (split bytes) := by
  rw [read, ofChunks_eq_split, join_chunks]

/-! ## From lines to items -/

/-- A line is a text. -/
def IsText (line : List UInt8) : Prop :=
  (Utf8.decode line).isOk = true

instance (line : List UInt8) : Decidable (IsText line) :=
  inferInstanceAs (Decidable (_ = _))

/-- The item that a line makes, unless it is blank or no text. -/
def item? (number : ℕ) (line : List UInt8) : Option Item :=
  match lineText line with
  | .ok (c :: text) => some (.ofText number (String.ofList (c :: text)))
  | _ => none

/-- The items that lines make, of which the first has the given number. -/
def itemsOf (number : ℕ) (lines : List (List UInt8)) : List Item :=
  (lines.zipIdx number).filterMap fun numbered => item? numbered.2 numbered.1

theorem itemsOf_cons (number : ℕ) (line : List UInt8) (lines : List (List UInt8)) :
    itemsOf number (line :: lines) = (item? number line).toList ++ itemsOf (number + 1) lines := by
  rw [itemsOf, itemsOf, List.zipIdx_cons, List.filterMap_cons]
  cases item? number line <;> rfl

section Results

variable (report : Report) (number : ℕ) {line : List UInt8} {before : List (List UInt8)}

/-- A line that is a text makes its item, if it has one, and reading goes on after it. -/
theorem results_ofLines_cons (text : IsText line) (lines : List (List UInt8)) :
    (ofLines report number (line :: lines)).map (·.result) =
      (item? number line).toList.map .ok ++
        (ofLines report (number + 1) lines).map (·.result) := by
  rw [IsText] at text
  cases decoded : Utf8.decode line with
  | error fault => rw [decoded] at text; cases text
  | ok chars =>
    have found : lineText line = .ok (trim chars) := by rw [lineText, decoded]; rfl
    rw [ofLines, item?, found]
    cases trim chars <;> rfl

theorem results_ofLines_append (texts : ∀ line ∈ before, IsText line)
    (lines : List (List UInt8)) :
    (ofLines report number (before ++ lines)).map (·.result) =
      (itemsOf number before).map .ok ++
        (ofLines report (number + before.length) lines).map (·.result) := by
  induction before generalizing number with
  | nil => rfl
  | cons line before ih =>
    obtain ⟨text, texts⟩ := List.forall_mem_cons.1 texts
    rw [List.cons_append, results_ofLines_cons report number text, ih _ texts, itemsOf_cons,
      List.map_append, List.append_assoc, List.length_cons, Nat.add_right_comm, Nat.add_assoc]

/-- Lines that are texts make their items. -/
theorem results_ofLines {lines : List (List UInt8)} (texts : ∀ line ∈ lines, IsText line) :
    (ofLines report number lines).map (·.result) = (itemsOf number lines).map .ok := by
  have results := results_ofLines_append report number texts []
  rwa [List.append_nil, ofLines_nil, List.map_nil, List.append_nil] at results

/-- The first line that is no text makes an error, and the lines after it make nothing. -/
theorem results_ofLines_of_bad (texts : ∀ line ∈ before, IsText line) (bad : ¬ IsText line)
    (after : List (List UInt8)) :
    ∃ reason, (ofLines report number (before ++ line :: after)).map (·.result) =
      (itemsOf number before).map .ok ++ [.error (.io reason)] := by
  rw [results_ofLines_append report number texts]
  cases decoded : Utf8.decode line with
  | ok chars => exact absurd (by rw [IsText, decoded]; rfl) bad
  | error fault =>
    have fails : lineText line = .error fault := by rw [lineText, decoded]; rfl
    exact ⟨report.message fault, by rw [ofLines, fails]; rfl⟩

end Results

/-- Either all lines are texts, or there is a first that is none. -/
theorem texts_or_bad (lines : List (List UInt8)) :
    (∀ line ∈ lines, IsText line) ∨ ∃ before bad after, lines = before ++ bad :: after ∧
      (∀ line ∈ before, IsText line) ∧ ¬ IsText bad := by
  cases found : lines.find? fun line => !decide (IsText line) with
  | none => exact .inl (by simpa using found)
  | some bad =>
    obtain ⟨torn, before, after, rfl, texts⟩ := List.find?_eq_some_iff_append.1 found
    exact .inr ⟨before, bad, after, rfl, by simpa using texts, by simpa using torn⟩

end TxRelay.Feed.Lines
