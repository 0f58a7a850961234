import TxRelay.Feed.Basic
import TxRelay.Log
import TxRelay.Text.Blank

/-!
# Lines

A feed of lines holds one event a line. The bytes come in chunks, cut anywhere; a line goes up to
and with a newline byte, and the bytes after the last newline are a line unless there are none. Lines
are numbered from 1. Blank lines count but hold no item, and the first line that is no
text ends the feed with an error.

Results:
* `join_chunks`: chunks joined together are the bytes they were cut from.
* `ofLines_nil`: a feed without lines has no items.
-/

namespace TxRelay.Feed.Lines

open TxRelay.Text

/-- The byte that ends a line. -/
def newline : UInt8 := 0x0a

/-- Takes a chunk: the lines it ends, the first of which begins with the bytes pending before it in
reverse order, and the bytes then pending. -/
def takeChunk (pending : List UInt8) : List UInt8 → List (List UInt8) × List UInt8
  | [] => ([], pending)
  | b :: rest =>
    if b = newline then
      let (lines, left) := takeChunk [] rest
      ((b :: pending).reverse :: lines, left)
    else takeChunk (b :: pending) rest

/-- The lines of chunks, with bytes pending before them in reverse order. -/
def ofChunksFrom (pending : List UInt8) : List (List UInt8) → List (List UInt8)
  | [] => if pending.isEmpty then [] else [pending.reverse]
  | chunk :: rest =>
    let (lines, left) := takeChunk pending chunk
    lines ++ ofChunksFrom left rest

/-- The lines of chunks (`lines`), their newlines still on them. -/
def ofChunks (chunks : List (List UInt8)) : List (List UInt8) :=
  ofChunksFrom [] chunks

/-- Cuts bytes into chunks of at most `size + 1`; `room` is what is left of the current one. -/
def cut (size : Nat) : Nat → List UInt8 → List (List UInt8)
  | _, [] => []
  | 0, b :: rest => [b] :: cut size size rest
  | room + 1, b :: rest =>
    match cut size room rest with
    | [] => [[b]]
    | chunk :: chunks => (b :: chunk) :: chunks

/-- Cuts bytes into chunks of a size; a size of zero counts as one. -/
def chunks (size : Nat) (bytes : List UInt8) : List (List UInt8) :=
  cut (size - 1) (size - 1) bytes

/-- How a line that is no text is reported. A file is read by `json_lines`, which has the detail, and
what is typed in by `blocking_lines`, which has not. -/
inductive Report where
  /-- The offending bytes and their place in the line. -/
  | detailed
  /-- Only that there are some. -/
  | plain
  deriving DecidableEq, Repr

/-- The text of a report. -/
def Report.message : Report → Utf8.Fault → String
  | detailed, fault => fault.message
  | plain, _ => "stream did not contain valid UTF-8"

/-- The text of a line, blanks at its ends removed, and with them the newline. -/
def lineText (line : List UInt8) : Except Utf8.Fault (List Char) :=
  (Utf8.decode line).map trim

/-- An item of a feed of lines, or the error that ends it, with the number of its line. -/
structure Numbered where
  line : Nat
  result : Except FeedError Item

/-- The items of lines of which the first has the given number (`events`). -/
def ofLines (report : Report) (number : Nat) : List (List UInt8) → List Numbered
  | [] => []
  | line :: rest =>
    match lineText line with
    | .error fault => [⟨number, .error (.io (report.message fault))⟩]
    | .ok [] => ofLines report (number + 1) rest
    | .ok text =>
      ⟨number, .ok (.ofText number (String.ofList text))⟩ :: ofLines report (number + 1) rest

/-- The items of bytes that are read in chunks of a size. -/
def read (report : Report) (size : Nat) (bytes : List UInt8) : List Numbered :=
  ofLines report 1 (ofChunks (chunks size bytes))

/-- The step of a feed that an item makes. -/
def Numbered.step (n : Numbered) : Step :=
  match n.result with
  | .ok item => .item item
  | .error e => .fail e

/-- What is logged with an item: an error that ends the feed. -/
def Numbered.complaint? (n : Numbered) : Option Log.Entry :=
  match n.result with
  | .ok _ => none
  | .error (.io reason) =>
    some ⟨.error, "chainfanout::source", "failed reading event input",
      [Log.count "line" n.line, Log.text "error" reason]⟩
  | .error _ => none

theorem join_cut (size room : Nat) (bytes : List UInt8) :
    (cut size room bytes).flatten = bytes := by
  induction bytes generalizing room with
  | nil => cases room <;> rfl
  | cons b rest ih =>
    cases room with
    | zero => simp [cut, ih]
    | succ room =>
      have h := ih room
      rw [cut]
      split
      next he => simp_all
      next chunk chunks he => simp_all

theorem join_chunks (size : Nat) (bytes : List UInt8) : (chunks size bytes).flatten = bytes :=
  join_cut _ _ _

theorem ofLines_nil (report : Report) (number : Nat) : ofLines report number [] = [] := rfl

end TxRelay.Feed.Lines
