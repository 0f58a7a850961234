import Mathlib.Data.List.TakeWhile
import Mathlib.Tactic
import TxRelay.Proofs.Feed.Lines
import TxRelay.Proofs.Text.Utf8

/-!
# What bytes make

The lines of bytes are what stands between newlines. Each line that is a text makes one item, under
its number, unless the text is blank; the first that is no text makes an error and ends the feed.

Neither the chunks in which the bytes come nor a carriage return before a newline make a difference,
and bytes after a newline make what they make alone, under later numbers.

Results:
* `trimmed_trim`, `Trimmed.eq_trim`: trimming leaves what stands between the blanks at both ends, and
  nothing else does.
* `makes_ofLines`: the items of lines are those that the lines make, one after the other.
* `read_makes`: bytes make what their lines make.
-/

namespace TxRelay.Feed

open TxRelay.Text

/-- The same item when more lines come before it. -/
def Item.later (lines : ℕ) : Item → Item
  | event e => event e
  | undecodable line error => undecodable (line + lines) error

namespace Lines

/-! ## What lines make -/

/-- What stands between newlines, and after the last one unless nothing does. -/
def pieces (bytes : List UInt8) : List (List UInt8) :=
  let between := bytes.splitOn newline
  if between.getLast? = some [] then between.dropLast else between

/-- A text without the blanks at its ends. -/
structure Trimmed (text core : List Char) : Prop where
  between : ∃ before after, text = before ++ core ++ after ∧
    (∀ c ∈ before, isBlank c = true) ∧ ∀ c ∈ after, isBlank c = true
  first : ∀ c ∈ core.head?, isBlank c = false
  last : ∀ c ∈ core.getLast?, isBlank c = false

/-- What the lines make of which the first has the given number: the items, and what is logged. -/
inductive Makes : ℕ → List (List UInt8) → List Numbered → List Log.Entry → Prop
  | nothing {number} : Makes number [] [] []
  /-- A blank line makes no item, but it counts. -/
  | blank {number text lines items log} (core : Trimmed text [])
      (others : Makes (number + 1) lines items log) :
    Makes number (Utf8.encode text :: lines) items log
  | event {number text c core e lines items log} (trimmed : Trimmed text (c :: core))
      (read : Event.codec.read (String.ofList (c :: core)) = .ok e)
      (others : Makes (number + 1) lines items log) :
    Makes number (Utf8.encode text :: lines) (⟨number, .ok (.event e)⟩ :: items) log
  | undecodable {number text c core error lines items log} (trimmed : Trimmed text (c :: core))
      (failed : Event.codec.read (String.ofList (c :: core)) = .error error)
      (others : Makes (number + 1) lines items log) :
    Makes number (Utf8.encode text :: lines) (⟨number, .ok (.undecodable number error)⟩ :: items) log
  /-- A line that is no text makes an error, and the lines after it make nothing. -/
  | torn {number line lines reason} (torn : ∀ text, Utf8.encode text ≠ line) :
    Makes number (line :: lines) [⟨number, .error (.io reason)⟩]
      [⟨.error, "chainfanout::source", "failed reading event input",
        [Log.count "line" number, Log.text "error" reason]⟩]

/-! ## Trimming -/

theorem trimEnd_append {text blanks : List Char} (h : ∀ c ∈ blanks, isBlank c = true) :
    trimEnd (text ++ blanks) = trimEnd text := by
  induction text with
  | nil => exact (trimEnd_eq_nil_iff blanks).2 h
  | cons c text ih => rw [List.cons_append, trimEnd, trimEnd, ih]

theorem trim_append {text blanks : List Char} (h : ∀ c ∈ blanks, isBlank c = true) :
    trim (text ++ blanks) = trim text := by
  unfold trim
  rw [List.dropWhile_append]
  split_ifs with blank
  · rw [List.isEmpty_iff.1 blank, List.dropWhile_eq_nil_iff.2 h]
  · exact trimEnd_append h

/-- The end that is trimmed is blank, and what is left does not end with a blank. -/
theorem exists_trimEnd (text : List Char) :
    (∃ after, text = trimEnd text ++ after ∧ ∀ c ∈ after, isBlank c = true) ∧
      ∀ c ∈ (trimEnd text).getLast?, isBlank c = false := by
  induction text with
  | nil => simp [trimEnd]
  | cons c text ih =>
    obtain ⟨⟨after, cut, blank⟩, last⟩ := ih
    rw [trimEnd]
    split
    · next nothing =>
      rw [nothing, List.nil_append] at cut
      split_ifs with first
      · refine ⟨⟨c :: text, rfl, List.forall_mem_cons.2 ⟨first, ?_⟩⟩, by simp⟩
        rwa [cut]
      · refine ⟨⟨text, rfl, ?_⟩, by simpa using first⟩
        rwa [cut]
    · next kept =>
      refine ⟨⟨after, ?_, blank⟩, ?_⟩
      · rw [List.cons_append, ← cut]
      · rwa [List.getLast?_cons_of_ne_nil kept]

theorem trimmed_trim (text : List Char) : Trimmed text (trim text) := by
  unfold trim
  obtain ⟨⟨after, cut, blank⟩, last⟩ := exists_trimEnd (text.dropWhile isBlank)
  refine ⟨⟨text.takeWhile isBlank, after, ?_, ?_, blank⟩, ?_, last⟩
  · rw [List.append_assoc, ← cut, List.takeWhile_append_dropWhile]
  · intro c hc
    exact List.mem_takeWhile_imp hc
  · intro c hc
    have head : (text.dropWhile isBlank).head? = some c := by
      rw [cut, List.head?_append, Option.mem_def.1 hc]
      rfl
    obtain ⟨rest, left⟩ := List.head?_eq_some_iff.1 head
    have stops := List.head_dropWhile_not isBlank (l := text) (by simp [left])
    simpa [left] using stops

theorem trimEnd_eq_self {text : List Char} (last : ∀ c ∈ text.getLast?, isBlank c = false) :
    trimEnd text = text := by
  obtain ⟨⟨after, cut, blank⟩, -⟩ := exists_trimEnd text
  cases after using List.reverseRecOn with
  | nil => simpa using cut.symm
  | append_singleton after c =>
    rw [← List.append_assoc] at cut
    have solid := last c (by rw [cut]; simp)
    exact absurd (blank c (by simp)) (by simp [solid])

/-- There is one text without the blanks at the ends. -/
theorem Trimmed.eq_trim {text core : List Char} (trimmed : Trimmed text core) : core = trim text := by
  obtain ⟨⟨before, after, rfl, front, back⟩, first, last⟩ := trimmed
  have kept : core.dropWhile isBlank = core := by
    cases core with
    | nil => rfl
    | cons c core => simp [first c rfl]
  have dropped : before.dropWhile isBlank = [] := List.dropWhile_eq_nil_iff.2 front
  rw [trim_append back, trim, List.dropWhile_append, dropped, List.isEmpty_nil, if_pos rfl, kept,
    trimEnd_eq_self last]

/-! ## Lines with and without their ends -/

/-- A carriage return. -/
def carriageReturn : UInt8 := 0x0d

/-- Bytes with a carriage return before every newline. -/
def withReturns (bytes : List UInt8) : List UInt8 :=
  bytes.flatMap fun b => if b = newline then [carriageReturn, newline] else [b]

theorem pieces_newline (rest : List UInt8) : pieces (newline :: rest) = [] :: pieces rest := by
  obtain ⟨head, tail, some⟩ := List.exists_cons_of_ne_nil (List.splitOn_ne_nil newline rest)
  unfold pieces
  simp only [List.splitOn_cons_eq_if_modifyHead, beq_self_eq_true, if_true, some,
    List.getLast?_cons_cons]
  split_ifs <;> rfl

theorem pieces_cons {b : UInt8} (other : b ≠ newline) (rest : List UInt8) :
    pieces (b :: rest) = extend [b] (pieces rest) := by
  obtain ⟨head, tail, some⟩ := List.exists_cons_of_ne_nil (List.splitOn_ne_nil newline rest)
  unfold pieces
  have notEnd : (b == newline) = false := by simpa using other
  simp only [List.splitOn_cons_eq_if_modifyHead, notEnd, Bool.false_eq_true, if_false, some,
    List.modifyHead_cons]
  cases tail with
  | nil => cases head <;> simp [extend]
  | cons next tail =>
    simp only [List.getLast?_cons_cons]
    split_ifs <;> rfl

/-- Lines are related one by one if bytes put in front of them do not change that. -/
theorem forall₂_extend {related : List UInt8 → List UInt8 → Prop} {front : List UInt8}
    {lines others : List (List UInt8)} (same : related front front)
    (more : ∀ line other, related line other → related (front ++ line) (front ++ other))
    (each : List.Forall₂ related lines others) :
    List.Forall₂ related (extend front lines) (extend front others) := by
  cases each with
  | nil =>
    unfold extend
    split_ifs
    · exact .nil
    · exact .cons same .nil
  | cons first rest => exact .cons (more _ _ first) rest

/-- A line is what stands before its newline, and the newline, which the last one may lack. -/
theorem split_pieces (bytes : List UInt8) :
    List.Forall₂ (fun line piece => line = piece ∨ line = piece ++ [newline])
      (split bytes) (pieces bytes) := by
  induction bytes with
  | nil => exact .nil
  | cons b rest ih =>
    by_cases ends : b = newline
    · subst ends
      rw [pieces_newline, split, if_pos rfl]
      exact .cons (.inr rfl) ih
    · rw [pieces_cons ends, split, if_neg ends]
      refine forall₂_extend (.inl rfl) ?_ ih
      rintro line piece (rfl | rfl)
      · exact .inl rfl
      · exact .inr (List.append_assoc _ _ _).symm

/-- Carriage returns go in front of the newlines at the ends of lines. -/
theorem split_withReturns (bytes : List UInt8) :
    List.Forall₂ (fun line other => other = line ∨
        ∃ piece, line = piece ++ [newline] ∧ other = piece ++ [carriageReturn, newline])
      (split bytes) (split (withReturns bytes)) := by
  induction bytes with
  | nil => exact .nil
  | cons b rest ih =>
    have front : withReturns (b :: rest) =
        (if b = newline then [carriageReturn, newline] else [b]) ++ withReturns rest := rfl
    rw [front]
    by_cases ends : b = newline
    · subst ends
      have apart : carriageReturn ≠ newline := by decide
      rw [split, if_pos rfl, if_pos rfl, List.cons_append, List.singleton_append, split,
        if_neg apart, split, if_pos rfl]
      exact .cons (.inr ⟨[], rfl, rfl⟩) ih
    · rw [if_neg ends, List.singleton_append, split, split, if_neg ends, if_neg ends]
      refine forall₂_extend (.inl rfl) ?_ ih
      rintro line other (rfl | ⟨piece, rfl, rfl⟩)
      · exact .inl rfl
      · refine .inr ⟨[b] ++ piece, ?_, ?_⟩ <;> rw [List.append_assoc]

/-! ## What a line says -/

theorem lineText_encode (text : List Char) : lineText (Utf8.encode text) = .ok (trim text) := by
  rw [lineText, Utf8.decode_eq_ok_iff.2 rfl]
  rfl

/-- Blanks behind a line do not change what it says. -/
theorem lineText_encode_append {text : List Char} (blanks : List Char)
    (h : ∀ c ∈ blanks, isBlank c = true) :
    lineText (Utf8.encode text ++ Utf8.encode blanks) = .ok (trim text) := by
  rw [← Utf8.encode_append, lineText_encode, trim_append h]

theorem lineText_newline (text : List Char) :
    lineText (Utf8.encode text ++ [newline]) = .ok (trim text) :=
  lineText_encode_append ['\n'] (List.forall_mem_singleton.2 rfl)

theorem lineText_return (text : List Char) :
    lineText (Utf8.encode text ++ [carriageReturn, newline]) = .ok (trim text) :=
  lineText_encode_append ['\r', '\n']
    (List.forall_mem_cons.2 ⟨rfl, List.forall_mem_singleton.2 rfl⟩)

/-- A carriage return before its newline does not change what a line says. -/
theorem lineText_eq_return (piece : List UInt8) :
    lineText (piece ++ [carriageReturn, newline]) = lineText (piece ++ [newline]) := by
  by_cases isText : ∃ text, Utf8.encode text = piece
  · obtain ⟨text, rfl⟩ := isText
    rw [lineText_newline, lineText_return]
  · obtain ⟨fault, same⟩ := Utf8.decode_torn (not_exists.1 isText)
    unfold lineText
    rw [same carriageReturn [newline] (by decide), same newline [] (by decide)]

/-- What a line says is the text before its newline, or nothing if that is no text. -/
theorem lineText_cases {line piece : List UInt8} (h : line = piece ∨ line = piece ++ [newline]) :
    (∃ text, Utf8.encode text = piece ∧ lineText line = .ok (trim text)) ∨
      (∀ text, Utf8.encode text ≠ piece) ∧ ∃ fault, lineText line = .error fault := by
  by_cases isText : ∃ text, Utf8.encode text = piece
  · obtain ⟨text, rfl⟩ := isText
    refine .inl ⟨text, rfl, ?_⟩
    rcases h with rfl | rfl
    · exact lineText_encode text
    · exact lineText_newline text
  · refine .inr ⟨not_exists.1 isText, ?_⟩
    rcases h with rfl | rfl
    · cases decoded : Utf8.decode line with
      | ok text => exact absurd ⟨text, Utf8.decode_eq_ok_iff.1 decoded⟩ isText
      | error fault => exact ⟨fault, by rw [lineText, decoded]; rfl⟩
    · obtain ⟨fault, same⟩ := Utf8.decode_torn (not_exists.1 isText)
      exact ⟨fault, by rw [lineText, same newline [] (by decide)]; rfl⟩

/-! ## What lines make -/

variable (report : Report)

/-- The items of lines are those that the lines make, one after the other. -/
theorem makes_ofLines {lines pieces : List (List UInt8)}
    (each : List.Forall₂ (fun line piece => line = piece ∨ line = piece ++ [newline]) lines pieces)
    (number : ℕ) :
    Makes number pieces (ofLines report number lines)
      ((ofLines report number lines).filterMap Numbered.complaint?) := by
  induction each generalizing number with
  | nil => exact .nothing
  | @cons line piece lines pieces first _ ih =>
    rw [ofLines]
    rcases lineText_cases first with ⟨text, rfl, told⟩ | ⟨torn, fault, told⟩
    · have trimmed := trimmed_trim text
      rw [told]
      cases left : trim text with
      | nil =>
        rw [left] at trimmed
        exact .blank trimmed (ih (number + 1))
      | cons c core =>
        rw [left] at trimmed
        show Makes number _ (⟨number, .ok (Item.ofText number (String.ofList (c :: core)))⟩ :: _) _
        cases read : Event.codec.read (String.ofList (c :: core)) with
        | ok e =>
          have item : Item.ofText number (String.ofList (c :: core)) = .event e := by
            rw [Item.ofText, read]
          rw [item]
          exact .event trimmed read (ih (number + 1))
        | error error =>
          have item : Item.ofText number (String.ofList (c :: core)) = .undecodable number error := by
            rw [Item.ofText, read]
          rw [item]
          exact .undecodable trimmed read (ih (number + 1))
    · rw [told]
      exact .torn torn

/-! ## Lines one after the other -/

theorem isText_iff {line : List UInt8} : IsText line ↔ ∃ text, Utf8.encode text = line := by
  unfold IsText
  constructor
  · intro h
    cases decoded : Utf8.decode line with
    | ok text => exact ⟨text, Utf8.decode_eq_ok_iff.1 decoded⟩
    | error fault => rw [decoded] at h; cases h
  · rintro ⟨text, rfl⟩
    rw [Utf8.decode_eq_ok_iff.2 rfl]
    rfl

/-- An item with the number of a line that so many lines come before. -/
def Numbered.later (lines : ℕ) (n : Numbered) : Numbered :=
  ⟨n.line + lines, n.result.map (Item.later lines)⟩

theorem ofText_later (number lines : ℕ) (text : String) :
    Item.ofText (number + lines) text = (Item.ofText number text).later lines := by
  unfold Item.ofText
  split <;> rfl

/-- What lines make is the same under later numbers. -/
theorem ofLines_later (number before : ℕ) (lines : List (List UInt8)) :
    ofLines report (number + before) lines =
      (ofLines report number lines).map (Numbered.later before) := by
  induction lines generalizing number with
  | nil => rfl
  | cons line lines ih =>
    have next := ih (number + 1)
    rw [Nat.add_right_comm] at next
    rw [ofLines, ofLines]
    split
    · rfl
    · exact next
    · rw [List.map_cons, next, ofText_later]
      rfl

/-- What a text at the end of a line makes does not depend on the lines after it. -/
theorem ofLines_cons {line : List UInt8} (text : IsText line) (number : ℕ)
    (lines : List (List UInt8)) :
    ofLines report number (line :: lines) =
      ofLines report number [line] ++ ofLines report (number + 1) lines := by
  obtain ⟨chars, rfl⟩ := isText_iff.1 text
  simp only [ofLines, lineText_encode]
  cases trim chars <;> rfl

/-- Lines that are texts make their items, and the lines after them make theirs. -/
theorem ofLines_append {before : List (List UInt8)} (texts : ∀ line ∈ before, IsText line)
    (number : ℕ) (lines : List (List UInt8)) :
    ofLines report number (before ++ lines) =
      ofLines report number before ++ ofLines report (number + before.length) lines := by
  induction before generalizing number with
  | nil => rfl
  | cons line before ih =>
    obtain ⟨text, texts⟩ := List.forall_mem_cons.1 texts
    rw [List.cons_append, ofLines_cons report text, ofLines_cons report text _ before, ih texts,
      List.append_assoc, List.length_cons, Nat.add_right_comm, Nat.add_assoc]

/-- Lines of which each says the same make the same. -/
theorem ofLines_congr {lines others : List (List UInt8)}
    (same : List.Forall₂ (fun line other => lineText line = lineText other) lines others)
    (number : ℕ) : ofLines report number lines = ofLines report number others := by
  induction same generalizing number with
  | nil => rfl
  | cons first _ ih => rw [ofLines, ofLines, first, ih]

/-! ## The lines of bytes one after the other -/

theorem split_front {front : List UInt8} (inside : newline ∉ front) (rest : List UInt8) :
    split (front ++ rest) = extend front (split rest) := by
  induction front with
  | nil => rw [List.nil_append, extend_nil]
  | cons b front ih =>
    rw [List.mem_cons, not_or] at inside
    rw [List.cons_append, split, if_neg (Ne.symm inside.1), ih inside.2, extend_extend]
    rfl

/-- A newline after bytes ends their last line, or it is a line of its own. -/
theorem split_newline (bytes : List UInt8) :
    ∃ front last, split (bytes ++ [newline]) = front ++ [last ++ [newline]] ∧
      split bytes = front ++ if last = [] then [] else [last] := by
  induction bytes with
  | nil => exact ⟨[], [], rfl, rfl⟩
  | cons b bytes ih =>
    obtain ⟨front, last, ended, open'⟩ := ih
    rw [List.cons_append, split, split, ended, open']
    by_cases ends : b = newline
    · rw [if_pos ends, if_pos ends]
      exact ⟨[b] :: front, last, rfl, rfl⟩
    · rw [if_neg ends, if_neg ends]
      cases front with
      | nil =>
        refine ⟨[], b :: last, rfl, ?_⟩
        by_cases nothing : last = []
        · rw [nothing]
          rfl
        · rw [if_neg nothing, if_neg (List.cons_ne_nil b last)]
          rfl
      | cons line front => exact ⟨(b :: line) :: front, last, rfl, rfl⟩

/-- After a newline the lines are those of the bytes that follow. -/
theorem split_append (bytes rest : List UInt8) :
    split (bytes ++ newline :: rest) = split (bytes ++ [newline]) ++ split rest := by
  induction bytes with
  | nil => rfl
  | cons b bytes ih =>
    rw [List.cons_append, List.cons_append, split, split, ih]
    by_cases ends : b = newline
    · rw [if_pos ends, if_pos ends, List.cons_append]
    · rw [if_neg ends, if_neg ends]
      obtain ⟨front, last, ended, _⟩ := split_newline bytes
      rw [ended]
      cases front <;> rfl

/-- Only the newline has the byte of a newline in it. -/
theorem newline_not_mem {c : Char} (other : c ≠ '\n') : newline ∉ String.utf8EncodeChar c := by
  have code : c.val.toNat ≠ 10 := by
    intro h
    exact other (Char.ext (UInt32.toNat_inj.1 h))
  unfold String.utf8EncodeChar newline
  generalize c.val.toNat = v at code
  simp only
  split_ifs <;> simp [← UInt8.toNat_inj] <;> omega

/-- The lines of a text are texts. -/
theorem isText_split (text : List Char) : ∀ line ∈ split (Utf8.encode text), IsText line := by
  induction text with
  | nil => intro line hline; cases hline
  | cons c text ih =>
    show ∀ line ∈ split (String.utf8EncodeChar c ++ Utf8.encode text), IsText line
    by_cases ends : c = '\n'
    · subst ends
      have front : String.utf8EncodeChar '\n' = [newline] := by decide
      rw [front, List.singleton_append, split, if_pos rfl]
      exact List.forall_mem_cons.2 ⟨by decide, ih⟩
    · rw [split_front (newline_not_mem ends)]
      cases lines : split (Utf8.encode text) with
      | nil =>
        intro line hline
        have single : line = Utf8.encode [c] := by
          unfold extend at hline
          split_ifs at hline
          · cases hline
          · simpa [Utf8.encode] using hline
        exact isText_iff.2 ⟨[c], single.symm⟩
      | cons first others =>
        rw [lines] at ih
        obtain ⟨text, others⟩ := List.forall_mem_cons.1 ih
        refine List.forall_mem_cons.2 ⟨?_, others⟩
        obtain ⟨chars, rfl⟩ := isText_iff.1 text
        exact isText_iff.2 ⟨c :: chars, rfl⟩

/-- A newline after a text does not change what the lines of the text make. -/
theorem ofLines_split_newline (text : List Char) (number : ℕ) :
    ofLines report number (split (Utf8.encode text ++ [newline])) =
      ofLines report number (split (Utf8.encode text)) := by
  have texts := isText_split text
  obtain ⟨front, last, ended, open'⟩ := split_newline (Utf8.encode text)
  rw [open', List.forall_mem_append] at texts
  rw [ended, open', ofLines_append report texts.1, ofLines_append report texts.1]
  congr 1
  by_cases nothing : last = []
  · rw [nothing]
    rfl
  · rw [if_neg nothing] at texts ⊢
    obtain ⟨chars, rfl⟩ := isText_iff.1 (texts.2 last (List.mem_singleton_self last))
    refine ofLines_congr report (.cons ?_ .nil) _
    rw [lineText_newline, lineText_encode]

/-! ## What bytes make -/

/-- Bytes make what the lines between their newlines make, numbered from 1, whatever the size of the
chunks in which they come. What comes before a newline makes what it makes alone if it is a text, and
what comes after makes what it makes alone, under later numbers. Carriage returns before newlines
change nothing. -/
theorem read_makes (bytes : List UInt8) (size : ℕ) :
    Makes 1 (pieces bytes) (read report size bytes)
        ((read report size bytes).filterMap Numbered.complaint?) ∧
      (∀ size', read report size' bytes = read report size bytes) ∧
      (∀ text : List Char, read report size (Utf8.encode text ++ newline :: bytes) =
        read report size (Utf8.encode text) ++ (read report size bytes).map
          (Numbered.later (pieces (Utf8.encode text ++ [newline])).length)) ∧
      read report size (withReturns bytes) = read report size bytes := by
  simp only [read_eq, implies_true, true_and]
  refine ⟨makes_ofLines report (split_pieces bytes) 1, ?_, ?_⟩
  · intro text
    have texts : ∀ line ∈ split (Utf8.encode text ++ [newline]), IsText line := by
      have ended := isText_split (text ++ ['\n'])
      rwa [Utf8.encode_append] at ended
    rw [split_append, ofLines_append report texts, ofLines_split_newline, ofLines_later,
      (split_pieces _).length_eq]
  · refine (ofLines_congr report ?_ 1).symm
    refine (split_withReturns bytes).imp ?_
    rintro line other (rfl | ⟨piece, rfl, rfl⟩)
    · rfl
    · exact (lineText_eq_return piece).symm

end Lines

end TxRelay.Feed
