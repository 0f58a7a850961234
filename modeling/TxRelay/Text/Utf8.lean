/-!
# UTF-8

Bytes are read one at a time. Between two characters nothing is pending; inside a character the
reader remembers the bits collected, how many bytes are still due, and which bytes the encoding
allows next. A byte that is not allowed ends the sequence before it: that sequence is invalid, and
its length is the number of bytes that could have begun a character.

Results:
* `encode_append`: the encoding of a text is that of its parts, one after the other.
* `decode_ascii`: bytes below 128 stand for themselves.
-/

namespace TxRelay.Text.Utf8

/-- The bytes of a text. -/
def encode (text : List Char) : List UInt8 :=
  text.flatMap String.utf8EncodeChar

/-- Why bytes are no text, with the index at which the offending sequence begins. -/
inductive Fault where
  /-- The bytes end inside a character. -/
  | incomplete (index : Nat)
  /-- The `length` bytes at `index` begin no character. -/
  | invalid (length index : Nat)
  deriving DecidableEq, Repr

/-- The text of a fault. -/
def Fault.message : Fault → String
  | .incomplete index => s!"incomplete utf-8 byte sequence from index {index}"
  | .invalid length index => s!"invalid utf-8 sequence of {length} bytes from index {index}"

/-- A character of which only the first bytes have been read. -/
structure Pending where
  /-- The bits collected so far. -/
  bits : Nat
  /-- The bytes still due. -/
  due : Nat
  /-- The least byte allowed next. -/
  low : Nat
  /-- The greatest byte allowed next. -/
  high : Nat
  /-- The bytes read so far. -/
  seen : Nat
  deriving DecidableEq, Repr

/-- What a byte means at the start of a character. -/
inductive Lead where
  /-- A character of one byte. -/
  | single (c : Char)
  /-- The first byte of a longer character. -/
  | more (p : Pending)
  /-- A byte that begins no character. -/
  | bad
  deriving DecidableEq, Repr

/-- Reads the first byte of a character. The ranges leave out overlong forms, surrogates and
numbers above U+10FFFF. -/
def lead (b : UInt8) : Lead :=
  let n := b.toNat
  if n < 0x80 then .single (Char.ofNat n)
  else if n < 0xc2 then .bad
  else if n < 0xe0 then .more ⟨n - 0xc0, 1, 0x80, 0xbf, 1⟩
  else if n = 0xe0 then .more ⟨0, 2, 0xa0, 0xbf, 1⟩
  else if n = 0xed then .more ⟨0xd, 2, 0x80, 0x9f, 1⟩
  else if n < 0xf0 then .more ⟨n - 0xe0, 2, 0x80, 0xbf, 1⟩
  else if n = 0xf0 then .more ⟨0, 3, 0x90, 0xbf, 1⟩
  else if n < 0xf4 then .more ⟨n - 0xf0, 3, 0x80, 0xbf, 1⟩
  else if n = 0xf4 then .more ⟨4, 3, 0x80, 0x8f, 1⟩
  else .bad

/-- Whether a byte may continue a pending character. -/
def Pending.allows (p : Pending) (b : UInt8) : Bool :=
  p.low ≤ b.toNat && b.toNat ≤ p.high

/-- A pending character with one more byte: the whole character, or what is then pending. -/
def Pending.push (p : Pending) (b : UInt8) : Char ⊕ Pending :=
  let bits := p.bits * 64 + (b.toNat - 0x80)
  if p.due ≤ 1 then .inl (Char.ofNat bits)
  else .inr ⟨bits, p.due - 1, 0x80, 0xbf, p.seen + 1⟩

/-- Decodes bytes with a character possibly pending; `index` is where the current character
begins. -/
def decodeFrom (index : Nat) : Option Pending → List UInt8 → Except Fault (List Char)
  | none, [] => .ok []
  | some _, [] => .error (.incomplete index)
  | none, b :: rest =>
    match lead b with
    | .single c => (decodeFrom (index + 1) none rest).map (c :: ·)
    | .more p => decodeFrom index (some p) rest
    | .bad => .error (.invalid 1 index)
  | some p, b :: rest =>
    if p.allows b then
      match p.push b with
      | .inl c => (decodeFrom (index + p.seen + 1) none rest).map (c :: ·)
      | .inr q => decodeFrom index (some q) rest
    else .error (.invalid p.seen index)

/-- The text of which the bytes are the encoding. -/
def decode (bytes : List UInt8) : Except Fault (List Char) :=
  decodeFrom 0 none bytes

/-- The character that stands for bytes that are no text. -/
def replacement : Char := '\ufffd'

/-- What a byte at the start of a character gives: characters, and what is then pending. -/
def startLossy (b : UInt8) : List Char × Option Pending :=
  match lead b with
  | .single c => ([c], none)
  | .more p => ([], some p)
  | .bad => ([replacement], none)

/-- What any byte gives. A byte that the pending character does not allow replaces that character
and is then read as a first byte. -/
def stepLossy (pending : Option Pending) (b : UInt8) : List Char × Option Pending :=
  match pending with
  | none => startLossy b
  | some p =>
    if p.allows b then
      match p.push b with
      | .inl c => ([c], none)
      | .inr q => ([], some q)
    else (replacement :: (startLossy b).1, (startLossy b).2)

/-- Decodes bytes with a character possibly pending, a replacement character for each invalid
sequence. -/
def decodeLossyFrom : Option Pending → List UInt8 → List Char
  | none, [] => []
  | some _, [] => [replacement]
  | pending, b :: rest =>
    (stepLossy pending b).1 ++ decodeLossyFrom (stepLossy pending b).2 rest

/-- Decodes any bytes, a replacement character for each invalid sequence. -/
def decodeLossy (bytes : List UInt8) : List Char :=
  decodeLossyFrom none bytes

theorem encode_append (a b : List Char) : encode (a ++ b) = encode a ++ encode b := by
  simp [encode]

theorem decodeFrom_ascii (index : Nat) (bytes : List UInt8) (h : ∀ b ∈ bytes, b.toNat < 0x80) :
    decodeFrom index none bytes = .ok (bytes.map fun b => Char.ofNat b.toNat) := by
  induction bytes generalizing index with
  | nil => rfl
  | cons b rest ih =>
    have hb : lead b = .single (Char.ofNat b.toNat) := by simp [lead, h b List.mem_cons_self]
    rw [decodeFrom, hb, ih (index + 1) fun c hc => h c (List.mem_cons_of_mem b hc)]
    rfl

theorem decode_ascii (bytes : List UInt8) (h : ∀ b ∈ bytes, b.toNat < 0x80) :
    decode bytes = .ok (bytes.map fun b => Char.ofNat b.toNat) :=
  decodeFrom_ascii 0 bytes h

end TxRelay.Text.Utf8
