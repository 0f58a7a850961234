import TxRelay.Text.Blank

/-!
# Endpoints

An address names an agent: a host, a host and a port, or a URL with an optional path. The scheme is
what stands before the first `://`, the path begins at the first slash after it, and the port follows
the last colon before the path. Blanks around the address do not count.

Results:
* `splitScheme?_append`: the parts around the first `://` are the text.
* `splitLast?_append`: the parts around the last colon are the text.
-/

namespace TxRelay

/-- How an agent is spoken to. -/
inductive Scheme where
  | http
  | https
  deriving DecidableEq, Repr

/-- The name of a scheme. -/
def Scheme.name : Scheme → String
  | http => "http"
  | https => "https"

/-- Where an agent listens (`AgentEndpoint`). -/
structure Endpoint where
  scheme : Scheme
  host : String
  port : UInt16
  path : String
  deriving DecidableEq, Repr

namespace Endpoint

/-- Why `parse` finds no endpoint in an address. -/
inductive Fault where
  | empty
  | scheme (name : String)
  | host
  | port
  deriving DecidableEq, Repr

/-- The text of a fault. -/
def Fault.message : Fault → String
  | empty => "empty address"
  | scheme name => s!"unsupported scheme '{name}'"
  | host => "missing host"
  | port => "invalid port"

/-- The port of an address that names none (`DEFAULT_AGENT_PORT`). -/
def defaultPort : UInt16 := 50051

/-- The URL of an endpoint (`url`), its port always written. -/
def url (e : Endpoint) : String :=
  s!"{e.scheme.name}://{e.host}:{e.port.toNat}{e.path}"

/-- An endpoint is shown as its URL. -/
instance : ToString Endpoint := ⟨url⟩

/-- Splits a text around the first `://`. -/
def splitScheme? : List Char → Option (List Char × List Char)
  | [] => none
  | c :: rest =>
    match c, rest with
    | ':', '/' :: '/' :: after => some ([], after)
    | _, _ => (splitScheme? rest).map fun (before, after) => (c :: before, after)

/-- Splits a text around its last colon. -/
def splitLast? : List Char → Option (List Char × List Char)
  | [] => none
  | c :: rest =>
    match splitLast? rest with
    | some (before, after) => some (c :: before, after)
    | none => if c = ':' then some ([], rest) else none

/-- The scheme of an address and the rest of it, the first that `parse` looks for. -/
def readScheme (address : List Char) : Except Fault (Scheme × List Char) :=
  match splitScheme? address with
  | none => .ok (.http, address)
  | some (name, rest) =>
    if name = ['h', 't', 't', 'p'] then .ok (.http, rest)
    else if name = ['h', 't', 't', 'p', 's'] then .ok (.https, rest)
    else .error (.scheme (String.ofList name))

/-- A port in decimal digits, possibly after a plus sign. -/
def port? (text : List Char) : Option UInt16 :=
  let digits :=
    match text with
    | '+' :: rest => rest
    | rest => rest
  if digits.isEmpty || !digits.all Char.isDigit then none
  else
    let n := Nat.ofDigitChars 10 digits 0
    if n < Nat.pow 2 16 then some (UInt16.ofNat n) else none

/-- The host and the port of an authority: `parse` cuts it at its last colon. -/
def readAuthority (authority : List Char) : Except Fault (List Char × UInt16) := do
  if authority.isEmpty then throw .host
  let (host, port) ←
    match splitLast? authority with
    | none => pure (authority, defaultPort)
    | some (host, digits) =>
      match port? digits with
      | some port => pure (host, port)
      | none => throw .port
  if host.isEmpty then throw .host
  return (host, port)

/-- Reads an address that has no blanks around it. -/
def ofChars (address : List Char) : Except Fault Endpoint := do
  if address.isEmpty then throw .empty
  let (scheme, rest) ← readScheme address
  let (host, port) ← readAuthority (rest.takeWhile (· ≠ '/'))
  return ⟨scheme, String.ofList host, port, String.ofList (rest.dropWhile (· ≠ '/'))⟩

/-- Reads an address (`parse`). -/
def parse (address : String) : Except Fault Endpoint :=
  ofChars (Text.trim address.toList)

theorem splitScheme?_append {text before after : List Char}
    (h : splitScheme? text = some (before, after)) : text = before ++ ':' :: '/' :: '/' :: after := by
  fun_induction splitScheme? text generalizing before with
  | case1 => cases h
  | case2 => simp_all
  | case3 c rest _ ih =>
    obtain ⟨⟨b, a⟩, hr, he⟩ := Option.map_eq_some_iff.1 h
    cases he
    simp [ih hr]

theorem splitLast?_append {text before after : List Char}
    (h : splitLast? text = some (before, after)) : text = before ++ ':' :: after := by
  fun_induction splitLast? text generalizing before after with
  | case1 => cases h
  | case2 c rest b a hr ih =>
    cases h
    simp [ih hr]
  | case3 rest hr ih => simp_all
  | case4 => cases h

end Endpoint

end TxRelay
