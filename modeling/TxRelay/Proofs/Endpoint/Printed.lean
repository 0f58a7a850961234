import TxRelay.Command.Run
import TxRelay.Proofs.Endpoint.Grammar

/-!
# Printed addresses

The URL of an endpoint is an address of it: in front of the host stands a scheme without a colon,
behind it a port without a colon, and neither the host nor the port has a slash. The separators are
found where they were put, whatever else the host and the path contain. So a URL says which endpoint
it is of, and settings in which every address is replaced by the URL of its endpoint make the same
run.

Results:
* `exists_parse_iff`: which endpoints have an address.
* `Sound.parse_url`: the URL of such an endpoint is one.
* `printed_address`: an address and the URL of its endpoint are the same to the relay.
-/

namespace TxRelay.Endpoint

open TxRelay.Except TxRelay.Text
open Feed.Lines (Trimmed trimmed_trim)

/-! ## Ports in digits -/

section Digits

variable {c : Char} {n : ℕ}

theorem isDigit_of_mem_toDigits (mem : c ∈ Nat.toDigits 10 n) : c.isDigit = true :=
  Nat.isDigit_of_mem_toDigits (by decide) (by decide) mem

theorem notMem_toDigits (other : c.isDigit = false) : c ∉ Nat.toDigits 10 n :=
  fun mem => Bool.false_ne_true (other.symm.trans (isDigit_of_mem_toDigits mem))

theorem isBlank_of_isDigit (h : c.isDigit = true) : isBlank c = false := by
  simp only [Char.isDigit, Bool.and_eq_true, decide_eq_true_eq] at h
  have low : 48 ≤ c.toNat := UInt32.le_iff_toNat_le.1 h.1
  have high : c.toNat ≤ 57 := UInt32.le_iff_toNat_le.1 h.2
  simp [isBlank, inRanges, blankRanges]
  omega

theorem portText_toDigits (port : UInt16) : PortText (Nat.toDigits 10 port.toNat) port := by
  have digit : ∀ c ∈ Nat.toDigits 10 port.toNat, c.isDigit = true :=
    fun _ mem => isDigit_of_mem_toDigits mem
  refine ⟨_, .inl rfl, Nat.toDigits_ne_nil, digit, ?_⟩
  rw [← Conversion.ofDigitChars_eq_denoted digit, Nat.ofDigitChars_ten_toDigits]

end Digits

/-! ## Endpoints that have an address -/

/-- The parts of an endpoint are such as an address can name. -/
structure Sound (e : Endpoint) : Prop where
  named : e.host.toList ≠ []
  host : '/' ∉ e.host.toList
  path : ∀ c ∈ e.path.toList.head?, c = '/'
  ends : ∀ c ∈ e.path.toList.getLast?, isBlank c = false

section Sound

variable {text authority host rest path before after : List Char} {s : Scheme} {port : UInt16}
  {e : Endpoint} {a : String}

theorem HostPort.filled (h : HostPort authority host port) : host ≠ [] := by
  cases h with
  | bare named plain => exact named
  | ported cut named written => exact named

theorem HostPort.subset (h : HostPort authority host port) : host ⊆ authority := by
  cases h with
  | bare named plain => exact List.Subset.refl _
  | ported cut named written => exact cut.cut ▸ List.subset_append_left _ _

theorem Opens.suffix (h : Opens text s rest) : rest <:+ text := by
  cases h with
  | bare unmarked => exact List.suffix_rfl
  | named cut => exact ⟨_, cut.cut.symm⟩

theorem sound_of_parse (h : parse a = .ok e) : Sound e := by
  obtain ⟨rest, authority, opens, cut, named⟩ := ofChars_eq_ok_iff.1 h
  refine ⟨named.filled, fun mem => cut.authority (named.subset mem), cut.path, fun c last => ?_⟩
  obtain ⟨front, ended⟩ : e.path.toList <:+ trim a.toList := .trans ⟨_, cut.cut.symm⟩ opens.suffix
  refine (trimmed_trim a.toList).last c ?_
  rw [← ended]
  exact List.mem_getLast?_append_of_mem_getLast? last

/-- A text without a colon in front of `://` is in front of the first one. -/
theorem schemeCut_of_notMem (plain : ':' ∉ before) :
    SchemeCut (before ++ mark ++ after) before after := by
  refine ⟨rfl, fun b a cut => ?_⟩
  rw [List.append_assoc, List.append_assoc] at cut
  obtain ⟨more, rfl, -⟩ | ⟨more, rfl, others⟩ := List.append_eq_append_iff.1 cut
  · simp
  · cases more with
    | nil => simp
    | cons c more =>
      -- an earlier mark would begin inside the text
      obtain ⟨rfl, -⟩ := List.cons.inj others
      simp at plain

theorem toList_url (e : Endpoint) : e.url.toList = e.scheme.name.toList ++ mark ++
    (e.host.toList ++ ':' :: Nat.toDigits 10 e.port.toNat ++ e.path.toList) := by
  have spelled : e.url =
      e.scheme.name ++ "://" ++ e.host ++ ":" ++ toString e.port.toNat ++ e.path := rfl
  simp [spelled, mark]

theorem names_url (sound : Sound e) : Names e.url.toList e := by
  have plain : ':' ∉ e.scheme.name.toList := by cases e.scheme <;> decide
  refine ⟨_, e.host.toList ++ ':' :: Nat.toDigits 10 e.port.toNat, .named ?_,
    ⟨rfl, ?_, sound.path⟩, ?_⟩
  · rw [toList_url]
    exact schemeCut_of_notMem plain
  · have digits : '/' ∉ Nat.toDigits 10 e.port.toNat := notMem_toDigits rfl
    simp [sound.host, digits]
  · exact .ported ⟨rfl, notMem_toDigits rfl⟩ sound.named (portText_toDigits e.port)

theorem trimmed_url (sound : Sound e) : Trimmed e.url.toList e.url.toList := by
  refine ⟨⟨[], [], by simp, nofun, nofun⟩, ?_, ?_⟩
  · rw [toList_url]
    cases e.scheme <;> simp [Scheme.name] <;> decide
  · intro c last
    obtain ⟨front, d, ended⟩ := (List.eq_nil_or_concat (Nat.toDigits 10 e.port.toNat)).resolve_left
      Nat.toDigits_ne_nil
    have cut : e.url.toList = (e.scheme.name.toList ++ mark ++ e.host.toList ++ ':' :: front) ++
        d :: e.path.toList := by
      simp [toList_url, ended]
    rw [cut, List.getLast?_append_cons] at last
    have ends := sound.ends
    generalize e.path.toList = path at last ends
    cases path with
    | nil =>
      obtain rfl : d = c := by simpa using last
      exact isBlank_of_isDigit (isDigit_of_mem_toDigits (by rw [ended]; simp))
    | cons p path =>
      rw [List.getLast?_cons_cons] at last
      exact ends c last

theorem Sound.parse_url (sound : Sound e) : parse e.url = .ok e := by
  rw [parse, ← (trimmed_url sound).eq_trim, ofChars_eq_ok_iff]
  exact names_url sound

/-- Which endpoints have an address. -/
theorem exists_parse_iff : (∃ a, parse a = .ok e) ↔ Sound e :=
  ⟨fun ⟨_, h⟩ => sound_of_parse h, fun sound => ⟨_, sound.parse_url⟩⟩

theorem endpoint_url (h : Startup.endpoint a = .ok e) : Startup.endpoint e.url = .ok e :=
  Startup.endpoint_eq_ok_iff.2 (sound_of_parse (Startup.endpoint_eq_ok_iff.1 h)).parse_url

end Sound

/-! ## Settings with printed addresses -/

theorem endpoints_urls {addresses : List String} {es : List Endpoint}
    (h : Startup.endpoints addresses = .ok es) : Startup.endpoints (es.map url) = .ok es := by
  refine mapM_eq_ok_iff.2 ?_
  replace h := mapM_eq_ok_iff.1 h
  induction h with
  | nil => exact .nil
  | cons named _ ih => exact .cons (endpoint_url named) ih

section Settings

variable {s : Settings} {es : List Endpoint}

/-- The settings with the URLs of endpoints for addresses. -/
def printed (s : Settings) (es : List Endpoint) : Settings :=
  { s with agents := es.map url }

theorem endpoints_printed (h : Command.Run.endpoints s = .ok es) :
    Command.Run.endpoints (printed s es) = .ok es ∧
      (printed s es).agents.isEmpty = s.agents.isEmpty := by
  unfold Command.Run.endpoints at h ⊢
  split at h
  · next named =>
    cases h
    have size := (mapM_eq_ok_iff.1 named).length_eq
    refine ⟨by rw [printed, endpoints_urls named], ?_⟩
    rw [Bool.eq_iff_iff, List.isEmpty_iff_length_eq_zero, List.isEmpty_iff_length_eq_zero, size]
    simp [printed]
  · cases h

theorem withSettings_printed (h : Command.Run.endpoints s = .ok es) (w : Command.World)
    (input : String) :
    Command.Run.withSettings w (printed s es) input = Command.Run.withSettings w s input := by
  obtain ⟨named, filled⟩ := endpoints_printed h
  have checked : Command.Run.check (printed s es) = Command.Run.check s := by
    simp only [Command.Run.check, Settings.validate, filled]
    rfl
  unfold Command.Run.withSettings Command.Run.stages
  rw [checked, named, h]
  rfl

end Settings

/-- The URL of an endpoint is an address of it, and of no other one. So it is reached at the same host
and port as by the address, and in settings the URLs of the endpoints make the same run as their
addresses. -/
theorem printed_address :
    (∀ a e, Startup.endpoint a = .ok e → Startup.endpoint e.url = .ok e) ∧
    (∀ a a' e e', Startup.endpoint a = .ok e → Startup.endpoint a' = .ok e' → e.url = e'.url →
      e = e') ∧
    ∀ s es, Command.Run.endpoints s = .ok es → ∀ w input,
      Command.Run.withSettings w (printed s es) input = Command.Run.withSettings w s input := by
  refine ⟨fun a e => endpoint_url, fun a a' e e' h h' same => ?_, fun s es => withSettings_printed⟩
  have again := endpoint_url h
  rw [same, endpoint_url h'] at again
  exact (Except.ok.inj again).symm

/-- A world in which no agent listens. -/
def silentWorld : Command.World where
  files _ := .refused "none"
  input := []
  agents := none
  probe e := .error s!"nothing listens at {e.port.toNat}"
  exchange _ _ _ := .lost "none"
  ids := toString
  interrupted := false

/-- An endpoint of which the host has colons and the path a scheme. -/
def bracketed : Endpoint :=
  ⟨.https, "[::1]", 7, "/a://b:9"⟩

/-- Settings with an address of it. -/
def bracketedSettings : Settings :=
  { Settings.default with agents := ["https://[::1]:+007/a://b:9 "] }

theorem printed_address_bracketed :
    Startup.endpoint "https://[::1]:+007/a://b:9 " = .ok bracketed ∧
    Startup.endpoint bracketed.url = .ok bracketed ∧
    (∀ e, Startup.endpoint "https://[::1]:7/a://b:9" = .ok e → e.url = bracketed.url → e = bracketed) ∧
    Command.Run.endpoints bracketedSettings = .ok [bracketed] ∧
    Command.Run.withSettings silentWorld (printed bracketedSettings [bracketed]) "-" =
      Command.Run.withSettings silentWorld bracketedSettings "-" := by
  have named : Startup.endpoint "https://[::1]:+007/a://b:9 " = .ok bracketed := by rfl
  have all : Command.Run.endpoints bracketedSettings = .ok [bracketed] := by rfl
  obtain ⟨again, one, run⟩ := printed_address
  exact ⟨named, again _ _ named, fun e other => one _ _ _ _ other named, all, run _ _ all _ _⟩

end TxRelay.Endpoint
