import Mathlib.Tactic
import TxRelay.Proofs.Endpoint.Printed

/-!
# What is kept of an address

An endpoint keeps the scheme, the host and the path of a full URL as they are written. It does not keep
the port as it is written: a port that is missing is put in, and one with a plus sign or with leading
zeros is written anew. So the URL comes back the same only if its port is written in the digits of its
number.

The host is all that stands before the last colon of an authority. An authority of more than one colon
has a host with a colon, in brackets or not, and what follows the last colon alone decides whether
there is an endpoint.

Results:
* `url_kept_iff`: which full URLs are kept.
* `colon_in_host_iff`: which hosts have a colon.
-/

namespace TxRelay.Endpoint

open Feed.Lines (Trimmed)

section Kept

variable {address : String} {text rest authority host digits path : List Char} {s : Scheme}
  {port : UInt16} {e : Endpoint}

theorem endpoint_eq_ok_iff_names (trimmed : Trimmed address.toList text) :
    Startup.endpoint address = .ok e ↔ Names text e := by
  rw [Startup.endpoint_eq_ok_iff, parse, ← trimmed.eq_trim, ofChars_eq_ok_iff]

theorem endpoint_eq_error_of_fails (trimmed : Trimmed address.toList text) {fault : Fault}
    (fails : Fails text fault) : Startup.endpoint address = .error (.address address fault.message) := by
  rw [Startup.endpoint, parse, ← trimmed.eq_trim, ofChars_eq_error_iff.2 fails]

theorem HostPort.written (h : HostPort authority host port) :
    (authority = host ∧ ':' ∉ host ∧ port = defaultPort) ∨
      ∃ written, PortCut authority host written ∧ PortText written port := by
  cases h with
  | bare filled plain => exact .inl ⟨rfl, plain, rfl⟩
  | ported cut filled written => exact .inr ⟨_, cut, written⟩

/-! ## Full URLs -/

theorem opens_full_iff {s' : Scheme} {rest' : List Char} :
    Opens (s.name.toList ++ mark ++ rest) s' rest' ↔ s' = s ∧ rest' = rest := by
  have plain : ':' ∉ s.name.toList := by cases s <;> decide
  have same : s.name.toList = s'.name.toList ↔ s' = s := by cases s <;> cases s' <;> decide
  rw [(schemeCut_of_notMem plain).opens_iff, same, eq_comm (a := rest)]

/-- An endpoint that is read from a full URL has the scheme, the host and the path that are written in
it. The URL of the endpoint is the one it was read from exactly if that has a port, written in the
digits of its number. -/
theorem url_kept_iff (trimmed : Trimmed address.toList (s.name.toList ++ mark ++ rest))
    (read : Startup.endpoint address = .ok e) :
    ∃ authority, PathCut rest authority e.path.toList ∧ e.scheme = s ∧
      ((authority = e.host.toList ∧ ':' ∉ e.host.toList ∧ e.port = defaultPort) ∨
        ∃ written, PortCut authority e.host.toList written ∧ PortText written e.port) ∧
      e.url.toList = s.name.toList ++ mark ++
        (e.host.toList ++ ':' :: Nat.toDigits 10 e.port.toNat ++ e.path.toList) ∧
      (e.url.toList = s.name.toList ++ mark ++ rest ↔
        PortCut authority e.host.toList (Nat.toDigits 10 e.port.toNat)) := by
  obtain ⟨rest', authority, opens, path, named⟩ := (endpoint_eq_ok_iff_names trimmed).1 read
  obtain ⟨scheme, rfl⟩ := opens_full_iff.1 opens
  have url := toList_url e
  rw [scheme] at url
  refine ⟨authority, path, scheme, named.written, url, ?_⟩
  rw [url, path.cut, List.append_cancel_left_eq, List.append_cancel_right_eq]
  constructor
  · exact fun same => ⟨same.symm, notMem_toDigits rfl⟩
  · exact fun cut => cut.cut.symm

/-- The URL of an agent with a port and a path, and a blank behind it. -/
theorem url_kept_iff_ported :
    let e : Endpoint := ⟨.https, "agents.example.com", 443, "/rpc"⟩
    let rest := "agents.example.com:443/rpc".toList
    Trimmed "https://agents.example.com:443/rpc ".toList (Scheme.https.name.toList ++ mark ++ rest) ∧
      Startup.endpoint "https://agents.example.com:443/rpc " = .ok e ∧
      PortCut "agents.example.com:443".toList e.host.toList (Nat.toDigits 10 e.port.toNat) ∧
      e.url.toList = Scheme.https.name.toList ++ mark ++ rest := by
  intro e rest
  have trimmed : Trimmed "https://agents.example.com:443/rpc ".toList
      (Scheme.https.name.toList ++ mark ++ rest) := by
    have trim : Text.trim "https://agents.example.com:443/rpc ".toList =
        Scheme.https.name.toList ++ mark ++ rest := by decide +kernel
    exact trim ▸ Feed.Lines.trimmed_trim _
  have read : Startup.endpoint "https://agents.example.com:443/rpc " = .ok e := by rfl
  obtain ⟨authority, path, -, -, -, kept⟩ := url_kept_iff trimmed read
  have cut : authority = "agents.example.com:443".toList := by
    rw [← (pathCut_iff.1 path).1]
    decide +kernel
  have ported : PortCut authority e.host.toList (Nat.toDigits 10 e.port.toNat) :=
    ⟨by rw [cut]; decide +kernel, notMem_toDigits rfl⟩
  exact ⟨trimmed, read, cut ▸ ported, kept.2 ported⟩

/-- A full URL without a port is not kept. -/
theorem full_url_rewritten :
    let e : Endpoint := ⟨.https, "agents.example.com", 50051, "/rpc"⟩
    (Startup.endpoint "https://agents.example.com/rpc" = .ok e ∧
      e.url = "https://agents.example.com:50051/rpc") ∧
    ¬ ∀ address e text, Startup.endpoint address = .ok e → Trimmed address.toList text →
      (∃ s : Scheme, s.name.toList ++ mark <+: text) → e.url.toList = text := by
  intro e
  have read : Startup.endpoint "https://agents.example.com/rpc" = .ok e := by rfl
  refine ⟨⟨read, by decide +kernel⟩, fun kept => ?_⟩
  have same := kept _ _ _ read (Feed.Lines.trimmed_trim _) ⟨.https, by decide +kernel⟩
  revert same
  decide +kernel

/-! ## Colons -/

theorem PortCut.count_colon (cut : PortCut authority host digits) :
    authority.count ':' = host.count ':' + 1 := by
  rw [cut.cut, List.count_append, List.count_cons_self, List.count_eq_zero.2 cut.last]

theorem HostPort.colon_iff (h : HostPort authority host port) :
    ':' ∈ host ↔ 2 ≤ authority.count ':' := by
  rcases h.written with ⟨rfl, plain, -⟩ | ⟨written, cut, -⟩
  · simp [plain, List.count_eq_zero.2 plain]
  · rw [cut.count_colon, ← List.count_pos_iff]
    omega

/-- The parts of an address are those that it is cut into. -/
theorem names_iff_hostPort (opens : Opens text s rest) (cut : PathCut rest authority path) :
    Names text e ↔ e.scheme = s ∧ e.path.toList = path ∧
      HostPort authority e.host.toList e.port := by
  obtain ⟨rfl, rfl⟩ := pathCut_iff.1 cut
  rw [names_iff, ← readAuthority_eq_ok_iff, readScheme_eq_ok_iff.2 opens]
  constructor
  · rintro ⟨_, ⟨⟩, read, same⟩
    exact ⟨rfl, same.symm, read⟩
  · rintro ⟨rfl, same, read⟩
    exact ⟨rest, rfl, read, same.symm⟩

/-- A host has a colon exactly if the authority has two. Then the last one alone is looked at: with a
port behind it there is an endpoint, with anything else there is none. So no host but the excepted ones
has a colon exactly if no other one stands before the last of two colons and a port. -/
theorem colon_in_host_iff (trimmed : Trimmed address.toList text) (opens : Opens text s rest)
    (cut : PathCut rest authority path) :
    (∀ e, Startup.endpoint address = .ok e → (':' ∈ e.host.toList ↔ 2 ≤ authority.count ':')) ∧
    (∀ host digits, PortCut authority host digits → host ≠ [] →
      (∀ port, PortText digits port →
        Startup.endpoint address = .ok ⟨s, .ofList host, port, .ofList path⟩) ∧
      ((∀ port, ¬ PortText digits port) →
        Startup.endpoint address = .error (.address address "invalid port"))) ∧
    ∀ excepted : List Char → Prop,
      (∀ e, Startup.endpoint address = .ok e → ':' ∈ e.host.toList → excepted e.host.toList) ↔
        (2 ≤ authority.count ':' → ∀ host digits port, PortCut authority host digits →
          PortText digits port → excepted host) := by
  have read (e : Endpoint) : Startup.endpoint address = .ok e ↔
      e.scheme = s ∧ e.path.toList = path ∧ HostPort authority e.host.toList e.port :=
    (endpoint_eq_ok_iff_names trimmed).trans (names_iff_hostPort opens cut)
  have ported {host digits : List Char} {port : UInt16} (last : PortCut authority host digits)
      (filled : host ≠ []) (written : PortText digits port) :
      Startup.endpoint address = .ok ⟨s, .ofList host, port, .ofList path⟩ :=
    (read _).2 ⟨rfl, String.toList_ofList, by
      rw [String.toList_ofList]
      exact .ported last filled written⟩
  refine ⟨fun e named => ((read e).1 named).2.2.colon_iff, fun host digits last filled =>
    ⟨fun port => ported last filled, fun unwritten =>
      endpoint_eq_error_of_fails trimmed (.port opens cut last unwritten)⟩, fun excepted => ⟨?_, ?_⟩⟩
  · intro kept two host digits port last written
    rw [last.count_colon] at two
    have colon : ':' ∈ host := List.count_pos_iff.1 (by omega)
    simpa [colon] using kept _ (ported last (List.ne_nil_of_mem colon) written)
  · intro kept e named colon
    have host := ((read e).1 named).2.2
    rcases host.written with ⟨-, plain, -⟩ | ⟨written, last, port⟩
    · exact absurd colon plain
    · exact kept (host.colon_iff.1 colon) _ _ _ last port

/-- An IPv6 literal without brackets: its last group is taken for a port. -/
theorem colon_in_host_iff_literal :
    let text := "2001:db8::1".toList
    Trimmed text text ∧ Opens text .http text ∧ PathCut text text [] ∧ text.count ':' = 3 ∧
      PortText ['1'] 1 ∧
      Startup.endpoint "2001:db8::1" = .ok ⟨.http, .ofList "2001:db8:".toList, 1, .ofList []⟩ ∧
      ¬ ∀ e, Startup.endpoint "2001:db8::1" = .ok e → ':' ∉ e.host.toList := by
  intro text
  have trimmed : Trimmed text text := by
    have trim : Text.trim text = text := by decide +kernel
    exact trim ▸ Feed.Lines.trimmed_trim text
  have opens : Opens text .http text := by
    refine readScheme_eq_ok_iff.1 ?_
    decide +kernel
  have cut : PathCut text text [] := pathCut_iff.2 (by decide +kernel)
  have last : PortCut text "2001:db8:".toList ['1'] := ⟨by decide +kernel, by decide⟩
  have written : PortText ['1'] 1 := portText_toDigits 1
  obtain ⟨-, ported, kept⟩ := colon_in_host_iff trimmed opens cut
  have named := (ported _ _ last (by decide +kernel)).1 1 written
  refine ⟨trimmed, opens, cut, by decide +kernel, written, named, fun plain => ?_⟩
  exact (kept fun _ => False).1 plain (by decide +kernel) _ _ _ last written

/-- An authority of two colons is not refused, although its host is not in brackets. -/
theorem second_colon_accepted :
    Startup.endpoint "scanner-1:9000:9001" = .ok ⟨.http, "scanner-1:9000", 9001, ""⟩ ∧
      ¬ ∀ address e, Startup.endpoint address = .ok e → ':' ∈ e.host.toList →
        ∃ literal, e.host.toList = '[' :: (literal ++ [']']) := by
  have named : Startup.endpoint "scanner-1:9000:9001" =
      .ok ⟨.http, "scanner-1:9000", 9001, ""⟩ := by rfl
  refine ⟨named, fun bracketed => ?_⟩
  obtain ⟨literal, same⟩ := bracketed _ _ named (by decide +kernel)
  have first := congrArg List.head? same
  rw [List.head?_cons] at first
  revert first
  decide +kernel

end Kept

end TxRelay.Endpoint
