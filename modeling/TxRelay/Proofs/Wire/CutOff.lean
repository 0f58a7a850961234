import Mathlib.Tactic
import TxRelay.Proofs.Feed.Numbering
import TxRelay.Proofs.Json.CutOff
import TxRelay.Proofs.Relay.Foretold
import TxRelay.Proofs.Wire.RoundTrip

/-!
# Records that are cut off

A record is cut off when its text ends before its last character. No type without free values takes
such a text for a record: wherever it ends, it ends too early. In a feed of lines a cut record is an
item without a message, so that a relay counts it and calls no agent with it.

Results:
* `SettingsFile.tears`: a settings file tears although its members are read twice.
* `Feed.Lines.ofLines_of_cut`: what a line makes that holds what is left of an event.
* `cutOff_reaches_noOne`: no type is read from a cut text, and no agent is called with a cut event.
-/

namespace TxRelay

open Json (Ascending Codec Elements Fields Members MembersTorn Origin Value arrangement_asWritten
  asWritten membersTree tears_choice tears_flag tears_list tears_map tears_natural tears_optional
  tears_record tears_size tears_text tears_word)

/-! ## Every type tears -/

theorem tears_textOrNull : Codec.text.optional.Tears :=
  tears_optional tears_text fun _ _ => rfl

theorem tears_texts : Codec.text.list.Tears :=
  tears_list tears_text

theorem tears_entries : Codec.text.map.Tears :=
  tears_map tears_text

theorem tears_count : (Codec.natural "u64").Tears :=
  tears_natural "u64"

namespace Event

theorem Block.tears : Block.codec.Tears :=
  tears_record (.cons tears_textOrNull <| .cons tears_textOrNull <| .cons tears_textOrNull .nil)

theorem Transaction.tears : Transaction.codec.Tears :=
  tears_record (.cons tears_textOrNull <| .cons tears_textOrNull <| .cons tears_textOrNull <|
    .cons tears_textOrNull <| .cons tears_textOrNull <| .cons tears_textOrNull <|
    .cons tears_textOrNull <| .cons tears_textOrNull .nil)

theorem Log.tears : Log.codec.Tears :=
  tears_record (.cons tears_textOrNull <| .cons tears_texts <| .cons tears_textOrNull <|
    .cons tears_textOrNull .nil)

theorem Receipt.tears : Receipt.codec.Tears :=
  tears_record (.cons tears_textOrNull <| .cons tears_textOrNull <| .cons tears_textOrNull <|
    .cons (tears_list Log.tears) .nil)

theorem tears : codec.Tears :=
  tears_record (.cons tears_textOrNull <| .cons (tears_optional Block.tears fun _ _ => rfl) <|
    .cons (tears_optional Transaction.tears fun _ _ => rfl) <|
    .cons (tears_optional Receipt.tears fun _ _ => rfl) .nil)

end Event

namespace Message

theorem Block.tears : Block.codec.Tears :=
  tears_record (.cons tears_word <| .cons tears_text <| .cons tears_word .nil)

theorem Transaction.tears : Transaction.codec.Tears :=
  tears_record (.cons tears_text <| .cons tears_text <| .cons tears_textOrNull <|
    .cons tears_word <| .cons tears_word <| .cons tears_text <| .cons tears_text <|
    .cons tears_text .nil)

theorem Log.tears : Log.codec.Tears :=
  tears_record (.cons tears_text <| .cons tears_texts <| .cons tears_text <| .cons tears_word .nil)

theorem Receipt.tears : Receipt.codec.Tears :=
  tears_record (.cons tears_flag <| .cons tears_word <| .cons tears_textOrNull <|
    .cons (tears_list Log.tears) .nil)

theorem tears : codec.Tears :=
  tears_record (.cons tears_word <| .cons Block.tears <| .cons Transaction.tears <|
    .cons (tears_optional Receipt.tears fun _ _ => rfl) .nil)

end Message

theorem Request.tears : Request.codec.Tears :=
  tears_record (.cons tears_text <| .cons Message.tears .nil)

namespace Verdict

theorem Problem.tears : Problem.codec.Tears :=
  tears_record (.cons tears_text .nil)

theorem Finding.tears : Finding.codec.Tears :=
  tears_record (.cons tears_text <| .cons tears_text <| .cons tears_text <|
    .cons (tears_choice _ _) <| .cons tears_text <| .cons tears_text <| .cons tears_entries .nil)

theorem tears : codec.Tears :=
  tears_record (.cons (tears_choice _ _) <| .cons (tears_list Problem.tears) <|
    .cons (tears_list Finding.tears) <| .cons tears_entries <| .cons tears_textOrNull .nil)

end Verdict

theorem Settings.tears_fields : Settings.fields.Tears :=
  .cons tears_texts <| .cons tears_size <| .cons tears_word .nil

theorem Settings.tears : Settings.codec.Tears :=
  tears_record Settings.tears_fields

theorem LogSettings.tears : LogSettings.codec.Tears :=
  tears_record (.cons tears_text <| .cons tears_entries <| .cons tears_flag .nil)

theorem Worker.Stats.tears : Worker.Stats.codec.Tears :=
  tears_record (.cons tears_text <| .cons tears_count <| .cons tears_count <| .cons tears_count <|
    .cons tears_count <| .cons tears_count .nil)

theorem Relay.Summary.tears : Relay.Summary.codec.Tears :=
  tears_record (.cons tears_count <| .cons tears_count <| .cons tears_count <|
    .cons (tears_list Worker.Stats.tears) .nil)

namespace SettingsFile

/-- Members that end too early end so when the log settings are taken out: members of other names are
read as free values there. -/
theorem takeLog_torn {depth : ℕ} {ms : List (String × Value)} {members : Members}
    {log : Option LogSettings} {taken : Option LogSettings × Members}
    (read : takeLog .text depth log (membersTree ms) = .ok taken) (h : MembersTorn ms members) :
    takeLog .text depth log members = .error (.fault .cutOff) := by
  induction ms generalizing members log taken with
  | nil =>
    cases h
    rfl
  | cons m ms ih =>
    rw [membersTree] at read
    by_cases isLog : m.1 = logName
    · cases log with
      | some =>
        simp only [takeLog, if_pos isLog] at read
        cases read
      | none =>
        simp only [takeLog, if_pos isLog] at read
        obtain ⟨settings, decoded, rest⟩ := Except.bind_eq_ok_iff.1 read
        cases h with
        | stop | name => rfl
        | member torn =>
          simp only [takeLog, if_pos isLog, LogSettings.tears.torn decoded torn]
          rfl
        | digits fewer =>
          obtain ⟨smaller, decoded⟩ := LogSettings.tears.fewer decoded fewer
          simp only [takeLog, if_pos isLog, decoded]
          rfl
        | next others =>
          simp only [takeLog, if_pos isLog, decoded]
          exact ih rest others
    · simp only [takeLog, if_neg isLog] at read
      obtain ⟨v, free, more⟩ := Except.bind_eq_ok_iff.1 read
      obtain ⟨_, rest, -⟩ := Except.bind_eq_ok_iff.1 more
      cases h with
      | stop | name => rfl
      | member torn =>
        simp only [takeLog, if_neg isLog, torn.free free]
        rfl
      | digits fewer =>
        simp only [takeLog, if_neg isLog]
        rfl
      | next others =>
        simp only [takeLog, if_neg isLog, free, ih rest others]
        rfl

theorem tears : codec.Tears where
  unsigned f := by
    refine .object fun m hm => ?_
    rcases List.mem_append.1 hm with field | log
    · exact Settings.tears_fields.unsigned f.settings.parts m field
    · rw [List.mem_singleton.1 log]
      exact LogSettings.tears.unsigned f.log
  fewer read _ := by cases read
  torn read h := by
    cases h with
    | nothing | null | bool | string => rfl
    | array => cases read
    | object inside =>
      obtain ⟨inner, rfl, opened⟩ := Json.descend_eq_ok read
      obtain ⟨taken, log, -⟩ := Except.bind_eq_ok_iff.1 opened
      exact Except.bind_eq_error_iff.2 (.inl (takeLog_torn log inside))

end SettingsFile

/-! ## A line that is cut off -/

theorem Json.Codec.CutsOff.of_prefix {α : Type} {c : Codec α} {a : α} (cut : c.CutsOff a)
    {front rest : String} (whole : front ++ rest = c.write a) (missing : rest ≠ "") {core : List Char}
    (begins : core <+: front.toList) : c.read (String.ofList core) = .error (.fault .cutOff) := by
  obtain ⟨after, same⟩ := begins
  refine cut (String.ofList core) (String.ofList after ++ rest) ?_ ?_
  · rw [← whole, ← String.append_assoc, ← String.ofList_append, same, String.ofList_toList]
  · intro nothing
    exact missing (String.append_eq_empty_iff.1 nothing).2

namespace Feed.Lines

open TxRelay.Text

/-- What is left of a text that begins with no blank begins so after it is trimmed. -/
theorem trim_cons {c : Char} (solid : isBlank c = false) (text : List Char) :
    ∃ core, trim (c :: text) = c :: core ∧ c :: core <+: c :: text := by
  obtain ⟨⟨after, cut, -⟩, -⟩ := exists_trimEnd (c :: text)
  have kept : trimEnd (c :: text) ≠ [] := fun nothing => by
    have blank := (trimEnd_eq_nil_iff _).1 nothing c List.mem_cons_self
    rw [solid] at blank
    cases blank
  obtain ⟨d, core, left⟩ := List.exists_cons_of_ne_nil kept
  have begins : d :: core <+: c :: text := left ▸ ⟨after, cut.symm⟩
  obtain rfl : d = c := (List.cons_prefix_cons.1 begins).1
  refine ⟨core, ?_, begins⟩
  rw [trim, List.dropWhile_cons_of_neg (by simp [solid]), left]

/-- Blanks on both sides of a text do not change what a line says. -/
theorem lineText_blanks {left text right : List Char}
    (blank : ∀ c ∈ left ++ right, isBlank c = true) :
    lineText (Utf8.encode (left ++ text ++ right)) = .ok (trim text) := by
  rw [List.forall_mem_append] at blank
  rw [lineText_encode, trim_append blank.2, trim, List.dropWhile_append_of_pos blank.1, ← trim]

/-- What a line makes that holds what is left of an event: an item that is none, unless nothing is
left. -/
def remains (number : ℕ) (front : String) : List Numbered :=
  if front = "" then [] else [⟨number, .ok (.undecodable number (.fault .cutOff))⟩]

theorem write_event (e : Event) : ∃ text, (Event.codec.write e).toList = '\x7b' :: text :=
  ⟨_, by rw [Codec.write, Value.text, String.toList_ofList]; rfl⟩

theorem ofLines_of_cut {e : Event} {front rest : String} (whole : front ++ rest = Event.codec.write e)
    (missing : rest ≠ "") {left right : List Char}
    (blank : ∀ c ∈ left ++ right, isBlank c = true) (report : Report) (number : ℕ)
    (after : List (List UInt8)) :
    ofLines report number (Utf8.encode (left ++ front.toList ++ right) :: after) =
      remains number front ++ ofLines report (number + 1) after := by
  have cut := Event.tears.cutsOff (e.keeps arrangement_asWritten) rfl
  rw [ofLines, lineText_blanks blank, remains]
  split_ifs with nothing
  · rw [nothing]
    rfl
  · obtain ⟨text, brace⟩ := write_event e
    obtain ⟨c, chars, hfront⟩ :=
      List.exists_cons_of_ne_nil (fun h => nothing (String.toList_eq_nil_iff.1 h))
    obtain rfl : c = '\x7b' := by
      rw [← whole, String.toList_append, hfront] at brace
      exact (List.cons.inj brace).1
    obtain ⟨core, trimmed, begins⟩ := trim_cons (c := '\x7b') (by decide) chars
    have failed := cut.of_prefix whole missing (hfront ▸ begins)
    rw [hfront, trimmed]
    simp only [Item.ofText, failed]
    rfl

end Feed.Lines

/-! ## Items without a message in a run -/

namespace Relay

variable {setup : Setup} {signal : Bool} {moves : List Move} {t : State}

/-- In a run no agent is called with the items between the first steps of the feed and the others. They
are counted, when they are taken and in the summary. -/
structure Uncalled (setup : Setup) (t : State) (first between others : List Feed.Step) : Prop where
  called : ∀ w ∈ t.workers, w.calls.map (·.request.message) <+: Feed.messages (first ++ others)
  counted : ∃ taken, setup.feed = taken ++ t.ingestion.feed ∧
    ∀ {more}, taken = first ++ between ++ more →
      t.ingestion.totals.received = (Feed.items (first ++ more)).length + between.length ∧
      t.ingestion.totals.unconverted = Feed.unconverted (first ++ more) + between.length
  summary : ∀ {summary}, t.supervisor.result = some (.ok summary) →
    summary.totals.received = (Feed.items (first ++ others)).length + between.length ∧
      summary.totals.unconverted = Feed.unconverted (first ++ others) + between.length

theorem uncalled_of_run (run : Run (.start setup signal) moves t) {first between others : List Feed.Step}
    (feed : setup.feed = first ++ between ++ others)
    (items : (Feed.items between).length = between.length) (none : Feed.messages between = []) :
    Uncalled setup t first between others := by
  have messages (more : List Feed.Step) :
      Feed.messages (first ++ between ++ more) = Feed.messages (first ++ more) := by
    simp only [Feed.messages_append, none, List.append_nil]
  have unconverted : Feed.unconverted between = between.length := by
    have each := Feed.length_messages_add between
    rwa [none, List.length_nil, Nat.zero_add, items] at each
  have counts (more : List Feed.Step) :
      (Feed.items (first ++ between ++ more)).length =
          (Feed.items (first ++ more)).length + between.length ∧
        Feed.unconverted (first ++ between ++ more) =
          Feed.unconverted (first ++ more) + between.length := by
    simp only [Feed.items_append, Feed.unconverted_append, List.length_append, items, unconverted]
    omega
  constructor
  case called =>
    intro w worker
    have begun := messages_called run worker
    rwa [feed, messages] at begun
  case counted =>
    obtain ⟨taken, intake⟩ := intake_of_run run
    refine ⟨taken, intake.feed, ?_⟩
    rintro more rfl
    rw [intake.received, intake.unconverted]
    exact counts more
  case summary =>
    intro summary finished
    have register := register_of_run run
    have spotless : t.firstError? = Option.none := (register.result_eq finished).2.1 ⟨summary, rfl⟩
    have intake := (complete_of_run run finished spotless).intake
    cases register.summary_eq finished spotless
    rw [intake.received, intake.unconverted, feed]
    exact counts others

end Relay

/-! ## Every type and every feed -/

/-- A cut record is never taken for a whole one. Whatever is left of the text of a value, of any type
without free values, is a text that ends too early. A line that holds what is left of an event, among
blanks, makes an item that is no event, or none if nothing is left; whatever else happens in a run,
that item is counted and no agent is called with it. -/
theorem cutOff_reaches_noOne :
    ((∀ e : Event, Event.codec.CutsOff e) ∧
      (∀ m : Message, Message.codec.CutsOff m) ∧
      (∀ r : Request, Request.codec.CutsOff r) ∧
      (∀ v : Verdict, v.Sorted → Verdict.codec.CutsOff v) ∧
      (∀ f : Verdict.Finding, Ascending f.metadata → Verdict.Finding.codec.CutsOff f) ∧
      (∀ s : Settings, Settings.codec.CutsOff s) ∧
      (∀ f : SettingsFile, Ascending f.log.components → SettingsFile.codec.CutsOff f) ∧
      (∀ s : LogSettings, Ascending s.components → LogSettings.codec.CutsOff s) ∧
      (∀ s : Worker.Stats, s.counts.Fits → Worker.Stats.codec.CutsOff s) ∧
      ∀ s : Relay.Summary, s.Fits → Relay.Summary.codec.CutsOff s) ∧
    ∀ {e : Event} {front rest : String}, front ++ rest = Event.codec.write e → rest ≠ "" →
      ∀ {bytes : List UInt8} {size : ℕ} {before after : List (List UInt8)} {left right : List Char},
        Feed.Lines.ofChunks (Feed.Lines.chunks size bytes) =
          before ++ Text.Utf8.encode (left ++ front.toList ++ right) :: after →
        (∀ line ∈ before, Feed.Lines.IsText line) →
        (∀ c ∈ left ++ right, Text.isBlank c = true) →
        ∀ report : Feed.Lines.Report,
          let number := before.length + 1
          let first := Feed.Lines.ofLines report 1 before
          let torn := Feed.Lines.remains number front
          let others := Feed.Lines.ofLines report (number + 1) after
          Feed.Lines.read report size bytes = first ++ torn ++ others ∧
          ∀ {setup : Relay.Setup} {behind : List Feed.Step},
            setup.feed = (Feed.Lines.read report size bytes).map (·.step) ++ behind →
            ∀ {signal : Bool} {moves : List Relay.Move} {t : Relay.State},
              Relay.Run (.start setup signal) moves t →
              Relay.Uncalled setup t (first.map (·.step)) (torn.map (·.step))
                (others.map (·.step) ++ behind) := by
  have order := arrangement_asWritten
  refine ⟨⟨?_, ?_, ?_, ?_, ?_, ?_, ?_, ?_, ?_, ?_⟩, ?_⟩
  · exact fun e => Event.tears.cutsOff (e.keeps order) rfl
  · exact fun m => Message.tears.cutsOff (m.keeps order) rfl
  · exact fun r => Request.tears.cutsOff (r.keeps order) rfl
  · exact fun v sorted => Verdict.tears.cutsOff (Verdict.keeps order sorted) rfl
  · exact fun f sorted => Verdict.Finding.tears.cutsOff (Verdict.Finding.keeps order sorted) rfl
  · exact fun s => Settings.tears.cutsOff (s.keeps order) rfl
  · exact fun f sorted => SettingsFile.tears.cutsOff (SettingsFile.keeps sorted) rfl
  · exact fun s sorted => LogSettings.tears.cutsOff (LogSettings.keeps order sorted) rfl
  · exact fun s fits => Worker.Stats.tears.cutsOff (Worker.Stats.keeps order fits) rfl
  · exact fun s fits => Relay.Summary.tears.cutsOff (Relay.Summary.keeps order fits) rfl
  · intro e front rest whole missing bytes size before after left right lines texts blank report
    have made : Feed.Lines.read report size bytes =
        Feed.Lines.ofLines report 1 before ++ Feed.Lines.remains (before.length + 1) front ++
          Feed.Lines.ofLines report (before.length + 2) after := by
      rw [Feed.Lines.read, lines, Feed.Lines.ofLines_append report texts,
        Feed.Lines.ofLines_of_cut whole missing blank, List.append_assoc, Nat.add_comm 1]
    refine ⟨made, fun {setup behind} feed {signal moves t} run => ?_⟩
    rw [made, List.map_append, List.map_append, List.append_assoc] at feed
    refine Relay.uncalled_of_run run feed ?_ ?_ <;>
      · unfold Feed.Lines.remains
        split_ifs <;> rfl

/-- An event of which only the chain is known. -/
def bareEvent : Event := ⟨some "0x1", none, none, none⟩

/-- The front of its text, cut inside the word that stands for the block. -/
def bareFront : String := String.ofList ((Event.codec.encode bareEvent).chars.take 27)

/-- What follows in that text. -/
def bareRest : String := String.ofList ((Event.codec.encode bareEvent).chars.drop 27)

/-- A line with the front, after a blank. -/
def tornLine : List UInt8 := Text.Utf8.encode ([' '] ++ bareFront.toList ++ ['\r', '\n'])

/-- Two agents, and a feed of that line and an event. -/
def tornSetup : Relay.Setup :=
  { Relay.calmSetup with
    feed := [.item (.undecodable 1 (.fault .cutOff)), .item (.event Relay.plainEvent)] }

theorem cutOff_reaches_noOne_tornSetup :
    bareFront ++ bareRest = Event.codec.write bareEvent ∧ bareRest ≠ "" ∧
      Feed.Lines.ofChunks (Feed.Lines.chunks 16 tornLine) = [tornLine] ∧
      tornSetup.feed = (Feed.Lines.read .plain 16 tornLine).map (·.step) ++
        [.item (.event Relay.plainEvent)] ∧
      ∃ moves t, Relay.Run (.start tornSetup false) moves t ∧
        Relay.Uncalled tornSetup t [] [.item (.undecodable 1 (.fault .cutOff))]
          [.item (.event Relay.plainEvent)] ∧
        t.supervisor.result =
          some (.ok ⟨⟨2, 1, 2⟩, [⟨"a", 1, 0, 0, 0, 1⟩, ⟨"b", 1, 0, 1, 0, 0⟩]⟩) := by
  have whole : bareFront ++ bareRest = Event.codec.write bareEvent := by
    rw [bareFront, bareRest, ← String.ofList_append, List.take_append_drop]
    rfl
  have missing : bareRest ≠ "" := by decide +kernel
  have cut : Feed.Lines.ofChunks (Feed.Lines.chunks 16 tornLine) = [] ++ tornLine :: [] := by
    rw [tornLine, bareFront, String.toList_ofList]
    decide +kernel
  have blank : ∀ c ∈ [' '] ++ ['\r', '\n'], Text.isBlank c = true :=
    List.all_eq_true.1 (by decide)
  obtain ⟨made, uncalled⟩ := cutOff_reaches_noOne.2 whole missing cut nofun blank .plain
  have torn : Feed.Lines.remains 1 bareFront = [⟨1, .ok (.undecodable 1 (.fault .cutOff))⟩] := by
    rw [Feed.Lines.remains, if_neg (by decide +kernel)]
  have feed : tornSetup.feed = (Feed.Lines.read .plain 16 tornLine).map (·.step) ++
      [.item (.event Relay.plainEvent)] := by
    rw [made, List.length_nil, torn]
    rfl
  obtain ⟨moves, run, -⟩ := Relay.run_runFrom none 40 (.start tornSetup false)
  have unused := uncalled feed run
  rw [List.length_nil, torn] at unused
  exact ⟨whole, missing, cut, feed, moves, _, run, unused, rfl⟩

end TxRelay
