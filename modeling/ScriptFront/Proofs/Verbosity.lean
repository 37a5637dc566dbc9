/-
What the verbosity of a run changes.

A command does not know what is shown of the events it tells. How loud an invocation is
decides about the display only, so two invocations of one command tell the same events and
come to the same end, and of two displays the quieter one takes some more records out
(`filter_shows`).

The loudest display shows all events. The order in which they are told is then the order of
the lines, and `told_run` says what it is: what reading the source has to say, the scanner's
records token by token, and the plain lines last.
-/
import ScriptFront.Command.Session
import ScriptFront.Proofs.CommandRuns

set_option autoImplicit false

namespace ScriptFront.Command

/-! ## Loudness -/

namespace Invocation

/-- How many levels an invocation shows beside errors: none if it is quiet, however often it
asks for more. -/
def loudness (i : Invocation) : Nat := if i.quiet then 0 else min i.verbosity 3 + 1

/-- Whether an invocation shows an event. -/
def shows (i : Invocation) : Log.Event → Bool
  | .line _ => true
  | .record r => r.level.rank ≤ i.loudness + 1

/-- The invocation shows everything. -/
def IsLoudest (i : Invocation) : Prop := i.loudness = 4

/-- Each `-v` lets one more level through, and `-q` only the errors. -/
theorem rank_level (i : Invocation) : i.level.rank = i.loudness + 1 := by
  unfold level loudness
  by_cases hquiet : i.quiet
  · rw [if_pos hquiet, if_pos hquiet]
    rfl
  · rw [if_neg hquiet, if_neg hquiet]
    generalize i.verbosity = n
    rcases n with _ | _ | _ | n
    · rfl
    · rfl
    · rfl
    · rw [Nat.min_eq_right (by omega)]
      rfl

variable {i i' : Invocation} {e : Environment}

/-- Where no filter is set, the loudness decides what is shown. -/
theorem admits_display (h : e.logFilter = none) (i : Invocation) :
    (i.display e).admits = i.shows := by
  funext event
  have hfilter : (i.display e).filter = .upTo i.level := by
    simp only [display, filter, h]
  cases event with
  | line _ => rfl
  | record r =>
    rw [Log.Display.admits, hfilter]
    change (decide (r.level.rank ≤ i.level.rank) && true) = _
    rw [Bool.and_true, rank_level]
    rfl

/-- What a quieter invocation shows is what is left of what a louder one shows. -/
theorem filter_shows (h : i.loudness ≤ i'.loudness) (events : List Log.Event) :
    (events.filter i'.shows).filter i.shows = events.filter i.shows := by
  rw [List.filter_filter]
  refine List.filter_congr fun event _ => ?_
  cases event with
  | line _ => rfl
  | record r =>
    simp only [shows, ← Bool.decide_and, decide_eq_decide]
    omega

/-- Lines are shown at any loudness: only records are filtered. -/
theorem filter_shows_lines (i : Invocation) (lines : List String) :
    (lines.map Log.Event.line).filter i.shows = lines.map .line := by
  refine List.filter_eq_self.mpr ?_
  rintro _ hmem
  obtain ⟨_, -, rfl⟩ := List.mem_map.mp hmem
  rfl

/-- At the loudest level every event is shown. -/
theorem shows_of_isLoudest (h : i.IsLoudest) (event : Log.Event) : i.shows event = true := by
  cases event with
  | line _ => rfl
  | record r =>
    refine decide_eq_true ?_
    rw [h]
    cases r.level <;> decide

end Invocation

/-! ## What a command tells -/

/-- The records about one token: an error is announced before it, and met right after it if
errors are looked for. -/
def remarksOn (c : Command) (t : Token) : List Log.Record :=
  (if t.isError then [Log.lexicalError t] else []) ++ [Log.token t] ++
    if c.checks && t.isError then [Log.errorMet t] else []

/-- The tokens that there are records about: all but the end of the source. -/
def reported (c : Command) (source : String) : List Token :=
  (Token.ofSource c.dialect source).filter (!·.isEof)

/-- The records of a command about a source that it has read: one about the reading, and
then those about its tokens, token by token. -/
def log (c : Command) (source : String) : List Log.Record :=
  c.input.remarks (.ok source) ++ (c.reported source).flatMap c.remarksOn

theorem remarksOn_of_not_isEof (c : Command) {t : Token} (h : t.isEof = false) :
    (if c.checks then Log.ofCheckedToken else Log.ofToken) t = c.remarksOn t := by
  cases c with
  | tokens => cases herror : t.isError <;> simp [checks, remarksOn, Log.ofToken, h, herror]
  | check =>
    cases herror : t.isError <;>
      simp [checks, remarksOn, Log.ofCheckedToken, Log.ofToken, h, herror]

theorem remarks_isEof (c : Command) {t : Token} (h : t.isEof = true) :
    (if c.checks then Log.ofCheckedToken else Log.ofToken) t = [] := by
  have herror : t.isError = false := by
    rw [Token.isError, of_decide_eq_true h]
    rfl
  cases c with
  | tokens => simp [checks, Log.ofToken, h]
  | check => simp [checks, Log.ofCheckedToken, Log.ofToken, h, herror]

/-- There are records about every token but the end of the source. -/
theorem remarks_eq (c : Command) (tokens : List Token) :
    c.remarks tokens = (tokens.filter (!·.isEof)).flatMap c.remarksOn := by
  unfold Command.remarks
  induction tokens with
  | nil => rfl
  | cons t tokens ih =>
    rw [List.flatMap_cons, ih]
    cases hend : t.isEof with
    | true =>
      rw [remarks_isEof c hend, List.filter_cons_of_neg (by simp [hend]), List.nil_append]
    | false =>
      rw [remarksOn_of_not_isEof c hend, List.filter_cons_of_pos (by simp [hend]),
        List.flatMap_cons]

/-- At its end a command tells plain lines only. -/
theorem told_ending (c : Command) (tokens : List Token) (w : World) :
    ∃ lines : List String,
      ((c.ending tokens).run w).2.told = w.told ++ lines.map .line := by
  cases c with
  | tokens input output format d =>
    cases output with
    | standard =>
      have hrun : (ending tokens (.tokens input .standard format d)).run w = _ :=
        run_bind_of_ok (run_write_standard _ _)
      exact ⟨[], (congrArg (·.2.told) hrun).trans (List.append_nil _).symm⟩
    | file path =>
      obtain ⟨written, t, -, -, hwrite⟩ := run_write_file (format.dump tokens) path w
      cases written with
      | ok =>
        have hrun : (ending tokens (.tokens input (.file path) format d)).run w = _ :=
          run_bind_of_ok hwrite
        exact ⟨[doneLine "TOKENS" path],
          (congrArg (·.2.told) hrun).trans (World.told_saying _ _)⟩
      | error fault =>
        have hrun : (ending tokens (.tokens input (.file path) format d)).run w = _ :=
          run_bind_of_error hwrite
        exact ⟨[], (congrArg (·.2.told) hrun).trans (World.told_saying _ _)⟩
  | check input d =>
    have hlines : ∃ lines : List String, (verdict tokens).1 = lines.map .line := ⟨_, rfl⟩
    obtain ⟨lines, hlines⟩ := hlines
    have hrun : (ending tokens (.check input d)).run w = _ :=
      run_bind_lift (run_tellAll _ _)
    refine ⟨lines, (congrArg (·.2.told) hrun).trans ?_⟩
    rw [← hlines]
    exact World.told_saying _ _

/-- **A command tells its log and then plain lines only.** -/
theorem told_run (c : Command) {w : World} {source : String}
    (h : World.outcome c.input.read w = .ok source) :
    ∃ lines : List String, ((run (m := StateM World) c).run w).2.told =
      w.told ++ (c.log source).map .record ++ lines.map .line := by
  obtain ⟨result, w', hread, -, -, htold⟩ := run_read c.input w
  have hresult : result = .ok source := (congrArg Prod.fst hread).symm.trans h
  subst hresult
  obtain ⟨lines, hlines⟩ := told_ending c (Token.ofSource c.dialect source)
    (w'.saying ((c.remarks (Token.ofSource c.dialect source)).map .record))
  refine ⟨lines, ?_⟩
  rw [run_of_ok hread, hlines, World.told_saying, htold, remarks_eq, log, List.map_append,
    List.append_assoc w.told]
  rfl

namespace Invocation

variable {i : Invocation} {e : Environment} {w w' : World}

/-- Without a filter in the environment there is no directive to warn of. -/
theorem warnings_eq_nil (h : e.logFilter = none) (i : Invocation) : i.warnings e = [] := by
  simp only [warnings, filter, h, List.map_nil]

/-- Where no filter is set, there is nothing to tell before the command. -/
theorem run_tell_warnings (h : e.logFilter = none) (i : Invocation) (w : World) :
    (tellAll (m := StateM World) (i.warnings e)).run w = ((), w) := by
  rw [warnings_eq_nil h]
  rfl

/-- A command that ends with a status gives the invocation that status and tells nothing more.
-/
theorem run_perform_of_ok (h : e.logFilter = none) {status : ExitStatus}
    (hrun : (run (m := StateM World) i.command).run w = (.ok status, w')) :
    (i.perform (m := StateM World) e).run w = (status, w') :=
  (run_bind_of_eq (run_tell_warnings h i w)).trans (run_bind_of_eq hrun)

/-- A command that fails is told of in one line, and the invocation fails. -/
theorem run_perform_of_error (h : e.logFilter = none) {failure : Failure}
    (hrun : (run (m := StateM World) i.command).run w = (.error failure, w')) :
    (i.perform (m := StateM World) e).run w = (.failure, w'.saying [.line failure.line]) :=
  (run_bind_of_eq (run_tell_warnings h i w)).trans (run_bind_of_eq hrun)

/-- An invocation whose source cannot be read tells that and nothing else. -/
theorem told_perform_of_error (h : e.logFilter = none) {failure : Failure}
    (hread : World.outcome i.command.input.read w = .error failure) :
    ((i.perform (m := StateM World) e).run w).2.told = w.told ++ [.line failure.line] := by
  obtain ⟨result, w', hrun, -, -, htold⟩ := run_read i.command.input w
  have hresult : result = .error failure := (congrArg Prod.fst hrun).symm.trans hread
  subst hresult
  rw [run_perform_of_error h (run_of_error hrun), World.told_saying, htold]
  exact congrArg (· ++ _) (List.append_nil _)

/-- An invocation whose source is read tells the records of the run, in order, and then lines
alone. -/
theorem told_perform_of_ok (h : e.logFilter = none) {source : String}
    (hread : World.outcome i.command.input.read w = .ok source) :
    ∃ lines : List String, ((i.perform (m := StateM World) e).run w).2.told =
      w.told ++ (i.command.log source).map .record ++ lines.map .line := by
  obtain ⟨lines, htold⟩ := told_run i.command hread
  rcases hrun : (run (m := StateM World) i.command).run w with ⟨result, w'⟩
  rw [hrun] at htold
  cases result with
  | ok status =>
    refine ⟨lines, ?_⟩
    rw [run_perform_of_ok h hrun, htold]
  | error failure =>
    refine ⟨lines ++ [failure.line], ?_⟩
    rw [run_perform_of_error h hrun, World.told_saying, htold, List.map_append,
      ← List.append_assoc]
    rfl

end Invocation

/-! ## Two runs of one command -/

/-- The record of an event on the lowest level. -/
def traced : Log.Event → Option Log.Record
  | .line _ => none
  | .record r => if r.level = .trace then some r else none

/-- Of all that is logged about a token, one record is the trace of it. -/
theorem filterMap_traced_remarksOn (c : Command) (t : Token) :
    ((c.remarksOn t).map Log.Event.record).filterMap traced = [Log.token t] := by
  unfold remarksOn
  cases t.isError <;> cases c.checks <;> rfl

/-- Nothing logged about the input is the trace of a token. -/
theorem filterMap_traced_remarks (input : Input) (result : Except Failure String) :
    ((input.remarks result).map Log.Event.record).filterMap traced = [] := by
  cases result <;> cases input <;> rfl

/-- A log has one such record about each token that it is about. -/
theorem filterMap_traced_log (c : Command) (source : String) (lines : List String) :
    ((c.log source).map Log.Event.record ++ lines.map Log.Event.line).filterMap traced =
      (c.reported source).map Log.token := by
  have hlines : (lines.map Log.Event.line).filterMap traced = [] := by
    rw [List.filterMap_map]
    exact List.filterMap_eq_nil_iff.mpr fun _ _ => rfl
  rw [List.filterMap_append, hlines, List.append_nil, log, List.map_append,
    List.filterMap_append, filterMap_traced_remarks, List.nil_append]
  induction c.reported source with
  | nil => rfl
  | cons t tokens ih =>
    rw [List.flatMap_cons, List.map_append, List.filterMap_append, filterMap_traced_remarksOn,
      ih]
    rfl

/-- An answer is what the invocation ends with, its output, and the events that its loudness
shows. -/
theorem answer_eq {args : List String} {i : Invocation} (h : Invocation.read args = .ok i)
    (e : Environment) (w : World) :
    answer args e w =
      let ended := (i.perform (m := StateM World) e).run w
      { status := ended.1, output := ended.2.printed,
        errors := (i.display e).shownAll ended.2.told, tree := ended.2.tree } := by
  rw [answer, h]
  rfl

/-- Where no filter is set, the texts of the events that an invocation shows are all that
goes to the error stream. -/
theorem errors_answer {args : List String} {i : Invocation} (h : Invocation.read args = .ok i)
    {e : Environment} (hunset : e.logFilter = none) (w : World) :
    (answer args e w).errors =
      String.join ((((i.perform (m := StateM World) e).run w).2.told.filter i.shows).map
        (i.display e).text) := by
  rw [answer_eq h, ← Invocation.admits_display hunset]
  exact Log.Display.shownAll_eq _ _

/-- **Verbosity never changes results.** Where no filter is set, two runs of one command come
to the same end with the same output and the same files. The quieter one shows the lines of
the louder one without the records above its own level.

The loudest shows exactly one record on the lowest level for each token but the end, in the
order of the source, with its kind, its lexeme and its line. An error is announced right before
it, with its line and its message, and in a check its span is told right after. What comes before
all that is the record of the file that has been read, and what comes after are plain lines. -/
theorem answer_loudness {args args' : List String} {i i' : Invocation} {e : Environment}
    (hread : Invocation.read args = .ok i) (hread' : Invocation.read args' = .ok i')
    (hcommand : i.command = i'.command) (hcolor : i.color = i'.color)
    (hunset : e.logFilter = none) (hlouder : i.loudness ≤ i'.loudness) (tree : File.Tree)
    (bytes : ByteArray) :
    let w : World := { tree, input := bytes }
    let quieter := answer args e w
    let louder := answer args' e w
    let events := ((i'.perform (m := StateM World) e).run w).2.told.filter i'.shows
    let handedOut : Token → Log.Record := fun t =>
      { level := .trace, target := "ember_lexer::scanner",
        message := "token " ++ t.kind.name ++ " " ++ Text.literal t.lexeme ++ " @"
          ++ toString t.line }
    let announced : Token → Log.Record := fun t =>
      { level := .debug, target := "ember_lexer::scanner",
        message := "lexical error at line " ++ toString t.line ++ ": " ++ t.lexeme }
    let met : Token → Log.Record := fun t =>
      { level := .debug, target := "ember_cli",
        message := "error token at Span \x7b start: Pos(" ++ toString t.span.start.toNat
          ++ "), end: Pos(" ++ toString t.span.stop.toNat ++ ") \x7d" }
    quieter.status = louder.status ∧ quieter.output = louder.output ∧
      quieter.tree = louder.tree ∧
      louder.errors = String.join (events.map (i'.display e).text) ∧
      quieter.errors = String.join ((events.filter i.shows).map (i'.display e).text) ∧
      (i'.IsLoudest →
        (∀ failure, World.outcome i'.command.input.read w = .error failure →
          events = [.line failure.line]) ∧
        ∀ source, World.outcome i'.command.input.read w = .ok source →
          let tokens := (Token.ofSource i'.command.dialect source).filter fun t => !t.isEof
          events.filterMap traced = tokens.map handedOut ∧
          ∃ (opening : List Log.Record) (lines : List String),
            (i'.command.input = .standard → opening = []) ∧
            (∀ path, i'.command.input = .file path →
              opening = [{ level := .info, target := "ember_cli",
                           message := "source chargée: " ++ path ++ " ("
                             ++ toString source.utf8ByteSize ++ " octets)" }]) ∧
            events = opening.map .record ++
              (tokens.flatMap fun t =>
                (if t.isError then [announced t] else []) ++ [handedOut t] ++
                  if i'.command.checks && t.isError then [met t] else []).map .record ++
              lines.map .line) := by
  intro w quieter louder events handedOut announced met
  have hsame : i.perform (m := StateM World) e = i'.perform e := by
    simp only [Invocation.perform, Invocation.warnings_eq_nil hunset, hcommand]
  have hstyle : (i.display e).style = (i'.display e).style := by
    simp only [Invocation.display, hcolor]
  have htext : (i.display e).text = (i'.display e).text := by
    funext event
    cases event with
    | line _ => rfl
    | record r => rw [Log.Display.text, Log.Display.text, hstyle]
  have hquieter : quieter = _ := answer_eq hread e w
  have hlouder' : louder = _ := answer_eq hread' e w
  rw [hsame] at hquieter
  refine ⟨?_, ?_, ?_, errors_answer hread' hunset w, ?_, ?_⟩
  · rw [hquieter, hlouder']
  · rw [hquieter, hlouder']
  · rw [hquieter, hlouder']
  · rw [Invocation.filter_shows hlouder, ← htext, ← hsame]
    exact errors_answer hread hunset w
  · intro hloudest
    have hall : events = ((i'.perform (m := StateM World) e).run w).2.told :=
      List.filter_eq_self.mpr fun event _ => Invocation.shows_of_isLoudest hloudest event
    rw [hall]
    refine ⟨fun failure hsource => ?_, fun source hsource => ?_⟩
    · exact Invocation.told_perform_of_error hunset hsource
    · obtain ⟨lines, htold⟩ := Invocation.told_perform_of_ok hunset hsource
      refine ⟨(congrArg _ htold).trans (filterMap_traced_log _ _ _),
        i'.command.input.remarks (.ok source), lines, ?_, ?_, ?_⟩
      · intro hstandard
        rw [hstandard]
        rfl
      · intro path hfile
        rw [hfile]
        rfl
      · rw [htold, log, List.map_append]
        rfl

/-- A check of a stray character, as quiet and as loud as can be: the loud one shows three
records before the lines of the quiet one. -/
theorem answer_loudness_mixed :
    let source := "@"
    let w : World := { tree := { entries := [], work := [] }, input := source.toUTF8 }
    let quieter := answer ["-q", "check"] {} w
    let louder := answer ["check", "-vvv"] {} w
    quieter.status = louder.status ∧
      louder.errors =
        "[DEBUG ember_lexer::scanner] lexical error at line 1: Unexpected character.\n"
          ++ "[TRACE ember_lexer::scanner] token ERROR \"Unexpected character.\" @1\n"
          ++ "[DEBUG ember_cli] error token at Span \x7b start: Pos(0), end: Pos(1) \x7d\n"
          ++ quieter.errors := by
  intro source w quieter louder
  have hread : Invocation.read ["-q", "check"] =
      .ok { command := .check .standard {}, quiet := true } := rfl
  have hread' : Invocation.read ["check", "-vvv"] =
      .ok { command := .check .standard {}, verbosity := 3 } := rfl
  obtain ⟨hstatus, -, -, hlouder, hquieter, hloudest⟩ :=
    answer_loudness (e := {}) hread hread' rfl rfl rfl (by decide) w.tree w.input
  have hsource : World.outcome (Input.standard.read (m := StateM World)) w = .ok source :=
    congrArg (Except.mapError Failure.input) (decode_toUTF8 source)
  obtain ⟨-, opening, lines, hopening, -, hevents⟩ := (hloudest rfl).2 source hsource
  have htokens : Token.ofSource
      ({ command := .check .standard {}, verbosity := 3 } : Invocation).command.dialect source =
      [{ kind := .error, lexeme := "Unexpected character.", line := 1, span := .ofNat 0 1 },
        { kind := .eof, lexeme := "", line := 1, span := .ofNat 1 1 }] := by decide +kernel
  rw [hopening rfl, htokens] at hevents
  rw [hevents, List.filter_append, Invocation.filter_shows_lines] at hquieter
  rw [hevents, List.map_append, String.join_append] at hlouder
  refine ⟨hstatus, hlouder.trans ?_⟩
  rw [show quieter.errors = _ from hquieter]
  refine congrArg (· ++ _) ?_
  decide +kernel

end ScriptFront.Command
