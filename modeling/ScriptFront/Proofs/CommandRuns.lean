/-
What a command does to a world.

A command reads, tells what there is to tell, and then puts a dump somewhere or gives a
verdict. Each of these steps touches its own part of a world only: reading takes up the
input (`run_read`), telling adds events, and a dump is either printed or put into the tree
(`run_write_standard`, `run_write_file`).

Whatever a command is asked for at its end, it begins in the same way, so a run is the run
of its ending in the world that reading and telling have left (`run_of_ok`).
-/
import ScriptFront.Command.Run
import ScriptFront.Proofs.CheckResult
import ScriptFront.Proofs.Replacement

set_option autoImplicit false

namespace ScriptFront

/-! ## Telling and reading -/

namespace World

/-- The world in which more has been told. -/
def saying (w : World) (events : List Log.Event) : World :=
  { w with toldReversed := events.reverse ++ w.toldReversed }

@[simp] theorem tree_saying (w : World) (events : List Log.Event) :
    (w.saying events).tree = w.tree := rfl

@[simp] theorem told_saying (w : World) (events : List Log.Event) :
    (w.saying events).told = w.told ++ events := by
  rw [told, saying, List.reverse_append, List.reverse_reverse]
  rfl

/-- What is said first stands first. -/
theorem saying_saying (w : World) (events events' : List Log.Event) :
    (w.saying events).saying events' = w.saying (events ++ events') := by
  simp only [saying, List.reverse_append, List.append_assoc]

end World

namespace Command

/-- Telling events one after the other says them in their order. -/
theorem run_tellAll (events : List Log.Event) (w : World) :
    (tellAll (m := StateM World) events).run w = ((), w.saying events) := by
  induction events generalizing w with
  | nil => rfl
  | cons e events ih =>
    have hstep : (tellAll (m := StateM World) (e :: events)).run w =
        (tellAll (m := StateM World) events).run (w.saying [e]) := rfl
    rw [hstep, ih, World.saying_saying, List.singleton_append]

/-- Bytes that decode to a text are the encoding of it. -/
theorem eq_toUTF8_of_decode {bytes : ByteArray} {source : String} (h : decode bytes = .ok source) :
    bytes = source.toUTF8 := by
  unfold decode String.fromUTF8? at h
  by_cases hvalid : bytes.IsValidUTF8
  · rw [dif_pos hvalid] at h
    rw [← Except.ok.inj h]
    rfl
  · rw [dif_neg hvalid] at h
    contradiction

/-- What is remarked about reading a source, by what the reading has come to. -/
def Input.remarks (input : Input) : Except Failure String → List Log.Record
  | .error _ => []
  | .ok source =>
    match input with
    | .standard => []
    | .file path => [Log.loaded path source.utf8ByteSize]

/-- **Reading changes no file and prints nothing**, and tells about a file that was read. -/
theorem run_read (input : Input) (w : World) :
    ∃ result w', (input.read (m := StateM World)).run w = (result, w') ∧ w'.tree = w.tree ∧
      w'.printed = w.printed ∧ w'.told = w.told ++ (input.remarks result).map .record := by
  cases input with
  | standard =>
    refine ⟨(decode w.input).mapError .input, { w with input := .empty }, rfl, rfl, rfl, ?_⟩
    cases (decode w.input).mapError Failure.input <;> exact (List.append_nil _).symm
  | file path =>
    cases hopen : w.tree.read path with
    | error cause =>
      have hread : (File.Store.read (m := StateM World) path).run w = (.error cause, w) := by
        rw [← hopen]
        rfl
      exact ⟨.error (.source path cause), w, run_bind_of_error (run_adapt_of_eq _ hread), rfl, rfl,
        (List.append_nil _).symm⟩
    | ok bytes =>
      have hread : (File.Store.read (m := StateM World) path).run w = (.ok bytes, w) := by
        rw [← hopen]
        rfl
      have hafter : ∀ {result : Except Failure String} {w' : World},
          ((do
            let source ← ExceptT.mk (pure ((decode bytes).mapError (.source path <| .reading ·)))
            Host.remark (m := StateM World) (Log.loaded path bytes.size)
            return source : ExceptT Failure (StateM World) String)).run w = (result, w') →
          ((Input.file path).read (m := StateM World)).run w = (result, w') :=
        fun h => (run_bind_of_ok (run_adapt_of_eq _ hread)).trans h
      cases hdecode : decode bytes with
      | error cause =>
        rw [hdecode] at hafter
        exact ⟨.error (.source path (.reading cause)), w, hafter rfl, rfl, rfl,
          (List.append_nil _).symm⟩
      | ok source =>
        rw [hdecode] at hafter
        refine ⟨.ok source, w.saying [.record (Log.loaded path bytes.size)], hafter rfl, rfl, rfl,
          ?_⟩
        rw [World.told_saying, eq_toUTF8_of_decode hdecode]
        rfl

/-! ## Writing -/

/-- What is told about writing a dump, by what the writing has come to. -/
def Output.confirmation (output : Output) : Except Failure Unit → List Log.Event
  | .error _ => []
  | .ok _ =>
    match output with
    | .standard => []
    | .file path => [.line (doneLine "TOKENS" path)]

theorem run_write_standard (dump : String) (w : World) :
    (Output.standard.write (m := StateM World) dump).run w =
      (.ok (), { w with printed := w.printed ++ dump }) := rfl

/-- A dump for a file is put there as a replacement, and told of once it is there. -/
theorem run_write_file (dump path : String) (w : World) :
    ∃ result t, File.Replacement path dump w.tree t result ∧
      (result = .ok () ↔ File.IsReplaceable w.tree path) ∧
      ((Output.file path).write (m := StateM World) dump).run w =
        (result.mapError (.output path), ({ w with tree := t } : World).saying
          ((Output.file path).confirmation (result.mapError (.output path)))) := by
  obtain ⟨result, t, hrun, hreplacement, hready⟩ := File.run_replace path dump w
  refine ⟨result, t, hreplacement, hready, ?_⟩
  have hadapted := run_adapt_of_eq (Failure.output path) hrun
  cases result with
  | ok => exact run_bind_of_ok hadapted
  | error fault => exact run_bind_of_error hadapted

/-! ## The parts of a command -/

/-- The source that a command reads. -/
def input : Command → Input
  | .tokens input _ _ _ => input
  | .check input _ => input

def dialect : Command → Dialect
  | .tokens _ _ _ d => d
  | .check _ d => d

/-- Whether a command looks for errors. -/
def checks : Command → Bool
  | .tokens .. => false
  | .check .. => true

/-- What a command tells about the tokens of its source. -/
def remarks (c : Command) (tokens : List Token) : List Log.Record :=
  tokens.flatMap (if c.checks then Log.ofCheckedToken else Log.ofToken)

/-- What a command does once it has told about the tokens of its source. -/
def ending (tokens : List Token) : Command → ExceptT Failure (StateM World) ExitStatus
  | .tokens _ output format _ => do
    output.write (m := StateM World) (format.dump tokens)
    return .success
  | .check _ _ => do
    tellAll (m := StateM World) (verdict tokens).1
    return (verdict tokens).2

variable {c : Command} {w w' : World}

/-- If its source cannot be read, a command does nothing else. -/
theorem run_of_error {failure : Failure}
    (h : (c.input.read (m := StateM World)).run w = (.error failure, w')) :
    (run (m := StateM World) c).run w = (.error failure, w') := by
  cases c with
  | tokens input output format d => exact run_bind_of_error h
  | check input d => exact run_bind_of_error h

/-- A command whose source is read logs the tokens of the source and then does what it ends
with. -/
theorem run_of_ok {source : String}
    (h : (c.input.read (m := StateM World)).run w = (.ok source, w')) :
    (run (m := StateM World) c).run w =
      (c.ending (Token.ofSource c.dialect source)).run
        (w'.saying ((c.remarks (Token.ofSource c.dialect source)).map .record)) := by
  cases c with
  | tokens input output format d =>
    exact (run_bind_of_ok h).trans (run_bind_lift (run_tellAll _ _))
  | check input d => exact (run_bind_of_ok h).trans (run_bind_lift (run_tellAll _ _))

end Command

end ScriptFront
