import Arbor.Cli.Repl
import Arbor.Proofs.SessionHistory
import Arbor.Proofs.TreeEcho

/-!
# Interactive runs, block by block

One session and one buffer live through an interactive run, but the answer to a line is settled by
the lines since the last blank one: `Repl.reply` names no session. A block that ends is reported as
it would be if it were all there is, and in the words of a single run if it compiles. A step keeps
what the buffer holds (`step_block`), so a whole run answers line by line (`steps_eq`).
-/

namespace Arbor.Cli.Repl

/-- The lines since the last blank one. -/
def pending (lines : List String) : List String :=
  lines.rtakeWhile fun line => !Text.isBlank line

/-- Lines as one text, each with its end. -/
def blockOf (lines : List String) : String :=
  String.join (lines.map (· ++ "\n"))

/-- The report of a block, compiled on its own. -/
def report (runtime : String) (wording : TreeError.Wording) (block : String) : Answer :=
  match Program.read block with
  | .error error => ⟨"malformed parse tree: " ++ wording block error ++ "\n\n", []⟩
  | .ok program =>
    ⟨match program.compile with
      | .ok artifact =>
        "Compiled result:\n" ++ artifact.withRuntime runtime ++ artifact.bindings.dump
      | .error error => error.message ++ "\n\n",
     program.compilation.log⟩

/-- The answer to a line behind other lines. -/
def reply (runtime : String) (wording : TreeError.Wording) (before : List String)
    (line : String) : Answer :=
  if Text.isBlank line then
    if pending before = [] then ⟨"==> ", []⟩
    else
      let answer := report runtime wording (blockOf (pending before))
      ⟨answer.shown ++ "==> ", answer.log⟩
  else ⟨"  > ", []⟩

/-- The answers to lines, each with those before it. -/
def replies (runtime : String) (wording : TreeError.Wording) (lines : List String) :
    List Answer :=
  lines.mapIdx fun i line => reply runtime wording (lines.take i) line

/-! ## One line -/

variable {before : List String} {repl : Repl} {wording : TreeError.Wording}

theorem pending_concat (before : List String) (line : String) :
    pending (before ++ [line]) = if Text.isBlank line then [] else pending before ++ [line] := by
  rw [pending, List.rtakeWhile_concat, pending]
  cases Text.isBlank line <;> rfl

theorem blockOf_concat (lines : List String) (line : String) :
    blockOf (lines ++ [line]) = blockOf lines ++ line ++ "\n" := by
  simp [blockOf, String.append_assoc]

/-- Every line of a block ends, so only the block without lines is empty. -/
theorem blockOf_eq_empty {lines : List String} : blockOf lines = "" ↔ lines = [] := by
  constructor
  · intro empty
    cases lines with
    | nil => rfl
    | cons line rest =>
      have ended := congrArg String.toList empty
      simp [blockOf] at ended
  · rintro rfl
    rfl

/-- The session in which a block is compiled does not matter. -/
theorem compileBlock_answer (runtime : String) (session : Session) (block : String) :
    (compileBlock runtime wording session block).2 = report runtime wording block := by
  unfold compileBlock report
  cases Program.read block with
  | error error => rfl
  | ok program =>
    have loaded : (session.load program).program = some program := rfl
    dsimp only
    rw [Session.run_log loaded]
    rcases Session.run_cases loaded with
      ⟨artifact, compiled, done, shown⟩ | ⟨error, refused, failed, -⟩
    · simp only [done, compiled, shown, Artifact.withRuntime, String.append_assoc]
    · simp only [failed, refused]

theorem step_answer (runtime : String) (holds : repl.block = blockOf (pending before))
    (line : String) :
    (step runtime wording repl line).2 = reply runtime wording before line := by
  unfold step reply
  by_cases blank : Text.isBlank line
  · simp only [blank, ↓reduceIte, holds, blockOf_eq_empty]
    split
    · rfl
    · rw [← compileBlock_answer runtime repl.session]
      rfl
  · simp only [blank]
    rfl

theorem step_block (runtime : String) (holds : repl.block = blockOf (pending before))
    (line : String) :
    (step runtime wording repl line).1.block = blockOf (pending (before ++ [line])) := by
  rw [pending_concat]
  unfold step
  by_cases blank : Text.isBlank line
  · simp only [blank, ↓reduceIte]
    split
    · next empty => exact empty
    · rfl
  · simp only [blank]
    rw [if_neg Bool.false_ne_true, if_neg Bool.false_ne_true, blockOf_concat, ← holds]

/-! ## Many lines -/

theorem steps_cons (runtime : String) (repl : Repl) (line : String) (rest : List String) :
    steps runtime wording repl (line :: rest) =
      let answer := (step runtime wording repl line).2
      let others := steps runtime wording (step runtime wording repl line).1 rest
      ⟨answer.shown ++ others.shown, answer.log ++ others.log⟩ :=
  rfl

/-- From a run whose buffer holds what is pending, whatever its session. -/
theorem steps_eq (runtime : String) (holds : repl.block = blockOf (pending before))
    (lines : List String) :
    steps runtime wording repl lines =
      let answers := lines.mapIdx fun i line => reply runtime wording (before ++ lines.take i) line
      ⟨String.join (answers.map Answer.shown), (answers.map Answer.log).flatten⟩ := by
  induction lines generalizing repl before with
  | nil => rfl
  | cons line rest ih =>
    rw [steps_cons, step_answer runtime holds, ih (step_block runtime holds line)]
    simp [List.mapIdx_cons]

theorem steps_start (runtime : String) (lines : List String) :
    steps runtime wording start lines =
      ⟨String.join ((replies runtime wording lines).map Answer.shown),
        ((replies runtime wording lines).map Answer.log).flatten⟩ := by
  have holds : start.block = blockOf (pending []) := rfl
  exact steps_eq runtime holds lines

/-- Lines behind the last blank one are collected and no more. -/
theorem replies_append (runtime : String) (before : List String) {rest : List String}
    (collected : ∀ line ∈ rest, ¬Text.isBlank line) :
    replies runtime wording (before ++ rest) =
      replies runtime wording before ++ rest.map fun _ => ⟨"  > ", []⟩ := by
  rw [replies, List.mapIdx_append]
  congr 1
  · rw [replies, List.mapIdx_eq_mapIdx_iff]
    intro i inside
    rw [List.take_append_of_le_length (Nat.le_of_lt inside)]
  · apply List.ext_getElem
    · simp
    · intro i inside _
      have short : i < rest.length := by simpa using inside
      have notBlank := collected rest[i] (List.getElem_mem short)
      simp [reply, notBlank]

/-! ## Single runs -/

theorem decodeText_toUTF8 (text : String) : decodeText text.toUTF8 = .ok text := by
  have decoded : String.fromUTF8? text.toUTF8 = some text := dif_pos text.isValidUTF8
  rw [decodeText, decoded]

/-- A single run on a source that compiles prints what it delivers, and touches no file. -/
theorem visible_runOnce_of_compiled {m : Type → Type} [Monad m] [LawfulMonad m]
    {source : String} {artifact : Artifact} (compiled : compileSource source = .ok artifact)
    (store : FileStore m) (filter : LogFilter) {options : Options}
    (fromInput : options.input = none) (toOutput : options.output = none) :
    Outcome.visible <$> runOnce store (pure source.toUTF8) filter options wording =
      pure (0, deliveredText options artifact) := by
  have read : readSource store (pure source.toUTF8) options = pure (.ok source) := by
    rw [readSource, fromInput]
    simp only [pure_bind, decodeText_toUTF8]
    rfl
  have delivered (text : String) : deliver store options text = pure (.ok text) := by
    rw [deliver, toOutput]
  rw [visible_runOnce, read, pure_bind]
  dsimp only
  rw [compiled]
  dsimp only [Except.toOption]
  rw [delivered, pure_bind]

/-- A single run on a source that compiles, with its bindings asked for. -/
theorem runOnce_of_compiled {World : Type} {source : String} {artifact : Artifact}
    (compiled : compileSource source = .ok artifact) (store : FileStore (StateM World))
    (filter : LogFilter) {options : Options} (fromInput : options.input = none)
    (toOutput : options.output = none) (bindings : options.bindings) (world : World) :
    let single := (runOnce store (pure source.toUTF8) filter options wording).run world
    single.1.exitCode = 0 ∧
      single.1.stdout = artifact.withRuntime options.runtime ++ artifact.bindings.dump ∧
        single.2 = world := by
  have printed : Outcome.visible <$> runOnce store (pure source.toUTF8) filter options wording =
      Outcome.visible <$> pure ⟨0, deliveredText options artifact, ""⟩ :=
    (visible_runOnce_of_compiled compiled store filter fromInput toOutput).trans
      (map_pure ..).symm
  obtain ⟨exits, text, worlds⟩ := Outcome.same_of_visible printed world
  refine ⟨exits, text.trans ?_, worlds⟩
  change deliveredText options artifact = _
  rw [deliveredText, if_pos bindings]

/-- What is shown for a block by how its compilation ends. -/
theorem report_shown (runtime : String) (wording : TreeError.Wording) (block : String) :
    match compileSource block with
    | .ok artifact => (report runtime wording block).shown =
        "Compiled result:\n" ++ artifact.withRuntime runtime ++ artifact.bindings.dump
    | .error (.malformedTree error) => (report runtime wording block).shown =
        "malformed parse tree: " ++ wording block error ++ "\n\n"
    | .error (.rejected error) => (report runtime wording block).shown = error.message ++ "\n\n"
    | .error _ => False := by
  rw [compileSource, compileLogged, report]
  cases Program.read block with
  | error error => rfl
  | ok program =>
    dsimp only [Program.compile]
    cases program.compilation.outcome <;> rfl

/-- An interactive run answers line by line: to a line of a block that it goes on, and to a blank
line with the report of the block before it and that another may begin. The report of a block is its
own: behind its first line it is what a single run prints for the same text, or it is why the text
does not compile, in the words there are for the errors of a tree. Lines behind the last blank one
are answered too, but never compiled. -/
theorem blocks_compile_alone (runtime : String) (wording : TreeError.Wording) :
    (∀ lines, transcript runtime wording lines = greeting ++ "==> " ++
      String.join ((replies runtime wording lines).map Answer.shown) ++ "\n") ∧
    (∀ filter input lines, readLines (splitLines input.toList) = (lines, false) →
      run filter runtime input wording = ⟨0, transcript runtime wording lines,
        filter.lines ((replies runtime wording lines).map Answer.log).flatten⟩) ∧
    (∀ before rest, (∀ line ∈ rest, ¬Text.isBlank line) →
      replies runtime wording (before ++ rest) =
        replies runtime wording before ++ rest.map fun _ => ⟨"  > ", []⟩) ∧
    ∀ block, match compileSource block with
      | .ok artifact =>
        (report runtime wording block).shown =
          "Compiled result:\n" ++ artifact.withRuntime runtime ++ artifact.bindings.dump ∧
        ∀ {World : Type} (store : FileStore (StateM World)) (filter : LogFilter)
          (options : Options) (world : World), options.input = none → options.output = none →
          options.runtime = runtime → options.bindings →
            let single := (runOnce store (pure block.toUTF8) filter options wording).run world
            single.1.exitCode = 0 ∧ single.2 = world ∧
              (report runtime wording block).shown = "Compiled result:\n" ++ single.1.stdout
      | .error (.malformedTree error) => (report runtime wording block).shown =
          "malformed parse tree: " ++ wording block error ++ "\n\n"
      | .error (.rejected error) => (report runtime wording block).shown = error.message ++ "\n\n"
      | .error _ => False := by
  refine ⟨?_, ?_, fun before rest => replies_append runtime before, ?_⟩
  · intro lines
    rw [transcript, steps_start]
    rfl
  · intro filter input lines read
    have logged : (steps runtime wording start lines).log =
        ((replies runtime wording lines).map Answer.log).flatten :=
      congrArg Answer.log (steps_start runtime lines)
    rw [run, read, ← logged]
    rfl
  · intro block
    have shown := report_shown runtime wording block
    cases compiled : compileSource block with
    | error failure =>
      rw [compiled] at shown
      cases failure <;> exact shown
    | ok artifact =>
      rw [compiled] at shown
      refine ⟨shown, ?_⟩
      rintro World store filter options world fromInput toOutput rfl bindings
      obtain ⟨exits, printed, worlds⟩ :=
        runOnce_of_compiled compiled store filter fromInput toOutput bindings world
      refine ⟨exits, worlds, shown.trans ?_⟩
      rw [printed, String.append_assoc]

/-- A block that is no program, an empty one behind it, and the beginning of a third. -/
def broken : List String :=
  ["[5", "", "[]", " ", "[", "5"]

theorem blocks_compile_alone_behind_failure :
    let input := "[5\r\n\n[]\n \n[\n5".toUTF8
    (readLines (splitLines input.toList) = (broken, false) ∧
      run .everything "./rt" input = ⟨0, transcript "./rt" .bare broken,
        LogFilter.everything.lines ((replies "./rt" .bare broken).map Answer.log).flatten⟩) ∧
    replies "./rt" .bare broken =
      replies "./rt" .bare ["[5", "", "[]", " "] ++ [⟨"  > ", []⟩, ⟨"  > ", []⟩] ∧
    (compileSource "[]\n" = .ok ⟨"", []⟩ ∧ (report "./rt" .bare "[]\n").shown =
      "Compiled result:\n" ++ ((runOnce FileTree.store (pure "[]\n".toUTF8) .off
        { Options.default with runtime := "./rt", bindings := true }).run ⟨[], []⟩).1.stdout) := by
  intro input
  have read : readLines (splitLines input.toList) = (broken, false) := by decide +kernel
  have compiled : compileSource "[]\n" = .ok ⟨"", []⟩ := rfl
  obtain ⟨-, runs, collected, blocks⟩ := blocks_compile_alone "./rt" .bare
  have block := blocks "[]\n"
  rw [compiled] at block
  refine ⟨⟨read, runs .everything input broken read⟩, ?_, compiled, ?_⟩
  · exact collected ["[5", "", "[]", " "] ["[", "5"] (by decide)
  · exact (block.2 _ _ _ _ rfl rfl rfl rfl).2.2

end Arbor.Cli.Repl
