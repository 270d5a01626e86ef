import Arbor.Compile.Session
import Arbor.Proofs.EmitRun
import Mathlib.Data.List.DropRight

/-!
# Sessions after any history

A session is loaded, run and renewed in any order. What it answers to a run, and which names it
shows, is settled by the end of its history alone: by the program that was loaded last, if the
session was not renewed since, and by whether a run went through behind that. A run that fails, a
run that is repeated and whatever came before the last load leave no trace.
-/

namespace Arbor.Session

/-- What can be done to a session. -/
inductive Operation where
  | load (program : Program)
  | run
  /-- A fresh session takes the place of this one. -/
  | renew

/-- The operation is a run. -/
def Operation.isRun : Operation → Bool
  | .run => true
  | _ => false

/-- The session after an operation. -/
def perform (session : Session) : Operation → Session
  | .load program => session.load program
  | .run => session.run.session
  | .renew => .fresh

/-- The session after a history, the oldest operation first. -/
def after (history : List Operation) : Session :=
  history.foldl perform .fresh

/-- The program that a history leaves loaded: that of its last operation but for runs, if this is a
load. -/
def loaded? (history : List Operation) : Option Program :=
  match (history.rdropWhile Operation.isRun).getLast? with
  | some (.load program) => some program
  | _ => none

/-- A run went through, and nothing but runs came behind it. -/
def Succeeded (history : List Operation) : Prop :=
  ∃ earlier runs output, history = earlier ++ .run :: runs ∧ (∀ op ∈ runs, op = .run) ∧
    (after earlier).run.outcome = .ok output

/-! ## One operation -/

theorem run_unloaded {session : Session} (unloaded : session.program = none) :
    session.run = ⟨.error .noProgramLoaded, session, []⟩ := by
  simp only [run, unloaded]

/-- All that a run of a loaded program can do: it goes the way of a compilation of the program, and
what the session showed before is gone either way. -/
theorem run_cases {session : Session} {program : Program}
    (loaded : session.program = some program) :
    (∃ artifact, program.compile = .ok artifact ∧ session.run.outcome = .ok artifact.output ∧
      session.run.session.bindings = artifact.bindings) ∨
    (∃ error, program.compile = .error error ∧ session.run.outcome = .error error ∧
      session.run.session.bindings = []) := by
  simp only [run, loaded, Program.compile, Program.compilation]
  cases program.emit with
  | ok output state => exact .inl ⟨_, rfl, rfl, rfl⟩
  | error error state => exact .inr ⟨_, rfl, rfl, rfl⟩

theorem run_log {session : Session} {program : Program}
    (loaded : session.program = some program) : session.run.log = program.compilation.log := by
  simp only [run, loaded, Program.compilation]
  cases program.emit <;> rfl

theorem run_program (session : Session) : session.run.session.program = session.program := by
  cases loaded : session.program with
  | none => rw [run_unloaded loaded, loaded]
  | some program =>
    simp only [run, loaded]
    cases program.emit <;> rfl

/-! ## Histories, the latest operation last -/

theorem after_concat (history : List Operation) (op : Operation) :
    after (history ++ [op]) = (after history).perform op :=
  List.foldl_concat ..

theorem loaded?_concat (history : List Operation) (op : Operation) :
    loaded? (history ++ [op]) = match op with
      | .load program => some program
      | .run => loaded? history
      | .renew => none := by
  unfold loaded?
  rw [List.rdropWhile_concat]
  cases op <;> simp [Operation.isRun]

theorem program_after (history : List Operation) : (after history).program = loaded? history := by
  induction history using List.reverseRecOn with
  | nil => rfl
  | append_singleton history op ih =>
    rw [after_concat, loaded?_concat]
    cases op with
    | load program => rfl
    | run => exact (run_program _).trans ih
    | renew => rfl

/-- A run has gone through after one more operation if this is a run, and either it goes through
or one had before. -/
theorem succeeded_concat {history : List Operation} {op : Operation} :
    Succeeded (history ++ [op]) ↔
      op = .run ∧ (Succeeded history ∨ ∃ output, (after history).run.outcome = .ok output) := by
  constructor
  · rintro ⟨earlier, runs, output, same, onlyRuns, done⟩
    cases runs using List.reverseRecOn with
    | nil =>
      obtain ⟨rfl, last⟩ := List.append_inj' same rfl
      exact ⟨List.singleton_inj.mp last, .inr ⟨output, done⟩⟩
    | append_singleton runs last =>
      rw [← List.cons_append, ← List.append_assoc] at same
      obtain ⟨rfl, lastSame⟩ := List.append_inj' same rfl
      have isRun : last = .run := onlyRuns last (by simp)
      refine ⟨(List.singleton_inj.mp lastSame).trans isRun, .inl ?_⟩
      exact ⟨earlier, runs, output, rfl, fun op member => onlyRuns op (by simp [member]), done⟩
  · rintro ⟨rfl, ⟨earlier, runs, output, rfl, onlyRuns, done⟩ | ⟨output, done⟩⟩
    · refine ⟨earlier, runs ++ [.run], output, by simp, ?_, done⟩
      intro op member
      rcases List.mem_append.mp member with member | member
      · exact onlyRuns op member
      · exact List.mem_singleton.mp member
    · exact ⟨history, [], output, rfl, by simp, done⟩

/-- A run can have gone through only of the program that is loaded, and its bindings are shown. -/
theorem bindings_of_succeeded {history : List Operation} (succeeded : Succeeded history) :
    ∃ program artifact, loaded? history = some program ∧ program.compile = .ok artifact ∧
      (after history).bindings = artifact.bindings := by
  induction history using List.reverseRecOn with
  | nil =>
    obtain ⟨earlier, runs, output, same, -⟩ := succeeded
    simp at same
  | append_singleton history op ih =>
    obtain ⟨rfl, before⟩ := succeeded_concat.mp succeeded
    rw [after_concat, loaded?_concat, perform]
    cases loaded : loaded? history with
    | none =>
      have unloaded := (program_after history).trans loaded
      rcases before with before | ⟨output, done⟩
      · obtain ⟨program, artifact, other, -⟩ := ih before
        cases loaded.symm.trans other
      · rw [run_unloaded unloaded] at done
        cases done
    | some program =>
      rcases run_cases ((program_after history).trans loaded) with
        ⟨artifact, compiled, -, shown⟩ | ⟨error, refused, failed, -⟩
      · exact ⟨program, artifact, rfl, compiled, shown⟩
      · rcases before with before | ⟨output, done⟩
        · -- A program that went through once cannot fail when it is run again.
          obtain ⟨_, artifact, other, compiled, -⟩ := ih before
          cases loaded.symm.trans other
          cases refused.symm.trans compiled
        · cases failed.symm.trans done

theorem bindings_of_not_succeeded {history : List Operation} (not : ¬Succeeded history) :
    (after history).bindings = [] := by
  induction history using List.reverseRecOn with
  | nil => rfl
  | append_singleton history op ih =>
    rw [after_concat]
    cases op with
    | load program => rfl
    | renew => rfl
    | run =>
      obtain ⟨notBefore, notNow⟩ := not_or.mp fun either => not (succeeded_concat.mpr ⟨rfl, either⟩)
      rw [perform]
      cases loaded : (after history).program with
      | none =>
        rw [run_unloaded loaded]
        exact ih notBefore
      | some program =>
        rcases run_cases loaded with ⟨artifact, -, done, -⟩ | ⟨error, -, -, shown⟩
        · exact absurd ⟨_, done⟩ notNow
        · exact shown

/-- Sessions have no memory but for the program loaded last. After any history a run answers that
nothing is loaded, or what a compilation of that program gives; and the names shown are those of its
compilation if a run has gone through since it was loaded, and none otherwise. -/
theorem answers_by_last_load (history : List Operation) :
    ((after history).run.outcome = match loaded? history with
      | none => .error .noProgramLoaded
      | some program => program.compile.map Artifact.output) ∧
    (Succeeded history → ∃ program artifact, loaded? history = some program ∧
      program.compile = .ok artifact ∧ (after history).bindings = artifact.bindings) ∧
    (¬Succeeded history → (after history).bindings = []) := by
  refine ⟨?_, bindings_of_succeeded, bindings_of_not_succeeded⟩
  rw [← program_after]
  cases loaded : (after history).program with
  | none => rw [run_unloaded loaded]
  | some program =>
    dsimp only
    rcases run_cases loaded with ⟨artifact, compiled, done, -⟩ | ⟨error, refused, failed, -⟩
    · rw [done, compiled]
      rfl
    · rw [failed, refused]
      rfl

/-- A program that declares two names, and one that fails behind its first. -/
def declaring : Program :=
  [.bind "a" (.new (.type (.prim .int) none [] none [])), .bind "b" (.ident "a")]

def failing : Program :=
  [.bind "a" (.new (.type (.prim .int) none [] none [])), .ident "c"]

theorem answers_by_last_load_of_failing :
    let early : List Operation := [.load failing, .run, .load declaring, .run, .run]
    let late : List Operation := early ++ [.load failing, .run]
    (Succeeded early ∧ (after early).bindings = [("a", .prim .int), ("b", .prim .int)]) ∧
      (¬Succeeded late ∧ (after late).bindings = [] ∧
        (after late).run.outcome = .error (.undefinedVariable "c")) := by
  intro early late
  have succeeded : Succeeded early :=
    ⟨[.load failing, .run, .load declaring], [.run], _, rfl, by simp, rfl⟩
  have not : ¬Succeeded late := by
    intro done
    have last : Succeeded ((early ++ [.load failing]) ++ [.run]) := done
    rcases (succeeded_concat.mp last).2 with before | ⟨output, now⟩
    · cases (succeeded_concat.mp before).1
    · cases now
  obtain ⟨program, artifact, ⟨⟩, ⟨⟩, shown⟩ := (answers_by_last_load early).2.1 succeeded
  exact ⟨⟨succeeded, shown⟩, not, (answers_by_last_load late).2.2 not,
    (answers_by_last_load late).1⟩

end Arbor.Session
