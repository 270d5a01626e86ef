import Arbor.Cli.Run
import Arbor.Files.Tree
import Arbor.Proofs.TreeEncoding

/-!
# The tree on show

A run that shows the tree it read reads its source twice: once whole, and once element by element
with the shape of each element settled before the next is looked at. The two readers meet errors in
different orders, but they agree on what goes through (`Program.read_eq_ok`). So showing the tree
changes neither how a run ends nor what it delivers.
-/

namespace Arbor

/-! ## Two readers -/

namespace Bracketed

/-- A reader of items refines another if it reads what the other does and takes it for a value at
once. The two may fail at different places. -/
def Refines {α β ε δ : Type} (taken : β → α → Prop) (item : List Char → Except ε (α × List Char))
    (part : List Char → Except δ (β × List Char)) : Prop :=
  ∀ text a rest, item text = .ok (a, rest) ↔ ∃ b, part text = .ok (b, rest) ∧ taken b a

variable {α β ε δ : Type} {kind : Bracketed} {lift : SyntaxError → ε} {raise : SyntaxError → δ}
  {item : List Char → Except ε (α × List Char)} {part : List Char → Except δ (β × List Char)}
  {taken : β → α → Prop}

/-- One item and those behind it. -/
theorem Refines.cons {items : List Char → Except ε (List α × List Char)}
    {parts : List Char → Except δ (List β × List Char)} (first : Refines taken item part)
    (others : Refines (List.Forall₂ taken) items parts) :
    Refines (List.Forall₂ taken)
      (fun text => do
        let (value, text) ← item text
        let (values, text) ← items text
        .ok (value :: values, text))
      (fun text => do
        let (value, text) ← part text
        let (values, text) ← parts text
        .ok (value :: values, text)) := by
  intro text values rest
  simp only [Except.bind_eq_ok, Prod.exists, Except.ok.injEq, Prod.mk.injEq]
  constructor
  · rintro ⟨a, middle, here, as, last, more, rfl, rfl⟩
    obtain ⟨b, read, same⟩ := (first _ _ _).mp here
    obtain ⟨bs, readMore, sames⟩ := (others _ _ _).mp more
    exact ⟨b :: bs, ⟨b, middle, read, bs, last, readMore, rfl, rfl⟩, .cons same sames⟩
  · rintro ⟨_, ⟨b, middle, read, bs, last, readMore, rfl, rfl⟩, sames⟩
    cases sames with
    | cons same sames =>
      have here := (first _ _ _).mpr ⟨b, read, same⟩
      have more := (others _ _ _).mpr ⟨bs, readMore, sames⟩
      exact ⟨_, middle, here, _, last, more, rfl, rfl⟩

theorem Refines.none {rest : List Char} {values : List α} {behind : List Char} :
    (Except.ok ([], behind) : Except ε (List α × List Char)) = .ok (values, rest) ↔
      ∃ parts : List β, (Except.ok ([], behind) : Except δ (List β × List Char)) =
        .ok (parts, rest) ∧ List.Forall₂ taken parts values := by
  simp only [Except.ok.injEq, Prod.mk.injEq]
  constructor
  · rintro ⟨rfl, rfl⟩
    exact ⟨[], ⟨rfl, rfl⟩, .nil⟩
  · rintro ⟨_, ⟨rfl, rfl⟩, ⟨⟩⟩
    exact ⟨rfl, rfl⟩

theorem Refines.readMore (each : Refines taken item part) (bound : List Char) :
    Refines (List.Forall₂ taken) (kind.readMore lift item bound)
      (kind.readMore raise part bound) := by
  induction bound with
  | nil =>
    intro text values rest
    simp [Bracketed.readMore]
  | cons c bound ih =>
    intro text values rest
    rw [Bracketed.readMore, Bracketed.readMore]
    cases Json.skipSpace text with
    | nil => simp
    | cons d behind =>
      by_cases closed : d = kind.close
      · simp only [closed, ↓reduceIte]
        exact Refines.none
      · by_cases comma : d = ','
        · subst comma
          simp only [closed, ↓reduceIte]
          cases Json.skipSpace behind with
          | nil => simp
          | cons d behind =>
            by_cases closed : d = kind.close
            · simp [closed]
            · simp only [closed, ↓reduceIte]
              exact each.cons ih (d :: behind) values rest
        · simp [closed, comma]

theorem Refines.read (each : Refines taken item part) :
    Refines (List.Forall₂ taken) (kind.read lift item) (kind.read raise part) := by
  intro text values rest
  rw [Bracketed.read, Bracketed.read]
  cases Json.skipSpace text with
  | nil => simp
  | cons d behind =>
    by_cases closed : d = kind.close
    · simp only [closed, ↓reduceIte]
      exact Refines.none
    · simp only [closed, ↓reduceIte]
      have more : Refines (List.Forall₂ taken) (fun text => kind.readMore lift item text text)
          (fun text => kind.readMore raise part text text) := fun text => each.readMore text text
      exact each.cons more (d :: behind) values rest

end Bracketed

theorem Node.readNext_refines (depth : Nat) :
    Bracketed.Refines (fun value node => value.toNode = .ok node) (readNext depth)
      (Json.readValue depth) := by
  intro text node rest
  simp only [readNext, Except.bind_eq_ok, Except.mapError_eq_ok, Prod.exists, Except.ok.injEq,
    Prod.mk.injEq]
  constructor
  · rintro ⟨value, _, read, _, shaped, rfl, rfl⟩
    exact ⟨value, read, shaped⟩
  · rintro ⟨value, read, shaped⟩
    exact ⟨value, rest, read, node, shaped, rfl, rfl⟩

/-- A value that is read is a list exactly when it opens with a square bracket. -/
theorem Json.readValue_eq_arr {depth : Nat} {text rest : List Char} {items : List Json} :
    readValue (depth + 1) text = .ok (.arr items, rest) ↔ ∃ behind,
      skipSpace text = '[' :: behind ∧
        Bracketed.list.read id (readValue depth) behind = .ok (items, rest) := by
  constructor
  · intro done
    unfold readValue at done
    split at done
    · cases done
    · cases value_of_readKeyword done
    · cases value_of_readKeyword done
    · cases value_of_readKeyword done
    · obtain ⟨_, -, ⟨⟩⟩ := Except.bind_eq_ok.mp done
    · next behind opened =>
      obtain ⟨⟨_, _⟩, read, ⟨⟩⟩ := Except.bind_eq_ok.mp done
      exact ⟨behind, opened, read⟩
    · obtain ⟨_, -, ⟨⟩⟩ := Except.bind_eq_ok.mp done
    · obtain ⟨-, done⟩ := Except.guard_eq_ok.mp done
      obtain ⟨⟨numeral, behind⟩, -, done⟩ := Except.bind_eq_ok.mp done
      obtain ⟨value, number, ⟨⟩⟩ := Except.bind_eq_ok.mp done
      unfold Numeral.value at number
      split at number
      · cases number
      · split at number <;> cases number
  · rintro ⟨behind, opened, read⟩
    unfold readValue
    rw [opened]
    exact Except.bind_eq_ok.mpr ⟨_, read, rfl⟩

theorem Json.read_eq_arr {text : String} {items : List Json} :
    read text = .ok (.arr items) ↔ ∃ behind rest, skipSpace text.toList = '[' :: behind ∧
      Bracketed.list.read id (readValue (maxDepth - 1)) behind = .ok (items, rest) ∧
        readEnd rest = .ok () := by
  simp only [read, Except.bind_eq_ok, Prod.exists, Except.ok.injEq]
  constructor
  · rintro ⟨_, rest, value, ⟨⟩, ended, rfl⟩
    obtain ⟨behind, opened, inside⟩ := readValue_eq_arr.mp value
    exact ⟨behind, rest, opened, inside, ended⟩
  · rintro ⟨behind, rest, opened, inside, ended⟩
    exact ⟨.arr items, rest, readValue_eq_arr.mpr ⟨behind, opened, inside⟩, (), ended, rfl⟩

theorem Program.read_eq_nodes {text : String} {program : Program} :
    read text = .ok program ↔ ∃ behind rest, Json.skipSpace text.toList = '[' :: behind ∧
      Bracketed.list.read .unreadable (Node.readNext (Json.maxDepth - 1)) behind =
        .ok (program, rest) ∧ Json.readEnd rest = .ok () := by
  constructor
  · intro done
    unfold read at done
    split at done
    · next behind opened =>
      obtain ⟨⟨nodes, rest⟩, inside, done⟩ := Except.bind_eq_ok.mp done
      obtain ⟨_, ended, ⟨⟩⟩ := Except.bind_eq_ok.mp done
      exact ⟨behind, rest, opened, inside, Except.mapError_eq_ok.mp ended⟩
    · cases done
    · obtain ⟨_, -, ⟨⟩⟩ := Except.bind_eq_ok.mp done
  · rintro ⟨behind, rest, opened, inside, ended⟩
    unfold read
    rw [opened]
    exact Except.bind_eq_ok.mpr ⟨_, inside,
      Except.bind_eq_ok.mpr ⟨(), Except.mapError_eq_ok.mpr ended, rfl⟩⟩

/-- A text holds a program exactly when it holds a list whose elements are all nodes, and these are
the program. -/
theorem Program.read_eq_ok {text : String} {program : Program} :
    read text = .ok program ↔
      ∃ items, Json.read text = .ok (.arr items) ∧ items.mapM Json.toNode = .ok program := by
  have refines := Node.readNext_refines (Json.maxDepth - 1)
  simp only [read_eq_nodes, Json.read_eq_arr, Except.mapM_eq_ok]
  constructor
  · rintro ⟨behind, rest, opened, inside, ended⟩
    obtain ⟨items, values, nodes⟩ := (refines.read behind program rest).mp inside
    exact ⟨items, ⟨behind, rest, opened, values, ended⟩, nodes⟩
  · rintro ⟨items, ⟨behind, rest, opened, values, ended⟩, nodes⟩
    exact ⟨behind, rest, opened, (refines.read behind program rest).mpr ⟨items, values, nodes⟩,
      ended⟩

/-- A text that is not JSON is no program. -/
theorem Program.read_error {text : String} {error : SyntaxError}
    (unreadable : Json.read text = .error error) : ∃ reason, read text = .error reason := by
  cases done : read text with
  | error reason => exact ⟨reason, rfl⟩
  | ok program =>
    obtain ⟨items, readable, -⟩ := read_eq_ok.mp done
    cases unreadable.symm.trans readable

/-! ## Runs -/

namespace Cli

/-- A source whose tree cannot be shown does not compile. -/
theorem compileSource_error {wording : TreeError.Wording} {wanted : Bool} {source : String}
    {report : Report} (unshown : echoIf wording wanted source = .error report) :
    ∃ failure, compileSource source = .error failure := by
  cases wanted with
  | false => cases unshown
  | true =>
    change echo wording source = .error report at unshown
    rw [echo] at unshown
    cases readable : Json.read source with
    | ok value =>
      rw [readable] at unshown
      cases unshown
    | error error =>
      obtain ⟨reason, misread⟩ := Program.read_error readable
      rw [compileSource, compileLogged, misread]
      exact ⟨.malformedTree reason, rfl⟩

/-- Whether the tree is shown or not, a run comes to an artifact exactly when its source
compiles. -/
theorem prepare_toOption (wording : TreeError.Wording) (filter : LogFilter) (options : Options)
    (source : String) :
    (prepare wording filter options source).2.toOption = (compileSource source).toOption := by
  unfold prepare
  cases shown : echoIf wording options.printTree source with
  | error report =>
    obtain ⟨failure, failed⟩ := compileSource_error shown
    rw [failed]
    rfl
  | ok tree =>
    dsimp only
    rw [compileSource]
    rcases compileLogged source with ⟨_ | _, log⟩ <;> rfl

variable {m : Type → Type} [Monad m] [LawfulMonad m]

/-- What a run shows to others than the reader of its messages: how it ended and what it wrote to
standard output. -/
def Outcome.visible (outcome : Outcome) : Nat × String :=
  (outcome.exitCode, outcome.stdout)

/-- How a run ends and what it delivers, without its messages. -/
theorem visible_runOnce (store : FileStore m) (stdin : m ByteArray) (filter : LogFilter)
    (options : Options) (wording : TreeError.Wording) :
    Outcome.visible <$> runOnce store stdin filter options wording = do
      match ← readSource store stdin options with
      | .error _ => return (1, "")
      | .ok source =>
        match (compileSource source).toOption with
        | none => return (1, "")
        | some artifact =>
          match ← deliver store options (deliveredText options artifact) with
          | .error _ => return (1, "")
          | .ok stdout => return (0, stdout) := by
  unfold runOnce
  rw [map_bind]
  congr 1
  funext source
  cases source with
  | error report => simp [Outcome.failed, Outcome.visible]
  | ok source =>
    dsimp only
    rw [← prepare_toOption wording filter options source]
    rcases prepare wording filter options source with ⟨said, report | artifact⟩
    · simp [Outcome.failed, Outcome.visible, Except.toOption]
    · simp only [Except.toOption, map_bind]
      congr 1
      funext delivered
      cases delivered <;> simp [Outcome.failed, Outcome.visible]

/-- Runs that agree in what is visible of them leave the same world and end alike. -/
theorem Outcome.same_of_visible {World : Type} {first last : StateM World Outcome}
    (same : Outcome.visible <$> first = Outcome.visible <$> last) (world : World) :
    (first.run world).1.exitCode = (last.run world).1.exitCode ∧
      (first.run world).1.stdout = (last.run world).1.stdout ∧
        (first.run world).2 = (last.run world).2 := by
  have results := congrArg (fun run : StateM World (Nat × String) => run.run world) same
  obtain ⟨visible, worlds⟩ := Prod.mk.inj results
  obtain ⟨exits, texts⟩ := Prod.mk.inj visible
  exact ⟨exits, texts, worlds⟩

/-- Showing the tree never changes the outcome. The two readers of a source agree on which texts
hold a program and on which one; and of two runs that differ in showing the tree, in any world of
files and in any words for the errors of a tree, each ends as the other, writes the same to standard
output and leaves the same world. -/
theorem echo_changes_nothing :
    (∀ text, (∀ error, Json.read text = .error error →
        ∃ reason, Program.read text = .error reason) ∧
      ∀ value, Json.read text = .ok value → ∀ program, Program.read text = .ok program ↔
        ∃ items, value = .arr items ∧ items.mapM Json.toNode = .ok program) ∧
    ∀ {World : Type} (store : FileStore (StateM World)) (stdin : StateM World ByteArray)
      (filter : LogFilter) (options : Options) (wording : TreeError.Wording) (world : World),
      let shown := (runOnce store stdin filter { options with printTree := true } wording).run world
      let plain :=
        (runOnce store stdin filter { options with printTree := false } wording).run world
      shown.1.exitCode = plain.1.exitCode ∧ shown.1.stdout = plain.1.stdout ∧
        shown.2 = plain.2 := by
  refine ⟨fun text => ⟨fun error unreadable => Program.read_error unreadable, ?_⟩, ?_⟩
  · intro value readable program
    rw [Program.read_eq_ok, readable]
    simp only [Except.ok.injEq]
  · intro World store stdin filter options wording world shown plain
    have same :
        Outcome.visible <$> runOnce store stdin filter { options with printTree := true } wording =
          Outcome.visible <$>
            runOnce store stdin filter { options with printTree := false } wording := by
      rw [visible_runOnce, visible_runOnce]
      rfl
    exact Outcome.same_of_visible same world

/-- The whole text `[5, ` breaks off, and the first element alone is no node; the text
`[["return"]]` is a program. Neither reads its trees differently when they are shown. -/
theorem echo_changes_nothing_of_broken :
    (Json.read "[5, " = .error .endInValue ∧ ∃ reason, Program.read "[5, " = .error reason) ∧
    (Json.read "[[\"return\"]]" = .ok (.arr [.arr [.str "return"]]) ∧
      Program.read "[[\"return\"]]" = .ok [.ret none]) ∧
    ∀ source : String,
      let options : Options := { Options.default with output := some "out/a.js", bindings := true }
      let run (wanted : Bool) := (runOnce FileTree.store (pure source.toUTF8) .off
        { options with printTree := wanted }).run ⟨[], []⟩
      (run true).1.exitCode = (run false).1.exitCode ∧
        (run true).1.stdout = (run false).1.stdout ∧ (run true).2 = (run false).2 := by
  have unreadable : Json.read "[5, " = .error .endInValue := rfl
  have readable : Json.read "[[\"return\"]]" = .ok (.arr [.arr [.str "return"]]) := rfl
  refine ⟨⟨unreadable, (echo_changes_nothing.1 _).1 _ unreadable⟩, ⟨readable, ?_⟩, ?_⟩
  · exact ((echo_changes_nothing.1 _).2 _ readable _).mpr ⟨_, rfl, rfl⟩
  · intro source options run
    exact echo_changes_nothing.2 _ _ _ options _ _

end Cli

end Arbor
