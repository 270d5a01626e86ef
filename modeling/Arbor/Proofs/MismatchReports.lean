import Arbor.Compile.Source
import Arbor.Proofs.Alike
import Arbor.Proofs.DistinctNames
import Arbor.Proofs.ReportedTypes
import Arbor.Proofs.TypeTexts

/-!
# Reports of mismatches

A mismatch is reported with the texts of two types that are not equal, but texts do not tell all
types apart: field names are not quoted in them, so two fields can be shown as one whose name has
the rest of the text in it (`Ty.display_joined`). Where no field name that a program describes is
another one, a colon and the beginning of a type, the two texts of a report differ.
-/

namespace Arbor

/-! ## Names and distinct fields of described types -/

namespace Ty

/-- No list type occurs in the type, no field is declared twice, and the names of the fields are
among the given ones. -/
structure Within (names : List String) (type : Ty) : Prop where
  listFree : type.ListFree
  distinct : type.Distinct
  fieldNames : type.fieldNames ⊆ names

theorem Within.inherited (names : List String) : Inherited (Within names) where
  listFree within := within.listFree
  prim p := ⟨.prim p, .prim p, List.nil_subset _⟩
  parameters := by
    rintro parameters returns ⟨free, distinct, known⟩ type member
    cases free with
    | fn free _ =>
      cases distinct with
      | fn distinct _ =>
        refine ⟨free type member, distinct type member, fun name inside => known ?_⟩
        rw [Ty.fieldNames, parameterNames_eq]
        exact List.mem_append_left _ (List.mem_flatMap.mpr ⟨type, member, inside⟩)
  returns := by
    rintro parameters returns ⟨free, distinct, known⟩
    cases free with
    | fn _ free =>
      cases distinct with
      | fn _ distinct =>
        exact ⟨free, distinct, fun name inside => known (List.mem_append_right _ inside)⟩
  fields := by
    rintro fields ⟨free, distinct, known⟩ field member
    cases free with
    | obj free =>
      cases distinct with
      | obj _ distinct =>
        refine ⟨free field member, distinct field member, fun name inside => known ?_⟩
        rw [Ty.fieldNames, tableNames_eq]
        exact List.mem_flatMap.mpr ⟨field, member, List.mem_cons_of_mem _ inside⟩

end Ty

namespace Node

theorem lower_distinct {node : Node} (distinct : node.Distinct) {type : Ty}
    (lowered : node.lower = .ok type) : type.Distinct := by
  have same : node.Reordered false node := .refl node
  obtain ⟨_, -, alike⟩ := same.lowers distinct lowered
  exact alike.distinct

/-- Every described type is that of a descriptor in which no table has a name twice. -/
theorem Distinct.exists_lower {node : Node} (distinct : node.Distinct) {type : Ty}
    (described : type ∈ node.described) :
    ∃ descriptor : Node, descriptor.Distinct ∧ descriptor.lower = .ok type := by
  induction distinct with
  | bind _ ih => exact ih described
  | assign _ _ _ ih => exact ih described
  | ret _ ih =>
    rw [described_ret, List.mem_flatMap] at described
    obtain ⟨value, member, inside⟩ := described
    exact ih value (by simpa using member) inside
  | branch _ _ _ testIH bodyIH otherIH =>
    simp only [described_branch, List.mem_append, List.mem_flatMap] at described
    obtain (inside | ⟨n, member, inside⟩) | ⟨other, chosen, n, member, inside⟩ := described
    · exact testIH inside
    · exact bodyIH n member inside
    · exact otherIH other (by simpa using chosen) n member inside
  | loop _ _ testIH bodyIH =>
    simp only [Node.described, describedAll_eq, List.mem_append, List.mem_flatMap] at described
    obtain inside | ⟨n, member, inside⟩ := described
    · exact testIH inside
    · exact bodyIH n member inside
  | @literal descriptor _ _ _ apart _ _ _ _ _ _ fieldsIH bodyIH =>
    simp only [described_literal, List.mem_append, List.mem_flatMap, mem_lowered] at described
    obtain (lowered | ⟨f, member, inside⟩) | ⟨n, member, inside⟩ := described
    · exact ⟨descriptor, apart, lowered⟩
    · exact fieldsIH f member inside
    · exact bodyIH n member inside
  | @new target apart _ => exact ⟨target, apart, mem_lowered.mp described⟩
  | binary _ _ leftIH rightIH =>
    rcases List.mem_append.mp described with inside | inside
    · exact leftIH inside
    · exact rightIH inside
  | unary _ ih => exact ih described
  | call _ _ calleeIH argumentsIH =>
    simp only [Node.described, describedAll_eq, List.mem_append, List.mem_flatMap] at described
    obtain inside | ⟨n, member, inside⟩ := described
    · exact calleeIH inside
    · exact argumentsIH n member inside
  | _ => cases described

end Node

namespace Program

/-- The names of the fields in the types that a program describes. -/
def fieldNames (program : Program) : List String :=
  program.described.flatMap Ty.fieldNames

theorem Distinct.within {program : Program} (distinct : program.Distinct) {type : Ty}
    (described : type ∈ program.described) : type.Within program.fieldNames := by
  obtain ⟨node, member, inside⟩ := List.mem_flatMap.mp described
  obtain ⟨descriptor, apart, lowered⟩ := (distinct node member).exists_lower inside
  refine ⟨descriptor.lower_listFree lowered, Node.lower_distinct apart lowered, ?_⟩
  exact fun name known => List.mem_flatMap.mpr ⟨type, described, known⟩

/-- Types that are reported not to match are not the same, and their field names are some that the
program describes. -/
theorem ne_of_mismatch {program : Program} (distinct : program.Distinct) {expected found : Ty}
    {site : Site} (failed : program.compile = .error (.typeMismatch expected found site)) :
    expected ≠ found ∧ expected.fieldNames ⊆ program.fieldNames ∧
      found.fieldNames ⊆ program.fieldNames := by
  obtain ⟨within, within', differ⟩ :=
    mismatch_fair (Ty.Within.inherited program.fieldNames) (fun _ => distinct.within) failed
  refine ⟨?_, within.fieldNames, within'.fieldNames⟩
  rintro rfl
  exact differ within.distinct.equiv_refl

/-- No field name that the program describes is another one, a colon and the beginning of a type. -/
def NamesApart (program : Program) : Prop :=
  ∀ name ∈ program.fieldNames, ∀ other ∈ program.fieldNames, ¬Ty.Continues name other

instance (program : Program) : Decidable program.NamesApart :=
  inferInstanceAs (Decidable (∀ name ∈ program.fieldNames, _))

/-- The texts of types that are reported not to match differ. -/
theorem display_ne_of_mismatch {program : Program} (distinct : program.Distinct)
    (apart : program.NamesApart) {expected found : Ty} {site : Site}
    (failed : program.compile = .error (.typeMismatch expected found site)) :
    expected.display ≠ found.display := by
  obtain ⟨unequal, known, known'⟩ := ne_of_mismatch distinct failed
  intro same
  rcases Ty.eq_or_clash_of_display_eq same with equal | clash
  · exact unequal equal
  · obtain ⟨name, member, other, member', continued⟩ := clash
    rcases continued with continued | continued
    · exact apart name (known member) other (known' member') continued
    · exact apart other (known' member') name (known member) continued

/-- A message with two texts has not the same one twice. -/
theorem message_ne_of_display_ne {expected found : Ty} (differ : expected.display ≠ found.display)
    {type : Ty} (either : type = expected ∨ type = found) (site : Site) :
    (CompileError.typeMismatch expected found site).message ≠
      (CompileError.typeMismatch type type site).message := by
  intro same
  rcases either with rfl | rfl
  · exact differ ((String.append_right_inj _).mp same).symm
  · have front := (String.append_left_inj _).mp ((String.append_left_inj _).mp same)
    exact differ ((String.append_right_inj _).mp front)

/-- The two types of a reported mismatch are shown by different texts, where no field name that the
program describes continues another; so the message never says of a type that it was found instead
of itself. A program that was read is distinct (`distinct_of_read`). -/
theorem mismatch_reports_differ {program : Program} (distinct : program.Distinct)
    (apart : program.NamesApart) {expected found : Ty} {site : Site}
    (failed : program.compile = .error (.typeMismatch expected found site)) :
    expected.display ≠ found.display ∧ ∀ type, type = expected ∨ type = found →
      (CompileError.typeMismatch expected found site).message ≠
        (CompileError.typeMismatch type type site).message := by
  have differ := display_ne_of_mismatch distinct apart failed
  exact ⟨differ, fun _ either => message_ne_of_display_ne differ either site⟩

/-- Nor has the report on a source one text for both types. That the program is distinct need not be
asked, since it was read. -/
theorem display_ne_of_compileSource {source : String} {program : Program}
    (done : read source = .ok program) (apart : program.NamesApart) {expected found : Ty}
    {site : Site}
    (failed : compileSource source = .error (.rejected (.typeMismatch expected found site))) :
    expected.display ≠ found.display := by
  rw [compileSource_of_read done] at failed
  cases compiled : program.compile with
  | ok artifact =>
    rw [compiled] at failed
    cases failed
  | error error =>
    rw [compiled] at failed
    cases failed
    exact display_ne_of_mismatch (distinct_of_read done) apart compiled

/-- A name for an object with fields of type int, and an assignment of an object with others. -/
def reassigning (declared given : List String) : Program :=
  let int : Node := .type (.prim .int) none [] none []
  let object (names : List String) : Node :=
    .new (.type .obj none [] none (names.map fun name => (name, int)))
  [.bind "v" (object declared), .assign (.ident "v") (object given)]

theorem reassigning_distinct {declared given : List String} (apart : declared.Nodup)
    (apart' : given.Nodup) : (reassigning declared given).Distinct := by
  have object {names : List String} (apart : names.Nodup) : (Node.type .obj none [] none
      (names.map fun name => (name, .type (.prim .int) none [] none []))).Distinct := by
    refine .type (by simp) (by simp) ?_ ?_
    · simpa [Fields.names, Function.comp_def] using apart
    · rw [List.forall_mem_map]
      exact fun _ _ => .type (by simp) (by simp) .nil (by simp)
  intro node member
  simp only [reassigning, List.mem_cons, List.not_mem_nil, or_false] at member
  rcases member with rfl | rfl
  · exact .bind (.new (object apart))
  · exact .assign (.ident "v") (.new (object apart'))

/-- With plain names the texts differ, here in a field that is missing. -/
theorem mismatch_reports_differ_of_plain :
    let program := reassigning ["a", "b"] ["a"]
    ∃ expected found site, program.compile = .error (.typeMismatch expected found site) ∧
      expected.display ≠ found.display := by
  intro program
  have failed : program.compile = .error (.typeMismatch
      (.obj [("a", .prim .int), ("b", .prim .int)]) (.obj [("a", .prim .int)])
      (.assignment "v")) := rfl
  have distinct : program.Distinct := reassigning_distinct (by decide) (by decide)
  exact ⟨_, _, _, failed, (mismatch_reports_differ distinct (by decide +kernel) failed).1⟩

/-- An object with two fields is expected and one with a single field is found, whose name reads
like the first field and the name of the second. -/
theorem mismatch_reports_alike :
    let program := reassigning ["a", "b"] ["a: int, b"]
    program.Distinct ∧ ∃ expected found site,
      program.compile = .error (.typeMismatch expected found site) ∧
        expected.display = found.display ∧
        (CompileError.typeMismatch expected found site).message =
          "type mismatch in assignment to v: expected obj \x7b a: int, b: int \x7d, " ++
            "found obj \x7b a: int, b: int \x7d" := by
  intro program
  have failed : program.compile = .error (.typeMismatch
      (.obj [("a", .prim .int), ("b", .prim .int)]) (.obj [("a: int, b", .prim .int)])
      (.assignment "v")) := rfl
  have name : "a" ++ ": " ++ (Ty.prim .int).display ++ ", " ++ "b" = "a: int, b" := by
    decide +kernel
  have shown := Ty.display_joined "a" "b" (.prim .int) (.prim .int) []
  rw [name] at shown
  exact ⟨reassigning_distinct (by decide) (by decide), _, _, _, failed, shown, by decide +kernel⟩

end Program

end Arbor
