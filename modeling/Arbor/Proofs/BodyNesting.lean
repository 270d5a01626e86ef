import Mathlib.Data.List.Infix
import Arbor.Proofs.Bodies
import Arbor.Proofs.NodeInduction
import Arbor.Proofs.Tables

/-!
# Where bodies stand

`Program.bodies` lists the bodies of a program with numbers for parents. These are the places of
bodies in the list: the parent of a body is the number of the body it stands directly in, whose
frame is the innermost one around it, with the names that the statements before it declare.
-/

namespace Arbor

/-- Frames in which a statement of the body stands: what the statements before it declare is added
to the frame of the body. -/
def Body.Holds (body : Body) (frames : Frames) : Prop :=
  ∃ added, added <+: bodySymbols body.inner body.statements ∧ frames = body.inner.extend added

/-- The body at `i` stands directly in one before it, and has its number as parent. The numbers of
the list begin with `next`. -/
def Body.StandsIn (bodies : List Body) (next i : Nat) (body : Body) : Prop :=
  ∃ j outer, j < i ∧ bodies[j]? = some outer ∧ body.parent = some (next + j) ∧
    outer.Holds body.frames

/-- Of the bodies met from the place, each stands directly in the scope there, in frames as
described, or directly in a body met before it. -/
def Place.Nests (place : Place) (around : Frames → Prop) (bodies : List Body) : Prop :=
  ∀ (i : Nat) (body : Body), bodies[i]? = some body →
    (body.parent = some place.scope ∧ around body.frames) ∨ body.StandsIn bodies place.next i

namespace Place.Nests

variable {place past : Place} {around later : Frames → Prop} {bodies more : List Body}

theorem nil : place.Nests around [] := by
  intro i body here
  cases here

theorem append (nests : place.Nests around bodies) (next : past.Nests later more)
    (scope : past.scope = place.scope) (count : past.next = place.next + bodies.length)
    (known : ∀ frames, later frames → around frames) : place.Nests around (bodies ++ more) := by
  intro i body here
  rw [List.getElem?_append] at here
  split at here
  · rcases nests i body here with direct | ⟨j, outer, before, found, parent, holds⟩
    · exact .inl direct
    · refine .inr ⟨j, outer, before, ?_, parent, holds⟩
      rw [List.getElem?_append_left (by omega), found]
  · rcases next _ body here with ⟨parent, within⟩ | ⟨j, outer, before, found, parent, holds⟩
    · exact .inl ⟨scope ▸ parent, known _ within⟩
    · refine .inr ⟨bodies.length + j, outer, by omega, ?_, ?_, holds⟩
      · rw [List.getElem?_append_right (by omega), Nat.add_sub_cancel_left, found]
      · rw [parent, count, Nat.add_assoc]

theorem andThen {first last : Outline} (nests : place.Nests around (first place))
    (next : (place.past (first place)).Nests around (last (place.past (first place)))) :
    place.Nests around (first.andThen last place) :=
  nests.append next rfl rfl fun _ => id

theorem sequence {outlines : List Outline}
    (parts : ∀ outline ∈ outlines, ∀ place : Place, place.Nests (· = place.frames) (outline place)) :
    place.Nests (· = place.frames) (Outline.sequence outlines place) := by
  induction outlines generalizing place with
  | nil => exact .nil
  | cons outline rest ih =>
    have others {place : Place} := @ih place fun other member => parts other (by simp [member])
    exact .andThen (parts outline (by simp) place) others

/-- The bodies met inside of a body, which has the number before theirs. -/
theorem standsIn {outer : Body} (nests : place.Nests outer.Holds bodies)
    (number : place.next = place.scope + 1) {i : Nat} {body : Body}
    (here : bodies[i]? = some body) : body.StandsIn (outer :: bodies) place.scope (i + 1) := by
  rcases nests i body here with ⟨parent, holds⟩ | ⟨j, found, before, there, parent, holds⟩
  · exact ⟨0, outer, by omega, rfl, parent, holds⟩
  · refine ⟨j + 1, found, by omega, there, ?_, holds⟩
    rw [parent, number, Nat.succ_add_eq_add_succ]

theorem body {kind : BodyKind} {nodes : List Node} {inside : Outline} (here : around place.frames)
    (nests : (place.inside kind.frame).Nests
      (Body.Holds ⟨kind, some place.scope, place.frames, nodes⟩) (inside (place.inside kind.frame))) :
    place.Nests around (Outline.body kind nodes inside place) := by
  intro i body found
  cases i with
  | zero =>
    cases found
    exact .inl ⟨rfl, here⟩
  | succ i => exact .inr (nests.standsIn rfl found)

end Place.Nests

/-- The bodies inside of the node stand where it does, or in each other. -/
def Node.Nested (node : Node) : Prop :=
  ∀ place : Place, place.Nests (· = place.frames) (node.outline place)

theorem body_nested {nodes : List Node} (parts : ∀ n ∈ nodes, n.Nested) (place : Place) :
    place.Nests (fun frames => ∃ added, added <+: bodySymbols place.frames nodes ∧
      frames = place.frames.extend added) (bodyOutline nodes place) := by
  induction nodes generalizing place with
  | nil => exact .nil
  | cons node rest ih =>
    have first : place.Nests _ (node.outline place) := parts node (by simp) place
    have others := ih (fun n member => parts n (by simp [member]))
      ((place.past (node.outline place)).behind (node.symbols place.frames))
    have start : place.Nests (fun frames =>
        ∃ added, added <+: bodySymbols place.frames (node :: rest) ∧ frames = place.frames.extend added) (node.outline place) := by
      intro i body here
      refine (first i body here).imp_left ?_
      intro ⟨parent, same⟩
      exact ⟨parent, [], List.nil_prefix, by rw [same, Frames.extend_nil]⟩
    refine start.append others rfl rfl ?_
    intro frames ⟨added, before, same⟩
    refine ⟨node.symbols place.frames ++ added, ?_, ?_⟩
    · rw [bodySymbols]
      exact (List.prefix_append_right_inj _).mpr before
    · rw [same]
      exact Frames.extend_extend _ _ _

theorem block_nested (kind : BodyKind) {nodes : List Node} (parts : ∀ n ∈ nodes, n.Nested)
    (place : Place) :
    place.Nests (· = place.frames) (Outline.body kind nodes (bodyOutline nodes) place) :=
  .body rfl (body_nested parts _)

theorem Node.nested (node : Node) : node.Nested := by
  induction node with
  | bind name value ih => exact ih
  | assign target value _ ih => exact ih
  | ret value ih =>
    intro place
    cases value with
    | none => exact .nil
    | some value =>
      rw [Node.outline, Outline.inFunction]
      split
      · exact ih value rfl place
      · exact .nil
  | branch condition body otherwise conditionIH bodyIH otherwiseIH =>
    intro place
    cases otherwise with
    | none => exact .andThen (conditionIH place) (block_nested .block bodyIH _)
    | some otherwise =>
      have others := block_nested .block (otherwiseIH _ rfl)
      exact .andThen (conditionIH place) (.andThen (block_nested .block bodyIH _) (others _))
  | loop condition body conditionIH bodyIH =>
    intro place
    exact .andThen (conditionIH place) (block_nested .block bodyIH _)
  | literal descriptor payload parameters body _ _ fieldsIH bodyIH =>
    intro place
    cases payload with
    | none =>
      rw [Node.outline]
      cases descriptor.lower with
      | error e => exact .nil
      | ok type =>
        cases type with
        | fn types result => exact block_nested _ bodyIH place
        | _ => exact .nil
    | some payload =>
      rw [Node.outline]
      cases descriptor.lower with
      | error e => exact .nil
      | ok type =>
        cases type with
        | obj declared =>
          have entries : payload.outlines =
              (Payload.entries (some payload)).map fun f => (f.1, f.2.outline) := by
            cases payload with
            | fields table => exact fieldOutlines_eq_map table
            | _ => rfl
          apply Place.Nests.sequence
          intro outline chosen
          obtain ⟨field, -, found⟩ := List.mem_filterMap.mp chosen
          rw [entries, Fields.lookup_map] at found
          obtain ⟨node, given, rfl⟩ := Option.map_eq_some_iff.mp found
          exact fieldsIH _ (Fields.mem_of_lookup given)
        | _ => exact .nil
  | binary op left right leftIH rightIH =>
    intro place
    exact .andThen (leftIH place) (rightIH _)
  | unary op operand ih => exact ih
  | call callee arguments calleeIH argumentsIH =>
    intro place
    refine .andThen (calleeIH place) (.sequence ?_)
    rw [outlines_eq_map, List.forall_mem_map]
    exact argumentsIH
  | _ =>
    intro place
    exact .nil

/-- A body of a program stands directly in the body whose number its parent is, and only the
program itself in none. -/
theorem Program.body_standsIn {program : Program} {i : Nat} {body : Body}
    (here : program.bodies[i]? = some body) :
    (i = 0 ∧ body.parent = none) ∨ body.StandsIn program.bodies ScopeTree.root i := by
  cases i with
  | zero =>
    cases here
    exact .inl ⟨rfl, rfl⟩
  | succ i =>
    have nests : Place.Nests _ (Body.Holds ⟨.root, none, [], program⟩) _ :=
      body_nested (fun n _ => n.nested) ⟨[BodyKind.root.frame], ScopeTree.root, 1⟩
    rw [Program.bodies, List.getElem?_cons_succ] at here
    exact .inr (nests.standsIn rfl here)

end Arbor
