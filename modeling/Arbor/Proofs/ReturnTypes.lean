import Arbor.Proofs.BodyTyping

/-!
# The types of returns

A `return` leaves the function whose body it stands in, however many branches and loops are around
it. In a program that goes through, what such a return gives has a type. Nothing compares that type
with the result that the function declares, although the declared result is the type of every call
of it: whether the two agree is up to the program, and `Program.ReturnsAgree` decides it.
-/

namespace Arbor

/-- A return, where it stands. -/
structure Return where
  frames : Frames
  value : Option Node

namespace Return

/-- What is returned has the type. A return without a value gives null. -/
inductive HasType : Return → Ty → Prop where
  | bare {frames : Frames} : HasType ⟨frames, none⟩ (.prim .null)
  | value {frames : Frames} {value : Node} {type : Ty} :
      value.HasType frames type → HasType ⟨frames, some value⟩ type

/-- The type of what is returned, if it has one. -/
def derived : Return → Option Ty
  | ⟨_, none⟩ => some (.prim .null)
  | ⟨frames, some value⟩ => value.derived frames

theorem HasType.derived {ret : Return} {type : Ty} (typed : ret.HasType type) :
    ret.derived = some type := by
  cases typed with
  | bare => rfl
  | value typed => exact typed.derived

/-- What is returned has a type, and it is structurally equal to the result. -/
def Gives (result : Ty) (ret : Return) : Prop :=
  ∃ type, ret.HasType type ∧ type.equiv result

theorem Gives.derived {ret : Return} {result : Ty} (gives : ret.Gives result) :
    ret.derived.any (Ty.equiv · result) := by
  obtain ⟨type, typed, same⟩ := gives
  rwa [typed.derived, Option.any_some]

theorem gives_iff {ret : Return} {result : Ty} (typed : ∃ type, ret.HasType type) :
    ret.Gives result ↔ ret.derived.any (Ty.equiv · result) := by
  refine ⟨Gives.derived, ?_⟩
  intro same
  obtain ⟨type, typed⟩ := typed
  rw [typed.derived, Option.any_some] at same
  exact ⟨type, typed, same⟩

end Return

mutual

/-- The returns in a statement that leave the body it stands in. A function literal has a body of
its own, and its returns are not among them. -/
def Node.returns (frames : Frames) : Node → List Return
  | .ret value => [⟨frames, value⟩]
  | .branch _ body none => bodyReturns (BodyKind.block.frame :: frames) body
  | .branch _ body (some otherwise) =>
    bodyReturns (BodyKind.block.frame :: frames) body ++
      bodyReturns (BodyKind.block.frame :: frames) otherwise
  | .loop _ body => bodyReturns (BodyKind.block.frame :: frames) body
  | _ => []

/-- The returns that leave a body, each behind what the statements before it declare. -/
def bodyReturns (frames : Frames) : List Node → List Return
  | [] => []
  | node :: rest => node.returns frames ++ bodyReturns (frames.extend (node.symbols frames)) rest

end

/-- The returns that leave the body. -/
def Body.returns (body : Body) : List Return :=
  bodyReturns body.inner body.statements

/-! ## Every return of a function has a type -/

/-- In a function, the returns of the statement have types wherever the statement is well formed. -/
def Node.ReturnsTyped (node : Node) : Prop :=
  ∀ {frames after : Frames}, node.WellFormed frames after → frames.inFunction →
    ∀ ret ∈ node.returns frames, ∃ type, ret.HasType type

theorem body_returnsTyped {nodes : List Node} (parts : ∀ n ∈ nodes, n.ReturnsTyped)
    {frames after : Frames} (formed : BodyWellFormed frames nodes after)
    (inside : frames.inFunction) : ∀ ret ∈ bodyReturns frames nodes, ∃ type, ret.HasType type := by
  induction nodes generalizing frames with
  | nil => simp [bodyReturns]
  | cons node rest ih =>
    cases formed with
    | cons first others =>
      rw [first.after_eq] at others
      have still : (frames.extend (node.symbols frames)).inFunction := by
        rwa [Frames.inFunction_extend]
      intro ret member
      rw [bodyReturns, List.mem_append] at member
      rcases member with member | member
      · exact parts node (by simp) first inside ret member
      · exact ih (fun n hn => parts n (by simp [hn])) others still ret member

theorem block_returnsTyped {nodes : List Node} (parts : ∀ n ∈ nodes, n.ReturnsTyped)
    {frames after : Frames} (formed : BodyWellFormed (BodyKind.block.frame :: frames) nodes after)
    (inside : frames.inFunction) :
    ∀ ret ∈ bodyReturns (BodyKind.block.frame :: frames) nodes, ∃ type, ret.HasType type := by
  apply body_returnsTyped parts formed
  rw [Frames.inFunction, List.any_cons]
  exact Bool.or_eq_true_iff.mpr (.inr inside)

theorem Node.returnsTyped (node : Node) : node.ReturnsTyped := by
  induction node with
  | ret value _ =>
    intro frames after formed inside ret member
    rw [Node.returns, List.mem_singleton] at member
    subst member
    cases formed with
    | dropped outside =>
      obtain ⟨frame, around, function⟩ := Frames.inFunction_iff.mp inside
      exact absurd function (outside frame around)
    | leave => exact ⟨_, .bare⟩
    | ret _ _ typed => exact ⟨_, .value typed⟩
    | expression typed => cases typed
  | branch condition nodes otherwise _ bodyIH otherwiseIH =>
    intro frames after formed inside ret member
    cases formed with
    | branch _ formed => exact block_returnsTyped bodyIH formed inside ret member
    | alternatives _ formed formedOther =>
      rcases List.mem_append.mp member with member | member
      · exact block_returnsTyped bodyIH formed inside ret member
      · exact block_returnsTyped (otherwiseIH _ rfl) formedOther inside ret member
    | expression typed => cases typed
  | loop condition nodes _ bodyIH =>
    intro frames after formed inside ret member
    cases formed with
    | loop _ formed => exact block_returnsTyped bodyIH formed inside ret member
    | expression typed => cases typed
  | _ =>
    -- No other kind of node has a body that returns through it.
    intro frames after formed inside ret member
    cases member

theorem Body.WellFormed.returns_typed {body : Body} (formed : body.WellFormed) {result : Ty}
    (function : body.kind.result? = some result) : ∀ ret ∈ body.returns, ∃ type, ret.HasType type := by
  apply body_returnsTyped (fun n _ => n.returnsTyped) formed.statements
  rw [Body.inner, Frames.inFunction, List.any_cons]
  cases kind : body.kind with
  | function parameters declared => rfl
  | _ =>
    rw [kind] at function
    cases function

namespace Program

/-- Every return of a function gives the result that the function declares, by the types derived
from the syntax. -/
def ReturnsAgree (program : Program) : Prop :=
  ∀ body ∈ program.bodies, ∀ result ∈ body.kind.result?,
    ∀ ret ∈ body.returns, ret.derived.any (Ty.equiv · result)

instance (program : Program) : Decidable program.ReturnsAgree :=
  inferInstanceAs (Decidable (∀ body ∈ program.bodies, ∀ result ∈ body.kind.result?,
    ∀ ret ∈ body.returns, ret.derived.any (Ty.equiv · result)))

/-- In a program that goes through, what a function returns always has a type, and it is the
declared result just in the programs whose returns agree. -/
theorem returns_give_result_iff {program : Program} {output : String} {state : EmitState}
    (accepted : program.emit = .ok output state) :
    (∀ body ∈ program.bodies, ∀ result ∈ body.kind.result?,
      ∀ ret ∈ body.returns, ∃ type, ret.HasType type) ∧
    ((∀ body ∈ program.bodies, ∀ result ∈ body.kind.result?,
      ∀ ret ∈ body.returns, ret.Gives result) ↔ program.ReturnsAgree) := by
  have typed : ∀ body ∈ program.bodies, ∀ result ∈ body.kind.result?,
      ∀ ret ∈ body.returns, ∃ type, ret.HasType type := by
    intro body member result function
    exact (bodies_wellFormed accepted body member).returns_typed function
  refine ⟨typed, ?_⟩
  refine forall₂_congr fun body member => forall₂_congr fun result function => ?_
  exact forall₂_congr fun ret returned =>
    Return.gives_iff (typed body member result function ret returned)

/-- A function from `int` to `int` that leaves early with `early`, from a branch in a loop, and
holds a function with another result. -/
def returning (early : Option Node) : Program :=
  let int : Node := .type (.prim .int) none [] none []
  let bool : Node := .type (.prim .bool) none [] none []
  let known : Node := .binary .eq (.ident "n") (.ident "n")
  let inner : Node := .literal (.type .fn none [] (some bool) []) none [] [.ret (some known)]
  let body : List Node :=
    [.loop known [.branch known [.ret early] none], .bind "g" inner, .ret (some (.ident "n"))]
  [.bind "f" (.literal (.type .fn none [int] (some int) []) none ["n"] body)]

/-- Returns from a branch in a loop and at the end, and those of the inner function apart. -/
theorem returns_give_result_of_returning :
    (∃ output state, (returning (some (.ident "n"))).emit = .ok output state) ∧
      ∀ body ∈ (returning (some (.ident "n"))).bodies, ∀ result ∈ body.kind.result?,
        ∀ ret ∈ body.returns, ret.Gives result :=
  ⟨⟨_, _, rfl⟩, (returns_give_result_iff rfl).2.mpr (by decide)⟩

/-- A function that declares a number may leave with a text. -/
theorem returns_give_other_type :
    ¬∀ (program : Program) (output : String) (state : EmitState),
      program.emit = .ok output state → ∀ body ∈ program.bodies, ∀ result ∈ body.kind.result?,
        ∀ ret ∈ body.returns, ret.Gives result := by
  intro all
  let text : Node := .literal (.type (.prim .str) none [] none []) (some (.str "x")) [] []
  have gives := all (returning (some text)) _ _ rfl
  have agree : (returning (some text)).ReturnsAgree := by
    intro body member result function ret returned
    exact (gives body member result function ret returned).derived
  revert agree
  decide

/-- Nor is a return without a value held to the declared result. -/
example : (∃ output state, (returning none).emit = .ok output state) ∧
    ¬(returning none).ReturnsAgree :=
  ⟨⟨_, _, rfl⟩, by decide⟩

end Program

end Arbor
