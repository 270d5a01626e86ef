import Arbor.Proofs.Normal
import Arbor.Proofs.WrittenBodies

/-!
# Returns outside of functions

A return outside of all functions is left out, and nothing shows that it was ever there: the program
without it compiles to the same artifact or fails with the same error, whatever the value of the
return is. The walk decides which returns are outside by the scopes around them, and `Program.erased`
by the syntax: it goes from a program to the bodies of its branches and loops and never into an
expression. Inside of functions no return is left out.
-/

namespace Arbor

mutual

/-- The statement without the returns in its blocks. -/
def Node.erased : Node → Node
  | .branch test body none => .branch test (bodyErased body) none
  | .branch test body (some otherwise) =>
    .branch test (bodyErased body) (some (bodyErased otherwise))
  | .loop test body => .loop test (bodyErased body)
  | node => node

/-- The statements but for the returns, and without those in their blocks. -/
def bodyErased : List Node → List Node
  | [] => []
  | node :: rest => if node.isReturn then bodyErased rest else node.erased :: bodyErased rest

end

/-- The program without the returns that stand outside of all functions. -/
def Program.erased (program : Program) : Program :=
  bodyErased program

/-! ## Erasing changes nothing -/

variable {frames after : Frames}

/-- A return outside of all functions does nothing at all. -/
theorem lexical_return_outside {node : Node} (isReturn : node.isReturn)
    (outside : frames.inFunction = false) : node.lexical.statement frames = .ok (none, frames) := by
  cases node with
  | ret value =>
    have left : Lexical.ret ((value.map Node.lexical).map LexicalRendering.expression) frames =
        .ok none := Lexical.ret_eq_ok.mpr (.inl ⟨by simp [outside], rfl⟩)
    rw [Node.lexical_ret]
    exact Except.bind_eq_ok.mpr ⟨none, left, rfl⟩
  | _ => cases isReturn

/-- No statement leads into a function. -/
theorem inFunction_after {node : Node} {text : Option String}
    (done : node.lexical.statement frames = .ok (text, after)) :
    after.inFunction = frames.inFunction := by
  have formed := node.checked.statement.mp ⟨text, done⟩
  rw [formed.after_eq, Frames.inFunction_extend]

/-- Outside of functions the statement is the same without the returns in its blocks. -/
def Node.Erasable (node : Node) : Prop :=
  ∀ {frames : Frames}, frames.inFunction = false →
    node.erased.lexical.statement frames = node.lexical.statement frames

theorem body_erased {nodes : List Node} (parts : ∀ n ∈ nodes, n.Erasable)
    (outside : frames.inFunction = false) :
    LexicalRendering.body (lexicals (bodyErased nodes)) frames =
      LexicalRendering.body (lexicals nodes) frames := by
  induction nodes generalizing frames with
  | nil => rfl
  | cons node rest ih =>
    have others {frames : Frames} := @ih frames fun n member => parts n (by simp [member])
    rw [bodyErased]
    split
    · next isReturn =>
      rw [others outside]
      change _ = Lexical.statements (node.lexical.statement :: (lexicals rest).map _) frames
      rw [Lexical.statements, lexical_return_outside isReturn outside]
      change LexicalRendering.body (lexicals rest) frames =
        LexicalRendering.body (lexicals rest) frames >>= fun more => .ok ("" ++ more.1, more.2)
      cases LexicalRendering.body (lexicals rest) frames with
      | error e => rfl
      | ok more =>
        change Except.ok more = Except.ok ("" ++ more.1, more.2)
        rw [String.empty_append]
    · change Lexical.statements (node.erased.lexical.statement :: _) frames =
        Lexical.statements (node.lexical.statement :: _) frames
      rw [Lexical.statements, Lexical.statements, parts node (by simp) outside]
      cases done : node.lexical.statement frames with
      | error e => rfl
      | ok first =>
        have still := others ((inFunction_after done).trans outside)
        change (LexicalRendering.body (lexicals (bodyErased rest)) first.2 >>= _) =
          (LexicalRendering.body (lexicals rest) first.2 >>= _)
        rw [still]

theorem block_erased {nodes : List Node} (parts : ∀ n ∈ nodes, n.Erasable)
    (outside : frames.inFunction = false) :
    Lexical.block (LexicalRendering.body (lexicals (bodyErased nodes))) frames =
      Lexical.block (LexicalRendering.body (lexicals nodes)) frames := by
  have around : Frames.inFunction (⟨[], false⟩ :: frames) = false := outside
  rw [Lexical.block, Lexical.block, body_erased parts around]

/-- A statement that declares nothing depends on its frames alone. -/
theorem keepFrames_congr {kind : String} {emit other : Frames → Except CompileError String}
    (same : emit frames = other frames) :
    (LexicalRendering.ofStatement kind (Lexical.keepFrames emit)).statement frames =
      (LexicalRendering.ofStatement kind (Lexical.keepFrames other)).statement frames := by
  simp only [LexicalRendering.ofStatement, Lexical.keepFrames, same]

theorem Node.erasable (node : Node) : node.Erasable := by
  induction node with
  | branch condition body otherwise _ bodyIH otherwiseIH =>
    intro frames outside
    have inside := block_erased bodyIH outside
    cases otherwise with
    | none =>
      apply keepFrames_congr
      simp only [Lexical.branch, inside]
    | some other =>
      have outer := block_erased (otherwiseIH other rfl) outside
      apply keepFrames_congr
      simp only [Lexical.branch, inside, outer]
  | loop condition body _ bodyIH =>
    intro frames outside
    apply keepFrames_congr
    simp only [Lexical.loop, block_erased bodyIH outside]
  | _ =>
    intro frames outside
    rfl

namespace Program

theorem compile_erased (program : Program) : program.erased.compile = program.compile := by
  have outside : Frames.root.inFunction = false := rfl
  have same := body_erased (fun n (_ : n ∈ program) => n.erasable) outside
  rw [compile_eq_compileLexically, compile_eq_compileLexically, compileLexically, compileLexically,
    erased, same]

/-- Returns outside of functions do not show in what a program compiles to, and every body in a
function is written between braces with one ended statement for each of its nodes, returns among
them. -/
theorem dropped_returns_unseen (program : Program) :
    program.erased.compile = program.compile ∧
      ∀ artifact, program.compile = .ok artifact →
        ∀ body ∈ program.bodies, body.inner.inFunction →
          ∃ texts, Emits body.inner body.statements texts ∧
            texts.length = body.statements.length ∧
              Text.Within ("\x7b\n" ++ ended texts ++ "\x7d") artifact.output := by
  refine ⟨program.compile_erased, ?_⟩
  intro artifact compiled body member inside
  rcases List.mem_cons.mp member with rfl | member
  · cases inside
  · obtain ⟨statements, after, done, within⟩ := bodies_written compiled _ rfl body member
    obtain ⟨texts, emits, rfl⟩ := exists_emits inside done
    exact ⟨texts, emits, emits.length_eq, within⟩

/-- A return of a name that nothing declares, and a function that returns from a loop. -/
def leaving : Program :=
  let bool : Node := .type (.prim .bool) none [] none []
  let body : List Node := [.bind "b" (.new bool), .loop (.ident "b") [.ret (some (.ident "b"))]]
  [.ret (some (.ident "nowhere")),
   .bind "f" (.literal (.type .fn none [] (some bool) []) none [] body)]

theorem dropped_returns_unseen_in_leaving : ∃ artifact, leaving.compile = .ok artifact ∧
    leaving.erased.compile = .ok artifact ∧ leaving.erased.length = 1 ∧
      leaving.bodies.map (fun body => body.inner.inFunction) = [false, true, true] ∧
        ∀ body ∈ leaving.bodies, body.inner.inFunction →
          ∃ texts, Emits body.inner body.statements texts ∧
            texts.length = body.statements.length ∧
              Text.Within ("\x7b\n" ++ ended texts ++ "\x7d") artifact.output :=
  ⟨_, rfl, (dropped_returns_unseen leaving).1.trans rfl, rfl, rfl,
    (dropped_returns_unseen leaving).2 _ rfl⟩

end Program

end Arbor
