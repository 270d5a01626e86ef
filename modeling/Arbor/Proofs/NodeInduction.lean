import Arbor.Emit.Rendering

/-!
# Induction over trees

Nodes and types hold lists, options and tables of their own kind. The eliminators here have one
motive and one case a constructor; a nested part comes with its hypothesis in membership form, so
a proof over trees never names the companion motives of the generated recursor.
-/

namespace Arbor

/-- The fields that a literal with this payload gives values to. -/
def Payload.entries : Option Payload → List (String × Node)
  | some (.fields table) => table
  | _ => []

/-- Induction over nodes. -/
@[induction_eliminator]
theorem Node.ind {motive : Node → Prop}
    (bind : ∀ name value, motive value → motive (.bind name value))
    (assign : ∀ target value, motive target → motive value → motive (.assign target value))
    (ret : ∀ value, (∀ v ∈ value, motive v) → motive (.ret value))
    (branch : ∀ condition body otherwise, motive condition → (∀ n ∈ body, motive n) →
      (∀ other ∈ otherwise, ∀ n ∈ other, motive n) → motive (.branch condition body otherwise))
    (loop : ∀ condition body, motive condition → (∀ n ∈ body, motive n) →
      motive (.loop condition body))
    (ident : ∀ name, motive (.ident name))
    (literal : ∀ type payload parameters body, motive type →
      (∀ node, payload = some (.node node) → motive node) →
      (∀ f ∈ Payload.entries payload, motive f.2) →
      (∀ n ∈ body, motive n) → motive (.literal type payload parameters body))
    (new : ∀ target, motive target → motive (.new target))
    (binary : ∀ op left right, motive left → motive right → motive (.binary op left right))
    (unary : ∀ op operand, motive operand → motive (.unary op operand))
    (call : ∀ callee arguments, motive callee → (∀ n ∈ arguments, motive n) →
      motive (.call callee arguments))
    (member : ∀ object property, motive object → motive (.member object property))
    (element : ∀ object index, motive object → motive index → motive (.element object index))
    (type : ∀ tag name parameters returns fields, (∀ n ∈ parameters, motive n) →
      (∀ r ∈ returns, motive r) → (∀ f ∈ fields, motive f.2) →
      motive (.type tag name parameters returns fields))
    (unknown : ∀ kind, motive (.unknown kind)) :
    ∀ node, motive node :=
  -- The companion motives say that every node inside satisfies the main one.
  @Node.rec motive
    (fun payload => (∀ node, payload = .node node → motive node) ∧
      ∀ f ∈ Payload.entries (some payload), motive f.2)
    (fun value => ∀ v ∈ value, motive v)
    (fun nodes => ∀ n ∈ nodes, motive n)
    (fun bodies => ∀ body ∈ bodies, ∀ n ∈ body, motive n)
    (fun payload => (∀ node, payload = some (.node node) → motive node) ∧
      ∀ f ∈ Payload.entries payload, motive f.2)
    (fun fields => ∀ f ∈ fields, motive f.2)
    (fun field => motive field.2)
    bind assign ret branch loop ident
    (fun t payload parameters body typeIH payloadIH bodyIH =>
      literal t payload parameters body typeIH payloadIH.1 payloadIH.2 bodyIH)
    new binary unary call member element type unknown
    (by simp [Payload.entries]) (by simp [Payload.entries]) (by simp [Payload.entries])
    (by simp [Payload.entries])
    (fun node ih => ⟨by rintro _ ⟨⟩; exact ih, by simp [Payload.entries]⟩)
    (fun fields ih => ⟨by simp, ih⟩)
    (by simp) (fun value ih => by simpa using ih)
    (by simp) (fun head tail headIH tailIH => by simpa using ⟨headIH, tailIH⟩)
    (by simp) (fun body ih => by simpa using ih)
    (by simp [Payload.entries]) (fun payload ih => by simpa using ih)
    (by simp) (fun head tail headIH tailIH => by
      intro f hf
      rcases List.mem_cons.mp hf with rfl | hf
      · exact headIH
      · exact tailIH f hf)
    (fun _ _ ih => ih)

/-- Induction over types. -/
@[induction_eliminator]
theorem Ty.ind {motive : Ty → Prop}
    (prim : ∀ primitive, motive (.prim primitive))
    (fn : ∀ parameters returns, (∀ t ∈ parameters, motive t) → motive returns →
      motive (.fn parameters returns))
    (obj : ∀ fields, (∀ f ∈ fields, motive f.2) → motive (.obj fields))
    (list : motive .list) : ∀ type, motive type :=
  @Ty.rec motive
    (fun types => ∀ t ∈ types, motive t)
    (fun fields => ∀ f ∈ fields, motive f.2)
    (fun field => motive field.2)
    prim fn obj list
    (by simp) (fun head tail headIH tailIH => by simpa using ⟨headIH, tailIH⟩)
    (by simp) (fun head tail headIH tailIH => by
      intro f hf
      rcases List.mem_cons.mp hf with rfl | hf
      · exact headIH
      · exact tailIH f hf)
    (fun _ _ ih => ih)

@[simp] theorem renderings_eq_map (nodes : List Node) :
    renderings nodes = nodes.map Node.rendering := by
  induction nodes with
  | nil => rfl
  | cons node rest ih => rw [renderings, ih, List.map_cons]

@[simp] theorem fieldRenderings_eq_map (fields : List (String × Node)) :
    fieldRenderings fields = fields.map fun field => (field.1, field.2.rendering) := by
  induction fields with
  | nil => rfl
  | cons field rest ih =>
    obtain ⟨name, node⟩ := field
    rw [fieldRenderings, ih, List.map_cons]

/-! ## Renderings by kind

The renderings of kinds with an optional part, without a case for the part. -/

theorem Node.rendering_ret (value : Option Node) :
    (Node.ret value).rendering = .ofReturn (value.map Node.rendering) := by
  cases value <;> rfl

theorem Node.rendering_branch (test : Node) (body : List Node) (otherwise : Option (List Node)) :
    (Node.branch test body otherwise).rendering =
      .ofStatement "if" (Emit.branch test.rendering.expression (Rendering.body (renderings body))
        (otherwise.map fun other => Rendering.body (renderings other))) := by
  cases otherwise <;> rfl

theorem Node.rendering_literal (type : Node) (payload : Option Payload) (parameters : List String)
    (body : List Node) :
    (Node.literal type payload parameters body).rendering =
      .ofExpression "literal" (Emit.literal type payload parameters
        (Rendering.body (renderings body))
        ((Payload.entries payload).map fun f => (f.1, f.2.rendering.expression))) := by
  cases payload with
  | none => rfl
  | some payload =>
    cases payload with
    | fields fields =>
      rw [Node.rendering, Payload.renderings, fieldRenderings_eq_map, Rendering.entries,
        List.map_map]
      rfl
    | _ => rfl

theorem Node.rendering_call (callee : Node) (arguments : List Node) :
    (Node.call callee arguments).rendering =
      .ofExpression "call" (Emit.call callee.rendering.expression
        (arguments.map fun n => n.rendering.expression)) := by
  rw [Node.rendering, renderings_eq_map, List.map_map]
  rfl

end Arbor
