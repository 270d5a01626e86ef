import Arbor.Proofs.InternalFailures
import Arbor.Proofs.Refinement

/-!
# The types of a reported mismatch

A type that a program is checked with is described somewhere in it, is a part of such a type, or is
primitive: types come from the descriptors of literals and of new values, and all that is done with
them is to take them apart. So a property of types that parts inherit (`Ty.Inherited`) and that the
described types have is one of every type that is reported; and since a mismatch is reported by the
check of types alone, the two types are never equal.

The walk is the one in plain environments. `Fair` says of one computation what is to be shown of
all: what it gives has the property, and if it fails with a mismatch, the types of that have it.
-/

namespace Arbor

/-! ## Described types -/

/-- The type that a node describes, if it describes one. -/
def Node.lowered (node : Node) : List Ty :=
  node.lower.toOption.toList

theorem Node.mem_lowered {node : Node} {type : Ty} :
    type ∈ node.lowered ↔ node.lower = .ok type := by
  unfold lowered
  cases node.lower with
  | ok described => simp [Except.toOption, eq_comm]
  | error e => simp [Except.toOption]

mutual

/-- The types that the descriptors of the literals and the new values in a node stand for. -/
def Node.described : Node → List Ty
  | .bind _ value => value.described
  | .assign _ value => value.described
  | .ret none => []
  | .ret (some value) => value.described
  | .branch test body none => test.described ++ describedAll body
  | .branch test body (some otherwise) =>
    test.described ++ describedAll body ++ describedAll otherwise
  | .loop test body => test.described ++ describedAll body
  | .literal type none _ body => type.lowered ++ describedAll body
  | .literal type (some payload) _ body =>
    type.lowered ++ payload.described ++ describedAll body
  | .new target => target.lowered
  | .binary _ left right => left.described ++ right.described
  | .unary _ operand => operand.described
  | .call callee arguments => callee.described ++ describedAll arguments
  | _ => []

/-- The types described in the nodes of a list. -/
def describedAll : List Node → List Ty
  | [] => []
  | node :: rest => node.described ++ describedAll rest

/-- The types described in the nodes of a table. -/
def describedFields : List (String × Node) → List Ty
  | [] => []
  | (_, node) :: rest => node.described ++ describedFields rest

/-- The types described in the fields of an object literal. -/
def Payload.described : Payload → List Ty
  | .fields fields => describedFields fields
  | _ => []

end

theorem describedAll_eq (nodes : List Node) :
    describedAll nodes = nodes.flatMap Node.described := by
  induction nodes with
  | nil => rfl
  | cons node rest ih => rw [describedAll, ih, List.flatMap_cons]

theorem describedFields_eq (fields : List (String × Node)) :
    describedFields fields = fields.flatMap fun f => f.2.described := by
  induction fields with
  | nil => rfl
  | cons field rest ih =>
    obtain ⟨name, node⟩ := field
    rw [describedFields, ih, List.flatMap_cons]

namespace Node

theorem described_ret (value : Option Node) :
    (Node.ret value).described = value.toList.flatMap described := by
  cases value <;> simp [described]

theorem described_branch (test : Node) (body : List Node) (otherwise : Option (List Node)) :
    (Node.branch test body otherwise).described =
      test.described ++ body.flatMap described ++
        otherwise.toList.flatMap (List.flatMap described) := by
  cases otherwise <;> simp [described, describedAll_eq]

theorem described_literal (type : Node) (payload : Option Payload) (parameters : List String)
    (body : List Node) :
    (Node.literal type payload parameters body).described =
      type.lowered ++ ((Payload.entries payload).flatMap fun f => f.2.described) ++
        body.flatMap described := by
  rcases payload with _ | payload
  · simp [described, describedAll_eq, Payload.entries]
  · cases payload <;>
      simp [described, describedAll_eq, Payload.described, describedFields_eq, Payload.entries]

end Node

/-- The types that the descriptors of the literals and the new values in a program stand for. -/
def Program.described (program : Program) : List Ty :=
  List.flatMap Node.described program

/-! ## Inherited properties -/

/-- The property is one of types without lists, holds of all primitive types and goes from a type
to its parts. -/
structure Ty.Inherited (good : Ty → Prop) : Prop where
  listFree {type : Ty} : good type → type.ListFree
  prim (p : Primitive) : good (.prim p)
  parameters {parameters : List Ty} {returns : Ty} : good (.fn parameters returns) →
    ∀ t ∈ parameters, good t
  returns {parameters : List Ty} {returns : Ty} : good (.fn parameters returns) → good returns
  fields {fields : List (String × Ty)} : good (.obj fields) → ∀ f ∈ fields, good f.2

/-- If the error is a mismatch, its types have the property and are not equal. -/
def CompileError.Fair (good : Ty → Prop) (error : CompileError) : Prop :=
  ∀ expected found site, error = .typeMismatch expected found site →
    good expected ∧ good found ∧ ¬expected.equiv found

/-- What the computation gives is as it should be, or it fails with a fair error. -/
def Fair {α : Type} (good : Ty → Prop) (holds : α → Prop) : Except CompileError α → Prop
  | .ok a => holds a
  | .error e => e.Fair good

/-- All names are declared with types that have the property. -/
def Frames.All (good : Ty → Prop) (frames : Frames) : Prop :=
  ∀ frame ∈ frames, ∀ entry ∈ frame.symbols, good entry.2

section Walk

variable {α β : Type} {good : Ty → Prop} {holds : α → Prop} {result : β → Prop} {frames : Frames}

namespace Fair

/-- An error of another kind. -/
theorem other {error : CompileError} (kind : ∀ expected found site,
    error ≠ .typeMismatch expected found site) : Fair good holds (.error error) :=
  fun expected found site same => absurd same (kind expected found site)

theorem bind {x : Except CompileError α} {f : α → Except CompileError β}
    (first : Fair good holds x) (next : ∀ a, holds a → Fair good result (f a)) :
    Fair good result (x >>= f) := by
  cases x with
  | ok a => exact next a first
  | error e => exact first

theorem ite {p : Prop} [Decidable p] {x y : Except CompileError α} (yes : p → Fair good holds x)
    (no : Fair good holds y) : Fair good holds (if p then x else y) := by
  split
  · next here => exact yes here
  · exact no

theorem expectType {expected found : Ty} (here : good expected) (there : good found)
    (site : Site) : Fair good (fun _ => True) (Lexical.expectType expected found site) := by
  unfold Lexical.expectType
  split
  · trivial
  · next differ =>
    rintro _ _ _ ⟨⟩
    exact ⟨here, there, differ⟩

/-- Lowering reports no mismatch. -/
theorem lower {node : Node} {holds : Ty → Prop} (described : ∀ t, node.lower = .ok t → holds t) :
    Fair good holds node.lower := by
  cases lowered : node.lower with
  | ok type => exact described type lowered
  | error e =>
    rcases node.lower_error lowered with ⟨_, rfl⟩ | ⟨_, rfl⟩
    · exact other nofun
    · exact other nofun

theorem constructor {type : Ty} (free : type.ListFree) :
    Fair good (fun _ => True) type.constructor := by
  obtain ⟨text, built⟩ := free.exists_constructor
  rw [built]
  trivial

theorem descriptorTag (node : Node) : Fair good (fun _ => True) node.descriptorTag := by
  cases node with
  | type => trivial
  | _ => exact other nofun

end Fair

/-! ## Frames -/

namespace Frames.All

theorem root : Frames.root.All good := by
  intro frame member entry declared
  cases List.mem_singleton.mp member
  cases declared

/-- One frame more, without names. -/
theorem inside (all : frames.All good) (isFunction : Bool) :
    Frames.All good (⟨[], isFunction⟩ :: frames) := by
  intro frame member entry declared
  rcases List.mem_cons.mp member with rfl | member
  · cases declared
  · exact all frame member entry declared

theorem type? (all : frames.All good) {name : String} {type : Ty}
    (found : frames.type? name = some type) : good type := by
  obtain ⟨frame, member, here⟩ := List.exists_of_findSome?_eq_some found
  exact all frame member _ (Fields.mem_of_lookup here)

theorem declare (all : frames.All good) {type : Ty} (typed : good type) (name : String) :
    Fair good (Frames.All good) (frames.declare name type) := by
  cases frames with
  | nil => exact all
  | cons frame outer =>
    unfold Frames.declare
    refine .ite (fun _ => .other nofun) ?_
    intro inner member entry declared
    rcases List.mem_cons.mp member with rfl | member
    · rcases List.mem_append.mp declared with declared | declared
      · exact all frame (by simp) entry declared
      · cases List.mem_singleton.mp declared
        exact typed
    · exact all inner (by simp [member]) entry declared

theorem resolve (all : frames.All good) (name : String) :
    Fair good good (Lexical.resolve name frames) := by
  unfold Lexical.resolve
  split
  · next found => exact all.type? found
  · exact .other nofun

end Frames.All

/-! ## Constructs -/

namespace Lexical

/-- The expression has a type with the property in all frames that declare such types. -/
def FairExpression (good : Ty → Prop) (emit : Expression) : Prop :=
  ∀ frames : Frames, frames.All good → Fair good (fun value => good value.type) (emit frames)

/-- The statements lead to frames that declare such types again. -/
def FairBody (good : Ty → Prop) (body : Frames → Except CompileError (α × Frames)) : Prop :=
  ∀ frames : Frames, frames.All good → Fair good (fun last => last.2.All good) (body frames)

theorem identifier_fair (name : String) : FairExpression good (identifier name) :=
  fun _ all => (all.resolve name).bind fun _ typed => typed

theorem newValue_fair (inherited : Ty.Inherited good) {target : Node}
    (described : ∀ t, target.lower = .ok t → good t) :
    FairExpression good fun _ => newValue target := by
  intro frames _
  refine (Fair.lower described).bind fun type typed => ?_
  exact (Fair.constructor (inherited.listFree typed)).bind fun _ _ => typed

theorem resultType_good (inherited : Ty.Inherited good) (op : BinaryOp) {type : Ty}
    (typed : good type) : good (Emit.resultType op type) := by
  cases op with
  | add | sub | mul | div | rem => exact typed
  | _ => exact inherited.prim .bool

theorem binary_fair (inherited : Ty.Inherited good) {left right : Expression}
    (first : FairExpression good left) (second : FairExpression good right) (op : BinaryOp) :
    FairExpression good (binary op left right) := by
  intro frames all
  refine (first frames all).bind fun l typed => ?_
  refine (second frames all).bind fun r typed' => ?_
  refine (Fair.expectType typed typed' _).bind fun _ _ => ?_
  refine .ite (fun _ => ?_) (.other nofun)
  have resulting := resultType_good inherited op typed
  exact (Fair.constructor (inherited.listFree resulting)).bind fun _ _ => resulting

theorem unary_fair (inherited : Ty.Inherited good) {operand : Expression}
    (inner : FairExpression good operand) (op : UnaryOp) :
    FairExpression good (unary op operand) := by
  intro frames all
  refine (inner frames all).bind fun value typed => ?_
  refine .ite (fun _ => ?_) (.other nofun)
  exact (Fair.constructor (inherited.listFree typed)).bind fun _ _ => typed

theorem arguments_fair {args : List Expression} (parts : ∀ a ∈ args, FairExpression good a)
    (all : frames.All good) {types : List Ty} (typed : ∀ t ∈ types, good t) (position : Nat) :
    Fair good (fun _ => True) (arguments frames position args types) := by
  induction args generalizing types position with
  | nil => trivial
  | cons argument rest ih =>
    cases types with
    | nil => trivial
    | cons expected others =>
      obtain ⟨here, further⟩ := List.forall_mem_cons.mp typed
      obtain ⟨first, parts⟩ := List.forall_mem_cons.mp parts
      refine (first frames all).bind fun value found => ?_
      refine (Fair.expectType here found _).bind fun _ _ => ?_
      exact (ih parts further _).bind fun _ _ => trivial

theorem call_fair (inherited : Ty.Inherited good) {callee : Expression} {args : List Expression}
    (called : FairExpression good callee) (parts : ∀ a ∈ args, FairExpression good a) :
    FairExpression good (call callee args) := by
  intro frames all
  refine (called frames all).bind fun value typed => ?_
  split
  · next same =>
    rw [same] at typed
    refine .ite (fun _ => ?_) (.other nofun)
    refine (arguments_fair parts all (inherited.parameters typed) _).bind fun _ _ => ?_
    exact inherited.returns typed
  · exact .other nofun

theorem declareParameters_fair {types : List Ty} (typed : ∀ t ∈ types, good t)
    (names : List String) (all : frames.All good) :
    Fair good (Frames.All good) (declareParameters names types frames) := by
  induction names generalizing types frames with
  | nil => exact all
  | cons name names ih =>
    cases types with
    | nil => exact all
    | cons type types =>
      obtain ⟨here, further⟩ := List.forall_mem_cons.mp typed
      refine .ite (fun _ => ?_) (.other nofun)
      exact (all.declare here name).bind fun _ next => ih further next

theorem function_fair {types : List Ty} {body : Body} (typed : ∀ t ∈ types, good t)
    (inner : FairBody good body) (parameters : List String) (all : frames.All good) :
    Fair good (fun _ => True) (function parameters types body frames) := by
  refine .ite (fun _ => ?_) (.other nofun)
  refine (declareParameters_fair typed parameters (all.inside true)).bind fun inside next => ?_
  exact (inner inside next).bind fun _ _ => trivial

theorem entries_fair {fields : List (String × Expression)}
    (parts : ∀ f ∈ fields, FairExpression good f.2) (all : frames.All good)
    {declared : List (String × Ty)} (typed : ∀ f ∈ declared, good f.2) :
    Fair good (fun _ => True) (entries fields frames declared) := by
  induction declared with
  | nil => trivial
  | cons field rest ih =>
    obtain ⟨name, expected⟩ := field
    obtain ⟨here, further⟩ := List.forall_mem_cons.mp typed
    unfold entries
    split
    · exact .other nofun
    · next value given =>
      refine (parts _ (Fields.mem_of_lookup given) frames all).bind fun _ found => ?_
      refine (Fair.expectType here found _).bind fun _ _ => ?_
      exact (ih further).bind fun _ _ => trivial

theorem object_fair {fields : List (String × Expression)}
    (parts : ∀ f ∈ fields, FairExpression good f.2) (all : frames.All good)
    {declared : List (String × Ty)} (typed : ∀ f ∈ declared, good f.2) :
    Fair good (fun _ => True) (object fields declared frames) := by
  unfold object
  split
  · exact .other nofun
  · exact (entries_fair parts all typed).bind fun _ _ => trivial

theorem payload_fair (inherited : Ty.Inherited good) {type : Ty} {body : Body}
    {fields : List (String × Expression)} (typed : good type) (inner : FairBody good body)
    (parts : ∀ f ∈ fields, FairExpression good f.2) (all : frames.All good) (tag : Tag)
    (value : Option Payload) (parameters : List String) :
    Fair good (fun _ => True) (payload tag type value parameters body fields frames) := by
  unfold payload
  split
  · trivial
  · trivial
  · trivial
  · trivial
  · trivial
  · trivial
  · next node =>
    have lowers : Fair good Ty.ListFree node.lower := .lower fun _ => node.lower_listFree
    exact lowers.bind fun _ free => .constructor free
  · split
    · exact function_fair (inherited.parameters typed) inner parameters all
    · exact .other nofun
  · split
    · exact object_fair parts all (inherited.fields typed)
    · exact .other nofun
  · exact .other nofun
  · exact .other nofun

theorem literal_fair (inherited : Ty.Inherited good) {descriptor : Node} {body : Body}
    {fields : List (String × Expression)}
    (described : ∀ t, descriptor.lower = .ok t → good t) (inner : FairBody good body)
    (parts : ∀ f ∈ fields, FairExpression good f.2) (value : Option Payload)
    (parameters : List String) :
    FairExpression good (literal descriptor value parameters body fields) := by
  intro frames all
  refine (Fair.descriptorTag descriptor).bind fun tag _ => ?_
  refine (Fair.lower described).bind fun type typed => ?_
  refine (payload_fair inherited typed inner parts all tag value parameters).bind fun _ _ => ?_
  exact (Fair.constructor (inherited.listFree typed)).bind fun _ _ => typed

/-- A statement that declares nothing. -/
theorem keepFrames_fair {emit : Frames → Except CompileError String}
    (inner : ∀ frames : Frames, frames.All good → Fair good (fun _ => True) (emit frames)) :
    FairBody good (keepFrames emit) :=
  fun frames all => (inner frames all).bind fun _ _ => all

theorem bind_fair {value : Expression} (inner : FairExpression good value) (name : String) :
    FairBody good (bind name value) := by
  intro frames all
  refine .ite (fun _ => ?_) (.other nofun)
  refine (inner frames all).bind fun value typed => ?_
  exact (all.declare typed name).bind fun _ after => after

theorem assign_fair {value : Expression} (inner : FairExpression good value) (target : Node)
    (all : frames.All good) : Fair good (fun _ => True) (assign target value frames) := by
  unfold assign
  split
  · next name =>
    refine (all.resolve name).bind fun declared typed => ?_
    refine (inner frames all).bind fun value typed' => ?_
    exact (Fair.expectType typed typed' _).bind fun _ _ => trivial
  · exact .other nofun

theorem ret_fair {value : Option Expression} (inner : ∀ v ∈ value, FairExpression good v)
    (all : frames.All good) : Fair good (fun _ => True) (ret value frames) := by
  refine .ite (fun _ => ?_) trivial
  cases value with
  | none => trivial
  | some value => exact (inner value rfl frames all).bind fun _ _ => trivial

theorem condition_fair (inherited : Ty.Inherited good) {test : Expression}
    (inner : FairExpression good test) (site : Site) (all : frames.All good) :
    Fair good (fun _ => True) (condition test site frames) := by
  refine (inner frames all).bind fun value typed => ?_
  exact (Fair.expectType (inherited.prim .bool) typed site).bind fun _ _ => trivial

theorem block_fair {body : Body} (inner : FairBody good body) (all : frames.All good) :
    Fair good (fun _ => True) (block body frames) :=
  (inner _ (all.inside false)).bind fun _ _ => trivial

theorem branch_fair (inherited : Ty.Inherited good) {test : Expression} {body : Body}
    {otherwise : Option Body} (tested : FairExpression good test) (inner : FairBody good body)
    (others : ∀ other ∈ otherwise, FairBody good other) (all : frames.All good) :
    Fair good (fun _ => True) (branch test body otherwise frames) := by
  refine (condition_fair inherited tested .ifCondition all).bind fun _ _ => ?_
  refine (block_fair inner all).bind fun _ _ => ?_
  cases otherwise with
  | none => trivial
  | some other => exact (block_fair (others other rfl) all).bind fun _ _ => trivial

theorem loop_fair (inherited : Ty.Inherited good) {test : Expression} {body : Body}
    (tested : FairExpression good test) (inner : FairBody good body) (all : frames.All good) :
    Fair good (fun _ => True) (loop test body frames) := by
  refine (condition_fair inherited tested .whileCondition all).bind fun _ _ => ?_
  exact (block_fair inner all).bind fun _ _ => trivial

theorem statements_fair {nodes : List (Frames → Except CompileError (Option String × Frames))}
    (parts : ∀ s ∈ nodes, FairBody good s) : FairBody good (statements nodes) := by
  induction nodes with
  | nil => exact fun _ all => all
  | cons first rest ih =>
    obtain ⟨here, parts⟩ := List.forall_mem_cons.mp parts
    intro frames all
    refine (here frames all).bind fun _ next => ?_
    exact (ih parts _ next).bind fun _ last => last

end Lexical

/-! ## Nodes -/

/-- The node is checked with such types only, in each place. -/
structure Node.Fair (good : Ty → Prop) (node : Node) : Prop where
  expression : Lexical.FairExpression good node.lexical.expression
  statement : Lexical.FairBody good node.lexical.statement

namespace Node.Fair

variable {node : Node}

theorem ofExpression {emit : Lexical.Expression} (rendered : node.lexical = .ofExpression emit)
    (fair : Lexical.FairExpression good emit) : node.Fair good := by
  constructor
  · rw [rendered]
    exact fair
  · rw [rendered]
    exact fun frames all => (fair frames all).bind fun _ _ => all

theorem ofStatement {kind : String} {emit : Lexical.Statement}
    (rendered : node.lexical = .ofStatement kind emit) (fair : Lexical.FairBody good emit) :
    node.Fair good := by
  constructor
  · rw [rendered]
    exact fun _ _ => .other nofun
  · rw [rendered]
    exact fun frames all => (fair frames all).bind fun _ last => last

theorem ofReturn {value : Option Node}
    (rendered : node.lexical = .ofReturn (value.map Node.lexical))
    (parts : ∀ v ∈ value, v.Fair good) : node.Fair good := by
  have inner : ∀ v ∈ (value.map Node.lexical).map LexicalRendering.expression,
      Lexical.FairExpression good v := by
    cases value with
    | none => nofun
    | some value => exact fun _ same => Option.some.inj same ▸ (parts value rfl).expression
  constructor
  · rw [rendered]
    exact fun _ _ => .other nofun
  · rw [rendered]
    exact fun frames all => (Lexical.ret_fair inner all).bind fun _ _ => all

theorem unhandled {kind : String} (rendered : node.lexical = .unhandled kind) :
    node.Fair good := by
  constructor
  · rw [rendered]
    exact fun _ _ => .other nofun
  · rw [rendered]
    exact fun _ _ => .other nofun

theorem body {nodes : List Node} (parts : ∀ n ∈ nodes, n.Fair good) :
    Lexical.FairBody good (LexicalRendering.body (lexicals nodes)) := by
  apply Lexical.statements_fair
  rw [lexicals_eq_map, List.map_map, List.forall_mem_map]
  exact fun n member => (parts n member).statement

end Node.Fair

/-- A node is checked with types that have the property, if those that are described in it do. -/
theorem Node.fair (inherited : Ty.Inherited good) (node : Node)
    (described : ∀ t ∈ node.described, good t) : node.Fair good := by
  induction node with
  | bind name value ih =>
    exact .ofStatement rfl (Lexical.bind_fair (ih described).expression name)
  | assign target value _ ih =>
    exact .ofStatement rfl
      (Lexical.keepFrames_fair fun _ => Lexical.assign_fair (ih described).expression target)
  | ret value ih =>
    rw [described_ret, List.forall_mem_flatMap] at described
    have inner : ∀ v ∈ value, v.Fair good :=
      fun v member => ih v member (described v (by simpa using member))
    exact .ofReturn (Node.lexical_ret value) inner
  | branch condition body otherwise conditionIH bodyIH otherwiseIH =>
    simp only [described_branch, List.forall_mem_append, List.forall_mem_flatMap] at described
    obtain ⟨⟨tested, inside⟩, others⟩ := described
    have inner := Node.Fair.body fun n member => bodyIH n member (inside n member)
    have innerOther : ∀ other ∈ otherwise.map fun nodes => LexicalRendering.body (lexicals nodes),
        Lexical.FairBody good other := by
      cases otherwise with
      | none => nofun
      | some nodes =>
        rintro _ ⟨⟩
        refine Node.Fair.body fun n member => ?_
        exact otherwiseIH nodes rfl n member (others nodes (by simp) n member)
    exact .ofStatement (Node.lexical_branch condition body otherwise)
      (Lexical.keepFrames_fair fun _ =>
        Lexical.branch_fair inherited (conditionIH tested).expression inner innerOther)
  | loop condition body conditionIH bodyIH =>
    simp only [Node.described, describedAll_eq, List.forall_mem_append, List.forall_mem_flatMap]
      at described
    obtain ⟨tested, inside⟩ := described
    have inner := Node.Fair.body fun n member => bodyIH n member (inside n member)
    exact .ofStatement rfl (Lexical.keepFrames_fair fun _ =>
      Lexical.loop_fair inherited (conditionIH tested).expression inner)
  | ident name => exact .ofExpression rfl (Lexical.identifier_fair name)
  | literal type payload parameters body _ _ fieldsIH bodyIH =>
    simp only [described_literal, List.forall_mem_append, List.forall_mem_flatMap, mem_lowered]
      at described
    obtain ⟨⟨lowered, fields⟩, inside⟩ := described
    have inner := Node.Fair.body fun n member => bodyIH n member (inside n member)
    refine .ofExpression (Node.lexical_literal type payload parameters body)
      (Lexical.literal_fair inherited lowered inner ?_ payload parameters)
    rw [List.forall_mem_map]
    exact fun f member => (fieldsIH f member (fields f member)).expression
  | new target =>
    simp only [Node.described, mem_lowered] at described
    exact .ofExpression rfl (Lexical.newValue_fair inherited described)
  | binary op left right leftIH rightIH =>
    obtain ⟨first, second⟩ := List.forall_mem_append.mp described
    exact .ofExpression rfl
      (Lexical.binary_fair inherited (leftIH first).expression (rightIH second).expression op)
  | unary op operand ih =>
    exact .ofExpression rfl (Lexical.unary_fair inherited (ih described).expression op)
  | call callee arguments calleeIH argumentsIH =>
    simp only [Node.described, describedAll_eq, List.forall_mem_append, List.forall_mem_flatMap]
      at described
    obtain ⟨called, given⟩ := described
    refine .ofExpression (Node.lexical_call callee arguments)
      (Lexical.call_fair inherited (calleeIH called).expression ?_)
    rw [List.forall_mem_map]
    exact fun n member => (argumentsIH n member (given n member)).expression
  | _ => exact .unhandled rfl

/-- Types that are reported not to match are not equal, and have what the described types have. -/
theorem Program.mismatch_fair (inherited : Ty.Inherited good) {program : Program}
    (described : ∀ t ∈ program.described, good t) {expected found : Ty} {site : Site}
    (failed : program.compile = .error (.typeMismatch expected found site)) :
    good expected ∧ good found ∧ ¬expected.equiv found := by
  have parts : ∀ n ∈ program, n.Fair good := by
    intro n member
    exact n.fair inherited fun t inside => described t (List.mem_flatMap.mpr ⟨n, member, inside⟩)
  have fair : Fair good (fun _ => True) program.compileLexically :=
    (Node.Fair.body parts _ .root).bind fun _ _ => trivial
  rw [← program.compile_eq_compileLexically, failed] at fair
  exact fair expected found site rfl

end Walk

end Arbor
