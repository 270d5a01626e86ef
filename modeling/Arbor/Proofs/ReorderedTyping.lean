import Arbor.Proofs.Alike
import Arbor.Proofs.BodyTyping

/-!
# Typing does not depend on the order of fields

What the rules say of a program they say of every program that differs from it in the order of
fields, up to the types being alike. The two programs are followed side by side, in frames that are
alike: a node has types alike, and a statement leads to frames alike. The rule of each kind is
shown for parts that follow each other, and the induction over nodes puts the parts in.
-/

namespace Arbor

/-- What the rules say of the first node in some frames, they say of the second in frames alike. -/
structure Node.Follows (node node' : Node) : Prop where
  expression {frames frames' : Frames} {type : Ty} : frames.Alike frames' →
    node.HasType frames type → ∃ type', node'.HasType frames' type' ∧ type.Alike type'
  statement {frames frames' after : Frames} : frames.Alike frames' → node.WellFormed frames after →
    ∃ after', node'.WellFormed frames' after' ∧ after.Alike after'

namespace Node.Follows

variable {node node' : Node}

theorem ofExpression (kind : node.isExpression)
    (expression : ∀ {frames frames' : Frames} {type : Ty}, frames.Alike frames' →
      node.HasType frames type → ∃ type', node'.HasType frames' type' ∧ type.Alike type') :
    node.Follows node' := by
  refine ⟨expression, ?_⟩
  intro frames frames' after alike formed
  obtain ⟨type, typed, rfl⟩ := formed.hasType kind
  obtain ⟨type', typed', -⟩ := expression alike typed
  exact ⟨frames', .expression typed', alike⟩

theorem ofStatement (kind : ¬node.isExpression)
    (statement : ∀ {frames frames' after : Frames}, frames.Alike frames' →
      node.WellFormed frames after →
        ∃ after', node'.WellFormed frames' after' ∧ after.Alike after') :
    node.Follows node' :=
  ⟨fun _ typed => absurd typed.isExpression kind, statement⟩

/-- The type of a condition is the same in both. -/
theorem condition (follows : node.Follows node') {frames frames' : Frames}
    (alike : frames.Alike frames') (typed : node.HasType frames .bool) :
    node'.HasType frames' .bool := by
  obtain ⟨type', typed', here⟩ := follows.expression alike typed
  rwa [here.prim_eq] at typed'

end Node.Follows

/-! ## Parts in lists -/

section Parts

variable {frames frames' : Frames}

theorem body_follows {nodes nodes' : List Node} (parts : List.Forall₂ Node.Follows nodes nodes')
    (alike : frames.Alike frames') {after : Frames} (formed : BodyWellFormed frames nodes after) :
    ∃ after', BodyWellFormed frames' nodes' after' ∧ after.Alike after' := by
  induction parts generalizing frames frames' with
  | nil =>
    cases formed
    exact ⟨frames', .nil, alike⟩
  | cons first rest ih =>
    cases formed with
    | cons here others =>
      obtain ⟨middle', here', between⟩ := first.statement alike here
      obtain ⟨after', others', behind⟩ := ih between others
      exact ⟨after', .cons here' others', behind⟩

theorem arguments_follow {nodes nodes' : List Node} (parts : List.Forall₂ Node.Follows nodes nodes')
    (alike : frames.Alike frames') {types types' : List Ty}
    (pairs : List.Forall₂ Ty.Alike types types') (typed : ArgumentsHaveTypes frames nodes types) :
    ArgumentsHaveTypes frames' nodes' types' := by
  induction parts generalizing types types' with
  | nil =>
    cases typed
    cases pairs
    exact .nil
  | cons first rest ih =>
    cases typed with
    | cons here same others =>
      cases pairs with
      | cons expected pairs =>
        obtain ⟨found', here', found⟩ := first.expression alike here
        exact .cons here' (expected.equiv_of_equiv found same) (ih pairs others)

/-- The fields are visited in the order of the declared type, so neither their own order nor that of
the declaration matters. -/
theorem fields_follow {fields fields' : List (String × Node)}
    (parts : Fields.Match Node.Follows fields fields') (alike : frames.Alike frames')
    {declared declared' : List (String × Ty)} (apart : (Fields.names declared').Nodup)
    (matched : Fields.Match Ty.Alike declared declared')
    (typed : FieldsHaveTypes frames fields declared) :
    FieldsHaveTypes frames' fields' declared' := by
  rw [fieldsHaveTypes_iff] at typed ⊢
  intro field member
  have found := Fields.lookup_of_mem apart member
  obtain ⟨expected, given, alikeType⟩ := matched.flip.exists_value found
  obtain ⟨value, type, chosen, typed, same⟩ := typed _ (Fields.mem_of_lookup given)
  obtain ⟨value', chosen', follows⟩ := parts.exists_value chosen
  obtain ⟨type', typed', here⟩ := follows.expression alike typed
  exact ⟨value', type', chosen', typed', alikeType.equiv_of_equiv here same⟩

end Parts

/-! ## Literals -/

/-- The parts of the payloads follow each other. -/
inductive Payload.Follows : Payload → Payload → Prop where
  | bool (value : Bool) : Follows (.bool value) (.bool value)
  | int (value : Int64) : Follows (.int value) (.int value)
  | float (value : Binary64) : Follows (.float value) (.float value)
  | str (text : String) : Follows (.str text) (.str text)
  | node {node node' : Node} : node.Lowers node' → Follows (.node node) (.node node')
  | fields {fields fields' : List (String × Node)} : Fields.Match Node.Follows fields fields' →
      Follows (.fields fields) (.fields fields')

theorem Payload.Fits.follows {p : Primitive} {payload payload' : Option Payload}
    (fits : Payload.Fits p payload) (filled : Option.Rel Payload.Follows payload payload') :
    Payload.Fits p payload' := by
  cases filled with
  | none => exact fits
  | some filled =>
    cases filled with
    | node lowers =>
      cases fits with
      | type lowered =>
        obtain ⟨_, lowered', -⟩ := lowers lowered
        exact .type lowered'
    | fields _ => cases fits
    | _ => exact fits

theorem literal_follows {descriptor descriptor' : Node} {payload payload' : Option Payload}
    {parameters : List String} {body body' : List Node} (described : descriptor.Lowers descriptor')
    (filled : Option.Rel Payload.Follows payload payload')
    (parts : List.Forall₂ Node.Follows body body') :
    (Node.literal descriptor payload parameters body).Follows
      (.literal descriptor' payload' parameters body') := by
  apply Node.Follows.ofExpression rfl
  intro frames frames' type alike typed
  cases typed with
  | scalar lowered fits =>
    obtain ⟨type', lowered', here⟩ := described lowered
    obtain rfl := here.prim_eq
    exact ⟨_, .scalar lowered' (fits.follows filled), here⟩
  | function lowered count valid apart formed =>
    obtain ⟨type', lowered', here⟩ := described lowered
    obtain ⟨types', returns', rfl, pairs, -⟩ := here.fn_inv
    obtain ⟨after', formed', -⟩ := body_follows parts (alike.function pairs parameters) formed
    cases filled
    exact ⟨_, .function lowered' (count.trans pairs.length_eq) valid apart formed', here⟩
  | object lowered known typed =>
    obtain ⟨type', lowered', here⟩ := described lowered
    obtain ⟨declared', rfl, apart, matched⟩ := here.obj_inv
    cases filled with
    | some filled =>
      cases filled with
      | fields parts =>
        refine ⟨_, .object lowered' ?_ (fields_follow parts alike apart matched typed), here⟩
        intro name given
        exact (matched.mem_names name).mp (known name ((parts.mem_names name).mpr given))

/-! ## Other expressions -/

section Expressions

variable {left left' right right' operand operand' callee callee' : Node}

theorem ident_follows (name : String) : (Node.ident name).Follows (.ident name) := by
  apply Node.Follows.ofExpression rfl
  intro frames frames' type alike typed
  cases typed with
  | ident nearest =>
    obtain ⟨type', nearest', here⟩ := alike.nearest nearest
    exact ⟨type', .ident nearest', here⟩

theorem new_follows {target target' : Node} (lowers : target.Lowers target') :
    (Node.new target).Follows (.new target') := by
  apply Node.Follows.ofExpression rfl
  intro frames frames' type alike typed
  cases typed with
  | new lowered =>
    obtain ⟨type', lowered', here⟩ := lowers lowered
    exact ⟨type', .new lowered', here⟩

theorem binary_follows {op : BinaryOp} (first : left.Follows left')
    (second : right.Follows right') : (Node.binary op left right).Follows (.binary op left' right') := by
  apply Node.Follows.ofExpression rfl
  intro frames frames' type alike typed
  cases typed with
  | binary typed typedRight same takes =>
    obtain ⟨type', typed', here⟩ := first.expression alike typed
    obtain ⟨other', typedRight', there⟩ := second.expression alike typedRight
    obtain ⟨result', takes', result⟩ := takes.alike here
    exact ⟨result', .binary typed' typedRight' (here.equiv_of_equiv there same) takes', result⟩

theorem unary_follows {op : UnaryOp} (follows : operand.Follows operand') :
    (Node.unary op operand).Follows (.unary op operand') := by
  apply Node.Follows.ofExpression rfl
  intro frames frames' type alike typed
  cases typed with
  | unary typed takes =>
    obtain ⟨type', typed', here⟩ := follows.expression alike typed
    exact ⟨type', .unary typed' (takes.alike here), here⟩

theorem call_follows {arguments arguments' : List Node} (follows : callee.Follows callee')
    (parts : List.Forall₂ Node.Follows arguments arguments') :
    (Node.call callee arguments).Follows (.call callee' arguments') := by
  apply Node.Follows.ofExpression rfl
  intro frames frames' type alike typed
  cases typed with
  | call typed typedArguments =>
    obtain ⟨type', typed', here⟩ := follows.expression alike typed
    obtain ⟨types', returns', rfl, pairs, result⟩ := here.fn_inv
    exact ⟨returns', .call typed' (arguments_follow parts alike pairs typedArguments), result⟩

end Expressions

/-! ## Statements -/

section Statements

variable {value value' condition condition' : Node} {body body' : List Node}

theorem bind_follows {name : String} (follows : value.Follows value') :
    (Node.bind name value).Follows (.bind name value') := by
  apply Node.Follows.ofStatement (by simp [Node.isExpression])
  intro frames frames' after alike formed
  cases formed with
  | bind bindable typed fresh =>
    obtain ⟨type', typed', here⟩ := follows.expression alike typed
    rw [Fields.names_eq_of_entries alike.symbols] at fresh
    exact ⟨_, .bind bindable typed' fresh, alike.extend here⟩
  | expression typed => cases typed

theorem assign_follows {types : Bool} {target target' : Node}
    (same : target.Reordered types target') (follows : value.Follows value') :
    (Node.assign target value).Follows (.assign target' value') := by
  apply Node.Follows.ofStatement (by simp [Node.isExpression])
  intro frames frames' after alike formed
  cases formed with
  | assign nearest typed equal =>
    cases same
    obtain ⟨declared', nearest', declared⟩ := alike.nearest nearest
    obtain ⟨found', typed', found⟩ := follows.expression alike typed
    exact ⟨frames', .assign nearest' typed' (declared.equiv_of_equiv found equal), alike⟩
  | expression typed => cases typed

theorem ret_follows {value value' : Option Node} (follows : Option.Rel Node.Follows value value') :
    (Node.ret value).Follows (.ret value') := by
  apply Node.Follows.ofStatement (by simp [Node.isExpression])
  intro frames frames' after alike formed
  cases formed with
  | dropped outside => exact ⟨frames', .dropped (alike.no_function outside), alike⟩
  | leave member inside =>
    obtain ⟨frame', member', inside'⟩ := alike.exists_function ⟨_, member, inside⟩
    cases follows
    exact ⟨frames', .leave member' inside', alike⟩
  | ret member inside typed =>
    obtain ⟨frame', member', inside'⟩ := alike.exists_function ⟨_, member, inside⟩
    cases follows with
    | some follows =>
      obtain ⟨_, typed', -⟩ := follows.expression alike typed
      exact ⟨frames', .ret member' inside' typed', alike⟩
  | expression typed => cases typed

theorem branch_follows {otherwise otherwise' : Option (List Node)}
    (test : condition.Follows condition')
    (parts : List.Forall₂ Node.Follows body body')
    (others : Option.Rel (List.Forall₂ Node.Follows) otherwise otherwise') :
    (Node.branch condition body otherwise).Follows (.branch condition' body' otherwise') := by
  apply Node.Follows.ofStatement (by simp [Node.isExpression])
  intro frames frames' after alike formed
  cases formed with
  | branch typed formed =>
    obtain ⟨_, formed', -⟩ := body_follows parts alike.block formed
    cases others
    exact ⟨frames', .branch (test.condition alike typed) formed', alike⟩
  | alternatives typed formed formedOther =>
    obtain ⟨_, formed', -⟩ := body_follows parts alike.block formed
    cases others with
    | some others =>
      obtain ⟨_, formedOther', -⟩ := body_follows others alike.block formedOther
      exact ⟨frames', .alternatives (test.condition alike typed) formed' formedOther', alike⟩
  | expression typed => cases typed

theorem loop_follows (test : condition.Follows condition')
    (parts : List.Forall₂ Node.Follows body body') :
    (Node.loop condition body).Follows (.loop condition' body') := by
  apply Node.Follows.ofStatement (by simp [Node.isExpression])
  intro frames frames' after alike formed
  cases formed with
  | loop typed formed =>
    obtain ⟨_, formed', -⟩ := body_follows parts alike.block formed
    exact ⟨frames', .loop (test.condition alike typed) formed', alike⟩
  | expression typed => cases typed

end Statements

/-! ## Nodes -/

theorem follows_of_forall₂ {types : Bool} {nodes nodes' : List Node}
    (pairs : List.Forall₂ (Node.Reordered types) nodes nodes') (distinct : ∀ n ∈ nodes, n.Distinct)
    (parts : ∀ n ∈ nodes, ∀ {n'}, n.Reordered types n' → n.Distinct → n.Follows n') :
    List.Forall₂ Node.Follows nodes nodes' :=
  forall₂_refine pairs fun n member _ here => parts n member here (distinct n member)

/-- A node is followed by the nodes that differ from it in the order of fields. -/
theorem Node.Reordered.follows {types : Bool} {node node' : Node}
    (reordered : node.Reordered types node') (distinct : node.Distinct) : node.Follows node' := by
  induction node generalizing node' with
  | bind name value ih =>
    cases reordered with
    | bind inner =>
      cases distinct with
      | bind apart => exact bind_follows (ih inner apart)
  | assign target value _ ih =>
    cases reordered with
    | assign first second =>
      cases distinct with
      | assign _ apart => exact assign_follows first (ih second apart)
  | ret value ih =>
    cases reordered with
    | ret inner =>
      cases distinct with
      | ret apart =>
        cases inner with
        | none => exact ret_follows .none
        | some inner => exact ret_follows (.some (ih _ rfl inner (apart _ rfl)))
  | branch condition body otherwise conditionIH bodyIH otherwiseIH =>
    cases reordered with
    | branch tested inside other =>
      cases distinct with
      | branch apart apartBody apartOther =>
        have parts := follows_of_forall₂ inside apartBody bodyIH
        refine branch_follows (conditionIH tested apart) parts ?_
        cases other with
        | none => exact .none
        | some other =>
          exact .some (follows_of_forall₂ other (apartOther _ rfl) (otherwiseIH _ rfl))
  | loop condition body conditionIH bodyIH =>
    cases reordered with
    | loop tested inside =>
      cases distinct with
      | loop apart apartBody =>
        exact loop_follows (conditionIH tested apart) (follows_of_forall₂ inside apartBody bodyIH)
  | ident name =>
    cases reordered with
    | ident => exact ident_follows name
  | literal descriptor payload parameters body _ _ fieldsIH bodyIH =>
    cases reordered with
    | literal described filled inside =>
      cases distinct with
      | literal apart apartNode apartNames apartFields apartBody =>
        have parts := follows_of_forall₂ inside apartBody bodyIH
        refine literal_follows (described.lowers apart) ?_ parts
        cases filled with
        | none => exact .none
        | some filled =>
          apply Option.Rel.some
          cases filled with
          | bool b => exact .bool b
          | int n => exact .int n
          | float x => exact .float x
          | str text => exact .str text
          | node inner => exact .node (inner.lowers (apartNode _ rfl))
          | fields pairs perm =>
            have values : List.Forall₂ (Fields.Entry Node.Follows) _ _ := Fields.entries_refine pairs
              fun f member _ here => fieldsIH f member here (apartFields f member)
            exact .fields (Fields.match_of_reordered apartNames values perm)
  | new target _ =>
    cases reordered with
    | new inner =>
      cases distinct with
      | new apart => exact new_follows (inner.lowers apart)
  | binary op left right leftIH rightIH =>
    cases reordered with
    | binary first second =>
      cases distinct with
      | binary apart apart' => exact binary_follows (leftIH first apart) (rightIH second apart')
  | unary op operand ih =>
    cases reordered with
    | unary inner =>
      cases distinct with
      | unary apart => exact unary_follows (ih inner apart)
  | call callee arguments calleeIH argumentsIH =>
    cases reordered with
    | call called given =>
      cases distinct with
      | call apart apartGiven =>
        exact call_follows (calleeIH called apart) (follows_of_forall₂ given apartGiven argumentsIH)
  | _ =>
    -- Nodes of the other kinds have no meaning, whatever they are related to.
    refine .ofStatement (by simp [isExpression]) ?_
    intro frames frames' after alike formed
    cases formed with
    | expression typed => cases typed

end Arbor
