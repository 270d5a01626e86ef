import Arbor.Proofs.Structural

/-!
# Programs up to the order of fields

Two programs are the same up to the order of fields when one is the other with the entries of some
tables in another order, anywhere and at any depth: of the tables in which object literals give
their fields and, where that is meant too, of those in which type descriptors declare them. The
relation keeps every other part as it is, and a program whose tables have no name twice is related
to such programs only.
-/

namespace Arbor

/-- Entries of one name with related values. -/
inductive Fields.Entry {α β : Type} (related : α → β → Prop) : String × α → String × β → Prop where
  | mk {name : String} {value : α} {value' : β} : related value value' →
      Entry related (name, value) (name, value')

mutual

/-- The nodes differ in the order of fields only. The tables of type descriptors keep their order
unless `types` says otherwise. -/
inductive Node.Reordered (types : Bool) : Node → Node → Prop where
  | bind {name : String} {value value' : Node} : Node.Reordered types value value' →
      Node.Reordered types (.bind name value) (.bind name value')
  | assign {target target' value value' : Node} : Node.Reordered types target target' →
      Node.Reordered types value value' →
      Node.Reordered types (.assign target value) (.assign target' value')
  | ret {value value' : Option Node} : Option.Rel (Node.Reordered types) value value' →
      Node.Reordered types (.ret value) (.ret value')
  | branch {condition condition' : Node} {body body' : List Node}
      {otherwise otherwise' : Option (List Node)} : Node.Reordered types condition condition' →
      List.Forall₂ (Node.Reordered types) body body' →
      Option.Rel (List.Forall₂ (Node.Reordered types)) otherwise otherwise' →
      Node.Reordered types (.branch condition body otherwise) (.branch condition' body' otherwise')
  | loop {condition condition' : Node} {body body' : List Node} :
      Node.Reordered types condition condition' → List.Forall₂ (Node.Reordered types) body body' →
      Node.Reordered types (.loop condition body) (.loop condition' body')
  | ident (name : String) : Node.Reordered types (.ident name) (.ident name)
  | literal {descriptor descriptor' : Node} {payload payload' : Option Payload}
      {parameters : List String} {body body' : List Node} :
      Node.Reordered types descriptor descriptor' →
      Option.Rel (Payload.Reordered types) payload payload' →
      List.Forall₂ (Node.Reordered types) body body' →
      Node.Reordered types (.literal descriptor payload parameters body)
        (.literal descriptor' payload' parameters body')
  | new {target target' : Node} : Node.Reordered types target target' →
      Node.Reordered types (.new target) (.new target')
  | binary {op : BinaryOp} {left left' right right' : Node} : Node.Reordered types left left' →
      Node.Reordered types right right' →
      Node.Reordered types (.binary op left right) (.binary op left' right')
  | unary {op : UnaryOp} {operand operand' : Node} : Node.Reordered types operand operand' →
      Node.Reordered types (.unary op operand) (.unary op operand')
  | call {callee callee' : Node} {arguments arguments' : List Node} :
      Node.Reordered types callee callee' →
      List.Forall₂ (Node.Reordered types) arguments arguments' →
      Node.Reordered types (.call callee arguments) (.call callee' arguments')
  | member {object object' : Node} {property : String} : Node.Reordered types object object' →
      Node.Reordered types (.member object property) (.member object' property)
  | element {object object' index index' : Node} : Node.Reordered types object object' →
      Node.Reordered types index index' →
      Node.Reordered types (.element object index) (.element object' index')
  | type {tag : Tag} {name : Option String} {parameters parameters' : List Node}
      {returns returns' : Option Node} {fields kept fields' : List (String × Node)} :
      List.Forall₂ (Node.Reordered types) parameters parameters' →
      Option.Rel (Node.Reordered types) returns returns' →
      List.Forall₂ (Fields.Entry (Node.Reordered types)) fields kept → kept.Perm fields' →
      (types = false → kept = fields') →
      Node.Reordered types (.type tag name parameters returns fields)
        (.type tag name parameters' returns' fields')
  | unknown (kind : String) : Node.Reordered types (.unknown kind) (.unknown kind)

/-- The payloads differ in the order of fields only. -/
inductive Payload.Reordered (types : Bool) : Payload → Payload → Prop where
  | bool (value : Bool) : Payload.Reordered types (.bool value) (.bool value)
  | int (value : Int64) : Payload.Reordered types (.int value) (.int value)
  | float (value : Binary64) : Payload.Reordered types (.float value) (.float value)
  | str (text : String) : Payload.Reordered types (.str text) (.str text)
  | node {node node' : Node} : Node.Reordered types node node' →
      Payload.Reordered types (.node node) (.node node')
  | fields {fields kept fields' : List (String × Node)} :
      List.Forall₂ (Fields.Entry (Node.Reordered types)) fields kept → kept.Perm fields' →
      Payload.Reordered types (.fields fields) (.fields fields')

end

/-- No table in the node has a name twice. -/
inductive Node.Distinct : Node → Prop where
  | bind {name : String} {value : Node} : Distinct value → Distinct (.bind name value)
  | assign {target value : Node} : Distinct target → Distinct value →
      Distinct (.assign target value)
  | ret {value : Option Node} : (∀ v ∈ value, Distinct v) → Distinct (.ret value)
  | branch {condition : Node} {body : List Node} {otherwise : Option (List Node)} :
      Distinct condition → (∀ n ∈ body, Distinct n) →
      (∀ other ∈ otherwise, ∀ n ∈ other, Distinct n) → Distinct (.branch condition body otherwise)
  | loop {condition : Node} {body : List Node} : Distinct condition → (∀ n ∈ body, Distinct n) →
      Distinct (.loop condition body)
  | ident (name : String) : Distinct (.ident name)
  | literal {descriptor : Node} {payload : Option Payload} {parameters : List String}
      {body : List Node} : Distinct descriptor →
      (∀ node, payload = some (.node node) → Distinct node) →
      (Fields.names (Payload.entries payload)).Nodup →
      (∀ f ∈ Payload.entries payload, Distinct f.2) → (∀ n ∈ body, Distinct n) →
      Distinct (.literal descriptor payload parameters body)
  | new {target : Node} : Distinct target → Distinct (.new target)
  | binary {op : BinaryOp} {left right : Node} : Distinct left → Distinct right →
      Distinct (.binary op left right)
  | unary {op : UnaryOp} {operand : Node} : Distinct operand → Distinct (.unary op operand)
  | call {callee : Node} {arguments : List Node} : Distinct callee → (∀ n ∈ arguments, Distinct n) →
      Distinct (.call callee arguments)
  | member {object : Node} {property : String} : Distinct object →
      Distinct (.member object property)
  | element {object index : Node} : Distinct object → Distinct index →
      Distinct (.element object index)
  | type {tag : Tag} {name : Option String} {parameters : List Node} {returns : Option Node}
      {fields : List (String × Node)} : (∀ n ∈ parameters, Distinct n) →
      (∀ r ∈ returns, Distinct r) → (Fields.names fields).Nodup → (∀ f ∈ fields, Distinct f.2) →
      Distinct (.type tag name parameters returns fields)
  | unknown (kind : String) : Distinct (.unknown kind)

/-! ## Lists and tables of related parts -/

section Related

variable {α β : Type} {related : α → β → Prop}

theorem forall₂_refine {finer : α → β → Prop} {nodes : List α} {others : List β}
    (pairs : List.Forall₂ related nodes others)
    (refine : ∀ a ∈ nodes, ∀ b, related a b → finer a b) : List.Forall₂ finer nodes others := by
  induction pairs with
  | nil => exact .nil
  | cons first rest ih =>
    have others := ih fun a member => refine a (by simp [member])
    exact .cons (refine _ (by simp) _ first) others

theorem forall₂_flip {back : β → α → Prop} {nodes : List α} {others : List β}
    (pairs : List.Forall₂ related nodes others)
    (turn : ∀ a ∈ nodes, ∀ b, related a b → back b a) : List.Forall₂ back others nodes :=
  (forall₂_refine pairs turn).flip

theorem exists_forall₂ {nodes : List α} (parts : ∀ a ∈ nodes, ∃ b, related a b) :
    ∃ others, List.Forall₂ related nodes others := by
  induction nodes with
  | nil => exact ⟨[], .nil⟩
  | cons a rest ih =>
    obtain ⟨b, first⟩ := parts a (by simp)
    obtain ⟨others, pairs⟩ := ih fun a member => parts a (by simp [member])
    exact ⟨b :: others, .cons first pairs⟩

theorem exists_of_mem_forall₂ {nodes : List α} {others : List β}
    (pairs : List.Forall₂ related nodes others) : ∀ b ∈ others, ∃ a ∈ nodes, related a b := by
  induction pairs with
  | nil => simp
  | cons first rest ih =>
    intro b member
    rcases List.mem_cons.mp member with rfl | member
    · exact ⟨_, by simp, first⟩
    · obtain ⟨a, inside, holds⟩ := ih b member
      exact ⟨a, by simp [inside], holds⟩

namespace Fields

variable {fields : List (String × α)} {kept other : List (String × β)}

theorem Entry.flip {back : β → α → Prop} {field : String × α} {entry : String × β}
    (here : Entry related field entry) (turn : related field.2 entry.2 → back entry.2 field.2) :
    Entry back entry field := by
  cases here with
  | mk holds => exact .mk (turn holds)

theorem entries_refine {finer : α → β → Prop} (pairs : List.Forall₂ (Entry related) fields kept)
    (refine : ∀ f ∈ fields, ∀ b, related f.2 b → finer f.2 b) :
    List.Forall₂ (Entry finer) fields kept := by
  apply forall₂_refine pairs
  intro field member entry here
  cases here with
  | mk holds => exact .mk (refine _ member _ holds)

theorem names_eq_of_entries (pairs : List.Forall₂ (Entry related) fields kept) :
    names fields = names kept := by
  induction pairs with
  | nil => rfl
  | cons first rest ih =>
    cases first
    exact congrArg _ ih

theorem nodup_of_reordered (apart : (names fields).Nodup)
    (pairs : List.Forall₂ (Entry related) fields kept) (perm : kept.Perm other) :
    (names other).Nodup := by
  rw [names_eq_of_entries pairs] at apart
  exact (perm.map Prod.fst).nodup_iff.mp apart

theorem exists_of_lookup_entries (pairs : List.Forall₂ (Entry related) fields kept) {name : String}
    {value : α} (found : fields.lookup name = some value) :
    ∃ value', kept.lookup name = some value' ∧ related value value' := by
  induction pairs with
  | nil => cases found
  | cons first rest ih =>
    cases first with
    | mk holds =>
      rw [List.lookup_cons] at found ⊢
      split at found
      · cases found
        exact ⟨_, rfl, holds⟩
      · exact ih found

/-- A table and the same in another order with related values match. -/
theorem match_of_reordered (apart : (names fields).Nodup)
    (pairs : List.Forall₂ (Entry related) fields kept) (perm : kept.Perm other) :
    Match related fields other := by
  have names_eq := names_eq_of_entries pairs
  have apartKept : (names kept).Nodup := names_eq ▸ apart
  constructor
  · intro name
    rw [names_eq]
    exact (perm.map Prod.fst).mem_iff
  · intro name value value' found found'
    obtain ⟨middle, given, holds⟩ := exists_of_lookup_entries pairs found
    rw [lookup_perm apartKept perm, found'] at given
    cases given
    exact holds

/-- The other order is reached from either side. -/
theorem reordered_flip {back : β → α → Prop}
    (pairs : List.Forall₂ (Entry related) fields kept) (perm : kept.Perm other)
    (turn : ∀ f ∈ fields, ∀ b, related f.2 b → back b f.2) :
    ∃ kept', List.Forall₂ (Entry back) other kept' ∧ kept'.Perm fields := by
  have turned : List.Forall₂ (Entry back) kept fields := by
    apply forall₂_flip pairs
    intro field member entry here
    exact here.flip (turn field member entry.2)
  exact List.perm_comp_forall₂ perm.symm turned

end Fields

end Related

/-! ## The relation is reflexive and symmetric -/

theorem Node.Reordered.refl {types : Bool} (node : Node) : node.Reordered types node := by
  induction node with
  | bind name value ih => exact .bind ih
  | assign target value targetIH valueIH => exact .assign targetIH valueIH
  | ret value ih =>
    cases value with
    | none => exact .ret .none
    | some value => exact .ret (.some (ih value rfl))
  | branch condition body otherwise conditionIH bodyIH otherwiseIH =>
    refine .branch conditionIH (List.forall₂_same.mpr bodyIH) ?_
    cases otherwise with
    | none => exact .none
    | some other => exact .some (List.forall₂_same.mpr (otherwiseIH other rfl))
  | loop condition body conditionIH bodyIH => exact .loop conditionIH (List.forall₂_same.mpr bodyIH)
  | ident name => exact .ident name
  | literal descriptor payload parameters body descriptorIH nodeIH fieldsIH bodyIH =>
    refine .literal descriptorIH ?_ (List.forall₂_same.mpr bodyIH)
    cases payload with
    | none => exact .none
    | some payload =>
      apply Option.Rel.some
      cases payload with
      | bool b => exact .bool b
      | int n => exact .int n
      | float x => exact .float x
      | str text => exact .str text
      | node inner => exact .node (nodeIH inner rfl)
      | fields fields =>
        exact .fields (List.forall₂_same.mpr fun f member => .mk (fieldsIH f member)) (.refl fields)
  | new target ih => exact .new ih
  | binary op left right leftIH rightIH => exact .binary leftIH rightIH
  | unary op operand ih => exact .unary ih
  | call callee arguments calleeIH argumentsIH =>
    exact .call calleeIH (List.forall₂_same.mpr argumentsIH)
  | member object property ih => exact .member ih
  | element object index objectIH indexIH => exact .element objectIH indexIH
  | type tag name parameters returns fields parametersIH returnsIH fieldsIH =>
    refine .type (List.forall₂_same.mpr parametersIH) ?_
      (List.forall₂_same.mpr fun f member => .mk (fieldsIH f member)) (.refl fields) fun _ => rfl
    cases returns with
    | none => exact .none
    | some result => exact .some (returnsIH result rfl)
  | unknown kind => exact .unknown kind

theorem Node.Reordered.symm {types : Bool} {node node' : Node}
    (reordered : node.Reordered types node') : node'.Reordered types node := by
  induction node generalizing node' with
  | bind name value ih =>
    cases reordered with
    | bind inner => exact .bind (ih inner)
  | assign target value targetIH valueIH =>
    cases reordered with
    | assign first second => exact .assign (targetIH first) (valueIH second)
  | ret value ih =>
    cases reordered with
    | ret inner =>
      cases inner with
      | none => exact .ret .none
      | some inner => exact .ret (.some (ih _ rfl inner))
  | branch condition body otherwise conditionIH bodyIH otherwiseIH =>
    cases reordered with
    | branch tested inside other =>
      have back := forall₂_flip inside fun n member _ => bodyIH n member
      cases other with
      | none => exact .branch (conditionIH tested) back .none
      | some other =>
        have backOther := forall₂_flip other fun n member _ => otherwiseIH _ rfl n member
        exact .branch (conditionIH tested) back (.some backOther)
  | loop condition body conditionIH bodyIH =>
    cases reordered with
    | loop tested inside =>
      exact .loop (conditionIH tested) (forall₂_flip inside fun n member _ => bodyIH n member)
  | ident name =>
    cases reordered with
    | ident => exact .ident name
  | literal descriptor payload parameters body descriptorIH nodeIH fieldsIH bodyIH =>
    cases reordered with
    | literal described filled inside =>
      have back := forall₂_flip inside fun n member _ => bodyIH n member
      refine .literal (descriptorIH described) ?_ back
      cases filled with
      | none => exact .none
      | some filled =>
        apply Option.Rel.some
        cases filled with
        | bool b => exact .bool b
        | int n => exact .int n
        | float x => exact .float x
        | str text => exact .str text
        | node inner => exact .node (nodeIH _ rfl inner)
        | fields pairs perm =>
          obtain ⟨kept', pairs', perm'⟩ :=
            Fields.reordered_flip pairs perm fun f member _ => fieldsIH f member
          exact .fields pairs' perm'
  | new target ih =>
    cases reordered with
    | new inner => exact .new (ih inner)
  | binary op left right leftIH rightIH =>
    cases reordered with
    | binary first second => exact .binary (leftIH first) (rightIH second)
  | unary op operand ih =>
    cases reordered with
    | unary inner => exact .unary (ih inner)
  | call callee arguments calleeIH argumentsIH =>
    cases reordered with
    | call called given =>
      exact .call (calleeIH called) (forall₂_flip given fun n member _ => argumentsIH n member)
  | member object property ih =>
    cases reordered with
    | member inner => exact .member (ih inner)
  | element object index objectIH indexIH =>
    cases reordered with
    | element first second => exact .element (objectIH first) (indexIH second)
  | type tag name parameters returns fields parametersIH returnsIH fieldsIH =>
    cases reordered with
    | @type _ _ _ _ _ returns' _ kept fields' inside result pairs perm order =>
      have back := forall₂_flip inside fun n member _ => parametersIH n member
      have resultBack : Option.Rel (Node.Reordered types) returns' returns := by
        cases result with
        | none => exact .none
        | some result => exact .some (returnsIH _ rfl result)
      cases types with
      | false =>
        obtain rfl := order rfl
        have pairs' := forall₂_flip pairs fun f member _ here => here.flip (fieldsIH f member)
        exact .type back resultBack pairs' (.refl _) fun _ => rfl
      | true =>
        obtain ⟨kept', pairs', perm'⟩ :=
          Fields.reordered_flip pairs perm fun f member _ => fieldsIH f member
        exact .type back resultBack pairs' perm' nofun
  | unknown kind =>
    cases reordered with
    | unknown => exact .unknown kind

/-! ## Distinct names -/

theorem distinct_of_forall₂ {types : Bool} {nodes others : List Node}
    (pairs : List.Forall₂ (Node.Reordered types) nodes others)
    (parts : ∀ n ∈ nodes, ∀ other, n.Reordered types other → other.Distinct) :
    ∀ other ∈ others, other.Distinct := by
  intro other member
  obtain ⟨node, inside, here⟩ := exists_of_mem_forall₂ pairs other member
  exact parts node inside other here

theorem distinct_of_reordered {types : Bool} {fields kept fields' : List (String × Node)}
    (pairs : List.Forall₂ (Fields.Entry (Node.Reordered types)) fields kept)
    (perm : kept.Perm fields')
    (parts : ∀ f ∈ fields, ∀ other, f.2.Reordered types other → other.Distinct) :
    ∀ f ∈ fields', f.2.Distinct := by
  intro field member
  obtain ⟨origin, inside, here⟩ := exists_of_mem_forall₂ pairs field (perm.mem_iff.mpr member)
  cases here with
  | mk holds => exact parts _ inside _ holds

/-- A node whose tables have no name twice is related to such nodes only. -/
theorem Node.Reordered.distinct {types : Bool} {node node' : Node}
    (reordered : node.Reordered types node') (distinct : node.Distinct) : node'.Distinct := by
  induction node generalizing node' with
  | bind name value ih =>
    cases reordered with
    | bind inner =>
      cases distinct with
      | bind apart => exact .bind (ih inner apart)
  | assign target value targetIH valueIH =>
    cases reordered with
    | assign first second =>
      cases distinct with
      | assign apart apart' => exact .assign (targetIH first apart) (valueIH second apart')
  | ret value ih =>
    cases reordered with
    | ret inner =>
      cases distinct with
      | ret apart =>
        apply Node.Distinct.ret
        intro v member
        cases member
        cases inner with
        | some inner => exact ih _ rfl inner (apart _ rfl)
  | branch condition body otherwise conditionIH bodyIH otherwiseIH =>
    cases reordered with
    | branch tested inside other =>
      cases distinct with
      | branch apart apartBody apartOther =>
        refine .branch (conditionIH tested apart) ?_ ?_
        · exact distinct_of_forall₂ inside fun n member _ here =>
            bodyIH n member here (apartBody n member)
        · intro nodes member
          cases member
          cases other with
          | some other =>
            exact distinct_of_forall₂ other fun n member _ here =>
              otherwiseIH _ rfl n member here (apartOther _ rfl n member)
  | loop condition body conditionIH bodyIH =>
    cases reordered with
    | loop tested inside =>
      cases distinct with
      | loop apart apartBody =>
        refine .loop (conditionIH tested apart) ?_
        exact distinct_of_forall₂ inside fun n member _ here =>
          bodyIH n member here (apartBody n member)
  | ident name =>
    cases reordered with
    | ident => exact .ident name
  | literal descriptor payload parameters body descriptorIH nodeIH fieldsIH bodyIH =>
    cases reordered with
    | literal described filled inside =>
      cases distinct with
      | literal apart apartNode apartNames apartFields apartBody =>
        have apartBody' := distinct_of_forall₂ inside fun n member _ here =>
          bodyIH n member here (apartBody n member)
        have apart' := descriptorIH described apart
        cases filled with
        | none => exact .literal apart' nofun .nil nofun apartBody'
        | some filled =>
          cases filled with
          | node inner =>
            refine .literal apart' ?_ .nil nofun apartBody'
            intro node same
            cases same
            exact nodeIH _ rfl inner (apartNode _ rfl)
          | fields pairs perm =>
            have names := Fields.nodup_of_reordered apartNames pairs perm
            refine .literal apart' nofun names ?_ apartBody'
            exact distinct_of_reordered pairs perm fun f member _ here =>
              fieldsIH f member here (apartFields f member)
          | _ => exact .literal apart' nofun .nil nofun apartBody'
  | new target ih =>
    cases reordered with
    | new inner =>
      cases distinct with
      | new apart => exact .new (ih inner apart)
  | binary op left right leftIH rightIH =>
    cases reordered with
    | binary first second =>
      cases distinct with
      | binary apart apart' => exact .binary (leftIH first apart) (rightIH second apart')
  | unary op operand ih =>
    cases reordered with
    | unary inner =>
      cases distinct with
      | unary apart => exact .unary (ih inner apart)
  | call callee arguments calleeIH argumentsIH =>
    cases reordered with
    | call called given =>
      cases distinct with
      | call apart apartGiven =>
        refine .call (calleeIH called apart) ?_
        exact distinct_of_forall₂ given fun n member _ here =>
          argumentsIH n member here (apartGiven n member)
  | member object property ih =>
    cases reordered with
    | member inner =>
      cases distinct with
      | member apart => exact .member (ih inner apart)
  | element object index objectIH indexIH =>
    cases reordered with
    | element first second =>
      cases distinct with
      | element apart apart' => exact .element (objectIH first apart) (indexIH second apart')
  | type tag name parameters returns fields parametersIH returnsIH fieldsIH =>
    cases reordered with
    | type inside result pairs perm order =>
      cases distinct with
      | type apart apartResult apartNames apartFields =>
        refine .type ?_ ?_ (Fields.nodup_of_reordered apartNames pairs perm) ?_
        · exact distinct_of_forall₂ inside fun n member _ here =>
            parametersIH n member here (apart n member)
        · intro r member
          cases member
          cases result with
          | some result => exact returnsIH _ rfl result (apartResult _ rfl)
        · exact distinct_of_reordered pairs perm fun f member _ here =>
            fieldsIH f member here (apartFields f member)
  | unknown kind =>
    cases reordered with
    | unknown => exact .unknown kind

/-! ## Programs -/

namespace Program

/-- The programs differ in the order of fields only: of those of object literals, and where `types`
says so, of those of type descriptors. -/
def Reordered (types : Bool) : Program → Program → Prop :=
  List.Forall₂ (Node.Reordered types)

/-- No table in the program has a name twice. -/
def Distinct (program : Program) : Prop :=
  ∀ node ∈ program, node.Distinct

namespace Reordered

variable {types : Bool} {program other : Program}

theorem symm (reordered : program.Reordered types other) : other.Reordered types program :=
  forall₂_flip reordered fun _ _ _ here => here.symm

theorem distinct (reordered : program.Reordered types other) (distinct : program.Distinct) :
    other.Distinct :=
  distinct_of_forall₂ reordered fun n member _ here => here.distinct (distinct n member)

end Reordered

end Program

end Arbor
