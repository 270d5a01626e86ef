import Arbor.Proofs.Descriptors
import Arbor.Proofs.Typing

/-!
# Alike types and frames

Programs that differ in the order of fields derive types that are not the same but structurally
equal. Such types are alike, and so are frames that declare the same names, in one order, with
types alike. Being alike is kept by all that is done with types: they are compared, taken apart,
looked up by name and lowered from descriptors.
-/

namespace Arbor

/-! ## Types -/

/-- The types are structurally equal and declare no field twice. -/
structure Ty.Alike (type other : Ty) : Prop where
  distinct : type.Distinct
  equiv : type.equiv other

namespace Ty.Alike

variable {type other third : Ty} {parameters parameters' : List Ty} {returns returns' : Ty}
  {fields fields' : List (String × Ty)}

theorem symm (alike : type.Alike other) : other.Alike type :=
  ⟨alike.distinct.of_equiv alike.equiv, alike.distinct.equiv_symm alike.equiv⟩

theorem trans (alike : type.Alike other) (next : other.Alike third) : type.Alike third :=
  ⟨alike.distinct, alike.distinct.equiv_trans alike.equiv next.equiv⟩

/-- Comparing types does not tell alike ones apart. -/
theorem equiv_of_equiv {type' other' : Ty} (left : type.Alike type') (right : other.Alike other')
    (same : type.equiv other) : type'.equiv other' := by
  have between : type.Alike other := ⟨left.distinct, same⟩
  exact ((left.symm.trans between).trans right).equiv

theorem prim (p : Primitive) : (Ty.prim p).Alike (.prim p) :=
  ⟨.prim p, Ty.prim_equiv_iff.mpr rfl⟩

theorem prim_eq {p : Primitive} (alike : (Ty.prim p).Alike other) : other = .prim p :=
  Ty.prim_equiv_iff.mp alike.equiv

theorem fn (pairs : List.Forall₂ Ty.Alike parameters parameters')
    (results : returns.Alike returns') : (Ty.fn parameters returns).Alike (.fn parameters' returns') := by
  have distinct : ∀ t ∈ parameters, t.Distinct := by
    intro t member
    obtain ⟨u, -, alike⟩ := exists_of_mem_forall₂ pairs.flip t member
    exact alike.distinct
  have equal := pairs.imp fun _ _ alike => alike.equiv
  exact ⟨.fn distinct results.distinct, Ty.fn_equiv_iff.mpr ⟨equal, results.equiv⟩⟩

theorem fn_inv (alike : (Ty.fn parameters returns).Alike other) :
    ∃ parameters' returns', other = .fn parameters' returns' ∧
      List.Forall₂ Ty.Alike parameters parameters' ∧ returns.Alike returns' := by
  obtain ⟨distinct, same⟩ := alike
  cases other with
  | fn parameters' returns' =>
    cases distinct with
    | fn inner result =>
      obtain ⟨pairs, results⟩ := Ty.fn_equiv_iff.mp same
      refine ⟨parameters', returns', rfl, ?_, result, results⟩
      exact forall₂_refine pairs fun t member _ equal => ⟨inner t member, equal⟩
  | _ => cases same

theorem obj (apart : (Fields.names fields).Nodup) (apart' : (Fields.names fields').Nodup)
    (matched : Fields.Match Ty.Alike fields fields') : (Ty.obj fields).Alike (.obj fields') := by
  constructor
  · refine .obj apart ?_
    intro field declared
    obtain ⟨_, -, alike⟩ := matched.exists_value (Fields.lookup_of_mem apart declared)
    exact alike.distinct
  · rw [Ty.obj_equiv_iff apart]
    exact ⟨apart', matched.mem_names, fun found found' => (matched.values found found').equiv⟩

theorem obj_inv (alike : (Ty.obj fields).Alike other) :
    ∃ fields', other = .obj fields' ∧ (Fields.names fields').Nodup ∧
      Fields.Match Ty.Alike fields fields' := by
  obtain ⟨distinct, same⟩ := alike
  cases other with
  | obj fields' =>
    cases distinct with
    | obj apart inner =>
      obtain ⟨apart', matched⟩ := (Ty.obj_equiv_iff apart).mp same
      refine ⟨fields', rfl, apart', matched.mem_names, ?_⟩
      intro name t u found found'
      exact ⟨inner _ (Fields.mem_of_lookup found), matched.values found found'⟩
  | _ => cases same

end Ty.Alike

/-! ## Operators -/

theorem BinaryOp.Takes.alike {op : BinaryOp} {type type' result : Ty} (takes : op.Takes type result)
    (alike : type.Alike type') : ∃ result', op.Takes type' result' ∧ result.Alike result' := by
  cases takes with
  | arithmetic known numeric =>
    rw [alike.prim_eq]
    exact ⟨_, .arithmetic known numeric, .prim _⟩
  | concatenation =>
    rw [alike.prim_eq]
    exact ⟨_, .concatenation, .prim _⟩
  | equality known => exact ⟨_, .equality known, .prim _⟩
  | comparison known numeric =>
    rw [alike.prim_eq]
    exact ⟨_, .comparison known numeric, .prim _⟩
  | logic known =>
    rw [alike.prim_eq]
    exact ⟨_, .logic known, .prim _⟩

theorem UnaryOp.Takes.alike {op : UnaryOp} {type type' : Ty} (takes : op.Takes type)
    (alike : type.Alike type') : op.Takes type' := by
  cases takes with
  | negation numeric =>
    rw [alike.prim_eq]
    exact .negation numeric
  | complement =>
    rw [alike.prim_eq]
    exact .complement

/-! ## Frames -/

/-- The frames declare the same names in one order, with types alike. -/
structure Frame.Alike (frame other : Frame) : Prop where
  symbols : List.Forall₂ (Fields.Entry Ty.Alike) frame.symbols other.symbols
  isFunction : frame.isFunction = other.isFunction

/-- The frames are alike one by one. -/
def Frames.Alike : Frames → Frames → Prop :=
  List.Forall₂ Frame.Alike

namespace Frames.Alike

variable {frames frames' : Frames}

theorem symbols (alike : frames.Alike frames') :
    List.Forall₂ (Fields.Entry Ty.Alike) frames.symbols frames'.symbols := by
  cases alike with
  | nil => exact .nil
  | cons first _ => exact first.symbols

theorem nearest (alike : frames.Alike frames') {name : String} {type : Ty}
    (nearest : frames.Nearest name type) :
    ∃ type', frames'.Nearest name type' ∧ type.Alike type' := by
  induction nearest generalizing frames' with
  | here found =>
    cases alike with
    | cons first _ =>
      obtain ⟨type', found', alike⟩ := Fields.exists_of_lookup_entries first.symbols found
      exact ⟨type', .here found', alike⟩
  | outward absent _ ih =>
    cases alike with
    | cons first rest =>
      obtain ⟨type', nearest', alike⟩ := ih rest
      rw [Fields.names_eq_of_entries first.symbols] at absent
      exact ⟨type', .outward absent nearest', alike⟩

theorem exists_function (alike : frames.Alike frames')
    (inside : ∃ frame ∈ frames, frame.isFunction) : ∃ frame ∈ frames', frame.isFunction := by
  obtain ⟨frame, member, function⟩ := inside
  obtain ⟨other, member', here⟩ := exists_of_mem_forall₂ alike.flip frame member
  exact ⟨other, member', here.isFunction ▸ function⟩

theorem no_function (alike : frames.Alike frames')
    (outside : ∀ frame ∈ frames, ¬frame.isFunction) : ∀ frame ∈ frames', ¬frame.isFunction := by
  intro frame member function
  obtain ⟨other, member', here⟩ := exists_of_mem_forall₂ alike frame member
  rw [← here.isFunction] at function
  exact outside other member' function

theorem extend (alike : frames.Alike frames') {name : String} {type type' : Ty}
    (here : type.Alike type') :
    (frames.extend [(name, type)]).Alike (frames'.extend [(name, type')]) := by
  cases alike with
  | nil => exact .nil
  | cons first rest =>
    refine .cons ⟨?_, first.isFunction⟩ rest
    exact List.rel_append first.symbols (.cons (.mk here) .nil)

/-- One frame more, without names. -/
theorem block (alike : frames.Alike frames') :
    Frames.Alike (⟨[], false⟩ :: frames) (⟨[], false⟩ :: frames') :=
  .cons ⟨.nil, rfl⟩ alike

/-- One frame more, with the parameters of a function. -/
theorem function (alike : frames.Alike frames') {types types' : List Ty}
    (pairs : List.Forall₂ Ty.Alike types types') (parameters : List String) :
    Frames.Alike (⟨parameters.zip types, true⟩ :: frames)
      (⟨parameters.zip types', true⟩ :: frames') := by
  refine .cons ⟨?_, rfl⟩ alike
  induction pairs generalizing parameters with
  | nil => simp
  | cons first rest ih =>
    cases parameters with
    | nil => exact .nil
    | cons name names => exact .cons (.mk first) (ih names)

end Frames.Alike

/-! ## Descriptors -/

/-- Whatever type the one node describes, the other describes a type alike. -/
def Node.Lowers (node node' : Node) : Prop :=
  ∀ {type : Ty}, node.lower = .ok type → ∃ type', node'.lower = .ok type' ∧ type.Alike type'

theorem lowerAll_alike {nodes nodes' : List Node} (parts : List.Forall₂ Node.Lowers nodes nodes')
    {types : List Ty} (lowered : Node.lowerAll nodes = .ok types) :
    ∃ types', Node.lowerAll nodes' = .ok types' ∧ List.Forall₂ Ty.Alike types types' := by
  simp only [Node.lowerAll_iff] at lowered ⊢
  induction parts generalizing types with
  | nil =>
    cases lowered
    exact ⟨[], .nil, .nil⟩
  | cons first rest ih =>
    cases lowered with
    | cons here others =>
      obtain ⟨type', here', alike⟩ := first here
      obtain ⟨types', others', pairs⟩ := ih others
      exact ⟨type' :: types', .cons here' others', .cons alike pairs⟩

theorem lowerFields_alike {fields kept : List (String × Node)}
    (parts : List.Forall₂ (Fields.Entry Node.Lowers) fields kept) {types : List (String × Ty)}
    (lowered : Node.lowerFields fields = .ok types) :
    ∃ types', Node.lowerFields kept = .ok types' ∧
      List.Forall₂ (Fields.Entry Ty.Alike) types types' := by
  simp only [Node.lowerFields_iff] at lowered ⊢
  induction parts generalizing types with
  | nil =>
    cases lowered
    exact ⟨[], .nil, .nil⟩
  | cons first rest ih =>
    cases lowered with
    | cons here others =>
      obtain ⟨types', others', pairs⟩ := ih others
      cases first with
      | mk lowers =>
        cases here with
        | mk here =>
          obtain ⟨type', here', alike⟩ := lowers here
          exact ⟨_, .cons (.mk here') others', .cons (.mk alike) pairs⟩

/-- Fields are lowered in the order in which they stand. -/
theorem lowerFields_perm {fields fields' : List (String × Node)} (perm : fields.Perm fields')
    {types : List (String × Ty)} (lowered : Node.lowerFields fields = .ok types) :
    ∃ types', Node.lowerFields fields' = .ok types' ∧ types.Perm types' := by
  simp only [Node.lowerFields_iff] at lowered ⊢
  obtain ⟨types', others, perm'⟩ := List.perm_comp_forall₂ perm.symm lowered
  exact ⟨types', others, perm'.symm⟩

theorem Node.Reordered.lowers {types : Bool} {node node' : Node}
    (reordered : node.Reordered types node') (distinct : node.Distinct) : node.Lowers node' := by
  induction node generalizing node' with
  | type tag name parameters returns fields parametersIH returnsIH fieldsIH =>
    intro type lowered
    cases reordered with
    | type inside result pairs perm _ =>
      cases distinct with
      | type apart apartResult apartNames apartFields =>
        rcases Node.lower_eq_ok lowered with ⟨p, _, _, _, same, rfl⟩ |
          ⟨_, _, _, types, described, same, first, second, rfl⟩ | ⟨_, _, _, types, same, first, rfl⟩
        · cases same
          exact ⟨_, rfl, .prim p⟩
        · cases same
          cases result with
          | some result =>
            have parts : List.Forall₂ Node.Lowers _ _ := forall₂_refine inside
              fun n member _ here => parametersIH n member here (apart n member)
            obtain ⟨types', first', alike⟩ := lowerAll_alike parts first
            obtain ⟨described', second', alike'⟩ :=
              returnsIH _ rfl result (apartResult _ rfl) second
            exact ⟨.fn types' described', Node.lower_fn first' second', .fn alike alike'⟩
        · cases same
          have parts : List.Forall₂ (Fields.Entry Node.Lowers) _ _ := Fields.entries_refine pairs
            fun f member _ here => fieldsIH f member here (apartFields f member)
          obtain ⟨kept, first', alike⟩ := lowerFields_alike parts first
          obtain ⟨types', second', perm'⟩ := lowerFields_perm perm first'
          have apartTypes : (Fields.names types).Nodup := by
            rwa [← Fields.names_eq_of_entries (Node.lowerFields_iff.mp first)]
          refine ⟨.obj types', Node.lower_obj second', .obj apartTypes ?_ ?_⟩
          · exact Fields.nodup_of_reordered apartTypes alike perm'
          · exact Fields.match_of_reordered apartTypes alike perm'
  | _ =>
    intro type lowered
    cases lowered

end Arbor
