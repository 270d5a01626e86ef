import Arbor.CompileError

/-!
# Scopes

All scopes that a compilation opens are kept in one tree and none is ever taken out. A scope is
known by the number of scopes that are older, so a parent always has a smaller number than its
children. Looking a name up walks from a scope to the root; the nearest declaration counts.
-/

namespace Arbor

/-- What a scope is the scope of. -/
inductive ScopeKind where
  | root
  /-- The body of a branch or a loop. -/
  | block
  /-- The body of a function literal. -/
  | function
deriving DecidableEq

/-- A scope: the names it declares, in order, and the scope around it. -/
structure Scope where
  symbols : List (String × Ty)
  parent : Option Nat
  kind : ScopeKind

/-- The scope with a name declared behind the others. -/
def Scope.declare (scope : Scope) (name : String) (type : Ty) : Scope :=
  { scope with symbols := scope.symbols ++ [(name, type)] }

/-- The scopes of a compilation, in the order in which they were opened. -/
structure ScopeTree where
  scopes : Array Scope

namespace ScopeTree

/-- The tree of the root alone. -/
def empty : ScopeTree :=
  ⟨#[⟨[], none, .root⟩]⟩

/-- The number of the root. -/
def root : Nat := 0

/-- The number that the next scope will have. -/
def next (tree : ScopeTree) : Nat :=
  tree.scopes.size

/-- The names a scope declares, in order. -/
def symbols (tree : ScopeTree) (id : Nat) : List (String × Ty) :=
  match tree.scopes[id]? with
  | some scope => scope.symbols
  | none => []

/-- The scope is the body of a function. -/
def isFunction (tree : ScopeTree) (id : Nat) : Bool :=
  match tree.scopes[id]? with
  | some scope => scope.kind == .function
  | none => false

/-- The numbers of a scope and of those around it, from the inside out, and at most `bound` of
them. The numbers decrease. -/
def outward (tree : ScopeTree) : Nat → Nat → List Nat
  | 0, _ => []
  | bound + 1, id =>
    match tree.scopes[id]? with
    | none => []
    | some scope =>
      id :: match scope.parent with
        | some parent => if parent < id then tree.outward bound parent else []
        | none => []

/-- The numbers of a scope and of those around it, from the inside out. -/
def ancestors (tree : ScopeTree) (id : Nat) : List Nat :=
  tree.outward (id + 1) id

/-- The tree with a new scope inside `parent`. Its number is the tree's `next`. -/
def push (tree : ScopeTree) (parent : Nat) (kind : ScopeKind) : ScopeTree :=
  ⟨tree.scopes.push ⟨[], some parent, kind⟩⟩

/-- The tree with a name declared in a scope. A name may hide one from further out, but not be
declared twice in one scope. -/
def declare (tree : ScopeTree) (id : Nat) (name : String) (type : Ty) :
    Except CompileError ScopeTree :=
  if (tree.symbols id).any fun entry => entry.1 == name then
    .error (.duplicateDeclaration name)
  else
    .ok ⟨tree.scopes.modify id fun scope => scope.declare name type⟩

/-- The type of a name seen from a scope. -/
def lookup? (tree : ScopeTree) (id : Nat) (name : String) : Option Ty :=
  (tree.ancestors id).findSome? fun scope => (tree.symbols scope).lookup name

/-- The name is declared in the scope or around it. -/
def has (tree : ScopeTree) (id : Nat) (name : String) : Bool :=
  (tree.lookup? id name).isSome

/-- The type of a name seen from a scope, which must be declared. -/
def get (tree : ScopeTree) (id : Nat) (name : String) : Except CompileError Ty :=
  match tree.lookup? id name with
  | some type => .ok type
  | none => .error (.undefinedSymbol name)

/-- The scope is the body of a function or lies inside one. -/
def inFunction (tree : ScopeTree) (id : Nat) : Bool :=
  (tree.ancestors id).any tree.isFunction

/-- Opening a scope changes nothing about the scopes before it. -/
theorem outward_push_old (tree : ScopeTree) (parent : Nat) (kind : ScopeKind) (bound : Nat)
    {id : Nat} (h : id < tree.next) :
    (tree.push parent kind).outward bound id = tree.outward bound id := by
  induction bound generalizing id with
  | zero => rfl
  | succ bound ih =>
    have same : (tree.push parent kind).scopes[id]? = tree.scopes[id]? := by
      have hne : id ≠ tree.scopes.size := Nat.ne_of_lt h
      simp [push, Array.getElem?_push, hne]
    simp only [outward, same]
    cases tree.scopes[id]? with
    | none => rfl
    | some scope =>
      cases hp : scope.parent with
      | none => simp [hp]
      | some around =>
        by_cases hlt : around < id
        · simp [hp, hlt, ih (Nat.lt_trans hlt h)]
        · simp [hp, hlt]

@[simp] theorem ancestors_push_old (tree : ScopeTree) (parent : Nat) (kind : ScopeKind) {id : Nat}
    (h : id < tree.next) : (tree.push parent kind).ancestors id = tree.ancestors id :=
  outward_push_old tree parent kind (id + 1) h

end ScopeTree

end Arbor
