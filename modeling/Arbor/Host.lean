import Arbor.Text.Quoted

/-!
# The host

What emitted programs take for granted about the language they are written in and about the
runtime they load.
-/

namespace Arbor.Host

/-- The name the runtime is bound to. -/
def runtimeName : String := "KYTHERA"

/-- Where the runtime is loaded from unless a run says otherwise. -/
def defaultRuntime : String := "./compiler/runtime"

/-- The statement that binds the runtime, loaded from `path`. -/
def bindRuntime (path : String) : String :=
  "const " ++ runtimeName ++ " = require(" ++ Text.quote path ++ ");\n"

/-- A value of the host: its payload and its type. -/
def value (payload type : String) : String :=
  "new " ++ runtimeName ++ ".value(" ++ payload ++ ", " ++ type ++ ")"

/-- The words that cannot name a binding. -/
def reservedWords : List String :=
  ["await", "break", "case", "catch", "class", "const", "continue", "debugger", "default",
   "delete", "do", "else", "enum", "export", "extends", "false", "finally", "for", "function",
   "if", "implements", "import", "in", "instanceof", "interface", "let", "new", "null",
   "package", "private", "protected", "public", "return", "static", "super", "switch", "this",
   "throw", "true", "try", "typeof", "var", "void", "while", "with", "yield", runtimeName]

/-- The character may begin a name. Names are made of ASCII characters only. -/
def isNameStart (c : Char) : Bool :=
  c.isAlpha || c == '_' || c == '$'

/-- The character may follow in a name. -/
def isNamePart (c : Char) : Bool :=
  c.isAlphanum || c == '_' || c == '$'

/-- `name` can be written as it is where the host wants the name of a binding. -/
def isBindable (name : String) : Bool :=
  match name.toList with
  | [] => false
  | first :: rest => isNameStart first && rest.all isNamePart && !reservedWords.contains name

end Arbor.Host
