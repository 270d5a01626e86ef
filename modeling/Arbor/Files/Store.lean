import Arbor.Files.Error

/-!
# File stores

What a program needs of the place where its files are, in any monad.
-/

namespace Arbor

/-- A place with files. -/
structure FileStore (m : Type → Type) where
  /-- The content of a file. -/
  read : String → m (Except FileError ByteArray)
  /-- Makes a directory and those around it, unless they are there. -/
  createDirectories : String → m (Except FileError Unit)
  /-- Makes a file with this content, or replaces its content. -/
  write : String → String → m (Except FileError Unit)

/-- Bytes as a text. -/
def decodeText (content : ByteArray) : Except FileError String :=
  match String.fromUTF8? content with
  | some text => .ok text
  | none => .error .notText

namespace FileStore

variable {m : Type → Type} [Monad m]

/-- The content of a file that holds a text. -/
def readText (store : FileStore m) (path : String) : m (Except FileError String) := do
  match ← store.read path with
  | .ok content => return decodeText content
  | .error error => return .error error

end FileStore

end Arbor
