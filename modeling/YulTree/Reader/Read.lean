import YulTree.Code.Payload
import YulTree.Reader.Step

/-!
# Reading trees

A source is read lexeme by lexeme from the starting state.  Code bodies are kept as blocks of
text, marked with a dialect if one is given.
-/

namespace YulTree

namespace Reader

variable {κ : Type}

def run (reader : Reader κ) (state : State κ) (lexemes : List Lexeme) :
    Except ReadError (State κ) :=
  lexemes.foldlM reader.step state

/-- The object that a source describes. -/
def read (reader : Reader κ) (source : Text) : Except ReadError (Object κ) :=
  (reader.run (.start none) (Lexeme.all source)).bind (finish source.byteSize)

/-- The depth of nested objects that is allowed unless something else is asked for. -/
def standardLimit : Nat := 256

end Reader

structure ReadOptions where
  dialect : Option Dialect
  limit : Nat
  deriving DecidableEq, Repr

namespace ReadOptions

def standard : ReadOptions := ⟨none, Reader.standardLimit⟩

instance : Inhabited ReadOptions := ⟨standard⟩

def reader (options : ReadOptions) : Reader Payload :=
  ⟨options.limit, Payload.ofBody options.dialect⟩

end ReadOptions

def Object.read (options : ReadOptions) (source : Text) : Except ReadError (Object Payload) :=
  options.reader.read source

end YulTree
