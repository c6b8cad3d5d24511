import Letterpress.Compile.Document

/-!
# Inputs

A document that is no file is given as a text, as the bytes of one, or as a stream of either that is
read to its end.
-/

namespace Letterpress.Compile

/-- What a document is given as. -/
inductive Input where
  | text (markup : String)
  | bytes (data : ByteArray)

/-- The text that is given, unless it is bytes that are no text. -/
def Input.text? : Input → Option String
  | .text markup => some markup
  | .bytes data => String.fromUTF8? data

/-- Compiles what is given. References are seen from the directory `base`. -/
def compileInput (files : Files) (options : Options) (base : FilePath) (input : Input) :
    Tracked Compilation :=
  compileMarkup files options base input.text?

/-- A stream: what it holds, and how many characters or bytes of it were read. -/
structure Stream where
  content : Input
  position : Nat := 0

/-- What is left of a stream. -/
def Stream.rest (s : Stream) : Input :=
  match s.content with
  | .text markup => .text (String.ofList (markup.toList.drop s.position))
  | .bytes data => .bytes (data.extract s.position data.size)

/-- Compiles what is left of a stream. -/
def compileStream (files : Files) (options : Options) (base : FilePath) (s : Stream) :
    Tracked Compilation :=
  compileInput files options base s.rest

end Letterpress.Compile
