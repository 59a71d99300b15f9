-- SUMMARY: Text with colour marks, its two renderings, with terminal escape sequences and plain, and which output has which.

/-! # Styled text

Colour only wraps text: without the marks the text is the same.
-/

namespace DocLint

/-- The colours in use. -/
inductive Colour where
  | red
  | green
  | yellow
  deriving DecidableEq, Repr

/-- The number of a colour in an escape sequence. -/
def Colour.code : Colour → String
  | .red => "31"
  | .green => "32"
  | .yellow => "33"

/-- A piece of styled text. -/
inductive Piece where
  | text (s : String)
  /-- From here on in the given colour. -/
  | start (colour : Colour) (bold : Bool)
  /-- From here on without colour. -/
  | reset
  deriving DecidableEq, Repr

namespace Piece

/-- The sequence that sets a property of the text that follows. -/
def escape (code : String) : String :=
  "\x1b[" ++ code ++ "m"

/-- How a piece is written; without colour the marks are nothing. A colour is set on top
    of a reset. -/
def render (coloured : Bool) : Piece → String
  | .text s => s
  | .start colour bold =>
    if coloured then
      escape "0" ++ (if bold then escape "1" else "") ++ escape colour.code
    else ""
  | .reset => if coloured then escape "0" else ""

@[simp] theorem render_text (coloured : Bool) (s : String) :
    (Piece.text s).render coloured = s := rfl

end Piece

/-- Whether there is colour, for each of the two outputs of a run. -/
structure Colouring where
  out : Bool
  err : Bool
  deriving DecidableEq, Repr

def Colouring.plain : Colouring := ⟨false, false⟩

end DocLint
