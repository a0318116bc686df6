
namespace ScriptLint
namespace Command

/-- Colours by the numbers that terminals know them under. -/
inductive Color where
  | red
  | green
  | yellow
  | cyan
  | white

namespace Color

def digit : Color → Char
  | .red => '1'
  | .green => '2'
  | .yellow => '3'
  | .cyan => '6'
  | .white => '7'

end Color

/-- A piece of text. -/
inductive Piece where
  | plain (text : String)
  | styled (text : String) (color : Option Color) (bold : Bool)

namespace Piece

def success (text : String) : Piece := .styled text (some .green) true

def error (text : String) : Piece := .styled text (some .red) true

def warning (text : String) : Piece := .styled text (some .yellow) true

def info (text : String) : Piece := .styled text (some .cyan) false

def dim (text : String) : Piece := .styled text (some .white) false

def bold (text : String) : Piece := .styled text none true

def newline : Piece := .plain "\n"

/-- The text of a piece. A styled piece resets the terminal before and after it. -/
def render (colors : Bool) : Piece → String
  | .plain text => text
  | .styled text color bold =>
    if colors then
      let weight := if bold then "\x1b[1m" else ""
      let color := match color with
        | some color => "\x1b[3" ++ String.singleton color.digit ++ "m"
        | none => ""
      "\x1b[0m" ++ weight ++ color ++ text ++ "\x1b[0m"
    else text

end Piece

def render (colors : Bool) (pieces : List Piece) : String :=
  String.join (pieces.map (·.render colors))

/-- A number of things: `1 file`, `2 files`. -/
def plural (count : Nat) (noun : String) : String :=
  if count == 1 then s!"{count} {noun}" else s!"{count} {noun}s"

/-- A text with blanks up to a width. -/
def padRight (width : Nat) (text : String) : String :=
  text ++ String.ofList (List.replicate (width - text.length) ' ')

end Command
end ScriptLint
