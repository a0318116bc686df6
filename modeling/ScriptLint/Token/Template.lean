
namespace ScriptLint
namespace Template

/-- A stretch of a template's text. -/
inductive Piece where
  | quasi (text : List Char)
  | substitution (text : List Char)

/-- The pieces of a template up to its end. There is no rest if the closing backtick is
missing. -/
structure Raw where
  pieces : List Piece
  rest : Option (List Char)

/-- What ends a quasi. -/
inductive QuasiEnd where
  | backtick
  | substitution

/-- The text of a quasi, what ends it, and what follows the end. -/
def splitQuasi : List Char → Option (List Char × QuasiEnd × List Char)
  | [] => none
  | '\\' :: c :: text => (splitQuasi text).map fun (q, e, rest) => ('\\' :: c :: q, e, rest)
  | '`' :: text => some ([], .backtick, text)
  | '$' :: '{' :: text => some ([], .substitution, text)
  | c :: text =>
    if c == '\\' then none
    else (splitQuasi text).map fun (q, e, rest) => (c :: q, e, rest)

/-- A quoted string after its opening quote: its text with the closing quote, and the rest. -/
def splitQuoted (quote : Char) : List Char → Option (List Char × List Char)
  | [] => none
  | '\\' :: c :: text => (splitQuoted quote text).map fun (s, rest) => ('\\' :: c :: s, rest)
  | c :: text =>
    if c == quote then some ([c], text)
    else (splitQuoted quote text).map fun (s, rest) => (c :: s, rest)

mutual

/-- Splits the text after an opening backtick. -/
def split : Nat → List Char → Raw
  | 0, _ => ⟨[], none⟩
  | fuel + 1, text =>
    match splitQuasi text with
    | none => ⟨[], none⟩
    | some (quasi, .backtick, rest) => ⟨[.quasi quasi], some rest⟩
    | some (quasi, .substitution, rest) =>
      match splitSubstitution fuel 0 rest with
      | none => ⟨[.quasi quasi], none⟩
      | some (inside, rest) =>
        let raw := split fuel rest
        ⟨.quasi quasi :: .substitution inside :: raw.pieces, raw.rest⟩

/-- The text of a substitution before the brace that closes it, at a depth of open braces, and
the rest after that brace. -/
def splitSubstitution : Nat → Nat → List Char → Option (List Char × List Char)
  | 0, _, _ => none
  | _ + 1, _, [] => none
  | fuel + 1, depth, c :: text =>
    let keep (taken : List Char) (found : Option (List Char × List Char)) :=
      found.map fun (inside, rest) => (taken ++ inside, rest)
    match c with
    | '{' => keep [c] (splitSubstitution fuel (depth + 1) text)
    | '}' =>
      match depth with
      | 0 => some ([], text)
      | depth + 1 => keep [c] (splitSubstitution fuel depth text)
    | '"' | '\'' =>
      match splitQuoted c text with
      | none => none
      | some (string, rest) => keep (c :: string) (splitSubstitution fuel depth rest)
    | '`' =>
      match (split fuel text).rest with
      | none => none
      | some rest =>
        let template := text.take (text.length - rest.length)
        keep (c :: template) (splitSubstitution fuel depth rest)
    | c => keep [c] (splitSubstitution fuel depth text)

end

/-- Splits the text after an opening backtick; every call of `split` takes at least one
character, so the length of the text is fuel enough. -/
def raw (text : List Char) : Raw := split (text.length + 1) text

end Template
end ScriptLint
