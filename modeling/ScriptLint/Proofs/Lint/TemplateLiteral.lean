import ScriptLint.Proofs.Lint.Ending
import ScriptLint.Proofs.Lint.TemplateSum
import ScriptLint.Proofs.Parse.Nesting.Program
import ScriptLint.Proofs.Token.Seam
import ScriptLint.Proofs.Token.Substitution
import Mathlib.Data.List.Forall2

namespace ScriptLint

open Template (Atom Mode chars Stands SeamFree)

namespace TemplatePiece

theorem escape_cons {c : Char} (hc : c ≠ '\\') (raw : List Char) :
    escape (c :: raw) = if c = '`' ∨ c = '$' then '\\' :: c :: escape raw else c :: escape raw := by
  rw [escape]
  · rintro rfl
    exact absurd rfl hc
  · rintro d tail rfl
    exact absurd rfl hc

/-- The body of a string is escaped so that all of it is text, and a dollar sign at its end
cannot begin a substitution. -/
theorem run?_escape {α : Type} {quote : Char} {text body rest : List Char}
    (h : Lexeme.stringBody quote text = (body, rest)) :
    Mode.plain.run? (chars (α := α) (escape body)) = some .plain := by
  fun_induction Lexeme.stringBody quote text generalizing body with
  | case1 c text body' rest' heq ih =>
    cases h
    simpa [escape, chars, Mode.run?_cons, Mode.after?, Mode.afterChar?] using ih heq
  | case2 => cases h; rfl
  | case3 c text _ hends body' rest' heq ih =>
    cases h
    simp only [Bool.or_eq_true, beq_iff_eq, not_or] at hends
    obtain ⟨⟨-, hslash⟩, -⟩ := hends
    rw [escape_cons hslash]
    by_cases hmark : c = '`' ∨ c = '$'
    · simpa [hmark, chars, Mode.run?_cons, Mode.after?, Mode.afterChar?] using ih heq
    · rw [not_or] at hmark
      simpa [hmark, hslash, chars, Mode.run?_cons, Mode.after?, Mode.afterChar?] using ih heq
  | case4 => cases h; rfl

end TemplatePiece

theorem stringBody_of_alone {p : Position} {quote : Char} (hquote : quote = '"' ∨ quote = '\'')
    {raw : List Char} {value : String}
    (h : Alone p (quote :: raw ++ [quote]) (.string value)) :
    Lexeme.stringBody quote (raw ++ [quote]) = (raw, [quote]) := by
  obtain ⟨t, -, h⟩ := h
  obtain ⟨herrors, htokens⟩ := tokenize_eq_ok_iff.mp h
  have hcut := Lexeme.cut_of_quote hquote (raw ++ [quote])
  have hsolid := Lexeme.isSolid_quoted quote (raw ++ [quote])
  generalize hquoted : Lexeme.quoted quote (raw ++ [quote]) = found at hcut hsolid
  obtain ⟨lexeme, taken, rest⟩ := found
  change (scanAt .origin (quote :: (raw ++ [quote]))).errors = [] at herrors
  change (scanAt .origin (quote :: (raw ++ [quote]))).tokens = _ at htokens
  cases lexeme with
  | gap => cases hsolid
  | backtick => cases hsolid
  | malformed =>
    rw [scanAt_malformed _ hcut] at herrors
    cases herrors
  | token t =>
    have hjoin := Lexeme.cut_append hcut
    obtain ⟨body, hbody, rfl, -⟩ := Lexeme.exists_of_quoted hquoted
    rw [scanAt_token _ hcut] at htokens
    have hspan := congrArg Prod.snd (List.cons.inj htokens).1
    have hstop : byteLength (quote :: body ++ [quote]) =
        byteLength (quote :: body ++ [quote] ++ rest) := by
      rw [hjoin]
      have h := congrArg Span.stop hspan
      simpa [Span.between] using h
    rw [byteLength_append _ rest] at hstop
    obtain rfl : rest = [] := eq_nil_of_byteLength (by omega)
    rw [List.append_nil, List.cons_append, List.cons.injEq] at hjoin
    obtain rfl := (List.append_inj' hjoin.2 rfl).1
    exact hbody

/-- A template that scans without defects, taken apart. -/
theorem exists_pieces_of_scanAt {p : Position} {text : List Char}
    (herrors : (scanAt p ('`' :: text)).errors = []) : ∃ pieces rest,
      Template.raw text = ⟨pieces, some rest⟩ ∧
      (Scan.parts scanAt (p.step '`') pieces).2.1 = [] ∧
      scanAt p ('`' :: text) =
        (scanAt (((p.step '`').after (Template.writtenAll pieces)).step '`') rest).withToken
          (.template (Scan.parts scanAt (p.step '`') pieces).1)
          (.between p (((p.step '`').after (Template.writtenAll pieces)).step '`')) := by
  generalize hraw : Template.raw text = raw
  obtain ⟨pieces, rest⟩ := raw
  have hend := Scan.parts_end scanAt (p.step '`') pieces
  generalize hparts : Scan.parts scanAt (p.step '`') pieces = found at hend
  obtain ⟨found, errors, r⟩ := found
  cases rest with
  | none =>
    rw [scanAt_unterminated p hraw hparts] at herrors
    simp [Scan.withErrors] at herrors
  | some rest =>
    have hscan := scanAt_template p hraw hparts
    rw [hscan] at herrors
    simp only [Scan.withErrors, Scan.withToken, List.append_eq_nil_iff] at herrors
    obtain ⟨rfl, -⟩ := herrors
    simp only at hend
    subst hend
    exact ⟨pieces, rest, rfl, by rw [hparts], by rw [hscan, hparts]; rfl⟩

/-- The token of a template that stands alone has the parts of its own text. -/
theorem exists_pieces_of_alone {p : Position} {raw : List Char} {parts : List TemplatePart}
    (h : Alone p ('`' :: raw ++ ['`']) (.template parts)) : ∃ pieces,
      Template.raw (raw ++ ['`']) = ⟨pieces, some []⟩ ∧ Template.writtenAll pieces = raw ∧
      (Scan.parts scanAt (p.step '`') pieces).2.1 = [] ∧
      parts = (Scan.parts scanAt (p.step '`') pieces).1 := by
  obtain ⟨t, hmoved, h⟩ := h
  obtain ⟨herrors, htokens⟩ := tokenize_eq_ok_iff.mp h
  change (scanAt .origin ('`' :: (raw ++ ['`']))).errors = [] at herrors
  change (scanAt .origin ('`' :: (raw ++ ['`']))).tokens = _ at htokens
  obtain ⟨pieces, rest, hraw, hparts, hscan⟩ := exists_pieces_of_scanAt herrors
  have hjoin := (Template.raw_append (congrArg Template.Raw.rest hraw)).2
  rw [hraw] at hjoin
  change Template.writtenAll pieces ++ '`' :: rest = raw ++ ['`'] at hjoin
  rw [hscan] at htokens
  have hfirst := (List.cons.inj htokens).1
  have hstop : byteLength (Template.writtenAll pieces ++ ['`']) =
      byteLength (Template.writtenAll pieces ++ ['`'] ++ rest) := by
    rw [List.append_assoc, List.singleton_append, hjoin]
    have h := congrArg (fun a : SpannedToken => a.2.stop) hfirst
    simpa [Span.between, Nat.add_assoc] using h
  rw [byteLength_append _ rest] at hstop
  obtain rfl : rest = [] := eq_nil_of_byteLength (by omega)
  obtain rfl := (List.append_inj' hjoin rfl).1
  -- The substitutions are scanned at their places behind `p` as they are behind the origin.
  have hscans : ∀ inside, .substitution inside ∈ pieces → ∀ q : Position, q.Counts →
      scanAt (p.within q) inside = (scanAt q inside).movedTo p :=
    fun inside _ q hq => scanAt_within p hq inside
  have hwithin := Scan.parts_within p hscans (Position.counts_origin.step '`')
  rw [p.within_step Position.counts_origin, Position.within_origin] at hwithin
  refine ⟨pieces, hraw, rfl, ?_, ?_⟩
  · rw [hwithin, hparts]
    rfl
  · obtain rfl := (congrArg Prod.fst hfirst).symm
    simpa [hwithin, Token.movedTo] using hmoved

/-- The characters of a quasi, or a substitution. -/
def TemplatePart.atoms : TemplatePart → List (Atom (List SpannedToken))
  | .quasi raw _ => chars raw.toList
  | .substitution tokens => [.substitution tokens]

/-- A text has these tokens when it begins at some place. -/
def ScansTo (text : List Char) (tokens : List SpannedToken) : Prop :=
  (scan text).errors = [] ∧ ∃ p, tokens = tokensMovedTo p (scan text).tokens

theorem errors_scanAt {p : Position} {text : List Char} :
    (scanAt p text).errors = [] ↔ (scan text).errors = [] := by
  rw [scanAt_eq_movedTo, Scan.movedTo, List.map_eq_nil_iff]

theorem scansTo_scanAt {p : Position} {text : List Char} (h : (scanAt p text).errors = []) :
    ScansTo text (scanAt p text).tokens :=
  ⟨errors_scanAt.mp h, p, by rw [scanAt_eq_movedTo]; rfl⟩

theorem rel_chars {α β : Type} (r : α → β → Prop) (text : List Char) :
    List.Forall₂ (Atom.Rel r) (chars text) (chars text) :=
  List.forall₂_map_left_iff.mpr (List.forall₂_map_right_iff.mpr (List.forall₂_same.mpr
    fun c _ => .char c))

/-- A text that the search for the end of a substitution passes over closes one. -/
theorem Template.closes_of_passes {inside : List Char} (h : Passes 0 0 inside) : Closes inside := by
  intro fuel rest hfuel
  obtain ⟨fuel', hfuel', hpassed⟩ := h fuel ('}' :: rest) (Nat.le_of_lt hfuel)
  obtain ⟨fuel', rfl⟩ : ∃ n, fuel' = n + 1 := ⟨fuel' - 1, by omega⟩
  rw [hpassed, splitSubstitution_close]
  simp [kept]

/-- The parts of a template are found from its pieces one by one. -/
theorem rel_atoms_parts {p : Position} {pieces : List Template.Piece}
    (h : (Scan.parts scanAt p pieces).2.1 = []) :
    List.Forall₂ (Atom.Rel ScansTo) (pieces.flatMap Template.Piece.atoms)
      ((Scan.parts scanAt p pieces).1.flatMap TemplatePart.atoms) := by
  induction pieces generalizing p with
  | nil => exact .nil
  | cons piece pieces ih =>
    cases piece with
    | quasi text =>
      simp only [Scan.parts, List.flatMap_cons, Template.Piece.atoms, TemplatePart.atoms,
        String.toList_ofList] at h ⊢
      exact List.rel_append (rel_chars ScansTo text) (ih h)
    | substitution inside =>
      simp only [Scan.parts, List.append_eq_nil_iff] at h
      simp only [Scan.parts, List.flatMap_cons, Template.Piece.atoms, TemplatePart.atoms,
        List.singleton_append]
      exact .cons (.substitution (scansTo_scanAt h.1)) (ih h.2)

namespace TemplatePiece

/-- An expression is read by the lexer, closes its braces, and has its braces, quotes and backticks in
tokens, not in comments. -/
def Clear : TemplatePiece → Prop
  | .expression source => ∃ tokens, tokenize source = .ok tokens ∧
      tokens.foldlM (fun depth t => t.1.depthAfter depth) 0 = some 0 ∧ Covers .origin source tokens
  | _ => True

/-- What a piece holds: the characters of a string, escaped; the characters and substitutions of a
template; or the tokens of an expression that is clear. -/
inductive Holds : TemplatePiece → List (Atom (List SpannedToken)) → Prop where
  | text {p : Position} {quote : Char} {raw : List Char} {value : String}
      (hquote : quote = '"' ∨ quote = '\'')
      (halone : Alone p (quote :: raw ++ [quote]) (.string value)) :
      Holds (.text raw) (chars (escape raw))
  | template {p : Position} {raw : List Char} {parts : List TemplatePart}
      (halone : Alone p ('`' :: raw ++ ['`']) (.template parts)) :
      Holds (.template raw) (parts.flatMap TemplatePart.atoms)
  | expression {source : List Char} {tokens : List SpannedToken}
      (htokens : tokenize source = .ok tokens)
      (hbraces : tokens.foldlM (fun depth t => t.1.depthAfter depth) 0 = some 0)
      (hcovers : Covers .origin source tokens) :
      Holds (.expression source) [.substitution tokens]

/-- What a piece holds is what is written for it. -/
theorem Holds.exists_atoms {piece : TemplatePiece} {atoms : List (Atom (List SpannedToken))}
    (h : piece.Holds atoms) : ∃ written, written.flatMap Atom.written = piece.render ∧
      Stands written ∧ List.Forall₂ (Atom.Rel ScansTo) written atoms := by
  cases h with
  | @text p quote raw value hquote halone =>
    have hrun := run?_escape (α := List Char) (stringBody_of_alone hquote halone)
    exact ⟨chars (escape raw), Template.flatMap_written_chars _, ⟨⟨_, hrun, nofun⟩, by simp [chars]⟩,
      rel_chars ScansTo _⟩
  | @template p raw parts halone =>
    obtain ⟨pieces, hraw, hwritten, herrors, rfl⟩ := exists_pieces_of_alone halone
    have hstands := Template.stands_of_split (congrArg Template.Raw.rest hraw)
    change Stands ((Template.raw (raw ++ ['`'])).pieces.flatMap _) at hstands
    rw [hraw] at hstands
    exact ⟨_, by rw [Template.flatMap_written_atoms, hwritten]; rfl, hstands,
      rel_atoms_parts herrors⟩
  | @expression source tokens htokens hbraces hcovers =>
    obtain ⟨herrors, rfl⟩ := tokenize_eq_ok_iff.mp htokens
    have hpasses : Template.Passes 0 0 source := passes_of_scanAt herrors hcovers hbraces
    refine ⟨[.substitution source], by simp [Template.Atom.written, render], ⟨?_, ?_⟩, ?_⟩
    · exact Mode.admits_cons.mpr ⟨.plain, rfl, Mode.admits_nil.mpr nofun⟩
    · intro inside hinside
      cases List.mem_singleton.mp hinside
      exact Template.closes_of_passes hpasses
    · exact .cons (.substitution (scansTo_scanAt (p := .origin) herrors)) .nil

theorem Holds.admits {piece : TemplatePiece} {atoms : List (Atom (List SpannedToken))}
    (h : piece.Holds atoms) : Mode.plain.Admits atoms := by
  obtain ⟨written, -, hstands, hrel⟩ := h.exists_atoms
  exact (Mode.admits_congr hrel).mp hstands.admits

end TemplatePiece

namespace Document

variable {source : List Char} {t : Tree} {path : String} {id : NodeId} {piece : TemplatePiece}
  {pieces : List TemplatePiece}

end Document

end ScriptLint
