import ScriptLint.Proofs.Parse.Growth
import ScriptLint.Proofs.Tree.Renumber

namespace ScriptLint
namespace Parse

/-- One of two parsers. -/
inductive Side where
  | left
  | right

/-- Tokens whose text is kept by the nodes made of them. -/
def isSpelled : Token → Bool
  | .keyword _ | .number _ | .string _ | .punct .minus => true
  | _ => false

/-- Tokens that can end a list in angle brackets. -/
def beginsAngle (t : Token) : Bool := t.isPunct .greater || (afterClosingAngle t).isSome

/-- Marks before which a passage may end: those with which no expression goes on, the operators that
stand between conditions, and the mark of an optional access. -/
def isStop : Token → Bool
  | .punct .rightParen | .punct .rightBracket | .punct .rightBrace | .punct .semicolon
  | .punct .questionQuestion | .punct .pipePipe | .punct .ampAmp | .punct .equalEqual
  | .punct .bangEqual | .punct .equalEqualEqual | .punct .bangEqualEqual | .punct .questionDot => true
  | _ => false

/-- By how much a token changes the number of open brackets. -/
def bracketStep (t : Token) : Int :=
  if State.opensBracket t then 1 else if State.closesBracket t then -1 else 0

/-- Two texts have a line break in the same gap, and the same text where it is kept. -/
structure Beside (source : Side → List Char) (verbatim : Bool) (t : Token)
    (span next : Side → Span) : Prop where
  newline : ((slice? (source .right) (span .right).stop (next .right).start).getD []).contains '\n' =
    ((slice? (source .left) (span .left).stop (next .left).start).getD []).contains '\n'
  one : verbatim = true → isSpelled t = true →
    (span .right).slice (source .right) = (span .left).slice (source .left)
  two : verbatim = true → isSpelled t = true →
    ((span .right).extendTo (next .right).stop).slice (source .right) =
      ((span .left).extendTo (next .left).stop).slice (source .left)

mutual

/-- The same token, up to the spans inside it. -/
inductive TokenTwin (source : Side → List Char) (verbatim : Bool) : Token → Token → Prop where
  | same (t : Token) (h : ∀ parts, t ≠ .template parts) : TokenTwin source verbatim t t
  | template {parts parts' : List TemplatePart} (h : PartsTwin source verbatim parts parts') :
      TokenTwin source verbatim (.template parts) (.template parts')

/-- The same parts of a template, up to spans. -/
inductive PartsTwin (source : Side → List Char) (verbatim : Bool) :
    List TemplatePart → List TemplatePart → Prop where
  | nil : PartsTwin source verbatim [] []
  | quasi (raw : String) (span span' : Span) {parts parts' : List TemplatePart}
      (h : PartsTwin source verbatim parts parts') :
      PartsTwin source verbatim (.quasi raw span :: parts) (.quasi raw span' :: parts')
  | substitution {tokens tokens' : List SpannedToken} {parts parts' : List TemplatePart}
      (htokens : TokensTwin source verbatim tokens tokens')
      (h : PartsTwin source verbatim parts parts') :
      PartsTwin source verbatim (.substitution tokens :: parts) (.substitution tokens' :: parts')

/-- The same tokens up to the end of a text, up to spans. -/
inductive TokensTwin (source : Side → List Char) (verbatim : Bool) :
    List SpannedToken → List SpannedToken → Prop where
  | last (span span' : Span) : TokensTwin source verbatim [(.eof, span)] [(.eof, span')]
  | more {t t' next next' : Token} {span : Side → Span} {after : Side → Span}
      {rest rest' : List SpannedToken} (htoken : TokenTwin source verbatim t t')
      (heof : t.isEof = false) (hbeside : Beside source verbatim t span after)
      (hrest : TokensTwin source verbatim ((next, after .left) :: rest)
        ((next', after .right) :: rest')) :
      TokensTwin source verbatim ((t, span .left) :: (next, after .left) :: rest)
        ((t', span .right) :: (next', after .right) :: rest')

end

/-- Where a passage stands. -/
structure Passage where
  source : Side → List Char
  /-- The place of its first token among the right tokens; among the left ones it is the first. -/
  offset : Nat
  /-- The number of its tokens. -/
  count : Nat
  /-- The identifier that its first node has on the right. -/
  base : Nat
  /-- Whether the texts of literals count. -/
  verbatim : Bool
  /-- Whether the right tokens go on after it. -/
  goesOn : Bool
  /-- An operator after it is looser than this, and an access is so only if no operator is tighter. -/
  ceiling : Nat
  /-- How many brackets are open before each token, if they are counted. -/
  level? : Option (Nat → Int)

namespace Passage

variable (w : Passage)

/-- The identifier of a node of the passage. -/
def id : Side → NodeId → NodeId
  | .left, id => id
  | .right, id => w.base + id

/-- The place of a token of the passage. -/
def place : Side → Nat → Nat
  | .left, p => p
  | .right, p => w.offset + p

@[simp] theorem place_left (p : Nat) : w.place .left p = p := rfl

@[simp] theorem place_right (p : Nat) : w.place .right p = w.offset + p := rfl

theorem place_succ (i : Side) (p : Nat) : w.place i (p + 1) = w.place i p + 1 := by
  cases i <;> rfl

/-- What is read at a place of the passage, or after it. -/
inductive Reads (p : Nat) (t : Side → Token) : Prop where
  | token (hlt : p < w.count) (htwin : TokenTwin w.source w.verbatim (t .left) (t .right))
      (heof : (t .left).isEof = false)
  | ending (heq : p = w.count) (hleft : t .left = .eof)
      (hright : if w.goesOn then isStop (t .right) = true else t .right = .eof)
      (hlooser : ∀ operator, InfixOperator.ofToken? true (t .right) = some operator →
        operator.precedence.level < w.ceiling)
      (haccess : t .right = .punct .questionDot → Precedence.exponentiation.level < w.ceiling)

/-- The tokens of two states hold the passage. -/
structure Tokens (ts : Side → Array SpannedToken) : Prop where
  size : (ts .left).size = w.count + 1
  size_le : w.count + 1 ≤ (ts .right).size
  size_eq : w.goesOn = false → (ts .right).size = w.offset + (w.count + 1)
  reads : ∀ p ≤ w.count, ∃ a : Side → SpannedToken, (∀ i, (ts i)[w.place i p]? = some (a i)) ∧
    w.Reads p fun i => (a i).1
  /-- After the last token of the passage the texts need not be the same. -/
  beside : ∀ p < w.count, ∀ a b : Side → SpannedToken, (∀ i, (ts i)[w.place i p]? = some (a i)) →
    (∀ i, (ts i)[w.place i (p + 1)]? = some (b i)) →
    Beside w.source (w.verbatim && decide (p + 1 < w.count)) (a .left).1 (fun i => (a i).2)
      fun i => (b i).2
  spelled : ∀ p < w.count, ∀ a : Side → SpannedToken, (∀ i, (ts i)[w.place i p]? = some (a i)) →
    w.verbatim = true → isSpelled (a .left).1 = true →
    (a .right).2.slice (w.source .right) = (a .left).2.slice (w.source .left)
  level : ∀ f ∈ w.level?, ∀ p < w.count, ∀ a : SpannedToken, (ts .left)[p]? = some a →
    f (p + 1) = f p + bracketStep a.1
  /-- Brackets between angle brackets are closed there. -/
  angles : ∀ f ∈ w.level?, ∀ (p q : Nat) (a b : SpannedToken), p < q → q < w.count →
    (ts .left)[p]? = some a → (ts .left)[q]? = some b → a.1.isPunct .less = true →
    beginsAngle b.1 = true → f q = f p
  /-- No angle bracket is left open by a passage that goes on and closed after it. -/
  beyond : w.goesOn = true → ∀ (p : Nat) (a : SpannedToken), (ts .left)[p]? = some a →
    a.1.isPunct .less = true → ∀ (q : Nat) (b : SpannedToken), w.offset + w.count < q →
    (ts .right)[q]? = some b → beginsAngle b.1 = false
  level_end : w.goesOn = true → ∃ f, w.level? = some f ∧ f w.count = 0
  /-- No class is extended by what a passage begins that an access may follow. -/
  heritage : w.goesOn = true → Precedence.exponentiation.level < w.ceiling →
    ∀ (p : Nat) (a : SpannedToken), (ts .left)[p]? = some a → a.1.isKeyword .extendsWord = false

/-- Two states of which one has read of the passage what the other has. -/
structure Twin (s : Side → State) : Prop where
  ready : ∀ i, (s i).Ready
  source : ∀ i, (s i).source = w.source i
  tokens : w.Tokens fun i => (s i).tokens
  pos : ∀ i, (s i).pos = w.place i (s .left).pos
  pos_le : (s .left).pos ≤ w.count
  tree : Tree.Twin w.verbatim w.base (s .left).tree (s .right).tree
  depth : ∀ i, (s i).depth = (s .left).depth
  allowIn : ∀ i, (s i).allowIn = (s .left).allowIn

end Passage
end Parse
end ScriptLint
