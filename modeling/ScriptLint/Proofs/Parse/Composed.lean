import ScriptLint.Proofs.Parse.Name
import ScriptLint.Proofs.Parse.Twin.Agree

namespace ScriptLint

/-- An error that only says that too little fuel was given. -/
def ParseError.Exhausted (e : ParseError) : Prop :=
  e.cause = .limitExceeded "construct" ∨ e.cause = .limitExceeded "repetition"

namespace Node

/-- The arguments of a type. -/
def typeArguments : Node → List NodeId
  | .typeReference _ arguments => arguments
  | _ => []

/-- The annotation of a binding. -/
def ascription? : Node → Option NodeId
  | .identifier ident => ident.typeAscription
  | .arrayPattern _ ascription | .objectPattern _ ascription => ascription
  | .restElement _ ascription => ascription
  | _ => none

/-- The type of an annotation. -/
def ascribed? : Node → Option NodeId
  | .typeAscription type => some type
  | _ => none

/-- A node that is no type with arguments, no annotation, and no binding with one. -/
structure Untyped (node : Node) : Prop where
  typeArguments : node.typeArguments = []
  ascription? : node.ascription? = none
  ascribed? : node.ascribed? = none

end Node

namespace Grammar

/-- The constructs of which each is a level that is counted: all, or those that have operators only
in brackets and bodies. -/
inductive Counted (g : Grammar) : Bool → Parser NodeId → Prop where
  | statement : Counted g true g.statement
  | assignment : Counted g true g.assignment
  | unary : Counted g true g.unary
  | type {operators : Bool} : Counted g operators g.type

/-- The other constructs. They stand after a token that was taken. -/
inductive Uncounted (g : Grammar) : Bool → Parser NodeId → Prop where
  | binary (least : Precedence) : Uncounted g true (g.binary least)
  | leftHandSide {operators : Bool} : Uncounted g operators g.leftHandSide
  | new {operators : Bool} : Uncounted g operators g.new
  | typeOperator {operators : Bool} : Uncounted g operators g.typeOperator
  | bindingTarget {operators : Bool} : Uncounted g operators g.bindingTarget

end Grammar

namespace Parse

open ScriptLint.Parser

/-- What is known where a parser begins that is a part of a construct. -/
structure Site where
  /-- Whether the construct has taken a token. -/
  moved : Bool
  /-- What else is known of the state. -/
  known : State → Prop
  /-- Spans of tokens that stood at the cursor. -/
  noted : List Span

namespace Site

/-- The site of a parser that begins a construct. -/
def opening : Site := ⟨false, fun _ => True, []⟩

variable (c : Site)

/-- After another part, which may have taken a token. -/
def after (taken : Bool) : Site := ⟨taken || c.moved, fun _ => True, c.noted⟩

def knowing (known : State → Prop) : Site := { c with known := fun s => c.known s ∧ known s }

def noting (span : Span) : Site := { c with noted := span :: c.noted }

/-- At the beginning of a construct inside this one. -/
def inside : Site := ⟨false, fun _ => True, c.noted⟩

/-- At the first site at least as much is known as at the second. -/
structure Implies (c' : Site) : Prop where
  moved : c'.moved = true → c.moved = true
  known : ∀ s, c.known s → c'.known s
  noted : c'.noted ⊆ c.noted

end Site

/-- The parameters and the return type of a function have just been read. -/
def BeforeBody (g : Grammar) (s : State) : Prop :=
  ∃ s₀ signature, Parse.signature g s₀ = (.ok signature, s)

/-- The parser is put together from parts. Whenever it gives a value of which `moves` holds, it has
taken a token or the first angle of one.

Nothing depends on whether `in` is an operator, but for the question for the operator at the cursor.
The index tells whether that is asked, besides in brackets, templates and the bodies of
functions. -/
inductive Composed (g : Grammar) : Bool → {α : Type} → Site → Parser α → (α → Bool) → Prop where
  | pure {r : Bool} {α : Type} {c : Site} {moves : α → Bool} (a : α) (h : moves a = false) :
      Composed g r c (Pure.pure a) moves
  | follow {r : Bool} {α β : Type} {c : Site} {p : Parser α} {f : α → Parser β} {first : α → Bool}
      {moves : β → Bool} (hp : Composed g r c p first)
      (hf : ∀ a, Composed g r ((c.after (first a)).knowing fun s => ∃ s₀, p s₀ = (.ok a, s)) (f a)
        fun b => !first a && moves b) : Composed g r c (p >>= f) moves
  | weaken {r : Bool} {α : Type} {c c' : Site} {p : Parser α} {moves moves' : α → Bool}
      (h : Composed g r c' p moves') (hc : c.Implies c')
      (hmoves : ∀ a, moves a = true → moves' a = true) : Composed g r c p moves
  | ite {r : Bool} {α : Type} {c : Site} {p q : Parser α} {moves : α → Bool} {condition : Prop}
      [Decidable condition] (hp : condition → Composed g r c p moves)
      (hq : ¬condition → Composed g r c q moves) : Composed g r c (if condition then p else q) moves
  | asks {r : Bool} {α β : Type} {c : Site} {p : Parser α} {f : α → Parser β} {moves : β → Bool}
      (hp : Asks p) (hfree : ∀ s allowIn, (p { s with allowIn }).1 = (p s).1)
      (hf : ∀ a, Composed g r (c.knowing fun s => p s = (.ok a, s)) (f a) moves) :
      Composed g r c (p >>= f) moves
  | note {r : Bool} {β : Type} {c : Site} {f : Span → Parser β} {moves : β → Bool}
      (hf : ∀ span, Composed g r (c.noting span) (f span) moves) :
      Composed g r c (currentSpan >>= f) moves
  | operator {β : Type} {c : Site} {f : Option InfixOperator → Parser β} {moves : β → Bool}
      (hf : ∀ found, Composed g true
        (c.knowing fun s => InfixOperator.ofToken? s.allowIn s.current = found) (f found) moves) :
      Composed g true c (do f (InfixOperator.ofToken? (← ask State.allowIn) (← current))) moves
  | fail {r : Bool} {α : Type} {c : Site} {moves : α → Bool} (e : ParseError)
      (hspan : e.span ∈ c.noted)
      (hcause : ¬ e.Exhausted) : Composed g r c (Parser.fail e) moves
  | unexpected {r : Bool} {α : Type} {c : Site} {moves : α → Bool} (expected : List Token) :
      Composed g r c (Parser.unexpected expected) moves
  | advance {r : Bool} {c : Site} (moves : Bool)
      (h : moves = true → ∀ s, c.known s → s.current ≠ .eof) :
      Composed g r c Parser.advance fun _ => moves
  | eatIf {r : Bool} {c : Site} {test : Token → Bool} (heof : test .eof = false) :
      Composed g r c (Parser.eatIf test) id
  | expecting {r : Bool} {α : Type} {c : Site} {test : Token → Bool} (heof : test .eof = false)
      (a : α)
      (expected : List Token) :
      Composed g r c (fun s => if test s.current then (.ok a, s.advance)
        else (.error (s.unexpected expected), s)) fun _ => true
  | consumeSemicolon {r : Bool} {c : Site} : Composed g r c Parser.consumeSemicolon fun _ => false
  | splitCurrent {r : Bool} {c : Site} (rest : Token)
      (h : ∀ s, c.known s → afterClosingAngle s.current = some rest) :
      Composed g r c (Parser.splitCurrent rest) fun _ => true
  | alloc {r : Bool} {c : Site} (node : Node) (span : Span) (h : node.Untyped) :
      Composed g r c (Parser.alloc node span) fun _ => false
  | finish {r : Bool} {c : Site} (start : Span) (node : Node) (h : node.Untyped) :
      Composed g r c (Parser.finish start node) fun _ => false
  | toPattern {r : Bool} {c : Site} (id : NodeId) :
      Composed g r c (Parse.toPattern id) fun _ => false
  | nested {r : Bool} {α : Type} {c : Site} {p : Parser α}
      (h : Composed g r c.inside p fun _ => true) :
      Composed g r c (Parser.nested p) fun _ => true
  | attempt {r : Bool} {α : Type} {c : Site} {p : Parser α} {out : α → List NodeId}
      (hgrows : Grows p false out)
      (h : Composed g r c p fun _ => true) : Composed g r c (Parser.attempt p) Option.isSome
  | withIn {r : Bool} {α : Type} {c c' : Site} {p : Parser α} {moves : α → Bool} (allowIn : Bool)
      (hmoved : c'.moved = c.moved) (hnoted : c'.noted = c.noted)
      (hknown : ∀ s, c.known s → c'.known { s with allowIn }) (h : Composed g true c' p moves) :
      Composed g r c (Parser.withIn allowIn p) moves
  | loop {r : Bool} {σ : Type} {c : Site} (init : σ) {body : σ → Parser (Loop σ)}
      (h : ∀ value, Composed g r (c.after false) (body value) Parse.goesOn) :
      Composed g r c (Parser.loop init body) fun _ => false
  | counted {r : Bool} {c : Site} {p : Parser NodeId} (h : g.Counted r p) :
      Composed g r c p fun _ => true
  | uncounted {r : Bool} {c : Site} {p : Parser NodeId} (h : g.Uncounted r p)
      (hmoved : c.moved = true) :
      Composed g r c p fun _ => true
  | block {r : Bool} {c : Site} (hbody : r = true ∨ ∀ s, c.known s → BeforeBody g s)
      (h : Composed g true c (Parse.block g) fun _ => true) :
      Composed g r c (Parse.block g) fun _ => true
  | template {r : Bool} {c : Site} (hknown : ∀ s, c.known s → ∃ parts, s.current = .template parts)
      (h : Composed g true .opening (expression g) fun _ => true) :
      Composed g r c (Parse.template g) fun _ => true
  | typeReference {r : Bool} {c : Site} (hname : Composed g r c entityName fun _ => true)
      (harguments : Composed g r (c.after true) (typeArguments g) fun _ => true) :
      Composed g r c (Parse.typeReference g) fun _ => true
  | typeAscription {r : Bool} {c : Site} : Composed g r c (Parse.typeAscription g) fun _ => true
  | rest {r : Bool} {c : Site} (start : Span) (argument : NodeId)
      (h : Composed g r c (Parse.typeAscription? g) fun _ => false) :
      Composed g r c (do
        let ascription ← Parse.typeAscription? g
        Parser.finish start (.restElement argument ascription)) fun _ => false
  | annotated {r : Bool} {c : Site} {p : Parser NodeId} {moves : NodeId → Bool}
      (hp : Composed g r c p moves)
      (hbare : ∀ s, Leads s s p fun id s' => (s'.tree.node id).Bare) :
      Composed g r c (do
        let target ← p
        annotate g target
        return target) moves
  | skipImportAttributes {r : Bool} {c : Site} :
      Composed g r c Parse.skipImportAttributes fun _ => false

/-- A parser gives a value or an error. -/
theorem run_cases {α : Type} (p : Parser α) (s : State) :
    (∃ a s', p s = (.ok a, s')) ∨ ∃ e s', p s = (.error e, s') := by
  obtain ⟨result, s'⟩ := p s
  cases result with
  | ok a => exact .inl ⟨a, s', rfl⟩
  | error e => exact .inr ⟨e, s', rfl⟩

theorem exists_of_toBool {ε α : Type} {result : Except ε α} (h : result.toBool = true) :
    ∃ a, result = .ok a := by
  cases result with
  | ok a => exact ⟨a, rfl⟩
  | error e => cases h

/-- Where two parsers one after the other give a value, both do. -/
theorem exists_of_bind {α β : Type} {p : Parser α} {f : α → Parser β} {s s'' : State} {b : β}
    (h : (p >>= f) s = (.ok b, s'')) : ∃ a s', p s = (.ok a, s') ∧ f a s' = (.ok b, s'') := by
  rcases run_cases p s with ⟨a, s', hrun⟩ | ⟨e, s', hrun⟩
  · rw [bind_of_ok hrun] at h
    exact ⟨a, s', hrun, h⟩
  · rw [bind_of_error hrun] at h
    cases (Prod.mk.inj h).1

theorem Site.Implies.refl (c : Site) : c.Implies c := ⟨id, fun _ => id, List.Subset.refl _⟩

namespace Composed

variable {α β σ : Type} {g : Grammar} {r : Bool} {c : Site} {p q : Parser α} {f : α → Parser β}
  {moves : α → Bool}

/-- Two parsers one after the other. -/
theorem bind {first : α → Bool} {moves : β → Bool} (hp : Composed g r c p first)
    (hf : ∀ a, Composed g r (c.after (first a)) (f a) fun b => !first a && moves b) :
    Composed g r c (p >>= f) moves :=
  .follow hp fun a => .weaken (hf a) ⟨id, fun _ hs => hs.1, List.Subset.refl _⟩ fun _ => id

/-- A parser that takes a token, where it does not have to. -/
theorem last (h : Composed g r c p fun _ => true) : Composed g r c p moves :=
  .weaken h (.refl c) fun _ _ => rfl

theorem still (h : Composed g r c p moves) : Composed g r c p fun _ => false :=
  .weaken h (.refl c) nofun

/-- Of two parsers one after the other the second takes a token, if it has to. -/
theorem seq {first : α → Bool} {moves : β → Bool} (hp : Composed g r c p first)
    (hf : ∀ a, Composed g r (c.after (first a)) (f a) moves) : Composed g r c (p >>= f) moves :=
  .bind hp fun a => .weaken (hf a) (.refl _) fun _ hb => (Bool.and_eq_true_iff.mp hb).2

/-- A parser with `in` allowed or not, that needs to know nothing of the cursor. -/
theorem within (allowIn : Bool) (h : Composed g true (c.after false) p moves) :
    Composed g r c (Parser.withIn allowIn p) moves := by
  have hsite : Composed g true ⟨c.moved, fun _ => True, c.noted⟩ p moves := h
  refine .withIn allowIn ?_ ?_ ?_ hsite
  · rfl
  · rfl
  · exact fun _ _ => trivial

theorem map {k : α → β} (h : Composed g r c p fun _ => true) :
    Composed g r c (k <$> p) fun _ => true :=
  .bind h fun _ => .pure _ rfl

/-- A construct that is not understood. -/
theorem unsupported (feature : String) {span : Span} (hspan : span ∈ c.noted) :
    Composed g r c (Parser.fail (.unsupported feature span) : Parser α) fun _ => true :=
  .fail _ hspan (by simp [ParseError.Exhausted, ParseError.unsupported])

/-- A question, whose answer is known to the parser that follows. -/
theorem ask {f : State → α} {k : α → Parser β} {moves : β → Bool}
    (hfree : ∀ s allowIn, f { s with allowIn } = f s)
    (h : ∀ a, Composed g r (c.knowing fun s => f s = a) (k a) moves) :
    Composed g r c (Parser.ask f >>= k) moves := by
  refine .asks (asks_ask f) (fun s allowIn => congrArg Except.ok (hfree s allowIn)) fun a => ?_
  refine .weaken (h a) ⟨id, fun s hs => ⟨hs.1, ?_⟩, List.Subset.refl _⟩ fun _ => id
  injection hs.2 with hok
  exact Except.ok.inj hok

theorem current {k : Token → Parser β} {moves : β → Bool}
    (h : ∀ t, Composed g r (c.knowing fun s => s.current = t) (k t) moves) :
    Composed g r c (Parser.current >>= k) moves :=
  .ask (fun _ _ => rfl) h

/-- A question that decides how to go on. -/
theorem test {f : State → Bool} {p q : Parser β} {moves : β → Bool}
    (hfree : ∀ s allowIn, f { s with allowIn } = f s)
    (hp : Composed g r (c.knowing fun s => f s = true) p moves)
    (hq : Composed g r (c.knowing fun s => f s = false) q moves) :
    Composed g r c (do if ← Parser.ask f then p else q) moves := by
  refine .ask hfree fun b => .ite (fun h => ?_) fun h => ?_
  · rwa [h]
  · rwa [(Bool.not_eq_true b).mp h]

/-- A parser that is run only under a condition, and what follows in either case. -/
theorem when {condition : Prop} [Decidable condition] {q : Parser β} {first : α → Bool}
    {moves : β → Bool} (hp : condition → Composed g r c p first)
    (hq : ∀ taken, Composed g r (c.after taken) q moves) :
    Composed g r c (if condition then p >>= fun _ => q else q) moves := by
  refine .ite (fun h => .bind (hp h) fun a => .weaken (hq _) (.refl _) fun b hb => ?_) fun _ => ?_
  · exact (Bool.and_eq_true_iff.mp hb).2
  · exact .weaken (hq false) ⟨fun h => h, fun _ _ => trivial, List.Subset.refl _⟩ fun _ => id

/-- One of two parsers, and what follows in either case. -/
theorem either {condition : Prop} [Decidable condition] {f : α → Parser β} {moves : β → Bool}
    (hp : condition → ∃ first, Composed g r c p first)
    (hq : ¬condition → ∃ first, Composed g r c q first)
    (hf : ∀ a taken, Composed g r (c.after taken) (f a) moves) :
    Composed g r c (if condition then p >>= f else q >>= f) moves := by
  refine .ite (fun h => ?_) fun h => ?_
  · obtain ⟨first, hp⟩ := hp h
    exact .bind hp fun a => .weaken (hf a _) (.refl _) fun b hb => (Bool.and_eq_true_iff.mp hb).2
  · obtain ⟨first, hq⟩ := hq h
    exact .bind hq fun a => .weaken (hf a _) (.refl _) fun b hb => (Bool.and_eq_true_iff.mp hb).2

/-- A token is taken that is not the last one. -/
theorem skip (h : ∀ s, c.known s → s.current ≠ .eof) :
    Composed g r c Parser.skip fun _ => true :=
  .bind (.advance true fun _ => h) fun _ => .pure () rfl

/-- A token is taken that is known. -/
theorem take {t : Token} (h : t.isEof = false) :
    Composed g r (c.knowing fun s => s.current = t) Parser.skip fun _ => true := by
  refine .skip fun s hs heq => ?_
  rw [← hs.2, heq] at h
  cases h

/-- A token is taken if there is one besides the last. -/
theorem skip_any : Composed g r c Parser.skip fun _ => false :=
  .bind (.advance false nofun) fun _ => .pure () rfl

theorem eat (mark : Punct) : Composed g r c (Parser.eat mark) id := .eatIf rfl

theorem eatKeyword (word : Keyword) : Composed g r c (Parser.eatKeyword word) id := .eatIf rfl

theorem eatName (name : String) : Composed g r c (Parser.eatName name) id := .eatIf rfl

theorem expect (mark : Punct) : Composed g r c (Parser.expect mark) fun _ => true :=
  .expecting rfl () _

theorem expectKeyword (word : Keyword) : Composed g r c (Parser.expectKeyword word) fun _ => true :=
  .expecting rfl () _

theorem expectName (name : String) : Composed g r c (Parser.expectName name) fun _ => true :=
  .expecting rfl () _

theorem itemsUntil (close : Punct) (h : Composed g r (c.after false) p fun _ => true) :
    Composed g r c (Parser.itemsUntil close p) fun _ => false := by
  refine .bind (.loop [] fun items => ?_) fun items => .pure _ rfl
  refine .ask (fun _ _ => rfl) fun closed => .ask (fun _ _ => rfl) fun ended => ?_
  refine .ite (fun _ => .pure _ rfl) fun _ => ?_
  refine .weaken (.bind h fun item => .pure _ rfl) ⟨id, fun _ _ => trivial, ?_⟩ fun _ => id
  exact List.Subset.refl _

theorem commaSeparated (close : Punct) (h : Composed g r (c.after false) p fun _ => true) :
    Composed g r c (Parser.commaSeparated close p) fun _ => false := by
  refine .itemsUntil close (.bind h fun item => .ask (fun _ _ => rfl) fun closed => ?_)
  exact .when (fun _ => .expect .comma) fun _ => .pure _ rfl

theorem separatedBy (mark : Punct) (hfirst : Composed g r c p fun _ => true)
    (h : Composed g r (c.after true) p fun _ => true) :
    Composed g r c (Parser.separatedBy mark p) fun _ => true := by
  refine .bind hfirst fun first => .bind (.loop [first] fun items => ?_) fun items => .pure _ rfl
  refine .bind (.eat mark) fun eaten => ?_
  cases eaten with
  | false => exact .pure _ rfl
  | true => exact .bind h fun item => .pure _ rfl

/-- An item that stands only after a token. -/
theorem optionally {test : Parser Bool} (htest : Composed g r c test id)
    (h : Composed g r (c.after true) p fun _ => true) :
    Composed g r c (Parser.optionally test p) Option.isSome := by
  refine .bind htest fun found => ?_
  cases found with
  | false => exact .pure _ rfl
  | true => exact .bind h fun item => .pure _ rfl

/-- An item of which the cursor tells whether it stands there. -/
theorem optionally_ask {f : State → Bool} (hfree : ∀ s allowIn, f { s with allowIn } = f s)
    (h : Composed g r (c.knowing fun s => f s = true) p fun _ => true) :
    Composed g r c (Parser.optionally (Parser.ask f) p) Option.isSome := by
  refine .test hfree (.bind h fun item => .pure _ rfl) (.pure _ rfl)

end Composed
end Parse
end ScriptLint
