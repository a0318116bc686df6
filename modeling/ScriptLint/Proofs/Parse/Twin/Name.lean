import ScriptLint.Proofs.Parse.Name
import ScriptLint.Proofs.Parse.Twin.Skip

namespace ScriptLint
namespace Parse

open ScriptLint.Parser

variable {α : Type} [Renumber α] {w : Passage} {m n : Mark} {N : α → Mark} {s : Side → State}
  {test : Token → Bool} {level : Nat}

namespace Agrees

/-- Asks the current token. -/
theorem check (h : Takes w m test level) :
    Agrees w m (fun b => m.knowing fun s => test s.current = b)
      fun _ => Parser.ask fun s => test s.current :=
  answer fun _ hs hm => h.alike hs hm

/-- Asks the current token where the passage does not end. -/
theorem check_inside (hin : m.Inside w) (mark : Punct) :
    Agrees w m (fun b => m.knowing fun s => s.current.isPunct mark = b)
      fun _ => Parser.check mark :=
  answer fun _ hs hm => hs.isPunct hm hin mark

/-- A parser of a node and a flag, and the next one. -/
theorem bind_pair {p : Side → Parser (NodeId × Bool)} {f : Side → NodeId × Bool → Parser α}
    (hp : Agrees w m (fun _ => n) p)
    (hf : ∀ id flag, Agrees w n N fun i => f i (w.id i id, flag)) :
    Agrees w m N fun i => p i >>= f i :=
  hp.bind fun a => hf a.1 a.2

/-- Takes a token that passed a test. -/
theorem skip_of (h : Takes w m test level) :
    Agrees w (m.knowing fun s => test s.current = true) (fun _ => m.after level)
      fun _ => Parser.skip := by
  intro s hs hm
  have hmark : m.Holds w (s .left) := Mark.knowing_implies _ _ hm
  obtain ⟨htwin, hafter⟩ := h.advance hs hmark hm.known.2
  exact .value () _ (fun _ => rfl) htwin hafter

/-- Takes a token that is known. -/
theorem skip_at {t : Token} (heof : t.isEof = false) (hstep : bracketStep t = 0) :
    Agrees w (m.knowing fun s => s.current = t) (fun _ => m.step) fun _ => Parser.skip :=
  skip fun s hs => by
    rw [hs.2]
    exact ⟨heof, hstep⟩

/-- Takes a name. -/
theorem skip_identifier (h : ∀ s, m.known s → ∃ name, s.current = .identifier name) :
    Agrees w m (fun _ => m.step) fun _ => Parser.skip :=
  skip fun s hs => by
    obtain ⟨name, hname⟩ := h s hs
    rw [hname]
    exact ⟨rfl, rfl⟩

/-- Takes an opening bracket that is known. -/
theorem skip_open_at {t : Token} (heof : t.isEof = false) (hstep : bracketStep t = 1) :
    Agrees w (m.knowing fun s => s.current = t) (fun _ => m.opened) fun _ => Parser.skip :=
  skip_open fun s hs => by
    rw [hs.2]
    exact ⟨heof, hstep⟩

/-- Takes a token that is known, before another one of which something is known. -/
theorem skip_to {P : Token → Prop}
    (h : ∀ s, m.known s → s.current.isEof = false ∧ bracketStep s.current = 0 ∧ P s.peek) :
    Agrees w m (fun _ => m.step.knowing fun s => P s.current) fun _ => Parser.skip := by
  intro s hs hm
  obtain ⟨heof, hstep, hnext⟩ := h _ hm.known
  have hlt := hs.lt_count heof
  have hafter : m.step.Holds w (s .left).advance := hm.advance hs hlt fun _ _ => by
    rw [hstep, Int.add_zero]
  refine .value () _ (fun _ => rfl) (hs.advance hlt) { hafter with known := ⟨trivial, ?_⟩ }
  rw [hs.advance_eq hlt .left]
  exact hnext

/-- The token after one that is there. -/
theorem peek (hcurrent : ∀ s, m.known s → s.current.isEof = false) {g : Side → Token → Parser α}
    {d : Side → Parser α} (hd : Agrees w m N d) (htemplate : ∀ i parts, g i (.template parts) = d i)
    (hend : ∀ i t, Ends t → g i t = d i)
    (h : ∀ t, Agrees w (m.knowing fun s => s.peek = t) N fun i => g i t) :
    Agrees w m N fun i => Parser.peek >>= g i := by
  refine ask fun s hs hm => ?_
  have hlt := hs.lt_count (hcurrent _ hm.known)
  cases hs.reads_next (n := 1) hlt with
  | token _ htwin _ =>
    change TokenTwin _ _ (s .left).peek (s .right).peek at htwin
    generalize hleft : (s .left).peek = t, hright : (s .right).peek = t' at htwin
    cases htwin with
    | same _ hplain =>
      refine (h t).congr fun i => ?_
      cases i with
      | left => rw [hleft]
      | right => rw [hright]
    | template hparts =>
      refine (hd.strengthen (Mark.knowing_implies _)).congr fun i => ?_
      cases i with
      | left => rw [hleft, htemplate]
      | right => rw [hright, htemplate]
  | ending heq =>
    refine (hd.strengthen (Mark.knowing_implies _)).congr fun i => ?_
    exact hend _ _ ((hs.reads_next hlt).ends heq i)

end Agrees

/-- What is the same about the current token on both sides. -/
theorem Passage.Twin.beside (hs : w.Twin s) (hlt : (s .left).pos < w.count) :
    Beside w.source (w.verbatim && decide ((s .left).pos + 1 < w.count)) (s .left).current
      (fun i => (s i).currentSpan) fun i => (s i).spanAt ((s i).pos + 1) := by
  obtain ⟨a, ha, -⟩ := hs.tokens.reads _ hlt.le
  obtain ⟨b, hb, -⟩ := hs.tokens.reads ((s .left).pos + 1) hlt
  have hbeside := hs.tokens.beside _ hlt a b ha hb
  have ha' : ∀ i, (s i).tokens[(s i).pos]? = some (a i) := fun i => by rw [hs.pos i, ha i]
  have hb' : ∀ i, (s i).tokens[(s i).pos + 1]? = some (b i) := fun i => by
    rw [hs.pos i, ← place_succ, hb i]
  have hcurrent : (s .left).current = (a .left).1 := by
    simp [State.current, State.tokenAt, ha']
  have hspan : (fun i => (s i).currentSpan) = fun i => (a i).2 := by
    funext i
    simp [State.currentSpan, State.spanAt, ha']
  have hnext : (fun i => (s i).spanAt ((s i).pos + 1)) = fun i => (b i).2 := by
    funext i
    simp [State.spanAt, hb']
  rw [hcurrent, hspan, hnext]
  exact hbeside

/-- The current token is written in the same way on both sides. -/
theorem Passage.Twin.spelled (hs : w.Twin s) (hlt : (s .left).pos < w.count)
    (hverbatim : w.verbatim = true) (hspelled : isSpelled (s .left).current = true) :
    (s .right).currentSpan.slice (w.source .right) = (s .left).currentSpan.slice (w.source .left) := by
  obtain ⟨a, ha, -⟩ := hs.tokens.reads _ hlt.le
  have ha' : ∀ i, (s i).tokens[(s i).pos]? = some (a i) := fun i => by rw [hs.pos i, ha i]
  have hcurrent : (s .left).current = (a .left).1 := by
    simp [State.current, State.tokenAt, ha']
  have hspan : ∀ i, (s i).currentSpan = (a i).2 := fun i => by
    simp [State.currentSpan, State.spanAt, ha']
  rw [hspan, hspan]
  exact hs.tokens.spelled _ hlt a ha hverbatim (hcurrent ▸ hspelled)

theorem Node.twin_literal {verbatim : Bool} {f : NodeId → NodeId} (value : LiteralValue)
    {raw raw' : String} (h : verbatim = true → raw' = raw) :
    (Node.literal value raw).Twin verbatim f (.literal value raw') := by
  cases verbatim with
  | true => exact .inl (congrArg _ (h rfl))
  | false => exact .inr ⟨rfl, value, raw, raw', rfl, rfl⟩

namespace Agrees

/-- Takes a token as a literal. -/
theorem literal (value : LiteralValue) {t : Token} (hspelled : isSpelled t = true)
    (hstep : bracketStep t = 0) :
    Agrees w (m.knowing fun s => s.current = t) (fun _ => m.step) fun _ => Parse.literal value := by
  intro s hs hm
  have hcurrent : (s .left).current = t := hm.known.2
  have hlt := hs.lt_count (by rw [hcurrent]; cases t <;> first | rfl | cases hspelled)
  have hafter : m.step.Holds w (s .left).advance := hm.advance hs hlt fun _ _ => by
    rw [hcurrent, hstep, Int.add_zero]
    rfl
  have htext : w.verbatim = true →
      (s .right).currentSpan.slice (s .right).source = (s .left).currentSpan.slice (s .left).source := by
    intro hverbatim
    rw [hs.source, hs.source]
    exact hs.spelled hlt hverbatim (hcurrent ▸ hspelled)
  have hsource : ∀ i, (s i).advance.source = (s i).source := fun i => (Frame.advance _).source
  refine alloc_twin (v := fun i => .literal value ((s i).currentSpan.slice (s i).advance.source))
    (a := fun i => (s i).currentSpan) ?_ _ (hs.advance hlt) hafter
  rw [hsource, hsource]
  exact Node.twin_literal value htext

end Agrees

/-- Two grammars that do the same with what is nested at most `k` levels deep. -/
structure Grammars (k : Nat) (g : Side → Grammar) : Prop where
  pos : 0 < k
  sound : ∀ i, (g i).Sound
  statement : ∀ {w m}, m.Within k → m.Inside w →
    Agrees w m (fun _ => m.step) fun i => (g i).statement
  assignment : ∀ {w m}, m.Within k → m.Clears w .nullCoalescing →
    Agrees w m (fun _ => m.step) fun i => (g i).assignment
  unary : ∀ {w m}, m.Within k → m.Clears w .exponentiation →
    Agrees w m (fun _ => m.step) fun i => (g i).unary
  type : ∀ {w m}, m.Within k → Agrees w m (fun _ => m.step) fun i => (g i).type
  binary : ∀ {w m}, m.budget < k → ∀ least, m.Clears w least →
    Agrees w m (fun _ => m.step) fun i => (g i).binary least
  leftHandSide : ∀ {w m}, m.budget < k → m.Clears w .exponentiation →
    Agrees w m (fun _ => m.step) fun i => (g i).leftHandSide
  new : ∀ {w m}, m.budget < k → Agrees w m (fun _ => m.step) fun i => (g i).new
  typeOperator : ∀ {w m}, m.budget < k → Agrees w m (fun _ => m.step) fun i => (g i).typeOperator
  bindingTarget : ∀ {w m}, m.budget < k → Agrees w m (fun _ => m.step) fun i => (g i).bindingTarget

variable {k : Nat} {g : Side → Grammar}

/-- Whether a token is a name. -/
def isNamed : Token → Bool
  | .identifier _ => true
  | _ => false

theorem takes_named (w : Passage) (m : Mark) : Takes w m isNamed m.level :=
  takes_word w m (fun _ _ => rfl) rfl fun _ => rfl

theorem agrees_identifier : Agrees w m (fun _ => m.step) fun _ => identifier := by
  unfold identifier
  refine .span fun span => .token (.unexpected _) (fun _ _ => rfl) (by rintro _ _ ⟨⟩ <;> rfl)
    fun t => ?_
  cases t with
  | identifier name =>
    refine (Agrees.skip_at rfl rfl).seq fun _ => ?_
    exact .alloc (.identifier { name }) fun _ => rfl
  | _ => exact .unexpected _

theorem agrees_propertyIdentifier :
    Agrees w m (fun _ => m.step) fun _ => propertyIdentifier := by
  unfold propertyIdentifier
  refine .span fun span => .token (.unexpected _) (fun _ _ => rfl) (by rintro _ _ ⟨⟩ <;> rfl)
    fun t => ?_
  cases t with
  | identifier name =>
    refine (Agrees.skip_at rfl rfl).seq fun _ => ?_
    exact .alloc (.identifier { name }) fun _ => rfl
  | keyword word =>
    refine (Agrees.skip_at rfl rfl).seq fun _ => ?_
    exact .alloc (.identifier { name := word.spelling }) fun _ => rfl
  | _ => exact .unexpected _

theorem agrees_stringLiteral : Agrees w m (fun _ => m.step) fun _ => stringLiteral := by
  unfold stringLiteral
  refine .token (.unexpected _) (fun _ _ => rfl) (by rintro _ _ ⟨⟩ <;> rfl) fun t => ?_
  cases t with
  | string value => exact .literal (.string value) rfl rfl
  | _ => exact .unexpected _

theorem agrees_propertyKey (hg : Grammars k g) (hm : m.Within k) :
    Agrees w m (fun _ => m.step) fun i => propertyKey (g i) := by
  have hplain : Agrees w m (fun _ => m.step) fun _ =>
      (do return (← propertyIdentifier, false) : Parser (NodeId × Bool)) :=
    agrees_propertyIdentifier.bind fun key => .pure (key, false) (fun _ => rfl) (.refl _)
  unfold propertyKey
  refine .token hplain (fun _ _ => rfl) (by rintro _ _ ⟨⟩ <;> rfl) fun t => ?_
  cases t with
  | punct mark =>
    cases mark with
    | leftBracket =>
      refine (Agrees.skip_open_at rfl rfl).seq fun _ => ?_
      refine (Agrees.withIn (m := m.opened) true (hg.assignment hm.opened (m.clears_opened w _))).relax.bind fun key => ?_
      exact (Agrees.expect_close _ rfl).seq fun _ => .pure (key, true) (fun _ => rfl) (.refl _)
    | _ => exact hplain.strengthen (Mark.knowing_implies _)
  | string value =>
    exact (Agrees.literal _ rfl rfl).bind fun key => .pure (key, false) (fun _ => rfl) (.refl _)
  | number value =>
    exact (Agrees.literal _ rfl rfl).bind fun key => .pure (key, false) (fun _ => rfl) (.refl _)
  | _ => exact hplain.strengthen (Mark.knowing_implies _)

theorem agrees_typeAscription (hg : Grammars k g) (hm : m.Within k) :
    Agrees w m (fun _ => m.step) fun i => typeAscription (g i) := by
  unfold typeAscription
  refine .span fun start => (Agrees.expect .colon rfl rfl).seq fun _ => ?_
  refine (hg.type hm.step).relax.bind fun type => ?_
  exact .finish (.typeAscription type) fun _ => rfl

theorem agrees_typeAscription? (hg : Grammars k g) (hm : m.Within k) :
    Agrees w m (fun _ => m.forget) fun i => typeAscription? (g i) :=
  .optionally (.check (takes_mark w m rfl rfl))
    ((agrees_typeAscription hg hm).relax.strengthen (Mark.knowing_implies _))
    (Mark.implies_forget _)

end Parse
end ScriptLint
