import ScriptLint.Proofs.Parse.Module
import ScriptLint.Proofs.Parse.Twin.Module
import ScriptLint.Proofs.Token.Lossless

namespace ScriptLint
namespace Parse

open ScriptLint.Parser

variable {k : Nat} {g : Side → Grammar}

/-- At the lowest level nothing can be read any more. -/
theorem grammars_one (hg : ∀ i, (g i).Sound) : Grammars 1 fun i => (g i).above := by
  have hnested : ∀ {w : Passage} {m : Mark} {p : Side → Parser NodeId}, m.Within 1 →
      Agrees w m (fun _ => m.step) fun i => Parser.nested (p i) :=
    fun hm => .nested (.of_budget (Nat.sub_eq_zero_of_le hm))
  have hnone : ∀ {w : Passage} {m : Mark} {p : Side → Parser NodeId}, m.budget < 1 →
      Agrees w m (fun _ => m.step) p :=
    fun hm => .of_budget (Nat.lt_one_iff.mp hm)
  exact {
    pos := Nat.one_pos
    sound := fun i => (hg i).above
    statement := fun hm _ => hnested hm
    assignment := fun hm _ => hnested hm
    unary := fun hm _ => hnested hm
    type := fun hm => hnested hm
    binary := fun hm _ _ => hnone hm
    leftHandSide := fun hm _ => hnone hm
    new := fun hm => hnone hm
    typeOperator := fun hm => hnone hm
    bindingTarget := fun hm => hnone hm }

theorem Grammars.above (hg : Grammars k g) : Grammars (k + 1) fun i => (g i).above where
  pos := Nat.succ_pos k
  sound i := (hg.sound i).above
  statement hm hin := agrees_statement hg hm hin
  assignment hm hclear := agrees_assignment hg hm hclear
  unary hm hclear := agrees_unary hg hm hclear
  type hm := agrees_type hg hm
  binary hm least hclear := agrees_binary hg (Nat.le_of_lt_succ hm) least hclear
  leftHandSide hm hclear := agrees_leftHandSide hg (Nat.le_of_lt_succ hm) hclear
  new hm := agrees_newExpression hg (Nat.le_of_lt_succ hm)
  typeOperator hm := agrees_typeOperator hg (Nat.le_of_lt_succ hm)
  bindingTarget hm := agrees_bindingTarget hg (Nat.le_of_lt_succ hm)

/-- Grammars do the same with what is nested less deep than they have levels. -/
theorem grammars_add (k : Nat) (n : Side → Nat) :
    Grammars (k + 1) fun i => Grammar.upTo (n i + k + 1) := by
  induction k with
  | zero => exact grammars_one fun i => Grammar.sound_upTo (n i)
  | succ k ih => exact ih.above

theorem grammars_upTo (k : Nat) {n : Side → Nat} (hle : ∀ i, k + 1 ≤ n i) :
    Grammars (k + 1) fun i => Grammar.upTo (n i) := by
  have hlevels : ∀ i, n i - (k + 1) + k + 1 = n i := fun i => Nat.sub_add_cancel (hle i)
  have hgrammars := grammars_add k fun i => n i - (k + 1)
  simpa only [hlevels] using hgrammars

theorem pieces_le_byteLength (mark : Punct) :
    pieces (.punct mark) ≤ byteLength mark.spelling.toList := by
  cases mark <;> decide

theorem byteLength_spelling_le {text : List Char} {mark : Punct} {span : Span}
    (h : Placed text (.punct mark) span) : byteLength mark.spelling.toList ≤ byteLength text := by
  cases h with
  | mark _ a b htext =>
    rw [← htext, byteLength_append, byteLength_append]
    omega
  | plain _ hmark => exact absurd rfl (hmark mark)

/-- A token that stands alone in a text takes up a byte for each of its pieces. -/
theorem pieces_le_of_alone {p : Position} {taken : List Char} {t : Token} (h : Alone p taken t)
    (hne : taken ≠ []) (htemplate : ∀ parts, t ≠ .template parts) : pieces t ≤ byteLength taken := by
  obtain ⟨t', rfl, htokens⟩ := h
  cases t' with
  | punct mark =>
    have hplaced := ((tokenize_placed htokens).token (i := 0) rfl).1
    exact (pieces_le_byteLength mark).trans (byteLength_spelling_le hplaced)
  | template parts => exact absurd rfl (htemplate _)
  | _ => exact byteLength_pos hne

mutual

theorem tokensMass_le {p : Position} {text : List Char} {tokens : List SpannedToken}
    (h : Reads p text tokens) : tokensMass tokens ≤ byteLength text + 1 := by
  match h with
  | .last _ => simp [tokensMass, mass, pieces]
  | .more _ hne _ htoken hrest =>
    have hfirst := mass_le htoken hne
    have hothers := tokensMass_le hrest
    simp only [tokensMass, byteLength_append]
    omega

theorem mass_le {p : Position} {taken : List Char} {t : Token} (h : TokenReads p taken t)
    (hne : taken ≠ []) : mass t ≤ byteLength taken := by
  match h with
  | .plain halone htemplate =>
    rw [mass_eq_pieces htemplate]
    exact pieces_le_of_alone halone hne htemplate
  | .template _ hparts =>
    have hinside := partsMass_le hparts
    have hsize : ('`' : Char).utf8Size = 1 := rfl
    simp only [mass, List.cons_append, byteLength_cons, byteLength_append, hsize]
    omega

theorem partsMass_le {p : Position} {text : List Char} {parts : List TemplatePart}
    (h : PartsRead p text parts) : partsMass parts ≤ byteLength text := by
  match h with
  | .last _ => simp [partsMass, partMass]
  | .more _ htokens _ hrest =>
    have hinside := tokensMass_le htokens
    have hothers := partsMass_le hrest
    have hsize : ('$' : Char).utf8Size = 1 := rfl
    simp only [partsMass, partMass, byteLength_append, byteLength_cons, hsize]
    omega

end

/-- The last token stands at the end of the text. -/
theorem stop_of_reads {p : Position} {text : List Char} {tokens : List SpannedToken}
    (h : Reads p text tokens) :
    (tokens.getLast?.map (·.2.stop)).getD 0 = p.offset + byteLength text := by
  induction tokens generalizing p text with
  | nil => cases h
  | cons a tokens ih =>
    cases h with
    | last => simp [Span.between]
    | more _ _ _ _ hrest =>
      have hlast := ih hrest
      cases tokens with
      | nil => cases hrest
      | cons b tokens =>
        rw [List.getLast?_cons_cons, hlast]
        simp only [Position.offset_after, byteLength_append]
        omega

theorem weight_of_tokenize {source : List Char} {tokens : List SpannedToken}
    (h : tokenize source = .ok tokens) :
    State.weight { source, tokens := tokens.toArray } = byteLength source + tokens.length := by
  obtain ⟨herrors, rfl⟩ := tokenize_eq_ok_iff.mp h
  have hstop := stop_of_reads (scanAt_reads .origin source herrors)
  have hoffset : Position.origin.offset = 0 := rfl
  simp only [State.weight, List.back?_toArray, List.size_toArray]
  change ((scan source).tokens.getLast?.map (·.2.stop)).getD 0 = _ at hstop
  rw [hstop, hoffset, Nat.zero_add]

/-- The tokens of a text weigh no more than the levels of the grammar allow for. -/
theorem tokensMass_le_weight {source : List Char} {tokens : List SpannedToken}
    (h : tokenize source = .ok tokens) :
    tokensMass tokens ≤ State.weight { source, tokens := tokens.toArray } := by
  have hpos := (tokenize_placed h).length_pos
  rw [weight_of_tokenize h]
  obtain ⟨herrors, rfl⟩ := tokenize_eq_ok_iff.mp h
  have hmass : tokensMass (scan source).tokens ≤ byteLength source + 1 :=
    tokensMass_le (scanAt_reads .origin source herrors)
  omega

mutual

theorem TokensTwin.tokensMass {source : Side → List Char} {verbatim : Bool}
    {tokens tokens' : List SpannedToken} (h : TokensTwin source verbatim tokens tokens') :
    Parse.tokensMass tokens' = Parse.tokensMass tokens := by
  match h with
  | .last _ _ => rfl
  | .more htoken _ _ hrest =>
    have hothers := hrest.tokensMass
    simp only [Parse.tokensMass] at hothers ⊢
    rw [htoken.mass, hothers]

theorem TokenTwin.mass {source : Side → List Char} {verbatim : Bool} {t t' : Token}
    (h : TokenTwin source verbatim t t') : Parse.mass t' = Parse.mass t := by
  match h with
  | .same _ _ => rfl
  | .template hparts => rw [Parse.mass, Parse.mass, hparts.partsMass]

theorem PartsTwin.partsMass {source : Side → List Char} {verbatim : Bool}
    {parts parts' : List TemplatePart} (h : PartsTwin source verbatim parts parts') :
    Parse.partsMass parts' = Parse.partsMass parts := by
  match h with
  | .nil => rfl
  | .quasi _ _ _ hrest => rw [Parse.partsMass, Parse.partsMass, hrest.partsMass, partMass, partMass]
  | .substitution htokens hrest =>
    rw [Parse.partsMass, Parse.partsMass, hrest.partsMass, partMass, partMass, htokens.tokensMass]

end

end Parse
end ScriptLint
