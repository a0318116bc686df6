import ScriptLint.Proofs.Parse.Tidy
import ScriptLint.Proofs.Parse.Nesting.Pattern
import ScriptLint.Proofs.Parse.Twin.Template

namespace ScriptLint
namespace Parse

open ScriptLint.Parser

variable {α : Type} {g : Grammar} {s s' : State}

/-- A token that is read later begins later. -/
theorem Later.here_le_start (h : Later s s') (hs : s.Ready) {i : Nat} {a : SpannedToken}
    (hi : s.pos ≤ i) (ha : s'.tokens[i]? = some a) : s.here ≤ a.2.start := by
  have hat : Later s { s' with pos := i } :=
    ⟨h.source, h.tokens, hi, fun _ => (Array.getElem?_eq_some_iff.mp ha).1⟩
  simpa [State.here, State.currentSpan, State.spanAt, ha] using hat.here_le hs

/-- Up to the cursor a range is stretched, if it does not end there. -/
theorem stop_spanFrom (hs : s.Ready) (hpos : 0 < s.pos) (range : Span) :
    (s.spanFrom range).stop = max s.passed range.start := by
  obtain ⟨i, a, hi, ha, hpassed⟩ := hs.previous hpos
  simp [State.spanFrom, hi, ha, hpassed, Span.extendTo]

/-- The tokens are what remains of tokens that stand in place with gaps between them. -/
def State.Spaced (s : State) : Prop :=
  ∃ tokens lo hi, TokensPlaced s.source lo hi tokens ∧ TokensRemain tokens.toArray s.tokens

theorem Later.spaced (h : Later s s') (hs : s.Spaced) : s'.Spaced := by
  obtain ⟨tokens, lo, hi, hplaced, hremain⟩ := hs
  exact ⟨tokens, lo, hi, h.source ▸ hplaced, hremain.trans h.tokens⟩

/-- What can be cut is what remains of a mark that could be. -/
theorem Remains.exists_mark {a b : SpannedToken} (h : Remains a b)
    (hcut : (afterClosingAngle b.1).isSome) :
    ∃ mark, a.1 = .punct mark ∧ (afterClosingAngle (.punct mark)).isSome := by
  induction h with
  | whole =>
    obtain ⟨t, span⟩ := a
    cases t with
    | punct mark => exact ⟨mark, rfl, hcut⟩
    | _ => cases hcut
  | cut _ hfirst ih => exact ih (Option.isSome_of_eq_some hfirst)

/-- A mark at the cursor that can be cut was cut off a mark after the token before it, or is one. -/
theorem cutAfter_passed (hs : s.Ready) (hspaced : s.Spaced) (hpos : 0 < s.pos)
    (hcut : (afterClosingAngle s.current).isSome) : CutAfter s.source s.passed := by
  obtain ⟨i, a, hi, ha, hpassed⟩ := hs.previous hpos
  obtain ⟨b, hb, -, hcurrent⟩ := hs.token
  obtain ⟨tokens, lo, hi', hplaced, hremain⟩ := hspaced
  obtain ⟨a₀, ha₀, hremains⟩ := hremain.before ha
  obtain ⟨b₀, hb₀, hremains'⟩ := hremain.before hb
  rw [List.getElem?_toArray] at ha₀ hb₀
  rw [hcurrent] at hcut
  obtain ⟨mark, hmark, hcuttable⟩ := hremains'.exists_mark hcut
  have hlt : i + 2 < tokens.length := by
    have hlength := (List.getElem?_eq_some_iff.mp hb₀).1
    rw [hi] at hlength
    refine lt_of_le_of_ne hlength fun hlast => ?_
    have heof := hplaced.eof_of_last hb₀ (by rw [hi]; exact hlast)
    rw [hmark] at heof
    cases heof
  refine ⟨mark, b₀.2, hmark ▸ (hplaced.token hb₀).1, ?_, hcuttable⟩
  rw [hpassed, hremains.stop_eq]
  exact hplaced.gap ha₀ (hi ▸ hb₀) hlt

/-- A closing angle is a token that is passed, or the first character of a mark that is not. -/
theorem closes_of_closingAngle (hs : s.Ready) (hspaced : s.Spaced) (hpos : 0 < s.pos)
    (hrun : closingAngle s = (.ok (), s')) :
    (∃ span, Placed s.source (.punct .greater) span ∧ s.here = span.start ∧ s'.passed = span.stop) ∨
      CutAfter s.source s'.passed := by
  obtain ⟨t, s₁, ht, hrun⟩ := exists_of_bind hrun
  obtain ⟨hcurrent, rfl⟩ := eq_of_ask ht
  split at hrun
  · next hmark =>
    left
    cases (Prod.mk.inj hrun).2
    rw [← hcurrent] at hmark
    have hgreater := eq_of_isPunct hmark
    obtain ⟨a, ha, hspan, ha'⟩ := hs.token
    refine ⟨s.currentSpan, ?_, rfl, passed_advance hs (by rw [hgreater]; rfl)⟩
    rw [hspan, ← hgreater, ha']
    exact hs.placed s.pos a ha
  · right
    cases hrest : afterClosingAngle t with
    | none =>
      rw [hrest] at hrun
      cases (Prod.mk.inj hrun).1
    | some rest =>
      rw [hrest] at hrun
      cases (Prod.mk.inj hrun).2
      have hpassed : (s.splitCurrent rest).passed = s.passed := by
        obtain ⟨i, a, hi, ha, hpassed⟩ := hs.previous hpos
        rw [hpassed]
        refine State.passed_of_pos (a := a) hi ?_
        simp only [State.splitCurrent, Array.getElem?_modify, ha]
        rw [if_neg (by omega)]
      rw [hpassed]
      exact cutAfter_passed hs hspaced hpos (Option.isSome_of_eq_some (hcurrent ▸ hrest))

theorem tree_advance (s : State) : s.advance.tree = s.tree := by
  unfold State.advance
  split <;> rfl

/-- The tokens stand in place, and the nodes made from them end in the right place. -/
structure State.Tidied (s : State) : Prop where
  ready : s.Ready
  spaced : s.Spaced
  tidy : s.tree.Tidy s.source

namespace State.Tidied

theorem later (h : s.Tidied) (hlater : Later s s') (htidy : s'.tree.Tidy s.source) : s'.Tidied :=
  ⟨hlater.ready h.ready, hlater.spaced h.spaced, hlater.source ▸ htidy⟩

/-- A parser that makes no nodes. -/
theorem move (h : s.Tidied) (hlater : Later s s') (htree : s'.tree = s.tree) : s'.Tidied :=
  h.later hlater (htree ▸ h.tidy)

theorem alloc (h : s.Tidied) {node : Node} (hnode : node.Untyped) (span : Span) :
    State.Tidied { s with tree := (s.tree.alloc node (some span)).2 } :=
  h.later (.withTree s _) (h.tidy.alloc_untyped hnode span)

theorem congr (h : s.Tidied) (hsource : s'.source = s.source) (htokens : s'.tokens = s.tokens)
    (hpos : s'.pos < s'.tokens.size) (htree : s'.tree = s.tree) : s'.Tidied where
  ready := h.ready.congr hsource htokens hpos
  spaced := by
    obtain ⟨tokens, lo, hi, hplaced, hremain⟩ := h.spaced
    exact ⟨tokens, lo, hi, hsource ▸ hplaced, htokens ▸ hremain⟩
  tidy := by
    rw [htree, hsource]
    exact h.tidy

theorem advance (h : s.Tidied) : s.advance.Tidied :=
  h.move (.of_frame (.advance s)) (tree_advance s)

end State.Tidied

theorem tree_eat {mark : Punct} {eaten : Bool} (hrun : Parser.eat mark s = (.ok eaten, s')) :
    s'.tree = s.tree := by
  rw [eq_of_eat hrun]
  split
  · exact tree_advance s
  · rfl

theorem State.Tidied.eat (h : s.Tidied) {mark : Punct} {eaten : Bool}
    (hrun : Parser.eat mark s = (.ok eaten, s')) : s'.Tidied := by
  rw [eq_of_eat hrun]
  split
  · exact h.advance
  · exact h

/-- Where the parser gives a value it leaves the tree tidy. -/
def KeepsTidy (p : Parser α) : Prop := ∀ s a s', s.Tidied → p s = (.ok a, s') → s'.Tidied

/-- The constructs of the grammar leave the tree tidy, and its types end where they are read to. -/
structure TidyGrammar (g : Grammar) : Prop where
  sound : g.Sound
  ends : TypeEnds g.type
  counted : ∀ {r p}, g.Counted r p → KeepsTidy p
  uncounted : ∀ {r p}, g.Uncounted r p → KeepsTidy p

/-- A reference ends with its closing angle, or that is cut off the next mark. -/
theorem tidied_typeReference (hg : g.Sound) (hs : s.Tidied)
    (hname : ∀ name s', entityName s = (.ok name, s') → s'.Tidied)
    (harguments : KeepsTidy (typeArguments g)) {id : NodeId}
    (hrun : typeReference g s = (.ok id, s')) : s'.Tidied := by
  obtain ⟨start, s₀, hstart, hrun⟩ := exists_of_bind hrun
  obtain ⟨rfl, rfl⟩ := eq_of_ask hstart
  obtain ⟨name, s₁, hentity, hrun⟩ := exists_of_bind hrun
  have hs₁ := hname name s₁ hentity
  have hlater : Later s s₁ := (Later.of_grows grows_entityName s).of_run hentity
  have hlt : s.pos < s₁.pos := pos_lt_of_grows grows_entityName hs.ready hentity (.inr (by simp))
  obtain ⟨angle, s₂, hangle, hrun⟩ := exists_of_bind hrun
  obtain ⟨-, rfl⟩ := eq_of_ask hangle
  obtain ⟨newline, s₂, hnewline, hrun⟩ := exists_of_bind hrun
  obtain ⟨-, rfl⟩ := eq_of_ask hnewline
  split at hrun
  · obtain ⟨arguments, s₄, hall, hrun⟩ := exists_of_bind hrun
    have hs₄ := harguments s₁ arguments s₄ hs₁ hall
    obtain ⟨_, s₂, hopening, hall⟩ := exists_of_bind hall
    obtain ⟨_, s₃, hitems, hall⟩ := exists_of_bind hall
    obtain ⟨_, s₄', hclosing, hall⟩ := exists_of_bind hall
    obtain ⟨rfl, rfl⟩ := eq_of_pure hall
    have hlater₃ : Later s₁ s₃ := ((Later.of_grows (grows_expect _) s₁).of_run hopening).trans
      ((Later.of_grows (grows_separatedBy _ hg.type) s₂).of_run hitems)
    have hlater₄ : Later s₃ s₄' := (Later.of_grows grows_closingAngle s₃).of_run hclosing
    have hs₃ := hlater₃.ready hs₁.ready
    have hle := hlater₃.pos_le
    have hle' := hlater₄.pos_le
    obtain ⟨rfl, rfl⟩ := eq_of_alloc hrun
    obtain ⟨hon, hfrom, hupto⟩ :=
      ((hlater.trans hlater₃).trans hlater₄).spanFrom hs.ready (by omega)
    refine hs₄.later (.withTree _ _)
      (hs₄.tidy.alloc (fun _ => ?_) (fun _ h => by cases h) fun _ h => by cases h)
    have hsource : s₄'.source = s.source := ((hlater.trans hlater₃).trans hlater₄).source
    have hsource₃ : s₃.source = s.source := (hlater.trans hlater₃).source
    rcases closes_of_closingAngle hs₃ (hlater₃.spaced hs₁.spaced) (by omega) hclosing with
      ⟨span, hplaced, hhere, hpassed⟩ | hcut
    · left
      rw [hsource]
      rw [hsource₃] at hplaced
      refine hplaced.endsWith_range rfl hon ?_ (hupto.trans hpassed)
      rw [hfrom, ← hhere]
      exact (hlater.trans hlater₃).here_le hs.ready
    · right
      rwa [hupto, hsource, ← hsource₃]
  · obtain ⟨arguments, s₂, hnone, hrun⟩ := exists_of_bind hrun
    obtain ⟨rfl, rfl⟩ := eq_of_pure hnone
    obtain ⟨rfl, rfl⟩ := eq_of_alloc hrun
    exact hs₁.alloc ⟨rfl, rfl, rfl⟩ _

/-- An annotation has been read up to the cursor. -/
def State.AscribedBy (s : State) (ascription : NodeId) : Prop :=
  0 < s.pos ∧ ∃ type range, (s.tree.node ascription).ascribed? = some type ∧
    s.tree.range ascription = some range ∧ range.stop = s.passed

/-- An annotation ends where its type does, or with a closing parenthesis. -/
theorem tidied_typeAscription (hg : TidyGrammar g) (hs : s.Tidied) {id : NodeId}
    (hrun : typeAscription g s = (.ok id, s')) : s'.Tidied ∧ s'.AscribedBy id := by
  obtain ⟨start, s₀, hstart, hrun⟩ := exists_of_bind hrun
  obtain ⟨rfl, rfl⟩ := eq_of_ask hstart
  obtain ⟨_, s₁, hcolon, hrun⟩ := exists_of_bind hrun
  obtain ⟨hcurrent, rfl⟩ := eq_of_expect hcolon
  obtain ⟨type, s₂, htype, hrun⟩ := exists_of_bind hrun
  obtain ⟨rfl, rfl⟩ := eq_of_alloc hrun
  have hs₁ := hs.advance
  have hcounted : g.Counted true g.type := .type
  have hs₂ : s₂.Tidied := hg.counted hcounted _ _ _ hs₁ htype
  have hgrown := hg.sound.type s.advance
  simp only [Leads, htype] at hgrown
  have hpos : s.advance.pos = s.pos + 1 := pos_advance hs.ready (by rw [hcurrent]; rfl)
  have hlater : Later s s₂ := (later_skip s).trans ((Later.of_grows hg.sound.type _).of_run htype)
  have hmoved := hgrown.moved hs₁.ready (.inr (by simp))
  obtain ⟨hon, hfrom, hupto⟩ := hlater.spanFrom hs.ready (by omega)
  have htypelt : type < s₂.tree.size := by
    obtain ⟨f, hroots, -, hf⟩ := hgrown.sown hs₁.ready
    exact hf.planted.lt_size type (f.roots_subset_preorder (by simp [hroots]))
  refine ⟨hs₂.later (.withTree _ _) (hs₂.tidy.alloc ?_ ?_ ?_), ?_⟩
  · exact fun h => absurd rfl h
  · rintro _ ⟨⟩
    refine ⟨htypelt, fun harguments inner hinner => ?_⟩
    rcases hg.ends _ _ _ hs₁.ready htype harguments with
      ⟨range, hrange, hstop⟩ | ⟨i, span, hi, hparen⟩
    · left
      rw [hrange, Option.some.injEq] at hinner
      rw [hupto, ← hinner, hstop]
    · right
      have hplaced := hs₂.ready.placed i _ hparen
      have hhere : s.here ≤ span.start := hlater.here_le_start hs.ready (by omega) hparen
      refine hplaced.endsWith_range rfl (hlater.source ▸ hon) (hfrom ▸ hhere) ?_
      rw [hupto, State.passed_of_pos hi hparen]
  · intro _ h
    cases h
  · refine ⟨by show 0 < s₂.pos; omega, type, s₂.spanFrom s.currentSpan, ?_, ?_, hupto⟩
    · rw [Tree.node_alloc, if_pos rfl]
      rfl
    · rw [Tree.range_alloc, if_pos rfl]

theorem tidied_typeAscription? (hg : TidyGrammar g) (hs : s.Tidied) {ascription : Option NodeId}
    (hrun : typeAscription? g s = (.ok ascription, s')) :
    s'.Tidied ∧ ∀ id, ascription = some id → s'.AscribedBy id := by
  obtain ⟨colon, s₁, hcolon, hrun⟩ := exists_of_bind hrun
  obtain ⟨-, rfl⟩ := eq_of_ask hcolon
  split at hrun
  · obtain ⟨id, s₂, hid, hrun⟩ := exists_of_bind hrun
    obtain ⟨rfl, rfl⟩ := eq_of_pure hrun
    obtain ⟨htidied, hascribed⟩ := tidied_typeAscription hg hs hid
    refine ⟨htidied, ?_⟩
    rintro _ ⟨⟩
    exact hascribed
  · obtain ⟨rfl, rfl⟩ := eq_of_pure hrun
    exact ⟨hs, fun _ h => by cases h⟩

/-- A range that is stretched to the cursor ends where the annotation before the cursor does. -/
theorem State.AscribedBy.ascribes {id : NodeId} (h : s.AscribedBy id) (hs : s.Ready)
    (range : Span) :
    s.tree.Ascribes id (s.spanFrom range) := by
  obtain ⟨hpos, type, inner, htype, hinner, hstop⟩ := h
  refine ⟨type, inner, htype, hinner, ?_⟩
  have hstart : (s.spanFrom range).start = range.start := by
    unfold State.spanFrom
    split <;> rfl
  rw [stop_spanFrom hs hpos, hstop, hstart]

theorem tidied_rest (hg : TidyGrammar g) (hs : s.Tidied) {start : Span} {argument id : NodeId}
    (hrun : (do
      let ascription ← typeAscription? g
      finish start (.restElement argument ascription)) s = (.ok id, s')) : s'.Tidied := by
  obtain ⟨ascription, s₁, hascription, hrun⟩ := exists_of_bind hrun
  obtain ⟨hs₁, hascribed⟩ := tidied_typeAscription? hg hs hascription
  obtain ⟨rfl, rfl⟩ := eq_of_alloc hrun
  refine hs₁.later (.withTree _ _) (hs₁.tidy.alloc ?_ ?_ ?_)
  · exact fun h => absurd rfl h
  · intro _ h
    cases h
  · exact fun id hid => (hascribed id hid).ascribes hs₁.ready start

theorem range_stretched {target i : NodeId} {node : Node} {range : Span}
    (h : (stretched s target node).range i = some range) :
    i = target ∧ (∃ old, range = s.spanFrom old) ∨ i ≠ target ∧ s.tree.range i = some range := by
  by_cases hi : i = target
  · left
    refine ⟨hi, ?_⟩
    subst hi
    cases hold : s.tree.range i with
    | none =>
      rw [stretched, hold, Tree.range_setNode, hold] at h
      cases h
    | some old =>
      obtain ⟨e, he, hr⟩ : ∃ e, s.tree.entry? i = some e ∧ e.range = some old := by
        simpa [Tree.range, Option.bind_eq_some_iff] using hold
      rw [Tree.range_of_entry (entry?_stretched he hr)] at h
      exact ⟨old, (Option.some.inj h).symm⟩
  · right
    refine ⟨hi, ?_⟩
    rwa [Tree.range, entry?_stretched_of_ne hi] at h

/-- A binding that is given its annotation ends where that does. -/
theorem State.Tidied.stretched (hs : s.Tidied) {target : NodeId} (hbare : (s.tree.node target).Bare)
    {ascription : Option NodeId} (hascribed : ∀ id, ascription = some id → s.AscribedBy id)
    (optional : Bool) :
    (stretched s target (annotated optional ascription (s.tree.node target))).Tidy s.source := by
  obtain ⟨hplain, hbound, hplain', hbound', hascription⟩ := hbare.annotated optional ascription
  have hlt : target < s.tree.size := Tree.lt_size_of_node_ne hbare.ne_missing
  have htarget := node_stretched hlt (annotated optional ascription (s.tree.node target))
  have hother : ∀ i, i ≠ target → Tree.node (Parse.stretched s target
      (annotated optional ascription (s.tree.node target))) i = s.tree.node i := by
    intro i hi
    simp only [Tree.node, entry?_stretched_of_ne hi]
  refine hs.tidy.congr (size_stretched s target _) (fun i => ?_) (fun i => ?_) (fun i htyped => ?_)
    fun i id range hid hrange => ?_
  · by_cases hi : i = target
    · rw [hi, htarget, hplain, hplain']
    · rw [hother i hi]
  · by_cases hi : i = target
    · rw [hi, htarget, hbound, hbound']
    · rw [hother i hi]
  · have hi : i ≠ target := by
      rintro rfl
      rcases htyped with h | h
      · exact h hplain
      · exact h hbound
    rw [Tree.range, entry?_stretched_of_ne hi]
    rfl
  · rcases range_stretched hrange with ⟨rfl, old, rfl⟩ | ⟨hi, hrange⟩
    · rw [htarget, hascription] at hid
      exact (hascribed id hid).ascribes hs.ready old
    · rw [hother i hi] at hid
      exact hs.tidy.binding i id range hid hrange

theorem tidied_annotate (hg : TidyGrammar g) (hs : s.Tidied) {target : NodeId}
    (hbare : (s.tree.node target).Bare) (hrun : annotate g target s = (.ok (), s')) :
    s'.Tidied := by
  unfold annotate at hrun
  obtain ⟨optional, s₁, hoptional, hrun⟩ := exists_of_bind hrun
  obtain ⟨definite, s₂, hdefinite, hrun⟩ := exists_of_bind hrun
  obtain ⟨ascription, s₃, hascription, hrun⟩ := exists_of_bind hrun
  have hs₂ := (hs.eat hoptional).eat hdefinite
  obtain ⟨hs₃, hascribed⟩ := tidied_typeAscription? hg hs₂ hascription
  split at hrun
  · obtain ⟨node, s₄, hnode, hrun⟩ := exists_of_bind hrun
    obtain ⟨rfl, rfl⟩ := eq_of_ask hnode
    have hkept : s₃.tree.node target = s.tree.node target := by
      have hgrown := grows_typeAscription? hg.sound s₂
      simp only [Leads, hascription] at hgrown
      rw [hgrown.frame.tree.toContinues.node_eq, tree_eat hdefinite, tree_eat hoptional]
      rw [tree_eat hdefinite, tree_eat hoptional]
      exact hbare.ne_missing
    have hleads : ∀ node, Leads s₃ s₃ (do
        setNode target node
        extendRange target) fun _ r => r = { s₃ with tree := stretched s₃ target node } :=
      fun _ => leads_stretch rfl
    have hstretched := hleads (annotated optional ascription (s₃.tree.node target))
    simp only [Leads, hrun] at hstretched
    rw [hstretched]
    exact hs₃.later (.withTree _ _) (hs₃.stretched (hkept ▸ hbare) hascribed optional)
  · obtain ⟨-, rfl⟩ := eq_of_pure hrun
    exact hs₃

/-- A substitution is read from tokens of its own. -/
theorem tidied_substitution (hg : g.Sound) (hs : s.Tidied) {tokens : List SpannedToken}
    {lo hi : Nat}
    (hplaced : TokensPlaced s.source lo hi tokens)
    (hexpression : KeepsTidy (expression g)) {id : NodeId}
    (hrun : substitution g tokens s = (.ok id, s')) : s'.Tidied ∧ s'.source = s.source := by
  let inner : State := { s with tokens := tokens.toArray, pos := 0, allowIn := true }
  have hinner : inner.Tidied :=
    ⟨State.ready_of_placed hplaced rfl rfl, ⟨tokens, lo, hi, hplaced, .refl _⟩, hs.tidy⟩
  rcases run_cases (do
    let e ← expression g
    if ← atEof then return e else unexpected [.punct .rightBrace]) inner with
    ⟨e, r, hbody⟩ | ⟨e, r, hbody⟩
  · have hrun' : substitution g tokens s =
        (.ok e, { r with tokens := s.tokens, pos := s.pos, allowIn := s.allowIn }) :=
      congrArg (fun run => (run.1, { run.2 with
        tokens := s.tokens, pos := s.pos, allowIn := s.allowIn })) hbody
    rw [hrun'] at hrun
    cases (Prod.mk.inj hrun).2
    obtain ⟨e', r', hfirst, hbody⟩ := exists_of_bind hbody
    obtain ⟨ended, r'', hended, hbody⟩ := exists_of_bind hbody
    obtain ⟨-, rfl⟩ := eq_of_ask hended
    split at hbody
    · obtain ⟨-, rfl⟩ := eq_of_pure hbody
      have hr := hexpression inner e' r' hinner hfirst
      have hlater : Later inner r' := (Later.of_grows (grows_expression hg) inner).of_run hfirst
      have hsource : r'.source = s.source := hlater.source
      refine ⟨hs.later ⟨hsource, .refl _, le_rfl, fun _ => hs.ready.pos_lt⟩ ?_, hsource⟩
      exact hsource ▸ hr.tidy
    · cases (Prod.mk.inj hbody).1
  · have hrun' : substitution g tokens s =
        (.error e, { r with tokens := s.tokens, pos := s.pos, allowIn := s.allowIn }) :=
      congrArg (fun run => (run.1, { run.2 with
        tokens := s.tokens, pos := s.pos, allowIn := s.allowIn })) hbody
    rw [hrun'] at hrun
    cases (Prod.mk.inj hrun).1

theorem tidied_templateParts (hg : g.Sound) (hexpression : KeepsTidy (expression g))
    (quasiCount : Nat)
    (parts : List TemplatePart) (quasis expressions : List NodeId) (hs : s.Tidied)
    (hparts : ∀ tokens, .substitution tokens ∈ parts → ∃ lo hi, TokensPlaced s.source lo hi tokens)
    {nodes : List NodeId × List NodeId}
    (hrun : templateParts g quasiCount parts quasis expressions s = (.ok nodes, s')) :
    s'.Tidied := by
  induction parts generalizing quasis expressions s with
  | nil =>
    obtain ⟨-, rfl⟩ := eq_of_pure hrun
    exact hs
  | cons part parts ih =>
    cases part with
    | quasi raw span =>
      obtain ⟨quasi, s₁, hquasi, hrun⟩ := exists_of_bind hrun
      obtain ⟨rfl, rfl⟩ := eq_of_alloc hquasi
      exact ih _ _ (hs.alloc ⟨rfl, rfl, rfl⟩ span)
        (fun tokens hmem => hparts tokens (List.mem_cons_of_mem _ hmem)) hrun
    | substitution tokens =>
      obtain ⟨e, s₁, he, hrun⟩ := exists_of_bind hrun
      obtain ⟨lo, hi, hplaced⟩ := hparts tokens List.mem_cons_self
      obtain ⟨hs₁, hsource⟩ := tidied_substitution hg hs hplaced hexpression he
      refine ih _ _ hs₁ (fun tokens hmem => ?_) hrun
      rw [hsource]
      exact hparts tokens (List.mem_cons_of_mem _ hmem)

theorem tidied_template (hg : g.Sound) (hexpression : KeepsTidy (expression g)) (hs : s.Tidied)
    {parts : List TemplatePart} (hcurrent : s.current = .template parts) {id : NodeId}
    (hrun : template g s = (.ok id, s')) : s'.Tidied := by
  rw [template_of_current hcurrent] at hrun
  obtain ⟨nodes, s₁, hnodes, hrun⟩ := exists_of_bind hrun
  obtain ⟨rfl, rfl⟩ := eq_of_alloc hrun
  have hsource : s.advance.source = s.source := (later_skip s).source
  have hs₁ : s₁.Tidied := by
    refine tidied_templateParts hg hexpression _ parts [] [] hs.advance
      (fun tokens hmem => ?_) hnodes
    rw [hsource]
    exact (hs.ready.partsPlaced hcurrent).tokens hmem
  exact hs₁.alloc ⟨rfl, rfl, rfl⟩ _

end Parse
end ScriptLint
