import ScriptLint.Proofs.Parse.Tidied
import ScriptLint.Proofs.Parse.Integrity
import ScriptLint.Proofs.Tree.Search

namespace ScriptLint
namespace Parse

open ScriptLint.Parser

variable {α : Type} {g : Grammar} {r : Bool} {c : Site} {s s' : State} {p : Parser α}

theorem tidied_skipImportAttributes (hs : s.Tidied) (hrun : skipImportAttributes s = (.ok (), s')) :
    s'.Tidied := by
  obtain ⟨found, s₁, hfound, hrun⟩ := exists_of_bind hrun
  obtain ⟨-, rfl⟩ := eq_of_ask hfound
  split at hrun
  · obtain ⟨_, s₂, hskip, hrun⟩ := exists_of_bind hrun
    cases (Prod.mk.inj hskip).2
    obtain ⟨close, s₃, hclose, hrun⟩ := exists_of_bind hrun
    obtain ⟨-, rfl⟩ := eq_of_ask hclose
    cases close with
    | none => cases (Prod.mk.inj hrun).1
    | some close =>
      refine of_loop (P := fun _ s => s.Tidied) hs.advance ?_ ?_ hrun
      · intro _ s₄ _ s₅ hs₄ hbody
        obtain ⟨pos, s₆, hpos, hbody⟩ := exists_of_bind hbody
        obtain ⟨-, rfl⟩ := eq_of_ask hpos
        split at hbody
        · obtain ⟨_, s₇, -, hbody⟩ := exists_of_bind hbody
          cases (eq_of_pure hbody).1
        · obtain ⟨-, rfl⟩ := eq_of_pure hbody
          exact hs₄
      · intro _ s₄ _ s₅ hs₄ hbody
        obtain ⟨pos, s₆, hpos, hbody⟩ := exists_of_bind hbody
        obtain ⟨-, rfl⟩ := eq_of_ask hpos
        split at hbody
        · obtain ⟨_, s₇, hskip, hbody⟩ := exists_of_bind hbody
          cases (Prod.mk.inj hskip).2
          obtain ⟨-, rfl⟩ := eq_of_pure hbody
          exact hs₄.advance
        · cases (eq_of_pure hbody).1
  · obtain ⟨-, rfl⟩ := eq_of_pure hrun
    exact hs

/-- A parser that is put together from parts leaves the tree tidy, if the constructs do. -/
theorem Composed.tidied {moves : α → Bool} (h : Composed g r c p moves) (hg : TidyGrammar g)
    (hs : c.known s) (ht : s.Tidied) {a : α} (hrun : p s = (.ok a, s')) : s'.Tidied := by
  induction h generalizing s s' with
  | pure a h =>
    obtain ⟨-, rfl⟩ := eq_of_pure hrun
    exact ht
  | follow hp hf ihp ihf =>
    obtain ⟨a, s₁, hfirst, hrun⟩ := exists_of_bind hrun
    exact ihf a ⟨trivial, s, hfirst⟩ (ihp hs ht hfirst) hrun
  | weaken h hc hmoves ih => exact ih (hc.known s hs) ht hrun
  | ite hp hq ihp ihq =>
    split at hrun
    · exact ihp ‹_› hs ht hrun
    · exact ihq ‹_› hs ht hrun
  | asks hp hfree hf ih =>
    obtain ⟨a, ha⟩ := hp s
    rw [bind_of_ok ha] at hrun
    exact ih a ⟨hs, ha⟩ ht hrun
  | note hf ih => exact ih s.currentSpan hs ht hrun
  | operator hf ih => exact ih _ ⟨hs, rfl⟩ ht hrun
  | fail e hspan hcause => cases (Prod.mk.inj hrun).1
  | unexpected expected => cases (Prod.mk.inj hrun).1
  | advance moves h =>
    cases (Prod.mk.inj hrun).2
    exact ht.advance
  | eatIf heof =>
    unfold Parser.eatIf at hrun
    split at hrun <;> cases (Prod.mk.inj hrun).2
    · exact ht.advance
    · exact ht
  | expecting heof a expected =>
    beta_reduce at hrun
    split at hrun
    · cases (Prod.mk.inj hrun).2
      exact ht.advance
    · cases (Prod.mk.inj hrun).1
  | consumeSemicolon =>
    unfold Parser.consumeSemicolon at hrun
    split at hrun
    · cases (Prod.mk.inj hrun).2
      exact ht.advance
    · split at hrun
      · cases (Prod.mk.inj hrun).2
        exact ht
      · cases (Prod.mk.inj hrun).1
  | splitCurrent rest h =>
    cases (Prod.mk.inj hrun).2
    exact ht.move (.of_frame (.splitCurrent s (h s hs))) rfl
  | alloc node span h =>
    obtain ⟨rfl, rfl⟩ := eq_of_alloc hrun
    exact ht.alloc h span
  | finish start node h =>
    obtain ⟨rfl, rfl⟩ := eq_of_alloc hrun
    exact ht.alloc h _
  | toPattern id =>
    cases (Prod.mk.inj hrun).2
    exact ht.later (.withTree s _) ((Tree.retagged_toPattern _ _ id).tidy ht.tidy)
  | @nested r α c p h ih =>
    by_cases hdeep : maxDepth ≤ s.depth
    · simp [Parser.nested, enter, if_pos hdeep] at hrun
    · obtain ⟨result, s₁, hinner⟩ : ∃ result s₁, p { s with depth := s.depth + 1 } = (result, s₁) :=
        ⟨_, _, rfl⟩
      simp only [Parser.nested, enter, if_neg hdeep, hinner, Prod.mk.injEq] at hrun
      obtain ⟨rfl, rfl⟩ := hrun
      have hdeeper : State.Tidied { s with depth := s.depth + 1 } :=
        ht.congr rfl rfl ht.ready.pos_lt rfl
      have hs₁ := ih trivial hdeeper hinner
      exact hs₁.congr rfl rfl hs₁.ready.pos_lt rfl
  | @attempt r α c p out hgrows h ih =>
    rcases run_cases p s with ⟨a, s₁, hinner⟩ | ⟨e, s₁, hinner⟩
    · simp only [Parser.attempt, hinner, Prod.mk.injEq] at hrun
      obtain ⟨-, rfl⟩ := hrun
      exact ih hs ht hinner
    · have hgrown := hgrows s
      simp only [Leads, hinner] at hgrown
      rw [attempt_eq hgrown.kept hinner] at hrun
      cases (Prod.mk.inj hrun).2
      exact ht.move (.of_frame hgrown.withTokens) rfl
  | @withIn r α c c' p moves allowIn hmoved hnoted hknown h ih =>
    obtain ⟨result, s₁, hinner⟩ : ∃ result s₁, p { s with allowIn } = (result, s₁) := ⟨_, _, rfl⟩
    simp only [Parser.withIn, hinner, Prod.mk.injEq] at hrun
    obtain ⟨rfl, rfl⟩ := hrun
    have hs₁ := ih (hknown s hs) (ht.congr rfl rfl ht.ready.pos_lt rfl) hinner
    exact hs₁.congr rfl rfl hs₁.ready.pos_lt rfl
  | loop init h ih =>
    refine of_loop (P := fun _ s => s.Tidied) ht ?_ ?_ hrun
    · exact fun value s _ s' ht hbody => ih value trivial ht hbody
    · exact fun value s _ s' ht hbody => ih value trivial ht hbody
  | counted h => exact hg.counted h s _ s' ht hrun
  | uncounted h hmoved => exact hg.uncounted h s _ s' ht hrun
  | block hbody h ih => exact ih hs ht hrun
  | template hknown h ih =>
    obtain ⟨parts, hparts⟩ := hknown s hs
    exact tidied_template hg.sound (fun s _ s' ht hrun => ih trivial ht hrun) ht hparts hrun
  | typeReference hname harguments ihname iharguments =>
    refine tidied_typeReference hg.sound ht (fun name s₁ hrun => ihname hs ht hrun) ?_ hrun
    exact fun s _ s' ht hrun => iharguments trivial ht hrun
  | typeAscription => exact (tidied_typeAscription hg ht hrun).1
  | rest start argument h ih => exact tidied_rest hg ht hrun
  | annotated hp hbare ih =>
    obtain ⟨target, s₁, htarget, hrun⟩ := exists_of_bind hrun
    obtain ⟨_, s₂, hannotate, hrun⟩ := exists_of_bind hrun
    obtain ⟨-, rfl⟩ := eq_of_pure hrun
    have hleads := hbare s
    simp only [Leads, htarget] at hleads
    exact tidied_annotate hg (ih hs ht htarget) hleads hannotate
  | skipImportAttributes => exact tidied_skipImportAttributes ht hrun

theorem tidyGrammar_upTo (n : Nat) : TidyGrammar (Grammar.upTo n) := by
  induction n with
  | zero =>
    refine ⟨Grammar.sound_upTo 0, typeEnds_upTo 0, fun h => ?_, fun h => ?_⟩
    · cases h <;> exact fun _ _ _ _ hrun => by cases (Prod.mk.inj hrun).1
    · cases h <;> exact fun _ _ _ _ hrun => by cases (Prod.mk.inj hrun).1
  | succ n ih =>
    refine ⟨Grammar.sound_upTo (n + 1), typeEnds_upTo (n + 1), fun h s id s' hs hrun => ?_,
      fun h s id s' hs hrun => ?_⟩
    · obtain ⟨body, rfl, hbody⟩ := exists_nested_of_counted ih.sound h
      have hnested : Composed (Grammar.upTo n) _ .opening (nested body) fun _ => true :=
        .nested hbody
      exact hnested.tidied ih trivial hs hrun
    · exact (composed_of_uncounted ih.sound h).tidied ih trivial hs hrun

/-- Statements without an error leave the tree tidy. -/
theorem tidied_statements (n fuel : Nat) (body : List NodeId) (hs : s.Tidied)
    (herrors : (statements (Grammar.upTo n) fuel body s).2.errors = #[]) :
    (statements (Grammar.upTo n) fuel body s).2.Tidied := by
  induction fuel generalizing body s with
  | zero => exact hs
  | succ fuel ih =>
    by_cases heof : s.atEof = true
    · simpa only [statements, if_pos heof] using hs
    rcases run_cases (statement (Grammar.upTo n)) s with ⟨id, s₁, hrun⟩ | ⟨e, s₁, hrun⟩
    · simp only [statements, if_neg heof, hrun] at herrors ⊢
      have hg := tidyGrammar_upTo (n + 1)
      exact ih _ (hg.counted .statement s id s₁ hs hrun) herrors
    · simp only [statements, if_neg heof, hrun] at herrors
      have hle := errors_le_statements (Grammar.sound_upTo n) fuel body
        (sync { s₁ with errors := s₁.errors.push e })
      simp only [errors_sync, Array.size_push, herrors] at hle
      simp at hle

theorem tidy_of_program (hs : s.Tidied) {t : Tree} (h : program s = .ok t) : t.Tidy s.source := by
  simp only [program] at h
  split_ifs at h with herrors
  cases h
  have hs' := tidied_statements (maxDepth + s.weight + 2) (s.tokens.size + 1) [] hs
    (Array.isEmpty_iff.mp herrors)
  have hgrown := grown_statements (Grammar.sound_upTo (maxDepth + s.weight + 2))
    (s.tokens.size + 1) []
    (Growth.refl s) (Array.isEmpty_iff.mp herrors)
  generalize statements (Grammar.upTo (maxDepth + s.weight + 2)) (s.tokens.size + 1) [] s = run at *
  obtain ⟨body, s'⟩ := run
  simp only at hs' hgrown ⊢
  have hroot : (s'.tree.alloc (.program body) (some ⟨0, byteLength s'.source, 1, 1⟩)).2.Tidy
      s.source :=
    hgrown.frame.source ▸ hs'.tidy.alloc_untyped ⟨rfl, rfl, rfl⟩ _
  refine (Tree.relinked_linkParents rfl).tidy ?_
  exact ⟨hroot.reference, hroot.ascription, hroot.binding⟩

theorem tidy_of_parse {source : List Char} {t : Tree} (h : parse source = .ok t) :
    t.Tidy source := by
  obtain ⟨tokens, htokens, hprogram⟩ := exists_program_of_parse h
  have hplaced := tokenize_placed htokens
  refine tidy_of_program ⟨State.ready_of_placed hplaced rfl rfl, ?_, ?_⟩ hprogram
  · exact ⟨tokens, _, _, hplaced, .refl _⟩
  · refine ⟨fun i range hne => absurd ?_ hne, fun i type h => ?_, fun i id range h => ?_⟩
    · simp [Tree.node, Tree.entry?, Node.missing, Node.typeArguments]
    · simp [Tree.node, Tree.entry?, Node.missing, Node.ascribed?] at h
    · simp [Tree.node, Tree.entry?, Node.missing, Node.ascription?] at h

end Parse

theorem Node.mem_children_of_ascription? {node : Node} {id : NodeId}
    (h : node.ascription? = some id) : id ∈ node.children := by
  unfold Node.ascription? at h
  split at h
  · simp [Node.children, h]
  · simp [Node.children, h]
  · simp [Node.children, h]
  · simp [Node.children, h]
  · cases h

theorem Node.mem_children_of_ascribed? {node : Node} {id : NodeId}
    (h : node.ascribed? = some id) : id ∈ node.children := by
  unfold Node.ascribed? at h
  split at h
  · cases h
    exact List.mem_singleton_self _
  · cases h

/-- In the tree of a text that parses a type with arguments ends with its closing angle. Only where
that angle was the first character of a longer mark the type ends before it, and the mark comes
next. A binding whose annotation is such a type ends where the type does, unless parentheses stand
around the type. -/
theorem closes_of_parse {source : List Char} {t : Tree} (h : parse source = .ok t) {i : NodeId}
    (hi : t.Reachable i) :
    ((t.node i).typeArguments ≠ [] → ∃ range, t.range i = some range ∧ Closes source range) ∧
    ∀ ascription type, (t.node i).ascription? = some ascription →
      (t.node ascription).ascribed? = some type → (t.node type).typeArguments ≠ [] →
      ∃ range, t.range i = some range ∧
        ((t.range type).map (·.stop) = some range.stop ∧ Closes source range ∨
          range.EndsWith source ')') := by
  have htidy := Parse.tidy_of_parse h
  obtain ⟨range, hrange⟩ := Tree.ranged_of_parse h _ hi
  refine ⟨fun harguments =>
    ⟨range, hrange.range, htidy.reference i range harguments hrange.range⟩, ?_⟩
  intro ascription type hascription htype harguments
  have hmem := Node.mem_children_of_ascription? hascription
  have hmem' := Node.mem_children_of_ascribed? htype
  have hreachable := hi.child hmem
  obtain ⟨outer, houter⟩ := Tree.ranged_of_parse h _ hreachable
  obtain ⟨inner, hinner⟩ := Tree.ranged_of_parse h _ (hreachable.child hmem')
  obtain ⟨outer', houter', hstart, -⟩ := hrange.nested ascription hmem
  obtain ⟨inner', hinner', hstart', -⟩ := houter.nested type hmem'
  rw [houter.range, Option.some.injEq] at houter'
  rw [hinner.range, Option.some.injEq] at hinner'
  subst houter' hinner'
  have hstop : range.stop = outer.stop := by
    obtain ⟨_, outer', -, houter', hstop⟩ :=
      htidy.binding i ascription range hascription hrange.range
    rw [houter.range, Option.some.injEq] at houter'
    subst houter'
    have hle := houter.start_le_stop
    omega
  refine ⟨range, hrange.range, ?_⟩
  rcases (htidy.ascription ascription type htype).2 harguments outer inner houter.range
      hinner.range with
    hends | hparen
  · left
    refine ⟨by rw [hinner.range, Option.map_some, hstop, hends], ?_⟩
    rcases htidy.reference type inner harguments hinner.range with hangle | hcut
    · exact .inl (hangle.widen hinner.start_boundary hrange.start_boundary (by omega) (by omega))
    · exact .inr (by rwa [hstop, hends])
  · right
    exact hparen.widen houter.start_boundary hrange.start_boundary hstart hstop

theorem Span.EndsWith.getLast? {text : List Char} {span : Span} {c : Char}
    (h : span.EndsWith text c) :
    (slice? text span.start span.stop).bind List.getLast? = some c := by
  obtain ⟨w, hw⟩ := h
  rw [hw, Option.bind_some, List.getLast?_concat]

/-- A type in another one, whose angles are one mark, as an annotation. -/
theorem closes_of_parse_nested : ∃ t i range,
    parse "let x: Map<K, List<V>> = y;".toList = .ok t ∧ t.Reachable i ∧
      (t.node i).ascription?.isSome ∧ t.range i = some range ∧
      (Closes "let x: Map<K, List<V>> = y;".toList range ∨
        range.EndsWith "let x: Map<K, List<V>> = y;".toList ')') := by
  have hrun : (parse "let x: Map<K, List<V>> = y;".toList).toOption.any (fun t => t.preorder.any
      fun i => (t.node i).ascription?.any fun ascription =>
        (t.node ascription).ascribed?.any fun type =>
        !(t.node type).typeArguments.isEmpty) = true := by decide +kernel
  obtain ⟨t, hparse, hrun⟩ := exists_tree_of_any hrun
  obtain ⟨i, hi, hrun⟩ := List.any_eq_true.mp hrun
  have hreachable := (Tree.mem_preorder_iff.mp hi).2
  obtain ⟨ascription, hascription, hrun⟩ := (Option.any_eq_true _ _).mp hrun
  obtain ⟨type, htype, hrun⟩ := (Option.any_eq_true _ _).mp hrun
  have harguments : (t.node type).typeArguments ≠ [] := by
    intro hempty
    rw [hempty] at hrun
    cases hrun
  obtain ⟨range, hrange, hends⟩ :=
    (closes_of_parse hparse hreachable).2 ascription type hascription htype harguments
  exact ⟨t, i, range, hparse, hreachable, hascription ▸ rfl, hrange, hends.imp And.right id⟩

/-- A closing angle that is cut off a longer mark is left out of its type, and of the binding that
has the type as its annotation. -/
theorem not_endsWith_of_parse : ¬ ∀ (source : List Char) (t : Tree) (i : NodeId) (range : Span),
    parse source = .ok t → t.Reachable i → (t.node i).typeArguments ≠ [] → t.range i = some range →
      range.EndsWith source '>' := by
  intro hends
  have hrun : (parse "let x: A<B>= y;".toList).toOption.any (fun t => t.preorder.any fun i =>
      !(t.node i).typeArguments.isEmpty && (t.range i).any fun range =>
        (slice? "let x: A<B>= y;".toList range.start range.stop).bind List.getLast? != some '>') =
      true := by decide +kernel
  obtain ⟨t, hparse, hrun⟩ := exists_tree_of_any hrun
  obtain ⟨i, hi, hrun⟩ := List.any_eq_true.mp hrun
  have hreachable := (Tree.mem_preorder_iff.mp hi).2
  simp only [Bool.and_eq_true, Bool.not_eq_true', List.isEmpty_eq_false_iff] at hrun
  obtain ⟨harguments, hrun⟩ := hrun
  obtain ⟨range, hrange, hrun⟩ := (Option.any_eq_true _ _).mp hrun
  rw [(hends _ t i range hparse hreachable harguments hrange).getLast?] at hrun
  cases hrun

end ScriptLint
