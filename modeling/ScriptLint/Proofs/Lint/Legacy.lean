import ScriptLint.Proofs.Lint.Runner
import ScriptLint.Proofs.Parse.Nesting.Program
import ScriptLint.Proofs.Tree.Search

namespace ScriptLint

variable {d : Document} {id : NodeId} {options : Options} {report : Report}

/-- A name that is spelled as it is called has that text. -/
theorem Document.text?_of_spelled (hspelled : d.tree.Spelled d.source id) {name : String}
    (hname : d.tree.identifierName? id = some name) : d.text? id = some name.toList := by
  unfold Tree.identifierName? at hname
  split at hname
  · next ident hident =>
    cases hname
    obtain ⟨r, hr, hword⟩ := hspelled ident hident
    simp [text?, hr, hword.slice]
  · cases hname

/-- Two names that are spelled as they are called are written alike if they are called alike. -/
theorem Document.writtenAlike_of_spelled {a b : NodeId} (ha : d.tree.Spelled d.source a)
    (hb : d.tree.Spelled d.source b) {name : String} (hname : d.tree.identifierName? a = some name)
    (hname' : d.tree.identifierName? b = some name) : d.writtenAlike a b = true := by
  simp [writtenAlike, text?_of_spelled ha hname, text?_of_spelled hb hname']

/-- Every name that stands in an expression is spelled as it is called, if the tree fits. -/
theorem Tree.Fits.spelled_child {t : Tree} {text : List Char} {room : Nat} {root i c : NodeId}
    (h : t.Fits text false room root) (hi : t.Reaches root i) (hc : c ∈ t.children i)
    (hbindings : ∀ bound, (t.node i).bindings bound = []) : t.Spelled text c := by
  obtain ⟨bound, room, hfits⟩ := h.reaches hi
  have hchild := hfits.child hc
  have hread : (t.node i).binds bound c = false := by simp [Node.binds, hbindings]
  rw [hread] at hchild
  exact hchild.spelled

namespace Rules

theorem isSome_literalValue?_of_isEmptyValue {t : Tree} (h : t.isEmptyValue id = true) :
    (t.literalValue? id).isSome = true := by
  unfold Tree.isEmptyValue at h
  split at h
  · next hvalue => simp [hvalue]
  · next hvalue => simp [hvalue]
  · next hvalue => simp [hvalue]
  · cases h

theorem exists_node_of_isEmptyDefault {t : Tree} (h : t.isEmptyDefault id = true) :
    ∃ left right, t.node id = .logicalExpression .or left right ∧ t.isEmptyValue right = true := by
  unfold Tree.isEmptyDefault at h
  split at h
  · next left right hnode => exact ⟨left, right, hnode, h⟩
  · cases h

/-- An empty value is a literal, so what the rule reports its older variant reports. -/
theorem check_legacyPreferNullishCoalescing
    (h : preferNullishCoalescing.check options d id = some report) :
    legacyPreferNullishCoalescing.check options d id = some report := by
  unfold preferNullishCoalescing at h
  simp only at h
  split_ifs at h with hempty
  obtain ⟨left, right, hnode, hvalue⟩ := exists_node_of_isEmptyDefault hempty
  simp only [legacyPreferNullishCoalescing, hnode, isSome_literalValue?_of_isEmptyValue hvalue,
    if_true]
  exact h

/-- A name that guards a property of itself is written like the object of that property, and the
property is the outermost access there is. -/
theorem guardedAccess?_of_guardedName? {left right : NodeId} {name : String}
    (hnode : d.tree.node id = .logicalExpression .and left right)
    (hname : guardedName? d.tree left right = some name)
    (hspelled : ∀ i, d.tree.Reaches id i → (∀ bound, (d.tree.node i).bindings bound = []) →
      ∀ c ∈ d.tree.children i, d.tree.Spelled d.source c) :
    d.guardedAccess? id = some right := by
  unfold guardedName? at hname
  simp only [Option.bind_eq_bind, Option.bind_eq_some_iff] at hname
  obtain ⟨name', hleft, member, hmember, u, hguard, hsome⟩ := hname
  cases hsome
  simp only [Option.guard_eq_some', Bool.and_eq_true, Bool.not_eq_true', beq_iff_eq] at hguard
  obtain ⟨⟨-, hoptional⟩, hobject⟩ := hguard
  have hright : d.tree.node right = .memberExpression member := by
    unfold Tree.member? at hmember
    split at hmember
    · next hright =>
      cases hmember
      exact hright
    · cases hmember
  have hchildren : left ∈ d.tree.children id ∧ right ∈ d.tree.children id := by
    simp [Tree.children, hnode, Node.children]
  have hobjectChild : member.object ∈ d.tree.children right := by
    simp [Tree.children, hright, Node.children]
  have halike : d.accesses left right = true := by
    have hleftSpelled := hspelled id .refl (fun _ => by rw [hnode]; rfl) left hchildren.1
    have hobjectSpelled := hspelled right (.single hchildren.2) (fun _ => by rw [hright]; rfl)
      member.object hobjectChild
    simp [Document.accesses, hmember,
      Document.writtenAlike_of_spelled hobjectSpelled hleftSpelled hobject hleft]
  have hchain : ∃ rest, d.tree.accessChain right = right :: rest := by
    unfold Tree.accessChain Tree.chain Tree.follow
    split
    · exact ⟨[], rfl⟩
    · exact ⟨_, rfl⟩
  obtain ⟨rest, hrest⟩ := hchain
  simp [Document.guardedAccess?, hnode, hrest, halike, hmember, hoptional]

/-- What the older variant reports the rule reports, with the same fix. -/
theorem check_preferOptionalChain
    (h : legacyPreferOptionalChain.check options d id = some report)
    (hspelled : ∀ i, d.tree.Reaches id i → (∀ bound, (d.tree.node i).bindings bound = []) →
      ∀ c ∈ d.tree.children i, d.tree.Spelled d.source c) :
    ∃ report', preferOptionalChain.check options d id = some report' ∧
      report'.node = report.node ∧ report'.fix = report.fix := by
  unfold legacyPreferOptionalChain at h
  simp only at h
  split at h
  · next left right hnode =>
    obtain ⟨name, hname, rfl⟩ := Option.map_eq_some_iff.mp h
    refine ⟨{ node := id
              message := "Prefer optional chaining over an '&&' guard"
              fix := (d.withOptionalAccess? right right).bind (d.replace? id) }, ?_, rfl, rfl⟩
    simp only [preferOptionalChain, hnode, guardedAccess?_of_guardedName? hnode hname hspelled,
      Option.map_some]
  · cases h

/-- The older variant looks at function declarations first, as the rule does. -/
theorem check_legacyAsyncFunctionNaming
    (h : asyncFunctionNaming.check options d id = some report) :
    ∃ report', legacyAsyncFunctionNaming.check options d id = some report' ∧
      report'.node = report.node ∧ report'.message = report.message := by
  obtain ⟨name, hname, rfl⟩ := Option.map_eq_some_iff.mp h
  refine ⟨{ node := id, message := asyncNameMessage name options.asyncSuffix }, ?_, rfl, rfl⟩
  simp [legacyAsyncFunctionNaming, hname]

end Rules

namespace Settings

variable {s : Settings} {rule rule' : Rule} {g : Diagnostic} {same : Diagnostic → Diagnostic → Prop}

/-- Of every node that the first rule reports the second one reports the same. -/
def Repeats (s : Settings) (d : Document) (rule rule' : Rule)
    (same : Diagnostic → Diagnostic → Prop) : Prop :=
  ∀ id ∈ d.tree.preorder, ∀ g ∈ (Runner.ofSettings s.options s).visit d id, g.code = rule.code →
    ∃ g' ∈ (Runner.ofSettings s.options s).visit d id, g'.code = rule'.code ∧ g'.span = g.span ∧
      same g g'

/-- The diagnostics of a document are those of its nodes. -/
theorem mem_lint_iff :
    g ∈ s.lint d ↔ ∃ id ∈ d.tree.preorder, g ∈ (Runner.ofSettings s.options s).visit d id := by
  rw [lint, Runner.run, List.mem_mergeSort, List.mem_flatMap]

theorem eq_of_code_eq (h : rule ∈ Rules.all) (h' : rule' ∈ Rules.all)
    (hcode : rule.code = rule'.code) : rule = rule' := by
  have hnodup : (Rules.all.map (·.code)).Nodup := by decide
  exact List.inj_on_of_nodup_map hnodup h h' hcode

/-- What a rule reports it reports because of its own check of a node that it looks at. -/
theorem exists_report_of_visit (hrule : rule ∈ Rules.all) {id : NodeId}
    (hg : g ∈ (Runner.ofSettings s.options s).visit d id) (hcode : g.code = rule.code) :
    d.tree.nodeType id ∈ rule.listeners ∧ ∃ report, rule.check s.options d id = some report ∧
      g.message = report.message ∧ g.fix = report.fix ∧
      g.span = (d.tree.range report.node).getD .zero := by
  rw [visit_ofSettings, List.mem_filterMap] at hg
  obtain ⟨rule', hrule', hanswer⟩ := hg
  have hdiagnose := diagnose_of_answer hanswer
  obtain ⟨report, hreport, rfl⟩ := Option.map_eq_some_iff.mp hdiagnose
  obtain rfl := eq_of_code_eq hrule' hrule hcode
  refine ⟨?_, report, hreport, rfl, rfl, rfl⟩
  unfold answer at hanswer
  simp only at hanswer
  split at hanswer
  · next h => exact h.2
  · cases hanswer

/-- A rule that is on and looks at a node says what its check finds. -/
theorem exists_visit_of_report (hrule : rule ∈ Rules.all)
    (hon : s.severityOf rule.name rule.severity ≠ .off) {id : NodeId}
    (htype : d.tree.nodeType id ∈ rule.listeners) {report : Report}
    (hreport : rule.check s.options d id = some report) :
    ∃ g ∈ (Runner.ofSettings s.options s).visit d id, g.code = rule.code ∧
      g.message = report.message ∧ g.fix = report.fix ∧
      g.span = (d.tree.range report.node).getD .zero := by
  refine ⟨{ rule := rule.name, code := rule.code, message := report.message,
            span := (d.tree.range report.node).getD .zero,
            severity := s.severityOf rule.name rule.severity, fix := report.fix,
            notes := report.notes }, ?_, rfl, rfl, rfl, rfl⟩
  rw [visit_ofSettings, List.mem_filterMap]
  refine ⟨rule, hrule, ?_⟩
  simp only [answer, Rule.diagnose, hreport, Option.map_some]
  exact if_pos ⟨hon, htype⟩

/-- Rules of which one finds what the other finds repeat each other. -/
theorem repeats_of_check (hrule : rule ∈ Rules.all) (hrule' : rule' ∈ Rules.all)
    (hon : ∀ rule ∈ Rules.all, s.severityOf rule.name rule.severity ≠ .off)
    (hlisteners : rule.listeners ⊆ rule'.listeners)
    (hcheck : ∀ id ∈ d.tree.preorder, ∀ report, rule.check s.options d id = some report →
      ∃ report', rule'.check s.options d id = some report' ∧ report'.node = report.node ∧
        ∀ g g' : Diagnostic, g.message = report.message → g.fix = report.fix →
          g'.message = report'.message → g'.fix = report'.fix → same g g') :
    s.Repeats d rule rule' same := by
  intro id hid g hg hcode
  obtain ⟨htype, report, hreport, hmessage, hfix, hspan⟩ := exists_report_of_visit hrule hg hcode
  obtain ⟨report', hreport', hnode, hsame⟩ := hcheck id hid report hreport
  obtain ⟨g', hg', hcode', hmessage', hfix', hspan'⟩ :=
    exists_visit_of_report hrule' (hon rule' hrule') (hlisteners htype) hreport'
  exact ⟨g', hg', hcode', by rw [hspan', hspan, hnode], hsame g g' hmessage hfix hmessage' hfix'⟩

/-- With all rules on, the rules and their older variants agree on every text that parses: on
empty defaults and on names of async functions the variants report what the rules report, and on
guards the rules report what the variants report. -/
theorem repeats_of_parse {source : List Char} {t : Tree} (h : parse source = .ok t) (s : Settings)
    (path : String) (hon : ∀ rule ∈ Rules.all, s.severityOf rule.name rule.severity ≠ .off) :
    (∀ g, g ∈ s.lintSource path source ↔ ∃ id ∈ t.preorder,
      g ∈ (Runner.ofSettings s.options s).visit { path, source, tree := t } id) ∧
    s.Repeats { path, source, tree := t } Rules.preferNullishCoalescing
      Rules.legacyPreferNullishCoalescing (fun g g' => g'.fix = g.fix) ∧
    s.Repeats { path, source, tree := t } Rules.legacyPreferOptionalChain
      Rules.preferOptionalChain (fun g g' => g'.fix = g.fix) ∧
    s.Repeats { path, source, tree := t } Rules.asyncFunctionNaming
      Rules.legacyAsyncFunctionNaming (fun g g' => g'.message = g.message) := by
  obtain ⟨root, hroot, hfits⟩ := fits_of_parse h
  have hreaches : ∀ id ∈ t.preorder, t.Reaches root id := by
    intro id hid
    obtain ⟨-, root', hroot', hid⟩ := Tree.mem_preorder_iff.mp hid
    cases hroot.symm.trans hroot'
    exact hid
  refine ⟨fun g => ?_, ?_, ?_, ?_⟩
  · rw [lintSource, h]
    exact mem_lint_iff
  · refine repeats_of_check (by simp [Rules.all]) (by simp [Rules.all]) hon (by decide) ?_
    intro id hid report hreport
    refine ⟨report, Rules.check_legacyPreferNullishCoalescing hreport, rfl, ?_⟩
    intro g g' _ hfix _ hfix'
    rw [hfix, hfix']
  · refine repeats_of_check (by simp [Rules.all]) (by simp [Rules.all]) hon (by decide) ?_
    intro id hid report hreport
    obtain ⟨report', hreport', hnode, hsame⟩ := Rules.check_preferOptionalChain hreport
      fun i hi hbindings c hc => hfits.spelled_child ((hreaches id hid).trans hi) hc hbindings
    refine ⟨report', hreport', hnode, ?_⟩
    intro g g' _ hfix _ hfix'
    rw [hfix, hfix', hsame]
  · refine repeats_of_check (by simp [Rules.all]) (by simp [Rules.all]) hon (by decide) ?_
    intro id hid report hreport
    obtain ⟨report', hreport', hnode, hsame⟩ := Rules.check_legacyAsyncFunctionNaming hreport
    refine ⟨report', hreport', hnode, ?_⟩
    intro g g' hmessage _ hmessage' _
    rw [hmessage, hmessage', hsame]

/-- Settings under which every rule is on. -/
def allOn : Settings := { overrides := Rules.all.map fun rule => (rule.name, .warn) }

theorem repeats_of_parse_guard : ∃ t id,
    parse "a && a.b".toList = .ok t ∧
      ∃ g ∈ (Runner.ofSettings allOn.options allOn).visit ⟨"test.ts", "a && a.b".toList, t⟩ id,
        ∃ g' ∈ (Runner.ofSettings allOn.options allOn).visit ⟨"test.ts", "a && a.b".toList, t⟩ id,
          g.code = "S9002" ∧ g'.code = "S3002" ∧ g'.fix = g.fix := by
  have hreported : (parse "a && a.b".toList).toOption.any (fun t =>
      t.preorder.any fun id => ((Runner.ofSettings allOn.options allOn).visit
        ⟨"test.ts", "a && a.b".toList, t⟩ id).any (·.code == "S9002")) = true := by
    decide +kernel
  have hon : ∀ rule ∈ Rules.all, allOn.severityOf rule.name rule.severity ≠ .off := by
    decide +kernel
  obtain ⟨t, h, hreported⟩ := exists_tree_of_any hreported
  obtain ⟨id, hid, hany⟩ := List.any_eq_true.mp hreported
  obtain ⟨g, hg, hcode⟩ := List.any_eq_true.mp hany
  obtain ⟨g', hg', hcode', -, hfix⟩ :=
    (repeats_of_parse h allOn "test.ts" hon).2.2.1 id hid g hg (beq_iff_eq.mp hcode)
  exact ⟨t, id, h, g, hg, g', hg', beq_iff_eq.mp hcode, hcode', hfix⟩

end Settings
end ScriptLint
