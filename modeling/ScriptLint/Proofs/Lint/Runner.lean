import ScriptLint.Lint.Linter
import ScriptLint.Proofs.Parse.Integrity
import Mathlib.Data.List.Nodup

namespace ScriptLint

section StableOrder

variable {α : Type} {key : α → Nat}

/-- The entries of a list in the order of their keys, those of one key in the order of the list. -/
structure StablySorted (key : α → Nat) (l sorted : List α) : Prop where
  ordered : sorted.Pairwise fun a b => key a ≤ key b
  stable : ∀ k, sorted.filter (key · = k) = l.filter (key · = k)

/-- A list that falls into entries below a bound and others is cut there. -/
theorem append_inj_of_lt {n : Nat} {a b c d : List α} (h : a ++ b = c ++ d)
    (ha : ∀ x ∈ a, key x < n) (hb : ∀ x ∈ b, n ≤ key x) (hc : ∀ x ∈ c, key x < n)
    (hd : ∀ x ∈ d, n ≤ key x) : a = c ∧ b = d := by
  have hcut : ∀ {u v : List α}, (∀ x ∈ u, key x < n) → (∀ x ∈ v, n ≤ key x) →
      (u ++ v).filter (key · < n) = u := by
    intro u v hu hv
    rw [List.filter_append, List.filter_eq_self.mpr (by simpa using hu),
      List.filter_eq_nil_iff.mpr (by simpa using hv), List.append_nil]
  have hac : a = c := by rw [← hcut ha hb, h, hcut hc hd]
  exact ⟨hac, List.append_cancel_left (hac ▸ h)⟩

theorem pairwise_mergeSort_key (key : α → Nat) (l : List α) :
    (l.mergeSort fun a b => key a ≤ key b).Pairwise fun a b => key a ≤ key b := by
  have h := @List.pairwise_mergeSort _ (fun a b => decide (key a ≤ key b))
    (fun a b c hab hbc => by simp only [decide_eq_true_eq] at *; omega)
    (fun a b => by simp only [Bool.or_eq_true, decide_eq_true_eq]; omega) l
  simpa using h

/-- Sorting puts the first entry before those of its key and after those of lower ones. -/
theorem exists_mergeSort_key_cons (key : α → Nat) (a : α) (l : List α) :
    ∃ before after, (a :: l).mergeSort (fun a b => key a ≤ key b) = before ++ a :: after ∧
      l.mergeSort (fun a b => key a ≤ key b) = before ++ after ∧
      (∀ b ∈ before, key b < key a) ∧ ∀ b ∈ after, key a ≤ key b := by
  obtain ⟨before, after, hcons, htail, hbefore⟩ :=
    @List.mergeSort_cons _ (fun a b => decide (key a ≤ key b))
    (fun a b c hab hbc => by simp only [decide_eq_true_eq] at *; omega)
    (fun a b => by simp only [Bool.or_eq_true, decide_eq_true_eq]; omega) a l
  refine ⟨before, after, hcons, htail, by simpa using hbefore, ?_⟩
  have hordered := pairwise_mergeSort_key key (a :: l)
  rw [hcons] at hordered
  exact (List.pairwise_cons.mp (List.pairwise_append.mp hordered).2.1).1

/-- What is left out before sorting may as well be left out after it. -/
theorem filter_mergeSort_key (p : α → Bool) (key : α → Nat) (l : List α) :
    (l.mergeSort fun a b => key a ≤ key b).filter p =
      (l.filter p).mergeSort fun a b => key a ≤ key b := by
  induction l with
  | nil => simp
  | cons a l ih =>
    obtain ⟨before, after, hcons, htail, hbefore, hafter⟩ := exists_mergeSort_key_cons key a l
    rw [htail, List.filter_append] at ih
    rw [hcons, List.filter_append]
    by_cases ha : p a
    · obtain ⟨before', after', hcons', htail', hbefore', hafter'⟩ :=
        exists_mergeSort_key_cons key a (l.filter p)
      rw [htail'] at ih
      obtain ⟨hb, hc⟩ := append_inj_of_lt ih
        (fun x hx => hbefore x (List.mem_of_mem_filter hx))
        (fun x hx => hafter x (List.mem_of_mem_filter hx)) hbefore' hafter'
      rw [List.filter_cons_of_pos ha, List.filter_cons_of_pos ha, hcons', hb, hc]
    · rw [List.filter_cons_of_neg ha, List.filter_cons_of_neg ha, ih]

theorem stablySorted_mergeSort (key : α → Nat) (l : List α) :
    StablySorted key l (l.mergeSort fun a b => key a ≤ key b) := by
  refine ⟨pairwise_mergeSort_key key l, fun k => ?_⟩
  rw [filter_mergeSort_key]
  refine List.mergeSort_of_pairwise (List.pairwise_of_forall_mem_list fun a ha b hb => ?_)
  have hkey : ∀ x ∈ l.filter (key · = k), key x = k := by simp
  simp [hkey a ha, hkey b hb]

end StableOrder

namespace Dispatch

variable {table : Dispatch} {type : NodeType} {index : Nat}

theorem indices_enter (type' : NodeType) :
    (enter index table type').indices type =
      table.indices type ++ if type = type' then [index] else [] := by
  unfold indices
  induction table with
  | nil =>
    by_cases h : type = type'
    · simp [enter, h]
    · simp [enter, h, List.lookup_cons, beq_false_of_ne h]
  | cons entry rest ih =>
    obtain ⟨type'', indices⟩ := entry
    unfold enter
    by_cases hentry : type'' = type'
    · subst hentry
      by_cases h : type = type''
      · simp [h]
      · simp [h, List.lookup_cons, beq_false_of_ne h]
    · rw [if_neg hentry, List.lookup_cons, List.lookup_cons]
      by_cases h : type = type''
      · simp [h, hentry]
      · simpa only [beq_false_of_ne h] using ih

/-- A rule that names each type once is entered once. -/
theorem indices_foldl_enter {types : List NodeType} (hnodup : types.Nodup) :
    (types.foldl (enter index) table).indices type =
      table.indices type ++ if type ∈ types then [index] else [] := by
  induction types generalizing table with
  | nil => simp
  | cons type' types ih =>
    obtain ⟨hnot, hnodup⟩ := List.nodup_cons.mp hnodup
    rw [List.foldl_cons, ih hnodup, indices_enter]
    by_cases h : type = type'
    · subst h
      simp [hnot]
    · simp [h]

end Dispatch

namespace Runner

variable {r : Runner} {entries : List (Rule × Severity)} {rule : Rule} {severity : Severity}
  {s s' : Settings} {options : Options} {d : Document} {id : NodeId}

/-- The rules of a runner that look at nodes of a type. -/
def listening (r : Runner) (type : NodeType) : List (Rule × Severity) :=
  (r.dispatch.indices type).filterMap (r.rules[·]?)

/-- The table leads to the rules that look at each type, in the order in which they were
registered. -/
structure Covers (r : Runner) (entries : List (Rule × Severity)) : Prop where
  lt_size : ∀ type, ∀ i ∈ r.dispatch.indices type, i < r.rules.size
  listening : ∀ type, r.listening type = entries.filter fun entry => type ∈ entry.1.listeners

theorem covers_empty (options : Options) : Covers { options } [] where
  lt_size _ _ hi := by simp [Dispatch.indices] at hi
  listening _ := by simp [Runner.listening]

/-- One more rule does not move those before it. -/
theorem Covers.register (h : r.Covers entries) (hnodup : rule.listeners.Nodup)
    (hon : severity ≠ .off) : (r.register rule severity).Covers (entries ++ [(rule, severity)]) := by
  have hindices : ∀ type, (r.register rule severity).dispatch.indices type =
      r.dispatch.indices type ++ if type ∈ rule.listeners then [r.rules.size] else [] := by
    intro type
    simp only [Runner.register, if_neg hon]
    exact Dispatch.indices_foldl_enter hnodup
  have hrules : (r.register rule severity).rules = r.rules.push (rule, severity) := by
    simp [Runner.register, hon]
  refine ⟨fun type i hi => ?_, fun type => ?_⟩
  · rw [hindices] at hi
    rw [hrules, Array.size_push]
    rcases List.mem_append.mp hi with hi | hi
    · exact Nat.lt_succ_of_lt (h.lt_size type i hi)
    · split at hi
      · rw [List.mem_singleton.mp hi]
        exact Nat.lt_succ_self _
      · cases hi
  · have hold : (r.dispatch.indices type).filterMap ((r.rules.push (rule, severity))[·]?) =
        r.listening type := by
      refine List.filterMap_congr fun i hi => ?_
      rw [Array.getElem?_push, if_neg (Nat.ne_of_lt (h.lt_size type i hi))]
    rw [Runner.listening, hindices, hrules, List.filterMap_append, hold, h.listening,
      List.filter_append]
    by_cases hlistens : type ∈ rule.listeners <;> simp [hlistens]

/-- The rules that the settings leave on, each with its severity. -/
def enabled (s : Settings) (rules : List Rule) : List (Rule × Severity) :=
  (rules.map fun rule => (rule, s.severityOf rule.name rule.severity)).filter (·.2 ≠ .off)

theorem covers_registerAll (s : Settings) {before : List (Rule × Severity)} (h : r.Covers before)
    (rules : List Rule) (hnodup : ∀ rule ∈ rules, rule.listeners.Nodup) :
    (registerAll s rules r).Covers (before ++ enabled s rules) := by
  induction rules generalizing r before with
  | nil => simpa [registerAll, enabled] using h
  | cons rule rules ih =>
    have hrest : ∀ rule ∈ rules, rule.listeners.Nodup :=
      fun rule hrule => hnodup rule (List.mem_cons_of_mem _ hrule)
    have hstep : registerAll s (rule :: rules) r =
        registerAll s rules (r.register rule (s.severityOf rule.name rule.severity)) := rfl
    rw [hstep]
    by_cases hoff : s.severityOf rule.name rule.severity = .off
    · have hskip : r.register rule (s.severityOf rule.name rule.severity) = r := by
        simp [Runner.register, hoff]
      rw [hskip]
      simpa [enabled, hoff] using ih h hrest
    · have hnext := ih (h.register (hnodup rule List.mem_cons_self) hoff) hrest
      simpa [enabled, hoff] using hnext

theorem options_registerAll (s : Settings) (rules : List Rule) :
    (registerAll s rules r).options = r.options := by
  induction rules generalizing r with
  | nil => rfl
  | cons rule rules ih =>
    have hstep : (r.register rule (s.severityOf rule.name rule.severity)).options = r.options := by
      unfold register
      split <;> rfl
    exact ih.trans hstep

end Runner

namespace Settings

variable {s s' : Settings} {options : Options} {d : Document} {id : NodeId} {rule : Rule}
  {g : Diagnostic} {r : String}

/-- What a rule reports of a node, if it is on and looks at nodes of its type. -/
def answer (s : Settings) (options : Options) (d : Document) (id : NodeId) (rule : Rule) :
    Option Diagnostic :=
  let severity := s.severityOf rule.name rule.severity
  if severity ≠ .off ∧ d.tree.nodeType id ∈ rule.listeners then
    rule.diagnose options severity d id
  else none

/-- What is reported when node by node every rule is asked. -/
def answers (s : Settings) (options : Options) (d : Document) : List Diagnostic :=
  d.tree.preorder.flatMap fun id => Rules.all.filterMap (s.answer options d id)

theorem nodup_listeners : ∀ rule ∈ Rules.all, rule.listeners.Nodup := by decide

theorem visit_ofSettings (s : Settings) (options : Options) (d : Document) (id : NodeId) :
    (Runner.ofSettings options s).visit d id = Rules.all.filterMap (s.answer options d id) := by
  have hcovers := Runner.covers_registerAll s (Runner.covers_empty options) Rules.all
    nodup_listeners
  have hlistening := hcovers.listening (d.tree.nodeType id)
  have hvisit : (Runner.ofSettings options s).visit d id =
      ((Runner.ofSettings options s).listening (d.tree.nodeType id)).filterMap
        fun entry => entry.1.diagnose options entry.2 d id := by
    have hoptions : (Runner.ofSettings options s).options = options :=
      Runner.options_registerAll s Rules.all
    rw [Runner.listening, List.filterMap_filterMap, Runner.visit, hoptions]
  rw [hvisit, Runner.ofSettings, hlistening, List.nil_append, Runner.enabled, List.filter_filter,
    List.filterMap_filter, List.filterMap_map]
  refine List.filterMap_congr fun rule _ => ?_
  simp only [answer, Function.comp_apply, Bool.and_eq_true, decide_eq_true_eq, and_comm]

/-- A runner gives what every rule says of every node, in the order of the places. -/
theorem run_ofSettings (s : Settings) (options : Options) (d : Document) :
    (Runner.ofSettings options s).run d =
      (s.answers options d).mergeSort fun a b => a.span.start ≤ b.span.start := by
  have hvisit : (Runner.ofSettings options s).visit d =
      fun id => Rules.all.filterMap (s.answer options d id) :=
    funext (visit_ofSettings s options d)
  rw [Runner.run, hvisit, answers]

theorem diagnose_of_answer (h : s.answer options d id rule = some g) :
    rule.diagnose options (s.severityOf rule.name rule.severity) d id = some g := by
  unfold answer at h
  simp only at h
  split at h
  · exact h
  · cases h

theorem rule_of_answer (h : s.answer options d id rule = some g) : g.rule = rule.name := by
  obtain ⟨report, -, rfl⟩ := Option.map_eq_some_iff.mp (diagnose_of_answer h)
  rfl

/-- Settings that give every rule the same severity but one. -/
def AgreeExcept (r : String) (s s' : Settings) : Prop :=
  ∀ name, name ≠ r → ∀ default, s'.severityOf name default = s.severityOf name default

theorem agreeExcept_setSeverity (s : Settings) (r : String) (severity : Severity) :
    AgreeExcept r s (s.setSeverity r severity) := by
  intro name hne default
  have hlookup : ∀ overrides : List (String × Severity),
      (overrides.filter (·.1 != r)).lookup name = overrides.lookup name := by
    intro overrides
    induction overrides with
    | nil => rfl
    | cons entry rest ih =>
      obtain ⟨name', severity'⟩ := entry
      by_cases hentry : name' = r
      · simp [hentry, List.lookup_cons, ih, beq_false_of_ne hne]
      · simp [hentry, List.lookup_cons, ih]
  simp only [severityOf, setSeverity, List.lookup_cons, beq_false_of_ne hne, hlookup]

/-- A diagnostic under another severity, if it is of the rule. -/
def recast (r : String) (severity : Severity) (g : Diagnostic) : Diagnostic :=
  if g.rule = r then { g with severity } else g

theorem span_recast (r : String) (severity : Severity) (g : Diagnostic) :
    (recast r severity g).span = g.span := by
  unfold recast
  split <;> rfl

theorem answer_eq_of_ne (h : AgreeExcept r s s') (hne : rule.name ≠ r) :
    s'.answer options d id rule = s.answer options d id rule := by
  simp only [answer, h rule.name hne]

theorem filter_answers (h : AgreeExcept r s s') (options : Options) (d : Document) :
    (s'.answers options d).filter (·.rule ≠ r) = (s.answers options d).filter (·.rule ≠ r) := by
  simp only [answers, List.filter_flatMap, List.filter_filterMap]
  refine List.flatMap_congr fun id _ => List.filterMap_congr fun rule _ => ?_
  by_cases hname : rule.name = r
  · have hnone : ∀ s : Settings, (s.answer options d id rule).filter (·.rule ≠ r) = none := by
      intro s
      refine Option.filter_eq_none_iff.mpr fun g hg => ?_
      simp [rule_of_answer hg, hname]
    rw [hnone, hnone]
  · rw [answer_eq_of_ne h hname]

theorem eq_of_name_eq {rule rule' : Rule} (h : rule ∈ Rules.all) (h' : rule' ∈ Rules.all)
    (hname : rule.name = rule'.name) : rule = rule' := by
  have hnodup : (Rules.all.map (·.name)).Nodup := by decide
  exact List.inj_on_of_nodup_map hnodup h h' hname

theorem rule_ne_of_mem_answers (hrule : rule ∈ Rules.all)
    (hoff : s.severityOf rule.name rule.severity = .off) (hg : g ∈ s.answers options d) :
    g.rule ≠ rule.name := by
  obtain ⟨id, -, hg⟩ := List.mem_flatMap.mp hg
  obtain ⟨rule', hrule', hanswer⟩ := List.mem_filterMap.mp hg
  intro hname
  obtain rfl := eq_of_name_eq hrule hrule' (hname.symm.trans (rule_of_answer hanswer))
  simp [answer, hoff] at hanswer

theorem answers_eq_map_recast (h : AgreeExcept rule.name s s') (hrule : rule ∈ Rules.all)
    (hon : s.severityOf rule.name rule.severity ≠ .off)
    (hon' : s'.severityOf rule.name rule.severity ≠ .off) :
    s'.answers options d = (s.answers options d).map
      (recast rule.name (s'.severityOf rule.name rule.severity)) := by
  simp only [answers, List.map_flatMap, List.map_filterMap]
  refine List.flatMap_congr fun id _ => List.filterMap_congr fun rule' hrule' => ?_
  by_cases hname : rule'.name = rule.name
  · obtain rfl := eq_of_name_eq hrule hrule' hname.symm
    simp only [answer, hon, hon', ne_eq, not_false_eq_true, true_and]
    split
    · simp [Rule.diagnose, recast, Option.map_map, Function.comp_def]
    · rfl
  · rw [answer_eq_of_ne h hname]
    cases hanswer : s.answer options d id rule' with
    | none => rfl
    | some g => simp [recast, rule_of_answer hanswer, hname]

/-- What one rule's severity means for a run of the rules. -/
structure Independent (r : String) (s s' : Settings) (options : Options) (d : Document) :
    Prop where
  /-- The other rules report the same, in the same order. -/
  others : ((Runner.ofSettings options s').run d).filter (·.rule ≠ r) =
    ((Runner.ofSettings options s).run d).filter (·.rule ≠ r)
  /-- A rule that is switched off reports nothing. -/
  off : ∀ rule ∈ Rules.all, rule.name = r → s.severityOf r rule.severity = .off →
    ∀ g ∈ (Runner.ofSettings options s).run d, g.rule ≠ r
  /-- Where it is on, its severity shows in its diagnostics and nowhere else. -/
  on : ∀ rule ∈ Rules.all, rule.name = r → s.severityOf r rule.severity ≠ .off →
    s'.severityOf r rule.severity ≠ .off →
    (Runner.ofSettings options s').run d =
      ((Runner.ofSettings options s).run d).map (recast r (s'.severityOf r rule.severity))
  /-- A run is what every rule says of every node, in the order of the places. -/
  sorted : (Runner.ofSettings options s).run d =
    (s.answers options d).mergeSort fun a b => a.span.start ≤ b.span.start
  /-- That order leaves diagnostics of one place as they come. -/
  stable : StablySorted (·.span.start) (s.answers options d) ((Runner.ofSettings options s).run d)

/-- Rules do not meddle with each other. Whatever the severity of one rule is, the others report the
same in the same order, the rule reports nothing where it is off, and where it is on its severity
shows in its own diagnostics only. A run is what every rule says of every node, in the order of the
places. -/
theorem independent_of_agreeExcept (h : AgreeExcept r s s') (options : Options) (d : Document) :
    Independent r s s' options d := by
  refine ⟨?_, ?_, ?_, run_ofSettings s options d, ?_⟩
  · rw [run_ofSettings, run_ofSettings, filter_mergeSort_key, filter_mergeSort_key,
      filter_answers h]
  · rintro rule hrule rfl hoff g hg
    rw [run_ofSettings, List.mem_mergeSort] at hg
    exact rule_ne_of_mem_answers hrule hoff hg
  · rintro rule hrule rfl hon hon'
    rw [run_ofSettings, run_ofSettings, answers_eq_map_recast h hrule hon hon']
    refine (List.map_mergeSort fun a _ b _ => ?_).symm
    rw [span_recast, span_recast]
  · rw [run_ofSettings]
    exact stablySorted_mergeSort _ _

theorem independent_of_agreeExcept_concat : ∃ tree, parse "a.concat(b)".toList = .ok tree ∧
    ((Runner.ofSettings {} {}).run ⟨"test.ts", "a.concat(b)".toList, tree⟩).any
      (·.rule = "prefer-spread") = true ∧
    Independent "prefer-spread" {} (setSeverity {} "prefer-spread" .error) {}
      ⟨"test.ts", "a.concat(b)".toList, tree⟩ := by
  have hreports : (parse "a.concat(b)".toList).toOption.any (fun tree =>
      ((Runner.ofSettings {} {}).run ⟨"test.ts", "a.concat(b)".toList, tree⟩).any
        (·.rule = "prefer-spread")) = true := by
    decide +kernel
  obtain ⟨tree, htree, hreports⟩ := exists_tree_of_any hreports
  exact ⟨tree, htree, hreports,
    independent_of_agreeExcept (agreeExcept_setSeverity {} "prefer-spread" .error) {} _⟩

end Settings
end ScriptLint
