import ScriptLint.Lint.Document
import ScriptLint.Proofs.Parse.Integrity
import ScriptLint.Proofs.Source.Lines

namespace ScriptLint

/-- In the tree of a text that parses the range of every node lies on the text. -/
theorem on_of_parse {source : List Char} {t : Tree} (h : parse source = .ok t) {i : NodeId}
    (hi : t.Reachable i) : ∃ r, t.range i = some r ∧ r.On source := by
  obtain ⟨t₀, root, kids, rfl, hroot, -, hplanted⟩ := Parse.exists_forest_of_parse h
  have hsame := Tree.relinked_linkParents hroot
  rw [hsame.reachable] at hi
  obtain ⟨root', hroot', hreaches⟩ := hi
  cases hroot.symm.trans hroot'
  obtain ⟨lo, hi, kids', hsub⟩ := hplanted.subtree (hplanted.follows.mem_preorder_iff.mpr hreaches)
  obtain ⟨e, r, hentry, hrange, hon, -⟩ := hsub.entry
  exact ⟨r, by rw [hsame.range, Tree.range_of_entry hentry, hrange], hon⟩

/-- The spans that are looked up in a text by their offsets. The scanner and the fixes look up the
line of an offset each in their own way. -/
structure SpansAgree (source : List Char) : Prop where
  /-- Between two places of the text both find the span of the characters before them. Its line is
  found by the line feeds before it, its column by the characters since the last of them. -/
  places : ∀ start stop before upTo, takeBytes start source = some before →
    takeBytes stop source = some upTo →
      tokenSpan? source start stop = some (spanAt source start stop) ∧
      spanAt source start stop =
        .between (Position.origin.after before) (Position.origin.after upTo) ∧
      (spanAt source start stop).line = 1 + before.count '\n' ∧
      (spanAt source start stop).column = 1 + (lastLine before).length
  /-- The span of a token is the one that both find between its offsets. -/
  tokens : ∀ tokens, tokenize source = .ok tokens → ∀ a ∈ tokens,
    tokenSpan? source a.2.start a.2.stop = some a.2 ∧ spanAt source a.2.start a.2.stop = a.2
  /-- The range of a node is that span, and so is what a fix replaces that is for the whole node. -/
  nodes : ∀ t, parse source = .ok t → ∀ i, t.Reachable i → ∃ r, t.range i = some r ∧
    tokenSpan? source r.start r.stop = some r ∧ spanAt source r.start r.stop = r ∧
    ∀ path replacement,
      ({ path, source, tree := t } : Document).replace? i replacement = some ⟨r, replacement⟩

/-- A fix for a whole node replaces its range, if that lies on the text. -/
theorem Document.replace?_of_on {d : Document} {i : NodeId} {r : Span}
    (hr : d.tree.range i = some r) (hon : r.On d.source) (replacement : List Char) :
    d.replace? i replacement = some ⟨r, replacement⟩ := by
  have hslice : (slice? d.source r.start r.stop).isSome := by
    refine slice?_isSome_of_position? hon.start_le_stop ?_ hon.position_stop_isSome
    rw [hon.position_start, Option.isSome_some]
  obtain ⟨text, htext⟩ := Option.isSome_iff_exists.mp hslice
  rw [replace?, hr, Option.bind_some, replaceRange?, htext, Option.map_some, hon.spanAt_eq]

/-- In every text the scanner and the fixes look up the same spans: between any two places the line
counts the line feeds before the first and the column the characters since the last of them; tokens
and nodes have the spans between their offsets, and a fix for a whole node replaces the node's range. -/
theorem spansAgree (source : List Char) : SpansAgree source where
  places start stop before upTo hbefore hupTo := by
    obtain ⟨after, rfl, rfl⟩ := exists_of_takeBytes hbefore
    obtain ⟨rest, -, rfl⟩ := exists_of_takeBytes hupTo
    rw [tokenSpan?_byteLength, spanAt_byteLength, after_origin, after_origin]
    exact ⟨rfl, rfl, rfl, rfl⟩
  tokens tokens h a ha := by
    obtain ⟨i, hi⟩ := List.mem_iff_getElem?.mp ha
    have hon := ((tokenize_placed h).token hi).1.span_on
    exact ⟨hon.tokenSpan?_eq, hon.spanAt_eq⟩
  nodes t h i hi := by
    obtain ⟨r, hr, hon⟩ := on_of_parse h hi
    exact ⟨r, hr, hon.tokenSpan?_eq, hon.spanAt_eq, fun path replacement =>
      Document.replace?_of_on (d := { path, source, tree := t }) hr hon replacement⟩

/-- After a line feed and a character of two bytes a token stands in the seventh column of the second
line, by its own span as by both searches. -/
theorem spansAgree_secondLine : ∃ source tokens a t i r,
    source = "x =\n'é' + y;".toList ∧ tokenize source = .ok tokens ∧ a ∈ tokens ∧
    a.2 = ⟨11, 12, 2, 7⟩ ∧ tokenSpan? source 11 12 = some a.2 ∧ spanAt source 11 12 = a.2 ∧
    parse source = .ok t ∧ t.Reachable i ∧ t.range i = some r ∧
    tokenSpan? source r.start r.stop = some r := by
  obtain ⟨source, hsource, ⟨hbefore, hupTo⟩, hspan, hfound, htree⟩ : ∃ source,
      source = "x =\n'é' + y;".toList ∧
      (takeBytes 11 source = some "x =\n'é' + ".toList ∧
        takeBytes 12 source = some "x =\n'é' + y".toList) ∧
      Span.between (Position.origin.after "x =\n'é' + ".toList)
        (Position.origin.after "x =\n'é' + y".toList) = ⟨11, 12, 2, 7⟩ ∧
      (tokenize source).toOption.any (·.any (·.2 == ⟨11, 12, 2, 7⟩)) = true ∧
      (parse source).toOption.any (fun t => !t.preorder.isEmpty) = true :=
    ⟨_, rfl, by decide +kernel, by decide +kernel, by decide +kernel, by decide +kernel⟩
  obtain ⟨t, ht, hne⟩ := exists_tree_of_any htree
  obtain ⟨i, hi⟩ := List.exists_mem_of_ne_nil t.preorder (by simpa using hne)
  have hi := (Tree.mem_preorder_iff.mp hi).2
  obtain ⟨r, hr, hlookup, -⟩ := (spansAgree source).nodes t ht i hi
  obtain ⟨hagree, hplace, -⟩ := (spansAgree source).places 11 12 _ _ hbefore hupTo
  rw [hspan] at hplace
  rw [hplace] at hagree
  obtain ⟨tokens, htokens, hany⟩ := (Option.any_eq_true _ _).mp hfound
  obtain ⟨a, ha, haspan⟩ := List.any_eq_true.mp hany
  have haspan := beq_iff_eq.mp haspan
  refine ⟨source, tokens, a, t, i, r, hsource, ?_, ha, haspan, ?_, ?_, ht, hi, hr, hlookup⟩
  · cases htokenize : tokenize source with
    | ok tokens' =>
      rw [htokenize] at htokens
      exact congrArg _ (Option.some.inj htokens)
    | error _ =>
      rw [htokenize] at htokens
      cases htokens
  · rw [haspan, hagree]
  · rw [haspan, hplace]

end ScriptLint
