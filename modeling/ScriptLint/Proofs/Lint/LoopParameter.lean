import ScriptLint.Proofs.Lint.ArrayLoop
import ScriptLint.Proofs.Lint.Legacy
import ScriptLint.Proofs.Token.Embedded

namespace ScriptLint

namespace Lexeme

/-- A word is cut in one piece. -/
theorem cut_of_isWord {name : String} (hname : IsWord name.toList)
    (hkeyword : Keyword.ofSpelling? name = none) :
    cut name.toList = some (.token (.identifier name), name.toList, []) := by
  obtain ⟨c, rest, htext, hstart, hparts⟩ := hname
  have hall : (c :: rest).all isNamePart = true := by simp [isNamePart, hstart, hparts]
  have hend : ∀ c ∈ ([] : List Char).head?, isNamePart c = false := by simp
  have hrun := run_of_all hall hend
  rw [List.append_nil] at hrun
  rcases htext with htext | htext
  · have hspelling : String.ofList (c :: rest) = name := by
      rw [← htext, String.ofList_toList]
    rw [htext, cut_of_nameStart hstart]
    simp [word, hrun, hspelling, hkeyword]
  · rw [htext, cut_of_private hstart, hrun, ← htext, String.ofList_toList]

end Lexeme

/-- A word that is not reserved is read as one name. -/
theorem tokenize_of_isWord {name : String} (hname : Lexeme.IsWord name.toList)
    (hkeyword : Keyword.ofSpelling? name = none) :
    (tokenize name.toList).map (·.map (·.1)) = .ok [.identifier name, .eof] := by
  have hcut := Lexeme.cut_of_isWord hname hkeyword
  have hpos : 0 < name.toList.length := by
    obtain ⟨c, rest, htext | htext, -⟩ := hname <;> simp [htext]
  obtain ⟨n, hn⟩ := Nat.exists_eq_succ_of_ne_zero hpos.ne'
  have hscan : scan name.toList = (Scan.finished (Position.origin.after name.toList)).withToken
      (.identifier name) (.between .origin (Position.origin.after name.toList)) := by
    have hend : Lexeme.cut [] = none := rfl
    simp only [scan, hn, Scan.fromPlace, hcut, hend]
  unfold tokenize
  rw [hscan]
  rfl

theorem isWord_of_isPlainName {name : String} (h : isPlainName name = true) :
    Lexeme.IsWord name.toList := by
  unfold isPlainName at h
  split at h
  · cases h
  · next c rest htext =>
    rw [Bool.and_eq_true] at h
    exact ⟨c, rest, .inl htext, h.1, h.2⟩

theorem Lexeme.IsWord.append {name suffix : List Char} (h : IsWord name)
    (hsuffix : suffix.all isNamePart = true) : IsWord (name ++ suffix) := by
  obtain ⟨c, rest, htext, hstart, hparts⟩ := h
  refine ⟨c, rest ++ suffix, htext.imp ?_ ?_, hstart, by simp [hparts, hsuffix]⟩
  · rintro rfl
    rfl
  · rintro rfl
    rfl

/-- The words that the scanner reserves cannot name a parameter. -/
theorem spelling_mem_reservedWords (k : Keyword) : k.spelling ∈ reservedWords := by
  cases k <;> decide

theorem not_item_suffix_spelling (k : Keyword) : ¬ "Item".toList <:+ k.spelling.toList := by
  cases k <;> decide

theorem isFreeName_iff {used : List String} {name : String} : isFreeName used name = true ↔
    isPlainName name = true ∧ name ∉ reservedWords ∧ name ∉ used := by
  simp [isFreeName, and_assoc]

/-- A name that may be given to a parameter is no keyword. -/
theorem ofSpelling?_of_isFreeName {used : List String} {name : String}
    (h : isFreeName used name = true) : Keyword.ofSpelling? name = none := by
  obtain ⟨-, hreserved, -⟩ := isFreeName_iff.mp h
  by_contra hkeyword
  obtain ⟨k, hk⟩ := Option.ne_none_iff_exists'.mp hkeyword
  exact hreserved (Keyword.spelling_of_ofSpelling? hk ▸ spelling_mem_reservedWords k)

/-- The name made from a counter is no keyword. -/
theorem ofSpelling?_append_item (counter : String) :
    Keyword.ofSpelling? (counter ++ "Item") = none := by
  by_contra hkeyword
  obtain ⟨k, hk⟩ := Option.ne_none_iff_exists'.mp hkeyword
  apply not_item_suffix_spelling k
  rw [Keyword.spelling_of_ofSpelling? hk, String.toList_append]
  exact List.suffix_append _ _

namespace Tree

variable {t : Tree} {array : NodeId} {counter : String} {used : List String}

/-- The parameter has a name that none of those in use is, unless all the general names are in use
and it has the name made from the counter. -/
theorem isFreeName_parameterName_or (t : Tree) (array : NodeId) (counter : String)
    (used : List String) :
    isFreeName (counter :: used) (t.parameterName array counter used) = true ∨
      t.parameterName array counter used = counter ++ "Item" ∧
        ∀ name ∈ ["item", "element", "entry"], name ∈ counter :: used := by
  unfold parameterName
  simp only
  cases hsingular : (((t.lastName? array).bind (singularize? ·.toList)).map String.ofList).filter
      (isFreeName (counter :: used)) with
  | some name => exact .inl (Option.filter_eq_some_iff.mp hsingular).2
  | none =>
    cases hgeneral : ["item", "element", "entry"].find? (isFreeName (counter :: used)) with
    | some name => exact .inl (List.find?_some hgeneral)
    | none =>
      refine .inr ⟨rfl, fun name hname => ?_⟩
      have hplain : ∀ name ∈ ["item", "element", "entry"],
          isPlainName name = true ∧ name ∉ reservedWords := by decide
      have hfree := List.find?_eq_none.mp hgeneral name hname
      rw [isFreeName_iff] at hfree
      by_contra hunused
      exact hfree ⟨(hplain name hname).1, (hplain name hname).2, hunused⟩

end Tree

namespace Document

variable {d : Document} {method : ArrayMethod} {id init test update body : NodeId} {l : ArrayLoop}

/-- The names in the tests are those of their identifiers, except for the counter. -/
theorem mem_names_iff {t : Tree} {name : String} : name ∈ l.names t ↔
    name ≠ l.counter ∧ ∃ i ∈ l.inside t, t.identifierName? i = some name := by
  simp [ArrayLoop.names, and_comm]

/-- In the tree of a text that parses the counter of a loop is a word: it is read in the test of
the loop. -/
theorem Counts.isWord_counter {source : List Char} {t : Tree} {path : String}
    (h : parse source = .ok t)
    (hcounts : (Document.mk path source t).Counts id init test update body l) :
    Lexeme.IsWord l.counter.toList := by
  obtain ⟨p, hp⟩ := hcounts.exists_parent
  obtain ⟨root, hroot, hfits⟩ := fits_of_parse h
  obtain ⟨root', hroot', hreaches⟩ := (Tree.reachable_of_parent h hp).1
  cases hroot.symm.trans hroot'
  obtain ⟨left, right, hnode, hname⟩ := hcounts.exists_bound
  have hleft : left ∈ t.children test := by
    simp [Tree.children, hnode, Node.children]
  have hspelled : t.Spelled source left :=
    hfits.spelled_child (hreaches.tail hcounts.test_mem_children) hleft
      fun bound => by rw [hnode]; rfl
  unfold Tree.identifierName? at hname
  split at hname
  · next ident hident =>
    obtain ⟨r, -, hword⟩ := hspelled ident hident
    rw [← Option.some.inj hname]
    exact hword.isWord
  · cases hname

/-- The parameter of a loop in a text that parses is a word, and no keyword. -/
theorem Counts.isWord_param {source : List Char} {t : Tree} {path : String}
    (h : parse source = .ok t)
    (hcounts : (Document.mk path source t).Counts id init test update body l) :
    Lexeme.IsWord l.param.toList ∧ Keyword.ofSpelling? l.param = none := by
  rw [hcounts.param]
  rcases t.isFreeName_parameterName_or l.array l.counter (l.names t) with hfree | ⟨hmade, -⟩
  · exact ⟨isWord_of_isPlainName (isFreeName_iff.mp hfree).1, ofSpelling?_of_isFreeName hfree⟩
  · rw [hmade, String.toList_append]
    exact ⟨(hcounts.isWord_counter h).append (by decide), ofSpelling?_append_item _⟩

/-- The parameter is not the counter. -/
theorem Counts.param_ne_counter (h : d.Counts id init test update body l) : l.param ≠ l.counter := by
  rw [h.param]
  rcases d.tree.isFreeName_parameterName_or l.array l.counter (l.names d.tree) with hfree | ⟨hmade, -⟩
  · obtain ⟨-, -, hunused⟩ := isFreeName_iff.mp hfree
    exact fun heq => hunused (List.mem_cons.mpr (.inl heq))
  · rw [hmade]
    intro heq
    have hlength := congrArg String.length heq
    rw [String.length_append] at hlength
    have hitem : "Item".length = 4 := by decide
    omega

/-- The parameter of a loop in a text that parses is read as one name and is not the counter. If
it is the name of an identifier in a test, then it was made from the counter because every general
name is used there. -/
theorem param_of_arrayLoop? {source : List Char} {t : Tree} {path : String}
    (h : parse source = .ok t) (hloop : (Document.mk path source t).arrayLoop? method id = some l) :
    (tokenize l.param.toList).map (·.map (·.1)) = .ok [.identifier l.param, .eof] ∧
      l.param ≠ l.counter ∧
      ∀ i ∈ l.inside t, t.identifierName? i = some l.param → l.param = l.counter ++ "Item" ∧
        ∀ name ∈ ["item", "element", "entry"],
          name = l.counter ∨ ∃ j ∈ l.inside t, t.identifierName? j = some name := by
  obtain ⟨-, init, test, update, body, hcounts⟩ := exists_counts_of_arrayLoop? hloop
  obtain ⟨hword, hkeyword⟩ := hcounts.isWord_param h
  refine ⟨tokenize_of_isWord hword hkeyword, hcounts.param_ne_counter, ?_⟩
  have hparam := hcounts.param
  rcases t.isFreeName_parameterName_or l.array l.counter (l.names t) with hfree | ⟨hmade, hused⟩
  · rw [← hparam] at hfree
    obtain ⟨-, -, hunused⟩ := isFreeName_iff.mp hfree
    rw [List.mem_cons, not_or] at hunused
    intro i hi hname
    exact absurd (mem_names_iff.mpr ⟨hunused.1, i, hi, hname⟩) hunused.2
  · rw [← hparam] at hmade
    refine fun _ _ _ => ⟨hmade, fun name hname => ?_⟩
    exact (List.mem_cons.mp (hused name hname)).imp_right fun hmem => (mem_names_iff.mp hmem).2

/-- The singular of the array's name is used in the test, so the parameter has another name. -/
theorem param_of_arrayLoop?_used : ∃ source t id l,
    source = ("for (let i = 0; i < items.length; i++) \x7b " ++
      "if (items[i] === item) return false; \x7d return true;").toList ∧
    parse source = .ok t ∧ (Document.mk "" source t).arrayLoop? .every id = some l ∧
    l.param = "element" ∧
    (tokenize l.param.toList).map (·.map (·.1)) = .ok [.identifier l.param, .eof] ∧
      l.param ≠ l.counter ∧
      ∀ i ∈ l.inside t, t.identifierName? i = some l.param → l.param = l.counter ++ "Item" ∧
        ∀ name ∈ ["item", "element", "entry"],
          name = l.counter ∨ ∃ j ∈ l.inside t, t.identifierName? j = some name := by
  obtain ⟨source, hsource, hfound⟩ : ∃ source,
      source = ("for (let i = 0; i < items.length; i++) \x7b " ++
        "if (items[i] === item) return false; \x7d return true;").toList ∧
      hasLoop .every (fun _ l => l.param == "element") source = true :=
    ⟨_, rfl, by decide +kernel⟩
  obtain ⟨t, id, l, hparse, hloop, hparam⟩ := exists_arrayLoop_of_hasLoop hfound
  exact ⟨source, t, id, l, hsource, hparse, hloop, beq_iff_eq.mp hparam,
    param_of_arrayLoop? hparse hloop⟩

/-- The name made from the counter is given to the parameter although the test uses it: all the
general names are used too, and it is the last one that is tried. -/
theorem not_param_unused : ¬ ∀ (source : List Char) (t : Tree) (path : String)
    (method : ArrayMethod) (id : NodeId) (l : ArrayLoop), parse source = .ok t →
      (Document.mk path source t).arrayLoop? method id = some l →
      ∀ i ∈ l.inside t, t.identifierName? i ≠ some l.param := by
  intro hunused
  obtain ⟨source, hfound⟩ : ∃ source, hasLoop .every (fun t l => (l.inside t).any fun i =>
      t.identifierName? i == some l.param) source = true :=
    ⟨("for (let i = 0; i < a.length; i++) \x7b " ++
      "if (a[i] === item || element || entry || iItem) return false; \x7d return true;").toList,
      by decide +kernel⟩
  obtain ⟨t, id, l, hparse, hloop, hused⟩ := exists_arrayLoop_of_hasLoop hfound
  obtain ⟨i, hi, hname⟩ := List.any_eq_true.mp hused
  exact hunused source t "" .every id l hparse hloop i hi (beq_iff_eq.mp hname)

end Document

end ScriptLint
