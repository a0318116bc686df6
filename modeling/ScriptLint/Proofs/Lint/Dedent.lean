import ScriptLint.Proofs.Lint.Rebinding
import ScriptLint.Proofs.Token.Wording

namespace ScriptLint

/-- Characters of an indentation. -/
def isIndent (c : Char) : Bool := c == ' ' || c == '\t'

theorem isBlank_of_isIndent {c : Char} (h : isIndent c = true) : Lexeme.isBlank c = true := by
  simp only [isIndent, Bool.or_eq_true, beq_iff_eq] at h
  rcases h with rfl | rfl <;> decide

/-- The second text is the first one with some of its lines moved from `indent` and `unit` to
`indent`. -/
inductive Dedents (indent unit : List Char) : List Char → List Char → Prop where
  | nil : Dedents indent unit [] []
  | keep (c : Char) {text text' : List Char} (h : Dedents indent unit text text') :
      Dedents indent unit (c :: text) (c :: text')
  | drop {text text' : List Char} (h : Dedents indent unit text text') :
      Dedents indent unit ('\n' :: (indent ++ unit ++ text)) ('\n' :: (indent ++ text'))

namespace Dedents

variable {indent unit a a' b rest rest' out text text' : List Char}

theorem keep_append (h : Dedents indent unit text text') (front : List Char) :
    Dedents indent unit (front ++ text) (front ++ text') := by
  induction front with
  | nil => exact h
  | cons c front ih => exact .keep c ih

theorem refl (indent unit text : List Char) : Dedents indent unit text text := by
  simpa using (show Dedents indent unit [] [] from .nil).keep_append text

theorem head?_eq (h : Dedents indent unit text text') : text'.head? = text.head? := by
  cases h <;> rfl

theorem tail (h : Dedents indent unit text out) {c : Char} (hc : c ≠ '\n')
    (htext : text = c :: rest) : ∃ rest', out = c :: rest' ∧ Dedents indent unit rest rest' := by
  cases h with
  | nil => cases htext
  | keep d h =>
    cases htext
    exact ⟨_, rfl, h⟩
  | drop h =>
    cases htext
    exact absurd rfl hc

/-- Where nothing that is removed stands on both sides of a seam, the two sides are changed apart. -/
theorem split (h : Dedents indent unit (a ++ b) out)
    (hseam : ∀ x y z w, a = x ++ '\n' :: y → b = z ++ w → y ++ z = indent ++ unit → z = []) :
    ∃ a' b', out = a' ++ b' ∧ Dedents indent unit a a' ∧ Dedents indent unit b b' := by
  generalize htext : a ++ b = text at h
  induction h generalizing a with
  | nil =>
    obtain ⟨rfl, rfl⟩ := List.append_eq_nil_iff.mp htext
    exact ⟨[], [], rfl, .nil, .nil⟩
  | @keep c text text' h ih =>
    cases a with
    | nil =>
      rw [List.nil_append] at htext
      subst htext
      exact ⟨[], _, rfl, .nil, .keep c h⟩
    | cons d a =>
      rw [List.cons_append, List.cons.injEq] at htext
      obtain ⟨rfl, htext⟩ := htext
      obtain ⟨a', b', rfl, ha, hb⟩ :=
        ih (fun x y z w ha => hseam (d :: x) y z w (by rw [ha]; rfl)) htext
      exact ⟨d :: a', b', rfl, .keep d ha, hb⟩
  | @drop text text' h ih =>
    cases a with
    | nil =>
      rw [List.nil_append] at htext
      subst htext
      exact ⟨[], _, rfl, .nil, .drop h⟩
    | cons d a =>
      rw [List.cons_append, List.cons.injEq] at htext
      obtain ⟨rfl, htext⟩ := htext
      rcases List.append_eq_append_iff.mp htext with ⟨z, hunit, rfl⟩ | ⟨z, rfl, rfl⟩
      · obtain rfl := hseam [] a z text rfl rfl hunit.symm
        rw [List.append_nil] at hunit
        subst hunit
        refine ⟨'\n' :: indent, text', rfl, ?_, h⟩
        simpa using (show Dedents indent unit [] [] from .nil).drop
      · obtain ⟨a', b', rfl, ha, hb⟩ := ih (fun x y z' w hx => hseam
          ('\n' :: (indent ++ unit ++ x)) y z' w (by rw [hx]; simp)) rfl
        exact ⟨'\n' :: (indent ++ a'), b', by simp, .drop ha, hb⟩

/-- Two sides are changed apart where the second one begins with something else than a blank. -/
theorem split_begins (h : Dedents indent unit (a ++ b) out)
    (hindent : (indent ++ unit).all isIndent = true) (hb : ∀ c ∈ b.head?, Lexeme.isBlank c = false) :
    ∃ a' b', out = a' ++ b' ∧ Dedents indent unit a a' ∧ Dedents indent unit b b' := by
  refine h.split fun x y z w _ hz hyz => ?_
  cases z with
  | nil => rfl
  | cons c z =>
    have hc : isIndent c = true := List.all_eq_true.mp hindent c (by simp [← hyz])
    have hsolid := hb c (by simp [hz])
    rw [isBlank_of_isIndent hc] at hsolid
    cases hsolid

/-- Or where the first one ends so. -/
theorem split_ends (h : Dedents indent unit (a ++ b) out)
    (hindent : (indent ++ unit).all isIndent = true) (ha : Lexeme.EndsSolid a) :
    ∃ a' b', out = a' ++ b' ∧ Dedents indent unit a a' ∧ Dedents indent unit b b' := by
  refine h.split fun x y z w hxy _ hyz => ?_
  have hne : '\n' :: y ≠ [] := List.cons_ne_nil _ _
  have hsolid := ha (('\n' :: y).getLast hne)
    (by rw [hxy, List.getLast?_append, List.getLast?_eq_some_getLast hne]; rfl)
  have hblank : ∀ c ∈ '\n' :: y, Lexeme.isBlank c = true := by
    intro c hc
    rcases List.mem_cons.mp hc with rfl | hc
    · decide
    · refine isBlank_of_isIndent (List.all_eq_true.mp hindent c ?_)
      rw [← hyz]
      exact List.mem_append_left z hc
  rw [hblank _ (List.getLast_mem hne)] at hsolid
  cases hsolid

/-- A text in which nothing that is removed stands stays as it is. -/
theorem eq_of_not_infix (h : Dedents indent unit text text')
    (hkept : ¬ '\n' :: (indent ++ unit) <:+: text) : text' = text := by
  induction h with
  | nil => rfl
  | @keep c text text' _ ih =>
    rw [ih fun hin => hkept (hin.trans (List.suffix_cons c text).isInfix)]
  | @drop text _ _ _ => exact absurd ⟨[], text, rfl⟩ hkept

theorem eq_of_not_mem (h : Dedents indent unit text text') (hline : '\n' ∉ text) : text' = text :=
  h.eq_of_not_infix fun hin => hline (hin.subset List.mem_cons_self)

/-- Up to the first thing that is removed nothing changes, and that stands after a line feed. -/
theorem trims (h : Dedents indent unit text text') (htrim : Lexeme.Trims rest rest') :
    Lexeme.Trims (text ++ rest) (text' ++ rest') := by
  induction h with
  | nil => exact htrim
  | keep c _ ih => exact .keep c ih
  | drop => exact .stop _ (Lexeme.stops_cons (by decide) _)

end Dedents

theorem skipped_of_blank_cons {last : Bool} {c : Char} {gap : List Char}
    (hc : Lexeme.isBlank c = true) (h : Skipped last (c :: gap)) : Skipped last gap := by
  generalize htext : c :: gap = text at h
  cases h with
  | nil => cases htext
  | blank _ hrest =>
    cases htext
    exact hrest
  | line hopening =>
    rcases hopening with rfl | rfl <;> cases htext <;> cases hc
  | block =>
    cases htext
    cases hc
  | openBlock =>
    cases htext
    cases hc

/-- Blanks in front of a gap make no difference. -/
theorem skipped_append_iff {last : Bool} {blanks gap : List Char}
    (hblanks : blanks.all isIndent = true) : Skipped last (blanks ++ gap) ↔ Skipped last gap := by
  induction blanks with
  | nil => rfl
  | cons c blanks ih =>
    rw [List.all_cons, Bool.and_eq_true] at hblanks
    have hc := isBlank_of_isIndent hblanks.1
    rw [List.cons_append, ← ih hblanks.2]
    exact ⟨skipped_of_blank_cons hc, .blank hc⟩

theorem infix_of_infix_append {blanks text : List Char} (hblanks : '*' ∉ blanks)
    (h : ['*', '/'] <:+: blanks ++ text) : ['*', '/'] <:+: text := by
  induction blanks with
  | nil => exact h
  | cons c blanks ih =>
    rw [List.mem_cons, not_or] at hblanks
    rcases List.infix_cons_iff.mp h with hprefix | hin
    · exact absurd (List.cons_prefix_cons.mp hprefix).1 hblanks.1
    · exact ih hblanks.2 hin

/-- The end of a comment does not come about by what is removed. -/
theorem Dedents.infix_of_infix {indent unit text text' : List Char}
    (h : Dedents indent unit text text') (hindent : (indent ++ unit).all isIndent = true)
    (hend : ['*', '/'] <:+: text') : ['*', '/'] <:+: text := by
  induction h with
  | nil => exact hend
  | @keep c text text' h ih =>
    rcases List.infix_cons_iff.mp hend with hprefix | hin
    · obtain ⟨rfl, hslash⟩ := List.cons_prefix_cons.mp hprefix
      obtain ⟨after, hafter⟩ := hslash
      have hhead := h.head?_eq
      rw [← hafter] at hhead
      obtain ⟨before, rfl⟩ := List.head?_eq_some_iff.mp hhead.symm
      exact ⟨[], before, rfl⟩
    · exact (ih hin).trans (List.suffix_cons c text).isInfix
  | @drop text text' h ih =>
    have hstar : '*' ∉ '\n' :: indent := by
      intro hmem
      rcases List.mem_cons.mp hmem with heq | hmem
      · cases heq
      · have hstar := List.all_eq_true.mp hindent '*' (List.mem_append_left unit hmem)
        cases hstar
    have hin := ih (infix_of_infix_append hstar hend)
    exact hin.trans ⟨'\n' :: (indent ++ unit), [], by simp⟩

/-- A gap is a gap also when its lines are moved out. -/
theorem Dedents.skipped {indent unit gap gap' : List Char} {last : Bool}
    (h : Dedents indent unit gap gap') (hindent : (indent ++ unit).all isIndent = true)
    (hgap : Skipped last gap) : Skipped last gap' := by
  have hsplit : indent.all isIndent = true ∧ unit.all isIndent = true := by
    simpa using hindent
  induction hgap generalizing gap' with
  | nil =>
    cases h
    exact .nil
  | @blank c gap hc hrest ih =>
    cases h with
    | keep _ h => exact .blank hc (ih h)
    | @drop text text' h =>
      have hlater := ih (h.keep_append (indent ++ unit))
      rw [skipped_append_iff hindent, ← skipped_append_iff hsplit.1] at hlater
      exact .blank hc hlater
  | @line opening body rest hopening hbody hend hrest ih =>
    have hline : '\n' ∉ opening ++ body := by
      rcases hopening with rfl | rfl <;> simpa using hbody
    obtain ⟨front, rest', rfl, hfront, hafter⟩ := h.split fun x y z w hx _ _ => by
      rw [hx] at hline
      simp at hline
    rw [hfront.eq_of_not_mem hline]
    refine .line hopening hbody ?_ (ih hafter)
    rw [hafter.head?_eq]
    refine hend.imp_right fun hend => ⟨hend.1, ?_⟩
    rw [hend.2] at hafter
    cases hafter
    rfl
  | @block body rest hbody hrest ih =>
    obtain ⟨_, rfl, hstar⟩ := h.tail (by decide) rfl
    obtain ⟨_, rfl, hcomment⟩ := hstar.tail (by decide) rfl
    rw [List.append_eq, List.append_eq, List.append_assoc] at hcomment
    obtain ⟨body', _, rfl, hinside, hend⟩ := hcomment.split_begins hindent fun c hc => by
      cases hc
      decide
    obtain ⟨_, rfl, hslash⟩ := hend.tail (by decide) rfl
    obtain ⟨_, rfl, hafter⟩ := hslash.tail (by decide) rfl
    have hopen : ¬ ['*', '/'] <:+: body' := fun hin => hbody (hinside.infix_of_infix hindent hin)
    simpa using Skipped.block hopen (ih hafter)
  | @openBlock body hbody hlast =>
    obtain ⟨_, rfl, hstar⟩ := h.tail (by decide) rfl
    obtain ⟨_, rfl, hinside⟩ := hstar.tail (by decide) rfl
    exact .openBlock (fun hin => hbody (hinside.infix_of_infix hindent hin)) hlast

/-- Statements say the same when their lines are moved out, if nothing is removed inside of a
token. -/
theorem Says.dedent {indent unit front front' rest rest' : List Char}
    {said : List (Token × List Char)} (h : Says front said rest)
    (hindent : (indent ++ unit).all isIndent = true) (hfront : Dedents indent unit front front')
    (hrest : Lexeme.Trims rest rest')
    (hkept : ∀ a ∈ said, ¬ '\n' :: (indent ++ unit) <:+: a.2) : Says front' said rest' := by
  induction h generalizing front' with
  | nil =>
    cases hfront
    exact .nil rest'
  | @token gap taken front rest t said hgap htoken _ ih =>
    rw [List.append_assoc] at hfront
    have hbegins : ∀ c ∈ (taken ++ front).head?, Lexeme.isBlank c = false := by
      intro c hc
      refine htoken.begins c ?_
      rwa [List.head?_append_of_ne_nil _ htoken.ne_nil] at hc
    obtain ⟨gap', out, rfl, hgap', hout⟩ := hfront.split_begins hindent hbegins
    obtain ⟨taken', front', rfl, htaken', hfront'⟩ := hout.split_ends hindent htoken.ends
    obtain ⟨hkeep, hkept⟩ := List.forall_mem_cons.mp hkept
    rw [htaken'.eq_of_not_infix hkeep, ← List.append_assoc]
    exact .token (hgap'.skipped hindent hgap) (htoken.trim (hfront'.trims hrest))
      (ih hfront' hrest hkept)

/-- A text whose lines are moved out says what it said before, if nothing is removed inside of a
token. -/
theorem exists_tokenize_dedent {indent unit text text' : List Char} {tokens : List SpannedToken}
    (h : Dedents indent unit text text') (hindent : (indent ++ unit).all isIndent = true)
    (htokens : tokenize text = .ok tokens)
    (hkept : ∀ a ∈ written text tokens, ¬ '\n' :: (indent ++ unit) <:+: a.2) :
    ∃ tokens', tokenize text' = .ok tokens' ∧ wording tokens' = wording tokens := by
  obtain ⟨front, gap, rfl, hgap, hspoken⟩ := says_of_tokenize htokens
  obtain ⟨front', gap', rfl, hfront, hrest⟩ := h.split_ends hindent hspoken.endsSolid
  have htrims := hrest.trims (Lexeme.trims_refl [])
  rw [List.append_nil, List.append_nil] at htrims
  have hmoved := hspoken.dedent hindent hfront htrims hkept
  obtain ⟨tokens', htokenize, hsaid, -⟩ := hmoved.tokenize (hrest.skipped hindent hgap)
  exact ⟨tokens', htokenize, hsaid.trans (map_fst_written _ _)⟩

theorem intercalate_cons_cons (mark : Char) (line next : List Char) (lines : List (List Char)) :
    [mark].intercalate (line :: next :: lines) =
      line ++ mark :: [mark].intercalate (next :: lines) := by
  simp [List.intercalate]

theorem intercalate_append_cons (mark : Char) (front line : List Char) (lines : List (List Char)) :
    [mark].intercalate ((front ++ line) :: lines) = front ++ [mark].intercalate (line :: lines) := by
  cases lines with
  | nil => simp [List.intercalate]
  | cons next lines => rw [intercalate_cons_cons, intercalate_cons_cons, List.append_assoc]

/-- The pieces of a text with the marks between them make up the text. -/
theorem intercalate_pieces (mark : Char) (text : List Char) :
    [mark].intercalate (pieces mark text) = text := by
  fun_induction pieces mark text with
  | case1 => rfl
  | case2 text ih =>
    cases hpieces : pieces mark text with
    | nil =>
      rw [hpieces] at ih
      subst ih
      cases hpieces
    | cons piece rest => rw [intercalate_cons_cons, ← hpieces, ih, List.nil_append]
  | case3 c text hc heq ih =>
    rw [heq] at ih
    subst ih
    cases heq
  | case4 c text hc piece rest heq ih =>
    have hfront := intercalate_append_cons mark [c] piece rest
    rw [heq] at ih
    rwa [ih] at hfront

/-- Every line after the first one is moved out. -/
theorem dedents_lines (indent unit line : List Char) (lines : List (List Char)) :
    Dedents indent unit (['\n'].intercalate (line :: lines))
      (['\n'].intercalate (line :: lines.map (Document.dedentLine indent unit))) := by
  induction lines generalizing line with
  | nil => exact .refl indent unit _
  | cons next lines ih =>
    rw [List.map_cons, intercalate_cons_cons, intercalate_cons_cons]
    refine Dedents.keep_append ?_ line
    unfold Document.dedentLine
    split
    · next rest hrest =>
      obtain rfl := List.isPrefixOf?_eq_some_iff_append_eq.mp hrest
      rw [intercalate_append_cons, intercalate_append_cons]
      exact .drop (ih rest)
    · exact .keep '\n' (ih next)

namespace Document

variable {d : Document} {block : List NodeId} {indent unit : List Char}

/-- The statements of a block as they are written, from the first to the last. -/
def blockText (d : Document) (block : List NodeId) : List Char :=
  match block.head?.bind d.tree.range, block.getLast?.bind d.tree.range with
  | some first, some last => d.slice first.start last.stop
  | _, _ => []

theorem dedents_dedentedBody (d : Document) (block : List NodeId) (indent unit : List Char) :
    Dedents indent unit (d.blockText block) (d.dedentedBody block indent unit) := by
  unfold blockText dedentedBody
  cases block.head?.bind d.tree.range with
  | none => exact .nil
  | some first =>
    cases block.getLast?.bind d.tree.range with
    | none => exact .nil
    | some last =>
      have hjoin := intercalate_pieces '\n' (d.slice first.start last.stop)
      cases hpieces : pieces '\n' (d.slice first.start last.stop) with
      | nil =>
        rw [hpieces] at hjoin
        simp only [← hjoin]
        exact .nil
      | cons line lines =>
        have hlines := dedents_lines indent unit line lines
        rw [← hpieces, hjoin] at hlines
        simpa only [hpieces] using hlines

theorem all_lineIndent (text : List Char) (offset : Nat) :
    (lineIndent text offset).all isIndent = true :=
  List.all_takeWhile

/-- What a level of indentation is made of. -/
theorem all_indentUnit (d : Document) (block : List NodeId) (indent : List Char) :
    (d.indentUnit block indent).all isIndent = true := by
  have hother : (if indent.contains '\t' then ['\t'] else [' ', ' ']).all isIndent = true := by
    split <;> decide
  simp only [indentUnit]
  cases block.head?.bind d.tree.range with
  | none => exact hother
  | some range =>
    simp only
    split
    · next c unit hunit =>
      have hall := all_lineIndent d.source range.start
      rw [← List.isPrefixOf?_eq_some_iff_append_eq.mp hunit, List.all_append, Bool.and_eq_true] at hall
      exact hall.2
    · exact hother

end Document

theorem skipped_of_all {last : Bool} {gap : List Char} (h : gap.all isIndent = true) :
    Skipped last gap := by
  have hiff : Skipped last (gap ++ []) ↔ Skipped last [] := skipped_append_iff h
  rw [List.append_nil] at hiff
  exact hiff.mpr .nil

/-- What a guard says: if a test does not hold, the function returns. -/
def guardWording (negated : List Token) (semicolon : Bool) : List Token :=
  [.keyword .ifWord, .punct .leftParen] ++ negated ++
    [.punct .rightParen, .punct .leftBrace, .keyword .returnWord] ++
    (if semicolon then [.punct .semicolon] else []) ++ [.punct .rightBrace]

/-- The opening of a guard up to its brace. -/
theorem says_opening {negation : List Char} {negated : List (Token × List Char)}
    (h : Says negation negated []) (rest : List Char) :
    Says ("if (".toList ++ negation ++ [')', ' ', '{'])
      ([(.keyword .ifWord, "if".toList), (.punct .leftParen, ['('])] ++ negated ++
        [(.punct .rightParen, [')']), (.punct .leftBrace, ['{'])]) rest := by
  have hblank : Skipped false [' '] := .blank (by decide) .nil
  have hif : Says "if".toList [(.keyword .ifWord, "if".toList)]
      (" (".toList ++ (negation ++ [')', ' ', '{']) ++ rest) :=
    says_one .nil rfl rfl
  have hparen : Says " (".toList [(.punct .leftParen, ['('])] (negation ++ [')', ' ', '{'] ++ rest) :=
    says_one hblank rfl rfl
  have hnegation : Says negation negated ([')', ' ', '{'] ++ rest) :=
    h.trim (.stop [] (Lexeme.stops_cons (by decide) _))
  have hclose : Says [')'] [(.punct .rightParen, [')'])] ([' ', '{'] ++ rest) :=
    says_one .nil rfl rfl
  have hbrace : Says [' ', '{'] [(.punct .leftBrace, ['{'])] rest := says_one hblank rfl rfl
  have hall := hif.append (hparen.append (hnegation.append (hclose.append hbrace)))
  simpa using hall

/-- The guard after its opening. -/
theorem says_return {indent unit : List Char} (hindent : indent.all isIndent = true)
    (hunit : unit.all isIndent = true) (semicolon : Bool) (rest : List Char) :
    Says ('\n' :: indent ++ unit ++ "return".toList ++
      ((if semicolon then [';'] else []) ++ ('\n' :: indent ++ ['}'])))
      ([(.keyword .returnWord, "return".toList)] ++
        ((if semicolon then [(.punct .semicolon, [';'])] else []) ++ [(.punct .rightBrace, ['}'])]))
      rest := by
  have hline : Skipped false ('\n' :: indent) := .blank (by decide) (skipped_of_all hindent)
  have hdeep : Skipped false ('\n' :: (indent ++ unit)) :=
    .blank (by decide) (skipped_of_all (by rw [List.all_append, hindent, hunit]; rfl))
  have hword : Lexeme.cut "return".toList =
      some (.token (.keyword .returnWord), "return".toList, []) := rfl
  have hreturn : ∀ c rest, Lexeme.isStop c = true → Says ('\n' :: indent ++ unit ++ "return".toList)
      [(.keyword .returnWord, "return".toList)] (c :: rest) := fun c rest hc =>
    says_one hdeep rfl (Lexeme.cut_trim hword (.stop [] (Lexeme.stops_cons hc rest)))
  have hend : Says ('\n' :: indent ++ ['}']) [(.punct .rightBrace, ['}'])] rest :=
    says_one hline rfl rfl
  cases semicolon with
  | true =>
    have hsemicolon : Says [';'] [(.punct .semicolon, [';'])] ('\n' :: indent ++ ['}'] ++ rest) :=
      says_one .nil rfl rfl
    exact (hreturn ';' _ (by decide)).append (hsemicolon.append hend)
  | false => exact (hreturn '\n' _ (by decide)).append hend

/-- A guard says its test and the return, and after it what the statements say. -/
theorem exists_tokenize_joinGuard {negation indent unit body : List Char}
    {negated : List (Token × List Char)} {tokens : List SpannedToken}
    (hnegation : Says negation negated []) (hindent : indent.all isIndent = true)
    (hunit : unit.all isIndent = true) (semicolon : Bool) (hbody : tokenize body = .ok tokens) :
    ∃ read, tokenize (Document.joinGuard ("if (".toList ++ negation ++ [')', ' ', '{']) indent unit
        (if semicolon then [';'] else []) body) = .ok read ∧
      wording read = guardWording (negated.map Prod.fst) semicolon ++ wording tokens := by
  have hsplit : Document.joinGuard ("if (".toList ++ negation ++ [')', ' ', '{']) indent unit
      (if semicolon then [';'] else []) body = "if (".toList ++ negation ++ [')', ' ', '{'] ++
        ('\n' :: indent ++ unit ++ "return".toList ++
          ((if semicolon then [';'] else []) ++ ('\n' :: indent ++ ['}']))) ++
        if body.isEmpty then [] else '\n' :: indent ++ body := by
    unfold Document.joinGuard
    cases body <;> simp
  have hafter : ∃ after, tokenize (if body.isEmpty then [] else '\n' :: indent ++ body) = .ok after ∧
      wording after = wording tokens := by
    cases body with
    | nil => exact ⟨tokens, hbody, rfl⟩
    | cons c body =>
      have hline : Skipped false ('\n' :: indent) := .blank (by decide) (skipped_of_all hindent)
      exact tokenize_skipped hline hbody
  obtain ⟨after, hafter, hsame⟩ := hafter
  have hguard := (says_opening hnegation _).append (says_return hindent hunit semicolon
    (if body.isEmpty then [] else '\n' :: indent ++ body))
  obtain ⟨read, htokenize, hread⟩ := hguard.tokenize_append hafter
  refine ⟨read, hsplit ▸ htokenize, ?_⟩
  rw [hread, hsame]
  cases semicolon <;> simp [guardWording]

theorem Tree.exists_ifStatement_of_nestedBranch? {t : Tree} {id : NodeId}
    (h : t.nestedBranch? id = some .consequent) :
    ∃ test consequent, t.node id = .ifStatement test consequent none := by
  unfold nestedBranch? at h
  split at h
  · next test consequent hnode => exact ⟨test, consequent, hnode⟩
  · split_ifs at h
    cases h
  · cases h

namespace Document

variable {d : Document} {id test consequent : NodeId} {alternate : Option NodeId}
  {text : List Char}

/-- How the guard of a branch is written that is moved out of an `if` whose test holds. -/
theorem exists_joinGuard_of_earlyReturn?
    (hnode : d.tree.node id = .ifStatement test consequent alternate) (h : d.earlyReturn? id .consequent = some text) :
    ∃ range moved negation, d.tree.range id = some range ∧ d.tree.block? consequent = some moved ∧
      Rendering.negate? { document := d } test = some negation ∧
      text = joinGuard ("if (".toList ++ negation ++ [')', ' ', '{'])
        (lineIndent d.source range.start) (d.indentUnit moved (lineIndent d.source range.start))
        (if d.usesSemicolons id then [';'] else [])
        (d.dedentedBody moved (lineIndent d.source range.start)
          (d.indentUnit moved (lineIndent d.source range.start))) := by
  unfold earlyReturn? at h
  simp only [hnode, bind, Option.bind_eq_some_iff, pure, Option.some.injEq] at h
  obtain ⟨range, hrange, first, hfirst, moved, hmoved, -, -, negation, hnegation,
    _, rfl, htext⟩ := h
  have hsame : moved = first := by
    simpa [Tree.branchBlock?, hnode, hfirst] using hmoved.symm
  exact ⟨range, first, negation, hrange, hfirst, hnegation, by rw [← hsame, htext]⟩

/-- Moving the statements of a block out to `indent` removes nothing inside of a token. -/
def KeepsTokens (d : Document) (block : List NodeId) (indent : List Char) : Prop :=
  ∀ tokens, tokenize (d.blockText block) = .ok tokens → ∀ a ∈ written (d.blockText block) tokens,
    ¬ '\n' :: (indent ++ d.indentUnit block indent) <:+: a.2

instance (d : Document) (block : List NodeId) (indent : List Char) :
    Decidable (d.KeepsTokens block indent) :=
  match h : tokenize (d.blockText block) with
  | .ok tokens => decidable_of_iff (∀ a ∈ written (d.blockText block) tokens,
      ¬ '\n' :: (indent ++ d.indentUnit block indent) <:+: a.2) (by simp [KeepsTokens, h])
  | .error _ => .isTrue (by simp [KeepsTokens, h])

/-- How the negated test of an `if`, the statements of its branch, and its guard are read. -/
def guardReadings? (d : Document) (id : NodeId) (text : List Char) :
    Option (List SpannedToken × List SpannedToken × List SpannedToken) :=
  match d.tree.node id with
  | .ifStatement test consequent none => do
    let negation ← Rendering.negate? { document := d } test
    let negated ← reading? negation
    let moved ← d.tree.block? consequent
    let tokens ← (tokenize (d.blockText moved)).toOption
    let read ← (tokenize text).toOption
    return (negated, tokens, read)
  | _ => none

theorem exists_of_guardReadings? {d : Document} {id : NodeId} {text : List Char}
    {negated tokens read : List SpannedToken}
    (h : d.guardReadings? id text = some (negated, tokens, read)) :
    ∃ test consequent negation moved, d.tree.node id = .ifStatement test consequent none ∧
      Rendering.negate? { document := d } test = some negation ∧ Reading negation negated ∧
      d.tree.block? consequent = some moved ∧ tokenize (d.blockText moved) = .ok tokens ∧
      tokenize text = .ok read := by
  unfold guardReadings? at h
  split at h
  · next test consequent hnode =>
    simp only [bind, Option.bind_eq_some_iff, pure, Option.some.injEq, Prod.mk.injEq] at h
    obtain ⟨negation, hnegation, _, hnegated, moved, hmoved, _, htokens, _, hread,
      rfl, rfl, rfl⟩ := h
    exact ⟨test, consequent, negation, moved, hnode, hnegation, reading?_eq_some_iff.mp hnegated,
      hmoved, toOption_tokenize_eq_some_iff.mp htokens, toOption_tokenize_eq_some_iff.mp hread⟩
  · cases h

end Document

namespace Settings

variable {source : List Char} {t : Tree} {g : Diagnostic} {f : Fix}

/-- The fix of an early return exchanges the `if` at the end of a function. Where that moves out the
branch of a test that holds, the replacement is read as the negated test in a guard that returns, and
then as exactly the tokens of the statements of the branch in their order, names, strings, numbers and
the texts of templates included, if no indentation is removed inside of one of these tokens. -/
theorem wording_fix_of_mem_lintSource (h : parse source = .ok t) (s : Settings) (path : String)
    (hg : g ∈ s.lintSource path source) (hcode : g.code = "S2003") (hf : g.fix = some f) :
    ∃ function id branch range, t.Reachable function ∧ t.Reachable id ∧
      t.nestedIf? function = some (id, branch) ∧ t.range id = some range ∧
      f.span.start = range.start ∧ f.span.stop = range.stop ∧
      (Document.mk path source t).earlyReturn? id branch = some f.replacement ∧
      (branch = .consequent →
      ∃ test consequent moved negation, t.node id = .ifStatement test consequent none ∧
        t.block? consequent = some moved ∧
        Rendering.negate? { document := ⟨path, source, t⟩ } test = some negation ∧
        ∀ negated tokens, Reading negation negated →
          tokenize ((Document.mk path source t).blockText moved) = .ok tokens →
          (Document.mk path source t).KeepsTokens moved (lineIndent source range.start) →
          ∃ read, tokenize f.replacement = .ok read ∧ wording read =
            guardWording (wording negated) ((Document.mk path source t).usesSemicolons id) ++
              wording tokens) := by
  obtain ⟨function, id, branch, hfunction, hid, hnested, hfix⟩ :=
    exists_nestedIf?_of_mem_lintSource h s path hg hcode
  obtain ⟨text, hearly, hreplace⟩ := Option.bind_eq_some_iff.mp (hfix ▸ hf)
  obtain ⟨range, -, hrange, -⟩ := (Document.sound_of_parse h path).exists_text hid
  obtain ⟨hstart, hstop, rfl⟩ := Document.replacement_of_replace? hrange hreplace
  refine ⟨function, id, branch, range, hfunction, hid, hnested, hrange, hstart, hstop, hearly, ?_⟩
  rintro rfl
  have hbranch := Tree.nestedBranch?_of_nestedIf? hnested
  obtain ⟨test, consequent, hnode⟩ := Tree.exists_ifStatement_of_nestedBranch? hbranch
  obtain ⟨range', moved, negation, hrange', hmoved, hnegation, htext⟩ :=
    Document.exists_joinGuard_of_earlyReturn? hnode hearly
  cases hrange.symm.trans hrange'
  refine ⟨test, consequent, moved, negation, hnode, hmoved, hnegation, ?_⟩
  intro negated tokens hnegated htokens hkept
  have hindent := Document.all_lineIndent source range.start
  have hunit := (Document.mk path source t).all_indentUnit moved (lineIndent source range.start)
  have hdedents := (Document.mk path source t).dedents_dedentedBody moved
    (lineIndent source range.start)
    ((Document.mk path source t).indentUnit moved (lineIndent source range.start))
  have hall : (lineIndent source range.start ++ (Document.mk path source t).indentUnit moved
      (lineIndent source range.start)).all isIndent = true := by
    rw [List.all_append, hindent, hunit]
    rfl
  obtain ⟨body, hbody, hsame⟩ := exists_tokenize_dedent hdedents hall htokens (hkept tokens htokens)
  obtain ⟨read, hread, hwording⟩ := exists_tokenize_joinGuard hnegated.says_written hindent hunit
    ((Document.mk path source t).usesSemicolons id) hbody
  refine ⟨read, htext ▸ hread, ?_⟩
  rw [hwording, hsame, map_fst_written]

/-- A function in which the branch of an `if` that ends it is moved out. -/
def guarded : List Char :=
  "function f(a) \x7b\n  if (a) \x7b\n    if (b) \x7b\n      x();\n    \x7d\n  \x7d\n\x7d".toList

theorem wording_fix_of_mem_lintSource_call : ∃ t g f id range test negation negated moved tokens read,
    parse guarded = .ok t ∧ g ∈ ({} : Settings).lintSource "test.ts" guarded ∧ g.code = "S2003" ∧
      g.fix = some f ∧ t.range id = some range ∧ f.span.start = range.start ∧
      f.span.stop = range.stop ∧
      (Document.mk "test.ts" guarded t).earlyReturn? id .consequent = some f.replacement ∧
      Rendering.negate? { document := ⟨"test.ts", guarded, t⟩ } test = some negation ∧
      Reading negation negated ∧
      tokenize ((Document.mk "test.ts" guarded t).blockText moved) = .ok tokens ∧
      tokenize f.replacement = .ok read ∧
      wording read = guardWording (wording negated) true ++ wording tokens := by
  have hfixed : (({} : Settings).lintSource "test.ts" guarded).any (fun g => g.code == "S2003" &&
      g.fix.any fun f => (parse guarded).toOption.any fun t => t.preorder.all fun function =>
        (t.nestedIf? function).all fun found => found.2 == .consequent &&
          (Document.mk "test.ts" guarded t).usesSemicolons found.1 &&
          ((Document.mk "test.ts" guarded t).guardReadings? found.1 f.replacement).isSome &&
          (t.branchBlock? found.1 found.2).all fun moved => (t.range found.1).all fun r =>
            decide ((Document.mk "test.ts" guarded t).KeepsTokens moved
              (lineIndent guarded r.start))) = true := by
    decide +kernel
  obtain ⟨g, hg, hfound⟩ := List.any_eq_true.mp hfixed
  obtain ⟨hcode, hfix⟩ := Bool.and_eq_true_iff.mp hfound
  obtain ⟨f, hf, hparsed⟩ := (Option.any_eq_true _ _).mp hfix
  obtain ⟨t, h, hall⟩ := exists_tree_of_any hparsed
  obtain ⟨function, id, branch, range, hfunction, -, hnested, hrange, hstart, hstop, hearly,
    hwording⟩ := wording_fix_of_mem_lintSource h {} "test.ts" hg (beq_iff_eq.mp hcode) hf
  have hall := List.all_eq_true.mp hall function
    (((Document.sound_of_parse h "test.ts").mem_preorder function).mpr hfunction)
  simp only [hnested, Option.all_some, Bool.and_eq_true, beq_iff_eq] at hall
  obtain ⟨⟨⟨hbranch, hsemicolons⟩, hreadings⟩, hkeeps⟩ := hall
  obtain ⟨test, consequent, moved, negation, hnode, hmoved, hnegation, hwording⟩ :=
    hwording hbranch
  obtain ⟨⟨negated, tokens, read⟩, hreadings⟩ := Option.isSome_iff_exists.mp hreadings
  obtain ⟨_, _, _, _, hnode', hnegation', hnegated, hmoved', htokens, hread⟩ :=
    Document.exists_of_guardReadings? hreadings
  cases hnode.symm.trans hnode'
  cases hnegation.symm.trans hnegation'
  cases hmoved.symm.trans hmoved'
  have hkept : (Document.mk "test.ts" guarded t).KeepsTokens moved
      (lineIndent guarded range.start) := by
    simpa [hbranch, Tree.branchBlock?, hnode, hmoved, hrange] using hkeeps
  obtain ⟨read', hread', hsame⟩ := hwording negated tokens hnegated htokens hkept
  cases hread.symm.trans hread'
  rw [hsemicolons] at hsame
  rw [hbranch] at hearly
  exact ⟨t, g, f, id, range, test, negation, negated, moved, tokens, read, h, hg, beq_iff_eq.mp hcode,
    hf, hrange, hstart, hstop, hearly, hnegation, hnegated, htokens, hread, hsame⟩

end Settings

/-- The texts of a token that stand around its substitutions. -/
def Token.quasis : Token → List String
  | .template parts => parts.filterMap fun
    | .quasi raw _ => some raw
    | .substitution _ => none
  | _ => []

/-- Some fix of a text changes the text of a template literal. -/
def changesQuasi (source : List Char) : Bool :=
  match parse source with
  | .ok t => (({} : Settings).lintSource "test.ts" source).any fun g =>
    g.code == "S2003" && g.fix.any fun f => t.preorder.any fun function =>
      (t.nestedIf? function).any fun (id, branch) => branch == .consequent &&
        ((Document.mk "test.ts" source t).guardReadings? id f.replacement).any
          fun (negated, tokens, read) => (wording read).flatMap Token.quasis !=
            (wording negated ++ wording tokens).flatMap Token.quasis
  | .error _ => false

/-- The lines of a template literal are moved out like all others, so that the literal is another
one after the fix. -/
theorem not_wording_fix_of_mem_lintSource : ¬ ∀ (source : List Char) (t : Tree) (g : Diagnostic)
    (f : Fix) (function id test consequent : NodeId) (moved : List NodeId) (negation : List Char)
    (negated tokens read : List SpannedToken), parse source = .ok t →
      g ∈ ({} : Settings).lintSource "test.ts" source → g.code = "S2003" → g.fix = some f →
      t.nestedIf? function = some (id, .consequent) →
      t.node id = .ifStatement test consequent none → t.block? consequent = some moved →
      Rendering.negate? { document := ⟨"test.ts", source, t⟩ } test = some negation →
      Reading negation negated →
      tokenize ((Document.mk "test.ts" source t).blockText moved) = .ok tokens →
      tokenize f.replacement = .ok read → wording read =
        guardWording (wording negated) ((Document.mk "test.ts" source t).usesSemicolons id) ++
          wording tokens := by
  intro hwording
  obtain ⟨source, hfound⟩ : ∃ source, changesQuasi source = true :=
    ⟨("function f(a) \x7b\n  if (a) \x7b\n    if (b) \x7b\n      x(`\n    t`);\n" ++
      "    \x7d\n  \x7d\n\x7d").toList, by decide +kernel⟩
  unfold changesQuasi at hfound
  split at hfound
  · next t hparse =>
    obtain ⟨g, hg, hfound⟩ := List.any_eq_true.mp hfound
    obtain ⟨hcode, hfound⟩ := Bool.and_eq_true_iff.mp hfound
    obtain ⟨f, hf, hfound⟩ := (Option.any_eq_true _ _).mp hfound
    obtain ⟨function, -, hfound⟩ := List.any_eq_true.mp hfound
    obtain ⟨⟨id, branch⟩, hnested, hfound⟩ := (Option.any_eq_true _ _).mp hfound
    obtain ⟨hbranch, hfound⟩ := Bool.and_eq_true_iff.mp hfound
    obtain rfl := beq_iff_eq.mp hbranch
    obtain ⟨⟨negated, tokens, read⟩, hreadings, hdiffers⟩ := (Option.any_eq_true _ _).mp hfound
    obtain ⟨test, consequent, negation, moved, hnode, hnegation, hnegated, hmoved, htokens, hread⟩ :=
      Document.exists_of_guardReadings? hreadings
    have hsame := hwording source t g f function id test consequent moved negation negated tokens
      read hparse hg (beq_iff_eq.mp hcode) hf hnested hnode hmoved hnegation hnegated htokens hread
    refine bne_iff_ne.mp hdiffers ?_
    rw [hsame]
    cases (Document.mk "test.ts" source t).usesSemicolons id <;>
      simp [guardWording, Token.quasis]
  · cases hfound

end ScriptLint
