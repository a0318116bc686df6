import ScriptLint.Proofs.Parse.Arguments

namespace ScriptLint

open Position (origin)

namespace Lexeme

variable {name : String} {text tail : List Char} {c : Char}

/-- A word is cut in one piece where no name goes on from it, as a token that names it. -/
theorem exists_token_of_isWord (hname : IsWord name.toList) : ∃ token, Parse.names token = some name ∧
    ∀ tail, Separate name.toList tail →
      cut (name.toList ++ tail) = some (.token token, name.toList, tail) := by
  obtain ⟨c, rest, htext, hstart, hparts⟩ := hname
  have hall : (c :: rest).all isNamePart = true := by simp [isNamePart, hstart, hparts]
  have hlast : ∀ a ∈ name.toList.getLast?, isNamePart a = true := by
    intro a ha
    refine List.all_eq_true.mp hall a ?_
    rcases htext with htext | htext
    · exact htext ▸ List.mem_of_mem_getLast? ha
    · rw [htext, List.getLast?_cons_cons] at ha
      exact List.mem_of_mem_getLast? ha
  have hne : name.toList ≠ [] := by rcases htext with htext | htext <;> simp [htext]
  have hrun : ∀ tail, Separate name.toList tail →
      run isNamePart (c :: (rest ++ tail)) = (c :: rest, tail) := by
    intro tail htail
    refine run_of_all hall fun b hb => ?_
    obtain ⟨a, ha⟩ := Option.isSome_iff_exists.mp (List.getLast?_isSome.mpr hne)
    have hjoined := htail a ha b hb
    rwa [hlast a ha, Bool.true_and] at hjoined
  rcases htext with htext | htext
  · have hspelling : String.ofList (c :: rest) = name := by rw [← htext, String.ofList_toList]
    have hcut : ∀ tail, Separate name.toList tail → cut (name.toList ++ tail) =
        some (word (c :: (rest ++ tail))) := fun tail _ => by
      rw [htext, List.cons_append, cut_of_nameStart hstart]
    cases hkeyword : Keyword.ofSpelling? name with
    | none =>
      refine ⟨.identifier name, rfl, fun tail htail => (hcut tail htail).trans ?_⟩
      simp only [word, hrun tail htail, hspelling, hkeyword, htext]
    | some k =>
      refine ⟨.keyword k, congrArg some (Keyword.spelling_of_ofSpelling? hkeyword),
        fun tail htail => (hcut tail htail).trans ?_⟩
      simp only [word, hrun tail htail, hspelling, hkeyword, htext]
  · refine ⟨.identifier name, rfl, fun tail htail => ?_⟩
    have hrun := hrun tail htail
    rw [htext, List.cons_append, List.cons_append, cut_of_private hstart, hrun, ← htext,
      String.ofList_toList]

/-- A dot is cut alone where neither a number nor another dot follows. -/
theorem cut_dot (h : ∀ c ∈ text.head?, isDigit c = false ∧ c ≠ '.') :
    cut ('.' :: text) = some (.token (.punct .dot), ['.'], text) := by
  cases text with
  | nil => rfl
  | cons c text =>
    obtain ⟨hdigit, hdot⟩ := h c rfl
    have hfound : punct? ('.' :: c :: text) = some .dot := by
      simp [punct?, Punct.byLength, Punct.spelling, hdot.symm]
    have hplain : isBlank '.' = false ∧ isNameStart '.' = false ∧ isDigit '.' = false := by decide
    simp [cut, hplain, hdigit, mark, hfound, Punct.spelling]

/-- A word begins with no digit, no dot and no blank. -/
theorem head_of_isWord (hname : IsWord name.toList) (c : Char) (hc : c ∈ name.toList.head?) :
    isDigit c = false ∧ c ≠ '.' := by
  obtain ⟨b, rest, htext, hstart, -⟩ := hname
  rcases htext with htext | htext <;> rw [htext] at hc <;> cases hc
  · refine ⟨?_, ?_⟩
    · by_contra hdigit
      rw [not_isNameStart_of_isDigit (Bool.not_eq_false _ ▸ hdigit)] at hstart
      cases hstart
    · rintro rfl
      cases hstart
  · decide

/-- What stands for nothing begins with no digit, no dot and no part of a name. -/
theorem head_of_skipped {gap : List Char} (hgap : Skipped false gap) (c : Char) (hc : c ∈ gap.head?) :
    (isDigit c = false ∧ c ≠ '.') ∧ isNamePart c = false := by
  have hstops : stops.all (fun c => !isDigit c && c != '.' && !isNamePart c) = true := by decide
  cases hgap with
  | nil => cases hc
  | blank hblank _ =>
    cases hc
    have hstop : isStop c = true := by simp [isStop, hblank]
    simpa using List.all_eq_true.mp hstops c (mem_stops hstop)
  | line hopening =>
    rcases hopening with rfl | rfl <;> cases hc <;> decide
  | block => cases hc; decide
  | openBlock _ hlast => cases hlast

end Lexeme

namespace Parse

open ScriptLint.Parser

variable {s : State} {pos pos' stop limit room : Nat} {name : String} {optional : Bool}
  {text piece gap tail : List Char} {inner second : List SpannedToken} {P Q : Tree → NodeId → Prop}

/-- The mark of an access in front of a name or brackets. -/
def markText (optional computed : Bool) : List Char :=
  if optional then ['?', '.'] else if computed then [] else ['.']

/-- A dot, also with a question mark, is a token in front of what it does not run on to. -/
theorem spells_markText (optional : Bool) (h : ∀ c ∈ tail.head?, Lexeme.isDigit c = false ∧ c ≠ '.') :
    Spells (markText optional false)
      [(.punct (dotMark optional), .between origin (origin.after (markText optional false)))] tail := by
  cases optional with
  | true => exact spells_of_cut rfl
  | false => exact spells_of_cut (Lexeme.cut_dot h)

theorem spells_leftBracket (tail : List Char) :
    Spells ['['] [(.punct .leftBracket, firstSpan)] tail := spells_of_cut rfl

theorem spells_rightBracket (tail : List Char) :
    Spells [']'] [(.punct .rightBracket, firstSpan)] tail := spells_of_cut rfl

/-- An expression in brackets after an object. -/
theorem Makes.indexed (hs : Whole s) (hopen : s.tokenAt pos = .punct .leftBracket)
    (h : Makes Parse.expression s (pos + 1) pos' Q) (hclose : s.tokenAt pos' = .punct .rightBracket) :
    Makes Parse.index s pos (pos' + 1) Q := by
  intro k hk tree
  have hsize := hs.succ_lt_size (show s.tokenAt pos ≠ .eof by simp [hopen])
  have hsize' := hs.succ_lt_size (show s.tokenAt pos' ≠ .eof by simp [hclose])
  have hreach := (State.reach_reading_le (s := s) (Nat.le_succ pos) {} {}).trans hk
  obtain ⟨property, tree', hrun, hcontinues, hproperty⟩ := h k hreach tree
  have hskip : skip (s.reading pos tree) = (.ok (), s.reading (pos + 1) tree) := by
    simp [skip, update, State.advance_reading hsize]
  refine ⟨property, tree', ?_, hcontinues, hproperty⟩
  rw [Parse.index, bind_of_ok hskip, bind_of_ok (withIn_reading hs.allowIn hrun),
    bind_of_ok (expect_reading hclose hsize')]
  rfl

/-- An access by an expression in brackets. -/
def Indexed (optional : Bool) (P Q : Tree → NodeId → Prop) (t : Tree) (i : NodeId) : Prop :=
  ∃ object property, t.node i = .memberExpression { object, property, computed := true, optional } ∧
    P t object ∧ Q t property

theorem lasting_indexed (optional : Bool) (hp : Lasting P) (hq : Lasting Q) :
    Lasting (Indexed optional P Q) := by
  rintro t t' i ⟨object, property, hnode, hobject, hproperty⟩ hsize hsame
  exact ⟨object, property, Tree.node_of_kept hsame hnode (by simp [Node.missing]),
    hp _ _ _ hobject hsize hsame, hq _ _ _ hproperty hsize hsame⟩

/-- Where the brackets of an access stand: after its mark, if it is optional. -/
def bracketPlace (optional : Bool) (pos : Nat) : Nat := if optional then pos + 1 else pos

theorem Follows.indexed (hs : Whole s) (hdot : optional = true → s.tokenAt pos = .punct .questionDot)
    (hopen : s.tokenAt (bracketPlace optional pos) = .punct .leftBracket)
    (h : Makes Parse.index s (bracketPlace optional pos) stop Q) (hp : Lasting P) (hq : Lasting Q) :
    Follows s optional pos stop P (Indexed optional P Q) := by
  intro k hk start tree e hobject
  have hle : pos ≤ bracketPlace optional pos := by
    unfold bracketPlace
    split <;> omega
  have hreach := (State.reach_reading_le (s := s) hle {} {}).trans hk
  obtain ⟨property, tree', hrun, hcontinues, hproperty⟩ := h k hreach tree
  let node : Node := .memberExpression { object := e, property, computed := true, optional }
  have hlast := (Tree.Continues.refl tree').alloc node (some ((s.reading stop tree').spanFrom start))
  refine ⟨tree'.size, _, ?_, hcontinues.trans hlast, e, property, tree'.node_alloc_self _ _,
    hp.continues hobject (hcontinues.trans hlast), hq.continues hproperty hlast⟩
  rw [suffix?, bind_of_ok (current_apply s pos tree)]
  cases optional with
  | false =>
    have hopen : s.tokenAt pos = .punct .leftBracket := hopen
    have hrun : Parse.index (Grammar.upTo k) (s.reading pos tree) = _ := hrun
    rw [hopen]
    change (Parse.index (Grammar.upTo k) >>= _) (s.reading pos tree) = _
    rw [bind_of_ok hrun]
    rfl
  | true =>
    have hdot := hdot rfl
    have hsize := hs.succ_lt_size (show s.tokenAt pos ≠ .eof by simp [hdot])
    have hopen : s.tokenAt (pos + 1) = .punct .leftBracket := hopen
    have hrun : Parse.index (Grammar.upTo k) (s.reading (pos + 1) tree) = _ := hrun
    have hskip : skip (s.reading pos tree) = (.ok (), s.reading (pos + 1) tree) := by
      simp [skip, update, State.advance_reading hsize]
    rw [hdot]
    change (skip >>= _) (s.reading pos tree) = _
    rw [bind_of_ok hskip, bind_of_ok (current_apply s (pos + 1) tree), hopen]
    change (Parse.index (Grammar.upTo k) >>= _) (s.reading (pos + 1) tree) = _
    rw [bind_of_ok hrun]
    rfl

/-- In the middle of any text, a text with these tokens is read as what may follow an expression
directly. -/
structure Trailing (limit : Nat) (optional : Bool) (piece : List Char) (inner : List SpannedToken)
    (P Q : Tree → NodeId → Prop) : Prop where
  spells : ∀ tail, Lexeme.Separate piece tail → Spells piece inner tail
  ne_nil : inner ≠ []
  lasting : Lasting Q
  reads : ∀ {s : State} {pos : Nat} {tail : List Char}, Whole s → s.depth ≤ limit →
    Stands s pos piece inner tail → Lexeme.Separate piece tail →
      Follows s optional pos (pos + inner.length) P Q

namespace Trailing

theorem piece_ne_nil (h : Trailing limit optional piece inner P Q) : piece ≠ [] :=
  (h.spells [] (by simp [Lexeme.Separate])).ne_nil h.ne_nil

/-- What stands for nothing may come before it. -/
theorem skipped (h : Trailing limit optional piece inner P Q) (hgap : Skipped false gap) :
    Trailing limit optional (gap ++ piece) (tokensMovedTo (origin.after gap) inner) P Q := by
  have hspells : ∀ tail, Lexeme.Separate (gap ++ piece) tail →
      Spells (gap ++ piece) (tokensMovedTo (origin.after gap) inner) tail := fun tail htail =>
    (Spells.skipped hgap _).append (h.spells tail (htail.suffix _ h.piece_ne_nil))
  refine ⟨hspells, ?_, h.lasting, fun {s pos tail} hs hdepth hstands htail => ?_⟩
  · simpa [tokensMovedTo_eq_map] using h.ne_nil
  · have hpiece := htail.suffix _ h.piece_ne_nil
    have hafter := hstands.skipped (h.spells tail hpiece)
    have hreads := h.reads hs hdepth hafter hpiece
    rwa [Spells.length_tokensMovedTo]

theorem weaken {R : Tree → NodeId → Prop} (h : Trailing limit optional piece inner P Q)
    (hlasting : Lasting R) (himplies : ∀ t i, Q t i → R t i) :
    Trailing limit optional piece inner P R := by
  refine ⟨h.spells, h.ne_nil, hlasting, fun hs hdepth hstands htail k hk start tree e he => ?_⟩
  obtain ⟨e', tree', hrun, hcontinues, he'⟩ :=
    h.reads hs hdepth hstands htail k hk start tree e he
  exact ⟨e', tree', hrun, hcontinues, himplies _ _ he'⟩

end Trailing

/-- An access by a name. -/
theorem exists_trailing_access (optional : Bool) (hname : Lexeme.IsWord name.toList)
    (hgap : Skipped false gap) (hlasting : Lasting P) : ∃ inner,
      Trailing limit optional (markText optional false ++ (gap ++ name.toList)) inner P
        (Accessed optional name P) := by
  obtain ⟨token, hnames, hcut⟩ := Lexeme.exists_token_of_isWord hname
  have hne : name.toList ≠ [] := by
    obtain ⟨c, rest, htext | htext, -⟩ := hname <;> simp [htext]
  have hword : ∀ tail, Lexeme.Separate name.toList tail →
      Spells name.toList [(token, .between origin (origin.after name.toList))] tail :=
    fun tail htail => spells_of_cut (hcut tail htail)
  have hafter : ∀ tail, Lexeme.Separate name.toList tail → Spells (gap ++ name.toList)
      (tokensMovedTo (origin.after gap) [(token, .between origin (origin.after name.toList))]) tail :=
    fun tail htail => (Spells.skipped hgap _).append (hword tail htail)
  have hhead : ∀ tail, ∀ c ∈ (gap ++ name.toList ++ tail).head?, Lexeme.isDigit c = false ∧ c ≠ '.' := by
    intro tail c hc
    cases hgap' : gap with
    | nil =>
      rw [hgap', List.nil_append, List.head?_append_of_ne_nil _ hne] at hc
      exact Lexeme.head_of_isWord hname c hc
    | cons b rest =>
      rw [hgap'] at hc
      exact (Lexeme.head_of_skipped hgap c (by rw [hgap']; exact hc)).1
  have hsuffix : ∀ tail, Lexeme.Separate (markText optional false ++ (gap ++ name.toList)) tail →
      Lexeme.Separate name.toList tail := fun tail htail =>
    (htail.suffix _ (List.append_ne_nil_of_right_ne_nil _ hne)).suffix _ hne
  refine ⟨_, fun tail htail => (spells_markText optional (hhead tail)).append
    (hafter tail (hsuffix tail htail)), List.cons_ne_nil _ _, lasting_accessed optional name hlasting,
    fun {s pos tail} hs hdepth hstands htail => ?_⟩
  have hnamed := hafter tail (hsuffix tail htail)
  have hdot := (hstands.left hnamed).tokenAt
  have hplain : ∀ p, token.movedTo p = token := by
    intro p
    cases token <;> first | rfl | cases hnames
  have htoken : s.tokenAt (pos + 1) = token :=
    ((hstands.right hnamed).skipped (hword tail (hsuffix tail htail))).tokenAt_one hplain
  have hsize : pos + 2 < s.tokens.size := hs.succ_lt_size (by
    rw [htoken]
    rintro rfl
    cases hnames)
  exact Follows.access hdot (by rw [htoken, hnames]) hsize hlasting

theorem marks_rightBracket (next : List Char) : Marks [']'] .rightBracket firstSpan next :=
  ⟨fun _ => spells_rightBracket _, List.cons_ne_nil _ _, [], List.nil_prefix, rfl, rfl⟩

/-- An expression in brackets. -/
theorem Phrased.indexed (h : Phrased limit .expression text inner Q) : ∃ second,
    (∀ tail, Spells (['['] ++ (text ++ [']'])) second tail) ∧ second ≠ [] ∧
      ∀ {s : State} {pos : Nat} {tail : List Char}, Whole s → s.depth ≤ limit →
        Stands s pos (['['] ++ (text ++ [']'])) second tail →
          s.tokenAt pos = .punct .leftBracket ∧ Makes Parse.index s pos (pos + second.length) Q := by
  have hclear : ∀ tail, Lexeme.Clear text ([']'] ++ tail) :=
    fun tail => Lexeme.clear_of_isLonely (by decide) text tail
  have hinside : ∀ tail, Spells (text ++ [']']) _ tail := fun tail =>
    (h.spells _ (hclear tail)).append (spells_rightBracket tail)
  refine ⟨_, fun tail => (spells_leftBracket _).append (hinside tail), List.cons_ne_nil _ _,
    fun {s pos tail} hs hdepth hstands => ?_⟩
  have hopen := (hstands.left (hinside tail)).tokenAt
  have hafter := hstands.right (hinside tail)
  have hclose := (hafter.right (spells_rightBracket tail)).tokenAt
  have hexpression : Makes Parse.expression s (pos + 1) (pos + 1 + inner.length) Q :=
    h.reads hs hdepth (hafter.left (spells_rightBracket tail)) (hclear tail)
      ((marks_rightBracket []).meets tail) (.inr rfl)
  refine ⟨hopen, ?_⟩
  simp only [List.length_append, Spells.length_tokensMovedTo, List.length_singleton]
  rw [show pos + (1 + (inner.length + 1)) = pos + 1 + inner.length + 1 by omega]
  exact hexpression.indexed hs hopen hclose

/-- An access by an expression in brackets. -/
theorem Phrase.exists_trailing (h : Phrase limit .expression text Q) (optional : Bool)
    (hp : Lasting P) : ∃ inner, Trailing limit optional
      (markText optional true ++ (['['] ++ (text ++ [']']))) inner P (Indexed optional P Q) := by
  obtain ⟨inner, h⟩ := h
  obtain ⟨second, hspells, hne, hreads⟩ := h.indexed
  cases optional with
  | false =>
    refine ⟨second, fun tail _ => hspells tail, hne, lasting_indexed false hp h.lasting,
      fun {s pos tail} hs hdepth hstands _ => ?_⟩
    obtain ⟨hopen, hmakes⟩ := hreads hs hdepth hstands
    exact Follows.indexed hs (by simp) hopen hmakes hp h.lasting
  | true =>
    have hdot : ∀ tail, Spells ['?', '.'] _ tail := fun tail => spells_of_cut rfl
    refine ⟨_, fun tail _ => (hdot _).append (hspells tail), List.cons_ne_nil _ _,
      lasting_indexed true hp h.lasting, fun {s pos tail} hs hdepth hstands _ => ?_⟩
    obtain ⟨hopen, hmakes⟩ := hreads hs hdepth (hstands.right (hspells tail))
    have hmark := (hstands.left (hspells tail)).tokenAt
    rw [List.length_append, Spells.length_tokensMovedTo, ← Nat.add_assoc]
    exact Follows.indexed hs (fun _ => hmark) hopen hmakes hp h.lasting

/-- A call with arguments, which are read alone. -/
theorem ReadAs.exists_trailing {X Y : Tree → List NodeId → Prop}
    (h : ReadAs room argumentList text X) (hlimit : limit ≤ room) (hroom : room ≤ maxDepth)
    (hp : Lasting P) (hy : Lasting Y) (hbelow : ∀ t items part roots, X part roots →
      t.ListedBelow items part roots → Y t items) :
    ∃ inner, Trailing limit false (['('] ++ (text ++ [')'])) inner P (CalledWith P Y) := by
  obtain ⟨inner, htext, -, h⟩ := h.exists_spells
  have hclear : ∀ tail, Lexeme.Clear text ([')'] ++ tail) :=
    fun tail => Lexeme.clear_of_isLonely (by decide) text tail
  have hinside : ∀ tail, Spells (text ++ [')']) _ tail := fun tail =>
    (htext _ (hclear tail)).append (spells_rightParen tail)
  refine ⟨_, fun tail _ => (spells_leftParen _).append (hinside tail), List.cons_ne_nil _ _,
    lasting_calledWith hp hy, fun {s pos tail} hs hdepth hstands _ => ?_⟩
  obtain ⟨part, roots, hread, hx⟩ := h s.depth (hdepth.trans hlimit)
  have hafter := hstands.right (hinside tail)
  have hlists : Lists s (pos + 1) (pos + 1 + inner.length) Y := by
    intro k hk tree
    obtain ⟨items, tree', hrun, hcontinues, hlisted⟩ :=
      (hafter.left (spells_rightParen tail)).lists hs (hdepth.trans (hlimit.trans hroom)) hread
        ((marks_rightParen []).meets tail) k hk tree
    exact ⟨items, tree', hrun, hcontinues, hbelow _ _ _ _ hx hlisted⟩
  have hfollows := Follows.calledWith hs (hstands.left (hinside tail)).tokenAt hlists
    (hafter.right (spells_rightParen tail)).tokenAt hp hy
  simp only [List.length_append, Spells.length_tokensMovedTo, List.length_singleton]
  rwa [show pos + (1 + (inner.length + 1)) = pos + 1 + inner.length + 1 by omega]

/-- What `leftHandSide` reads is not nothing, and has no operator in front. -/
theorem beginsOperand_of_leftHandSide {g : Grammar} {e : NodeId} {s' : State}
    (h : leftHandSide g s = (.ok e, s')) : s.current.isEof = false ∧ BeginsOperand s.current := by
  rw [leftHandSide_apply] at h
  obtain ⟨first, s₁, hfirst, -⟩ := exists_of_bind h
  have hspan : currentSpan s = (.ok s.currentSpan, s) := rfl
  have hcurrent : Parser.current s = (.ok s.current, s) := rfl
  cases hnew : s.current.isKeyword .newWord with
  | true =>
    rw [eq_of_isKeyword hnew]
    exact ⟨rfl, rfl, rfl, rfl, rfl⟩
  | false =>
    rw [hnew] at hfirst
    change primary g s = _ at hfirst
    rw [primary, bind_of_ok hspan, bind_of_ok hcurrent] at hfirst
    generalize s.current = t at hfirst
    cases t with
    | punct mark => cases mark <;> first | exact ⟨rfl, rfl, rfl, rfl, rfl⟩ | cases hfirst
    | keyword word => cases word <;> first | exact ⟨rfl, rfl, rfl, rfl, rfl⟩ | cases hfirst
    | eof => cases hfirst
    | _ => exact ⟨rfl, rfl, rfl, rfl, rfl⟩

theorem beginsOperand_movedTo {t : Token} (h : BeginsOperand t) (p : Position) :
    BeginsOperand (t.movedTo p) := by
  cases t with
  | template => exact ⟨rfl, rfl, rfl, rfl⟩
  | _ => exact h

/-- An expression with its accesses and calls that is all of a text is read as far as the mark of an
optional access. In front of such a mark no class is extended. -/
theorem Stands.accesses {part : Tree} {root : NodeId} (h : Stands s pos text inner tail)
    (hs : Whole s) (hdepth : s.depth ≤ maxDepth)
    (hread : ReadsAlone leftHandSide s.depth text inner part root)
    (hmeets : Meets tail .questionDot) (hextends : ∀ a ∈ inner, a.1.isKeyword .extendsWord = false)
    (hchain : ∀ e, part.node root ≠ .chainExpression e) :
    Accesses s false pos (pos + inner.length) fun t i => t.SameBelow i part root := by
  obtain ⟨e, s', halone, rfl, rfl, rfl, hmark, hamid, hangles, huncut⟩ :=
    h.exists_readAlone hs hdepth hread hmeets rfl
  have hlooser : e.Looser (Precedence.exponentiation.level + 1) := by
    refine ⟨fun operator hoperator => ?_, fun _ => Nat.lt_succ_self _, fun _ => hextends⟩
    rw [hmark] at hoperator
    cases hoperator
  have haccesses := Embedded.accesses halone hangles huncut hlooser hchain
  rwa [hamid] at haccesses

/-- In the middle of any text, a text with these tokens is read as an expression with its accesses
and calls, of which one is optional, and more may follow. -/
structure Chaining (limit : Nat) (text : List Char) (inner : List SpannedToken)
    (P : Tree → NodeId → Prop) : Prop where
  spells : ∀ tail, Lexeme.Separate text tail → Spells text inner tail
  ne_nil : text ≠ []
  lasting : Lasting P
  begins : ∃ first more, inner = first :: more ∧ BeginsOperand first.1
  reads : ∀ {s : State} {pos : Nat} {tail : List Char}, Whole s → s.depth ≤ limit →
    Stands s pos text inner tail → Lexeme.Separate text tail →
      Accesses s true pos (pos + inner.length) P

namespace Chaining

/-- What may follow directly makes the chain longer. -/
theorem follow (h : Chaining limit text inner P) (h' : Trailing limit false piece second P Q)
    (hseparate : Lexeme.Separate text piece) :
    Chaining limit (text ++ piece) (inner ++ tokensMovedTo (origin.after text) second) Q := by
  have hne := h'.piece_ne_nil
  have hfirst : ∀ tail, Lexeme.Separate text (piece ++ tail) := fun tail a ha b hb =>
    hseparate a ha b (by rwa [List.head?_append_of_ne_nil _ hne] at hb)
  have hlast : ∀ tail, Lexeme.Separate (text ++ piece) tail → Spells piece second tail :=
    fun tail htail => h'.spells tail (htail.suffix _ hne)
  refine ⟨fun tail htail => (h.spells _ (hfirst tail)).append (hlast tail htail),
    List.append_ne_nil_of_left_ne_nil h.ne_nil _, h'.lasting, ?_,
    fun {s pos tail} hs hdepth hstands htail => ?_⟩
  · obtain ⟨first, more, rfl, hbegins⟩ := h.begins
    exact ⟨first, _, rfl, hbegins⟩
  · have hpiece := htail.suffix _ hne
    have haccesses := h.reads hs hdepth (hstands.left (hlast tail htail)) (hfirst tail)
    have hfollows := h'.reads hs hdepth (hstands.right (hlast tail htail)) hpiece
    rw [List.length_append, Spells.length_tokensMovedTo, ← Nat.add_assoc]
    exact haccesses.follows hfollows (Nat.lt_add_of_pos_right (List.length_pos_of_ne_nil h'.ne_nil))

/-- All of it is an operand. -/
theorem phrased (h : Chaining (limit + 1) text inner P) (hlimit : limit < maxDepth) :
    Phrased limit .operand text inner (Chained true P) := by
  refine ⟨fun tail hclear => h.spells tail hclear.separate, h.ne_nil, lasting_chained true h.lasting,
    fun {s pos tail mark} hs hdepth hstands hclear hmeets hends => ?_⟩
  have hnext := hstands.tokenAt_of_meets hmeets
  have hsize := hs.succ_lt_size (show s.tokenAt (pos + inner.length) ≠ .eof by simp [hnext])
  obtain ⟨hleaves, hupdate⟩ := leavesOperand_of_endsOperands hends
  have haccesses : Accesses s.deeper true pos (pos + inner.length) P :=
    h.reads hs.deeper (Nat.succ_le_succ hdepth) hstands hclear.separate
  have hbegins : BeginsOperand (s.tokenAt pos) := by
    obtain ⟨first, more, rfl, hbegins⟩ := h.begins
    obtain ⟨p, htoken⟩ := hstands.tokenAt_add (k := 0) rfl
    exact (show s.tokenAt pos = _ from htoken) ▸ beginsOperand_movedTo hbegins p
  exact haccesses.unary hbegins (hdepth.trans_lt hlimit) (Nat.lt_of_succ_lt hsize).le
    (hnext ▸ hleaves) (hnext ▸ hupdate) h.lasting

end Chaining

theorem marks_questionDot (next : List Char) :
    Marks ['?', '.'] .questionDot (.between origin (origin.after ['?', '.'])) next :=
  ⟨fun _ => spells_of_cut rfl, List.cons_ne_nil _ _, [], List.nil_prefix, rfl, rfl⟩

/-- What is read alone, with an optional access after it. -/
theorem ReadAs.exists_chaining {X : Tree → NodeId → Prop} {more : List Char}
    (h : ReadAs room leftHandSide text X) (hlimit : limit ≤ room) (hroom : room ≤ maxDepth)
    (hmark : Lexeme.Clear text ['?'])
    (hextends : ∀ read, tokenize text = .ok read → ∀ a ∈ read, a.1.isKeyword .extendsWord = false)
    (hchain : ∀ part root, X part root → ∀ e, part.node root ≠ .chainExpression e)
    (hbelow : ∀ t i part root, X part root → t.SameBelow i part root → P t i)
    (h' : Trailing limit true (['?', '.'] ++ more) second P Q) :
    ∃ inner, Chaining limit (text ++ (['?', '.'] ++ more)) inner Q := by
  obtain ⟨inner, htext, hscan, h⟩ := h.exists_spells
  have hne := h'.piece_ne_nil
  have hclear : ∀ tail, Lexeme.Clear text (['?', '.'] ++ more ++ tail) := fun tail a ha b hb =>
    hmark a ha b hb
  have hlast : ∀ tail, Lexeme.Separate (text ++ (['?', '.'] ++ more)) tail →
      Spells (['?', '.'] ++ more) second tail := fun tail htail => h'.spells tail (htail.suffix _ hne)
  refine ⟨_, fun tail htail => (htext _ (hclear tail)).append (hlast tail htail),
    List.append_ne_nil_of_right_ne_nil _ hne, h'.lasting, ?_,
    fun {s pos tail} hs hdepth hstands htail => ?_⟩
  · obtain ⟨part, root, ⟨-, -, s', hrun, -⟩, -⟩ := h 0 (Nat.zero_le _)
    obtain ⟨heof, hbegins⟩ := beginsOperand_of_leftHandSide hrun
    cases inner with
    | nil => cases heof
    | cons first more => exact ⟨first, _, rfl, hbegins⟩
  · obtain ⟨part, root, hread, hx⟩ := h s.depth (hdepth.trans hlimit)
    have hpiece := htail.suffix _ hne
    have hmeets : Meets (['?', '.'] ++ more ++ tail) .questionDot := by
      rw [List.append_assoc]
      exact (marks_questionDot more).meets tail
    have haccesses := (hstands.left (hlast tail htail)).accesses hs (hdepth.trans (hlimit.trans hroom))
      hread hmeets (fun a ha => hextends _ hscan a (List.mem_append_left _ ha)) (hchain _ _ hx)
    have hfollows := h'.reads hs hdepth (hstands.right (hlast tail htail)) hpiece
    rw [List.length_append, Spells.length_tokensMovedTo, ← Nat.add_assoc]
    exact (haccesses.weaken fun t i => hbelow t i part root hx).follows hfollows
      (Nat.lt_add_of_pos_right (List.length_pos_of_ne_nil h'.ne_nil))

end Parse
end ScriptLint
