import ScriptLint.Parse.Program
import ScriptLint.Proofs.Parse.Logic
import ScriptLint.Proofs.Tree.Nesting

namespace ScriptLint

/-- A declaration of no names, with `n` empty array patterns inside each other. -/
def patternTower (n : Nat) : List Char :=
  "let ".toList ++ (List.replicate n '[' ++ List.replicate n ']')

/-- The tokens of the declaration. -/
def towerTokens (n : Nat) : List Token :=
  .keyword .letWord ::
    (List.replicate n (.punct .leftBracket) ++ (List.replicate n (.punct .rightBracket) ++ [.eof]))

theorem getD_towerTokens (n i : Nat) :
    (towerTokens n)[i]?.getD .eof = if i = 0 then .keyword .letWord
      else if i ≤ n then .punct .leftBracket
      else if i ≤ 2 * n then .punct .rightBracket else .eof := by
  cases i with
  | zero => rfl
  | succ i =>
    simp only [towerTokens, List.getElem?_cons_succ, List.getElem?_append, List.getElem?_replicate,
      List.length_replicate, List.getElem?_singleton]
    split_ifs <;> first | omega | simp_all

namespace Scan

/-- A character that always is a token of its own is one however often it stands there. -/
theorem fromPlace_replicate {c : Char} {t : Token}
    (hcut : ∀ rest, Lexeme.cut (c :: rest) = some (.token t, [c], rest)) (n fuel : Nat) (p : Position)
    (rest : List Char) : ∃ q,
      (fromPlace (n + fuel) p (List.replicate n c ++ rest)).tokens.map Prod.fst =
        List.replicate n t ++ (fromPlace fuel q rest).tokens.map Prod.fst ∧
      (fromPlace (n + fuel) p (List.replicate n c ++ rest)).errors =
        (fromPlace fuel q rest).errors := by
  induction n generalizing p with
  | zero => exact ⟨p, by simp, by simp⟩
  | succ n ih =>
    obtain ⟨q, htokens, herrors⟩ := ih (p.after [c])
    refine ⟨q, ?_, ?_⟩
    · rw [Nat.succ_add, List.replicate_succ, List.cons_append, fromPlace, hcut]
      simpa [withToken, List.replicate_succ] using htokens
    · rw [Nat.succ_add, List.replicate_succ, List.cons_append, fromPlace, hcut]
      exact herrors

end Scan

theorem tokenize_patternTower (n : Nat) :
    ∃ tokens, tokenize (patternTower n) = .ok tokens ∧ tokens.map Prod.fst = towerTokens n := by
  obtain ⟨q, hopen, hopenErrors⟩ := Scan.fromPlace_replicate (c := '[') (fun _ => rfl) n (n + 3)
    ((Position.origin.after "let".toList).after " ".toList) (List.replicate n ']')
  obtain ⟨r, hclose, hcloseErrors⟩ := Scan.fromPlace_replicate (c := ']') (fun _ => rfl) n 3 q []
  rw [List.append_nil] at hclose hcloseErrors
  have hlength : (patternTower n).length + 1 = n + (n + 3) + 2 := by
    simp [patternTower]
    omega
  have hscan : scan (patternTower n) = (Scan.fromPlace (n + (n + 3))
      ((Position.origin.after "let".toList).after " ".toList)
      (List.replicate n '[' ++ List.replicate n ']')).withToken (.keyword .letWord)
        (.between .origin (Position.origin.after "let".toList)) := by
    rw [scan, hlength]
    rfl
  have herrors : (scan (patternTower n)).errors = [] := by
    rw [hscan]
    exact hopenErrors.trans hcloseErrors
  refine ⟨(scan (patternTower n)).tokens, ?_, ?_⟩
  · simp [tokenize, herrors]
  · rw [hclose] at hopen
    rw [hscan]
    exact congrArg (Token.keyword .letWord :: ·) hopen

namespace Tree

/-- Below a node there are `n` brackets inside each other. -/
def Towers (t : Tree) (n : Nat) (i : NodeId) : Prop :=
  ∃ path, t.IsPath (i :: path) ∧ (∀ j ∈ i :: path, j < t.size) ∧ t.brackets (i :: path) = n

theorem Towers.congr {t t' : Tree} {n : Nat} {i : NodeId} (h : t.Towers n i)
    (hsize : t.size ≤ t'.size) (hnode : ∀ j, j < t.size → t'.node j = t.node j) : t'.Towers n i := by
  obtain ⟨path, hpath, hinside, hbrackets⟩ := h
  refine ⟨path, ?_, fun j hj => (hinside j hj).trans_le hsize, ?_⟩
  · refine hpath.imp_of_mem_imp fun j c hj _ hc => ?_
    rwa [Tree.children, hnode j (hinside j hj)]
  · rw [← hbrackets]
    exact List.countP_congr fun j hj => by rw [hnode j (hinside j hj)]

/-- A node around one with brackets below it. -/
theorem Towers.alloc {t : Tree} {n : Nat} {i : NodeId} (h : t.Towers n i) {node : Node}
    (hchild : i ∈ node.children) (range : Option Span) :
    (t.alloc node range).2.Towers (n + if node.isBracket then 1 else 0) t.size := by
  have hold : ∀ j, j < t.size → (t.alloc node range).2.node j = t.node j := fun j hj => by
    simp only [Tree.node, entry?_alloc, if_neg hj.ne]
  have hnew : (t.alloc node range).2.node t.size = node := by
    simp [Tree.node, entry?_alloc]
  obtain ⟨path, hpath, hinside, hbrackets⟩ := h.congr (by simp) hold
  refine ⟨i :: path, List.isChain_cons_cons.mpr ⟨?_, hpath⟩, ?_, ?_⟩
  · rwa [Tree.children, hnew]
  · simpa using hinside
  · rw [brackets_cons, hbrackets, hnew]

/-- A bracket that holds nothing. -/
theorem Towers.leaf {node : Node} (hbracket : node.isBracket = true) (t : Tree) {range : Option Span} :
    (t.alloc node range).2.Towers 1 t.size := by
  have hnew : (t.alloc node range).2.node t.size = node := by
    simp [Tree.node, entry?_alloc]
  exact ⟨[], .singleton _, by simp, by simp [brackets, hnew, hbracket]⟩

end Tree

namespace Parse

open ScriptLint.Parser

variable {α β σ : Type} {g : Grammar} {s : State} {pos : Nat} {tree : Tree} {mark : Punct}

namespace State

/-- The state further on in its tokens. -/
def reading (s : State) (pos : Nat) (tree : Tree) : State := { s with pos, tree }

@[simp] theorem current_reading (s : State) (pos : Nat) (tree : Tree) :
    (s.reading pos tree).current = s.tokenAt pos := rfl

theorem advance_reading (h : pos + 1 < s.tokens.size) (tree : Tree) :
    (s.reading pos tree).advance = s.reading (pos + 1) tree := if_pos h

end State

theorem loop_of_stop {body : σ → Parser (Loop σ)} {s s' : State} {init value : σ}
    (h : body init s = (.ok (.stop value), s')) : loop init body s = (.ok value, s') := by
  rw [loop, loopUpTo, bind_of_ok h]
  rfl

theorem loop_of_next_stop {body : σ → Parser (Loop σ)} {s s' s'' : State} {init value last : σ}
    (hnext : body init s = (.ok (.next value), s'))
    (hstop : body value s' = (.ok (.stop last), s'')) (hsize : 0 < s.tokens.size) :
    loop init body s = (.ok last, s'') := by
  obtain ⟨fuel, hfuel⟩ := Nat.exists_eq_succ_of_ne_zero (show 4 * s.tokens.size ≠ 0 by omega)
  rw [loop, loopUpTo, bind_of_ok hnext]
  change loopUpTo body (4 * s.tokens.size) value s' = _
  rw [hfuel, loopUpTo, bind_of_ok hstop]
  rfl

theorem expect_reading (htoken : s.tokenAt pos = .punct mark) (hsize : pos + 1 < s.tokens.size) :
    expect mark (s.reading pos tree) = (.ok (), s.reading (pos + 1) tree) := by
  simp [expect, htoken, Token.isPunct, State.advance_reading hsize]

theorem eat_reading (htoken : (s.tokenAt pos).isPunct mark = false) :
    eat mark (s.reading pos tree) = (.ok false, s.reading pos tree) := by
  simp [eat, eatIf, htoken]

/-- At the end of the tokens a statement ends. -/
theorem consumeSemicolon_eof (heof : s.tokenAt pos = .eof) :
    consumeSemicolon (s.reading pos tree) = (.ok (), s.reading pos tree) := by
  simp [consumeSemicolon, heof, Token.isPunct, State.atEof, Token.isEof]

theorem optionally_reading {test : Parser Bool} (item : Parser α)
    (htest : test (s.reading pos tree) = (.ok false, s.reading pos tree)) :
    optionally test item (s.reading pos tree) = (.ok none, s.reading pos tree) := by
  rw [optionally, bind_of_ok htest]
  rfl

/-- One turn of the loop of `itemsUntil`. -/
def turnUntil (close : Punct) (item : Parser α) (items : List α) : Parser (Loop (List α)) := do
  if (← check close) || (← Parser.atEof) then return .stop items
  else return .next ((← item) :: items)

theorem itemsUntil_of_loop {item : Parser α} {items : List α} {s s' : State}
    (h : loop [] (turnUntil mark item) s = (.ok items, s')) :
    itemsUntil mark item s = (.ok items.reverse, s') := by
  change (loop [] (turnUntil mark item) >>= _) s = _
  rw [bind_of_ok h]
  rfl

/-- At its closing mark a list ends. -/
theorem turnUntil_close (item : Parser α) (hclose : s.tokenAt pos = .punct mark) (items : List α) :
    turnUntil mark item items (s.reading pos tree) = (.ok (.stop items), s.reading pos tree) := by
  have hcheck : check mark (s.reading pos tree) = (.ok true, s.reading pos tree) := by
    simp [check, ask, hclose, Token.isPunct]
  rw [turnUntil, bind_of_ok hcheck]
  rfl

/-- Before another token it goes on with an item. -/
theorem turnUntil_item {item : Parser α} {a : α} {s' : State}
    (hopen : (s.tokenAt pos).isPunct mark = false) (heof : (s.tokenAt pos).isEof = false)
    (hitem : item (s.reading pos tree) = (.ok a, s')) (items : List α) :
    turnUntil mark item items (s.reading pos tree) = (.ok (.next (a :: items)), s') := by
  have hcheck : check mark (s.reading pos tree) = (.ok false, s.reading pos tree) := by
    simp [check, ask, hopen]
  have hatEof : Parser.atEof (s.reading pos tree) = (.ok false, s.reading pos tree) := by
    simp [Parser.atEof, ask, State.atEof, heof]
  rw [turnUntil, bind_of_ok hcheck, bind_of_ok hatEof]
  change (item >>= fun a => pure (Loop.next (a :: items))) _ = _
  rw [bind_of_ok hitem]
  rfl

/-- An array pattern around the elements that stand between its brackets. -/
theorem arrayPattern_reading {elements : List (Option NodeId)} {pos' : Nat} {tree' : Tree}
    (hopen : s.tokenAt pos = .punct .leftBracket) (hsize : pos + 1 < s.tokens.size)
    (helements : elementsWithHoles (do
        if ← check .dotDotDot then restElement g false else bindingElement g false)
      (s.reading (pos + 1) tree) = (.ok elements, s.reading pos' tree'))
    (hclose : s.tokenAt pos' = .punct .rightBracket) (hsize' : pos' + 1 < s.tokens.size) :
    ∃ span, arrayPattern g (s.reading pos tree) = (.ok tree'.size,
      s.reading (pos' + 1) (tree'.alloc (.arrayPattern elements none) (some span)).2) := by
  refine ⟨(s.reading (pos' + 1) tree').spanFrom (s.reading pos tree).currentSpan, ?_⟩
  change (expect .leftBracket >>= _) (s.reading pos tree) = _
  rw [bind_of_ok (expect_reading hopen hsize), bind_of_ok helements,
    bind_of_ok (expect_reading hclose hsize')]
  rfl

/-- One element before the closing bracket. -/
theorem elementsWithHoles_reading {element : Parser NodeId} {value : NodeId} {pos' : Nat}
    {tree' : Tree} (hsize : 0 < s.tokens.size) (hopen : s.tokenAt pos = .punct .leftBracket)
    (helement : element (s.reading pos tree) = (.ok value, s.reading pos' tree'))
    (hclose : s.tokenAt pos' = .punct .rightBracket) :
    elementsWithHoles element (s.reading pos tree) = (.ok [some value], s.reading pos' tree') := by
  have hcomma : eat .comma (s.reading pos tree) = (.ok false, s.reading pos tree) :=
    eat_reading (by simp [hopen, Token.isPunct])
  have hbracket : check .rightBracket (s.reading pos' tree') = (.ok true, s.reading pos' tree') := by
    simp [check, ask, hclose, Token.isPunct]
  have hitem : (do
      if ← eat .comma then return none
      let value ← element
      if !(← check .rightBracket) then expect .comma
      return some value : Parser (Option NodeId)) (s.reading pos tree) =
        (.ok (some value), s.reading pos' tree') := by
    rw [bind_of_ok hcomma]
    change (element >>= _) (s.reading pos tree) = _
    rw [bind_of_ok helement, bind_of_ok hbracket]
    rfl
  have hother : (s.tokenAt pos).isPunct .rightBracket = false := by simp [hopen, Token.isPunct]
  have hnext := turnUntil_item hother (by simp [hopen, Token.isEof]) hitem []
  exact itemsUntil_of_loop (loop_of_next_stop hnext (turnUntil_close _ hclose _) hsize)

/-- A binding without a default value. -/
theorem patternElement_reading {target : NodeId} {pos' : Nat} {tree' : Tree}
    (hopen : s.tokenAt pos = .punct .leftBracket)
    (htarget : g.bindingTarget (s.reading pos tree) = (.ok target, s.reading pos' tree'))
    (hclose : s.tokenAt pos' = .punct .rightBracket) :
    (do if ← check .dotDotDot then restElement g false else bindingElement g false :
      Parser NodeId) (s.reading pos tree) = (.ok target, s.reading pos' tree') := by
  have hdots : check .dotDotDot (s.reading pos tree) = (.ok false, s.reading pos tree) := by
    simp [check, ask, hopen, Token.isPunct]
  have hdefault : eat .equal (s.reading pos' tree') = (.ok false, s.reading pos' tree') :=
    eat_reading (by simp [hclose, Token.isPunct])
  rw [bind_of_ok hdots]
  change (g.bindingTarget >>= fun target => withDefault g _ target) _ = _
  rw [bind_of_ok htarget, withDefault, bind_of_ok hdefault]
  rfl

theorem bindingTarget_of_bracket (hopen : s.tokenAt pos = .punct .leftBracket) :
    bindingTarget g (s.reading pos tree) = arrayPattern g (s.reading pos tree) := by
  have hcurrent : Parser.current (s.reading pos tree) =
      (.ok (.punct .leftBracket), s.reading pos tree) := by
    simp [Parser.current, ask, hopen]
  rw [bindingTarget, bind_of_ok hcurrent]

/-- Brackets that are opened and then closed are that many patterns inside each other. -/
theorem bindingTarget_reading (tree : Tree) {n levels : Nat} (hlevels : n ≤ levels)
    (hopen : ∀ i ≤ n, s.tokenAt (pos + i) = .punct .leftBracket)
    (hclose : ∀ i ≤ n, s.tokenAt (pos + (n + 1) + i) = .punct .rightBracket)
    (hsize : pos + 2 * (n + 1) < s.tokens.size) :
    ∃ target tree', (Grammar.upTo (levels + 1)).bindingTarget (s.reading pos tree) =
      (.ok target, s.reading (pos + 2 * (n + 1)) tree') ∧ tree'.Towers (n + 1) target := by
  induction n generalizing pos levels with
  | zero =>
    have hempty : elementsWithHoles (do
          if ← check .dotDotDot then restElement (Grammar.upTo levels) false
          else bindingElement (Grammar.upTo levels) false)
        (s.reading (pos + 1) tree) = (.ok [], s.reading (pos + 1) tree) :=
      itemsUntil_of_loop (loop_of_stop (turnUntil_close _ (hclose 0 le_rfl) []))
    obtain ⟨span, hpattern⟩ := arrayPattern_reading (hopen 0 le_rfl) (by omega) hempty
      (hclose 0 le_rfl) (by omega)
    exact ⟨_, _, (bindingTarget_of_bracket (hopen 0 le_rfl)).trans hpattern, .leaf rfl _⟩
  | succ n ih =>
    obtain ⟨levels, rfl⟩ := Nat.exists_eq_succ_of_ne_zero (show levels ≠ 0 by omega)
    -- the brackets but the outermost pair
    have hopen' : ∀ i ≤ n, s.tokenAt (pos + 1 + i) = .punct .leftBracket := fun i hi => by
      rw [Nat.add_assoc]
      exact hopen (1 + i) (by omega)
    have hclose' : ∀ i ≤ n, s.tokenAt (pos + 1 + (n + 1) + i) = .punct .rightBracket :=
      fun i hi => by
        rw [Nat.add_assoc pos, Nat.add_comm 1]
        exact hclose i (by omega)
    obtain ⟨target, tree', htarget, htowers⟩ :=
      ih (show n ≤ levels by omega) hopen' hclose' (by omega)
    have hlast : s.tokenAt (pos + 1 + 2 * (n + 1)) = .punct .rightBracket := by
      rw [← hclose (n + 1) le_rfl]
      congr 1
      omega
    have helement := patternElement_reading (hopen 1 (by omega)) htarget hlast
    have helements := elementsWithHoles_reading (by omega) (hopen 1 (by omega)) helement hlast
    obtain ⟨span, hpattern⟩ := arrayPattern_reading (hopen 0 (by omega)) (by omega) helements hlast
      (by omega)
    have hchild : target ∈ (Node.arrayPattern [some target] none).children := by
      simp [Node.children]
    refine ⟨_, _, (bindingTarget_of_bracket (hopen 0 (by omega))).trans ?_,
      htowers.alloc hchild (some span)⟩
    have hpos : pos + 1 + 2 * (n + 1) + 1 = pos + 2 * (n + 1 + 1) := by omega
    rw [hpattern, hpos]

/-- At the end of the tokens a binding has no annotation. -/
theorem annotate_reading (target : NodeId) (heof : s.tokenAt pos = .eof) :
    annotate g target (s.reading pos tree) = (.ok (), s.reading pos tree) := by
  have hquestion : eat .question (s.reading pos tree) = (.ok false, s.reading pos tree) :=
    eat_reading (by simp [heof, Token.isPunct])
  have hbang : eat .bang (s.reading pos tree) = (.ok false, s.reading pos tree) :=
    eat_reading (by simp [heof, Token.isPunct])
  have hascription : typeAscription? g (s.reading pos tree) = (.ok none, s.reading pos tree) :=
    optionally_reading _ (by simp [check, ask, heof, Token.isPunct])
  rw [annotate, bind_of_ok hquestion, bind_of_ok hbang, bind_of_ok hascription]
  rfl

/-- The last variable of a program, without a value. -/
theorem variableDeclarator_reading {target : NodeId} {pos' : Nat} {tree' : Tree}
    (htarget : g.bindingTarget (s.reading pos tree) = (.ok target, s.reading pos' tree'))
    (heof : s.tokenAt pos' = .eof) :
    ∃ span, variableDeclarator g (s.reading pos tree) = (.ok tree'.size,
      s.reading pos' (tree'.alloc (.variableDeclarator target none) (some span)).2) := by
  have hbinding : annotatedBinding g (s.reading pos tree) = (.ok target, s.reading pos' tree') := by
    rw [annotatedBinding, bind_of_ok htarget, bind_of_ok (annotate_reading target heof)]
    rfl
  have hinit : optionally (eat .equal) g.assignment (s.reading pos' tree') =
      (.ok none, s.reading pos' tree') :=
    optionally_reading _ (eat_reading (by simp [heof, Token.isPunct]))
  refine ⟨(s.reading pos' tree').spanFrom (s.reading pos tree).currentSpan, ?_⟩
  change (annotatedBinding g >>= _) (s.reading pos tree) = _
  rw [bind_of_ok hbinding, bind_of_ok hinit]
  rfl

theorem separatedBy_reading (mark : Punct) {item : Parser NodeId} {value : NodeId} {pos' : Nat}
    {tree' : Tree} (hitem : item (s.reading pos tree) = (.ok value, s.reading pos' tree'))
    (hend : (s.tokenAt pos').isPunct mark = false) :
    separatedBy mark item (s.reading pos tree) = (.ok [value], s.reading pos' tree') := by
  have hcomma : eat mark (s.reading pos' tree') = (.ok false, s.reading pos' tree') :=
    eat_reading hend
  have hstop : (do
      if ← eat mark then return .next ((← item) :: [value]) else return .stop [value] :
        Parser (Loop (List NodeId))) (s.reading pos' tree') =
      (.ok (.stop [value]), s.reading pos' tree') := by
    rw [bind_of_ok hcomma]
    rfl
  have hloop : loop [value] (fun items => do
      if ← eat mark then return .next ((← item) :: items) else return .stop items)
        (s.reading pos' tree') = (.ok [value], s.reading pos' tree') := loop_of_stop hstop
  rw [separatedBy, bind_of_ok hitem, bind_of_ok hloop]
  rfl

/-- A declaration at the end of a program. -/
theorem variableStatement_reading {target : NodeId} {pos' n : Nat} {tree' : Tree}
    (hlet : s.tokenAt pos = .keyword .letWord) (hsize : pos + 1 < s.tokens.size)
    (htarget : g.bindingTarget (s.reading (pos + 1) tree) = (.ok target, s.reading pos' tree'))
    (heof : s.tokenAt pos' = .eof) (htowers : tree'.Towers n target) :
    ∃ id tree'', variableStatement g (s.reading pos tree) = (.ok id, s.reading pos' tree'') ∧
      tree''.Towers n id := by
  obtain ⟨span, hdeclarator⟩ := variableDeclarator_reading htarget heof
  have hbelow := htowers.alloc (show target ∈ (Node.variableDeclarator target none).children from
    List.mem_cons_self) (some span)
  generalize (tree'.alloc (.variableDeclarator target none) (some span)).2 = tree₁ at *
  have hadvance : Parser.advance (s.reading pos tree) =
      (.ok (.keyword .letWord), s.reading (pos + 1) tree) := by
    simp [Parser.advance, hlet, State.advance_reading hsize]
  have hall : variableDeclarations g (s.reading pos tree) =
      (.ok (.letKind, [tree'.size]), s.reading pos' tree₁) := by
    rw [variableDeclarations, bind_of_ok hadvance,
      bind_of_ok (separatedBy_reading .comma hdeclarator (by simp [heof, Token.isPunct]))]
    rfl
  have hsemicolon : consumeSemicolon (s.reading pos' tree₁) = (.ok (), s.reading pos' tree₁) :=
    consumeSemicolon_eof heof
  have hchild : tree'.size ∈ (Node.variableDeclaration .letKind [tree'.size]).children :=
    List.mem_cons_self
  refine ⟨_, _, ?_, hbelow.alloc hchild
    (some ((s.reading pos' tree₁).spanFrom (s.reading pos tree).currentSpan))⟩
  change (variableDeclarations g >>= _) (s.reading pos tree) = _
  rw [bind_of_ok hall]
  change (consumeSemicolon >>= _) (s.reading pos' tree₁) = _
  rw [bind_of_ok hsemicolon]
  rfl

theorem statement_reading {id : NodeId} {pos' : Nat} {tree' : Tree} (hdepth : s.depth < maxDepth)
    (hlet : s.tokenAt pos = .keyword .letWord)
    (hrun : variableStatement g (State.reading { s with depth := s.depth + 1 } pos tree) =
      (.ok id, State.reading { s with depth := s.depth + 1 } pos' tree')) :
    statement g (s.reading pos tree) = (.ok id, s.reading pos' tree') := by
  have hcurrent : Parser.current (State.reading { s with depth := s.depth + 1 } pos tree) =
      (.ok (.keyword .letWord), State.reading { s with depth := s.depth + 1 } pos tree) := by
    rw [← hlet]
    rfl
  have henter : enter (s.reading pos tree) =
      (.ok (), State.reading { s with depth := s.depth + 1 } pos tree) :=
    if_neg (Nat.not_le_of_lt hdepth)
  simp only [statement, nested, henter, bind_of_ok hcurrent, hrun]
  rfl

/-- A declaration of patterns inside each other that is the whole program. -/
theorem statement_tower (tree : Tree) {n levels : Nat} (hlevels : n < levels)
    (hdepth : s.depth < maxDepth)
    (htokens : ∀ i, s.tokenAt i = (towerTokens (n + 1))[i]?.getD .eof)
    (hsize : s.tokens.size = 2 * (n + 1) + 2) :
    ∃ id tree', statement (Grammar.upTo levels) (s.reading 0 tree) =
      (.ok id, s.reading (1 + 2 * (n + 1)) tree') ∧ tree'.Towers (n + 1) id := by
  obtain ⟨levels, rfl⟩ := Nat.exists_eq_succ_of_ne_zero (show levels ≠ 0 by omega)
  -- all but the first step is taken one level deeper, where the tokens are the same
  have hdeeper : ∀ i, State.tokenAt { s with depth := s.depth + 1 } i =
      (towerTokens (n + 1))[i]?.getD .eof := htokens
  have hlet := hdeeper 0
  have hopen : ∀ i ≤ n, State.tokenAt { s with depth := s.depth + 1 } (1 + i) =
      .punct .leftBracket := fun i hi => by
    rw [hdeeper, getD_towerTokens, if_neg (by omega), if_pos (by omega)]
  have hclose : ∀ i ≤ n, State.tokenAt { s with depth := s.depth + 1 } (1 + (n + 1) + i) =
      .punct .rightBracket := fun i hi => by
    rw [hdeeper, getD_towerTokens, if_neg (by omega), if_neg (by omega), if_pos (by omega)]
  have heof : State.tokenAt { s with depth := s.depth + 1 } (1 + 2 * (n + 1)) = .eof := by
    rw [hdeeper, getD_towerTokens, if_neg (by omega), if_neg (by omega), if_neg (by omega)]
  obtain ⟨target, tree', htarget, htowers⟩ := bindingTarget_reading tree
    (show n ≤ levels by omega) hopen hclose (by simp; omega)
  obtain ⟨id, tree'', hrun, hbelow⟩ :=
    variableStatement_reading hlet (by simp; omega) htarget heof htowers
  exact ⟨id, tree'', statement_reading hdepth (htokens 0) hrun, hbelow⟩

/-- Statements that are one statement at the end of the tokens. -/
theorem statements_one {id : NodeId} {s' : State} {fuel : Nat} (hstart : s.atEof = false)
    (hrun : statement g s = (.ok id, s')) (hend : s'.atEof = true) :
    statements g (fuel + 2) [] s = ([id], s') := by
  simp [statements, hstart, hrun, hend]

end Parse

theorem parse_of_program {source : List Char} {tokens : List SpannedToken} {t : Tree}
    (hscan : tokenize source = .ok tokens)
    (h : Parse.program { source, tokens := tokens.toArray } = .ok t) : parse source = .ok t := by
  have hstart : Parse.start source = .ok { source, tokens := tokens.toArray } := by
    rw [Parse.start, hscan]
    rfl
  rw [parse, hstart]
  simp only [h]

open Parse in
theorem parse_patternTower (n : Nat) : ∃ t root,
    parse (patternTower (n + 1)) = .ok t ∧ t.root = some root ∧ t.Towers (n + 1) root := by
  obtain ⟨tokens, hscan, htokens⟩ := tokenize_patternTower (n + 1)
  have hlength : tokens.length = 2 * (n + 1) + 2 := by
    have hkinds := congrArg List.length htokens
    simp only [List.length_map, towerTokens, List.length_cons, List.length_append,
      List.length_replicate, List.length_nil] at hkinds
    omega
  let s : State := { source := patternTower (n + 1), tokens := tokens.toArray }
  have htoken : ∀ i, s.tokenAt i = (towerTokens (n + 1))[i]?.getD .eof := fun i => by
    rw [← htokens]
    simp [s, State.tokenAt]
  have hsize : s.tokens.size = 2 * (n + 1) + 2 := hlength
  have hlevels : n < maxDepth + s.weight + 2 := by
    unfold State.weight
    omega
  obtain ⟨id, tree, hstatement, htowers⟩ := statement_tower {} hlevels (show 0 < maxDepth by decide) htoken hsize
  have hlast : s.tokenAt (1 + 2 * (n + 1)) = .eof := by
    rw [htoken, getD_towerTokens, if_neg (by omega), if_neg (by omega), if_neg (by omega)]
  have hstatements : statements (Grammar.upTo (maxDepth + s.weight + 2)) (s.tokens.size + 1) [] s =
      ([id], s.reading (1 + 2 * (n + 1)) tree) := by
    rw [hsize]
    refine statements_one ?_ hstatement ?_
    · exact congrArg Token.isEof (htoken 0)
    · exact congrArg Token.isEof hlast
  have hroot := htowers.alloc (show id ∈ (Node.program [id]).children from List.mem_cons_self)
    (some ⟨0, byteLength s.source, 1, 1⟩)
  have hprogram : program s = .ok ((tree.alloc (.program [id])
      (some ⟨0, byteLength s.source, 1, 1⟩)).2.withRoot tree.size).linkParents := by
    rw [program, hstatements]
    rfl
  have hrelinked := Tree.relinked_linkParents (show ((tree.alloc (.program [id])
    (some ⟨0, byteLength s.source, 1, 1⟩)).2.withRoot tree.size).root = some tree.size from rfl)
  exact ⟨_, tree.size, parse_of_program hscan hprogram, hrelinked.root,
    hroot.congr hrelinked.size.ge fun j _ => hrelinked.node j⟩

end ScriptLint
