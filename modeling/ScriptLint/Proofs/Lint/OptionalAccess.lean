import ScriptLint.Proofs.Lint.Ending
import ScriptLint.Proofs.Lint.Negation
import ScriptLint.Proofs.Lint.Rebinding
import ScriptLint.Proofs.Parse.Chain

namespace ScriptLint

namespace Tree

variable {t : Tree} {i j : NodeId} {source : List Char}

theorem mem_follow_succ_iff {next : NodeId → Option NodeId} {fuel : Nat} :
    j ∈ follow next (fuel + 1) i ↔ j = i ∨ ∃ k, next i = some k ∧ j ∈ follow next fuel k := by
  rw [follow]
  cases next i <;> simp

theorem accessStep?_eq_applied? (t : Tree) (i : NodeId) : t.accessStep? i = (t.node i).applied? := rfl

theorem accessStep?_of_member {member : Member} (h : t.node i = .memberExpression member) :
    t.accessStep? i = some member.object := by
  rw [accessStep?_eq_applied?, h, Node.applied?]

theorem reaches_of_accessStep? (h : t.accessStep? i = some j) : t.Reaches i j :=
  .single (Node.mem_children_of_applied? h)

theorem reaches_of_mem_chain {fuel : Nat} (h : j ∈ follow t.accessStep? fuel i) : t.Reaches i j :=
  reaches_of_mem_follow (fun _ _ => reaches_of_accessStep?) h

/-- An access or a call of a text that parses begins with what it is applied to and goes on after
it. -/
theorem prolongs_of_parse (h : parse source = .ok t) (hi : t.Reachable i) : t.Prolongs i := by
  obtain ⟨root, hroot, hfits⟩ := fits_of_parse h
  obtain ⟨root', hroot', hreaches⟩ := hi
  cases hroot.symm.trans hroot'
  obtain ⟨bound, room, hfits⟩ := hfits.reaches hreaches
  exact hfits.prolongs

/-- What stands on the chain of a node begins where the node does and does not go on after it. -/
theorem range_of_mem_follow (h : parse source = .ok t) {fuel : Nat} (hi : t.Reachable i)
    {r : Span} (hr : t.range i = some r) (hj : j ∈ follow t.accessStep? fuel i) :
    ∃ q, t.range j = some q ∧ q.start = r.start ∧ q.stop ≤ r.stop := by
  induction fuel generalizing i r with
  | zero => cases hj
  | succ fuel ih =>
    rcases mem_follow_succ_iff.mp hj with rfl | ⟨object, hstep, hj⟩
    · exact ⟨r, hr, rfl, le_rfl⟩
    · obtain ⟨r', q, hr', hq, hstart, hstop⟩ := prolongs_of_parse h hi object hstep
      cases hr.symm.trans hr'
      obtain ⟨p, hp, hstart', hstop'⟩ := ih (hi.trans (reaches_of_accessStep? hstep)) hq hj
      exact ⟨p, hp, hstart'.trans hstart, hstop'.trans hstop.le⟩

/-- A node is written as a copy of another one, but for an access on the chain it ends, which is made
optional. -/
inductive MadeOptional (t t' : Tree) (found : NodeId) : NodeId → NodeId → Prop
  | found {i' object property : NodeId} {member : Member}
      (hnode : t.node found = .memberExpression member)
      (hnode' : t'.node i' = .memberExpression { member with object, property, optional := true })
      (hobject : t.Copied .none t' member.object object)
      (hproperty : t.Copied .none t' member.property property) : MadeOptional t t' found found i'
  | access {i i' object property : NodeId} {member : Member}
      (hnode : t.node i = .memberExpression member)
      (hnode' : t'.node i' = .memberExpression { member with object, property })
      (hobject : MadeOptional t t' found member.object object)
      (hproperty : t.Copied .none t' member.property property) : MadeOptional t t' found i i'
  | call {i i' callee callee' : NodeId} {arguments arguments' : List NodeId} {optional : Bool}
      (hnode : t.node i = .callExpression callee arguments optional)
      (hnode' : t'.node i' = .callExpression callee' arguments' optional)
      (hcallee : MadeOptional t t' found callee callee')
      (harguments : List.Forall₂ (t.Copied .none t') arguments arguments') :
      MadeOptional t t' found i i'

/-- A text after the mark of an access is read as its property. -/
inductive WritesAccess (t : Tree) (room : Nat) (member : Member) : List Char → Prop
  | name {name : String} {gap : List Char} (hcomputed : member.computed = false)
      (hproperty : t.node member.property = .identifier { name })
      (hname : Lexeme.IsWord name.toList) (hgap : Skipped false gap) :
      WritesAccess t room member (gap ++ name.toList)
  | index {text : List Char} (hcomputed : member.computed = true)
      (h : Parse.Rereads room .expression text fun part root =>
        t.Copied .none part member.property root) :
      WritesAccess t room member (['['] ++ (text ++ [']']))

/-- A text is read as what is accessed and called after `found`, up to a node. -/
inductive Trail (t : Tree) (room : Nat) (found : NodeId) : NodeId → List Char → Prop
  | found : Trail t room found found []
  | access {i : NodeId} {member : Member} {trail gap text : List Char}
      (hnode : t.node i = .memberExpression member) (hoptional : member.optional = false)
      (hobject : Trail t room found member.object trail) (hgap : Skipped false gap)
      (htext : t.WritesAccess room member text) :
      Trail t room found i (trail ++ (gap ++ (Parse.markText false member.computed ++ text)))
  | call {i callee : NodeId} {arguments : List NodeId} {trail gap inside : List Char}
      (hnode : t.node i = .callExpression callee arguments false)
      (hcallee : Trail t room found callee trail) (hgap : Skipped false gap)
      (harguments : Parse.ReadAs room Parse.argumentList inside fun part roots =>
        List.Forall₂ (t.Copied .none part) arguments roots) :
      Trail t room found i (trail ++ (gap ++ (['('] ++ (inside ++ [')']))))

/-- The same property is accessed on another object. -/
def Reaccesses (t : Tree) (member : Member) (optional : Bool) (P : Tree → NodeId → Prop) (t' : Tree)
    (i' : NodeId) : Prop :=
  ∃ object property, t'.node i' = .memberExpression { member with object, property, optional } ∧
    P t' object ∧ t.Copied .none t' member.property property

theorem lasting_reaccesses (t : Tree) (member : Member) (optional : Bool) {P : Tree → NodeId → Prop}
    (h : Parse.Lasting P) : Parse.Lasting (t.Reaccesses member optional P) := by
  rintro t' t'' i' ⟨object, property, hnode, hobject, hproperty⟩ hsize hsame
  exact ⟨object, property, node_of_kept hsame hnode (by simp [Node.missing]),
    h _ _ _ hobject hsize hsame, hproperty.congr hsize hsame⟩

theorem forall₂_copied_congr {t t' t'' : Tree} {x : Exchange} {items items' : List NodeId}
    (h : List.Forall₂ (t.Copied x t') items items') (hsize : t'.size ≤ t''.size)
    (hsame : ∀ j < t'.size, t''.node j = t'.node j) : List.Forall₂ (t.Copied x t'') items items' :=
  h.imp fun _ _ hcopied => hcopied.congr hsize hsame

theorem lasting_madeOptional (t : Tree) (found i : NodeId) :
    Parse.Lasting fun t' i' => t.MadeOptional t' found i i' := by
  intro t' t'' i' h hsize hsame
  induction h with
  | found hnode hnode' hobject hproperty =>
    exact .found hnode (node_of_kept hsame hnode' (by simp [Node.missing]))
      (hobject.congr hsize hsame) (hproperty.congr hsize hsame)
  | access hnode hnode' _ hproperty ih =>
    exact .access hnode (node_of_kept hsame hnode' (by simp [Node.missing])) ih
      (hproperty.congr hsize hsame)
  | call hnode hnode' _ harguments ih =>
    exact .call hnode (node_of_kept hsame hnode' (by simp [Node.missing])) ih
      (forall₂_copied_congr harguments hsize hsame)

theorem forall₂_copied_of_listedBelow {t t' part : Tree} {x : Exchange} {items roots items' : List NodeId}
    (h : List.Forall₂ (t.Copied x part) items roots) (hlisted : t'.ListedBelow items' part roots) :
    List.Forall₂ (t.Copied x t') items items' := by
  obtain ⟨base, rfl, hsame⟩ := hlisted
  exact List.forall₂_map_right_iff.mpr
    (h.imp fun _ _ hcopied => hcopied.sameBelow (hsame _ hcopied.lt_size))

/-- What is written after the mark of an access makes one on whatever it follows. -/
theorem WritesAccess.exists_trailing {t : Tree} {room limit : Nat} {member : Member}
    {text : List Char} {P : Tree → NodeId → Prop} (h : t.WritesAccess room member text)
    (hlimit : limit ≤ room) (optional : Bool) (hp : Parse.Lasting P) :
    ∃ inner, Parse.Trailing limit optional (Parse.markText optional member.computed ++ text) inner P
      (t.Reaccesses member optional P) := by
  obtain ⟨object₀, property₀, computed, optional₀⟩ := member
  cases h with
  | @name name gap hcomputed hproperty hname hgap =>
    cases hcomputed
    obtain ⟨inner, h⟩ := Parse.exists_trailing_access optional hname hgap hp
    refine ⟨inner, h.weaken (lasting_reaccesses t _ optional hp) ?_⟩
    rintro t' i' ⟨object, property, hnode, hnamed, hobject⟩
    refine ⟨object, property, hnode, hobject, ?_⟩
    refine .node id List.not_mem_nil (lt_size_of_node_ne (by simp [hnamed, Node.missing])) ?_ ?_
    · rw [hnamed, hproperty]
      rfl
    · simp [children, hproperty, Node.children]
  | index hcomputed hreads =>
    cases hcomputed
    have hphrase := hreads.phrase hlimit (lasting_copied .none t property₀)
      fun t i part root => Copied.sameBelow
    obtain ⟨inner, h⟩ := hphrase.exists_trailing optional hp
    refine ⟨inner, h.weaken (lasting_reaccesses t _ optional hp) ?_⟩
    rintro t' i' ⟨object, property, hnode, hobject, hcopied⟩
    exact ⟨object, property, hnode, hobject, hcopied⟩

/-- In front of what is accessed or called stands no part of a name. -/
theorem separate_gap {gap text piece : List Char} (hgap : Skipped false gap)
    (h : ∀ c ∈ text.head?, Lexeme.isNamePart c = false) : Lexeme.Separate piece (gap ++ text) := by
  refine Lexeme.separate_of_head (fun c hc => ?_) piece
  cases gap with
  | nil => exact h c hc
  | cons b rest => exact (Lexeme.head_of_skipped hgap c hc).2

theorem WritesAccess.separate {t : Tree} {room : Nat} {member : Member} {text : List Char}
    (h : t.WritesAccess room member text) (c : Char)
    (hc : c ∈ (Parse.markText false member.computed ++ text).head?) :
    Lexeme.isNamePart c = false := by
  cases h with
  | name hcomputed =>
    rw [hcomputed] at hc
    cases hc
    decide
  | index hcomputed =>
    rw [hcomputed] at hc
    cases hc
    decide

/-- A chain in which an access is optional goes on as the one it is made of does. -/
theorem Trail.exists_chaining {t : Tree} {room limit : Nat} {found i : NodeId}
    {text trail : List Char} {inner : List SpannedToken} (h : t.Trail room found i trail)
    (hlimit : limit ≤ room) (hroom : room ≤ Parse.maxDepth)
    (hchaining : Parse.Chaining limit text inner fun t' i' => t.MadeOptional t' found found i') :
    ∃ second, Parse.Chaining limit (text ++ trail) second
      fun t' i' => t.MadeOptional t' found i i' := by
  induction h with
  | found => exact ⟨inner, by rwa [List.append_nil]⟩
  | @access i member trail gap written hnode hoptional _ hgap htext ih =>
    obtain ⟨first, ih⟩ := ih
    obtain ⟨second, h⟩ := htext.exists_trailing hlimit false ih.lasting
    have haccesses : ∀ t' i', t.Reaccesses member false
        (fun t' i' => t.MadeOptional t' found member.object i') t' i' → t.MadeOptional t' found i i' := by
      rintro t' i' ⟨object, property, hnode', hobject, hproperty⟩
      exact .access hnode (by rw [hnode', ← hoptional]) hobject hproperty
    rw [← List.append_assoc]
    exact ⟨_, ih.follow ((h.skipped hgap).weaken (lasting_madeOptional t found i) haccesses)
      (separate_gap hgap htext.separate)⟩
  | @call i callee arguments trail gap inside hnode _ hgap harguments ih =>
    obtain ⟨first, ih⟩ := ih
    have hlasting : Parse.Lasting fun t' items => List.Forall₂ (t.Copied .none t') arguments items :=
      fun t' t'' items => forall₂_copied_congr
    obtain ⟨second, h⟩ := harguments.exists_trailing hlimit hroom ih.lasting hlasting
      fun t' items part roots => forall₂_copied_of_listedBelow
    have hcalls : ∀ t' i', Parse.CalledWith (fun t' i' => t.MadeOptional t' found callee i')
        (fun t' items => List.Forall₂ (t.Copied .none t') arguments items) t' i' →
          t.MadeOptional t' found i i' := by
      rintro t' i' ⟨callee, arguments, hnode', hcallee, harguments⟩
      exact .call hnode hnode' hcallee harguments
    rw [← List.append_assoc]
    refine ⟨_, ih.follow ((h.skipped hgap).weaken (lasting_madeOptional t found i) hcalls)
      (separate_gap hgap fun c hc => ?_)⟩
    cases hc
    decide

/-- The texts that a chain is made of are read alone as what they are the text of, the object that
gets another mark does not run together with it, and no class in it extends another one. -/
structure ChainApart (t : Tree) (room : Nat) (right found : NodeId) (member : Member)
    (object after : List Char) : Prop where
  reads : Parse.ReadAs room Parse.leftHandSide object fun part root =>
    t.Copied .none part member.object root
  unchained : ∀ e, t.node member.object ≠ .chainExpression e
  clear : Lexeme.Clear object ['?']
  unextended : ∀ read, tokenize object = .ok read →
    ∀ a ∈ read, a.1.isKeyword .extendsWord = false
  writes : ∃ access trail, t.WritesAccess room member access ∧ t.Trail room found right trail ∧
    after = Parse.markText false member.computed ++ (access ++ trail)

/-- With another mark the chain is an operand, of which the access is optional. -/
theorem ChainApart.exists_phrase {t : Tree} {room limit : Nat} {right found : NodeId}
    {member : Member} {object mark rest : List Char}
    (h : t.ChainApart room right found member object (mark ++ rest))
    (hnode : t.node found = .memberExpression member)
    (hmark : mark = ['.'] ∨ mark = [] ∧ rest.head? = some '[') (hlimit : limit < room)
    (hroom : room ≤ Parse.maxDepth) :
    Parse.Phrase limit .operand (object ++ (['?', '.'] ++ rest))
      (Parse.Chained true fun t' i' => t.MadeOptional t' found right i') := by
  obtain ⟨hreads, hunchained, hclear, hunextended, access, trail, haccess, htrail, hafter⟩ := h
  obtain rfl : rest = access ++ trail := by
    cases haccess with
    | name hcomputed =>
      rw [hcomputed] at hafter
      rcases hmark with rfl | ⟨rfl, hrest⟩
      · exact List.tail_eq_of_cons_eq hafter
      · rw [← List.nil_append rest, hafter] at hrest
        cases hrest
    | index hcomputed =>
      rw [hcomputed] at hafter
      rcases hmark with rfl | ⟨rfl, -⟩
      · cases hafter
      · exact hafter
  obtain ⟨second, hmarked⟩ := haccess.exists_trailing (show limit + 1 ≤ room from hlimit) true
    (lasting_copied .none t member.object)
  have hfound : ∀ t' i', t.Reaccesses member true
      (fun t' i' => t.Copied .none t' member.object i') t' i' → t.MadeOptional t' found found i' := by
    rintro t' i' ⟨object, property, hnode', hobject, hproperty⟩
    exact .found hnode hnode' hobject hproperty
  have hlink : ∀ part root, t.Copied .none part member.object root →
      ∀ e, part.node root ≠ .chainExpression e := by
    intro part root hcopied e he
    obtain ⟨f, hrenumbered, -⟩ := hcopied.exists_renumber List.not_mem_nil
    rw [he] at hrenumbered
    generalize hobject : t.node member.object = node at hrenumbered
    cases node <;> first | exact hunchained _ hobject | cases hrenumbered
  obtain ⟨inner, hobject⟩ := hreads.exists_chaining hlimit hroom hclear hunextended hlink
    (fun t i part root => Copied.sameBelow) (hmarked.weaken (lasting_madeOptional t found found) hfound)
  obtain ⟨inner, hchain⟩ := htrail.exists_chaining hlimit hroom hobject
  rw [List.append_assoc, List.append_assoc] at hchain
  exact ⟨inner, hchain.phrased (hlimit.trans_le hroom)⟩

end Tree

namespace Document

variable {source : List Char} {t : Tree} {path : String} {id left right found i j : NodeId}

theorem byteLength_of_text? {d : Document} {r : Span} {text : List Char}
    (hr : d.tree.range i = some r) (htext : d.text? i = some text) : r.start + byteLength text = r.stop := by
  rw [text?, hr, Option.bind_some] at htext
  obtain ⟨a, b, -, hstart, hstop⟩ := slice?_eq_some_iff.mp htext
  rw [← hstart, ← hstop, byteLength_append]

/-- Nodes that are written alike have the same text. -/
theorem writtenAlike_iff {d : Document} : d.writtenAlike i j = true ↔
    ∃ text, d.text? i = some text ∧ d.text? j = some text := by
  unfold writtenAlike
  split
  · next x y hx hy => simp only [hx, hy, beq_iff_eq, Option.some.injEq, exists_eq_left', @eq_comm _ y]
  · next hnone =>
    simp only [Bool.false_eq_true, false_iff]
    rintro ⟨text, hi, hj⟩
    exact hnone text text hi hj

/-- What is accessed is a member access on an object with the text of the guard. -/
theorem accesses_iff {d : Document} : d.accesses left i = true ↔
    ∃ member text, d.tree.node i = .memberExpression member ∧ d.text? member.object = some text ∧
      d.text? left = some text := by
  unfold accesses Tree.member?
  constructor
  · intro h
    split at h
    · next member hmember =>
      split at hmember
      · next hnode =>
        cases hmember
        obtain ⟨text, hobject, hleft⟩ := writtenAlike_iff.mp h
        exact ⟨_, text, hnode, hobject, hleft⟩
      · cases hmember
    · cases h
  · rintro ⟨member, text, hnode, hobject, hleft⟩
    rw [hnode]
    exact writtenAlike_iff.mpr ⟨text, hobject, hleft⟩

/-- Of two objects on a chain the one further in is shorter, so that they are not both written like
the guard. -/
theorem not_accesses_of_mem_follow (h : parse source = .ok t) {fuel : Nat} (hi : t.Reachable i)
    (haccess : (Document.mk path source t).accesses left i = true) {object : NodeId}
    (hobject : t.accessStep? i = some object) (hj : j ∈ Tree.follow t.accessStep? fuel object) :
    (Document.mk path source t).accesses left j = false := by
  by_contra hother
  obtain ⟨member, text, hnode, htext, hleft⟩ := accesses_iff.mp haccess
  obtain ⟨member', text', hnode', htext', hleft'⟩ :=
    accesses_iff.mp ((Bool.not_eq_false _).mp hother)
  cases hleft.symm.trans hleft'
  have hmember := Tree.accessStep?_of_member hnode
  cases hobject.symm.trans hmember
  have hinner := hi.trans (Tree.reaches_of_accessStep? hmember)
  obtain ⟨-, q, -, hq, -, -⟩ := Tree.prolongs_of_parse h hi _ hmember
  obtain ⟨r, hr, hstart, hstop⟩ := Tree.range_of_mem_follow h hinner hq hj
  obtain ⟨r', q', hr', hq', hstart', hstop'⟩ := Tree.prolongs_of_parse h
    (hinner.trans (Tree.reaches_of_mem_chain hj)) _ (Tree.accessStep?_of_member hnode')
  cases hr.symm.trans hr'
  have hlength := byteLength_of_text? hq htext
  have hlength' := byteLength_of_text? hq' htext'
  omega

/-- There is one access on a chain of which the object is written like the guard. -/
theorem eq_of_accesses (h : parse source = .ok t) {fuel : Nat} (hright : t.Reachable right)
    (hi : i ∈ Tree.follow t.accessStep? fuel right) (hj : j ∈ Tree.follow t.accessStep? fuel right)
    (hiaccess : (Document.mk path source t).accesses left i = true)
    (hjaccess : (Document.mk path source t).accesses left j = true) : i = j := by
  induction fuel generalizing right with
  | zero => cases hi
  | succ fuel ih =>
    rcases Tree.mem_follow_succ_iff.mp hi with rfl | ⟨object, hstep, hbelow⟩ <;>
      rcases Tree.mem_follow_succ_iff.mp hj with rfl | ⟨object', hstep', hbelow'⟩
    · rfl
    · rw [not_accesses_of_mem_follow h hright hiaccess hstep' hbelow'] at hjaccess
      cases hjaccess
    · rw [not_accesses_of_mem_follow h hright hjaccess hstep hbelow] at hiaccess
      cases hiaccess
    · cases hstep.symm.trans hstep'
      exact ih (hright.trans (Tree.reaches_of_accessStep? hstep)) hbelow hbelow'

/-- What stands after an object is white space and either a dot, which gets a question mark, or a
bracket, which gets both. -/
theorem exists_mark_of_optionalTail? {tail tail' : List Char} (h : optionalTail? tail = some tail') :
    ∃ space mark rest, tail = space ++ mark ++ rest ∧ tail' = space ++ "?.".toList ++ rest ∧
      space.all isSpace = true ∧ (mark = ['.'] ∨ mark = [] ∧ rest.head? = some '[') := by
  have hjoin := List.takeWhile_append_dropWhile (p := isSpace) (l := tail)
  have hspace : (tail.takeWhile isSpace).all isSpace = true :=
    List.all_eq_true.mpr fun c hc => List.mem_takeWhile_imp hc
  unfold optionalTail? at h
  split at h
  · next rest hrest =>
    rw [hrest] at hjoin
    exact ⟨_, ['.'], rest, by simpa using hjoin.symm, by simpa using (Option.some.inj h).symm,
      hspace, .inl rfl⟩
  · next rest hrest =>
    rw [hrest] at hjoin
    exact ⟨_, [], '[' :: rest, by simpa using hjoin.symm, by simpa using (Option.some.inj h).symm,
      hspace, .inr ⟨rfl, rfl⟩⟩
  · cases h

theorem slice_self (d : Document) (place : Nat) : d.slice place place = [] := by
  unfold slice
  cases hslice : slice? d.source place place with
  | none => rfl
  | some text =>
    obtain ⟨a, b, -, hstart, hstop⟩ := slice?_eq_some_iff.mp hslice
    rw [byteLength_append] at hstop
    simpa using eq_nil_of_byteLength (by omega)

/-- The chain is written as before, but for the mark of one access. -/
theorem exists_mark_of_withOptionalAccess? (h : parse source = .ok t) {fuel : Nat}
    (hright : t.Reachable right) (hfound : found ∈ Tree.follow t.accessStep? fuel right)
    {member : Member} (hnode : t.node found = .memberExpression member) {object text : List Char}
    (hobject : (Document.mk path source t).text? member.object = some object)
    (htext : (Document.mk path source t).withOptionalAccess? right found = some text) :
    ∃ space mark rest,
      (Document.mk path source t).text? right = some (object ++ space ++ mark ++ rest) ∧
        text = object ++ space ++ "?.".toList ++ rest ∧ space.all isSpace = true ∧
        (mark = ['.'] ∨ mark = [] ∧ rest.head? = some '[') := by
  have hranged := (sound_of_parse h path).ranged
  have hstep := Tree.accessStep?_of_member hnode
  have hreach := hright.trans (Tree.reaches_of_mem_chain hfound)
  obtain ⟨whole, hwhole⟩ := hranged right hright
  obtain ⟨access, haccess⟩ := hranged found hreach
  obtain ⟨inner, hinner⟩ := hranged member.object (hreach.trans (Tree.reaches_of_accessStep? hstep))
  -- All three begin at the same place, and each one ends where the next one goes on.
  obtain ⟨access', haccess', hstart, hstop⟩ :=
    Tree.range_of_mem_follow h hright hwhole.range hfound
  cases haccess.range.symm.trans haccess'
  obtain ⟨access', inner', haccess', hinner', hstart', hstop'⟩ :=
    Tree.prolongs_of_parse h hreach _ hstep
  cases haccess.range.symm.trans haccess'
  cases hinner.range.symm.trans hinner'
  obtain ⟨tail, htail⟩ := Option.isSome_iff_exists.mp
    (slice?_isSome_of_position? hstop'.le hinner.stop_boundary haccess.stop_boundary)
  obtain ⟨rest, hrest⟩ := Option.isSome_iff_exists.mp
    (slice?_isSome_of_position? hstop haccess.stop_boundary hwhole.stop_boundary)
  have hsliced : slice? source inner.start inner.stop = some object := by
    simpa [text?, hinner.range] using hobject
  have hempty : (Document.mk path source t).slice whole.start access.start = [] := by
    rw [hstart, slice_self]
  have hmember : t.member? found = some member := by rw [Tree.member?, hnode]
  unfold withOptionalAccess? at htext
  simp only [hwhole.range, haccess.range, hinner.range, hmember, hempty, bind, Option.bind_some,
    Option.bind_eq_some_iff, pure, Option.some.injEq] at htext
  obtain ⟨-, -, tail', hmark, rfl⟩ := htext
  simp only [slice, ← hstart', hsliced, htail, hrest, Option.getD_some, List.nil_append] at hmark ⊢
  obtain ⟨space, mark, after, rfl, rfl, hspace, hmark⟩ := exists_mark_of_optionalTail? hmark
  refine ⟨space, mark, after ++ rest, ?_, by simp, hspace, ?_⟩
  · rw [text?, hwhole.range, Option.bind_some, ← hstart, ← hstart']
    simpa using slice?_append (slice?_append hsliced htail) hrest
  · refine hmark.imp_right fun hnone => ⟨hnone.1, ?_⟩
    rw [List.head?_append, hnone.2]
    rfl

/-- What a guard is found to guard is the one access on the chain with an object that is written
like the guard. If it can be made optional, the chain begins with the text of the guard, and only
the mark of this access is another one. Suppose further that the texts the chain is made of are read
alone as the nodes they are of, and do not run together with the mark. Then the text is tokenized, and
if none of its angles can be mistaken, it parses as an expression: a chain, and in it what the
expression was, with this one access optional and all else copied. -/
theorem madeOptional_of_guardedAccess? (h : parse source = .ok t) (hid : t.Reachable id)
    (hnode : t.node id = .logicalExpression .and left right)
    (hfound : (Document.mk path source t).guardedAccess? id = some found) :
    ∃ member guard, t.node found = .memberExpression member ∧ member.optional = false ∧
      found ∈ t.accessChain right ∧ (Document.mk path source t).text? left = some guard ∧
      (Document.mk path source t).text? member.object = some guard ∧
      (∀ i ∈ t.accessChain right, ∀ other, t.node i = .memberExpression other →
        (Document.mk path source t).text? other.object = some guard → i = found) ∧
      ∀ text, (Document.mk path source t).withOptionalAccess? right found = some text →
        ∃ space mark rest,
          (Document.mk path source t).text? right = some (guard ++ space ++ mark ++ rest) ∧
            text = guard ++ space ++ "?.".toList ++ rest ∧ space.all isSpace = true ∧
            (mark = ['.'] ∨ mark = [] ∧ rest.head? = some '[') ∧
            (t.ChainApart 5 right found member (guard ++ space) (mark ++ rest) →
              ∃ read, tokenize text = .ok read ∧ (Parse.Unangled read →
                ∃ d e inner, expression? text = some (d, e) ∧
                  d.tree.node e = .chainExpression inner ∧
                  t.MadeOptional d.tree found right inner)) := by
  have hright : t.Reachable right := hid.child (by simp [Tree.children, hnode, Node.children])
  simp only [guardedAccess?, hnode, bind, Option.bind_eq_some_iff] at hfound
  obtain ⟨found', hfind, member, hmember, hoptional⟩ := hfound
  split_ifs at hoptional with hfree
  cases hoptional
  have haccess := List.find?_some hfind
  have hchain := List.mem_of_find?_eq_some hfind
  obtain ⟨member', guard, hnode', hobject, hleft⟩ := accesses_iff.mp haccess
  have hsame : member' = member := by simpa [Tree.member?, hnode'] using hmember
  subst hsame
  refine ⟨member', guard, hnode', by simpa using hfree, hchain, hleft, hobject,
    fun i hi other hother htext => ?_, fun text htext => ?_⟩
  · exact eq_of_accesses h hright hi hchain (accesses_iff.mpr ⟨other, guard, hother, htext, hleft⟩)
      haccess
  · obtain ⟨space, mark, rest, hwhole, rfl, hspace, hmark⟩ :=
      exists_mark_of_withOptionalAccess? h hright hchain hnode' hobject htext
    refine ⟨space, mark, rest, hwhole, rfl, hspace, hmark, fun hapart => ?_⟩
    have hphrase := hapart.exists_phrase hnode' hmark (show 4 < 5 by decide) (by decide)
    rw [← List.append_assoc] at hphrase
    obtain ⟨inner, hphrase⟩ := hphrase
    have hread := hphrase.tokenize_eq
    refine ⟨_, hread, fun hunangled => ?_⟩
    have hexpression : Parse.Phrase 3 .expression _ _ :=
      ⟨inner, (hphrase.operands .nullCoalescing).expression (by decide) le_rfl⟩
    obtain ⟨d, e, hparse, inner', hnode, hoptional⟩ :=
      exists_expression? hexpression fun read' hread' => by
        cases hread.symm.trans hread'
        exact hunangled
    exact ⟨d, e, inner', hparse, hnode, hoptional⟩

/-- Whether `a` guards the chain `a.b(c, d).e`, of which the parts are read alone. -/
def guardsCall (source : List Char) (t : Tree) (id : NodeId) : Bool :=
  match t.node id with
  | .logicalExpression .and left right =>
    match t.node right with
    | .memberExpression ⟨call, last, false, false⟩ =>
      match t.node call with
      | .callExpression found arguments false =>
        match t.node found with
        | .memberExpression ⟨object, property, false, false⟩ =>
          (Document.mk "" source t).guardedAccess? id == some found &&
            (Document.mk "" source t).text? left == some ['a'] &&
            (Document.mk "" source t).withOptionalAccess? right found == some "a?.b(c, d).e".toList &&
            t.isPlainName last "e" && t.isPlainName property "b" && t.isPlainName object "a" &&
            Parse.isReadAs 5 Parse.leftHandSide ['a']
              (fun part root => t.isCopied .none part 1 object root) &&
            Parse.isReadAs 5 Parse.argumentList "c, d".toList fun part roots =>
              arguments.length == roots.length &&
                (arguments.zip roots).all fun pair => t.isCopied .none part 1 pair.1 pair.2
        | _ => false
      | _ => false
    | _ => false
  | _ => false

theorem madeOptional_of_guardedAccess?_call : ∃ t id left right found text read d e inner,
    parse "a && a.b(c, d).e;".toList = .ok t ∧ t.Reachable id ∧
      t.node id = .logicalExpression .and left right ∧
      (Document.mk "" "a && a.b(c, d).e;".toList t).guardedAccess? id = some found ∧
      (Document.mk "" "a && a.b(c, d).e;".toList t).withOptionalAccess? right found = some text ∧
      (∃ guard, (Document.mk "" "a && a.b(c, d).e;".toList t).text? left = some guard ∧
        ∀ i ∈ t.accessChain right, ∀ other, t.node i = .memberExpression other →
          (Document.mk "" "a && a.b(c, d).e;".toList t).text? other.object = some guard →
          i = found) ∧
      tokenize text = .ok read ∧ expression? text = some (d, e) ∧
      d.tree.node e = .chainExpression inner ∧ t.MadeOptional d.tree found right inner := by
  have hguards : (parse "a && a.b(c, d).e;".toList).toOption.any (fun t =>
      t.preorder.any fun id => guardsCall "a && a.b(c, d).e;".toList t id) = true := by decide +kernel
  obtain ⟨t, h, hguards⟩ := exists_tree_of_any hguards
  obtain ⟨id, hmem, hid⟩ := List.any_eq_true.mp hguards
  have hreachable := ((sound_of_parse h "").mem_preorder id).mp hmem
  unfold guardsCall at hid
  split at hid <;> try cases hid
  next left right hnode =>
  split at hid <;> try cases hid
  next call last hright =>
  split at hid <;> try cases hid
  next found arguments hcall =>
  split at hid <;> try cases hid
  next object property hmember =>
  simp only [Bool.and_eq_true, beq_iff_eq] at hid
  obtain ⟨⟨⟨⟨⟨⟨⟨hfound, hleft⟩, htext⟩, hlast⟩, hproperty⟩, hobject⟩, hread⟩, harguments⟩ := hid
  obtain ⟨member, guard, hnode', -, -, hguard, -, hunique, hoptional⟩ :=
    madeOptional_of_guardedAccess? h hreachable hnode hfound
  cases hmember.symm.trans hnode'
  cases hleft.symm.trans hguard
  obtain ⟨space, mark, rest, -, hwritten, hspace, hmark, hparses⟩ := hoptional _ htext
  have hwritten : ['a'] ++ space ++ ['?', '.'] ++ rest =
      ['a', '?', '.', 'b', '(', 'c', ',', ' ', 'd', ')', '.', 'e'] := hwritten.symm.trans (by decide)
  obtain rfl : space = [] := by
    cases space with
    | nil => rfl
    | cons c more =>
      obtain rfl : c = '?' := List.head_eq_of_cons_eq (List.tail_eq_of_cons_eq hwritten)
      cases hspace
  obtain rfl : rest = ['b', '(', 'c', ',', ' ', 'd', ')', '.', 'e'] := by simpa using hwritten
  obtain rfl : mark = ['.'] := hmark.resolve_right fun hnone => by
    cases hnone.2
  have hword : ∀ c : Char, Lexeme.isNameStart c = true → Lexeme.IsWord [c] :=
    fun c hc => ⟨c, [], .inl rfl, hc, rfl⟩
  have hname : ∀ {property : NodeId} {name : String}, t.isPlainName property name = true →
      ∀ c, name.toList = [c] → Lexeme.isNameStart c = true → ∀ object optional,
        t.WritesAccess 5 ⟨object, property, false, optional⟩ name.toList :=
    fun hproperty c hc hstart _ _ => .name rfl (Tree.isPlainName_iff.mp hproperty) (hc ▸ hword c hstart) .nil
  have hcalled : t.Trail 5 found call _ := .call hcall .found .nil
    (Parse.readAs_of_isReadAs harguments fun part roots hroots => by
      obtain ⟨hlength, hcopied⟩ := Bool.and_eq_true_iff.mp hroots
      exact List.forall₂_iff_zip.mpr ⟨beq_iff_eq.mp hlength, fun hpair =>
        Tree.copied_of_isCopied (List.all_eq_true.mp hcopied _ hpair)⟩)
  have htrail : t.Trail 5 found right _ :=
    .access hright rfl hcalled .nil (hname hlast 'e' rfl (by decide) _ _)
  have hunextended : (tokenize ['a']).toOption.all (fun read => read.all fun a =>
      !a.1.isKeyword .extendsWord) = true := by decide +kernel
  obtain ⟨read, hread', hexpression⟩ := hparses {
    reads := Parse.readAs_of_isReadAs hread fun part root => Tree.copied_of_isCopied
    unchained := fun e he => by
      rw [Tree.isPlainName_iff.mp hobject] at he
      cases he
    clear := by decide +kernel
    unextended := fun read hread a ha => by
      rw [show tokenize ['a'] = _ from hread] at hunextended
      simpa using List.all_eq_true.mp hunextended a ha
    writes := ⟨_, _, hname hproperty 'b' rfl (by decide) _ _, htrail, rfl⟩ }
  have hplain : (tokenize "a?.b(c, d).e".toList).toOption.all (fun read => read.all fun a =>
      (Parse.afterClosingAngle a.1).isNone && !a.1.isPunct .less) = true := by decide +kernel
  rw [hread'] at hplain
  obtain ⟨d, e, inner, hexpression, hinner, hchain⟩ := hexpression (Parse.unangled_of_all hplain)
  exact ⟨t, id, left, right, found, _, read, d, e, inner, h, hreachable, hnode, hfound, htext,
    ⟨['a'], hleft, hunique⟩, hread', hexpression, hinner, hchain⟩

end Document

/-- The types of a node and of all below it. -/
def Tree.typesBelow (t : Tree) (id : NodeId) : List NodeType :=
  (t.descendants id).map t.nodeType

namespace Document

/-- Whether some guard becomes an optional access that is read as another tree. -/
def regroupsAccess (source : List Char) : Bool :=
  match parse source with
  | .ok t => t.preorder.any fun id =>
    match t.node id with
    | .logicalExpression .and _ right =>
      ((Document.mk "" source t).guardedAccess? id).any fun found =>
        ((Document.mk "" source t).withOptionalAccess? right found).any fun text =>
          (expression? text).all fun (d, e) =>
            match d.tree.node e with
            | .chainExpression inner => d.tree.typesBelow inner != t.typesBelow right
            | _ => true
    | _ => false
  | .error _ => false

/-- A closing angle is taken from a token for good each time the text around it is tried as an arrow
function. Alone, the same text is tried less often and grouped in another way. -/
theorem not_typesBelow_of_withOptionalAccess? : ¬ ∀ (source : List Char) (t : Tree) (path : String)
    (id left right found : NodeId) (text : List Char), parse source = .ok t → t.Reachable id →
      t.node id = .logicalExpression .and left right →
      (Document.mk path source t).guardedAccess? id = some found →
      (Document.mk path source t).withOptionalAccess? right found = some text →
      ∃ d e inner, expression? text = some (d, e) ∧ d.tree.node e = .chainExpression inner ∧
        d.tree.typesBelow inner = t.typesBelow right := by
  intro hsame
  obtain ⟨source, hfound⟩ : ∃ source, regroupsAccess source = true :=
    ⟨"y = x ? (p = a && a.f(u ? (v) : q<e>>>f)) : w;".toList, by decide +kernel⟩
  unfold regroupsAccess at hfound
  split at hfound
  · next t hparse =>
    obtain ⟨id, hmem, hid⟩ := List.any_eq_true.mp hfound
    split at hid
    · next left right hnode =>
      obtain ⟨found, hguards, hfound⟩ := (Option.any_eq_true _ _).mp hid
      obtain ⟨text, htext, hread⟩ := (Option.any_eq_true _ _).mp hfound
      have hreachable := ((sound_of_parse hparse "").mem_preorder id).mp hmem
      obtain ⟨d, e, inner, hexpression, hinner, htypes⟩ :=
        hsame source t "" id left right found text hparse hreachable hnode hguards htext
      simp [hexpression, hinner, htypes] at hread
    · cases hid
  · cases hfound

end Document
end ScriptLint
