import ScriptLint.Proofs.Token.Exchange

namespace ScriptLint
namespace Template

/-- A character of a template's text, or a substitution as a whole. -/
inductive Atom (α : Type) where
  | char (c : Char)
  | substitution (inside : α)

/-- Atoms that are the same character, or substitutions that are related. -/
inductive Atom.Rel {α β : Type} (r : α → β → Prop) : Atom α → Atom β → Prop where
  | char (c : Char) : Rel r (.char c) (.char c)
  | substitution {a : α} {b : β} (h : r a b) : Rel r (.substitution a) (.substitution b)

/-- What has just been read. -/
inductive Mode where
  | plain
  /-- A backslash. -/
  | slash
  /-- A dollar sign that no backslash stands before. -/
  | dollar
  deriving DecidableEq

namespace Mode
variable {α β : Type} {m m' : Mode}

/-- Reads one more character of a text; there is no mode after a backtick, or after the brace that
makes a dollar sign the beginning of a substitution. -/
def afterChar? (m : Mode) (c : Char) : Option Mode :=
  if m = .slash then some .plain
  else if c = '\\' then some .slash
  else if c = '`' then none
  else if c = '$' then some .dollar
  else if c = '{' ∧ m = .dollar then none
  else some .plain

def after? (m : Mode) : Atom α → Option Mode
  | .char c => m.afterChar? c
  | .substitution _ => if m = .slash then none else some .plain

/-- Reads some atoms. -/
def run? (m : Mode) (atoms : List (Atom α)) : Option Mode := atoms.foldlM after? m

/-- The atoms can be read to the end, and the last one is no backslash that waits for more. -/
def Admits (m : Mode) (atoms : List (Atom α)) : Prop := ∃ m', m.run? atoms = some m' ∧ m' ≠ .slash

theorem run?_cons (a : Atom α) (atoms : List (Atom α)) :
    m.run? (a :: atoms) = (m.after? a).bind fun m' => m'.run? atoms := List.foldlM_cons

theorem run?_append (a b : List (Atom α)) :
    m.run? (a ++ b) = (m.run? a).bind fun m' => m'.run? b := List.foldlM_append

theorem admits_nil : m.Admits ([] : List (Atom α)) ↔ m ≠ .slash :=
  ⟨fun ⟨_, h, hne⟩ => by cases h; exact hne, fun h => ⟨m, rfl, h⟩⟩

theorem admits_cons {a : Atom α} {atoms : List (Atom α)} :
    m.Admits (a :: atoms) ↔ ∃ m', m.after? a = some m' ∧ m'.Admits atoms := by
  simp only [Admits, run?_cons, Option.bind_eq_some_iff]
  exact ⟨fun ⟨n, ⟨m', h, h'⟩, hn⟩ => ⟨m', h, n, h', hn⟩, fun ⟨m', h, n, h', hn⟩ => ⟨n, ⟨m', h, h'⟩, hn⟩⟩

theorem admits_append {a b : List (Atom α)} :
    m.Admits (a ++ b) ↔ ∃ m', m.run? a = some m' ∧ m'.Admits b := by
  simp only [Admits, run?_append, Option.bind_eq_some_iff]
  exact ⟨fun ⟨n, ⟨m', h, h'⟩, hn⟩ => ⟨m', h, n, h', hn⟩, fun ⟨m', h, n, h', hn⟩ => ⟨n, ⟨m', h, h'⟩, hn⟩⟩

/-- How atoms are read does not depend on what the substitutions are. -/
theorem run?_congr {r : α → β → Prop} {a : List (Atom α)} {b : List (Atom β)}
    (h : List.Forall₂ (Atom.Rel r) a b) : m.run? a = m.run? b := by
  induction h generalizing m with
  | nil => rfl
  | cons hatom _ ih =>
    rw [run?_cons, run?_cons]
    cases hatom <;> exact Option.bind_congr fun _ _ => ih

theorem admits_congr {r : α → β → Prop} {a : List (Atom α)} {b : List (Atom β)}
    (h : List.Forall₂ (Atom.Rel r) a b) : m.Admits a ↔ m.Admits b := by
  rw [Admits, Admits, run?_congr h]

end Mode

def Atom.isBrace {α : Type} : Atom α → Bool
  | .char c => c == '{'
  | .substitution _ => false

/-- The first of the atoms is a brace. -/
def opensBrace {α : Type} (atoms : List (Atom α)) : Bool := atoms.head?.any Atom.isBrace

/-- After a dollar sign stands what may stand elsewhere, but no brace. -/
theorem Mode.admits_dollar {α : Type} {atoms : List (Atom α)} :
    Mode.dollar.Admits atoms ↔ Mode.plain.Admits atoms ∧ opensBrace atoms = false := by
  cases atoms with
  | nil => simp [Mode.admits_nil, opensBrace]
  | cons a atoms =>
    simp only [Mode.admits_cons, opensBrace, List.head?_cons, Option.any_some]
    cases a with
    | substitution inside => simp [Mode.after?, Atom.isBrace]
    | char c =>
      by_cases hc : c = '{'
      · subst hc
        simp [Mode.after?, Mode.afterChar?, Atom.isBrace]
      · simp [Mode.after?, Mode.afterChar?, Atom.isBrace, hc]

/-- The characters of a text as atoms. -/
def chars {α : Type} (text : List Char) : List (Atom α) := text.map .char

section
variable {c : Char} {text quasi rest : List Char} {ending : QuasiEnd}

theorem splitQuasi_cons (hslash : c ≠ '\\') (hbacktick : c ≠ '`')
    (hdollar : c = '$' → text.head? ≠ some '{') :
    splitQuasi (c :: text) = (splitQuasi text).map fun (q, e, rest) => (c :: q, e, rest) := by
  rw [splitQuasi]
  · rw [if_neg (by simpa using hslash)]
  · rintro d tail rfl -
    exact hslash rfl
  · rintro rfl
    exact hbacktick rfl
  · rintro tail rfl rfl
    exact hdollar rfl rfl

theorem admits_of_splitQuasi (h : splitQuasi text = some (quasi, ending, rest)) :
    Mode.plain.Admits (chars (α := List Char) quasi) := by
  fun_induction splitQuasi text generalizing quasi with
  | case1 => cases h
  | case2 c text ih =>
    obtain ⟨⟨q, e, r⟩, hq, heq⟩ := Option.map_eq_some_iff.mp h
    cases heq
    exact Mode.admits_cons.mpr ⟨.slash, rfl, Mode.admits_cons.mpr ⟨.plain, rfl, ih hq⟩⟩
  | case3 => cases h; exact Mode.admits_nil.mpr (by decide)
  | case4 => cases h; exact Mode.admits_nil.mpr (by decide)
  | case5 => cases h
  | case6 c text hescape hbacktick hopen hslash ih =>
    obtain ⟨⟨q, e, r⟩, hq, heq⟩ := Option.map_eq_some_iff.mp h
    cases heq
    rw [beq_iff_eq] at hslash
    by_cases hdollar : c = '$'
    · subst hdollar
      refine Mode.admits_cons.mpr ⟨.dollar, rfl, Mode.admits_dollar.mpr ⟨ih hq, ?_⟩⟩
      rw [Bool.eq_false_iff]
      intro hbrace
      cases q with
      | nil => cases hbrace
      | cons d q =>
        have hd : d = '{' := by simpa [opensBrace, chars, Atom.isBrace] using hbrace
        have hjoin := splitQuasi_append hq
        exact hopen (q ++ ending.written ++ rest) rfl (by rw [← hjoin, hd]; rfl)
    · refine Mode.admits_cons.mpr ⟨.plain, ?_, ih hq⟩
      have hback : c ≠ '`' := fun h => hbacktick h
      simp [Mode.after?, Mode.afterChar?, hslash, hback, hdollar]

theorem splitQuasi_of_admits (h : Mode.plain.Admits (chars (α := List Char) quasi))
    (ending : QuasiEnd) (rest : List Char) :
    splitQuasi (quasi ++ ending.written ++ rest) = some (quasi, ending, rest) := by
  induction hn : quasi.length using Nat.strongRecOn generalizing quasi with
  | _ n ih =>
    subst hn
    cases quasi with
    | nil => cases ending <;> rfl
    | cons c quasi =>
      obtain ⟨m, hm, h⟩ := Mode.admits_cons.mp h
      by_cases hslash : c = '\\'
      · subst hslash
        cases hm
        cases quasi with
        | nil => exact absurd rfl (Mode.admits_nil.mp h)
        | cons d quasi =>
          obtain ⟨m, hm, h⟩ := Mode.admits_cons.mp h
          cases hm
          have hrest := ih quasi.length (by simp only [List.length_cons]; omega) h rfl
          rw [List.cons_append, List.cons_append, List.cons_append, List.cons_append, splitQuasi,
            hrest]
          rfl
      by_cases hbacktick : c = '`'
      · subst hbacktick
        cases hm
      have hadmits : Mode.plain.Admits (chars (α := List Char) quasi) ∧
          (c = '$' → (quasi ++ ending.written ++ rest).head? ≠ some '{') := by
        by_cases hdollar : c = '$'
        · subst hdollar
          cases hm
          obtain ⟨h, hbrace⟩ := Mode.admits_dollar.mp h
          refine ⟨h, fun _ hhead => ?_⟩
          cases quasi with
          | nil => cases ending <;> cases hhead
          | cons d quasi =>
            cases hhead
            cases hbrace
        · have hm' : Mode.plain.after? (Atom.char c : Atom (List Char)) = some .plain := by
            simp [Mode.after?, Mode.afterChar?, hslash, hbacktick, hdollar]
          rw [hm', Option.some.injEq] at hm
          subst hm
          exact ⟨h, fun heq => absurd heq hdollar⟩
      have hrest := ih quasi.length (by simp) hadmits.1 rfl
      rw [List.cons_append, List.cons_append, splitQuasi_cons hslash hbacktick hadmits.2, hrest]
      rfl

end

def Piece.atoms : Piece → List (Atom (List Char))
  | .quasi text => chars text
  | .substitution inside => [.substitution inside]

/-- A text that, put between `${` and a brace, ends there as a substitution. -/
def Closes (inside : List Char) : Prop :=
  ∀ fuel rest, inside.length < fuel →
    splitSubstitution fuel 0 (inside ++ '}' :: rest) = some (inside, rest)

/-- Atoms that are read as what they are when they are written one after the other. -/
structure Stands (atoms : List (Atom (List Char))) : Prop where
  admits : Mode.plain.Admits atoms
  closes : ∀ inside, .substitution inside ∈ atoms → Closes inside

theorem stands_of_split {fuel : Nat} {text rest : List Char}
    (h : (split fuel text).rest = some rest) :
    Stands ((split fuel text).pieces.flatMap Piece.atoms) := by
  induction fuel generalizing text with
  | zero => simp [split] at h
  | succ fuel ih =>
    cases hquasi : splitQuasi text with
    | none => simp [split, hquasi] at h
    | some found =>
      obtain ⟨quasi, ending, after⟩ := found
      have hadmits := admits_of_splitQuasi hquasi
      cases ending with
      | backtick =>
        simp only [split, hquasi, List.flatMap_singleton, Piece.atoms]
        exact ⟨hadmits, by simp [chars]⟩
      | substitution =>
        cases hinside : splitSubstitution fuel 0 after with
        | none => simp [split, hquasi, hinside] at h
        | some found =>
          obtain ⟨inside, tail⟩ := found
          simp only [split, hquasi, hinside] at h ⊢
          have htail := ih h
          obtain ⟨m, hm, hne⟩ := hadmits
          refine ⟨?_, fun i hi => ?_⟩
          · simp only [List.flatMap_cons, Piece.atoms]
            refine Mode.admits_append.mpr ⟨m, hm, Mode.admits_cons.mpr ⟨.plain, ?_, htail.admits⟩⟩
            simp [Mode.after?, hne]
          · simp only [List.flatMap_cons, Piece.atoms, List.mem_append, List.mem_singleton,
              Atom.substitution.injEq] at hi
            rcases hi with hi | rfl | hi
            · simp [chars] at hi
            · exact fun fuel' rest' => (split_exchange fuel).2 0 after i tail hinside fuel' rest'
            · exact htail.closes i hi

def Atom.written : Atom (List Char) → List Char
  | .char c => [c]
  | .substitution inside => '$' :: '{' :: inside ++ ['}']

theorem flatMap_written_chars (text : List Char) : (chars text).flatMap Atom.written = text := by
  simp [chars, List.flatMap_map, Atom.written]

theorem flatMap_written_atoms (pieces : List Piece) :
    (pieces.flatMap Piece.atoms).flatMap Atom.written = writtenAll pieces := by
  rw [List.flatMap_assoc, writtenAll]
  refine List.flatMap_congr fun piece _ => ?_
  cases piece with
  | quasi text => exact flatMap_written_chars text
  | substitution inside => simp [Piece.atoms, Piece.written, Atom.written]

section
variable {α β : Type}

/-- The last of the atoms is a dollar sign that no backslash stands before. -/
def Hangs (atoms : List (Atom α)) : Prop := Mode.plain.run? atoms = some .dollar

instance (atoms : List (Atom α)) : Decidable (Hangs atoms) :=
  inferInstanceAs (Decidable (_ = _))

/-- No stretch of atoms ends in a dollar sign of which a brace that follows would make the
beginning of a substitution. -/
def SeamFree : List (List (Atom α)) → Prop
  | [] => True
  | atoms :: more => ¬ (Hangs atoms ∧ opensBrace more.flatten = true) ∧ SeamFree more

instance decidableSeamFree : (stretches : List (List (Atom α))) → Decidable (SeamFree stretches)
  | [] => .isTrue trivial
  | _ :: more => have := decidableSeamFree more; inferInstanceAs (Decidable (_ ∧ _))

end

end Template
end ScriptLint
