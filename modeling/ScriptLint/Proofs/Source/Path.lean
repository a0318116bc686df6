import ScriptLint.Source.Path
import Mathlib.Order.Lattice
import Mathlib.Data.String.Basic

namespace ScriptLint

variable {mark : Char} {text : List Char}

theorem pieces_ne_nil (mark : Char) (text : List Char) : pieces mark text ≠ [] := by
  fun_cases pieces mark text <;> simp

theorem pieces_mark (mark : Char) (text : List Char) :
    pieces mark (mark :: text) = [] :: pieces mark text := by
  rw [pieces, if_pos rfl]

theorem pieces_cons_of_ne {c : Char} (hc : c ≠ mark) {piece : List Char} {rest : List (List Char)}
    (h : pieces mark text = piece :: rest) : pieces mark (c :: text) = (c :: piece) :: rest := by
  rw [pieces, if_neg hc, h]

/-- At a mark a text comes apart into texts with pieces of their own. -/
theorem pieces_append_mark (mark : Char) (text text' : List Char) :
    pieces mark (text ++ mark :: text') = pieces mark text ++ pieces mark text' := by
  induction text with
  | nil => exact pieces_mark mark text'
  | cons c text ih =>
    by_cases hc : c = mark
    · rw [List.cons_append, hc, pieces_mark, pieces_mark, ih, List.cons_append]
    · obtain ⟨piece, rest, heq⟩ := List.exists_cons_of_ne_nil (pieces_ne_nil mark text)
      rw [heq, List.cons_append] at ih
      rw [List.cons_append, pieces_cons_of_ne hc ih, pieces_cons_of_ne hc heq, List.cons_append]

theorem pieces_of_not_mem (h : mark ∉ text) : pieces mark text = [text] := by
  induction text with
  | nil => rfl
  | cons c text ih =>
    rw [List.mem_cons, not_or] at h
    exact pieces_cons_of_ne (Ne.symm h.1) (ih h.2)

theorem pieces_eq_singleton_nil_iff : pieces mark text = [[]] ↔ text = [] := by
  constructor
  · intro h
    cases text with
    | nil => rfl
    | cons c text =>
      obtain ⟨piece, rest, heq⟩ := List.exists_cons_of_ne_nil (pieces_ne_nil mark text)
      by_cases hc : c = mark
      · rw [hc, pieces_mark, heq] at h
        cases h
      · rw [pieces_cons_of_ne hc heq] at h
        cases h
  · rintro rfl
    rfl

namespace Path

namespace Step

variable {a b c : Step}

theorem le_total (a b : Step) : a.le b = true ∨ b.le a = true := by
  cases a <;> cases b <;> simp [le, rank]
  exact Std.le_total

theorem le_antisymm (h : a.le b = true) (h' : b.le a = true) : a = b := by
  cases a <;> cases b <;> simp [le, rank] at h h' ⊢
  exact Std.le_antisymm h h'

theorem le_trans (h : a.le b = true) (h' : b.le c = true) : a.le c = true := by
  cases a <;> cases b <;> cases c <;> simp [le, rank] at h h' ⊢
  exact Std.le_trans h h'

end Step

variable {p q r : List Step}

theorem le_cons_cons (a b : Step) (p q : List Step) :
    le (a :: p) (b :: q) = true ↔ a = b ∧ le p q = true ∨ a ≠ b ∧ a.le b = true := by
  rw [le]
  split <;> simp_all

theorem le_total (p q : List Step) : (le p q || le q p) = true := by
  induction p generalizing q with
  | nil => rfl
  | cons a p ih =>
    cases q with
    | nil => rfl
    | cons b q =>
      rw [Bool.or_eq_true, le_cons_cons, le_cons_cons]
      by_cases heq : a = b
      · subst heq
        simpa using ih q
      · simpa [heq, Ne.symm heq] using Step.le_total a b

theorem le_antisymm (h : le p q = true) (h' : le q p = true) : p = q := by
  induction p generalizing q with
  | nil =>
    cases q with
    | nil => rfl
    | cons b q => cases h'
  | cons a p ih =>
    cases q with
    | nil => cases h
    | cons b q =>
      rw [le_cons_cons] at h h'
      rcases h with ⟨rfl, h⟩ | ⟨hne, h⟩
      · rw [ih h (by simpa using h')]
      · exact absurd (Step.le_antisymm h (by simpa [Ne.symm hne] using h')) hne

theorem le_trans (h : le p q = true) (h' : le q r = true) : le p r = true := by
  induction p generalizing q r with
  | nil => rfl
  | cons a p ih =>
    cases q with
    | nil => cases h
    | cons b q =>
      cases r with
      | nil => cases h'
      | cons c r =>
        rw [le_cons_cons] at h h' ⊢
        rcases h with ⟨rfl, h⟩ | ⟨hne, h⟩
        · exact h'.imp_left fun h' => ⟨h'.1, ih h h'.2⟩
        · rcases h' with ⟨rfl, -⟩ | ⟨hne', h'⟩
          · exact .inr ⟨hne, h⟩
          · refine .inr ⟨?_, Step.le_trans h h'⟩
            rintro rfl
            exact hne (Step.le_antisymm h h')

/-- One path stands before another one in the order. -/
def Before (p q : List Step) : Prop := le p q = true ∧ p ≠ q

instance : Std.Antisymm Before := ⟨fun _ _ h h' => le_antisymm h.1 h'.1⟩

instance : Std.Irrefl Before := ⟨fun _ h => h.2 rfl⟩

/-- A name that a file or directory can have. -/
structure IsName (name : String) : Prop where
  slash : '/' ∉ name.toList
  ne_nil : name.toList ≠ []
  ne_here : name.toList ≠ ['.']
  ne_up : name.toList ≠ ['.', '.']

instance (name : String) : Decidable (IsName name) :=
  decidable_of_iff ('/' ∉ name.toList ∧ name.toList ≠ [] ∧ name.toList ≠ ['.'] ∧
      name.toList ≠ ['.', '.'])
    ⟨fun ⟨slash, ne_nil, ne_here, ne_up⟩ => ⟨slash, ne_nil, ne_here, ne_up⟩,
      fun ⟨slash, ne_nil, ne_here, ne_up⟩ => ⟨slash, ne_nil, ne_here, ne_up⟩⟩

/-- The steps that pieces after the first one stand for. -/
def later (pieces : List (List Char)) : List Step :=
  (pieces.filter fun piece => !piece.isEmpty && piece != ['.']).map Step.ofPiece

/-- The step of the piece in front, where dots and nothing say where the path begins. -/
def first : List Char → Step
  | [] => .root
  | ['.'] => .here
  | piece => .ofPiece piece

/-- The steps that pieces stand for, the first one in front. -/
def inFront : List (List Char) → List Step
  | [] => []
  | piece :: rest => first piece :: later rest

variable {front rest : List (List Char)} {path directory name : String}

theorem later_append (front rest : List (List Char)) :
    later (front ++ rest) = later front ++ later rest := by
  simp [later]

theorem later_cons_of_ne {piece : List Char} (hnil : piece ≠ []) (hhere : piece ≠ ['.']) :
    later (piece :: rest) = .ofPiece piece :: later rest := by
  simp [later, hnil, hhere]

theorem later_name (h : IsName name) : later [name.toList] = [.name name] := by
  have hstep : Step.ofPiece name.toList = .name name := by
    unfold Step.ofPiece
    split
    · next heq => exact absurd heq h.ne_here
    · next heq => exact absurd heq h.ne_up
    · rw [String.ofList_toList]
  rw [later_cons_of_ne h.ne_nil h.ne_here, hstep]
  rfl

theorem inFront_append (h : front ≠ []) :
    inFront (front ++ rest) = inFront front ++ later rest := by
  obtain ⟨piece, front, rfl⟩ := List.exists_cons_of_ne_nil h
  rw [List.cons_append, inFront, inFront, later_append, List.cons_append]

theorem steps_eq_inFront (h : path ≠ "") : steps path = inFront (pieces '/' path.toList) := by
  have hne : pieces '/' path.toList ≠ [[]] := by
    rw [Ne, pieces_eq_singleton_nil_iff, String.toList_eq_nil_iff]
    exact h
  obtain ⟨piece, rest, heq⟩ := List.exists_cons_of_ne_nil (pieces_ne_nil '/' path.toList)
  rw [heq] at hne
  unfold steps
  rw [heq]
  split
  · next hcons =>
    cases hcons
    rfl
  · next hcons =>
    cases hcons
    rfl
  · next hroot hhere =>
    rw [inFront]
    have hnil : piece ≠ [] := by
      rintro rfl
      cases rest with
      | nil => exact hne rfl
      | cons second rest => exact hroot second rest rfl
    have hdot : piece ≠ ['.'] := by
      rintro rfl
      exact hhere rest rfl
    have hfirst : first piece = .ofPiece piece := by
      unfold first
      split <;> first | contradiction | rfl
    rw [hfirst]
    exact later_cons_of_ne hnil hdot

/-- The pieces of the path of an entry are those of its directory, but for a slash at its end, and
the name. -/
theorem exists_pieces_join (directory : String) (hname : IsName name) :
    ∃ front, front ≠ [] ∧ pieces '/' (join directory name).toList = front ++ [name.toList] ∧
      (pieces '/' directory.toList = front ∨ pieces '/' directory.toList = front ++ [[]]) := by
  have hone := pieces_of_not_mem hname.slash
  unfold join
  split
  · next hslash =>
    have hlast : directory.toList.getLast? = some '/' := by simpa using hslash
    obtain ⟨text, htext⟩ := List.getLast?_eq_some_iff.mp hlast
    refine ⟨pieces '/' text, pieces_ne_nil _ _, ?_, .inr ?_⟩
    · rw [String.toList_append, htext, List.append_assoc, List.singleton_append,
        pieces_append_mark, hone]
    · rw [htext, pieces_append_mark]
      rfl
  · refine ⟨pieces '/' directory.toList, pieces_ne_nil _ _, ?_, .inl rfl⟩
    have hslash : "/".toList = ['/'] := rfl
    rw [String.toList_append, String.toList_append, hslash, List.append_assoc,
      List.singleton_append, pieces_append_mark, hone]

theorem join_ne_empty (hname : IsName name) : join directory name ≠ "" := by
  intro h
  have hlist : (join directory name).toList = [] := by rw [h]; rfl
  unfold join at hlist
  split at hlist
  · rw [String.toList_append, List.append_eq_nil_iff] at hlist
    exact hname.ne_nil hlist.2
  · rw [String.toList_append, List.append_eq_nil_iff] at hlist
    exact hname.ne_nil hlist.2

/-- The path of an entry has one step more than the path of its directory. -/
theorem steps_join (hdirectory : directory ≠ "") (hname : IsName name) :
    steps (join directory name) = steps directory ++ [.name name] := by
  obtain ⟨front, hfront, hjoin, hpieces⟩ := exists_pieces_join directory hname
  have hsame : inFront (pieces '/' directory.toList) = inFront front := by
    rcases hpieces with heq | heq
    · rw [heq]
    · rw [heq, inFront_append hfront]
      exact List.append_nil _
  rw [steps_eq_inFront (join_ne_empty hname), steps_eq_inFront hdirectory, hjoin, hsame,
    inFront_append hfront, later_name hname]

end Path
end ScriptLint
