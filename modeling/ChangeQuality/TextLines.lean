import Mathlib.Data.List.DropRight

/-!
Texts as lines: what trimming leaves of a text, and which lines a joined text splits into.
-/

namespace ChangeQuality.TextLines

section Trim

variable {α : Type} {blank : α → Bool} {s : List α}

/-- The text without what is blank at its two ends. -/
def trim (blank : α → Bool) (s : List α) : List α :=
  (s.dropWhile blank).rdropWhile blank

theorem trim_isInfix (blank : α → Bool) (s : List α) : trim blank s <:+: s :=
  (List.rdropWhile_prefix _ _).isInfix.trans (List.dropWhile_suffix _).isInfix

/-- A trimmed text starts with what is not blank. -/
theorem trim_head {c : α} (h : (trim blank s).head? = some c) : blank c = false := by
  obtain ⟨cut, hcut⟩ := List.rdropWhile_prefix blank (s.dropWhile blank)
  have hhead : (s.dropWhile blank).head? = some c := by
    rw [← hcut, List.head?_append_of_ne_nil]
    · exact h
    · intro hnil
      rw [trim, hnil] at h
      cases h
  have hnot := List.head?_dropWhile_not blank s
  rw [hhead] at hnot
  simpa using hnot

theorem trim_trim (blank : α → Bool) (s : List α) : trim blank (trim blank s) = trim blank s := by
  have hfront : (trim blank s).dropWhile blank = trim blank s := by
    cases htrim : trim blank s with
    | nil => rfl
    | cons c rest =>
        have hc : blank c = false := trim_head (s := s) (by rw [htrim]; rfl)
        exact List.dropWhile_cons_of_neg (by simp [hc])
  change ((trim blank s).dropWhile blank).rdropWhile blank = trim blank s
  rw [hfront]
  exact List.rdropWhile_idempotent _ _

/-- A trimmed text does not end with what is blank. -/
theorem trim_last {c : α} (h : (trim blank s).getLast? = some c) : blank c = false := by
  have hne : (s.dropWhile blank).rdropWhile blank ≠ [] := by
    intro hnil
    rw [trim, hnil] at h
    cases h
  have hlast := List.rdropWhile_last_not blank _ hne
  rw [trim, List.getLast?_eq_getLast_of_ne_nil hne] at h
  obtain rfl := Option.some.inj h
  simpa using hlast

/-- A text without blanks at its ends is trimmed. -/
theorem trim_of_ends (hhead : ∀ c, s.head? = some c → blank c = false)
    (hlast : ∀ c, s.getLast? = some c → blank c = false) : trim blank s = s := by
  have hfront : s.dropWhile blank = s := by
    cases s with
    | nil => rfl
    | cons c rest => exact List.dropWhile_cons_of_neg (by simp [hhead c rfl])
  rw [trim, hfront, List.rdropWhile_eq_self_iff]
  intro hne
  simp [hlast _ (List.getLast?_eq_getLast_of_ne_nil hne)]

end Trim

/-- `split(/\r?\n/)`. -/
def lines : List Char → List (List Char)
  | [] => [[]]
  | '\n' :: rest => [] :: lines rest
  | '\r' :: '\n' :: rest => [] :: lines rest
  | c :: rest => (lines rest).modifyHead (c :: ·)

/-- `join("\n")`. -/
def unlines (parts : List (List Char)) : List Char :=
  List.intercalate ['\n'] parts

theorem lines_ne_nil (s : List Char) : lines s ≠ [] := by
  fun_induction lines s with
  | case1 => simp
  | case2 => simp
  | case3 => simp
  | case4 c rest _ _ ih => simpa using ih

/-- A character that breaks no line belongs to the first one. -/
theorem lines_cons {c : Char} {rest : List Char} (hn : c = '\n' → False)
    (hr : ∀ rest', c = '\r' → rest = '\n' :: rest' → False) :
    lines (c :: rest) = (lines rest).modifyHead (c :: ·) := by
  rw [lines]
  · exact hn
  · exact hr

theorem not_mem_lines (s : List Char) : ∀ line ∈ lines s, '\n' ∉ line := by
  induction s using lines.induct with
  | case1 => simp [lines]
  | case2 rest ih => exact List.forall_mem_cons.mpr ⟨List.not_mem_nil, ih⟩
  | case3 rest ih => exact List.forall_mem_cons.mpr ⟨List.not_mem_nil, ih⟩
  | case4 c rest hn hr ih =>
      rw [lines_cons hn hr]
      cases hrest : lines rest with
      | nil => exact absurd hrest (lines_ne_nil rest)
      | cons first more =>
          rw [hrest] at ih
          obtain ⟨hfirst, hmore⟩ := List.forall_mem_cons.mp ih
          refine List.forall_mem_cons.mpr ⟨?_, hmore⟩
          simpa [Ne.symm (show c ≠ '\n' from hn)] using hfirst

/-- A text without a line feed is one line. -/
theorem lines_of_not_mem {s : List Char} (h : '\n' ∉ s) : lines s = [s] := by
  induction s using lines.induct with
  | case1 => rfl
  | case2 rest ih => simp at h
  | case3 rest ih => simp at h
  | case4 c rest hn hr ih =>
      rw [lines_cons hn hr, ih fun hmem => h (List.mem_cons_of_mem c hmem)]
      rfl

/-- A line feed after a text that does not end with a carriage return ends the last line. -/
theorem lines_append {a : List Char} (b : List Char) (ha : a.getLast? ≠ some '\r') :
    lines (a ++ '\n' :: b) = lines a ++ lines b := by
  have hlast {c : Char} {rest : List Char} (h : (c :: rest).getLast? ≠ some '\r') :
      rest.getLast? ≠ some '\r' := by
    cases rest with
    | nil => simp
    | cons d rest => rwa [List.getLast?_cons_cons] at h
  induction a using lines.induct with
  | case1 => rfl
  | case2 rest ih => exact congrArg ([] :: ·) (ih (hlast ha))
  | case3 rest ih => exact congrArg ([] :: ·) (ih (hlast (hlast ha)))
  | case4 c rest hn hr ih =>
      have hr' : ∀ rest', c = '\r' → rest ++ '\n' :: b = '\n' :: rest' → False := by
        rintro rest' rfl heq
        cases rest with
        | nil => simp at ha
        | cons d rest => exact hr rest rfl (by rw [(List.cons.inj heq).1])
      rw [List.cons_append, lines_cons hn hr', lines_cons hn hr, ih (hlast ha)]
      cases hrest : lines rest with
      | nil => exact absurd hrest (lines_ne_nil rest)
      | cons first more => rfl

/-- The lines of a joined text are those of its parts. -/
theorem lines_unlines {parts : List (List Char)} (hne : parts ≠ [])
    (h : ∀ part ∈ parts, part.getLast? ≠ some '\r') :
    lines (unlines parts) = parts.flatMap lines := by
  induction parts with
  | nil => exact absurd rfl hne
  | cons part rest ih =>
      obtain ⟨hpart, hrest⟩ := List.forall_mem_cons.mp h
      cases rest with
      | nil => simp [unlines]
      | cons next more =>
          have hjoin : unlines (part :: next :: more) = part ++ '\n' :: unlines (next :: more) := by
            simp [unlines, List.intercalate]
          rw [hjoin, lines_append _ hpart, ih (List.cons_ne_nil _ _) hrest]
          rfl

end ChangeQuality.TextLines
