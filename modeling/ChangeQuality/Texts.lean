import Mathlib.Data.List.Infix

/-!
Python strings as sequences of code points, which may hold the surrogates that no `Char` is, and
the `str` methods on them.
-/

namespace ChangeQuality.Texts

/-- A Python string: its code points. -/
abbrev Text := List Nat

/-- The text of a string literal of the source. -/
def ofString (s : String) : Text :=
  s.toList.map Char.toNat

/-- `str.isspace` on one character. -/
def isSpace (c : Nat) : Bool :=
  [0x1c, 0x1d, 0x1e, 0x1f, 0x20, 0x85, 0xa0, 0x1680, 0x2028, 0x2029, 0x202f, 0x205f,
    0x3000].contains c ||
    (0x09 ≤ c && c ≤ 0x0d) || (0x2000 ≤ c && c ≤ 0x200a)

/-- `str.strip`. -/
def strip (s : Text) : Text :=
  ((s.dropWhile isSpace).reverse.dropWhile isSpace).reverse

/-- The characters at which `str.splitlines` ends a line. -/
def isLineBreak (c : Nat) : Bool :=
  [0x1c, 0x1d, 0x1e, 0x85, 0x2028, 0x2029].contains c || (0x0a ≤ c && c ≤ 0x0d)

/-- The lines of a text, `line` being what has been read of the first one, backwards. -/
def splitlinesFrom (line : Text) : Text → List Text
  | [] => if line.isEmpty then [] else [line.reverse]
  | 0x0d :: 0x0a :: s => line.reverse :: splitlinesFrom [] s
  | c :: s =>
    if isLineBreak c then line.reverse :: splitlinesFrom [] s
    else splitlinesFrom (c :: line) s

/-- `str.splitlines`. -/
def splitlines (s : Text) : List Text :=
  splitlinesFrom [] s

/-- `"\n".join(lines)`. -/
def joinLines (lines : List Text) : Text :=
  List.intercalate [0x0a] lines

/-- `s[s.find(mark):]`, where `find` does not answer -1. -/
def findFrom (mark : Nat) (s : Text) : Option Text :=
  let found := s.dropWhile (· != mark)
  if found.isEmpty then none else some found

theorem strip_isInfix (s : Text) : strip s <:+: s := by
  have hright : ((s.dropWhile isSpace).reverse.dropWhile isSpace).reverse <+:
      s.dropWhile isSpace := by
    simpa using List.reverse_prefix.mpr
      (List.dropWhile_suffix isSpace (l := (s.dropWhile isSpace).reverse))
  exact hright.isInfix.trans (List.dropWhile_suffix isSpace).isInfix

/-- Nothing at either end of the text is white space. -/
structure Trimmed (s : Text) : Prop where
  front : ∀ c, s.head? = some c → isSpace c = false
  back : ∀ c, s.getLast? = some c → isSpace c = false

theorem dropWhile_of_front {s : Text} (h : ∀ c, s.head? = some c → isSpace c = false) :
    s.dropWhile isSpace = s := by
  cases s with
  | nil => rfl
  | cons c s => exact List.dropWhile_cons_of_neg (by rw [h c rfl]; simp)

theorem strip_of_trimmed {s : Text} (h : Trimmed s) : strip s = s := by
  have hback : ∀ c, s.reverse.head? = some c → isSpace c = false := by
    intro c hc
    exact h.back c (by rwa [List.head?_reverse] at hc)
  unfold strip
  rw [dropWhile_of_front h.front, dropWhile_of_front hback, List.reverse_reverse]

theorem head?_dropWhile {s : Text} {c : Nat} (h : (s.dropWhile isSpace).head? = some c) :
    isSpace c = false := by
  have hnot := List.head?_dropWhile_not isSpace s
  rw [h] at hnot
  simpa using hnot

theorem trimmed_strip (s : Text) : Trimmed (strip s) := by
  unfold strip
  constructor
  · intro c hc
    obtain ⟨cut, hcut⟩ := List.dropWhile_suffix isSpace (l := (s.dropWhile isSpace).reverse)
    have hfront : s.dropWhile isSpace =
        ((s.dropWhile isSpace).reverse.dropWhile isSpace).reverse ++ cut.reverse := by
      rw [← List.reverse_append, hcut, List.reverse_reverse]
    refine head?_dropWhile (s := s) ?_
    rw [hfront, List.head?_append, hc]
    rfl
  · intro c hc
    rw [List.getLast?_reverse] at hc
    exact head?_dropWhile hc

theorem strip_strip (s : Text) : strip (strip s) = strip s :=
  strip_of_trimmed (trimmed_strip s)

/-- A text without the white space around it. -/
theorem strip_cut {front s back : Text} (hfront : ∀ c ∈ front, isSpace c)
    (hback : ∀ c ∈ back, isSpace c) (h : Trimmed s) (hne : s ≠ []) :
    strip (front ++ s ++ back) = s := by
  have hleft : (front ++ s ++ back).dropWhile isSpace = s ++ back := by
    rw [List.append_assoc, List.dropWhile_append_of_pos hfront]
    refine dropWhile_of_front fun c hc => h.front c ?_
    rwa [List.head?_append_of_ne_nil _ hne] at hc
  have hright : (s ++ back).reverse.dropWhile isSpace = s.reverse := by
    rw [List.reverse_append, List.dropWhile_append_of_pos]
    · refine dropWhile_of_front fun c hc => h.back c ?_
      rwa [List.head?_reverse] at hc
    · intro c hc
      exact hback c (List.mem_reverse.mp hc)
  unfold strip
  rw [hleft, hright, List.reverse_reverse]

theorem findFrom_suffix {mark : Nat} {s t : Text} (h : findFrom mark s = some t) : t <:+ s := by
  unfold findFrom at h
  dsimp only at h
  split at h
  · simp at h
  · obtain rfl := Option.some.inj h
    exact List.dropWhile_suffix _

example : splitlines (ofString "a\r\n\n b") = [ofString "a", [], ofString " b"] := by
  decide

end ChangeQuality.Texts
