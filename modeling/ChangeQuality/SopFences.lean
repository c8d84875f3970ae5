import ChangeQuality.JsonLineBreaks
import ChangeQuality.SopNormalForm

/-!
Code fences around a review: when the review that a text holds is still read with one more fence
around the text.
-/

namespace ChangeQuality.SopFences

open ChangeQuality.Texts
open ChangeQuality.JsonDecoding
open ChangeQuality.JsonEncoding
open ChangeQuality.JsonLineBreaks
open ChangeQuality.SopReview
open ChangeQuality.SopSummaries
open ChangeQuality.SopNormalForm

variable {limits : Limits}

/-- The text in a fence: an opening line with a tag, the text, and a closing line. -/
def wrap (tag text : Text) : Text :=
  fence ++ tag ++ 0x0a :: (text ++ 0x0a :: fence)

section Lines

theorem splitlinesFrom_plain {a : Text} (h : ∀ c ∈ a, isLineBreak c = false) (line s : Text) :
    splitlinesFrom line (a ++ s) = splitlinesFrom (a.reverse ++ line) s := by
  induction a generalizing line with
  | nil => rfl
  | cons c a ih =>
      have hc := h c List.mem_cons_self
      have hcr : c ≠ 0x0d := by
        rintro rfl
        cases hc
      rw [List.cons_append, splitlinesFrom.eq_3 _ _ _ (fun _ h _ => hcr h), hc]
      rw [if_neg (by simp), ih fun d hd => h d (List.mem_cons_of_mem _ hd)]
      simp

/-- A line, and the lines behind it. -/
theorem splitlines_line {a : Text} (h : ∀ c ∈ a, isLineBreak c = false) (s : Text) :
    splitlines (a ++ 0x0a :: s) = a :: splitlines s := by
  unfold splitlines
  rw [splitlinesFrom_plain h]
  simp [splitlinesFrom, isLineBreak]

theorem splitlinesFrom_break {c : Nat} {s : Text} (h : isLineBreak c = true)
    (hcrlf : c = 0x0d → s.head? ≠ some 0x0a) (line : Text) :
    splitlinesFrom line (c :: s) = line.reverse :: splitlines s := by
  rw [splitlinesFrom.eq_3 _ _ _ fun t hc hs => hcrlf hc (by rw [hs]; rfl), if_pos h]
  rfl

theorem splitlinesFrom_keep {c : Nat} (h : isLineBreak c = false) (line s : Text) :
    splitlinesFrom line (c :: s) = splitlinesFrom (c :: line) s :=
  splitlinesFrom_plain (a := [c]) (by simpa using h) line s

/-- A line feed ends a line whatever is before it. -/
theorem splitlinesFrom_append (line s t : Text) :
    splitlinesFrom line (s ++ 0x0a :: t) = splitlinesFrom line (s ++ [0x0a]) ++ splitlines t := by
  fun_induction splitlinesFrom line s with
  | case1 line hline => rfl
  | case2 line hline => rfl
  | case3 line s ih =>
      simp only [List.cons_append, splitlinesFrom, ih]
  | case4 line c s hcrlf hbreak ih =>
      cases s with
      | nil =>
          by_cases hc : c = 0x0d
          · subst hc
            rfl
          · rw [List.cons_append, List.cons_append, splitlinesFrom_break hbreak (fun h => absurd h hc),
              splitlinesFrom_break hbreak (fun h => absurd h hc)]
            rfl
      | cons d s =>
          have hhead : ∀ after, c = 0x0d → (d :: s ++ after).head? ≠ some 0x0a := by
            intro after hc hd
            obtain rfl : d = 0x0a := Option.some.inj hd
            exact hcrlf s hc rfl
          have hleft := splitlinesFrom_break hbreak (hhead (0x0a :: t)) line
          have hright := splitlinesFrom_break hbreak (hhead [0x0a]) line
          calc splitlinesFrom line (c :: (d :: s ++ 0x0a :: t))
              = line.reverse :: (splitlines (d :: s ++ [0x0a]) ++ splitlines t) := by
                rw [hleft]
                exact congrArg _ ih
            _ = splitlinesFrom line (c :: (d :: s ++ [0x0a])) ++ splitlines t := by
                rw [hright]
                rfl
  | case5 line c s hcrlf hbreak ih =>
      have hplain := Bool.eq_false_iff.mpr hbreak
      rw [List.cons_append, List.cons_append, splitlinesFrom_keep hplain,
        splitlinesFrom_keep hplain, ih]

theorem splitlinesFrom_ne_nil (line : Text) {s : Text} (h : s ≠ []) :
    splitlinesFrom line s ≠ [] := by
  fun_induction splitlinesFrom line s with
  | case1 | case2 => exact absurd rfl h
  | case3 | case4 => simp
  | case5 line c s hcrlf hbreak ih =>
      cases s with
      | nil => simp [splitlinesFrom]
      | cons d s => exact ih (by simp)

theorem joinLines_cons (line : Text) {lines : List Text} (h : lines ≠ []) :
    joinLines (line :: lines) = line ++ 0x0a :: joinLines lines := by
  cases lines with
  | nil => exact absurd rfl h
  | cons next lines => simp [joinLines, List.intercalate_cons_cons]

/-- A line before the lines of a text. -/
theorem joinLines_line (line s : Text)
    (h : ∃ tail, (tail = [] ∨ tail = [0x0a]) ∧ joinLines (splitlines s) ++ tail = unifyBreaks s) :
    ∃ tail, (tail = [] ∨ tail = [0x0a]) ∧
      joinLines (line :: splitlines s) ++ tail = line ++ 0x0a :: unifyBreaks s := by
  by_cases hs : s = []
  · subst hs
    exact ⟨[0x0a], .inr rfl, by simp [joinLines, splitlines, splitlinesFrom, unifyBreaks]⟩
  · obtain ⟨tail, htail, heq⟩ := h
    have hlines : splitlines s ≠ [] := splitlinesFrom_ne_nil [] hs
    refine ⟨tail, htail, ?_⟩
    rw [joinLines_cons line hlines, List.append_assoc, List.cons_append, heq]

/-- The lines of a text joined again, up to the line break at its end. -/
theorem joinLines_splitlinesFrom (line s : Text) :
    ∃ tail, (tail = [] ∨ tail = [0x0a]) ∧
      joinLines (splitlinesFrom line s) ++ tail = line.reverse ++ unifyBreaks s := by
  fun_induction splitlinesFrom line s with
  | case1 line hline =>
      refine ⟨[], .inl rfl, ?_⟩
      simp only [List.isEmpty_iff] at hline
      simp [hline, joinLines, unifyBreaks]
  | case2 line hline => exact ⟨[], .inl rfl, by simp [joinLines, unifyBreaks]⟩
  | case3 line s ih =>
      simp only [unifyBreaks]
      exact joinLines_line line.reverse s ih
  | case4 line c s hcrlf hbreak ih =>
      have hunify : unifyBreaks (c :: s) = 0x0a :: unifyBreaks s := by
        rw [unifyBreaks.eq_3 c s hcrlf, if_pos hbreak]
      rw [hunify]
      exact joinLines_line line.reverse s ih
  | case5 line c s hcrlf hbreak ih =>
      have hplain := Bool.eq_false_iff.mpr hbreak
      rw [unifyBreaks_keep hplain]
      simpa using ih

end Lines

section Stripping

theorem isSpace_of_lineBreak {c : Nat} (h : isLineBreak c = true) : isSpace c = true := by
  simp only [isLineBreak, isSpace, List.contains_cons, List.contains_nil, Bool.or_false,
    Bool.or_eq_true, Bool.and_eq_true, beq_iff_eq, decide_eq_true_eq] at h ⊢
  omega

theorem plain_of_not_isSpace {c : Nat} (h : isSpace c = false) : isLineBreak c = false := by
  cases hbreak : isLineBreak c with
  | false => rfl
  | true =>
      rw [isSpace_of_lineBreak hbreak] at h
      cases h

theorem trimmed_unifyBreaks {s : Text} (h : Trimmed s) : Trimmed (unifyBreaks s) := by
  constructor
  · cases s with
    | nil => exact h.front
    | cons c s =>
        have hc := h.front c rfl
        rw [unifyBreaks_keep (plain_of_not_isSpace hc)]
        rintro _ ⟨⟩
        exact hc
  · rcases List.eq_nil_or_concat s with rfl | ⟨a, c, rfl⟩
    · exact h.back
    · have hc := h.back c (by simp)
      rw [List.concat_eq_append, unifyBreaks_before (plain_of_not_isSpace hc)]
      intro d hd
      obtain rfl : d = c := by simpa [unifyBreaks, eq_comm] using hd
      exact hc

/-- The white space around a text and the text. -/
theorem strip_parts (s : Text) :
    ∃ front back, s = front ++ strip s ++ back ∧ (∀ c ∈ front, isSpace c = true) ∧
      ∀ c ∈ back, isSpace c = true := by
  refine ⟨s.takeWhile isSpace,
    ((s.dropWhile isSpace).reverse.takeWhile isSpace).reverse, ?_, ?_, ?_⟩
  · unfold strip
    rw [List.append_assoc, ← List.reverse_append, List.takeWhile_append_dropWhile,
      List.reverse_reverse, List.takeWhile_append_dropWhile]
  · exact fun c hc => List.mem_takeWhile_imp hc
  · exact fun c hc => List.mem_takeWhile_imp (List.mem_reverse.mp hc)

theorem space_unifyBreaks {s : Text} (h : ∀ c ∈ s, isSpace c = true) :
    ∀ c ∈ unifyBreaks s, isSpace c = true := by
  intro c hc
  rcases mem_unifyBreaks hc with rfl | ⟨hc, _⟩
  · rfl
  · exact h c hc

theorem unifyBreaks_ne_nil {s : Text} (h : s ≠ []) : unifyBreaks s ≠ [] := by
  fun_induction unifyBreaks s with
  | case1 => exact h
  | case2 | case3 => simp

/-- Unifying the line breaks and stripping a text can be done in either order. -/
theorem strip_unifyBreaks {s : Text} (hne : strip s ≠ []) {tail : Text}
    (htail : ∀ c ∈ tail, isSpace c = true) :
    strip (unifyBreaks (s ++ tail)) = unifyBreaks (strip s) := by
  obtain ⟨front, back, hs, hfront, hback⟩ := strip_parts s
  have htrimmed := trimmed_strip s
  have hhead : (strip s ++ (back ++ tail)).head? ≠ some 0x0a := by
    rw [List.head?_append_of_ne_nil _ hne]
    intro hc
    exact absurd (htrimmed.front _ hc) (by decide)
  have hlast : (strip s).getLast? ≠ some 0x0d := by
    intro hc
    exact absurd (htrimmed.back _ hc) (by decide)
  have hblank : ∀ c ∈ back ++ tail, isSpace c = true := by
    intro c hc
    exact (List.mem_append.mp hc).elim (hback c) (htail c)
  have hunify : unifyBreaks (s ++ tail) =
      unifyBreaks front ++ unifyBreaks (strip s) ++ unifyBreaks (back ++ tail) := by
    calc unifyBreaks (s ++ tail) = unifyBreaks (front ++ (strip s ++ (back ++ tail))) := by
          rw [← List.append_assoc, ← List.append_assoc, ← hs]
      _ = _ := by
          rw [unifyBreaks_append fun _ => hhead, unifyBreaks_append fun h => absurd h hlast,
            List.append_assoc]
  rw [hunify]
  exact strip_cut (space_unifyBreaks hfront) (space_unifyBreaks hblank)
    (trimmed_unifyBreaks htrimmed) (unifyBreaks_ne_nil hne)

theorem strip_append_blank (s : Text) {blank : Text} (h : ∀ c ∈ blank, isSpace c = true) :
    strip (s ++ blank) = strip s := by
  by_cases hne : strip s = []
  · rw [hne]
    refine strip_eq_nil.mpr fun c hc => ?_
    exact (List.mem_append.mp hc).elim (strip_eq_nil.mp hne c) (h c)
  · obtain ⟨front, back, hs, hfront, hback⟩ := strip_parts s
    have hblank : ∀ c ∈ back ++ blank, isSpace c = true := by
      intro c hc
      exact (List.mem_append.mp hc).elim (hback c) (h c)
    have hcut := strip_cut hfront hblank (trimmed_strip s) hne
    rwa [← List.append_assoc, ← hs] at hcut

theorem strip_joinLines {s : Text} (hne : strip s ≠ []) (tail : Text)
    (htail : ∀ c ∈ tail, isSpace c = true) :
    strip (joinLines (splitlines (s ++ tail))) = unifyBreaks (strip s) := by
  obtain ⟨after, hafter, hjoin⟩ := joinLines_splitlinesFrom [] (s ++ tail)
  rw [List.reverse_nil, List.nil_append] at hjoin
  have hblank : ∀ c ∈ after, isSpace c = true := by
    rcases hafter with rfl | rfl <;> decide
  calc strip (joinLines (splitlines (s ++ tail)))
      = strip (joinLines (splitlines (s ++ tail)) ++ after) := (strip_append_blank _ hblank).symm
    _ = strip (unifyBreaks (s ++ tail)) := congrArg strip hjoin
    _ = unifyBreaks (strip s) := strip_unifyBreaks hne htail

end Stripping

section Wrapping

theorem fence_plain : ∀ c ∈ fence, isLineBreak c = false := by
  rw [fence_eq]
  decide

theorem splitlines_wrap {tag : Text} (htag : ∀ c ∈ tag, isLineBreak c = false) (text : Text) :
    splitlines (wrap tag text) =
      (fence ++ tag) :: (splitlines (text ++ [0x0a]) ++ [fence]) := by
  have hopening : ∀ c ∈ fence ++ tag, isLineBreak c = false := by
    intro c hc
    exact (List.mem_append.mp hc).elim (fence_plain c) (htag c)
  have hclosing : splitlines fence = [fence] := by
    rw [fence_eq]
    decide
  unfold wrap
  rw [splitlines_line hopening]
  have hlines : splitlines (text ++ 0x0a :: fence) =
      splitlines (text ++ [0x0a]) ++ splitlines fence := splitlinesFrom_append [] text fence
  rw [hlines, hclosing]

theorem strip_wrap (tag text : Text) : strip (wrap tag text) = wrap tag text := by
  refine strip_of_trimmed ⟨?_, ?_⟩
  · unfold wrap
    rw [fence_eq]
    rintro _ ⟨⟩
    rfl
  · have hwrap : wrap tag text = fence ++ tag ++ 0x0a :: (text ++ [0x0a, 0x60, 0x60]) ++ [0x60] := by
      unfold wrap
      rw [fence_eq]
      simp
    rw [hwrap, List.getLast?_concat]
    rintro _ ⟨⟩
    rfl

/-- One fence is taken off, and the line breaks in it are line feeds. -/
theorem stripCodeFence_wrap {tag text : Text} (htag : ∀ c ∈ tag, isLineBreak c = false)
    (hne : strip text ≠ []) :
    stripCodeFence (strip (wrap tag text)) = unifyBreaks (strip text) := by
  have hlines : splitlines (text ++ [0x0a]) ≠ [] := splitlinesFrom_ne_nil [] (by simp)
  have hopening : fence.isPrefixOf (wrap tag text) = true := by
    rw [List.isPrefixOf_iff_prefix]
    unfold wrap
    rw [List.append_assoc]
    exact List.prefix_append _ _
  have hclosing : strip fence = fence := by
    rw [fence_eq]
    decide
  have hlast : ((fence ++ tag) :: (splitlines (text ++ [0x0a]) ++ [fence])).getLast?.map strip =
      some fence := by
    rw [← List.cons_append, List.getLast?_concat, Option.map_some, hclosing]
  have hlength := List.length_pos_iff.mpr hlines
  rw [strip_wrap]
  unfold stripCodeFence
  rw [if_pos hopening, splitlines_wrap htag]
  dsimp only
  rw [if_pos ⟨by simp; omega, hlast⟩]
  simp only [List.tail_cons, List.dropLast_concat]
  exact strip_joinLines hne [0x0a] (by decide)

end Wrapping

section Reading

theorem findFrom_some {mark : Nat} {s candidate : Text} (h : findFrom mark s = some candidate) :
    ∃ front after, s = front ++ mark :: after ∧ candidate = mark :: after ∧ mark ∉ front := by
  unfold findFrom at h
  dsimp only at h
  split at h
  · cases h
  · obtain rfl := Option.some.inj h
    cases hfound : s.dropWhile (· != mark) with
    | nil => simp_all
    | cons c after =>
        have hhead := List.head?_dropWhile_not (· != mark) s
        rw [hfound] at hhead
        obtain rfl : c = mark := by simpa using hhead
        refine ⟨s.takeWhile (· != c), after, ?_, rfl, fun hmem => ?_⟩
        · rw [← hfound, List.takeWhile_append_dropWhile]
        · simpa using List.mem_takeWhile_imp hmem

theorem findFrom_of_not_mem {mark : Nat} {front : Text} (h : mark ∉ front) (after : Text) :
    findFrom mark (front ++ mark :: after) = some (mark :: after) := by
  have hskip : ∀ c ∈ front, (c != mark) = true := by
    intro c hc
    have hne : c ≠ mark := by
      rintro rfl
      exact h hc
    simpa using hne
  unfold findFrom
  rw [List.dropWhile_append_of_pos hskip, List.dropWhile_cons_of_neg (by simp)]
  rfl

theorem findFrom_of_mem {mark : Nat} {s : Text} (h : mark ∈ s) :
    ∃ candidate, findFrom mark s = some candidate := by
  unfold findFrom
  dsimp only
  split
  next hempty =>
    rw [List.isEmpty_iff, List.dropWhile_eq_nil_iff] at hempty
    exact absurd (hempty mark h) (by simp)
  · exact ⟨_, rfl⟩

/-- The brace of the object stays where it is. -/
theorem findFrom_unifyBreaks {s candidate : Text} (h : findFrom 0x7b s = some candidate) :
    findFrom 0x7b (unifyBreaks s) = some (unifyBreaks candidate) := by
  obtain ⟨front, after, rfl, rfl, hfront⟩ := findFrom_some h
  have hbrace : isLineBreak 0x7b = false := by decide
  rw [unifyBreaks_before hbrace, unifyBreaks_keep hbrace]
  refine findFrom_of_not_mem (fun hmem => ?_) _
  rcases mem_unifyBreaks hmem with h | ⟨h, _⟩
  · cases h
  · exact hfront h

theorem loadJsonObject_ok {text : Text} {parsed : List (Text × Value)}
    (h : loadJsonObject limits text = .ok parsed) :
    ∃ candidate after, findFrom 0x7b (stripCodeFence (strip text)) = some candidate ∧
      rawDecode limits candidate = .ok (.obj parsed, after) := by
  unfold loadJsonObject at h
  split at h
  · cases h
  next candidate hcandidate =>
    split at h
    next after hdecode =>
      cases h
      exact ⟨candidate, after, hcandidate, hdecode⟩
    all_goals cases h

theorem loadJsonObject_of_ok {text candidate after : Text} {parsed : List (Text × Value)}
    (hfind : findFrom 0x7b (stripCodeFence (strip text)) = some candidate)
    (hdecode : rawDecode limits candidate = .ok (.obj parsed, after)) :
    loadJsonObject limits text = .ok parsed := by
  unfold loadJsonObject
  rw [hfind]
  dsimp only
  rw [hdecode]

theorem loadJsonObject_of_error {text candidate : Text} {message : String}
    (hfind : findFrom 0x7b (stripCodeFence (strip text)) = some candidate)
    (hdecode : rawDecode limits candidate = .error (.jsonDecodeError message)) :
    ∃ e, loadJsonObject limits text = .error (.valueError e) := by
  unfold loadJsonObject
  rw [hfind]
  dsimp only
  rw [hdecode]
  exact ⟨_, rfl⟩

end Reading

section Lengths

theorem strip_length (s : Text) : (strip s).length ≤ s.length :=
  (strip_isInfix s).length_le

theorem mem_setItem {key : Text} {value : Value} {entries : List (Text × Value)}
    {entry : Text × Value} (h : entry ∈ setItem key value entries) :
    entry ∈ entries ∨ entry.2 = value := by
  induction entries with
  | nil =>
      rw [setItem, List.mem_singleton] at h
      exact .inr (by rw [h])
  | cons head entries ih =>
      rw [setItem] at h
      split at h
      · rcases List.mem_cons.mp h with rfl | h
        · exact .inr rfl
        · exact .inl (List.mem_cons_of_mem _ h)
      · rcases List.mem_cons.mp h with rfl | h
        · exact .inl List.mem_cons_self
        · exact (ih h).imp_left (List.mem_cons_of_mem _)

/-- The values of a dictionary are those of the members. -/
theorem mem_dict {members : List (Text × Value)} {entry : Text × Value}
    (h : entry ∈ dict members) : ∃ member ∈ members, member.2 = entry.2 := by
  have hfold : ∀ before : List (Text × Value),
      entry ∈ members.foldl (fun entries member => setItem member.1 member.2 entries) before →
        entry ∈ before ∨ ∃ member ∈ members, member.2 = entry.2 := by
    clear h
    induction members with
    | nil => exact fun before h => .inl h
    | cons member members ih =>
        intro before h
        rcases ih _ h with h | ⟨found, hfound, heq⟩
        · exact (mem_setItem h).imp_right fun heq => ⟨member, List.mem_cons_self, heq.symm⟩
        · exact .inr ⟨found, List.mem_cons_of_mem _ hfound, heq⟩
  exact (hfold [] h).elim (fun h => by cases h) id

theorem mem_of_getItem {entries : List (Text × Value)} {key : Text} {value : Value}
    (h : getItem entries key = some value) : ∃ entry ∈ entries, entry.2 = value := by
  obtain ⟨before, after, hsplit, _⟩ := List.lookup_eq_some_iff.mp h
  exact ⟨(key, value), by rw [hsplit]; simp, rfl⟩

theorem joinSurrogates_length (units : List CodeUnit) :
    (joinSurrogates units).length ≤ units.length := by
  fun_induction joinSurrogates units with
  | case1 => exact Nat.le_refl _
  | case2 c units ih => exact Nat.succ_le_succ ih
  | case3 u v units hpair ih =>
      simp only [List.length_cons]
      omega
  | case4 u v units hpair ih => exact Nat.succ_le_succ ih
  | case5 u units hlast ih => exact Nat.succ_le_succ ih

theorem units_length {s : Text} {units : List CodeUnit} (h : Units s units) :
    units.length ≤ s.length := by
  induction h with
  | nil => exact Nat.le_refl _
  | plain | simple | escaped =>
      simp only [List.length_cons]
      omega

theorem denotes_str_length {lexeme text : Text} (h : Denotes lexeme (.str text)) :
    text.length ≤ lexeme.length := by
  generalize hvalue : Value.str text = value at h
  cases h with
  | constant hword =>
      subst hvalue
      simp [constants] at hword
  | number hnumber => cases hnumber <;> cases hvalue
  | str hquoted =>
      cases hvalue
      obtain ⟨hunits⟩ := hquoted
      have hjoin := joinSurrogates_length ‹_›
      have hunits := units_length hunits
      simp only [List.length_append, List.length_cons]
      omega
  | emptyArr | arr | emptyObj | obj => cases hvalue

/-- The literal of a member's value is no longer than all members. -/
theorem members_value : ∀ {body : Text} {members : List (Text × Value)}, Members body members →
    ∀ member ∈ members, ∃ lexeme, lexeme.length ≤ body.length ∧ Denotes lexeme member.2
  | _, _, .last _ _ _ _ h _, member, hmember => by
      rw [List.mem_singleton.mp hmember]
      exact ⟨_, by simp only [List.length_append, List.length_cons]; omega, h⟩
  | _, _, .more _ _ _ _ h _ ht, member, hmember => by
      rcases List.mem_cons.mp hmember with rfl | hmember
      · exact ⟨_, by simp only [List.length_append, List.length_cons]; omega, h⟩
      · obtain ⟨lexeme, hlength, hdenotes⟩ := members_value ht member hmember
        exact ⟨lexeme, by simp only [List.length_append, List.length_cons]; omega, hdenotes⟩

/-- A text in an object is no longer than the object's literal. -/
theorem getItem_length {lexeme key text : Text} {parsed : List (Text × Value)}
    (h : Denotes lexeme (.obj parsed)) (hitem : getItem parsed key = some (.str text)) :
    text.length ≤ lexeme.length := by
  generalize hvalue : Value.obj parsed = value at h
  cases h with
  | constant hword =>
      subst hvalue
      simp [constants] at hword
  | number hnumber => cases hnumber <;> cases hvalue
  | emptyObj =>
      cases hvalue
      cases hitem
  | obj hmembers =>
      cases hvalue
      obtain ⟨entry, hentry, hentryValue⟩ := mem_of_getItem hitem
      obtain ⟨member, hmember, hmemberValue⟩ := mem_dict hentry
      obtain ⟨inner, hlength, hdenotes⟩ := members_value hmembers member hmember
      rw [hmemberValue, hentryValue] at hdenotes
      have htext := denotes_str_length hdenotes
      simp only [List.length_append, List.length_cons]
      omega
  | str | emptyArr | arr => cases hvalue

theorem joinLines_length_left (before lines : List Text) :
    (joinLines lines).length ≤ (joinLines (before ++ lines)).length := by
  induction before with
  | nil => exact Nat.le_refl _
  | cons line before ih =>
      by_cases hne : before ++ lines = []
      · rw [(List.append_eq_nil_iff.mp hne).2]
        exact Nat.zero_le _
      · rw [List.cons_append, joinLines_cons line hne]
        simp only [List.length_append, List.length_cons]
        omega

theorem joinLines_length_right (lines after : List Text) :
    (joinLines lines).length ≤ (joinLines (lines ++ after)).length := by
  induction lines with
  | nil => exact Nat.zero_le _
  | cons line lines ih =>
      by_cases hne : lines = []
      · subst hne
        by_cases hafter : after = []
        · subst hafter
          exact Nat.le_refl _
        · rw [List.cons_append, List.nil_append, joinLines_cons line hafter]
          simp [joinLines]
      · have hmore : lines ++ after ≠ [] := by simp [hne]
        rw [List.cons_append, joinLines_cons line hne, joinLines_cons line hmore]
        simp only [List.length_append, List.length_cons]
        omega

theorem reading_length {output text : Text} (h : Reading output text) :
    text.length ≤ output.length := by
  have hstrip := strip_length output
  rcases h with rfl | ⟨lines, ⟨before, after, hlines⟩, rfl⟩
  · exact hstrip
  · obtain ⟨tail, _, hjoin⟩ := joinLines_splitlinesFrom [] (strip output)
    have hlength := congrArg List.length hjoin
    have hunify := unifyBreaks_length (strip output)
    have hright := joinLines_length_right (before ++ lines) after
    have hleft := joinLines_length_left before lines
    have hall : splitlinesFrom [] (strip output) = before ++ lines ++ after := hlines.symm
    rw [hall] at hlength
    simp only [List.length_append, List.length_reverse, List.length_nil] at hlength
    omega

/-- A text in the object that is read from an answer is no longer than the answer. -/
theorem loaded_length {output key text : Text} {parsed : List (Text × Value)}
    (h : loadJsonObject limits output = .ok parsed)
    (hitem : getItem parsed key = some (.str text)) : text.length ≤ output.length := by
  obtain ⟨whole, lexeme, hreading, hwithin, hdenotes⟩ := loadJsonObject_contained h
  exact (getItem_length hdenotes hitem).trans (hwithin.length_le.trans (reading_length hreading))

end Lengths

section Fallback

theorem normalizeResult_report {parsed : List (Text × Value)} {result : SopQualityReviewResult}
    (h : normalizeResult parsed = .ok result) :
    (∃ report, getItem parsed (ofString "report_markdown") = some (.str report) ∧
      result.reportMarkdown = some report) ∨
    ∃ summary findings, result.reportMarkdown = some (fallbackReport summary findings) := by
  obtain ⟨verdict, _, h⟩ := bind_ok h
  split at h
  · cases h
  next summary hsummary =>
    obtain ⟨items, _, h⟩ := bind_ok h
    obtain ⟨findings, _, h⟩ := bind_ok h
    cases h
    dsimp only
    split
    next report hreport => exact .inl ⟨report, (nonBlank_some hreport).1, rfl⟩
    · exact .inr ⟨summary, findings, rfl⟩

theorem fallbackReport_head (summary : Text) (findings : List SopQualityFinding) :
    (fallbackReport summary findings).head? = some 0x23 := by
  have hshort : (ofString "## SOP 质量报告\n\n").head? = some 0x23 := by decide
  have hheading : (ofString "## SOP 质量报告").head? = some 0x23 := by decide
  unfold fallbackReport
  split
  · rw [List.head?_append, List.head?_append, hshort]
    rfl
  · rw [List.cons_append, joinLines_cons _ (by simp), List.head?_append, hheading]
    rfl

/-- The warning about a fenced text shows the fence, which the review in the text does not. -/
theorem report_ne_wrap {text : Text} {parsed : List (Text × Value)}
    {result : SopQualityReviewResult} (hload : loadJsonObject limits text = .ok parsed)
    (h : normalizeResult parsed = .ok result) (tag : Text) :
    result.reportMarkdown ≠ some (wrap tag text) := by
  intro hwrap
  rcases normalizeResult_report h with ⟨report, hitem, hreport⟩ | ⟨summary, findings, hreport⟩
  · have hlength := loaded_length hload hitem
    obtain rfl : report = wrap tag text := Option.some.inj (hreport.symm.trans hwrap)
    simp only [wrap, List.length_append, List.length_cons] at hlength
    omega
  · have hhead := fallbackReport_head summary findings
    rw [Option.some.inj (hreport.symm.trans hwrap)] at hhead
    unfold wrap at hhead
    rw [fence_eq] at hhead
    cases hhead

/-- The fenced text is read as the review exactly if its object is. -/
theorem result_wrap_iff {text : Text} {parsed : List (Text × Value)}
    {result : SopQualityReviewResult} (hload : loadJsonObject limits text = .ok parsed)
    (h : normalizeResult parsed = .ok result) (tag : Text) :
    resultFromReviewOutput limits (wrap tag text) = .ok result ↔
      (loadJsonObject limits (wrap tag text) >>= normalizeResult) = .ok result := by
  unfold resultFromReviewOutput
  split
  next heq => rw [heq]
  next message heq =>
    rw [heq]
    constructor
    · intro hfallback
      refine absurd ?_ (report_ne_wrap hload h tag)
      rw [← Except.ok.inj hfallback, strip_wrap]
    · intro herror
      cases herror
  next e _ heq =>
    rw [heq]

end Fallback

section Transparency

/-- `_strip_code_fence` takes a fence off the text. -/
def Fenced (text : Text) : Prop :=
  fence.isPrefixOf text = true ∧ 3 ≤ (splitlines text).length ∧
    (splitlines text).getLast?.map strip = some fence

/-- The review in the text is still read with one more fence around it. Without a fence of its own,
the object holds no wide break. In a fence, no brace of the opening line is in front of the object,
or what it opens is the same review. -/
structure Wrappable (limits : Limits) (text : Text) : Prop where
  bare : ¬Fenced (strip text) → ∀ lexeme after parsed,
    findFrom 0x7b (strip text) = some (lexeme ++ after) →
      rawDecode limits (lexeme ++ after) = .ok (.obj parsed, after) → Narrow lexeme
  fenced : Fenced (strip text) → ∀ opening, (splitlines (strip text)).head? = some opening →
    0x7b ∈ opening → ∃ candidate after parsed,
      findFrom 0x7b (unifyBreaks (strip text)) = some candidate ∧
        rawDecode limits candidate = .ok (.obj parsed, after) ∧
          normalizeResult parsed = (loadJsonObject limits text >>= normalizeResult)

theorem stripCodeFence_of_not_fenced {text : Text} (h : ¬Fenced text) :
    stripCodeFence text = text := by
  unfold stripCodeFence
  split
  next hopening =>
    dsimp only
    split
    next hlines => exact absurd ⟨hopening, hlines⟩ h
    · rfl
  · rfl

theorem stripCodeFence_of_fenced {text : Text} (h : Fenced text) :
    stripCodeFence text = strip (joinLines (splitlines text).tail.dropLast) := by
  unfold stripCodeFence
  rw [if_pos h.1]
  exact if_pos h.2

theorem strip_ne_nil_of_loaded {text : Text} {parsed : List (Text × Value)}
    (h : loadJsonObject limits text = .ok parsed) : strip text ≠ [] := by
  intro hblank
  exact not_contains_of_blank (strip_eq_nil.mp hblank) (loadJsonObject_contained h)

theorem loadJsonObject_wrap {tag text candidate : Text}
    (htag : ∀ c ∈ tag, isLineBreak c = false) (hne : strip text ≠ [])
    (hfind : findFrom 0x7b (unifyBreaks (strip text)) = some candidate) :
    findFrom 0x7b (stripCodeFence (strip (wrap tag text))) = some candidate := by
  rw [stripCodeFence_wrap htag hne, hfind]

theorem bare_wrap_iff {tag text : Text} {parsed : List (Text × Value)}
    {result : SopQualityReviewResult} (htag : ∀ c ∈ tag, isLineBreak c = false)
    (hload : loadJsonObject limits text = .ok parsed)
    (h : normalizeResult parsed = .ok result) (hbare : ¬Fenced (strip text)) :
    (loadJsonObject limits (wrap tag text) >>= normalizeResult) = .ok result ↔
      Wrappable limits text := by
  obtain ⟨candidate, after, hfind, hdecode⟩ := loadJsonObject_ok hload
  rw [stripCodeFence_of_not_fenced hbare] at hfind
  obtain ⟨lexeme, rfl, hback, hcarried⟩ := rawDecode_local hdecode rfl
  have hunify := findFrom_unifyBreaks hfind
  rw [unifyBreaks_append fun hlast => absurd hlast hback] at hunify
  have hwrapped := loadJsonObject_wrap htag (strip_ne_nil_of_loaded hload) hunify
  constructor
  · intro hresult
    refine ⟨fun _ lexeme' after' parsed' hfind' hdecode' => ?_, fun hfenced => absurd hfenced hbare⟩
    obtain ⟨rfl, rfl⟩ : lexeme' = lexeme ∧ after' = after := by
      have heq := Option.some.inj (hfind'.symm.trans hfind)
      rw [heq, hdecode] at hdecode'
      cases hdecode'
      exact ⟨List.append_cancel_right heq, rfl⟩
    by_contra hwide
    obtain ⟨message, herror⟩ := (hcarried (unifyBreaks after')).lost hwide
    obtain ⟨e, he⟩ := loadJsonObject_of_error hwrapped herror
    rw [he] at hresult
    cases hresult
  · intro hwrappable
    have hnarrow := hwrappable.bare hbare lexeme after parsed hfind hdecode
    rw [loadJsonObject_of_ok hwrapped ((hcarried _).kept hnarrow)]
    exact h

theorem joinLines_concat {lines : List Text} (h : lines ≠ []) (last : Text) :
    joinLines (lines ++ [last]) = joinLines lines ++ 0x0a :: last := by
  induction lines with
  | nil => exact absurd rfl h
  | cons line lines ih =>
      by_cases hne : lines = []
      · subst hne
        simp [joinLines, List.intercalate_cons_cons]
      · rw [List.cons_append, joinLines_cons line (by simp), ih hne, joinLines_cons line hne,
          List.append_assoc, List.cons_append]

/-- A fenced text with its line breaks unified. -/
theorem fenced_parts {text : Text} (h : Fenced text) :
    ∃ opening middle closing, (splitlines text).head? = some opening ∧
      stripCodeFence text = strip middle ∧
      unifyBreaks text = opening ++ 0x0a :: (middle ++ closing) := by
  obtain ⟨tail, _, hjoin⟩ := joinLines_splitlinesFrom [] text
  have hlength := h.2.1
  rw [stripCodeFence_of_fenced h]
  unfold splitlines at hlength ⊢
  cases hlines : splitlinesFrom [] text with
  | nil => simp [hlines] at hlength
  | cons opening rest =>
      rw [hlines] at hlength hjoin
      rcases List.eq_nil_or_concat rest with rfl | ⟨middle, last, rfl⟩
      · simp at hlength
      · rw [List.concat_eq_append] at hlength hjoin ⊢
        have hmiddle : middle ≠ [] := by
          rintro rfl
          simp at hlength
        refine ⟨opening, joinLines middle, 0x0a :: last ++ tail, rfl, by simp, ?_⟩
        rw [List.reverse_nil, List.nil_append, joinLines_cons _ (by simp),
          joinLines_concat hmiddle] at hjoin
        rw [← hjoin]
        simp

theorem fenced_wrap_iff {tag text : Text} {parsed : List (Text × Value)}
    {result : SopQualityReviewResult} (htag : ∀ c ∈ tag, isLineBreak c = false)
    (hload : loadJsonObject limits text = .ok parsed)
    (h : normalizeResult parsed = .ok result) (hfenced : Fenced (strip text)) :
    (loadJsonObject limits (wrap tag text) >>= normalizeResult) = .ok result ↔
      Wrappable limits text := by
  have hne := strip_ne_nil_of_loaded hload
  have hreview : (loadJsonObject limits text >>= normalizeResult) = .ok result := by
    rw [hload]
    exact h
  obtain ⟨opening, middle, closing, hopening, hmiddle, hunify⟩ := fenced_parts hfenced
  by_cases hbrace : 0x7b ∈ opening
  · obtain ⟨candidate, hfind⟩ : ∃ candidate,
        findFrom 0x7b (unifyBreaks (strip text)) = some candidate := by
      refine findFrom_of_mem ?_
      rw [hunify]
      exact List.mem_append_left _ hbrace
    have hwrapped := loadJsonObject_wrap htag hne hfind
    constructor
    · intro hresult
      obtain ⟨parsed', hload', hnormalize'⟩ := bind_ok hresult
      obtain ⟨candidate', after, hfind', hdecode⟩ := loadJsonObject_ok hload'
      rw [hwrapped] at hfind'
      cases hfind'
      refine ⟨fun hbare => absurd hfenced hbare, fun _ _ _ _ => ?_⟩
      exact ⟨candidate, after, parsed', hfind, hdecode, hnormalize'.trans hreview.symm⟩
    · intro hwrappable
      obtain ⟨candidate', after, parsed', hfind', hdecode, hnormalize'⟩ :=
        hwrappable.fenced hfenced opening hopening hbrace
      rw [hfind] at hfind'
      cases hfind'
      rw [loadJsonObject_of_ok hwrapped hdecode]
      exact hnormalize'.trans hreview
  · have hwrappable : Wrappable limits text := by
      refine ⟨fun hbare => absurd hfenced hbare, fun _ opening' hopening' hmem => ?_⟩
      rw [hopening] at hopening'
      cases hopening'
      exact absurd hmem hbrace
    obtain ⟨candidate, after, hfind, hdecode⟩ := loadJsonObject_ok hload
    rw [hmiddle] at hfind
    obtain ⟨front, blank, hparts, hfront, _⟩ := strip_parts middle
    obtain ⟨before, object, hinner, rfl, hbefore⟩ := findFrom_some hfind
    obtain ⟨lexeme, hlexeme, _, hcarried⟩ := rawDecode_local hdecode rfl
    have hregroup : unifyBreaks (strip text) =
        (opening ++ 0x0a :: (front ++ before)) ++ 0x7b :: (object ++ (blank ++ closing)) := by
      rw [hunify, hparts, hinner]
      simp
    have hobject : 0x7b :: (object ++ (blank ++ closing)) =
        lexeme ++ (after ++ (blank ++ closing)) := by
      rw [← List.cons_append, hlexeme, List.append_assoc]
    have hfront' : 0x7b ∉ opening ++ 0x0a :: (front ++ before) := by
      simp only [List.mem_append, List.mem_cons, not_or]
      refine ⟨hbrace, by decide, fun hmem => ?_, hbefore⟩
      exact absurd (hfront _ hmem) (by decide)
    have hfind' := findFrom_of_not_mem hfront' (object ++ (blank ++ closing))
    rw [← hregroup, hobject] at hfind'
    have hunified : ∀ c ∈ lexeme, c = 0x0a ∨ isLineBreak c = false := by
      intro c hc
      have hmem : c ∈ unifyBreaks (strip text) := by
        rw [hregroup, hobject]
        exact List.mem_append_right _ (List.mem_append_left _ hc)
      exact (mem_unifyBreaks hmem).imp_right fun h => h.2
    have hnarrow : Narrow lexeme := by
      intro c hc
      rcases hunified c hc with rfl | hplain
      · rfl
      · exact not_wide_of_plain hplain
    have hdecode' := (hcarried (after ++ (blank ++ closing))).kept hnarrow
    rw [unifyBreaks_of_unified hunified] at hdecode'
    have hload' := loadJsonObject_of_ok (loadJsonObject_wrap htag hne hfind') hdecode'
    rw [hload']
    exact iff_of_true h hwrappable

def verdictOf (result : Except Raised SopQualityReviewResult) : Option SopQualityResultValue :=
  match result with
  | .ok result => result.qualityResult
  | .error _ => none

/-- A review whose summary holds a line separator. -/
def separatedSummary : Text :=
  ofString "\x7b\"quality_result\": \"pass\", \"summary\": \"a" ++ 0x2028 :: ofString "b\"\x7d"

end Transparency


end ChangeQuality.SopFences
