import Mathlib.Data.List.Infix

/-!
Texts in which markers stand for what has been taken out. The characters are labelled: `true` for
those of the original, `false` for those of a marker. What is separate from the marker occurs in
such a text exactly where it occurs in a stretch of the original that was left alone.
-/

namespace ChangeQuality.MarkedTexts

variable {α : Type}

/-- Neither of two texts contains the other, and no end of one is a beginning of the other. -/
structure Separate (v marker : List α) : Prop where
  notWithin : ¬ v <:+: marker
  notAround : ¬ marker <:+: v
  notBefore : ∀ x y z, v = x ++ y → marker = y ++ z → y = []
  notBehind : ∀ x y z, marker = x ++ y → v = y ++ z → y = []

theorem disjoint_of_all [DecidableEq α] {v marker : List α}
    (h : (v.all fun c => decide (c ∉ marker)) = true) : ∀ c ∈ v, c ∉ marker := by
  simpa using h

namespace Separate

variable {v marker : List α}

theorem ne_nil (h : Separate v marker) : v ≠ [] := by
  rintro rfl
  exact h.notWithin List.nil_infix

theorem marker_ne_nil (h : Separate v marker) : marker ≠ [] := by
  rintro rfl
  exact h.notAround List.nil_infix

theorem of_disjoint (hv : v ≠ []) (hmarker : marker ≠ []) (h : ∀ c ∈ v, c ∉ marker) :
    Separate v marker where
  notWithin hinside := by
    obtain ⟨c, hc⟩ := List.exists_mem_of_ne_nil v hv
    exact h c hc (hinside.subset hc)
  notAround hinside := by
    obtain ⟨c, hc⟩ := List.exists_mem_of_ne_nil marker hmarker
    exact h c (hinside.subset hc) hc
  notBefore x y z hx hy := by
    refine List.eq_nil_iff_forall_not_mem.mpr fun c hc => ?_
    exact h c (by simp [hx, hc]) (by simp [hy, hc])
  notBehind x y z hx hy := by
    refine List.eq_nil_iff_forall_not_mem.mpr fun c hc => ?_
    exact h c (by simp [hy, hc]) (by simp [hx, hc])

/-- What is separate from a text does not occur across it. -/
theorem infix_around (h : Separate v marker) (a b : List α) :
    v <:+: a ++ (marker ++ b) ↔ v <:+: a ∨ v <:+: b := by
  constructor
  · intro hinside
    rcases List.infix_append_iff_ne_nil.mp hinside with ha | hrest | ⟨x, y, -, hy, rfl, -, hhead⟩
    · exact .inl ha
    · rcases List.infix_append_iff_ne_nil.mp hrest with hm | hb | ⟨x, y, hx, -, rfl, ⟨z, hz⟩, -⟩
      · exact absurd hm h.notWithin
      · exact .inr hb
      · exact absurd (h.notBehind z x y hz.symm rfl) hx
    · rcases List.prefix_or_prefix_of_prefix hhead (List.prefix_append marker b) with
        ⟨z, hz⟩ | ⟨z, rfl⟩
      · exact absurd (h.notBefore x y z rfl hz.symm) hy
      · exact absurd ⟨x, z, by simp⟩ h.notAround
  · rintro (ha | hb)
    · exact ha.trans List.infix_append_left
    · exact hb.trans (List.infix_append_right.trans List.infix_append_right)

theorem infix_behind (h : Separate v marker) (b : List α) : v <:+: marker ++ b ↔ v <:+: b := by
  have haround := h.infix_around [] b
  rw [List.nil_append, List.infix_nil] at haround
  rw [haround, or_iff_right h.ne_nil]

end Separate

/-- A text whose characters tell whether they are of the original. -/
abbrev Labelled (α : Type) := List (α × Bool)

def original (s : List α) : Labelled α :=
  s.map (·, true)

def marks (marker : List α) : Labelled α :=
  marker.map (·, false)

/-- The text that a labelled one is read as. -/
def plain (s : Labelled α) : List α :=
  s.map Prod.fst

/-- The stretches of the original between the markers, `part` being what has been read of the first
one. -/
def stretchesFrom (part : List α) : Labelled α → List (List α)
  | [] => [part]
  | (c, true) :: s => stretchesFrom (part ++ [c]) s
  | (_, false) :: s => part :: stretchesFrom [] s

/-- The markers of a text are whole. -/
inductive Whole (marker : List α) : Labelled α → Prop
  | nil : Whole marker []
  | kept (c : α) {s : Labelled α} : Whole marker s → Whole marker ((c, true) :: s)
  | marked {s : Labelled α} : Whole marker s → Whole marker (marks marker ++ s)

section Whole

variable {v marker : List α} {s t : Labelled α}

@[simp] theorem plain_append : plain (s ++ t) = plain s ++ plain t :=
  List.map_append

@[simp] theorem plain_original (s : List α) : plain (original s) = s := by
  simp [plain, original, Function.comp_def]

@[simp] theorem plain_marks : plain (marks marker) = marker := by
  simp [plain, marks, Function.comp_def]

theorem Whole.original (s : List α) : Whole marker (original s) := by
  induction s with
  | nil => exact .nil
  | cons c s ih => exact .kept c ih

theorem Whole.append (hs : Whole marker s) (ht : Whole marker t) : Whole marker (s ++ t) := by
  induction hs with
  | nil => exact ht
  | kept c _ ih => exact .kept c ih
  | marked _ ih =>
      rw [List.append_assoc]
      exact .marked ih

theorem exists_stretch_marks (hv : v ≠ []) (ms : List α) :
    (∃ part ∈ stretchesFrom [] (marks ms ++ s), v <:+: part) ↔
      ∃ part ∈ stretchesFrom [] s, v <:+: part := by
  induction ms with
  | nil => rfl
  | cons m ms ih =>
      change (∃ part ∈ [] :: stretchesFrom [] (marks ms ++ s), v <:+: part) ↔ _
      simp [hv, ih]

theorem infix_iff_stretch (hseparate : Separate v marker) (hs : Whole marker s) (part : List α) :
    v <:+: part ++ plain s ↔ ∃ part' ∈ stretchesFrom part s, v <:+: part' := by
  induction hs generalizing part with
  | nil => simp [plain, stretchesFrom]
  | @kept c s _ ih =>
      have hread : part ++ plain ((c, true) :: s) = (part ++ [c]) ++ plain s := by simp [plain]
      rw [hread, ih]
      rfl
  | @marked s _ ih =>
      rw [plain_append, plain_marks, hseparate.infix_around, ← List.nil_append (plain s), ih []]
      cases marker with
      | nil => exact absurd rfl hseparate.marker_ne_nil
      | cons m ms =>
          change _ ↔ ∃ part' ∈ part :: stretchesFrom [] (marks ms ++ s), v <:+: part'
          rw [List.exists_mem_cons_iff, exists_stretch_marks hseparate.ne_nil]

end Whole

/-- A text is cut into two, and no marker is. -/
def Cuts (marker : List α) (s : Labelled α) (front rest : List α) : Prop :=
  ∃ a b, s = a ++ b ∧ plain a = front ∧ plain b = rest ∧ Whole marker a ∧ Whole marker b

section Cuts

variable {marker : List α} {s : Labelled α}

theorem Whole.cuts_nil (hs : Whole marker s) : Cuts marker s [] (plain s) :=
  ⟨[], s, rfl, rfl, rfl, .nil, hs⟩

theorem Cuts.kept {front rest : List α} (h : Cuts marker s front rest) (c : α) :
    Cuts marker ((c, true) :: s) (c :: front) rest := by
  obtain ⟨a, b, rfl, rfl, rfl, ha, hb⟩ := h
  exact ⟨(c, true) :: a, b, rfl, rfl, rfl, .kept c ha, hb⟩

theorem Cuts.behind {front rest : List α} (h : Cuts marker s front rest) {before : Labelled α}
    (hbefore : Whole marker before) : Cuts marker (before ++ s) (plain before ++ front) rest := by
  obtain ⟨a, b, rfl, rfl, rfl, ha, hb⟩ := h
  exact ⟨before ++ a, b, by simp, by simp, rfl, hbefore.append ha, hb⟩

/-- A character that no marker starts with is one of the original. -/
theorem Whole.cuts_cons (hs : Whole marker s) (hmarker : marker ≠ []) {c : α} {rest : List α}
    (h : plain s = c :: rest) (hc : ∀ m ∈ marker.head?, m ≠ c) : Cuts marker s [c] rest := by
  cases hs with
  | nil => cases h
  | kept x hs =>
      obtain ⟨rfl, rfl⟩ := List.cons.inj h
      exact hs.cuts_nil.kept x
  | marked hs =>
      cases marker with
      | nil => exact absurd rfl hmarker
      | cons m ms => exact absurd (List.cons.inj h).1 (hc m rfl)

/-- A run of characters either takes all of a marker or does not enter it. -/
theorem Whole.cuts_takeWhile (hs : Whole marker s) {p : α → Bool}
    (hp : (∀ c ∈ marker, p c = true) ∨ ∃ c rest, marker = c :: rest ∧ p c = false) :
    Cuts marker s ((plain s).takeWhile p) ((plain s).dropWhile p) := by
  induction hs with
  | nil => exact Whole.nil.cuts_nil
  | @kept c s hs ih =>
      change Cuts marker _ ((c :: plain s).takeWhile p) ((c :: plain s).dropWhile p)
      cases hc : p c with
      | true =>
          rw [List.takeWhile_cons_of_pos hc, List.dropWhile_cons_of_pos hc]
          exact ih.kept c
      | false =>
          rw [List.takeWhile_cons_of_neg (by simp [hc]), List.dropWhile_cons_of_neg (by simp [hc])]
          exact (hs.kept c).cuts_nil
  | @marked s hs ih =>
      rw [plain_append, plain_marks]
      rcases hp with hall | ⟨c, rest, rfl, hc⟩
      · obtain ⟨a, b, rfl, ha, hb, hwhole, hrest⟩ := ih
        rw [List.takeWhile_append_of_pos hall, List.dropWhile_append_of_pos hall, ← ha, ← hb]
        exact ⟨marks marker ++ a, b, by simp, by simp, rfl, .marked hwhole, hrest⟩
      · rw [List.cons_append, List.takeWhile_cons_of_neg (by simp [hc]),
          List.dropWhile_cons_of_neg (by simp [hc])]
        have hcuts := (Whole.marked hs).cuts_nil
        rwa [plain_append, plain_marks] at hcuts

end Cuts

/-- A pattern: from the character before and the text that follows, what is kept of a match that
starts here, what is taken out, and what is kept behind it. -/
abbrev Matcher (α : Type) := Option α → List α → Option (List α × List α × List α)

/-- What a pattern finds is replaced, from left to right; the next `skip` characters are those of a
match. -/
def markFrom (marker : List α) (m : Matcher α) : Nat → Option α → Labelled α → Labelled α
  | _, _, [] => []
  | skip + 1, _, c :: s => markFrom marker m skip (some c.1) s
  | 0, before, c :: s =>
    match m before (plain (c :: s)) with
    | some (kept, value, closing) =>
      (c :: s).take kept.length ++ marks marker ++
        ((c :: s).drop (kept.length + value.length)).take closing.length ++
          markFrom marker m (kept.length + value.length + closing.length - 1) (some c.1) s
    | none => c :: markFrom marker m 0 (some c.1) s

/-- A pattern that leaves the markers of a text whole. -/
structure Respects (marker : List α) (m : Matcher α) : Prop where
  splits : ∀ before s kept value closing, Whole marker s →
    m before (plain s) = some (kept, value, closing) →
      ∃ a b c d, s = a ++ (b ++ (c ++ d)) ∧ plain a = kept ∧ plain b = value ∧
        plain c = closing ∧ Whole marker a ∧ Whole marker c ∧ Whole marker d ∧ b ≠ []
  silent : ∀ before front rest, front ≠ [] → front <:+ marker → m before (front ++ rest) = none

section Marking

variable {marker : List α} {m : Matcher α}

/-- A match is made of what the pattern reads. -/
theorem Respects.reads (h : Respects marker m) {before : Option α}
    {s kept value closing : List α} (hmatch : m before s = some (kept, value, closing)) :
    ∃ rest, s = kept ++ (value ++ (closing ++ rest)) := by
  rw [← plain_original s] at hmatch
  obtain ⟨a, b, c, d, hs, rfl, rfl, rfl, -⟩ := h.splits _ _ _ _ _ (.original s) hmatch
  refine ⟨plain d, ?_⟩
  rw [← plain_original s, hs]
  simp

variable (marker m) in
theorem markFrom_skip (skip : Nat) (before : Option α) (s : Labelled α) :
    ∃ before', markFrom marker m skip before s = markFrom marker m 0 before' (s.drop skip) := by
  induction skip generalizing before s with
  | zero => exact ⟨before, by rw [List.drop_zero]⟩
  | succ skip ih =>
      cases s with
      | nil => exact ⟨none, by simp [markFrom]⟩
      | cons c s => exact ih (some c.1) s

/-- A pattern that is silent inside a marker passes over it. -/
theorem markFrom_marks {front : List α} (s : Labelled α)
    (hsilent : ∀ before front rest, front ≠ [] → front <:+ marker → m before (front ++ rest) = none)
    (hfront : front <:+ marker) (before : Option α) :
    ∃ before', markFrom marker m 0 before (marks front ++ s) =
      marks front ++ markFrom marker m 0 before' s := by
  induction front generalizing before with
  | nil => exact ⟨before, rfl⟩
  | cons c front ih =>
      have hnone : m before (plain (marks (c :: front) ++ s)) = none := by
        rw [plain_append, plain_marks]
        exact hsilent _ _ _ (List.cons_ne_nil _ _) hfront
      obtain ⟨before', hrest⟩ := ih ((List.suffix_cons c front).trans hfront) (some c)
      refine ⟨before', ?_⟩
      change markFrom marker m 0 before ((c, false) :: (marks front ++ s)) = _
      rw [markFrom]
      change m before (plain ((c, false) :: (marks front ++ s))) = none at hnone
      rw [hnone]
      exact congrArg ((c, false) :: ·) hrest

variable (marker) in
/-- The text behind a match, once the match has been replaced. -/
theorem markFrom_match {before : Option α} {a b c d : Labelled α} (hb : b ≠ [])
    (hmatch : m before (plain (a ++ (b ++ (c ++ d)))) = some (plain a, plain b, plain c)) :
    ∃ before', markFrom marker m 0 before (a ++ (b ++ (c ++ d))) =
      a ++ (marks marker ++ (c ++ markFrom marker m 0 before' d)) := by
  have htake : (a ++ (b ++ (c ++ d))).take (plain a).length = a :=
    List.take_left' (by simp [plain])
  have hclosing : ((a ++ (b ++ (c ++ d))).drop ((plain a).length + (plain b).length)).take
      (plain c).length = c := by
    rw [← List.append_assoc, List.drop_left' (by simp [plain]), List.take_left' (by simp [plain])]
  have hrest : (a ++ (b ++ (c ++ d))).drop
      ((plain a).length + (plain b).length + (plain c).length) = d := by
    rw [← List.append_assoc, ← List.append_assoc, List.drop_left' (by simp [plain, Nat.add_assoc])]
  have hpos : 0 < (plain b).length := by
    simpa [plain] using List.length_pos_iff.mpr hb
  generalize hs : a ++ (b ++ (c ++ d)) = s at hmatch htake hclosing hrest
  cases s with
  | nil => simp [hb] at hs
  | cons x s =>
      obtain ⟨before', hskip⟩ := markFrom_skip marker m
        ((plain a).length + (plain b).length + (plain c).length - 1) (some x.1) s
      refine ⟨before', ?_⟩
      obtain ⟨n, hn⟩ : ∃ n, (plain a).length + (plain b).length + (plain c).length = n + 1 :=
        ⟨_, (Nat.succ_pred_eq_of_pos (by omega)).symm⟩
      rw [markFrom, hmatch]
      dsimp only
      rw [hskip, htake, hclosing]
      rw [hn, List.drop_succ_cons] at hrest
      rw [hn, Nat.add_sub_cancel, hrest]
      simp

theorem Respects.whole (h : Respects marker m) (hmarker : marker ≠ []) {s : Labelled α}
    (hs : Whole marker s) (before : Option α) : Whole marker (markFrom marker m 0 before s) := by
  induction hlength : s.length using Nat.strong_induction_on generalizing s before with
  | _ n ih =>
      cases hmatch : m before (plain s) with
      | some found =>
          obtain ⟨kept, value, closing⟩ := found
          obtain ⟨a, b, c, d, rfl, rfl, rfl, rfl, ha, hc, hd, hb⟩ := h.splits _ _ _ _ _ hs hmatch
          obtain ⟨before', hmark⟩ := markFrom_match marker hb hmatch
          rw [hmark]
          have hpos := List.length_pos_iff.mpr hb
          simp only [List.length_append] at hlength
          refine ha.append (.marked (hc.append (ih d.length (by omega) hd before' rfl)))
      | none =>
          cases hs with
          | nil => exact .nil
          | @kept x s hs =>
              rw [markFrom, hmatch]
              exact .kept x (ih s.length (by simp at hlength; omega) hs (some x) rfl)
          | @marked s hs =>
              obtain ⟨before', hmark⟩ := markFrom_marks s h.silent List.suffix_rfl before
              rw [hmark]
              have hpos := List.length_pos_iff.mpr hmarker
              simp only [marks, List.length_append, List.length_map] at hlength
              exact .marked (ih s.length (by omega) hs before' rfl)

end Marking

section Kept

variable {v marker : List α} {m : Matcher α} {s : Labelled α}

theorem label_of_original {c : α × Bool} (h : c ∈ original v) : c.2 = true := by
  obtain ⟨x, _, rfl⟩ := List.mem_map.mp h
  rfl

theorem label_of_marks {c : α × Bool} (h : c ∈ marks marker) : c.2 = false := by
  obtain ⟨x, _, rfl⟩ := List.mem_map.mp h
  rfl

/-- What is of the original does not reach across a marker. -/
theorem kept_around (hmarker : marker ≠ []) (a b : Labelled α)
    (h : original v <:+: a ++ (marks marker ++ b)) : original v <:+: a ∨ original v <:+: b := by
  have hmarks : ∀ c ∈ marks marker, c ∉ original v := by
    intro c hc hv
    exact absurd (label_of_original hv) (by simp [label_of_marks hc])
  rcases List.infix_append_iff_ne_nil.mp h with ha | hrest | ⟨x, y, -, hy, hv, -, hhead⟩
  · exact .inl ha
  · rcases List.infix_append_iff_ne_nil.mp hrest with hm | hb | ⟨x, y, hx, -, hv, hsuffix, -⟩
    · refine .inl ?_
      have hnil : original v = [] := List.eq_nil_iff_forall_not_mem.mpr fun c hc =>
        hmarks c (hm.subset hc) hc
      rw [hnil]
      exact List.nil_infix
    · exact .inr hb
    · obtain ⟨c, hc⟩ := List.exists_mem_of_ne_nil x hx
      exact absurd (by simp [hv, hc]) (hmarks c (hsuffix.subset hc))
  · cases y with
    | nil => exact absurd rfl hy
    | cons c y =>
        have hc : c ∈ marks marker := by
          obtain ⟨rest, hrest⟩ := hhead
          cases hcase : marks marker with
          | nil => exact absurd (List.map_eq_nil_iff.mp hcase) hmarker
          | cons d ds =>
              rw [hcase] at hrest
              obtain ⟨rfl, _⟩ := List.cons.inj hrest
              exact List.mem_cons_self
        exact absurd (by simp [hv]) (hmarks c hc)

theorem kept_of_stretch {part : List α} (s : Labelled α)
    (h : ∃ part' ∈ stretchesFrom part s, v <:+: part') : original v <:+: original part ++ s := by
  induction s generalizing part with
  | nil =>
      obtain ⟨part', hpart, hv⟩ := h
      rw [List.mem_singleton.mp hpart] at hv
      rw [List.append_nil]
      exact hv.map _
  | cons c s ih =>
      obtain ⟨c, label⟩ := c
      cases label with
      | true =>
          have hpart : original (part ++ [c]) = original part ++ [(c, true)] := List.map_append
          have hkept := ih h
          rwa [hpart, List.append_assoc] at hkept
      | false =>
          obtain ⟨part', hpart, hv⟩ := h
          rcases List.mem_cons.mp hpart with rfl | hpart
          · exact (hv.map _).trans List.infix_append_left
          · have hkept := ih ⟨part', hpart, hv⟩
            exact (hkept.trans (List.infix_cons List.infix_rfl)).trans List.infix_append_right

/-- What is separate from the marker is read only where the original has it. -/
theorem kept_of_isInfix (hseparate : Separate v marker) (hs : Whole marker s) (h : v <:+: plain s) :
    original v <:+: s := by
  rw [← List.nil_append (plain s)] at h
  exact kept_of_stretch s ((infix_iff_stretch hseparate hs []).mp h)

/-- What is separate from the marker is at the front of a text only as a part of the original. -/
theorem front_of_whole (hs : Whole marker s) (hseparate : Separate v marker) {x y : List α}
    (hv : v = x ++ y) (h : y <+: plain s) : ∃ d, s = original y ++ d ∧ Whole marker d := by
  induction hs generalizing x y with
  | nil =>
      have hy : y = [] := List.prefix_nil.mp h
      rw [hy]
      exact ⟨[], rfl, .nil⟩
  | @kept c s hs ih =>
      cases y with
      | nil => exact ⟨_, rfl, .kept c hs⟩
      | cons c' y =>
          obtain ⟨rfl, hy⟩ := List.cons_prefix_cons.mp h
          have hv' : v = (x ++ [c']) ++ y := by simpa using hv
          obtain ⟨d, rfl, hd⟩ := ih hv' hy
          exact ⟨d, rfl, hd⟩
  | @marked s hs _ =>
      rw [plain_append, plain_marks] at h
      rcases List.prefix_or_prefix_of_prefix h (List.prefix_append marker _) with
        ⟨z, hz⟩ | ⟨z, rfl⟩
      · have hy : y = [] := hseparate.notBefore x y z hv hz.symm
        rw [hy]
        exact ⟨_, rfl, .marked hs⟩
      · exact absurd ⟨x, z, by simp [hv]⟩ hseparate.notAround

/-- A substitution shows nothing of the original that was not shown before, not even where what it
leaves alone comes to stand behind another text. -/
theorem Respects.kept (h : Respects marker m) (hmarker : marker ≠ []) (hs : Whole marker s)
    (before : Option α) (x : Labelled α)
    (hkept : original v <:+: x ++ markFrom marker m 0 before s) : original v <:+: x ++ s := by
  induction hlength : s.length using Nat.strong_induction_on generalizing s before x with
  | _ n ih =>
      cases hmatch : m before (plain s) with
      | some found =>
          obtain ⟨kept, value, closing⟩ := found
          obtain ⟨a, b, c, d, rfl, rfl, rfl, rfl, -, hc, hd, hb⟩ := h.splits _ _ _ _ _ hs hmatch
          obtain ⟨before', hmark⟩ := markFrom_match marker hb hmatch
          rw [hmark, ← List.append_assoc] at hkept
          have hpos := List.length_pos_iff.mpr hb
          simp only [List.length_append] at hlength
          rcases kept_around hmarker _ _ hkept with hfront | hbehind
          · rw [← List.append_assoc]
            exact hfront.trans List.infix_append_left
          · have hrest := ih d.length (by omega) hd before' c hbehind rfl
            refine hrest.trans ?_
            rw [← List.append_assoc, ← List.append_assoc]
            exact List.infix_append_right
      | none =>
          cases hs with
          | nil => exact hkept
          | @kept y s hs =>
              rw [markFrom, hmatch] at hkept
              dsimp only at hkept
              rw [List.append_cons] at hkept ⊢
              exact ih s.length (by simp at hlength; omega) hs (some y) _ hkept rfl
          | @marked s hs =>
              obtain ⟨before', hmark⟩ := markFrom_marks s h.silent List.suffix_rfl before
              rw [hmark] at hkept
              have hpos := List.length_pos_iff.mpr hmarker
              simp only [marks, List.length_append, List.length_map] at hlength
              rw [← List.append_assoc] at hkept ⊢
              exact ih s.length (by omega) hs before' _ hkept rfl

end Kept

section Replacing

variable [DecidableEq α]

/-- `text.replace(old, new)` for an `old` that is not empty; the next `skip` characters are those of
a match. -/
def replaceFrom (old new : List α) : Nat → List α → List α
  | _, [] => []
  | skip + 1, _ :: s => replaceFrom old new skip s
  | 0, c :: s =>
    if old.isPrefixOf (c :: s) then new ++ replaceFrom old new (old.length - 1) s
    else c :: replaceFrom old new 0 s

/-- The pattern that finds one text. -/
def occurrence (v : List α) : Matcher α := fun _ s =>
  if v.isPrefixOf s then some ([], v, []) else none

variable {v marker : List α} {s : Labelled α}

theorem occurrence_some {before : Option α} {s kept value closing : List α}
    (h : occurrence v before s = some (kept, value, closing)) :
    v <+: s ∧ kept = [] ∧ value = v ∧ closing = [] := by
  simp only [occurrence, Option.ite_none_right_eq_some, Option.some.injEq, Prod.mk.injEq,
    List.isPrefixOf_iff_prefix] at h
  obtain ⟨hhead, rfl, rfl, rfl⟩ := h
  exact ⟨hhead, rfl, rfl, rfl⟩

theorem occurrence_none {before : Option α} {s : List α} (h : occurrence v before s = none) :
    ¬ v <+: s := by
  simpa [occurrence] using h

theorem occurrence_respects (hseparate : Separate v marker) : Respects marker (occurrence v) where
  splits before s kept value closing hs h := by
    obtain ⟨hhead, rfl, rfl, rfl⟩ := occurrence_some h
    obtain ⟨d, rfl, hd⟩ := front_of_whole hs hseparate (List.nil_append _).symm hhead
    refine ⟨[], original value, [], d, rfl, rfl, plain_original _, rfl, .nil, .nil, hd, ?_⟩
    exact fun hnil => hseparate.ne_nil (List.map_eq_nil_iff.mp hnil)
  silent before front rest hne hfront := by
    refine if_neg fun hhead => ?_
    obtain ⟨x, hx⟩ := hfront
    rcases List.prefix_or_prefix_of_prefix (List.isPrefixOf_iff_prefix.mp hhead)
      (List.prefix_append front rest) with ⟨z, rfl⟩ | ⟨z, hz⟩
    · exact hseparate.notWithin ⟨x, z, by simpa using hx⟩
    · exact hne (hseparate.notBehind x front z hx.symm hz.symm)

/-- What a replacement makes of a text that starts with a match. -/
theorem markFrom_occurrence (hseparate : Separate v marker) (hs : Whole marker s)
    (before : Option α) {kept value closing : List α}
    (hmatch : occurrence v before (plain s) = some (kept, value, closing)) :
    ∃ d before', s = original v ++ d ∧ Whole marker d ∧
      markFrom marker (occurrence v) 0 before s =
        marks marker ++ markFrom marker (occurrence v) 0 before' d := by
  obtain ⟨hhead, rfl, rfl, rfl⟩ := occurrence_some hmatch
  obtain ⟨d, rfl, hd⟩ := front_of_whole hs hseparate (List.nil_append _).symm hhead
  have hne : original value ≠ [] := fun hnil => hseparate.ne_nil (List.map_eq_nil_iff.mp hnil)
  have hparts : occurrence value before (plain ([] ++ (original value ++ ([] ++ d)))) =
      some (plain [], plain (original value), plain []) := by
    rw [plain_original]
    exact hmatch
  obtain ⟨before', hmark⟩ := markFrom_match marker hne hparts
  exact ⟨d, before', rfl, hd, hmark⟩

/-- A front of the original that is left in place was there before. -/
theorem front_of_front (hseparate : Separate v marker) {u : List α} (hs : Whole marker s)
    (before : Option α)
    (h : original u <+: markFrom marker (occurrence v) 0 before s) : original u <+: s := by
  have hmarks {u : List α} {t d : Labelled α} (h : original u <+: marks marker ++ t) :
      original u <+: d := by
    cases u with
    | nil => exact List.nil_prefix
    | cons c u =>
        cases marker with
        | nil => exact absurd rfl hseparate.marker_ne_nil
        | cons m ms => exact absurd (List.cons_prefix_cons.mp h).1 (by simp)
  induction hs generalizing u before with
  | nil => exact h
  | @kept c s hs ih =>
      cases hmatch : occurrence v before (plain ((c, true) :: s)) with
      | some found =>
          obtain ⟨_, before', _, _, hmark⟩ :=
            markFrom_occurrence hseparate (.kept c hs) before hmatch
          rw [hmark] at h
          exact hmarks h
      | none =>
          rw [markFrom, hmatch] at h
          cases u with
          | nil => exact List.nil_prefix
          | cons c' u =>
              obtain ⟨hc, hrest⟩ := List.cons_prefix_cons.mp h
              exact List.cons_prefix_cons.mpr ⟨hc, ih (some c) hrest⟩
  | @marked s hs _ =>
      obtain ⟨before', hmark⟩ := markFrom_marks s (occurrence_respects hseparate).silent
        List.suffix_rfl before
      rw [hmark] at h
      exact hmarks h

/-- After the replacement the text is nowhere in what is left of the original. -/
theorem not_kept_of_replaced (hseparate : Separate v marker) (hs : Whole marker s)
    (before : Option α) : ¬ original v <:+: markFrom marker (occurrence v) 0 before s := by
  have hmarks {t : Labelled α} (ht : ¬ original v <:+: t) :
      ¬ original v <:+: marks marker ++ t := by
    intro h
    rcases kept_around hseparate.marker_ne_nil [] t h with hnil | hrest
    · exact hseparate.ne_nil (List.map_eq_nil_iff.mp (List.infix_nil.mp hnil))
    · exact ht hrest
  induction hlength : s.length using Nat.strong_induction_on generalizing s before with
  | _ n ih =>
      cases hmatch : occurrence v before (plain s) with
      | some found =>
          obtain ⟨d, before', rfl, hd, hmark⟩ := markFrom_occurrence hseparate hs before hmatch
          have hpos := List.length_pos_iff.mpr hseparate.ne_nil
          simp only [original, List.length_append, List.length_map] at hlength
          rw [hmark]
          exact hmarks (ih d.length (by omega) hd before' rfl)
      | none =>
          cases hs with
          | nil =>
              intro h
              exact hseparate.ne_nil (List.map_eq_nil_iff.mp (List.infix_nil.mp h))
          | @kept c s hs =>
              intro h
              have hfront : ¬ original v <+:
                  markFrom marker (occurrence v) 0 before ((c, true) :: s) := by
                intro hhead
                have hplain : plain (original v) <+: plain ((c, true) :: s) :=
                  (front_of_front hseparate (.kept c hs) before hhead).map Prod.fst
                rw [plain_original] at hplain
                exact occurrence_none hmatch hplain
              rw [markFrom, hmatch] at h hfront
              rcases List.infix_cons_iff.mp h with hhead | hrest
              · exact hfront hhead
              · exact ih s.length (by simp at hlength; omega) hs (some c) rfl hrest
          | @marked s hs =>
              obtain ⟨before', hmark⟩ := markFrom_marks s (occurrence_respects hseparate).silent
                List.suffix_rfl before
              have hpos := List.length_pos_iff.mpr hseparate.marker_ne_nil
              simp only [marks, List.length_append, List.length_map] at hlength
              rw [hmark]
              exact hmarks (ih s.length (by omega) hs before' rfl)

theorem replaceFrom_eq (skip : Nat) (before : Option α) (s : Labelled α) :
    replaceFrom v marker skip (plain s) = plain (markFrom marker (occurrence v) skip before s) := by
  induction s generalizing skip before with
  | nil => cases skip <;> rfl
  | cons c s ih =>
      change replaceFrom v marker skip (c.1 :: plain s) = _
      cases skip with
      | succ skip => exact ih skip (some c.1)
      | zero =>
          have hcons : c.1 :: plain s = plain (c :: s) := rfl
          rw [replaceFrom, markFrom, hcons]
          by_cases h : v.isPrefixOf (plain (c :: s)) = true
          · have hmatch : occurrence v before (plain (c :: s)) = some ([], v, []) := if_pos h
            rw [if_pos h, hmatch]
            simp [ih (v.length - 1) (some c.1)]
          · have hmatch : occurrence v before (plain (c :: s)) = none := if_neg h
            rw [if_neg h, hmatch]
            exact congrArg (c.1 :: ·) (ih 0 (some c.1))

/-- Several texts are replaced, one after the other. -/
def replaceEach (marker : List α) (texts : List (List α)) (s : Labelled α) : Labelled α :=
  texts.foldl (fun s v => markFrom marker (occurrence v) 0 none s) s

variable {texts : List (List α)}

theorem foldl_replaceFrom (s : Labelled α) :
    texts.foldl (fun s v => replaceFrom v marker 0 s) (plain s) =
      plain (replaceEach marker texts s) := by
  unfold replaceEach
  induction texts generalizing s with
  | nil => rfl
  | cons v texts ih =>
      rw [List.foldl_cons, List.foldl_cons, replaceFrom_eq 0 none]
      exact ih _

theorem replaceEach_whole (hseparate : ∀ v ∈ texts, Separate v marker) (hs : Whole marker s) :
    Whole marker (replaceEach marker texts s) := by
  unfold replaceEach
  induction texts generalizing s with
  | nil => exact hs
  | cons v texts ih =>
      obtain ⟨hv, hrest⟩ := List.forall_mem_cons.mp hseparate
      exact ih hrest ((occurrence_respects hv).whole hv.marker_ne_nil hs none)

theorem kept_of_replaceEach (hseparate : ∀ v ∈ texts, Separate v marker) (hs : Whole marker s)
    (h : original v <:+: replaceEach marker texts s) : original v <:+: s := by
  unfold replaceEach at h
  induction texts generalizing s with
  | nil => exact h
  | cons w texts ih =>
      obtain ⟨hw, hrest⟩ := List.forall_mem_cons.mp hseparate
      have hwhole := (occurrence_respects hw).whole hw.marker_ne_nil hs none
      exact (occurrence_respects hw).kept hw.marker_ne_nil hs none [] (ih hrest hwhole h)

/-- No order of the texts lets one of them come back. -/
theorem not_kept_of_replaceEach (hseparate : ∀ v ∈ texts, Separate v marker)
    (hs : Whole marker s) : ∀ v ∈ texts, ¬ original v <:+: replaceEach marker texts s := by
  intro v hv h
  unfold replaceEach at h
  induction texts generalizing s with
  | nil => cases hv
  | cons w texts ih =>
      obtain ⟨hw, hrest⟩ := List.forall_mem_cons.mp hseparate
      have hwhole := (occurrence_respects hw).whole hw.marker_ne_nil hs none
      rcases List.mem_cons.mp hv with rfl | hv
      · exact not_kept_of_replaced hw hs none (kept_of_replaceEach hrest hwhole h)
      · exact ih hrest hwhole hv h

end Replacing

end ChangeQuality.MarkedTexts
