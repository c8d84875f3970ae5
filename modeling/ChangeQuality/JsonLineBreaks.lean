import ChangeQuality.JsonDecoding

/-!
What the decoder makes of a text whose line breaks are all turned into line feeds: outside string
literals nothing changes, and a string literal is no longer one if it held such a break.
-/

namespace ChangeQuality.JsonLineBreaks

open ChangeQuality.Texts
open ChangeQuality.JsonDecoding

section Breaks

/-- The text with a line feed for each of its line breaks. -/
def unifyBreaks : Text → Text
  | [] => []
  | 0x0d :: 0x0a :: s => 0x0a :: unifyBreaks s
  | c :: s => (if isLineBreak c then 0x0a else c) :: unifyBreaks s

/-- The line breaks that a string literal may hold: JSON takes them for ordinary characters. -/
def isWideBreak (c : Nat) : Bool :=
  [0x85, 0x2028, 0x2029].contains c

theorem unifyBreaks_cons {c : Nat} (h : c ≠ 0x0d) (s : Text) :
    unifyBreaks (c :: s) = (if isLineBreak c then 0x0a else c) :: unifyBreaks s :=
  unifyBreaks.eq_3 c s fun _ hc _ => h hc

theorem unifyBreaks_keep {c : Nat} (h : isLineBreak c = false) (s : Text) :
    unifyBreaks (c :: s) = c :: unifyBreaks s := by
  have hc : c ≠ 0x0d := by
    rintro rfl
    cases h
  rw [unifyBreaks_cons hc, h]
  rfl

theorem getLast?_of_tail {α : Type} {a b : α} {s : List α} (h : s.getLast? = some b) :
    (a :: s).getLast? = some b := by
  rw [List.getLast?_cons, h]
  rfl

/-- Where no `\r\n` is cut, the line breaks of two texts are unified one by one. -/
theorem unifyBreaks_append {a b : Text}
    (h : a.getLast? = some 0x0d → b.head? ≠ some 0x0a) :
    unifyBreaks (a ++ b) = unifyBreaks a ++ unifyBreaks b := by
  fun_induction unifyBreaks a with
  | case1 => rfl
  | case2 s ih =>
      have htail := ih fun hlast => h (getLast?_of_tail (getLast?_of_tail hlast))
      simp only [List.cons_append, unifyBreaks, htail]
  | case3 c s hcrlf ih =>
      have htail := ih fun hlast => h (getLast?_of_tail hlast)
      rw [List.cons_append, List.cons_append, ← htail]
      refine unifyBreaks.eq_3 c (s ++ b) fun t hc ht => ?_
      cases s with
      | nil =>
          subst hc
          refine h rfl ?_
          rw [List.nil_append] at ht
          rw [ht]
          rfl
      | cons d s =>
          obtain ⟨rfl, _⟩ := List.cons.inj ht
          exact hcrlf s hc rfl

/-- Characters that are no line breaks stay as they are. -/
theorem unifyBreaks_plain {a : Text} (h : ∀ c ∈ a, isLineBreak c = false) (b : Text) :
    unifyBreaks (a ++ b) = a ++ unifyBreaks b := by
  induction a with
  | nil => rfl
  | cons c a ih =>
      rw [List.cons_append, unifyBreaks_keep (h c List.mem_cons_self),
        ih fun d hd => h d (List.mem_cons_of_mem _ hd), List.cons_append]

theorem unifyBreaks_of_plain {s : Text} (h : ∀ c ∈ s, isLineBreak c = false) :
    unifyBreaks s = s := by
  simpa [unifyBreaks] using unifyBreaks_plain h []

theorem blank_unifyBreaks {s : Text} (h : Blank s) : Blank (unifyBreaks s) := by
  fun_induction unifyBreaks s with
  | case1 => exact h
  | case2 s ih =>
      have htail := ih fun d hd => h d (List.mem_cons_of_mem _ (List.mem_cons_of_mem _ hd))
      exact List.forall_mem_cons.mpr ⟨by decide, htail⟩
  | case3 c s hcrlf ih =>
      have htail := ih fun d hd => h d (List.mem_cons_of_mem _ hd)
      refine List.forall_mem_cons.mpr ⟨?_, htail⟩
      split
      · decide
      · exact h c List.mem_cons_self

theorem mem_unifyBreaks {s : Text} {c : Nat} (h : c ∈ unifyBreaks s) :
    c = 0x0a ∨ (c ∈ s ∧ isLineBreak c = false) := by
  fun_induction unifyBreaks s with
  | case1 => cases h
  | case2 s ih =>
      rcases List.mem_cons.mp h with rfl | h
      · exact .inl rfl
      · exact (ih h).imp_right fun hc =>
          ⟨List.mem_cons_of_mem _ (List.mem_cons_of_mem _ hc.1), hc.2⟩
  | case3 d s hcrlf ih =>
      rcases List.mem_cons.mp h with rfl | h
      · split
        · exact .inl rfl
        next hd => exact .inr ⟨List.mem_cons_self, Bool.eq_false_iff.mpr hd⟩
      · exact (ih h).imp_right fun hc => ⟨List.mem_cons_of_mem _ hc.1, hc.2⟩

/-- Where all line breaks are line feeds there is nothing to unify. -/
theorem unifyBreaks_of_unified {s : Text} (h : ∀ c ∈ s, c = 0x0a ∨ isLineBreak c = false) :
    unifyBreaks s = s := by
  induction s with
  | nil => rfl
  | cons c s ih =>
      have hc : c ≠ 0x0d := by
        rintro rfl
        rcases h _ List.mem_cons_self with h | h <;> cases h
      rw [unifyBreaks_cons hc, ih fun d hd => h d (List.mem_cons_of_mem _ hd)]
      rcases h c List.mem_cons_self with rfl | hplain
      · rfl
      · rw [hplain]
        rfl

theorem unifyBreaks_length (s : Text) : (unifyBreaks s).length ≤ s.length := by
  fun_induction unifyBreaks s with
  | case1 => exact Nat.le_refl _
  | case2 s ih =>
      simp only [List.length_cons]
      omega
  | case3 c s hcrlf ih => exact Nat.succ_le_succ ih

theorem not_wide_of_whitespace {c : Nat} (h : isWhitespace c = true) : isWideBreak c = false := by
  simp only [isWhitespace, Bool.or_eq_true, beq_iff_eq] at h
  rcases h with ((rfl | rfl) | rfl) | rfl <;> rfl

theorem wide_lineBreak {c : Nat} (h : isWideBreak c = true) : isLineBreak c = true := by
  simp only [isWideBreak, List.contains_cons, List.contains_nil, Bool.or_false, Bool.or_eq_true,
    beq_iff_eq] at h
  rcases h with rfl | rfl | rfl <;> rfl

/-- The other line breaks are control characters. -/
theorem lineBreak_of_not_wide {c : Nat} (hcontrol : 0x1f < c) (h : isWideBreak c = false) :
    isLineBreak c = false := by
  simp only [isWideBreak, List.contains_cons, List.contains_nil, Bool.or_false, Bool.or_eq_false_iff,
    beq_eq_false_iff_ne] at h
  simp only [isLineBreak, List.contains_cons, List.contains_nil, Bool.or_false, Bool.or_eq_false_iff,
    beq_eq_false_iff_ne, Bool.and_eq_false_iff, decide_eq_false_iff_not]
  omega

end Breaks

section Locality

/-- The text begins with a character that ends a number. -/
def Delimited (after : Text) : Prop :=
  ∃ c t, after = c :: t ∧ (isWhitespace c = true ∨ c = 0x2c ∨ c = 0x5d ∨ c = 0x7d)

/-- The literal ends by itself. -/
def closed : Value → Bool
  | .str _ | .arr _ | .obj _ => true
  | _ => false

/-- The text begins with a character that the scanner does not skip. -/
def Opens (s : Text) : Prop :=
  ∃ c t, s = c :: t ∧ isWhitespace c = false ∧ isLineBreak c = false

/-- No line break but those of white space. -/
def Narrow (s : Text) : Prop :=
  ∀ c ∈ s, isWideBreak c = false

/-- With its line breaks unified a narrow text is read as before, and another one is an error. -/
structure Carried {α : Type} (narrow : Prop) (scanned : Except Failure (α × Text)) (value : α)
    (after : Text) : Prop where
  kept : narrow → scanned = .ok (value, after)
  lost : ¬narrow → ∃ message, scanned = .error (.jsonDecodeError message)

/-- What the scanner reads depends neither on what is behind it nor on the kind of its line
breaks. -/
def Local (scan : Scanner Value) : Prop :=
  ∀ s value rest, scan s = .ok (value, rest) → ∃ lexeme, s = lexeme ++ rest ∧ Opens lexeme ∧
    lexeme.getLast? ≠ some 0x0d ∧ ∀ after, closed value = true ∨ Delimited after →
      Carried (Narrow lexeme) (scan (unifyBreaks lexeme ++ after)) value after

theorem simpleEscape_plain {c u : Nat} (h : simpleEscape c = some u) :
    c ≠ 0x75 ∧ isLineBreak c = false := by
  unfold simpleEscape at h
  split at h
  next hc => rcases hc with rfl | rfl | rfl <;> decide
  · repeat' split at h
    all_goals
      first
        | (subst_vars; decide)
        | cases h

theorem plain_of_bounds {c : Nat} (hlower : 0x1f < c) (hupper : c < 0x85) :
    isLineBreak c = false := by
  refine lineBreak_of_not_wide hlower ?_
  simp only [isWideBreak, List.contains_cons, List.contains_nil, Bool.or_false, Bool.or_eq_false_iff,
    beq_eq_false_iff_ne]
  omega

theorem hexDigit_plain {c n : Nat} (h : hexDigit c = some n) : isLineBreak c = false := by
  have hbounds : 0x30 ≤ c ∧ c ≤ 0x66 := by
    unfold hexDigit isDigit at h
    split at h
    next hc =>
      rw [Bool.and_eq_true, decide_eq_true_iff, decide_eq_true_iff] at hc
      omega
    · split at h
      next hc =>
        rw [Bool.and_eq_true, decide_eq_true_iff, decide_eq_true_iff] at hc
        omega
      · split at h
        next hc =>
          rw [Bool.and_eq_true, decide_eq_true_iff, decide_eq_true_iff] at hc
          omega
        · cases h
  exact plain_of_bounds (by omega) (by omega)

theorem hexUnit_plain {a b c d u : Nat} (h : hexUnit a b c d = some u) :
    ∀ e ∈ [a, b, c, d], isLineBreak e = false := by
  unfold hexUnit at h
  simp only [Option.bind_eq_bind, Option.bind_eq_some_iff] at h
  obtain ⟨_, ha, _, hb, _, hc, _, hd, _⟩ := h
  simp only [List.forall_mem_cons]
  exact ⟨hexDigit_plain ha, hexDigit_plain hb, hexDigit_plain hc, hexDigit_plain hd, by simp⟩

theorem not_wide_of_plain {c : Nat} (h : isLineBreak c = false) : isWideBreak c = false := by
  cases hwide : isWideBreak c with
  | false => rfl
  | true =>
      rw [wide_lineBreak hwide] at h
      cases h

theorem narrow_of_plain {s : Text} (h : ∀ c ∈ s, isLineBreak c = false) : Narrow s :=
  fun c hc => not_wide_of_plain (h c hc)

theorem narrow_append {a b : Text} : Narrow (a ++ b) ↔ Narrow a ∧ Narrow b :=
  List.forall_mem_append

theorem narrow_cons {c : Nat} {s : Text} :
    Narrow (c :: s) ↔ isWideBreak c = false ∧ Narrow s :=
  List.forall_mem_cons

theorem narrow_of_blank {s : Text} (h : Blank s) : Narrow s :=
  fun c hc => not_wide_of_whitespace (h c hc)

/-- The rest of a literal behind characters that are no line breaks. -/
theorem carried_push (front : Text) {body : Text} {unit : CodeUnit} {units : List CodeUnit}
    {after : Text} (hplain : ∀ c ∈ front, isLineBreak c = false)
    (hscan : scanUnits (unifyBreaks (front ++ body) ++ 0x22 :: after) =
      push unit (scanUnits (unifyBreaks body ++ 0x22 :: after)))
    (ih : Carried (Narrow body) (scanUnits (unifyBreaks body ++ 0x22 :: after)) units after) :
    Carried (Narrow (front ++ body)) (scanUnits (unifyBreaks (front ++ body) ++ 0x22 :: after))
      (unit :: units) after := by
  have hnarrow : Narrow (front ++ body) ↔ Narrow body := by
    rw [narrow_append]
    exact and_iff_right (narrow_of_plain hplain)
  rw [hscan, hnarrow]
  constructor
  · intro hbody
    rw [ih.kept hbody]
    rfl
  · intro hbody
    obtain ⟨message, herror⟩ := ih.lost hbody
    rw [herror]
    exact ⟨message, rfl⟩

theorem units_carried {body : Text} {units : List CodeUnit} (h : Units body units) (after : Text) :
    Carried (Narrow body) (scanUnits (unifyBreaks body ++ 0x22 :: after)) units after := by
  induction h with
  | nil => exact ⟨fun _ => rfl, fun hwide => absurd (by simp [Narrow]) hwide⟩
  | @plain c s units hquote hslash hcontrol h ih =>
      cases hwide : isWideBreak c with
      | true =>
          refine ⟨fun hall => ?_, fun _ => ?_⟩
          · rw [hall c List.mem_cons_self] at hwide
            cases hwide
          · have hc : c ≠ 0x0d := by omega
            rw [unifyBreaks_cons hc, wide_lineBreak hwide]
            exact ⟨_, rfl⟩
      | false =>
          have hplain := lineBreak_of_not_wide hcontrol hwide
          refine carried_push [c] (by simpa using hplain) ?_ ih
          rw [List.cons_append, List.nil_append, unifyBreaks_keep hplain, List.cons_append,
            scanUnits_plain hquote hslash hcontrol]
  | @simple c u s units hc h ih =>
      obtain ⟨hu, hplain⟩ := simpleEscape_plain hc
      refine carried_push [0x5c, c] (by simpa using ⟨rfl, hplain⟩) ?_ ih
      rw [List.cons_append, List.cons_append, List.nil_append, unifyBreaks_keep (by decide),
        unifyBreaks_keep hplain, List.cons_append, List.cons_append, scanUnits_simple hu hc]
  | @escaped a b c d u s units hu h ih =>
      have hplain : ∀ e ∈ [0x5c, 0x75, a, b, c, d], isLineBreak e = false :=
        List.forall_mem_cons.mpr ⟨rfl, List.forall_mem_cons.mpr ⟨rfl, hexUnit_plain hu⟩⟩
      refine carried_push [0x5c, 0x75, a, b, c, d] hplain ?_ ih
      rw [unifyBreaks_plain hplain]
      cases htail : unifyBreaks s ++ 0x22 :: after with
      | nil => simp at htail
      | cons next tail =>
          rw [List.append_assoc, htail]
          simp only [List.cons_append, List.nil_append, scanUnits, hu]

/-- The scanner of a string literal, whose opening quote the caller has read. -/
theorem scanString_carried {s text rest : Text} (h : scanString s = .ok (text, rest)) :
    ∃ body, s = body ++ 0x22 :: rest ∧ ∀ after,
      Carried (Narrow body) (scanString (unifyBreaks body ++ 0x22 :: after)) text after := by
  obtain ⟨⟨units, s'⟩, hscan, hpure⟩ := bind_ok h
  cases hpure
  obtain ⟨body, rfl, hunits⟩ := scanUnits_reads s units rest hscan
  refine ⟨body, rfl, fun after => ?_⟩
  obtain ⟨hkept, hlost⟩ := units_carried hunits after
  constructor
  · intro hall
    unfold scanString
    rw [hkept hall]
    rfl
  · intro hwide
    obtain ⟨message, herror⟩ := hlost hwide
    unfold scanString
    rw [herror]
    exact ⟨message, rfl⟩

section Numbers

variable {limits : Limits}

/-- No digit follows. -/
def Stops (after : Text) : Prop :=
  ∀ c, after.head? = some c → isDigit c = false

theorem takeWhile_stops {digits after : Text} (hdigits : ∀ c ∈ digits, isDigit c = true)
    (hafter : Stops after) :
    (digits ++ after).takeWhile isDigit = digits ∧ (digits ++ after).dropWhile isDigit = after := by
  rw [List.takeWhile_append_of_pos hdigits, List.dropWhile_append_of_pos hdigits]
  cases after with
  | nil => simp
  | cons c after => simp [hafter c rfl]

theorem integerPart_stops {s digits rest after : Text} (h : integerPart s = some (digits, rest))
    (hafter : Stops after) : integerPart (digits ++ after) = some (digits, after) := by
  unfold integerPart at h
  split at h
  · cases h
    rfl
  next c tail hzero =>
    split at h
    next hc =>
      cases h
      obtain ⟨htake, hdrop⟩ :=
        takeWhile_stops (fun _ hd => List.mem_takeWhile_imp (l := tail) hd) hafter
      rw [List.cons_append, integerPart.eq_2 _ _ hzero, if_pos hc, htake, hdrop]
    · cases h
  · cases h

theorem fraction_none {after : Text} (hdot : ∀ c, after.head? = some c → c ≠ 0x2e) :
    fraction after = ([], after) := by
  unfold fraction
  split
  · exact absurd rfl (hdot _ rfl)
  · rfl

theorem fraction_stops (s : Text) {after : Text} (hafter : Stops after)
    (hdot : ∀ c, after.head? = some c → c ≠ 0x2e) :
    fraction ((fraction s).1 ++ after) = ((fraction s).1, after) := by
  obtain ⟨_, hnone | ⟨digits, hdigits, hfraction⟩⟩ := fraction_reads s
  · rw [hnone]
    exact fraction_none hdot
  · rw [hfraction]
    obtain ⟨hne, hall⟩ := hdigits
    cases digits with
    | nil => exact absurd rfl hne
    | cons d digits =>
        obtain ⟨htake, hdrop⟩ :=
          takeWhile_stops (fun c hc => hall c (List.mem_cons_of_mem _ hc)) hafter
        simp only [List.cons_append, fraction, hall d List.mem_cons_self, if_true, htake, hdrop]

theorem exponent_none {after : Text}
    (hletter : ∀ c, after.head? = some c → c ≠ 0x65 ∧ c ≠ 0x45) :
    exponent after = ([], after) := by
  cases after with
  | nil => rfl
  | cons c after =>
      obtain ⟨hlower, hupper⟩ := hletter c rfl
      unfold exponent
      dsimp only
      rw [if_neg fun h => h.1.elim hlower hupper]

theorem exponentSign_stops {signed digits after : Text}
    (hsigned : signed = [] ∨ signed = [0x2b] ∨ signed = [0x2d]) (hdigits : Digits digits) :
    exponentSign (signed ++ digits ++ after) = (signed, digits ++ after) := by
  rcases hsigned with rfl | rfl | rfl
  · obtain ⟨hne, hall⟩ := hdigits
    cases digits with
    | nil => exact absurd rfl hne
    | cons d digits =>
        have hd := hall d List.mem_cons_self
        have hplus : d ≠ 0x2b := by
          rintro rfl
          cases hd
        have hminus : d ≠ 0x2d := by
          rintro rfl
          cases hd
        simp only [List.nil_append, List.cons_append, exponentSign, hplus, hminus, or_self, if_false]
  · rfl
  · rfl

theorem exponent_stops (s : Text) {after : Text} (hafter : Stops after)
    (hletter : ∀ c, after.head? = some c → c ≠ 0x65 ∧ c ≠ 0x45) :
    exponent ((exponent s).1 ++ after) = ((exponent s).1, after) := by
  obtain ⟨_, hnone | ⟨e, signed, digits, he, hsigned, hdigits, hexponent⟩⟩ := exponent_reads s
  · rw [hnone]
    exact exponent_none hletter
  · obtain ⟨htake, hdrop⟩ := takeWhile_stops hdigits.2 hafter
    rw [hexponent, List.cons_append, List.cons_append]
    unfold exponent
    dsimp only
    rw [exponentSign_stops hsigned hdigits]
    dsimp only
    rw [htake, hdrop, if_pos ⟨he, hdigits.1⟩]
    rfl

/-- The characters of a number. -/
def isNumeric (c : Nat) : Bool :=
  isDigit c || [0x2d, 0x2b, 0x2e, 0x65, 0x45].contains c

theorem numeric_plain {c : Nat} (h : isNumeric c = true) : isLineBreak c = false := by
  refine plain_of_bounds ?_ ?_
  all_goals
    simp only [isNumeric, isDigit, List.contains_cons, List.contains_nil, Bool.or_false,
      Bool.or_eq_true, Bool.and_eq_true, decide_eq_true_eq, beq_iff_eq] at h
    omega

/-- No number begins with white space, a quote or a bracket. -/
theorem numeric_front {c : Nat} (h : isNumeric c = true) :
    isWhitespace c = false ∧ c ≠ 0x22 ∧ c ≠ 0x7b ∧ c ≠ 0x5b := by
  refine ⟨?_, ?_, ?_, ?_⟩
  · cases hwhite : isWhitespace c with
    | false => rfl
    | true =>
        simp only [isWhitespace, Bool.or_eq_true, beq_iff_eq] at hwhite
        rcases hwhite with ((rfl | rfl) | rfl) | rfl <;> cases h
  all_goals
    rintro rfl
    cases h

theorem numeric_of_digits {digits : Text} (h : ∀ c ∈ digits, isDigit c = true) :
    ∀ c ∈ digits, isNumeric c = true := by
  intro c hc
  simp [isNumeric, h c hc]

theorem fraction_numeric (s : Text) : ∀ c ∈ (fraction s).1, isNumeric c = true := by
  obtain ⟨_, hnone | ⟨digits, hdigits, hfraction⟩⟩ := fraction_reads s
  · simp [hnone]
  · rw [hfraction]
    exact List.forall_mem_cons.mpr ⟨rfl, numeric_of_digits hdigits.2⟩

theorem exponent_numeric (s : Text) : ∀ c ∈ (exponent s).1, isNumeric c = true := by
  obtain ⟨_, hnone | ⟨e, signed, digits, he, hsigned, hdigits, hexponent⟩⟩ := exponent_reads s
  · simp [hnone]
  · have hfront : ∀ c ∈ e :: signed, isNumeric c = true := by
      rcases he with rfl | rfl
      all_goals rcases hsigned with rfl | rfl | rfl <;> decide
    rw [hexponent]
    intro c hc
    rcases List.mem_append.mp hc with hc | hc
    · exact hfront c hc
    · exact numeric_of_digits hdigits.2 c hc

theorem sign_stops {minus digits : Text} (hminus : Minus minus) (hdigits : Digits digits)
    (after : Text) : sign (minus ++ (digits ++ after)) = (minus, digits ++ after) := by
  rcases hminus with rfl | rfl
  · obtain ⟨hne, hall⟩ := hdigits
    cases digits with
    | nil => exact absurd rfl hne
    | cons d digits =>
        have hminus : d ≠ 0x2d := by
          rintro rfl
          exact absurd (hall _ List.mem_cons_self) (by decide)
        rw [List.nil_append, List.cons_append]
        unfold sign
        split
        next heq => exact absurd (List.cons.inj heq).1 hminus
        · rfl
  · rfl

/-- No character that ends a number could belong to one. -/
theorem Delimited.not_numeric {after : Text} (h : Delimited after) :
    ∀ c, after.head? = some c → isNumeric c = false := by
  obtain ⟨c, t, rfl, hc⟩ := h
  rintro _ ⟨⟩
  simp only [isWhitespace, Bool.or_eq_true, beq_iff_eq] at hc
  rcases hc with (((rfl | rfl) | rfl) | rfl) | rfl | rfl | rfl <;> rfl

theorem stops_of_not_numeric {after : Text}
    (h : ∀ c, after.head? = some c → isNumeric c = false) :
    Stops after ∧ (∀ c, after.head? = some c → c ≠ 0x2e) ∧
      ∀ c, after.head? = some c → c ≠ 0x65 ∧ c ≠ 0x45 := by
  refine ⟨fun c hc => ?_, fun c hc => ?_, fun c hc => ⟨?_, ?_⟩⟩
  · exact (Bool.or_eq_false_iff.mp (h c hc)).1
  all_goals
    rintro rfl
    exact absurd (h _ hc) (by decide)

/-- What the exponent starts with, if there is one, continues no fraction. -/
theorem exponent_front (s : Text) {after : Text} (hafter : Stops after)
    (hdot : ∀ c, after.head? = some c → c ≠ 0x2e) :
    Stops ((exponent s).1 ++ after) ∧
      ∀ c, ((exponent s).1 ++ after).head? = some c → c ≠ 0x2e := by
  obtain ⟨_, hnone | ⟨e, signed, digits, he, _, _, hexponent⟩⟩ := exponent_reads s
  · rw [hnone]
    exact ⟨hafter, hdot⟩
  · rw [hexponent]
    constructor
    all_goals
      rintro _ ⟨⟩
      rcases he with rfl | rfl <;> decide

theorem fraction_front (s : Text) {after : Text} (hafter : Stops after) :
    Stops ((fraction s).1 ++ after) := by
  obtain ⟨_, hnone | ⟨digits, _, hfraction⟩⟩ := fraction_reads s
  · rw [hnone]
    exact hafter
  · rw [hfraction]
    rintro _ ⟨⟩
    rfl

/-- A number is read the same before any delimiter. -/
theorem matchNumber_local {s rest : Text} {value : Value}
    (h : matchNumber limits s = .ok (value, rest)) :
    ∃ minus digits tail, s = minus ++ digits ++ tail ++ rest ∧ Minus minus ∧ Digits digits ∧
      (∀ c ∈ tail, isNumeric c = true) ∧ ∀ after, Delimited after →
        matchNumber limits (minus ++ digits ++ tail ++ after) = .ok (value, after) := by
  unfold matchNumber at h
  split at h
  · cases h
  next digits s₁ hdigits =>
    obtain ⟨hsign, hminus⟩ := sign_reads s
    obtain ⟨hs, hint⟩ := integerPart_reads hdigits
    obtain ⟨hs₁, _⟩ := fraction_reads s₁
    obtain ⟨hs₂, _⟩ := exponent_reads (fraction s₁).2
    dsimp only at h
    split at h
    next hempty =>
      obtain ⟨number, hparse, hpure⟩ := bind_ok h
      cases hpure
      refine ⟨(sign s).1, digits, [], ?_, hminus, hint.1, by simp, fun after hafter => ?_⟩
      · rw [List.append_nil, List.append_assoc, ← hs, ← hsign]
      · obtain ⟨hstops, hdot, hletter⟩ := stops_of_not_numeric hafter.not_numeric
        rw [List.append_nil, List.append_assoc]
        unfold matchNumber
        rw [sign_stops hminus hint.1]
        dsimp only
        rw [integerPart_stops hdigits hstops]
        dsimp only
        rw [fraction_none hdot]
        dsimp only
        rw [exponent_none hletter, if_pos ⟨rfl, rfl⟩, hparse]
        rfl
    next hsome =>
      cases h
      refine ⟨(sign s).1, digits, (fraction s₁).1 ++ (exponent (fraction s₁).2).1, ?_, hminus,
        hint.1, ?_, fun after hafter => ?_⟩
      · calc s = (sign s).1 ++ (digits ++ ((fraction s₁).1 ++
              ((exponent (fraction s₁).2).1 ++ (exponent (fraction s₁).2).2))) := by
              rw [← hs₂, ← hs₁, ← hs, ← hsign]
          _ = _ := by simp only [List.append_assoc]
      · intro c hc
        rcases List.mem_append.mp hc with hc | hc
        · exact fraction_numeric s₁ c hc
        · exact exponent_numeric _ c hc
      · obtain ⟨hstops, hdot, hletter⟩ := stops_of_not_numeric hafter.not_numeric
        obtain ⟨hstops₂, hdot₂⟩ := exponent_front (fraction s₁).2 hstops hdot
        have hfraction := fraction_stops s₁ hstops₂ hdot₂
        have hexponent := exponent_stops (fraction s₁).2 hstops hletter
        have hinteger := integerPart_stops hdigits (fraction_front s₁ hstops₂)
        have hregroup : (sign s).1 ++ digits ++
            ((fraction s₁).1 ++ (exponent (fraction s₁).2).1) ++ after =
              (sign s).1 ++ (digits ++ ((fraction s₁).1 ++
                ((exponent (fraction s₁).2).1 ++ after))) := by
          simp only [List.append_assoc]
        rw [hregroup]
        unfold matchNumber
        rw [sign_stops hminus hint.1]
        dsimp only
        rw [hinteger]
        dsimp only
        rw [hfraction]
        dsimp only
        rw [hexponent, if_neg hsome]

end Numbers

section Containers

theorem opens_append {s : Text} (h : Opens s) (t : Text) : Opens (s ++ t) := by
  obtain ⟨c, s, rfl, hwhite, hplain⟩ := h
  exact ⟨c, s ++ t, rfl, hwhite, hplain⟩

theorem opens_unify {s : Text} (h : Opens s) : Opens (unifyBreaks s) := by
  obtain ⟨c, s, rfl, hwhite, hplain⟩ := h
  exact ⟨c, unifyBreaks s, unifyBreaks_keep hplain s, hwhite, hplain⟩

theorem Opens.skip {s : Text} (h : Opens s) : skipWhitespace s = s := by
  obtain ⟨c, s, rfl, hwhite, _⟩ := h
  simp [skipWhitespace, hwhite]

theorem Opens.unify_behind {s : Text} (h : Opens s) (front : Text) :
    unifyBreaks (front ++ s) = unifyBreaks front ++ unifyBreaks s := by
  obtain ⟨c, s, rfl, _, hplain⟩ := h
  refine unifyBreaks_append fun _ hhead => ?_
  obtain rfl : c = 0x0a := Option.some.inj hhead
  cases hplain

/-- A character that is no line break. -/
theorem unifyBreaks_before {c : Nat} (h : isLineBreak c = false) (front s : Text) :
    unifyBreaks (front ++ c :: s) = unifyBreaks front ++ c :: unifyBreaks s := by
  rw [unifyBreaks_append, unifyBreaks_keep h]
  intro _ hhead
  obtain rfl : c = 0x0a := Option.some.inj hhead
  cases h

theorem skipWhitespace_unify {w s : Text} (hw : Blank w) (hs : Opens s) :
    skipWhitespace (unifyBreaks w ++ s) = s := by
  unfold skipWhitespace
  rw [List.dropWhile_append_of_pos (blank_unifyBreaks hw)]
  exact hs.skip

theorem delimited_unify {w : Text} (hw : Blank w) {c : Nat} (hc : c = 0x2c ∨ c = 0x5d ∨ c = 0x7d)
    (s : Text) : Delimited (unifyBreaks w ++ c :: s) := by
  cases hunify : unifyBreaks w with
  | nil => exact ⟨c, s, rfl, .inr hc⟩
  | cons d t =>
      refine ⟨d, t ++ c :: s, rfl, .inl (blank_unifyBreaks hw d ?_)⟩
      rw [hunify]
      exact List.mem_cons_self

theorem opens_char {c : Nat} (s : Text) (hc : c = 0x2c ∨ c = 0x5d ∨ c = 0x7d ∨ c = 0x3a) :
    Opens (c :: s) := by
  refine ⟨c, s, rfl, ?_⟩
  rcases hc with rfl | rfl | rfl | rfl <;> decide

variable {scan : Scanner Value}

theorem Carried.pure {α : Type} (value : α) (after : Text) :
    Carried True (.ok (value, after)) value after :=
  ⟨fun _ => rfl, fun h => absurd trivial h⟩

theorem Carried.bind {α β : Type} {p q : Prop} {x : Except Failure (α × Text)}
    {f : α × Text → Except Failure (β × Text)} {a : α} {b : β} {middle after : Text}
    (hx : Carried p x a middle) (hf : Carried q (f (a, middle)) b after) :
    Carried (p ∧ q) (x >>= f) b after := by
  by_cases hp : p
  · rw [hx.kept hp, and_iff_right hp]
    exact hf
  · refine ⟨fun hpq => absurd hpq.1 hp, fun _ => ?_⟩
    obtain ⟨message, herror⟩ := hx.lost hp
    rw [herror]
    exact ⟨message, rfl⟩

theorem Carried.congr {α : Type} {p q : Prop} {x : Except Failure (α × Text)} {a : α}
    {after : Text} (h : Carried p x a after) (hpq : q ↔ p) : Carried q x a after := by
  rwa [hpq]

theorem narrow_gap {w s : Text} {c : Nat} (hw : Blank w) (hc : isWideBreak c = false) :
    Narrow (w ++ c :: s) ↔ Narrow s := by
  rw [narrow_append, narrow_cons, and_iff_right (narrow_of_blank hw), and_iff_right hc]

theorem narrow_behind {w s : Text} (hw : Blank w) : Narrow (w ++ s) ↔ Narrow s := by
  rw [narrow_append, and_iff_right (narrow_of_blank hw)]

theorem scanItems_local (hscan : Local scan) (fuel : Nat) (s : Text) (values : List Value)
    (rest : Text) (h : scanItems scan fuel s = .ok (values, rest)) :
    ∃ body, s = body ++ 0x5d :: rest ∧ Opens body ∧ ∀ fuel' after,
      (unifyBreaks body).length < fuel' →
        Carried (Narrow body) (scanItems scan fuel' (unifyBreaks body ++ 0x5d :: after))
          values after := by
  induction fuel generalizing s values with
  | zero => cases h
  | succ fuel ih =>
      unfold scanItems at h
      obtain ⟨⟨value, s₁⟩, hvalue, hnext⟩ := bind_ok h
      obtain ⟨lexeme, rfl, hopens, hback, hcarried⟩ := hscan _ _ _ hvalue
      clear h
      dsimp only at hnext
      have hw := blank_takeWhile s₁
      have hs₁ := skipWhitespace_eq s₁
      split at hnext
      next s₂ hs₂ =>
        cases hnext
        rw [hs₂] at hs₁
        refine ⟨lexeme ++ s₁.takeWhile isWhitespace, by rw [List.append_assoc, ← hs₁],
          opens_append hopens _, fun fuel' after hfuel => ?_⟩
        obtain ⟨fuel', rfl⟩ : ∃ n, fuel' = n + 1 := ⟨fuel' - 1, by omega⟩
        have hskip := skipWhitespace_unify hw (opens_char after (.inr (.inl rfl)))
        have hfirst := hcarried (unifyBreaks (s₁.takeWhile isWhitespace) ++ 0x5d :: after)
          (.inr (delimited_unify hw (.inr (.inl rfl)) after))
        rw [unifyBreaks_append (fun hlast => absurd hlast hback), List.append_assoc]
        unfold scanItems
        refine (hfirst.bind ?_).congr narrow_append
        simp only [hskip, narrow_of_blank hw]
        exact Carried.pure _ _
      next s₂ hs₂ =>
        obtain ⟨⟨tail, s₃⟩, htail, hpure⟩ := bind_ok hnext
        cases hpure
        obtain ⟨body, hbody, hbodyOpens, hbodyCarried⟩ := ih _ _ htail
        have hw₂ := blank_takeWhile s₂
        have hs₂' := skipWhitespace_eq s₂
        rw [hs₂] at hs₁
        rw [hbody] at hs₂'
        refine ⟨lexeme ++ (s₁.takeWhile isWhitespace ++
          0x2c :: (s₂.takeWhile isWhitespace ++ body)), ?_, opens_append hopens _,
          fun fuel' after hfuel => ?_⟩
        · simp only [List.append_assoc, List.cons_append]
          rw [← hs₂', ← hs₁]
        · obtain ⟨fuel', rfl⟩ : ∃ n, fuel' = n + 1 := ⟨fuel' - 1, by omega⟩
          rw [unifyBreaks_append (fun hlast => absurd hlast hback),
            unifyBreaks_before (by decide), hbodyOpens.unify_behind] at hfuel ⊢
          simp only [List.length_append, List.length_cons] at hfuel
          simp only [List.append_assoc, List.cons_append]
          have hskip := skipWhitespace_unify hw (opens_char (unifyBreaks
            (s₂.takeWhile isWhitespace) ++ (unifyBreaks body ++ 0x5d :: after)) (.inl rfl))
          have hskip₂ := skipWhitespace_unify hw₂
            (opens_append (opens_unify hbodyOpens) (0x5d :: after))
          have hfirst := hcarried (unifyBreaks (s₁.takeWhile isWhitespace) ++ 0x2c ::
            (unifyBreaks (s₂.takeWhile isWhitespace) ++ (unifyBreaks body ++ 0x5d :: after)))
            (.inr (delimited_unify hw (.inl rfl) _))
          have hmore := hbodyCarried fuel' after (by omega)
          unfold scanItems
          refine (hfirst.bind ?_).congr narrow_append
          simp only [hskip, hskip₂]
          refine (hmore.bind (Carried.pure (value :: tail) after)).congr ?_
          rw [and_true]
          exact (narrow_gap hw rfl).trans (narrow_behind hw₂)
      · cases hnext

theorem narrow_member {quoted s : Text} {q : Prop} (h : Narrow s ↔ q) :
    Narrow (0x22 :: (quoted ++ 0x22 :: s)) ↔ Narrow quoted ∧ q := by
  have hquote : isWideBreak 0x22 = false := rfl
  rw [narrow_cons, narrow_append, narrow_cons, h, and_iff_right hquote, and_iff_right hquote]

theorem scanMembers_local (hscan : Local scan) (fuel : Nat) (s : Text)
    (members : List (Text × Value)) (rest : Text)
    (h : scanMembers scan fuel s = .ok (members, rest)) :
    ∃ body, s = body ++ 0x7d :: rest ∧ Opens body ∧ ∀ fuel' after,
      (unifyBreaks body).length < fuel' →
        Carried (Narrow body) (scanMembers scan fuel' (unifyBreaks body ++ 0x7d :: after))
          members after := by
  induction fuel generalizing s members with
  | zero => cases h
  | succ fuel ih =>
      unfold scanMembers at h
      split at h
      next s₀ =>
        obtain ⟨⟨key, s₁⟩, hkey, hmember⟩ := bind_ok h
        clear h
        obtain ⟨quoted, rfl, hquoted⟩ := scanString_carried hkey
        have hw₁ := blank_takeWhile s₁
        have hs₁ := skipWhitespace_eq s₁
        dsimp only at hmember
        split at hmember
        next s₂ hs₂ =>
          obtain ⟨⟨value, s₃⟩, hvalue, hnext⟩ := bind_ok hmember
          clear hmember
          obtain ⟨lexeme, hlexeme, hopens, hback, hcarried⟩ := hscan _ _ _ hvalue
          have hw₂ := blank_takeWhile s₂
          have hs₂' := skipWhitespace_eq s₂
          have hw₃ := blank_takeWhile s₃
          have hs₃ := skipWhitespace_eq s₃
          rw [hs₂] at hs₁
          rw [hlexeme] at hs₂'
          dsimp only at hnext
          split at hnext
          next s₄ hs₄ =>
            cases hnext
            rw [hs₄] at hs₃
            refine ⟨0x22 :: (quoted ++ 0x22 :: (s₁.takeWhile isWhitespace ++
              0x3a :: (s₂.takeWhile isWhitespace ++
                (lexeme ++ s₃.takeWhile isWhitespace)))), ?_, ⟨_, _, rfl, rfl, rfl⟩,
              fun fuel' after hfuel => ?_⟩
            · simp only [List.append_assoc, List.cons_append]
              rw [← hs₃, ← hs₂', ← hs₁]
            · obtain ⟨fuel', rfl⟩ : ∃ n, fuel' = n + 1 := ⟨fuel' - 1, by omega⟩
              rw [unifyBreaks_keep (by decide), unifyBreaks_before (by decide),
                unifyBreaks_before (by decide), (opens_append hopens _).unify_behind,
                unifyBreaks_append (fun hlast => absurd hlast hback)]
              simp only [List.append_assoc, List.cons_append]
              have hfirst := hquoted (unifyBreaks (s₁.takeWhile isWhitespace) ++ 0x3a ::
                (unifyBreaks (s₂.takeWhile isWhitespace) ++ (unifyBreaks lexeme ++
                  (unifyBreaks (s₃.takeWhile isWhitespace) ++ 0x7d :: after))))
              have hsecond := hcarried (unifyBreaks (s₃.takeWhile isWhitespace) ++ 0x7d :: after)
                (.inr (delimited_unify hw₃ (.inr (.inr rfl)) after))
              have hskip₁ := skipWhitespace_unify hw₁ (opens_char (unifyBreaks
                (s₂.takeWhile isWhitespace) ++ (unifyBreaks lexeme ++ (unifyBreaks
                  (s₃.takeWhile isWhitespace) ++ 0x7d :: after))) (.inr (.inr (.inr rfl))))
              have hskip₂ := skipWhitespace_unify hw₂ (opens_append (opens_unify hopens)
                (unifyBreaks (s₃.takeWhile isWhitespace) ++ 0x7d :: after))
              have hskip₃ := skipWhitespace_unify hw₃ (opens_char after (.inr (.inr (.inl rfl))))
              have hnarrow : Narrow (s₁.takeWhile isWhitespace ++ 0x3a ::
                  (s₂.takeWhile isWhitespace ++ (lexeme ++ s₃.takeWhile isWhitespace))) ↔
                    Narrow lexeme ∧ True := by
                rw [narrow_gap hw₁ rfl, narrow_behind hw₂, narrow_append, and_true,
                  and_iff_left (narrow_of_blank hw₃)]
              unfold scanMembers
              dsimp only
              refine (hfirst.bind ?_).congr (narrow_member hnarrow)
              simp only [hskip₁, hskip₂]
              refine hsecond.bind ?_
              simp only [hskip₃]
              exact Carried.pure _ _
          next s₄ hs₄ =>
            obtain ⟨⟨tail, s₅⟩, htail, hpure⟩ := bind_ok hnext
            cases hpure
            obtain ⟨body, hbody, hbodyOpens, hbodyCarried⟩ := ih _ _ htail
            have hw₄ := blank_takeWhile s₄
            have hs₄' := skipWhitespace_eq s₄
            rw [hs₄] at hs₃
            rw [hbody] at hs₄'
            refine ⟨0x22 :: (quoted ++ 0x22 :: (s₁.takeWhile isWhitespace ++
              0x3a :: (s₂.takeWhile isWhitespace ++ (lexeme ++ (s₃.takeWhile isWhitespace ++
                0x2c :: (s₄.takeWhile isWhitespace ++ body)))))), ?_, ⟨_, _, rfl, rfl, rfl⟩,
              fun fuel' after hfuel => ?_⟩
            · simp only [List.append_assoc, List.cons_append]
              rw [← hs₄', ← hs₃, ← hs₂', ← hs₁]
            · obtain ⟨fuel', rfl⟩ : ∃ n, fuel' = n + 1 := ⟨fuel' - 1, by omega⟩
              rw [unifyBreaks_keep (by decide), unifyBreaks_before (by decide),
                unifyBreaks_before (by decide), (opens_append hopens _).unify_behind,
                unifyBreaks_append (fun hlast => absurd hlast hback),
                unifyBreaks_before (by decide), hbodyOpens.unify_behind] at hfuel ⊢
              simp only [List.length_append, List.length_cons] at hfuel
              simp only [List.append_assoc, List.cons_append]
              have hrest := opens_append (opens_unify hbodyOpens) (0x7d :: after)
              have hdelimiter := opens_char (unifyBreaks (s₄.takeWhile isWhitespace) ++
                (unifyBreaks body ++ 0x7d :: after)) (.inl rfl)
              have hfirst := hquoted (unifyBreaks (s₁.takeWhile isWhitespace) ++ 0x3a ::
                (unifyBreaks (s₂.takeWhile isWhitespace) ++ (unifyBreaks lexeme ++
                  (unifyBreaks (s₃.takeWhile isWhitespace) ++ 0x2c ::
                    (unifyBreaks (s₄.takeWhile isWhitespace) ++
                      (unifyBreaks body ++ 0x7d :: after))))))
              have hsecond := hcarried (unifyBreaks (s₃.takeWhile isWhitespace) ++ 0x2c ::
                (unifyBreaks (s₄.takeWhile isWhitespace) ++ (unifyBreaks body ++ 0x7d :: after)))
                (.inr (delimited_unify hw₃ (.inl rfl) _))
              have hskip₁ := skipWhitespace_unify hw₁ (opens_char (unifyBreaks
                (s₂.takeWhile isWhitespace) ++ (unifyBreaks lexeme ++ (unifyBreaks
                  (s₃.takeWhile isWhitespace) ++ 0x2c :: (unifyBreaks (s₄.takeWhile isWhitespace) ++
                    (unifyBreaks body ++ 0x7d :: after))))) (.inr (.inr (.inr rfl))))
              have hskip₂ := skipWhitespace_unify hw₂ (opens_append (opens_unify hopens)
                (unifyBreaks (s₃.takeWhile isWhitespace) ++ 0x2c ::
                  (unifyBreaks (s₄.takeWhile isWhitespace) ++ (unifyBreaks body ++ 0x7d :: after))))
              have hskip₃ := skipWhitespace_unify hw₃ hdelimiter
              have hskip₄ := skipWhitespace_unify hw₄ hrest
              have hmore := hbodyCarried fuel' after (by omega)
              have hnarrow : Narrow (s₁.takeWhile isWhitespace ++ 0x3a ::
                  (s₂.takeWhile isWhitespace ++ (lexeme ++ (s₃.takeWhile isWhitespace ++
                    0x2c :: (s₄.takeWhile isWhitespace ++ body))))) ↔
                      Narrow lexeme ∧ (Narrow body ∧ True) := by
                rw [narrow_gap hw₁ rfl, narrow_behind hw₂, narrow_append, narrow_gap hw₃ rfl,
                  narrow_behind hw₄, and_true]
              unfold scanMembers
              dsimp only
              refine (hfirst.bind ?_).congr (narrow_member hnarrow)
              simp only [hskip₁, hskip₂]
              refine hsecond.bind ?_
              simp only [hskip₃, hskip₄]
              exact hmore.bind (Carried.pure ((key, value) :: tail) after)
          · cases hnext
        · cases hmember
      · cases h

theorem parseArray_local (hscan : Local scan) {s rest : Text} {value : Value}
    (h : parseArray scan s = .ok (value, rest)) :
    ∃ inner, s = inner ++ 0x5d :: rest ∧ closed value = true ∧ ∀ after,
      Carried (Narrow inner) (parseArray scan (unifyBreaks inner ++ 0x5d :: after)) value after := by
  have hw := blank_takeWhile s
  have hs := skipWhitespace_eq s
  unfold parseArray at h
  split at h
  next s₁ hs₁ =>
    cases h
    rw [hs₁] at hs
    refine ⟨s.takeWhile isWhitespace, hs, rfl, fun after => ?_⟩
    have hskip := skipWhitespace_unify hw (opens_char after (.inr (.inl rfl)))
    refine Carried.congr ?_ (iff_true_intro (narrow_of_blank hw))
    unfold parseArray
    rw [hskip]
    exact Carried.pure _ _
  next hne =>
    obtain ⟨⟨items, s₁⟩, hitems, hpure⟩ := bind_ok h
    cases hpure
    obtain ⟨body, hbody, hopens, hcarried⟩ := scanItems_local hscan _ _ _ _ hitems
    rw [hbody] at hs
    refine ⟨s.takeWhile isWhitespace ++ body, by rw [List.append_assoc, ← hs], rfl,
      fun after => ?_⟩
    have hskip := skipWhitespace_unify hw (opens_append (opens_unify hopens) (0x5d :: after))
    have hitems' := hcarried ((unifyBreaks body ++ 0x5d :: after).length + 1) after
      (by simp only [List.length_append]; omega)
    rw [hopens.unify_behind, List.append_assoc, narrow_behind hw]
    unfold parseArray
    rw [hskip]
    obtain ⟨c, t, rfl, _, hplain⟩ := hopens
    rw [unifyBreaks_keep hplain] at hitems' ⊢
    split
    next s₂ hs₂ =>
      obtain rfl : c = 0x5d := (List.cons.inj hs₂).1
      exact absurd hbody (hne _)
    · refine (hitems'.bind ?_).congr (and_iff_left trivial).symm
      exact Carried.pure (Value.arr items) after

theorem parseObject_local (hscan : Local scan) {s rest : Text} {value : Value}
    (h : parseObject scan s = .ok (value, rest)) :
    ∃ inner, s = inner ++ 0x7d :: rest ∧ closed value = true ∧ ∀ after,
      Carried (Narrow inner) (parseObject scan (unifyBreaks inner ++ 0x7d :: after)) value
        after := by
  have hw := blank_takeWhile s
  have hs := skipWhitespace_eq s
  unfold parseObject at h
  split at h
  next s₁ hs₁ =>
    cases h
    rw [hs₁] at hs
    refine ⟨s.takeWhile isWhitespace, hs, rfl, fun after => ?_⟩
    have hskip := skipWhitespace_unify hw (opens_char after (.inr (.inr (.inl rfl))))
    refine Carried.congr ?_ (iff_true_intro (narrow_of_blank hw))
    unfold parseObject
    rw [hskip]
    exact Carried.pure _ _
  next hne =>
    obtain ⟨⟨members, s₁⟩, hmembers, hpure⟩ := bind_ok h
    cases hpure
    obtain ⟨body, hbody, hopens, hcarried⟩ := scanMembers_local hscan _ _ _ _ hmembers
    rw [hbody] at hs
    refine ⟨s.takeWhile isWhitespace ++ body, by rw [List.append_assoc, ← hs], rfl,
      fun after => ?_⟩
    have hskip := skipWhitespace_unify hw (opens_append (opens_unify hopens) (0x7d :: after))
    have hmembers' :=
      hcarried ((unifyBreaks body ++ 0x7d :: after).length + 1) after
        (by simp only [List.length_append]; omega)
    rw [hopens.unify_behind, List.append_assoc, narrow_behind hw]
    unfold parseObject
    rw [hskip]
    obtain ⟨c, t, rfl, _, hplain⟩ := hopens
    rw [unifyBreaks_keep hplain] at hmembers' ⊢
    split
    next s₂ hs₂ =>
      obtain rfl : c = 0x7d := (List.cons.inj hs₂).1
      exact absurd hbody (hne _)
    · refine (hmembers'.bind ?_).congr (and_iff_left trivial).symm
      exact Carried.pure (Value.obj (dict members)) after

end Containers

section Values

variable {limits : Limits}

theorem last_append (a : Text) {c : Nat} (hc : c ≠ 0x0d) : (a ++ [c]).getLast? ≠ some 0x0d := by
  rw [List.getLast?_append]
  simpa using hc

/-- A literal between two brackets or quotes. -/
theorem unifyBreaks_between {c d : Nat} (hc : isLineBreak c = false) (hd : isLineBreak d = false)
    (body after : Text) :
    unifyBreaks (c :: body ++ [d]) ++ after = c :: (unifyBreaks body ++ d :: after) := by
  rw [List.cons_append, unifyBreaks_keep hc, unifyBreaks_before hd]
  simp [unifyBreaks]

theorem narrow_between {c d : Nat} (hc : isLineBreak c = false) (hd : isLineBreak d = false)
    (body : Text) : Narrow (c :: body ++ [d]) ↔ Narrow body := by
  rw [List.cons_append, narrow_cons, narrow_append, narrow_cons,
    and_iff_right (not_wide_of_plain hc), and_iff_right (not_wide_of_plain hd)]
  exact and_iff_left (by simp [Narrow])

/-- No word is the beginning of another one. -/
theorem matchConstant_local {s rest : Text} {value : Value}
    (h : matchConstant constants s = some (value, rest)) :
    ∃ c word, s = c :: word ++ rest ∧
      (∀ d ∈ c :: word, isLineBreak d = false ∧ isWhitespace d = false) ∧
      (c ≠ 0x22 ∧ c ≠ 0x7b ∧ c ≠ 0x5b) ∧
      ∀ after, matchConstant constants (c :: word ++ after) = some (value, after) := by
  obtain ⟨word, rfl, hword⟩ := matchConstant_reads h
  simp only [constants, List.mem_cons, Prod.mk.injEq, List.not_mem_nil, or_false, null_eq, true_eq,
    false_eq, nan_eq, infinity_eq, minusInfinity_eq] at hword
  rcases hword with ⟨rfl, rfl⟩ | ⟨rfl, rfl⟩ | ⟨rfl, rfl⟩ | ⟨rfl, rfl⟩ | ⟨rfl, rfl⟩ | ⟨rfl, rfl⟩
  all_goals
    refine ⟨_, _, rfl, by decide, by decide, fun after => ?_⟩
    simp [constants, matchConstant, null_eq, true_eq, false_eq, nan_eq, infinity_eq,
      minusInfinity_eq]

theorem matchConstant_number {minus digits : Text} (hminus : Minus minus) (hdigits : Digits digits)
    (after : Text) : matchConstant constants (minus ++ digits ++ after) = none := by
  obtain ⟨hne, hall⟩ := hdigits
  cases digits with
  | nil => exact absurd rfl hne
  | cons d digits =>
      have hd := hall d List.mem_cons_self
      have hbounds : 0x30 ≤ d ∧ d ≤ 0x39 := by
        simpa only [isDigit, Bool.and_eq_true, decide_eq_true_eq] using hd
      have hletters : ∀ c, 0x39 < c → c ≠ d := by omega
      have hsign : 0x2d ≠ d := by omega
      rcases hminus with rfl | rfl
      · simp [constants, matchConstant, null_eq, true_eq, false_eq, nan_eq, infinity_eq,
          minusInfinity_eq, hletters, hsign]
      · simp [constants, matchConstant, null_eq, true_eq, false_eq, nan_eq, infinity_eq,
          minusInfinity_eq, hletters]

theorem scanTerm_plain {inner : Option (Scanner Value)} {c : Nat} {s : Text}
    (hc : c ≠ 0x22 ∧ c ≠ 0x7b ∧ c ≠ 0x5b) :
    scanTerm limits inner (c :: s) =
      match matchConstant constants (c :: s) with
      | some (value, s) => .ok (value, s)
      | none => matchNumber limits (c :: s) := by
  unfold scanTerm
  split
  next heq => cases heq
  next heq => exact absurd (List.cons.inj heq).1 hc.1
  next heq => exact absurd (List.cons.inj heq).1 hc.2.1
  next heq => exact absurd (List.cons.inj heq).1 hc.2.2
  · rfl

theorem last_plain {s : Text} (h : ∀ c ∈ s, isLineBreak c = false) :
    s.getLast? ≠ some 0x0d := by
  intro hlast
  exact absurd (h _ (List.mem_of_getLast? hlast)) (by decide)

theorem scanTerm_local {inner : Option (Scanner Value)} (hinner : ∀ scan ∈ inner, Local scan) :
    Local (scanTerm limits inner) := by
  intro s value rest h
  unfold scanTerm at h
  split at h
  · cases h
  next s₀ =>
    obtain ⟨⟨text, s₁⟩, htext, hpure⟩ := bind_ok h
    cases hpure
    obtain ⟨body, rfl, hcarried⟩ := scanString_carried htext
    refine ⟨0x22 :: body ++ [0x22], by simp, ⟨_, _, rfl, rfl, rfl⟩, last_append _ (by decide),
      fun after _ => ?_⟩
    rw [unifyBreaks_between rfl rfl, narrow_between rfl rfl]
    refine ((hcarried after).bind ?_).congr (and_iff_left trivial).symm
    exact Carried.pure (Value.str text) after
  next s₀ =>
    split at h
    next scan =>
      obtain ⟨body, rfl, _, hcarried⟩ := parseObject_local (hinner scan rfl) h
      refine ⟨0x7b :: body ++ [0x7d], by simp, ⟨_, _, rfl, rfl, rfl⟩, last_append _ (by decide),
        fun after _ => ?_⟩
      rw [unifyBreaks_between rfl rfl, narrow_between rfl rfl]
      exact hcarried after
    · cases h
  next s₀ =>
    split at h
    next scan =>
      obtain ⟨body, rfl, _, hcarried⟩ := parseArray_local (hinner scan rfl) h
      refine ⟨0x5b :: body ++ [0x5d], by simp, ⟨_, _, rfl, rfl, rfl⟩, last_append _ (by decide),
        fun after _ => ?_⟩
      rw [unifyBreaks_between rfl rfl, narrow_between rfl rfl]
      exact hcarried after
    · cases h
  next s₀ hnil hquote hbrace hbracket =>
    split at h
    next hconstant =>
      cases h
      obtain ⟨c, word, rfl, hword, hc, hlocal⟩ := matchConstant_local hconstant
      have hplain : ∀ d ∈ c :: word, isLineBreak d = false := fun d hd => (hword d hd).1
      obtain ⟨hcPlain, hcWhite⟩ := hword c List.mem_cons_self
      refine ⟨c :: word, rfl, ⟨c, word, rfl, hcWhite, hcPlain⟩, last_plain hplain,
        fun after _ => ?_⟩
      rw [unifyBreaks_of_plain hplain]
      refine Carried.congr ?_ (iff_true_intro (narrow_of_plain hplain))
      rw [List.cons_append, scanTerm_plain hc, ← List.cons_append, hlocal]
      exact Carried.pure value after
    next hnone =>
      have hopen : closed value = false := by
        obtain ⟨_, _, hnumber⟩ := matchNumber_reads _ _ _ h
        cases hnumber <;> rfl
      obtain ⟨minus, digits, tail, rfl, hminus, hdigits, htail, hlocal⟩ := matchNumber_local h
      have hnumeric : ∀ c ∈ minus ++ digits ++ tail, isNumeric c = true := by
        intro c hc
        rcases List.mem_append.mp hc with hc | hc
        · rcases List.mem_append.mp hc with hc | hc
          · rcases hminus with rfl | rfl
            · cases hc
            · rw [List.mem_singleton.mp hc]
              rfl
          · exact numeric_of_digits hdigits.2 c hc
        · exact htail c hc
      have hplain := fun c hc => numeric_plain (hnumeric c hc)
      have hne : minus ++ digits ++ tail ≠ [] := by simp [hdigits.1]
      obtain ⟨c, t, hlexeme⟩ := List.exists_cons_of_ne_nil hne
      have hc := hnumeric c (by rw [hlexeme]; exact List.mem_cons_self)
      obtain ⟨hwhite, hfront⟩ := numeric_front hc
      refine ⟨minus ++ digits ++ tail, rfl, ⟨c, t, hlexeme, hwhite, numeric_plain hc⟩,
        last_plain hplain, fun after hafter => ?_⟩
      have hdelimited : Delimited after := by
        rcases hafter with hclosed | hdelimited
        · rw [hopen] at hclosed
          cases hclosed
        · exact hdelimited
      have hterm : scanTerm limits inner (minus ++ digits ++ tail ++ after) =
          matchNumber limits (minus ++ digits ++ tail ++ after) := by
        have hconstant : matchConstant constants (minus ++ digits ++ tail ++ after) = none := by
          rw [List.append_assoc]
          exact matchConstant_number hminus hdigits _
        rw [hlexeme] at hconstant ⊢
        rw [List.cons_append] at hconstant ⊢
        rw [scanTerm_plain hfront, hconstant]
      rw [unifyBreaks_of_plain hplain, hterm, hlocal after hdelimited]
      exact (Carried.pure value after).congr (iff_true_intro (narrow_of_plain hplain))

theorem scanOnce_local (depth : Nat) : Local (scanOnce limits depth) := by
  induction depth with
  | zero => exact scanTerm_local (by simp)
  | succ depth ih => exact scanTerm_local fun scan h => by cases h; exact ih

/-- An object is read the same whatever follows it and whichever line breaks are between its
tokens, but it is an error if it held a wide break in a string. -/
theorem rawDecode_local {s rest : Text} {value : Value}
    (h : rawDecode limits s = .ok (value, rest)) (hclosed : closed value = true) :
    ∃ lexeme, s = lexeme ++ rest ∧ lexeme.getLast? ≠ some 0x0d ∧ ∀ after,
      Carried (Narrow lexeme) (rawDecode limits (unifyBreaks lexeme ++ after)) value after := by
  obtain ⟨lexeme, hs, _, hback, hcarried⟩ := scanOnce_local limits.depth _ _ _ h
  exact ⟨lexeme, hs, hback, fun after => hcarried after (.inl hclosed)⟩

end Values

end Locality

end ChangeQuality.JsonLineBreaks
