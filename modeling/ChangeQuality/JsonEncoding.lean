import Mathlib.Data.List.Chain
import ChangeQuality.JsonDecoding

/-!
Python's `json.dumps` with its default separators and `ensure_ascii`, and what `raw_decode` reads
from its output.
-/

namespace ChangeQuality.JsonEncoding

open ChangeQuality.Texts
open ChangeQuality.JsonDecoding

section Encoding

def hexDigitOf (n : Nat) : Nat :=
  if n < 10 then 0x30 + n else 0x57 + n

/-- `\uXXXX`. -/
def escapeUnit (u : Nat) : Text :=
  [0x5c, 0x75, hexDigitOf (u / 0x1000), hexDigitOf (u / 0x100 % 0x10), hexDigitOf (u / 0x10 % 0x10),
    hexDigitOf (u % 0x10)]

/-- The letter behind the backslash for the characters of `ESCAPE_DCT`. -/
def shortEscape (c : Nat) : Option Nat :=
  if c = 0x22 ∨ c = 0x5c then some c
  else if c = 0x08 then some 0x62
  else if c = 0x0c then some 0x66
  else if c = 0x0a then some 0x6e
  else if c = 0x0d then some 0x72
  else if c = 0x09 then some 0x74
  else none

def highSurrogate (c : Nat) : Nat := 0xd800 + (c - 0x10000) / 0x400

def lowSurrogate (c : Nat) : Nat := 0xdc00 + (c - 0x10000) % 0x400

def escapeChar (c : Nat) : Text :=
  match shortEscape c with
  | some letter => [0x5c, letter]
  | none =>
    if 0x20 ≤ c ∧ c ≤ 0x7e then [c]
    else if c < 0x10000 then escapeUnit c
    else escapeUnit (highSurrogate c) ++ escapeUnit (lowSurrogate c)

/-- `py_encode_basestring_ascii`. -/
def dumpsString (s : Text) : Text :=
  0x22 :: s.flatMap escapeChar ++ [0x22]

mutual

/-- `json.dumps`; `floatRepr` is `float.__repr__` of the number that a literal stands for. -/
def dumps (floatRepr : Text → Text) : Value → Text
  | .null => ofString "null"
  | .bool true => ofString "true"
  | .bool false => ofString "false"
  | .int value => ofString (toString value)
  | .float literal => floatRepr literal
  | .str text => dumpsString text
  | .arr items => 0x5b :: dumpsItems floatRepr items ++ [0x5d]
  | .obj entries => 0x7b :: dumpsMembers floatRepr entries ++ [0x7d]

def dumpsItems (floatRepr : Text → Text) : List Value → Text
  | [] => []
  | [value] => dumps floatRepr value
  | value :: next :: items =>
    dumps floatRepr value ++ 0x2c :: 0x20 :: dumpsItems floatRepr (next :: items)

def dumpsMembers (floatRepr : Text → Text) : List (Text × Value) → Text
  | [] => []
  | [(key, value)] => dumpsString key ++ 0x3a :: 0x20 :: dumps floatRepr value
  | (key, value) :: next :: entries =>
    dumpsString key ++ 0x3a :: 0x20 :: dumps floatRepr value ++
      0x2c :: 0x20 :: dumpsMembers floatRepr (next :: entries)

end

end Encoding

section Strings

/-- The units by which the escapes of a character are read. -/
def unitsOf (c : Nat) : List CodeUnit :=
  if (shortEscape c).isSome ∨ (0x20 ≤ c ∧ c ≤ 0x7e) then [.plain c]
  else if c < 0x10000 then [.escaped c]
  else [.escaped (highSurrogate c), .escaped (lowSurrogate c)]

/-- A text of code points, no two of which would be read as a pair of surrogates. -/
structure Unpaired (s : Text) : Prop where
  bounded : ∀ c ∈ s, c < 0x110000
  apart : s.IsChain fun c next => ¬(isHighSurrogate c = true ∧ isLowSurrogate next = true)

theorem hexDigit_hexDigitOf {n : Nat} (h : n < 0x10) : hexDigit (hexDigitOf n) = some n := by
  revert n
  decide

theorem hexUnit_escapeUnit {u : Nat} (h : u < 0x10000) :
    hexUnit (hexDigitOf (u / 0x1000)) (hexDigitOf (u / 0x100 % 0x10))
      (hexDigitOf (u / 0x10 % 0x10)) (hexDigitOf (u % 0x10)) = some u := by
  have h₁ : hexDigit (hexDigitOf (u / 0x1000)) = some (u / 0x1000) :=
    hexDigit_hexDigitOf (by omega)
  have h₂ : hexDigit (hexDigitOf (u / 0x100 % 0x10)) = some (u / 0x100 % 0x10) :=
    hexDigit_hexDigitOf (by omega)
  have h₃ : hexDigit (hexDigitOf (u / 0x10 % 0x10)) = some (u / 0x10 % 0x10) :=
    hexDigit_hexDigitOf (by omega)
  have h₄ : hexDigit (hexDigitOf (u % 0x10)) = some (u % 0x10) := hexDigit_hexDigitOf (by omega)
  unfold hexUnit
  rw [h₁, h₂, h₃, h₄]
  have hsum : ((u / 0x1000 * 16 + u / 0x100 % 0x10) * 16 + u / 0x10 % 0x10) * 16 + u % 0x10 = u := by
    omega
  simp [hsum]

theorem scanUnits_escapeUnit {u next : Nat} {s rest : Text} {units : List CodeUnit}
    (hu : u < 0x10000) (h : scanUnits (next :: s) = .ok (units, rest)) :
    scanUnits (escapeUnit u ++ next :: s) = .ok (.escaped u :: units, rest) := by
  simp only [escapeUnit, List.cons_append, List.nil_append, scanUnits, hexUnit_escapeUnit hu, h, push]

theorem shortEscape_some {c letter : Nat} (h : shortEscape c = some letter) :
    letter ≠ 0x75 ∧ simpleEscape letter = some c := by
  unfold shortEscape at h
  split at h
  next hc =>
    cases h
    rcases hc with rfl | rfl <;> decide
  · repeat' split at h
    all_goals
      first
        | (cases h; subst_vars; decide)
        | cases h

theorem scanUnits_escapeChar {c next : Nat} {s rest : Text} {units : List CodeUnit}
    (hc : c < 0x110000) (h : scanUnits (next :: s) = .ok (units, rest)) :
    scanUnits (escapeChar c ++ next :: s) = .ok (unitsOf c ++ units, rest) := by
  unfold escapeChar unitsOf
  split
  next letter hletter =>
    obtain ⟨hu, hsimple⟩ := shortEscape_some hletter
    rw [hletter, if_pos (.inl rfl)]
    simp only [List.cons_append, List.nil_append]
    rw [scanUnits_simple hu hsimple, h]
    rfl
  next hnone =>
    rw [hnone]
    split
    next hprintable =>
      have hquote : c ≠ 0x22 := by
        rintro rfl
        cases hnone
      have hslash : c ≠ 0x5c := by
        rintro rfl
        cases hnone
      rw [if_pos (.inr hprintable)]
      simp only [List.cons_append, List.nil_append]
      rw [scanUnits_plain hquote hslash (by omega), h]
      rfl
    next hprintable =>
      have hneither : ¬((none : Option Nat).isSome = true ∨ 0x20 ≤ c ∧ c ≤ 0x7e) := by
        rintro (h | h)
        · cases h
        · exact hprintable h
      rw [if_neg hneither]
      split
      next hbasic => exact scanUnits_escapeUnit hbasic h
      · have hlow : lowSurrogate c < 0x10000 := by
          unfold lowSurrogate
          omega
        have hhigh : highSurrogate c < 0x10000 := by
          unfold highSurrogate
          omega
        have hinner := scanUnits_escapeUnit hlow h
        rw [List.append_assoc]
        exact scanUnits_escapeUnit hhigh hinner

theorem scanUnits_escaped (s rest : Text) (h : ∀ c ∈ s, c < 0x110000) :
    scanUnits (s.flatMap escapeChar ++ 0x22 :: rest) = .ok (s.flatMap unitsOf, rest) := by
  induction s with
  | nil => rfl
  | cons c s ih =>
      have htail := ih fun d hd => h d (List.mem_cons_of_mem _ hd)
      rw [List.flatMap_cons, List.flatMap_cons, List.append_assoc]
      cases hs : s.flatMap escapeChar ++ 0x22 :: rest with
      | nil => simp at hs
      | cons next after =>
          rw [hs] at htail
          exact scanUnits_escapeChar (h c List.mem_cons_self) htail

theorem highSurrogate_bounds {c : Nat} (hc : c < 0x110000) :
    0xd800 ≤ highSurrogate c ∧ highSurrogate c ≤ 0xdbff := by
  unfold highSurrogate
  omega

theorem lowSurrogate_bounds (c : Nat) : 0xdc00 ≤ lowSurrogate c ∧ lowSurrogate c ≤ 0xdfff := by
  unfold lowSurrogate
  omega

theorem highSurrogate_high {c : Nat} (hc : c < 0x110000) :
    isHighSurrogate (highSurrogate c) = true := by
  obtain ⟨hlower, hupper⟩ := highSurrogate_bounds hc
  exact Bool.and_eq_true_iff.mpr ⟨decide_eq_true hlower, decide_eq_true hupper⟩

theorem highSurrogate_not_low {c : Nat} (hc : c < 0x110000) :
    isLowSurrogate (highSurrogate c) = false := by
  have hbelow : ¬0xdc00 ≤ highSurrogate c := by
    have := (highSurrogate_bounds hc).2
    omega
  exact Bool.and_eq_false_iff.mpr (.inl (decide_eq_false hbelow))

theorem lowSurrogate_low (c : Nat) : isLowSurrogate (lowSurrogate c) = true := by
  obtain ⟨hlower, hupper⟩ := lowSurrogate_bounds c
  exact Bool.and_eq_true_iff.mpr ⟨decide_eq_true hlower, decide_eq_true hupper⟩

/-- An escaped character is joined with the next one only if they are a pair of surrogates. -/
theorem joinSurrogates_escaped {u : Nat} {s : Text} (hs : ∀ c ∈ s, c < 0x110000)
    (h : ∀ next, s.head? = some next → ¬(isHighSurrogate u = true ∧ isLowSurrogate next = true)) :
    joinSurrogates (.escaped u :: s.flatMap unitsOf) = u :: joinSurrogates (s.flatMap unitsOf) := by
  cases s with
  | nil => rfl
  | cons next s =>
      have hnext := h next rfl
      have hlow := highSurrogate_not_low (hs next List.mem_cons_self)
      rw [List.flatMap_cons]
      unfold unitsOf
      split
      · rfl
      · split
        · simp only [List.cons_append, List.nil_append, joinSurrogates]
          rw [if_neg (by simpa using hnext)]
        · simp only [List.cons_append, List.nil_append, joinSurrogates, hlow, Bool.and_false]
          rfl

theorem joinSurrogates_unitsOf {s : Text} (h : Unpaired s) :
    joinSurrogates (s.flatMap unitsOf) = s := by
  induction s with
  | nil => rfl
  | cons c s ih =>
      have hs : ∀ d ∈ s, d < 0x110000 := fun d hd => h.bounded d (List.mem_cons_of_mem _ hd)
      obtain ⟨hnext, hapart⟩ := List.isChain_cons.mp h.apart
      have htail := ih ⟨hs, hapart⟩
      have hc := h.bounded c List.mem_cons_self
      rw [List.flatMap_cons]
      by_cases hplain : (shortEscape c).isSome ∨ (0x20 ≤ c ∧ c ≤ 0x7e)
      · have hunits : unitsOf c = [.plain c] := if_pos hplain
        rw [hunits]
        exact congrArg (c :: ·) htail
      · by_cases hbasic : c < 0x10000
        · have hunits : unitsOf c = [.escaped c] := by
            unfold unitsOf
            rw [if_neg hplain, if_pos hbasic]
          rw [hunits, List.cons_append, List.nil_append,
            joinSurrogates_escaped hs fun next h => hnext next h, htail]
        · have hunits : unitsOf c =
              [.escaped (highSurrogate c), .escaped (lowSurrogate c)] := by
            unfold unitsOf
            rw [if_neg hplain, if_neg hbasic]
          have hjoin : 0x10000 + (highSurrogate c - 0xd800) * 0x400 +
              (lowSurrogate c - 0xdc00) = c := by
            unfold highSurrogate lowSurrogate
            omega
          rw [hunits]
          simp only [List.cons_append, List.nil_append, joinSurrogates, highSurrogate_high hc,
            lowSurrogate_low, Bool.and_self, if_true, hjoin, htail]

theorem scanString_dumpsString {s : Text} (h : Unpaired s) (rest : Text) :
    scanString (s.flatMap escapeChar ++ 0x22 :: rest) = .ok (s, rest) := by
  unfold scanString
  rw [scanUnits_escaped s rest h.bounded]
  exact congrArg (fun text => Except.ok (text, rest)) (joinSurrogates_unitsOf h)

end Strings

section Values

variable {limits : Limits} {floatRepr : Text → Text}

/-- A value without numbers, nested at most `depth` deep, that `dumps` keeps apart from others. -/
inductive Encodable : Nat → Value → Prop where
  | null {depth : Nat} : Encodable depth .null
  | bool {depth : Nat} (value : Bool) : Encodable depth (.bool value)
  | str {depth : Nat} {text : Text} (h : Unpaired text) : Encodable depth (.str text)
  | arr {depth : Nat} {items : List Value} (h : ∀ value ∈ items, Encodable depth value) :
      Encodable (depth + 1) (.arr items)
  | obj {depth : Nat} {entries : List (Text × Value)} (hnodup : (entries.map Prod.fst).Nodup)
      (hkeys : ∀ entry ∈ entries, Unpaired entry.1)
      (h : ∀ entry ∈ entries, Encodable depth entry.2) : Encodable (depth + 1) (.obj entries)

theorem setItem_new {key : Text} {value : Value} {entries : List (Text × Value)}
    (h : key ∉ entries.map Prod.fst) : setItem key value entries = entries ++ [(key, value)] := by
  induction entries with
  | nil => rfl
  | cons entry entries ih =>
      rw [List.map_cons, List.mem_cons, not_or] at h
      rw [setItem, if_neg (fun heq => h.1 heq.symm), ih h.2, List.cons_append]

theorem foldl_setItem {before members : List (Text × Value)}
    (h : ((before ++ members).map Prod.fst).Nodup) :
    members.foldl (fun entries member => setItem member.1 member.2 entries) before =
      before ++ members := by
  induction members generalizing before with
  | nil => simp
  | cons member members ih =>
      have hnew : member.1 ∉ before.map Prod.fst := by
        rw [List.map_append, List.nodup_append] at h
        intro hmem
        exact h.2.2 _ hmem _ List.mem_cons_self rfl
      rw [List.foldl_cons, setItem_new hnew, ih (by simpa using h), List.append_assoc]
      rfl

/-- Members with different keys are the entries of the dictionary. -/
theorem dict_of_nodup {members : List (Text × Value)} (h : (members.map Prod.fst).Nodup) :
    dict members = members := by
  have hfold := @foldl_setItem [] members h
  rwa [List.nil_append] at hfold

theorem skipWhitespace_cons {c : Nat} (h : isWhitespace c = false) (s : Text) :
    skipWhitespace (c :: s) = c :: s := by
  simp [skipWhitespace, h]

/-- No encoded value starts with white space or closes an array. -/
theorem dumps_front {depth : Nat} {value : Value} (h : Encodable depth value) :
    ∃ c s, dumps floatRepr value = c :: s ∧ isWhitespace c = false ∧ c ≠ 0x5d := by
  cases h with
  | null => exact ⟨0x6e, _, by rw [dumps, null_eq], by decide, by decide⟩
  | bool value =>
      cases value with
      | true => exact ⟨0x74, _, by rw [dumps, true_eq], by decide, by decide⟩
      | false => exact ⟨0x66, _, by rw [dumps, false_eq], by decide, by decide⟩
  | str h => exact ⟨0x22, _, by simp only [dumps, dumpsString]; rfl, by decide, by decide⟩
  | arr h => exact ⟨0x5b, _, by simp only [dumps]; rfl, by decide, by decide⟩
  | obj hnodup hkeys h => exact ⟨0x7b, _, by simp only [dumps]; rfl, by decide, by decide⟩

theorem dumps_head {depth : Nat} {value : Value} (h : Encodable depth value) (rest : Text) :
    skipWhitespace (dumps floatRepr value ++ rest) = dumps floatRepr value ++ rest := by
  obtain ⟨c, s, hs, hwhite, _⟩ := @dumps_front floatRepr _ _ h
  rw [hs]
  exact skipWhitespace_cons hwhite _

theorem skipWhitespace_space (s : Text) : skipWhitespace (0x20 :: s) = skipWhitespace s := rfl

theorem dumpsItems_front (value : Value) (items : List Value) :
    ∃ tail, dumpsItems floatRepr (value :: items) = dumps floatRepr value ++ tail := by
  cases items with
  | nil => exact ⟨[], by simp [dumpsItems]⟩
  | cons next items => exact ⟨_, by rw [dumpsItems]⟩

theorem dumpsMembers_front (key : Text) (value : Value) (entries : List (Text × Value)) :
    ∃ tail, dumpsMembers floatRepr ((key, value) :: entries) = dumpsString key ++ 0x3a :: 0x20 ::
      (dumps floatRepr value ++ tail) := by
  cases entries with
  | nil => exact ⟨[], by simp [dumpsMembers]⟩
  | cons next entries =>
      refine ⟨0x2c :: 0x20 :: dumpsMembers floatRepr (next :: entries), ?_⟩
      rw [dumpsMembers, List.append_assoc, List.cons_append, List.cons_append]

section Nested

variable {scan : Scanner Value}

theorem scanItems_dumps {depth : Nat} {items : List Value} (hne : items ≠ [])
    (hitems : ∀ value ∈ items, Encodable depth value)
    (hscan : ∀ value ∈ items, ∀ rest, scan (dumps floatRepr value ++ rest) = .ok (value, rest))
    (fuel : Nat) (hfuel : (dumpsItems floatRepr items).length < fuel) (rest : Text) :
    scanItems scan fuel (dumpsItems floatRepr items ++ 0x5d :: rest) = .ok (items, rest) := by
  induction items generalizing fuel with
  | nil => exact absurd rfl hne
  | cons value items ih =>
      obtain ⟨fuel, rfl⟩ : ∃ n, fuel = n + 1 := ⟨fuel - 1, by omega⟩
      have hvalue := hscan value List.mem_cons_self
      cases items with
      | nil =>
          simp only [dumpsItems, scanItems, hvalue, bind, Except.bind]
          rw [skipWhitespace_cons (by decide)]
          rfl
      | cons next items =>
          have htail := ih (by simp) (fun v hv => hitems v (List.mem_cons_of_mem _ hv))
            (fun v hv => hscan v (List.mem_cons_of_mem _ hv)) fuel (by
              simp only [dumpsItems, List.length_append, List.length_cons] at hfuel ⊢
              omega)
          have hhead : ∀ s, skipWhitespace (dumpsItems floatRepr (next :: items) ++ s) =
              dumpsItems floatRepr (next :: items) ++ s := by
            intro s
            obtain ⟨tail, htail⟩ := @dumpsItems_front floatRepr next items
            rw [htail, List.append_assoc]
            exact dumps_head (hitems next (by simp)) _
          rw [dumpsItems, List.append_assoc, List.cons_append, List.cons_append]
          simp only [scanItems, hvalue, bind, Except.bind]
          rw [skipWhitespace_cons (by decide)]
          simp only [skipWhitespace_space, hhead, htail]
          rfl

theorem scanMembers_dumps {depth : Nat} {entries : List (Text × Value)} (hne : entries ≠ [])
    (hkeys : ∀ entry ∈ entries, Unpaired entry.1)
    (hentries : ∀ entry ∈ entries, Encodable depth entry.2)
    (hscan : ∀ entry ∈ entries, ∀ rest,
      scan (dumps floatRepr entry.2 ++ rest) = .ok (entry.2, rest))
    (fuel : Nat) (hfuel : (dumpsMembers floatRepr entries).length < fuel) (rest : Text) :
    scanMembers scan fuel (dumpsMembers floatRepr entries ++ 0x7d :: rest) =
      .ok (entries, rest) := by
  induction entries generalizing fuel with
  | nil => exact absurd rfl hne
  | cons entry entries ih =>
      obtain ⟨key, value⟩ := entry
      obtain ⟨fuel, rfl⟩ : ∃ n, fuel = n + 1 := ⟨fuel - 1, by omega⟩
      have hkey : ∀ s, scanString (key.flatMap escapeChar ++ 0x22 :: s) = .ok (key, s) :=
        scanString_dumpsString (hkeys _ List.mem_cons_self)
      have hvalue := hscan _ List.mem_cons_self
      have hhead : ∀ s, skipWhitespace (dumps floatRepr value ++ s) = dumps floatRepr value ++ s :=
        dumps_head (hentries _ List.mem_cons_self)
      cases entries with
      | nil =>
          simp only [dumpsMembers, dumpsString, List.cons_append, List.append_assoc,
            List.nil_append, scanMembers, hkey, bind, Except.bind]
          rw [skipWhitespace_cons (by decide)]
          simp only [skipWhitespace_space, hhead, hvalue]
          rw [skipWhitespace_cons (by decide)]
          rfl
      | cons next entries =>
          have htail := ih (by simp) (fun e he => hkeys e (List.mem_cons_of_mem _ he))
            (fun e he => hentries e (List.mem_cons_of_mem _ he))
            (fun e he => hscan e (List.mem_cons_of_mem _ he)) fuel (by
              simp only [dumpsMembers, List.length_append, List.length_cons] at hfuel ⊢
              omega)
          have hnext : ∀ s, skipWhitespace (dumpsMembers floatRepr (next :: entries) ++ s) =
              dumpsMembers floatRepr (next :: entries) ++ s := by
            intro s
            obtain ⟨tail, htail⟩ := @dumpsMembers_front floatRepr next.1 next.2 entries
            rw [htail, dumpsString, List.cons_append, List.cons_append, List.cons_append]
            exact skipWhitespace_cons (by decide) _
          simp only [dumpsMembers, dumpsString, List.cons_append, List.append_assoc,
            List.nil_append, scanMembers, hkey, bind, Except.bind]
          rw [skipWhitespace_cons (by decide)]
          simp only [skipWhitespace_space, hhead, hvalue]
          rw [skipWhitespace_cons (by decide)]
          simp only [skipWhitespace_space, hnext, htail]
          rfl

theorem parseArray_dumps {depth : Nat} {items : List Value}
    (hitems : ∀ value ∈ items, Encodable depth value)
    (hscan : ∀ value ∈ items, ∀ rest, scan (dumps floatRepr value ++ rest) = .ok (value, rest))
    (rest : Text) :
    parseArray scan (dumpsItems floatRepr items ++ 0x5d :: rest) = .ok (.arr items, rest) := by
  cases items with
  | nil => rfl
  | cons value items =>
      obtain ⟨tail, htail⟩ := @dumpsItems_front floatRepr value items
      have hhead : skipWhitespace (dumpsItems floatRepr (value :: items) ++ 0x5d :: rest) =
          dumpsItems floatRepr (value :: items) ++ 0x5d :: rest := by
        rw [htail, List.append_assoc]
        exact dumps_head (hitems value List.mem_cons_self) _
      have hscanned := scanItems_dumps (by simp) hitems hscan
        ((dumpsItems floatRepr (value :: items) ++ 0x5d :: rest).length + 1)
        (by simp only [List.length_append]; omega) rest
      obtain ⟨c, s, hs, _, hclose⟩ := @dumps_front floatRepr _ _ (hitems value List.mem_cons_self)
      unfold parseArray
      rw [hhead]
      split
      next after hafter =>
        rw [htail, hs] at hafter
        exact absurd (List.cons.inj hafter).1 hclose
      · rw [hscanned]
        rfl

theorem parseObject_dumps {depth : Nat} {entries : List (Text × Value)}
    (hnodup : (entries.map Prod.fst).Nodup) (hkeys : ∀ entry ∈ entries, Unpaired entry.1)
    (hentries : ∀ entry ∈ entries, Encodable depth entry.2)
    (hscan : ∀ entry ∈ entries, ∀ rest,
      scan (dumps floatRepr entry.2 ++ rest) = .ok (entry.2, rest)) (rest : Text) :
    parseObject scan (dumpsMembers floatRepr entries ++ 0x7d :: rest) =
      .ok (.obj entries, rest) := by
  cases entries with
  | nil => rfl
  | cons entry entries =>
      obtain ⟨tail, htail⟩ := @dumpsMembers_front floatRepr entry.1 entry.2 entries
      have hscanned := scanMembers_dumps (by simp) hkeys hentries hscan
        ((dumpsMembers floatRepr (entry :: entries) ++ 0x7d :: rest).length + 1)
        (by simp only [List.length_append]; omega) rest
      have hhead : skipWhitespace (dumpsMembers floatRepr (entry :: entries) ++ 0x7d :: rest) =
          dumpsMembers floatRepr (entry :: entries) ++ 0x7d :: rest := by
        rw [htail, dumpsString, List.cons_append, List.cons_append, List.cons_append]
        exact skipWhitespace_cons (by decide) _
      unfold parseObject
      rw [hhead]
      split
      next after hafter =>
        rw [htail, dumpsString] at hafter
        exact absurd (List.cons.inj hafter).1 (by decide)
      · rw [hscanned]
        exact congrArg (fun entries => Except.ok (Value.obj entries, rest)) (dict_of_nodup hnodup)

end Nested

theorem scanTerm_string {inner : Option (Scanner Value)} {text : Text} (h : Unpaired text)
    (rest : Text) :
    scanTerm limits inner (dumpsString text ++ rest) = .ok (.str text, rest) := by
  have hscan := scanString_dumpsString h rest
  simp only [dumpsString, List.cons_append, List.append_assoc, List.nil_append, scanTerm, hscan]
  rfl

theorem scanTerm_word {inner : Option (Scanner Value)} {value : Value} (rest : Text)
    (h : value = .null ∨ ∃ b, value = .bool b) :
    scanTerm limits inner (dumps floatRepr value ++ rest) = .ok (value, rest) := by
  rcases h with rfl | ⟨_ | _, rfl⟩
  · simp [dumps, null_eq, scanTerm, matchConstant, constants]
  · simp [dumps, null_eq, true_eq, false_eq, scanTerm, matchConstant, constants]
  · simp [dumps, null_eq, true_eq, scanTerm, matchConstant, constants]

/-- The decoder reads back what `dumps` has written, whatever follows it. -/
theorem scanOnce_dumps (depth : Nat) {value : Value} (h : Encodable depth value) (rest : Text) :
    scanOnce limits depth (dumps floatRepr value ++ rest) = .ok (value, rest) := by
  induction depth generalizing value rest with
  | zero =>
      cases h with
      | null => exact scanTerm_word rest (.inl rfl)
      | bool value => exact scanTerm_word rest (.inr ⟨_, rfl⟩)
      | str h =>
        simp only [dumps]
        exact scanTerm_string h rest
  | succ depth ih =>
      cases h with
      | null => exact scanTerm_word rest (.inl rfl)
      | bool value => exact scanTerm_word rest (.inr ⟨_, rfl⟩)
      | str h =>
        simp only [dumps]
        exact scanTerm_string h rest
      | arr h =>
          simp only [dumps, List.cons_append, List.append_assoc, List.nil_append, scanOnce, scanTerm]
          exact parseArray_dumps h (fun v hv => ih (h v hv)) rest
      | obj hnodup hkeys h =>
          simp only [dumps, List.cons_append, List.append_assoc, List.nil_append, scanOnce, scanTerm]
          exact parseObject_dumps hnodup hkeys h (fun e he => ih (h e he)) rest

theorem rawDecode_dumps {value : Value} (h : Encodable limits.depth value) (rest : Text) :
    rawDecode limits (dumps floatRepr value ++ rest) = .ok (value, rest) :=
  scanOnce_dumps limits.depth h rest

end Values

end ChangeQuality.JsonEncoding
