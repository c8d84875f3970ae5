import Mathlib.Data.List.TakeWhile
import ChangeQuality.Texts

/-!
Python's `json.JSONDecoder().raw_decode`: the scanner, the grammar of what it reads, and that it
only accepts what the grammar describes.
-/

namespace ChangeQuality.JsonDecoding

open ChangeQuality.Texts

/-- A decoded value. A float keeps its literal, a dictionary its keys in insertion order. -/
inductive Value where
  | null
  | bool (value : Bool)
  | int (value : Int)
  | float (literal : Text)
  | str (text : Text)
  | arr (items : List Value)
  | obj (entries : List (Text × Value))

/-- `entries[key] = value`. -/
def setItem (key : Text) (value : Value) : List (Text × Value) → List (Text × Value)
  | [] => [(key, value)]
  | (k, old) :: rest =>
    if k = key then (k, value) :: rest else (k, old) :: setItem key value rest

/-- The dictionary that the members of an object literal build, one after another. -/
def dict (members : List (Text × Value)) : List (Text × Value) :=
  members.foldl (fun entries member => setItem member.1 member.2 entries) []

/-- `entries.get(key)`, `none` for a missing key. -/
def getItem (entries : List (Text × Value)) (key : Text) : Option Value :=
  entries.lookup key

/-- What `raw_decode` raises. No scan is `unfinished`: see `scanOnce_ne_unfinished`. -/
inductive Failure where
  | jsonDecodeError (message : String)
  | valueError (message : String)
  | recursionError
  | unfinished

/-- The interpreter's limits: nested containers, and the digits of an integer literal. -/
structure Limits where
  depth : Nat
  intDigits : Nat

/-- Reads a value off the front of a text. -/
abbrev Scanner (α : Type) := Text → Except Failure (α × Text)

section Scanning

def isWhitespace (c : Nat) : Bool :=
  c == 0x20 || c == 0x09 || c == 0x0a || c == 0x0d

def skipWhitespace (s : Text) : Text :=
  s.dropWhile isWhitespace

def isDigit (c : Nat) : Bool :=
  0x30 ≤ c && c ≤ 0x39

def hexDigit (c : Nat) : Option Nat :=
  if isDigit c then some (c - 0x30)
  else if 0x61 ≤ c && c ≤ 0x66 then some (c - 0x61 + 10)
  else if 0x41 ≤ c && c ≤ 0x46 then some (c - 0x41 + 10)
  else none

/-- The code unit that four hexadecimal digits spell. -/
def hexUnit (a b c d : Nat) : Option Nat := do
  let a ← hexDigit a
  let b ← hexDigit b
  let c ← hexDigit c
  let d ← hexDigit d
  pure (((a * 16 + b) * 16 + c) * 16 + d)

/-- The character that a backslash and one other character stand for. -/
def simpleEscape (c : Nat) : Option Nat :=
  if c = 0x22 ∨ c = 0x5c ∨ c = 0x2f then some c
  else if c = 0x62 then some 0x08
  else if c = 0x66 then some 0x0c
  else if c = 0x6e then some 0x0a
  else if c = 0x72 then some 0x0d
  else if c = 0x74 then some 0x09
  else none

/-- A character of a string literal; only those escaped by `\u` join to surrogate pairs. -/
inductive CodeUnit where
  | plain (c : Nat)
  | escaped (u : Nat)

def isHighSurrogate (u : Nat) : Bool :=
  0xd800 ≤ u && u ≤ 0xdbff

def isLowSurrogate (u : Nat) : Bool :=
  0xdc00 ≤ u && u ≤ 0xdfff

/-- The text of a literal, an escaped surrogate pair being one character of it. -/
def joinSurrogates : List CodeUnit → Text
  | [] => []
  | .plain c :: units => c :: joinSurrogates units
  | .escaped u :: .escaped v :: units =>
    if isHighSurrogate u && isLowSurrogate v then
      (0x10000 + (u - 0xd800) * 0x400 + (v - 0xdc00)) :: joinSurrogates units
    else u :: joinSurrogates (.escaped v :: units)
  | .escaped u :: units => u :: joinSurrogates units

def push (unit : CodeUnit) :
    Except Failure (List CodeUnit × Text) → Except Failure (List CodeUnit × Text)
  | .ok (units, s) => .ok (unit :: units, s)
  | .error e => .error e

/-- The characters of a string literal up to its closing quote. -/
def scanUnits : Scanner (List CodeUnit)
  | [] => .error (.jsonDecodeError "Unterminated string starting at")
  | 0x22 :: s => .ok ([], s)
  | 0x5c :: 0x75 :: a :: b :: c :: d :: next :: s =>
    match hexUnit a b c d with
    | some u => push (.escaped u) (scanUnits (next :: s))
    | none => .error (.jsonDecodeError "Invalid \\uXXXX escape")
  | 0x5c :: [] => .error (.jsonDecodeError "Unterminated string starting at")
  | 0x5c :: c :: s =>
    if c = 0x75 then .error (.jsonDecodeError "Invalid \\uXXXX escape")
    else
      match simpleEscape c with
      | some u => push (.plain u) (scanUnits s)
      | none => .error (.jsonDecodeError "Invalid \\escape")
  | c :: s =>
    if c ≤ 0x1f then .error (.jsonDecodeError "Invalid control character at")
    else push (.plain c) (scanUnits s)

/-- `scanstring`, from behind the opening quote. -/
def scanString (s : Text) : Except Failure (Text × Text) := do
  let (units, s) ← scanUnits s
  pure (joinSurrogates units, s)

/-- The digits before a fraction, behind the sign. -/
def integerPart (s : Text) : Option (Text × Text) :=
  match s with
  | 0x30 :: rest => some ([0x30], rest)
  | c :: rest =>
    if isDigit c then some (c :: rest.takeWhile isDigit, rest.dropWhile isDigit) else none
  | [] => none

def sign (s : Text) : Text × Text :=
  match s with
  | 0x2d :: rest => ([0x2d], rest)
  | _ => ([], s)

def fraction (s : Text) : Text × Text :=
  match s with
  | 0x2e :: d :: rest =>
    if isDigit d then (0x2e :: d :: rest.takeWhile isDigit, rest.dropWhile isDigit) else ([], s)
  | _ => ([], s)

/-- The sign of an exponent. -/
def exponentSign (s : Text) : Text × Text :=
  match s with
  | c :: rest => if c = 0x2b ∨ c = 0x2d then ([c], rest) else ([], s)
  | [] => ([], s)

/-- An exponent without digits is left unread. -/
def exponent (s : Text) : Text × Text :=
  match s with
  | c :: rest =>
    let (signed, digits) := exponentSign rest
    if (c = 0x65 ∨ c = 0x45) ∧ digits.takeWhile isDigit ≠ [] then
      (c :: signed ++ digits.takeWhile isDigit, digits.dropWhile isDigit)
    else ([], s)
  | [] => ([], s)

/-- The number that decimal digits spell. -/
def digitsValue (digits : Text) : Nat :=
  digits.foldl (fun n c => 10 * n + (c - 0x30)) 0

/-- `int(literal)`. -/
def parseInt (limits : Limits) (minus digits : Text) : Except Failure Value :=
  if limits.intDigits < digits.length then
    .error (.valueError ("Exceeds the limit (" ++ toString limits.intDigits ++
      " digits) for integer string conversion: value has " ++ toString digits.length ++
      " digits; use sys.set_int_max_str_digits() to increase the limit"))
  else
    .ok (.int (if minus = [] then digitsValue digits else -digitsValue digits))

/-- `_match_number`. -/
def matchNumber (limits : Limits) (s : Text) : Except Failure (Value × Text) :=
  match integerPart (sign s).2 with
  | none => .error (.jsonDecodeError "Expecting value")
  | some (digits, s₁) =>
    let s₂ := (fraction s₁).2
    let literal := (sign s).1 ++ digits ++ (fraction s₁).1 ++ (exponent s₂).1
    if (fraction s₁).1 = [] ∧ (exponent s₂).1 = [] then do
      let value ← parseInt limits (sign s).1 digits
      pure (value, s₁)
    else
      .ok (.float literal, (exponent s₂).2)

/-- The words that stand for a value. -/
def constants : List (Text × Value) :=
  [(ofString "null", .null), (ofString "true", .bool true), (ofString "false", .bool false),
    (ofString "NaN", .float (ofString "NaN")), (ofString "Infinity", .float (ofString "Infinity")),
    (ofString "-Infinity", .float (ofString "-Infinity"))]

/-- The first of `words` that the text starts with, and the text behind it. -/
def matchConstant (words : List (Text × Value)) (s : Text) : Option (Value × Text) :=
  match words with
  | [] => none
  | (word, value) :: words =>
    if word.isPrefixOf s then some (value, s.drop word.length) else matchConstant words s

/-- The items of an array, behind the white space that precedes the first one. -/
def scanItems (scan : Scanner Value) : Nat → Scanner (List Value)
  | 0, _ => .error .unfinished
  | fuel + 1, s => do
    let (value, s) ← scan s
    match skipWhitespace s with
    | 0x5d :: s => pure ([value], s)
    | 0x2c :: s => do
      let (values, s) ← scanItems scan fuel (skipWhitespace s)
      pure (value :: values, s)
    | _ => throw (.jsonDecodeError "Expecting ',' delimiter")

/-- The members of an object, behind the white space that precedes the first one. -/
def scanMembers (scan : Scanner Value) : Nat → Scanner (List (Text × Value))
  | 0, _ => .error .unfinished
  | fuel + 1, s =>
    match s with
    | 0x22 :: s => do
      let (key, s) ← scanString s
      match skipWhitespace s with
      | 0x3a :: s => do
        let (value, s) ← scan (skipWhitespace s)
        match skipWhitespace s with
        | 0x7d :: s => pure ([(key, value)], s)
        | 0x2c :: s => do
          let (members, s) ← scanMembers scan fuel (skipWhitespace s)
          pure ((key, value) :: members, s)
        | _ => throw (.jsonDecodeError "Expecting ',' delimiter")
      | _ => throw (.jsonDecodeError "Expecting ':' delimiter")
    | _ => throw (.jsonDecodeError "Expecting property name enclosed in double quotes")

/-- `_parse_array`, from behind the bracket. -/
def parseArray (scan : Scanner Value) (s : Text) : Except Failure (Value × Text) :=
  match skipWhitespace s with
  | 0x5d :: s => .ok (.arr [], s)
  | s => do
    let (items, s) ← scanItems scan (s.length + 1) s
    pure (.arr items, s)

/-- `_parse_object`, from behind the brace. -/
def parseObject (scan : Scanner Value) (s : Text) : Except Failure (Value × Text) :=
  match skipWhitespace s with
  | 0x7d :: s => .ok (.obj [], s)
  | s => do
    let (members, s) ← scanMembers scan (s.length + 1) s
    pure (.obj (dict members), s)

/-- One call of `scan_once`; `inner` is the call for nested values, if the limit admits any. -/
def scanTerm (limits : Limits) (inner : Option (Scanner Value)) (s : Text) :
    Except Failure (Value × Text) :=
  match s with
  | [] => .error (.jsonDecodeError "Expecting value")
  | 0x22 :: s => do
    let (text, s) ← scanString s
    pure (.str text, s)
  | 0x7b :: s =>
    match inner with
    | some scan => parseObject scan s
    | none => .error .recursionError
  | 0x5b :: s =>
    match inner with
    | some scan => parseArray scan s
    | none => .error .recursionError
  | s =>
    match matchConstant constants s with
    | some (value, s) => .ok (value, s)
    | none => matchNumber limits s

/-- `scan_once` with `depth` containers left to enter. -/
def scanOnce (limits : Limits) : Nat → Scanner Value
  | 0 => scanTerm limits none
  | depth + 1 => scanTerm limits (some (scanOnce limits depth))

/-- `raw_decode`: the value and the text behind it. -/
def rawDecode (limits : Limits) (s : Text) : Except Failure (Value × Text) :=
  scanOnce limits limits.depth s

end Scanning

section Grammar

/-- The body of a string literal, and the characters it stands for. -/
inductive Units : Text → List CodeUnit → Prop where
  | nil : Units [] []
  | plain {c : Nat} {s : Text} {units : List CodeUnit} (hquote : c ≠ 0x22) (hslash : c ≠ 0x5c)
      (hcontrol : 0x1f < c) (h : Units s units) : Units (c :: s) (.plain c :: units)
  | simple {c u : Nat} {s : Text} {units : List CodeUnit} (hc : simpleEscape c = some u)
      (h : Units s units) : Units (0x5c :: c :: s) (.plain u :: units)
  | escaped {a b c d u : Nat} {s : Text} {units : List CodeUnit} (hu : hexUnit a b c d = some u)
      (h : Units s units) : Units (0x5c :: 0x75 :: a :: b :: c :: d :: s) (.escaped u :: units)

/-- A string literal and its text. -/
inductive Quoted : Text → Text → Prop where
  | mk {s : Text} {units : List CodeUnit} (h : Units s units) :
      Quoted (0x22 :: s ++ [0x22]) (joinSurrogates units)

def Minus (s : Text) : Prop := s = [] ∨ s = [0x2d]

def Digits (s : Text) : Prop := s ≠ [] ∧ ∀ c ∈ s, isDigit c

/-- No integer part but `0` starts with the digit zero. -/
def IntegerPart (s : Text) : Prop := Digits s ∧ (s.head? = some 0x30 → s = [0x30])

def Fraction (s : Text) : Prop := s = [] ∨ ∃ digits, Digits digits ∧ s = 0x2e :: digits

def Exponent (s : Text) : Prop :=
  s = [] ∨ ∃ e signed digits, (e = 0x65 ∨ e = 0x45) ∧
    (signed = [] ∨ signed = [0x2b] ∨ signed = [0x2d]) ∧ Digits digits ∧
    s = e :: signed ++ digits

/-- A number literal and its value. -/
inductive Number : Text → Value → Prop where
  | int {minus digits : Text} (hm : Minus minus) (hd : IntegerPart digits) :
      Number (minus ++ digits)
        (.int (if minus = [] then digitsValue digits else -digitsValue digits))
  | float {minus digits decimals power : Text} (hm : Minus minus) (hd : IntegerPart digits)
      (hf : Fraction decimals) (he : Exponent power) (h : ¬(decimals = [] ∧ power = [])) :
      Number (minus ++ digits ++ decimals ++ power)
        (.float (minus ++ digits ++ decimals ++ power))

def Blank (s : Text) : Prop := ∀ c ∈ s, isWhitespace c

mutual

/-- A literal, without white space around it, and the value it stands for. -/
inductive Denotes : Text → Value → Prop where
  | constant {word : Text} {value : Value} (h : (word, value) ∈ constants) : Denotes word value
  | number {s : Text} {value : Value} (h : Number s value) : Denotes s value
  | str {s text : Text} (h : Quoted s text) : Denotes s (.str text)
  | emptyArr {w : Text} (h : Blank w) : Denotes (0x5b :: w ++ [0x5d]) (.arr [])
  | arr {s : Text} {items : List Value} (h : Items s items) :
      Denotes (0x5b :: s ++ [0x5d]) (.arr items)
  | emptyObj {w : Text} (h : Blank w) : Denotes (0x7b :: w ++ [0x7d]) (.obj [])
  | obj {s : Text} {members : List (Text × Value)} (h : Members s members) :
      Denotes (0x7b :: s ++ [0x7d]) (.obj (dict members))

/-- The items between the brackets of an array. -/
inductive Items : Text → List Value → Prop where
  | last {w s w' : Text} {value : Value} (hw : Blank w) (h : Denotes s value) (hw' : Blank w') :
      Items (w ++ s ++ w') [value]
  | more {w s w' t : Text} {value : Value} {values : List Value} (hw : Blank w)
      (h : Denotes s value) (hw' : Blank w') (ht : Items t values) :
      Items (w ++ s ++ w' ++ 0x2c :: t) (value :: values)

/-- The members between the braces of an object. -/
inductive Members : Text → List (Text × Value) → Prop where
  | last {w k w₁ w₂ s w' key : Text} {value : Value} (hw : Blank w) (hk : Quoted k key)
      (hw₁ : Blank w₁) (hw₂ : Blank w₂) (h : Denotes s value) (hw' : Blank w') :
      Members (w ++ k ++ w₁ ++ 0x3a :: w₂ ++ s ++ w') [(key, value)]
  | more {w k w₁ w₂ s w' t key : Text} {value : Value} {members : List (Text × Value)}
      (hw : Blank w) (hk : Quoted k key) (hw₁ : Blank w₁) (hw₂ : Blank w₂)
      (h : Denotes s value) (hw' : Blank w') (ht : Members t members) :
      Members (w ++ k ++ w₁ ++ 0x3a :: w₂ ++ s ++ w' ++ 0x2c :: t) ((key, value) :: members)

end

end Grammar

section Soundness

variable {limits : Limits}

/-- What the scanner takes off a text is a lexeme that `P` relates to its answer. -/
def Reads {α : Type} (scan : Scanner α) (P : Text → α → Prop) : Prop :=
  ∀ s value rest, scan s = .ok (value, rest) → ∃ lexeme, s = lexeme ++ rest ∧ P lexeme value

theorem bind_ok {ε α β : Type} {x : Except ε α} {f : α → Except ε β} {b : β}
    (h : (x >>= f) = .ok b) : ∃ a, x = .ok a ∧ f a = .ok b := by
  cases x with
  | error e => cases h
  | ok a => exact ⟨a, rfl, h⟩

theorem push_ok {unit : CodeUnit} {x : Except Failure (List CodeUnit × Text)}
    {units : List CodeUnit} {rest : Text} (h : push unit x = .ok (units, rest)) :
    ∃ tail, units = unit :: tail ∧ x = .ok (tail, rest) := by
  cases x with
  | error e => cases h
  | ok answer =>
      obtain ⟨tail, s⟩ := answer
      simp only [push, Except.ok.injEq, Prod.mk.injEq] at h
      exact ⟨tail, h.1.symm, by rw [h.2]⟩

theorem blank_takeWhile (s : Text) : Blank (s.takeWhile isWhitespace) :=
  fun _ hc => List.mem_takeWhile_imp hc

theorem skipWhitespace_eq (s : Text) :
    s = s.takeWhile isWhitespace ++ skipWhitespace s :=
  (List.takeWhile_append_dropWhile).symm

theorem scanUnits_plain {c : Nat} {s : Text} (hquote : c ≠ 0x22) (hslash : c ≠ 0x5c)
    (hcontrol : 0x1f < c) : scanUnits (c :: s) = push (.plain c) (scanUnits s) := by
  rw [scanUnits.eq_6 c s hquote (fun _ _ _ _ _ _ h _ => hslash h) (fun h _ => hslash h)
    (fun _ _ h _ => hslash h), if_neg (by omega)]

theorem scanUnits_simple {c u : Nat} {s : Text} (hc : c ≠ 0x75) (hu : simpleEscape c = some u) :
    scanUnits (0x5c :: c :: s) = push (.plain u) (scanUnits s) := by
  rw [scanUnits.eq_5 c s (fun _ _ _ _ _ _ h _ => hc h), if_neg hc, hu]

theorem scanUnits_reads (s : Text) (units : List CodeUnit) (rest : Text)
    (h : scanUnits s = .ok (units, rest)) :
    ∃ body, s = body ++ 0x22 :: rest ∧ Units body units := by
  fun_induction scanUnits s generalizing units with
  | case1 => cases h
  | case2 s =>
      cases h
      exact ⟨[], rfl, .nil⟩
  | case3 a b c d next s u hu ih =>
      obtain ⟨tail, rfl, hscan⟩ := push_ok h
      obtain ⟨body, hbody, hunits⟩ := ih tail hscan
      exact ⟨0x5c :: 0x75 :: a :: b :: c :: d :: body, by simp [hbody], .escaped hu hunits⟩
  | case4 => cases h
  | case5 => cases h
  | case6 => cases h
  | case7 c s _ hc u hu ih =>
      obtain ⟨tail, rfl, hscan⟩ := push_ok h
      obtain ⟨body, rfl, hunits⟩ := ih tail hscan
      exact ⟨0x5c :: c :: body, rfl, .simple hu hunits⟩
  | case8 => cases h
  | case9 => cases h
  | case10 c s hquote _ hnil hcons hcontrol ih =>
      obtain ⟨tail, rfl, hscan⟩ := push_ok h
      obtain ⟨body, rfl, hunits⟩ := ih tail hscan
      have hslash : c ≠ 0x5c := fun hc => by
        cases hs : body ++ 0x22 :: rest with
        | nil => exact hnil hc hs
        | cons d t => exact hcons d t hc hs
      exact ⟨c :: body, rfl, .plain hquote hslash (by omega) hunits⟩

/-- The scanner of string literals, the opening quote of which the caller has read. -/
theorem scanString_reads {s text rest : Text} (h : scanString s = .ok (text, rest)) :
    ∃ lexeme, 0x22 :: s = lexeme ++ rest ∧ Quoted lexeme text := by
  obtain ⟨⟨units, s'⟩, hscan, hpure⟩ := bind_ok h
  cases hpure
  obtain ⟨body, rfl, hunits⟩ := scanUnits_reads s units rest hscan
  exact ⟨0x22 :: body ++ [0x22], by simp, .mk hunits⟩

theorem digits_takeWhile {s : Text} (h : s.takeWhile isDigit ≠ []) :
    Digits (s.takeWhile isDigit) :=
  ⟨h, fun _ hc => List.mem_takeWhile_imp hc⟩

theorem digits_cons {c : Nat} (s : Text) (h : isDigit c = true) :
    Digits (c :: s.takeWhile isDigit) := by
  refine ⟨by simp, fun d hd => ?_⟩
  rcases List.mem_cons.mp hd with rfl | hd
  · exact h
  · exact List.mem_takeWhile_imp hd

theorem sign_reads (s : Text) : s = (sign s).1 ++ (sign s).2 ∧ Minus (sign s).1 := by
  unfold sign
  split
  · exact ⟨rfl, .inr rfl⟩
  · exact ⟨rfl, .inl rfl⟩

theorem integerPart_reads {s digits rest : Text} (h : integerPart s = some (digits, rest)) :
    s = digits ++ rest ∧ IntegerPart digits := by
  unfold integerPart at h
  split at h
  · obtain ⟨rfl, rfl⟩ := Prod.mk.inj (Option.some.inj h)
    exact ⟨rfl, ⟨by simp, by simp [isDigit]⟩, fun _ => rfl⟩
  next c rest' hzero =>
    split at h
    · next hc =>
        obtain ⟨rfl, rfl⟩ := Prod.mk.inj (Option.some.inj h)
        refine ⟨by simp, digits_cons rest' hc, fun hhead => ?_⟩
        exact (hzero (by simpa using hhead)).elim
    · cases h
  · cases h

theorem fraction_reads (s : Text) :
    s = (fraction s).1 ++ (fraction s).2 ∧ Fraction (fraction s).1 := by
  unfold fraction
  split
  next d rest =>
    split
    · next hd => exact ⟨by simp, .inr ⟨_, digits_cons rest hd, rfl⟩⟩
    · exact ⟨rfl, .inl rfl⟩
  · exact ⟨rfl, .inl rfl⟩

theorem exponentSign_reads (s : Text) :
    s = (exponentSign s).1 ++ (exponentSign s).2 ∧
      ((exponentSign s).1 = [] ∨ (exponentSign s).1 = [0x2b] ∨ (exponentSign s).1 = [0x2d]) := by
  unfold exponentSign
  split
  next c rest =>
    split
    · next hc =>
        rcases hc with rfl | rfl
        · exact ⟨rfl, .inr (.inl rfl)⟩
        · exact ⟨rfl, .inr (.inr rfl)⟩
    · exact ⟨rfl, .inl rfl⟩
  · exact ⟨rfl, .inl rfl⟩

theorem exponent_reads (s : Text) :
    s = (exponent s).1 ++ (exponent s).2 ∧ Exponent (exponent s).1 := by
  unfold exponent
  split
  next c rest =>
    obtain ⟨hrest, hsigned⟩ := exponentSign_reads rest
    dsimp only
    split
    · next hc =>
        refine ⟨?_, .inr ⟨c, _, _, hc.1, hsigned, digits_takeWhile hc.2, rfl⟩⟩
        rw [List.cons_append, List.cons_append, List.append_assoc,
          List.takeWhile_append_dropWhile, ← hrest]
    · exact ⟨rfl, .inl rfl⟩
  · exact ⟨rfl, .inl rfl⟩

theorem matchNumber_reads : Reads (matchNumber limits) Number := by
  intro s value rest h
  unfold matchNumber at h
  split at h
  · cases h
  next digits s₁ hdigits =>
    obtain ⟨hsign, hminus⟩ := sign_reads s
    obtain ⟨hs, hint⟩ := integerPart_reads hdigits
    obtain ⟨hs₁, hfraction⟩ := fraction_reads s₁
    obtain ⟨hs₂, hexponent⟩ := exponent_reads (fraction s₁).2
    dsimp only at h
    split at h
    · obtain ⟨number, hparse, hpure⟩ := bind_ok h
      cases hpure
      unfold parseInt at hparse
      split at hparse
      · cases hparse
      · cases hparse
        exact ⟨(sign s).1 ++ digits, by rw [List.append_assoc, ← hs, ← hsign],
          .int hminus hint⟩
    · next hsome =>
        cases h
        refine ⟨_, ?_, .float hminus hint hfraction hexponent hsome⟩
        calc s = (sign s).1 ++ (digits ++ ((fraction s₁).1 ++
              ((exponent (fraction s₁).2).1 ++ (exponent (fraction s₁).2).2))) := by
              rw [← hs₂, ← hs₁, ← hs, ← hsign]
          _ = _ := by simp only [List.append_assoc]

theorem null_eq : ofString "null" = [0x6e, 0x75, 0x6c, 0x6c] := by decide

theorem true_eq : ofString "true" = [0x74, 0x72, 0x75, 0x65] := by decide

theorem false_eq : ofString "false" = [0x66, 0x61, 0x6c, 0x73, 0x65] := by decide

theorem nan_eq : ofString "NaN" = [0x4e, 0x61, 0x4e] := by decide

theorem infinity_eq :
    ofString "Infinity" = [0x49, 0x6e, 0x66, 0x69, 0x6e, 0x69, 0x74, 0x79] := by
  decide

theorem minusInfinity_eq :
    ofString "-Infinity" = [0x2d, 0x49, 0x6e, 0x66, 0x69, 0x6e, 0x69, 0x74, 0x79] := by
  decide

theorem matchConstant_reads {words : List (Text × Value)} {s rest : Text} {value : Value}
    (h : matchConstant words s = some (value, rest)) :
    ∃ word, s = word ++ rest ∧ (word, value) ∈ words := by
  induction words with
  | nil => cases h
  | cons entry words ih =>
      obtain ⟨word, v⟩ := entry
      simp only [matchConstant] at h
      split at h
      next hstarts =>
        cases h
        obtain ⟨t, rfl⟩ := List.isPrefixOf_iff_prefix.mp hstarts
        exact ⟨word, by simp, by simp⟩
      · obtain ⟨word', hs, hmem⟩ := ih h
        exact ⟨word', hs, List.mem_cons_of_mem _ hmem⟩

section Nested

variable {scan : Scanner Value} (hscan : Reads scan Denotes)

include hscan

theorem scanItems_reads (fuel : Nat) (s : Text) (values : List Value) (rest : Text)
    (h : scanItems scan fuel s = .ok (values, rest)) {w : Text} (hw : Blank w) :
    ∃ body, w ++ s = body ++ 0x5d :: rest ∧ Items body values := by
  induction fuel generalizing s values w with
  | zero => cases h
  | succ fuel ih =>
      unfold scanItems at h
      obtain ⟨⟨value, s₁⟩, hvalue, hnext⟩ := bind_ok h
      obtain ⟨lexeme, rfl, hlexeme⟩ := hscan _ _ _ hvalue
      clear h
      dsimp only at hnext
      have hblank := blank_takeWhile s₁
      have hs₁ := skipWhitespace_eq s₁
      split at hnext
      next s₂ hs₂ =>
        cases hnext
        refine ⟨w ++ lexeme ++ s₁.takeWhile isWhitespace, ?_, .last hw hlexeme hblank⟩
        rw [hs₂] at hs₁
        rw [List.append_assoc, List.append_assoc, ← hs₁]
      next s₂ hs₂ =>
        obtain ⟨⟨tail, s₃⟩, htail, hpure⟩ := bind_ok hnext
        cases hpure
        obtain ⟨body, hbody, hitems⟩ := ih _ _ htail (blank_takeWhile s₂)
        rw [← skipWhitespace_eq] at hbody
        refine ⟨_, ?_, .more hw hlexeme hblank hitems⟩
        rw [hs₂] at hs₁
        rw [List.append_assoc, List.cons_append, ← hbody, List.append_assoc, List.append_assoc,
          ← hs₁]
      · cases hnext

theorem parseArray_reads {s rest : Text} {value : Value}
    (h : parseArray scan s = .ok (value, rest)) :
    ∃ lexeme, 0x5b :: s = lexeme ++ rest ∧ Denotes lexeme value := by
  have hblank := blank_takeWhile s
  have hs := skipWhitespace_eq s
  unfold parseArray at h
  split at h
  next s₁ hs₁ =>
    cases h
    exact ⟨0x5b :: s.takeWhile isWhitespace ++ [0x5d], by rw [hs₁] at hs; simp [← hs],
      .emptyArr hblank⟩
  · obtain ⟨⟨items, s₁⟩, hitems, hpure⟩ := bind_ok h
    cases hpure
    obtain ⟨body, hbody, hdenotes⟩ := scanItems_reads hscan _ _ _ _ hitems hblank
    rw [← hs] at hbody
    exact ⟨0x5b :: body ++ [0x5d], by simp [hbody], .arr hdenotes⟩

theorem scanMembers_reads (fuel : Nat) (s : Text) (members : List (Text × Value)) (rest : Text)
    (h : scanMembers scan fuel s = .ok (members, rest)) {w : Text} (hw : Blank w) :
    ∃ body, w ++ s = body ++ 0x7d :: rest ∧ Members body members := by
  induction fuel generalizing s members w with
  | zero => cases h
  | succ fuel ih =>
      unfold scanMembers at h
      split at h
      next s₀ =>
        obtain ⟨⟨key, s₁⟩, hkey, h⟩ := bind_ok h
        obtain ⟨quoted, hquoted, hk⟩ := scanString_reads hkey
        have hs₁ := skipWhitespace_eq s₁
        dsimp only at h
        split at h
        next s₂ hs₂ =>
          obtain ⟨⟨value, s₃⟩, hvalue, h⟩ := bind_ok h
          obtain ⟨lexeme, hlexeme, hdenotes⟩ := hscan _ _ _ hvalue
          have hs₃ := skipWhitespace_eq s₃
          have hfront : w ++ 0x22 :: s₀ = w ++ quoted ++ s₁.takeWhile isWhitespace ++
              0x3a :: s₂.takeWhile isWhitespace ++ lexeme ++ s₃ := by
            rw [hquoted]
            rw [hs₂] at hs₁
            have hs₂' := skipWhitespace_eq s₂
            rw [hlexeme] at hs₂'
            calc w ++ (quoted ++ s₁)
                = w ++ (quoted ++ (s₁.takeWhile isWhitespace ++
                    0x3a :: (s₂.takeWhile isWhitespace ++ (lexeme ++ s₃)))) := by
                  rw [← hs₂', ← hs₁]
              _ = _ := by simp only [List.append_assoc, List.cons_append]
          dsimp only at h
          split at h
          next s₄ hs₄ =>
            cases h
            refine ⟨_, ?_, .last hw hk (blank_takeWhile s₁) (blank_takeWhile s₂) hdenotes
              (blank_takeWhile s₃)⟩
            rw [hfront]
            rw [hs₄] at hs₃
            rw [List.append_assoc _ _ (0x7d :: rest), ← hs₃]
          next s₄ hs₄ =>
            obtain ⟨⟨tail, s₅⟩, htail, hpure⟩ := bind_ok h
            cases hpure
            obtain ⟨body, hbody, hmembers⟩ := ih _ _ htail (blank_takeWhile s₄)
            rw [← skipWhitespace_eq] at hbody
            refine ⟨_, ?_, .more hw hk (blank_takeWhile s₁) (blank_takeWhile s₂) hdenotes
              (blank_takeWhile s₃) hmembers⟩
            rw [hfront]
            rw [hs₄] at hs₃
            rw [List.append_assoc _ (0x2c :: body), List.cons_append, ← hbody,
              List.append_assoc _ _ (0x2c :: s₄), ← hs₃]
          · cases h
        · cases h
      · cases h

theorem parseObject_reads {s rest : Text} {value : Value}
    (h : parseObject scan s = .ok (value, rest)) :
    ∃ lexeme, 0x7b :: s = lexeme ++ rest ∧ Denotes lexeme value := by
  have hblank := blank_takeWhile s
  have hs := skipWhitespace_eq s
  unfold parseObject at h
  split at h
  next s₁ hs₁ =>
    cases h
    exact ⟨0x7b :: s.takeWhile isWhitespace ++ [0x7d], by rw [hs₁] at hs; simp [← hs],
      .emptyObj hblank⟩
  · obtain ⟨⟨members, s₁⟩, hmembers, hpure⟩ := bind_ok h
    cases hpure
    obtain ⟨body, hbody, hdenotes⟩ := scanMembers_reads hscan _ _ _ _ hmembers hblank
    rw [← hs] at hbody
    exact ⟨0x7b :: body ++ [0x7d], by simp [hbody], .obj hdenotes⟩

end Nested

theorem scanTerm_reads {inner : Option (Scanner Value)}
    (hinner : ∀ scan ∈ inner, Reads scan Denotes) : Reads (scanTerm limits inner) Denotes := by
  intro s value rest h
  unfold scanTerm at h
  split at h
  · cases h
  next s' =>
    obtain ⟨⟨text, s₁⟩, htext, hpure⟩ := bind_ok h
    cases hpure
    obtain ⟨lexeme, hs, hquoted⟩ := scanString_reads htext
    exact ⟨lexeme, hs, .str hquoted⟩
  next s' =>
    split at h
    next scan => exact parseObject_reads (hinner scan rfl) h
    · cases h
  next s' =>
    split at h
    next scan => exact parseArray_reads (hinner scan rfl) h
    · cases h
  next s' _ _ _ _ =>
    split at h
    next hconstant =>
      cases h
      obtain ⟨word, hs, hmem⟩ := matchConstant_reads hconstant
      exact ⟨word, hs, .constant hmem⟩
    · obtain ⟨lexeme, hs, hnumber⟩ := matchNumber_reads _ _ _ h
      exact ⟨lexeme, hs, .number hnumber⟩

theorem scanOnce_reads (depth : Nat) : Reads (scanOnce limits depth) Denotes := by
  induction depth with
  | zero => exact scanTerm_reads (by simp)
  | succ depth ih => exact scanTerm_reads fun scan h => by cases h; exact ih

/-- The decoder accepts only what the grammar describes. -/
theorem rawDecode_reads : Reads (rawDecode limits) Denotes :=
  scanOnce_reads limits.depth

end Soundness

section Termination

variable {limits : Limits}

theorem Denotes.length_pos {s : Text} {value : Value} (h : Denotes s value) : 0 < s.length := by
  cases h with
  | constant hword =>
      simp only [constants, List.mem_cons, Prod.mk.injEq, List.not_mem_nil, or_false] at hword
      rcases hword with h | h | h | h | h | h <;> rw [h.1] <;> decide
  | number h =>
      cases h with
      | int _ hd =>
          have hpos := List.length_pos_iff.mpr hd.1.1
          simp only [List.length_append]
          omega
      | float _ hd =>
          have hpos := List.length_pos_iff.mpr hd.1.1
          simp only [List.length_append]
          omega
  | str h =>
      cases h
      simp
  | emptyArr | arr | emptyObj | obj => simp

def Finishes {α : Type} (scan : Scanner α) : Prop :=
  ∀ s, scan s ≠ .error .unfinished

theorem bind_error {ε α β : Type} {x : Except ε α} {f : α → Except ε β} {e : ε}
    (h : (x >>= f) = .error e) : x = .error e ∨ ∃ a, x = .ok a ∧ f a = .error e := by
  cases x with
  | error e' =>
      cases h
      exact .inl rfl
  | ok a => exact .inr ⟨a, rfl, h⟩

theorem push_finishes {unit : CodeUnit} {x : Except Failure (List CodeUnit × Text)}
    (h : x ≠ .error .unfinished) : push unit x ≠ .error .unfinished := by
  cases x with
  | error e => exact h
  | ok answer => nofun

theorem scanUnits_finishes : Finishes scanUnits := by
  intro s
  fun_induction scanUnits s with
  | case3 _ _ _ _ _ _ _ _ ih => exact push_finishes ih
  | case7 _ _ _ _ _ _ ih => exact push_finishes ih
  | case10 _ _ _ _ _ _ _ ih => exact push_finishes ih
  | case1 | case2 | case4 | case5 | case6 | case8 | case9 => nofun

theorem scanString_finishes : Finishes scanString := by
  intro s h
  rcases bind_error h with h | ⟨_, _, h⟩
  · exact scanUnits_finishes s h
  · cases h

theorem matchNumber_finishes : Finishes (matchNumber limits) := by
  intro s h
  unfold matchNumber at h
  split at h
  · cases h
  · dsimp only at h
    split at h
    · rcases bind_error h with h | ⟨_, _, h⟩
      · unfold parseInt at h
        split at h <;> cases h
      · cases h
    · cases h

theorem skipWhitespace_length (s : Text) : (skipWhitespace s).length ≤ s.length :=
  (List.dropWhile_suffix isWhitespace).length_le

section Nested

variable {scan : Scanner Value} (hfinishes : Finishes scan)
  (hscan : Reads scan Denotes)

include hfinishes hscan

theorem scanItems_finishes (fuel : Nat) (s : Text) (hfuel : s.length < fuel) :
    scanItems scan fuel s ≠ .error .unfinished := by
  induction fuel generalizing s with
  | zero => omega
  | succ fuel ih =>
      intro h
      unfold scanItems at h
      rcases bind_error h with h | ⟨⟨value, s₁⟩, hvalue, hnext⟩
      · exact hfinishes s h
      · obtain ⟨lexeme, rfl, hlexeme⟩ := hscan _ _ _ hvalue
        have hpos := hlexeme.length_pos
        have hskip := skipWhitespace_length s₁
        rw [List.length_append] at hfuel
        dsimp only at hnext
        split at hnext
        · cases hnext
        next s₂ hs₂ =>
          rw [hs₂, List.length_cons] at hskip
          have hskip₂ := skipWhitespace_length s₂
          rcases bind_error hnext with h | ⟨_, _, h⟩
          · exact ih _ (by omega) h
          · cases h
        · cases hnext

theorem scanMembers_finishes (fuel : Nat) (s : Text) (hfuel : s.length < fuel) :
    scanMembers scan fuel s ≠ .error .unfinished := by
  induction fuel generalizing s with
  | zero => omega
  | succ fuel ih =>
      intro h
      unfold scanMembers at h
      split at h
      next s₀ =>
        rcases bind_error h with h | ⟨⟨key, s₁⟩, hkey, h⟩
        · exact scanString_finishes _ h
        · obtain ⟨quoted, hquoted, _⟩ := scanString_reads hkey
          have hlength := congrArg List.length hquoted
          have hskip₁ := skipWhitespace_length s₁
          rw [List.length_append, List.length_cons] at hlength
          rw [List.length_cons] at hfuel
          dsimp only at h
          split at h
          next s₂ hs₂ =>
            rw [hs₂, List.length_cons] at hskip₁
            rcases bind_error h with h | ⟨⟨value, s₃⟩, hvalue, h⟩
            · exact hfinishes _ h
            · obtain ⟨lexeme, hlexeme, _⟩ := hscan _ _ _ hvalue
              have hlength₂ := congrArg List.length hlexeme
              have hskip₂ := skipWhitespace_length s₂
              have hskip₃ := skipWhitespace_length s₃
              rw [List.length_append] at hlength₂
              dsimp only at h
              split at h
              · cases h
              next s₄ hs₄ =>
                rw [hs₄, List.length_cons] at hskip₃
                have hskip₄ := skipWhitespace_length s₄
                rcases bind_error h with h | ⟨_, _, h⟩
                · exact ih _ (by omega) h
                · cases h
              · cases h
          · cases h
      · cases h

theorem parseArray_finishes (s : Text) : parseArray scan s ≠ .error .unfinished := by
  intro h
  unfold parseArray at h
  split at h
  · cases h
  · rcases bind_error h with h | ⟨_, _, h⟩
    · exact scanItems_finishes hfinishes hscan _ _ (Nat.lt_succ_self _) h
    · cases h

theorem parseObject_finishes (s : Text) : parseObject scan s ≠ .error .unfinished := by
  intro h
  unfold parseObject at h
  split at h
  · cases h
  · rcases bind_error h with h | ⟨_, _, h⟩
    · exact scanMembers_finishes hfinishes hscan _ _ (Nat.lt_succ_self _) h
    · cases h

end Nested

theorem scanTerm_finishes {inner : Option (Scanner Value)}
    (hfinishes : ∀ scan ∈ inner, Finishes scan) (hinner : ∀ scan ∈ inner, Reads scan Denotes) :
    Finishes (scanTerm limits inner) := by
  intro s h
  unfold scanTerm at h
  split at h
  · cases h
  · rcases bind_error h with h | ⟨_, _, h⟩
    · exact scanString_finishes _ h
    · cases h
  · split at h
    next scan => exact parseObject_finishes (hfinishes scan rfl) (hinner scan rfl) _ h
    · cases h
  · split at h
    next scan => exact parseArray_finishes (hfinishes scan rfl) (hinner scan rfl) _ h
    · cases h
  · split at h
    · cases h
    · exact matchNumber_finishes _ h

/-- The loops over items and members are never cut short. -/
theorem scanOnce_ne_unfinished (depth : Nat) : Finishes (scanOnce limits depth) := by
  induction depth with
  | zero => exact scanTerm_finishes (by simp) (by simp)
  | succ depth ih =>
      refine scanTerm_finishes (fun scan h => ?_) (fun scan h => ?_)
      · cases h
        exact ih
      · cases h
        exact scanOnce_reads depth

end Termination

end ChangeQuality.JsonDecoding
