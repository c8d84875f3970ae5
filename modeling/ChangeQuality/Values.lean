/-!
The Python values that the modelled code handles by structure: JSON values, and the string
operations that decide branches.
-/

namespace ChangeQuality.Values

/-- A JSON value; an object is the list of its entries in insertion order. -/
inductive Json where
  | null
  | bool (value : Bool)
  | num (value : Int)
  | str (value : String)
  | arr (items : List Json)
  | obj (entries : List (String × Json))

namespace Json

mutual

/-- Python's `==` on JSON values, with object entries compared in order. -/
def beq : Json → Json → Bool
  | .null, .null => true
  | .bool a, .bool b => a == b
  | .num a, .num b => a == b
  | .str a, .str b => a == b
  | .arr xs, .arr ys => beqItems xs ys
  | .obj xs, .obj ys => beqEntries xs ys
  | _, _ => false

def beqItems : List Json → List Json → Bool
  | [], [] => true
  | x :: xs, y :: ys => x.beq y && beqItems xs ys
  | _, _ => false

def beqEntries : List (String × Json) → List (String × Json) → Bool
  | [], [] => true
  | (k, x) :: xs, (l, y) :: ys => k == l && (x.beq y && beqEntries xs ys)
  | _, _ => false

end

instance : BEq Json := ⟨beq⟩

/-- `value.get(key)`, and `None` where the value is not an object. -/
def get (value : Json) (key : String) : Json :=
  match value with
  | .obj entries => (entries.lookup key).getD .null
  | _ => .null

/-- `value.get(key, default)`. -/
def getD (value : Json) (key : String) (default : Json) : Json :=
  match value with
  | .obj entries => (entries.lookup key).getD default
  | _ => default

/-- `value[key] = item` on the entries of an object. -/
def setEntry (key : String) (item : Json) : List (String × Json) → List (String × Json)
  | [] => [(key, item)]
  | (k, old) :: rest => if k = key then (k, item) :: rest else (k, old) :: setEntry key item rest

def set (value : Json) (key : String) (item : Json) : Json :=
  match value with
  | .obj entries => .obj (setEntry key item entries)
  | _ => value

theorem lookup_setEntry (key : String) (item : Json) (entries : List (String × Json))
    (other : String) : (setEntry key item entries).lookup other =
      if other = key then some item else entries.lookup other := by
  induction entries with
  | nil =>
      by_cases h : other = key
      · simp [setEntry, h]
      · simp [setEntry, List.lookup_cons, h, beq_eq_false_iff_ne.mpr h]
  | cons entry rest ih =>
      obtain ⟨k, old⟩ := entry
      unfold setEntry
      by_cases hk : k = key
      · by_cases h : other = key
        · simp [hk, h]
        · simp [hk, List.lookup_cons, h, beq_eq_false_iff_ne.mpr h]
      · rw [if_neg hk]
        by_cases h : other = k
        · have hne : other ≠ key := fun heq => hk (h.symm.trans heq)
          simp [List.lookup_cons, h, hk]
        · simp [List.lookup_cons, beq_eq_false_iff_ne.mpr h, ih]

/-- `{**value, **other}`. -/
def merge (value other : Json) : Json :=
  match other with
  | .obj entries => entries.foldl (fun acc (key, item) => acc.set key item) value
  | _ => value

/-- The entries of `{**entries, **updates}`. -/
def overlay (entries updates : List (String × Json)) : List (String × Json) :=
  updates.foldl (fun acc (key, item) => setEntry key item acc) entries

theorem merge_obj (entries updates : List (String × Json)) :
    (Json.obj entries).merge (.obj updates) = .obj (overlay entries updates) := by
  unfold merge overlay
  induction updates generalizing entries with
  | nil => rfl
  | cons update rest ih => exact ih (setEntry update.1 update.2 entries)

/-- The last entry of a key wins. -/
theorem lookup_overlay (entries updates : List (String × Json)) (key : String) :
    (overlay entries updates).lookup key =
      (updates.reverse.lookup key).or (entries.lookup key) := by
  unfold overlay
  induction updates generalizing entries with
  | nil => rfl
  | cons update rest ih =>
      obtain ⟨k, item⟩ := update
      rw [List.foldl_cons, ih, lookup_setEntry, List.reverse_cons, List.lookup_append,
        Option.or_assoc]
      congr 1
      by_cases h : key = k
      · simp [h]
      · simp [h, List.lookup_cons, beq_eq_false_iff_ne.mpr h]

theorem get_overlay (entries updates : List (String × Json)) (key : String) :
    (Json.obj (overlay entries updates)).get key =
      (updates.reverse.lookup key).getD ((Json.obj entries).get key) := by
  change ((overlay entries updates).lookup key).getD .null = _
  rw [lookup_overlay]
  cases updates.reverse.lookup key <;> rfl

/-- `bool(value)`. -/
def truthy : Json → Bool
  | .null => false
  | .bool b => b
  | .num n => n != 0
  | .str s => s != ""
  | .arr items => !items.isEmpty
  | .obj entries => !entries.isEmpty

/-- `value or other`. -/
def orElse (value other : Json) : Json :=
  if value.truthy then value else other

/-- `value if isinstance(value, str) else None`. -/
def asStr? : Json → Option String
  | .str s => some s
  | _ => none

/-- `value if isinstance(value, dict) else None`. -/
def asObj? : Json → Option Json
  | .obj entries => some (.obj entries)
  | _ => none

/-- `value if isinstance(value, int) else None`. -/
def asInt? : Json → Option Int
  | .num n => some n
  | _ => none

/-- The text of a value that is known to be a string. -/
def text (value : Json) : String :=
  value.asStr?.getD ""

end Json

/-- The characters that `str.strip` removes. -/
def isSpace (c : Char) : Bool :=
  [0x1c, 0x1d, 0x1e, 0x1f, 0x20, 0x85, 0xa0, 0x1680, 0x2028, 0x2029, 0x202f, 0x205f,
    0x3000].contains c.toNat ||
    (0x09 ≤ c.toNat && c.toNat ≤ 0x0d) || (0x2000 ≤ c.toNat && c.toNat ≤ 0x200a)

/-- `str.strip`. -/
def strip (s : String) : String :=
  String.ofList ((s.toList.dropWhile isSpace).reverse.dropWhile isSpace).reverse

end ChangeQuality.Values
