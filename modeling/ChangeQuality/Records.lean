import Mathlib.Data.List.Nodup
import Mathlib.Data.List.Induction

/-!
Records as lists of entries in insertion order, and the distinct values of a list in the order in
which they come first.
-/

namespace ChangeQuality.Records

variable {κ μ α : Type} [BEq κ] [LawfulBEq κ] [BEq μ] [LawfulBEq μ]

/-- An assignment leaves a key where it is, and a new key comes last. -/
def put (key : κ) (value : α) : List (κ × α) → List (κ × α)
  | [] => [(key, value)]
  | (k, old) :: rest => if k == key then (k, value) :: rest else (k, old) :: put key value rest

/-- An object with one key dropped. -/
def without (key : κ) (entries : List (κ × α)) : List (κ × α) :=
  entries.filter fun entry => entry.1 != key

def keys (entries : List (κ × α)) : List κ :=
  entries.map Prod.fst

/-- One more value, unless it is there. -/
def note (seen : List κ) (value : κ) : List κ :=
  if value ∈ seen then seen else seen ++ [value]

/-- The distinct values, in the order in which they come first. -/
def firsts (values : List κ) : List κ :=
  values.foldl note []

section Entries

variable {key k : κ} {value : α} {entries : List (κ × α)}

omit [LawfulBEq κ] in
theorem lookup_cons_eq (entry : κ × α) :
    (entry :: entries).lookup k = if k == entry.1 then some entry.2 else entries.lookup k := by
  rw [List.lookup_cons]
  cases k == entry.1 <;> rfl

theorem lookup_put :
    (put key value entries).lookup k = if k == key then some value else entries.lookup k := by
  induction entries with
  | nil => rw [put, lookup_cons_eq]
  | cons entry rest ih =>
      obtain ⟨k', old⟩ := entry
      rw [put]
      split
      · rename_i hsame
        obtain rfl := eq_of_beq hsame
        rw [lookup_cons_eq, lookup_cons_eq]
        split <;> rfl
      · rename_i hother
        rw [lookup_cons_eq, lookup_cons_eq, ih]
        split
        · rename_i hhere
          obtain rfl := eq_of_beq hhere
          rw [if_neg hother]
        · rfl

theorem keys_put : keys (put key value entries) = note (keys entries) key := by
  induction entries with
  | nil => rfl
  | cons entry rest ih =>
      obtain ⟨k', old⟩ := entry
      rw [put]
      split
      · rename_i hsame
        obtain rfl := eq_of_beq hsame
        simp [keys, note]
      · rename_i hother
        have hne : key ≠ k' := fun h => hother (beq_iff_eq.mpr h.symm)
        have hhead : k' :: note (keys rest) key = note (k' :: keys rest) key := by
          simp only [note, List.mem_cons, hne, false_or]
          split <;> rfl
        exact (congrArg (k' :: ·) ih).trans hhead

omit [LawfulBEq κ] in
theorem keys_without : keys (without key entries) = (keys entries).filter (· != key) := by
  simp only [keys, without, List.filter_map]
  rfl

theorem lookup_without :
    (without key entries).lookup k = if k == key then none else entries.lookup k := by
  induction entries with
  | nil => simp [without]
  | cons entry rest ih =>
      obtain ⟨k', value⟩ := entry
      have htail : without key ((k', value) :: rest) =
          if k' == key then without key rest else (k', value) :: without key rest := by
        by_cases h : k' = key <;> simp [without, h]
      rw [htail]
      split
      · rename_i hdropped
        obtain rfl := eq_of_beq hdropped
        rw [ih, lookup_cons_eq]
        split <;> rfl
      · rename_i hkept
        rw [lookup_cons_eq, lookup_cons_eq, ih]
        split
        · rename_i hhere
          obtain rfl := eq_of_beq hhere
          rw [if_neg hkept]
        · rfl

theorem mem_keys_iff : k ∈ keys entries ↔ (entries.lookup k).isSome := by
  rw [List.lookup_isSome_iff, keys, List.mem_map]
  constructor
  · rintro ⟨entry, hentry, rfl⟩
    exact ⟨entry, hentry, beq_self_eq_true _⟩
  · rintro ⟨entry, hentry, hsame⟩
    exact ⟨entry, hentry, (eq_of_beq hsame).symm⟩

theorem lookup_map (f : κ → α) (ks : List κ) :
    (ks.map fun key => (key, f key)).lookup k = if k ∈ ks then some (f k) else none := by
  induction ks with
  | nil => rfl
  | cons key ks ih =>
      rw [List.map_cons, lookup_cons_eq, ih]
      by_cases h : k = key
      · simp [h]
      · simp [h]

end Entries

section Firsts

variable {value : κ} {seen values : List κ}

theorem mem_note {v : κ} : v ∈ note seen value ↔ v ∈ seen ∨ v = value := by
  unfold note
  split
  · rename_i h
    exact ⟨.inl, fun hv => hv.elim id fun h' => h' ▸ h⟩
  · simp

@[simp] theorem firsts_concat : firsts (values ++ [value]) = note (firsts values) value := by
  simp [firsts]

theorem mem_firsts {v : κ} : v ∈ firsts values ↔ v ∈ values := by
  induction values using List.reverseRecOn with
  | nil => simp [firsts]
  | append_singleton values value ih => rw [firsts_concat, mem_note, ih]; simp

theorem nodup_note (h : seen.Nodup) : (note seen value).Nodup := by
  unfold note
  split
  · exact h
  · rename_i hnew
    exact List.nodup_append.mpr ⟨h, List.nodup_singleton _, by
      rintro a ha b hb rfl
      exact hnew (List.mem_singleton.mp hb ▸ ha)⟩

theorem nodup_firsts : (firsts values).Nodup := by
  induction values using List.reverseRecOn with
  | nil => exact List.nodup_nil
  | append_singleton values value ih => rw [firsts_concat]; exact nodup_note ih

theorem firsts_of_nodup (h : values.Nodup) : firsts values = values := by
  induction values using List.reverseRecOn with
  | nil => rfl
  | append_singleton values value ih =>
      rw [List.nodup_append] at h
      have hnew : value ∉ values := fun hmem => h.2.2 value hmem value (by simp) rfl
      rw [firsts_concat, ih h.1, note, if_neg hnew]

theorem firsts_order : (firsts values).Pairwise fun a b => values.idxOf a < values.idxOf b := by
  induction values using List.reverseRecOn with
  | nil => exact List.Pairwise.nil
  | append_singleton values value ih =>
      have hbefore : (firsts values).Pairwise fun a b =>
          (values ++ [value]).idxOf a < (values ++ [value]).idxOf b := by
        refine ih.imp_of_mem fun ha hb hlt => ?_
        rwa [List.idxOf_append_of_mem (mem_firsts.mp ha), List.idxOf_append_of_mem (mem_firsts.mp hb)]
      rw [firsts_concat, note]
      split
      · exact hbefore
      next hnew =>
        refine List.pairwise_append.mpr ⟨hbefore, List.pairwise_singleton _ _, ?_⟩
        intro a ha b hb
        obtain rfl := List.mem_singleton.mp hb
        have ha' := mem_firsts.mp ha
        have hb' : b ∉ values := fun hmem => hnew (mem_firsts.mpr hmem)
        rw [List.idxOf_append_of_mem ha', List.idxOf_append_of_notMem hb']
        exact Nat.lt_of_lt_of_le (List.idxOf_lt_length_of_mem ha') (Nat.le_add_right _ _)

/-- A partial map that is injective where it is defined commutes with noting. -/
theorem filterMap_note {f : κ → Option μ}
    (hinjective : ∀ a b, (f a).isSome → f a = f b → a = b) :
    (note seen value).filterMap f = (f value).elim (seen.filterMap f) (note (seen.filterMap f)) := by
  cases hvalue : f value with
  | none =>
      unfold note
      split <;> simp [hvalue]
  | some image =>
      have hmem : image ∈ seen.filterMap f ↔ value ∈ seen := by
        rw [List.mem_filterMap]
        constructor
        · rintro ⟨a, ha, himage⟩
          have hsame : a = value := hinjective a value (by simp [himage]) (by rw [himage, hvalue])
          exact hsame ▸ ha
        · exact fun h => ⟨value, h, hvalue⟩
      simp only [Option.elim_some, note, hmem]
      split <;> simp [hvalue]

end Firsts

section Build

variable {key : κ} {value : α} {entry : κ × α} {entries : List (κ × α)}

/-- A record built by assigning its entries one after the other. -/
def build (entries : List (κ × α)) : List (κ × α) :=
  entries.foldl (fun record entry => put entry.1 entry.2 record) []

omit [LawfulBEq κ] in
@[simp] theorem build_concat :
    build (entries ++ [entry]) = put entry.1 entry.2 (build entries) := by
  simp [build]

theorem put_of_notMem (h : key ∉ keys entries) :
    put key value entries = entries ++ [(key, value)] := by
  induction entries with
  | nil => rfl
  | cons entry rest ih =>
      obtain ⟨hne, hrest⟩ := not_or.mp fun hor => h (List.mem_cons.mpr hor)
      rw [put, if_neg fun heq => hne (eq_of_beq heq).symm, ih hrest, List.cons_append]

theorem mem_put (h : entry ∈ put key value entries) : entry = (key, value) ∨ entry ∈ entries := by
  induction entries with
  | nil => exact .inl (List.mem_singleton.mp h)
  | cons first rest ih =>
      rw [put] at h
      split at h
      next hsame =>
        obtain rfl := eq_of_beq hsame
        exact (List.mem_cons.mp h).imp_right (List.mem_cons_of_mem _)
      · rcases List.mem_cons.mp h with rfl | hmem
        · exact .inr List.mem_cons_self
        · exact (ih hmem).imp_right (List.mem_cons_of_mem _)

theorem mem_build (h : entry ∈ build entries) : entry ∈ entries := by
  induction entries using List.reverseRecOn with
  | nil => exact h
  | append_singleton entries last ih =>
      rw [build_concat] at h
      rcases mem_put h with rfl | hmem
      · exact List.mem_append_right entries List.mem_cons_self
      · exact List.mem_append_left [last] (ih hmem)

theorem keys_build : keys (build entries) = firsts (keys entries) := by
  induction entries using List.reverseRecOn with
  | nil => rfl
  | append_singleton entries last ih =>
      have hkeys : keys (entries ++ [last]) = keys entries ++ [last.1] := by simp [keys]
      rw [build_concat, keys_put, ih, hkeys, firsts_concat]

theorem nodup_keys_build : (keys (build entries)).Nodup := by
  rw [keys_build]
  exact nodup_firsts

theorem build_of_nodup (h : (keys entries).Nodup) : build entries = entries := by
  induction entries using List.reverseRecOn with
  | nil => rfl
  | append_singleton entries last ih =>
      have hkeys : keys (entries ++ [last]) = keys entries ++ [last.1] := by simp [keys]
      rw [hkeys, List.nodup_append] at h
      have hnew : last.1 ∉ keys entries := fun hmem => h.2.2 last.1 hmem last.1 (by simp) rfl
      rw [build_concat, ih h.1, put_of_notMem hnew]

end Build

end ChangeQuality.Records
