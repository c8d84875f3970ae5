import ChangeQuality.McpForms
import ChangeQuality.Records

/-!
The texts of `LlmProviderForm`, beside those of `McpServerForm`: what is printed from a parsed text is
parsed to the same.
-/

namespace ChangeQuality.LlmProviderForms

open ChangeQuality.Records
open ChangeQuality.McpForms (JsObject entryText isJsSpace jsTrim)
open ChangeQuality.McpRedaction (Chars)
open ChangeQuality.TextLines

def keyValueMapToText (value : JsObject) : Chars :=
  unlines (value.entries.map fun entry => entryText entry.1 entry.2)

/-- What `parseKeyValueText` returns; the value is what was parsed before the error. -/
structure Parsed where
  error : Option String
  value : JsObject

/-- The loop of `parseKeyValueText`. -/
def parseLines (label : String) : List Chars → JsObject → Parsed
  | [], value => { error := none, value }
  | rawLine :: rest, value =>
      let line := jsTrim rawLine
      if line = [] then parseLines label rest value
      else
        match line.findIdx? (· = '=') with
        | none | some 0 => { error := some (label ++ " 需要使用 KEY=VALUE 格式。"), value }
        | some (separatorIndex + 1) =>
            let key := jsTrim (line.take (separatorIndex + 1))
            let item := jsTrim (line.drop (separatorIndex + 2))
            if key = [] then { error := some (label ++ " 存在空 key。"), value }
            else parseLines label rest (value.assign key item)

def parseKeyValueText (label : String) (text : Chars) : Parsed :=
  parseLines label (lines text) []

def modelsToText (value : List Chars) : Chars :=
  unlines value

/-- The loop of `parseModelsText`. -/
def collectModels : List Chars → List Chars → List Chars → List Chars
  | [], models, _ => models
  | rawLine :: rest, models, seen =>
      let model := jsTrim rawLine
      if model = [] ∨ model ∈ seen then collectModels rest models seen
      else collectModels rest (models ++ [model]) (seen ++ [model])

def parseModelsText (text : Chars) : List Chars :=
  collectModels (lines text) [] []

section Maps

variable {key value : Chars} {object : JsObject}

/-- A key and a value as the forms parse them from a line. -/
structure Entry (key value : Chars) : Prop where
  key_nonempty : key ≠ []
  key_trimmed : jsTrim key = key
  key_plain : '=' ∉ key ∧ '\n' ∉ key
  key_own : key ≠ "__proto__".toList
  value_trimmed : jsTrim value = value
  value_plain : '\n' ∉ value

/-- A map as the forms parse it: one entry for each key. -/
structure Printable (object : JsObject) : Prop where
  entry : ∀ entry ∈ object, Entry entry.1 entry.2
  nodup : (object.map Prod.fst).Nodup

theorem define_entries (h : ∀ entry ∈ object, Entry entry.1 entry.2) (hentry : Entry key value) :
    ∀ entry ∈ object.define key value, Entry entry.1 entry.2 := by
  induction object with
  | nil => simpa [JsObject.define] using hentry
  | cons entry object ih =>
      obtain ⟨hhead, hrest⟩ := List.forall_mem_cons.mp h
      rw [JsObject.define]
      split
      · exact List.forall_mem_cons.mpr ⟨hentry, hrest⟩
      · exact List.forall_mem_cons.mpr ⟨hhead, ih hrest⟩

theorem define_nodup (h : (object.map Prod.fst).Nodup) :
    ((object.define key value).map Prod.fst).Nodup := by
  induction object with
  | nil => simp [JsObject.define]
  | cons entry object ih =>
      rw [List.map_cons, List.nodup_cons] at h
      rw [JsObject.define]
      split
      next hsame => simpa [← hsame] using h
      next hother =>
        rw [List.map_cons, List.nodup_cons, McpForms.mem_define_keys]
        exact ⟨not_or.mpr ⟨hother, h.1⟩, ih h.2⟩

theorem Printable.assign (h : Printable object) (hentry : key ≠ "__proto__".toList →
    Entry key value) : Printable (object.assign key value) := by
  unfold JsObject.assign
  split
  · exact h
  next hown => exact ⟨define_entries h.entry (hentry hown), define_nodup h.nodup⟩

/-- The last line of an object's own keys is read back as the object. -/
theorem define_append (hkey : key ∉ object.map Prod.fst) :
    object.define key value = object ++ [(key, value)] := by
  induction object with
  | nil => rfl
  | cons entry object ih =>
      rw [List.map_cons, List.mem_cons, not_or] at hkey
      rw [JsObject.define, if_neg (Ne.symm hkey.1), ih hkey.2]
      rfl

theorem entries_perm (object : JsObject) : object.entries.Perm object := by
  let isIndex (entry : Chars × Chars) : Bool := (JsObject.arrayIndex? entry.1).isSome
  have hindexed : (object.filterMap fun entry =>
      (JsObject.arrayIndex? entry.1).map fun index => (index, entry)).map Prod.snd =
      object.filter isIndex := by
    rw [List.map_filterMap, ← List.filterMap_eq_filter]
    refine List.filterMap_congr fun entry _ => ?_
    cases hindex : JsObject.arrayIndex? entry.1 <;> simp [isIndex, hindex, Option.guard]
  have hrest : (object.filter fun entry => (JsObject.arrayIndex? entry.1).isNone) =
      object.filter fun entry => !isIndex entry := by
    refine List.filter_congr fun entry _ => ?_
    cases hindex : JsObject.arrayIndex? entry.1 <;> simp [isIndex, hindex]
  rw [JsObject.entries, hrest]
  refine (List.Perm.append_right _ ((List.mergeSort_perm _ _).map Prod.snd)).trans ?_
  rw [hindexed]
  exact List.filter_append_perm isIndex object

/-- In which order a map has its entries makes no difference to what it maps. -/
theorem get_of_perm {object' : JsObject} (hperm : object.Perm object')
    (hnodup : (object.map Prod.fst).Nodup) (key : Chars) : object.get key = object'.get key := by
  unfold JsObject.get
  induction hperm with
  | nil => rfl
  | cons entry _ ih =>
      rw [lookup_cons_eq, lookup_cons_eq, ih (List.nodup_cons.mp hnodup).2]
  | swap entry entry' rest =>
      have hne : entry'.1 ≠ entry.1 := by
        intro hsame
        simp [hsame] at hnodup
      simp only [lookup_cons_eq]
      by_cases hkey : key = entry'.1
      · simp [hkey, hne]
      · simp [hkey]
  | trans hfirst _ ih₁ ih₂ =>
      exact (ih₁ hnodup).trans (ih₂ ((hfirst.map Prod.fst).nodup_iff.mp hnodup))

/-- The entries of a map with distinct keys make up the map. -/
theorem foldl_define {entries : List (Chars × Chars)} {object : JsObject}
    (hnodup : ((object ++ entries).map Prod.fst).Nodup) :
    entries.foldl (fun object entry => object.define entry.1 entry.2) object = object ++ entries := by
  induction entries generalizing object with
  | nil => simp
  | cons entry entries ih =>
      have hnew : entry.1 ∉ object.map Prod.fst := by
        rw [List.map_append, List.map_cons, List.nodup_append] at hnodup
        exact fun hmem => hnodup.2.2 _ hmem _ List.mem_cons_self rfl
      have hmoved : object ++ entry :: entries = (object ++ [entry]) ++ entries := by simp
      rw [List.foldl_cons, define_append hnew, ih (hmoved ▸ hnodup), hmoved]

end Maps

section Lines

variable {key value line : Chars} {object : JsObject}

/-- A trimmed line with its first equals sign behind the first character is read as an entry. -/
theorem entry_of_line {separatorIndex : Nat} (hline : '\n' ∉ line) (htrim : jsTrim line = line)
    (hfind : line.findIdx? (· = '=') = some (separatorIndex + 1))
    (hown : jsTrim (line.take (separatorIndex + 1)) ≠ "__proto__".toList) :
    Entry (jsTrim (line.take (separatorIndex + 1))) (jsTrim (line.drop (separatorIndex + 2))) := by
  have hplain {part : Chars} (hpart : part.Sublist line) : '\n' ∉ jsTrim part :=
    McpForms.not_mem_jsTrim fun hmem => hline (hpart.subset hmem)
  obtain ⟨hlength, -, hbefore⟩ := List.findIdx?_eq_some_iff_getElem.mp hfind
  have hkey : '=' ∉ line.take (separatorIndex + 1) := by
    intro hmem
    obtain ⟨i, hi, heq⟩ := List.mem_take_iff_getElem.mp hmem
    exact hbefore i (by omega) (by simpa using heq)
  refine ⟨?_, trim_trim _ _, ⟨?_, hplain (List.take_sublist _ _)⟩, hown, trim_trim _ _,
    hplain (List.drop_sublist _ _)⟩
  · cases line with
    | nil => simp at hlength
    | cons c rest =>
        have hc : isJsSpace c = false := trim_head (s := c :: rest) (by rw [← jsTrim, htrim]; rfl)
        exact McpForms.jsTrim_ne_nil (by simp) hc
  · exact fun hmem => hkey ((trim_isInfix isJsSpace _).subset hmem)

/-- What the loop of the MCP form returns is printable. -/
theorem printable_parseLines {label : String} {index : Nat} {ls : List Chars} {parsed : JsObject}
    (hls : ∀ line ∈ ls, '\n' ∉ line) (h : Printable object)
    (hparse : McpForms.parseLines label index ls object = .ok parsed) : Printable parsed := by
  induction ls generalizing index object with
  | nil =>
      obtain rfl := Except.ok.inj hparse
      exact h
  | cons rawLine rest ih =>
      obtain ⟨hline, hrest⟩ := List.forall_mem_cons.mp hls
      simp only [McpForms.parseLines] at hparse
      split at hparse
      · exact ih hrest h hparse
      · split at hparse
        · cases hparse
        · cases hparse
        next separatorIndex hfind =>
          split at hparse
          · cases hparse
          · refine ih hrest (h.assign fun hown => ?_) hparse
            exact entry_of_line (McpForms.not_mem_jsTrim hline) (trim_trim _ _) hfind hown

/-- A printed entry is a trimmed line, with the key in front of its first equals sign. -/
theorem Entry.printed (h : Entry key value) :
    jsTrim (entryText key value) = entryText key value ∧
      (entryText key value).findIdx? (· = '=') = some key.length := by
  constructor
  · refine trim_of_ends (fun c hc => ?_) fun c hc => ?_
    · have hhead : key.head? = some c := by
        rwa [entryText, List.head?_append_of_ne_nil _ h.key_nonempty] at hc
      exact trim_head (s := key) (by rw [← jsTrim, h.key_trimmed]; exact hhead)
    · cases hvalue : value with
      | nil =>
          subst hvalue
          obtain rfl : c = '=' := by simpa [entryText] using hc.symm
          decide
      | cons d rest =>
          have hlast : value.getLast? = some c := by
            rw [entryText, hvalue, List.getLast?_append_of_ne_nil _ (by simp),
              List.getLast?_cons_cons] at hc
            rw [hvalue]
            exact hc
          exact trim_last (s := value) (by rw [← jsTrim, h.value_trimmed]; exact hlast)
  · rw [entryText, List.findIdx?_append]
    have hnone : key.findIdx? (· = '=') = none := by
      rw [List.findIdx?_eq_none_iff]
      rintro c hc
      simpa using fun heq : c = '=' => h.key_plain.1 (heq ▸ hc)
    simp [hnone, List.findIdx?_cons]

theorem parseLines_printed {label : String} {index : Nat} {entries : List (Chars × Chars)}
    (h : ∀ entry ∈ entries, Entry entry.1 entry.2) :
    McpForms.parseLines label index (entries.map fun entry => entryText entry.1 entry.2) object =
      .ok (entries.foldl (fun object entry => object.define entry.1 entry.2) object) := by
  induction entries generalizing index object with
  | nil => rfl
  | cons entry entries ih =>
      obtain ⟨hentry, hrest⟩ := List.forall_mem_cons.mp h
      obtain ⟨htrim, hfind⟩ := hentry.printed
      obtain ⟨n, hn⟩ : ∃ n, entry.1.length = n + 1 :=
        Nat.exists_eq_succ_of_ne_zero (by simpa using hentry.key_nonempty)
      have hne : entryText entry.1 entry.2 ≠ [] := by simp [entryText]
      have htake : (entryText entry.1 entry.2).take (n + 1) = entry.1 := by
        rw [entryText, ← hn, List.take_left]
      have hdrop : (entryText entry.1 entry.2).drop (n + 2) = entry.2 := by
        have hlength : n + 2 = entry.1.length + 1 := by omega
        rw [entryText, hlength, ← List.drop_drop, List.drop_left]
        rfl
      rw [List.map_cons, McpForms.parseLines]
      simp only [htrim, if_neg hne, hfind, hn, htake, hdrop, hentry.key_trimmed,
        hentry.value_trimmed, if_neg hentry.key_nonempty]
      rw [ih hrest, List.foldl_cons, JsObject.assign, if_neg hentry.key_own]

/-- A printed map is parsed to its entries. -/
theorem parse_printed {label : String} (h : Printable object) :
    McpForms.parseKeyValueText label (McpForms.keyValueMapToText object) = .ok object.entries := by
  have hentries : ∀ entry ∈ object.entries, Entry entry.1 entry.2 :=
    fun entry hentry => h.entry entry (McpForms.mem_entries.mp hentry)
  have hnodup : (object.entries.map Prod.fst).Nodup :=
    ((entries_perm object).map Prod.fst).nodup_iff.mpr h.nodup
  have hfold : object.entries.foldl (fun object entry => JsObject.define object entry.1 entry.2) [] =
      object.entries := @foldl_define object.entries [] hnodup
  have hplain : ∀ part ∈ object.entries.map fun entry => entryText entry.1 entry.2,
      '\n' ∉ part := by
    intro part hpart
    obtain ⟨entry, hentry, rfl⟩ := List.mem_map.mp hpart
    simp [entryText, (hentries entry hentry).key_plain.2, (hentries entry hentry).value_plain]
  cases hcases : object.entries with
  | nil => rw [McpForms.parseKeyValueText, McpForms.keyValueMapToText, hcases]; rfl
  | cons first more =>
      have hlines : lines (McpForms.keyValueMapToText object) =
          object.entries.map fun entry => entryText entry.1 entry.2 := by
        rw [McpForms.keyValueMapToText, lines_unlines (by simp [hcases])]
        · rw [List.flatMap_congr fun part hpart => lines_of_not_mem (hplain part hpart)]
          exact List.flatMap_singleton' _
        · intro part hpart
          obtain ⟨entry, hentry, rfl⟩ := List.mem_map.mp hpart
          rw [← (hentries entry hentry).printed.1]
          exact McpForms.getLast_jsTrim _
      rw [McpForms.parseKeyValueText, hlines, parseLines_printed hentries, hfold, hcases]

/-- The two loops read the same entries and stop at the same lines. -/
theorem parseLines_eq (label label' : String) (index : Nat) (ls : List Chars)
    (object parsed : JsObject) : McpForms.parseLines label index ls object = .ok parsed ↔
      parseLines label' ls object = { error := none, value := parsed } := by
  induction ls generalizing index object with
  | nil => simp [McpForms.parseLines, parseLines]
  | cons rawLine rest ih =>
      simp only [McpForms.parseLines, parseLines]
      by_cases hline : jsTrim rawLine = []
      · rw [if_pos hline, if_pos hline]
        exact ih (index + 1) object
      · rw [if_neg hline, if_neg hline]
        cases (jsTrim rawLine).findIdx? (· = '=') with
        | none => simp
        | some position =>
            cases position with
            | zero => simp
            | succ separatorIndex =>
                dsimp only
                split
                · simp
                · exact ih (index + 1) _

end Lines

section Models

variable {ls models seen : List Chars}

/-- The loop keeps what is new to it. -/
theorem collectModels_eq (ls models : List Chars) :
    collectModels ls models models = ((ls.map jsTrim).filter (· ≠ [])).foldl note models := by
  induction ls generalizing models with
  | nil => rfl
  | cons rawLine rest ih =>
      rw [collectModels, List.map_cons]
      by_cases hempty : jsTrim rawLine = []
      · rw [if_pos (.inl hempty), ih, List.filter_cons_of_neg (by simpa using hempty)]
      · rw [List.filter_cons_of_pos (by simpa using hempty), List.foldl_cons]
        by_cases hseen : jsTrim rawLine ∈ models
        · rw [if_pos (.inr hseen), ih, note, if_pos hseen]
        · rw [if_neg (not_or.mpr ⟨hempty, hseen⟩), ih, note, if_neg hseen]

/-- The models of a text are its trimmed lines that are not blank, each where it comes first. -/
theorem parseModelsText_eq (text : Chars) :
    parseModelsText text = firsts (McpForms.parseArgsText text) :=
  collectModels_eq (lines text) []

theorem parseModelsText_modelsToText {models : List Chars} (hnodup : models.Nodup)
    (h : ∀ model ∈ models, model ≠ [] ∧ jsTrim model = model ∧ '\n' ∉ model) :
    parseModelsText (modelsToText models) = models := by
  have hargs : McpForms.parseArgsText (modelsToText models) = models :=
    McpForms.parseArgsText_argsToText.mpr h
  rw [parseModelsText_eq, hargs, firsts_of_nodup hnodup]

theorem mem_parseArgsText {text model : Chars} (h : model ∈ McpForms.parseArgsText text) :
    model ≠ [] ∧ jsTrim model = model ∧ '\n' ∉ model := by
  obtain ⟨hmem, hne⟩ := List.mem_filter.mp h
  obtain ⟨line, hline, rfl⟩ := List.mem_map.mp hmem
  exact ⟨by simpa using hne, trim_trim _ _, McpForms.not_mem_jsTrim (not_mem_lines _ line hline)⟩

end Models

/-- Two maps hold the same entries. -/
def SameMap (a b : JsObject) : Prop :=
  ∀ key, a.get key = b.get key

/-- The models of a text, without duplicates and in the order in which its lines name them first. -/
structure FirstOccurrences (models named : List Chars) : Prop where
  nodup : models.Nodup
  mem : ∀ model, model ∈ models ↔ model ∈ named
  order : models.Pairwise fun a b => named.idxOf a < named.idxOf b

theorem printed_parsed {label : String} {text : Chars} {map : JsObject}
    (hparse : McpForms.parseKeyValueText label text = .ok map) :
    ∃ again, McpForms.parseKeyValueText label (McpForms.keyValueMapToText map) = .ok again ∧
      SameMap map again := by
  have hprintable : Printable map := by
    refine printable_parseLines (not_mem_lines text) ⟨?_, ?_⟩ hparse
    · simp
    · simp
  refine ⟨map.entries, parse_printed hprintable, fun key => ?_⟩
  exact get_of_perm (entries_perm map).symm hprintable.nodup key

/-- Both forms read the same texts as the same maps, and what is printed from a map, or from a list of
models, is read as that. -/
theorem form_texts_round_trip :
    (∀ label text map, McpForms.parseKeyValueText label text = .ok map →
      ∃ again, McpForms.parseKeyValueText label (McpForms.keyValueMapToText map) = .ok again ∧
        SameMap map again) ∧
    (∀ label text map, parseKeyValueText label text = { error := none, value := map } →
      ∃ again, parseKeyValueText label (keyValueMapToText map) =
        { error := none, value := again } ∧ SameMap map again) ∧
    (∀ label label' text map, McpForms.parseKeyValueText label text = .ok map ↔
      parseKeyValueText label' text = { error := none, value := map }) ∧
    ∀ text, parseModelsText (modelsToText (parseModelsText text)) = parseModelsText text ∧
      FirstOccurrences (parseModelsText text) (((lines text).map jsTrim).filter (· ≠ [])) := by
  have hforms (label label' : String) (text : Chars) (map : JsObject) :
      McpForms.parseKeyValueText label text = .ok map ↔
        parseKeyValueText label' text = { error := none, value := map } :=
    parseLines_eq label label' 0 (lines text) [] map
  refine ⟨fun label text map => printed_parsed, ?_, hforms, fun text => ?_⟩
  · intro label text map hparse
    obtain ⟨again, hagain, hsame⟩ := printed_parsed ((hforms label label text map).mpr hparse)
    exact ⟨again, (hforms label label _ again).mp hagain, hsame⟩
  · have hmodels := parseModelsText_eq text
    constructor
    · refine parseModelsText_modelsToText (hmodels ▸ nodup_firsts) fun model hmodel => ?_
      rw [hmodels] at hmodel
      exact mem_parseArgsText (mem_firsts.mp hmodel)
    · rw [hmodels]
      exact ⟨nodup_firsts, fun model => mem_firsts, firsts_order⟩

end ChangeQuality.LlmProviderForms
