import ChangeQuality.JsonDecoding
import ChangeQuality.MarkedTexts

/-!
What the connectivity check of a provider shows of an error: its JSON form, with the secrets of the
provider taken out of the strings.
-/

namespace ChangeQuality.LlmConnectivity

open ChangeQuality.Texts
open ChangeQuality.JsonDecoding
open ChangeQuality.MarkedTexts

/-- The part of a provider's configuration that holds its secrets. -/
structure LlmProviderRuntimeConfig where
  apiKey : Option Text
  defaultHeaders : List (Text × Text)
  defaultQuery : List (Text × Text)

/-- `REDACTED`. -/
def redacted : Text :=
  ofString "********"

/-- The secrets that `_sanitize_error` takes out, the longest ones first. -/
def secrets (provider : LlmProviderRuntimeConfig) : List Text :=
  let values := provider.apiKey.getD [] :: provider.defaultHeaders.map Prod.snd ++
    provider.defaultQuery.map Prod.snd
  (values.filter (· ≠ [])).eraseDups.mergeSort fun a b => b.length ≤ a.length

/-- `_sanitize_error`. -/
def sanitizeError (message : Text) (provider : LlmProviderRuntimeConfig) : Text :=
  (secrets provider).foldl (fun sanitized secret => replaceFrom secret redacted 0 sanitized) message

section Walk

variable (f : Text → Text)

mutual

/-- A value with `f` applied to the strings in it that are no keys. -/
def mapStrings : Value → Value
  | .str text => .str (f text)
  | .arr items => .arr (mapItems items)
  | .obj entries => .obj (mapEntries entries)
  | value => value

def mapItems : List Value → List Value
  | [] => []
  | value :: items => mapStrings value :: mapItems items

def mapEntries : List (Text × Value) → List (Text × Value)
  | [] => []
  | (key, value) :: entries => (key, mapStrings value) :: mapEntries entries

end

end Walk

/-- `_sanitize_value`. -/
def sanitizeValue (value : Value) (provider : LlmProviderRuntimeConfig) : Value :=
  mapStrings (fun text => sanitizeError text provider) value

mutual

/-- The strings of a value that are no keys, at any depth. -/
def stringValues : Value → List Text
  | .str text => [text]
  | .arr items => stringItems items
  | .obj entries => stringEntries entries
  | _ => []

def stringItems : List Value → List Text
  | [] => []
  | value :: items => stringValues value ++ stringItems items

def stringEntries : List (Text × Value) → List Text
  | [] => []
  | (_, value) :: entries => stringValues value ++ stringEntries entries

end

mutual

/-- The keys of the objects of a value, at any depth. -/
def objectKeys : Value → List Text
  | .arr items => itemKeys items
  | .obj entries => entryKeys entries
  | _ => []

def itemKeys : List Value → List Text
  | [] => []
  | value :: items => objectKeys value ++ itemKeys items

def entryKeys : List (Text × Value) → List Text
  | [] => []
  | (key, value) :: entries => key :: objectKeys value ++ entryKeys entries

end

/-- All of a value but the strings that are no keys. -/
def shape (value : Value) : Value :=
  mapStrings (fun _ => []) value

/-- A value shows a text in one of its strings, a key included. -/
def Shows (value : Value) (text : Text) : Prop :=
  ∃ string ∈ stringValues value ++ objectKeys value, text <:+: string

section Walk

variable (f g : Text → Text)

mutual

theorem mapStrings_mapStrings : ∀ value, mapStrings g (mapStrings f value) =
    mapStrings (fun text => g (f text)) value
  | .null | .bool _ | .int _ | .float _ | .str _ => rfl
  | .arr items => congrArg Value.arr (mapItems_mapItems items)
  | .obj entries => congrArg Value.obj (mapEntries_mapEntries entries)

theorem mapItems_mapItems : ∀ items, mapItems g (mapItems f items) =
    mapItems (fun text => g (f text)) items
  | [] => rfl
  | value :: items => by
      simp only [mapItems]
      rw [mapStrings_mapStrings value, mapItems_mapItems items]

theorem mapEntries_mapEntries : ∀ entries, mapEntries g (mapEntries f entries) =
    mapEntries (fun text => g (f text)) entries
  | [] => rfl
  | (key, value) :: entries => by
      simp only [mapEntries]
      rw [mapStrings_mapStrings value, mapEntries_mapEntries entries]

end

mutual

theorem stringValues_mapStrings : ∀ value,
    stringValues (mapStrings f value) = (stringValues value).map f
  | .null | .bool _ | .int _ | .float _ | .str _ => rfl
  | .arr items => stringItems_mapItems items
  | .obj entries => stringEntries_mapEntries entries

theorem stringItems_mapItems : ∀ items,
    stringItems (mapItems f items) = (stringItems items).map f
  | [] => rfl
  | value :: items => by
      simp only [mapItems, stringItems, List.map_append]
      rw [stringValues_mapStrings value, stringItems_mapItems items]

theorem stringEntries_mapEntries : ∀ entries,
    stringEntries (mapEntries f entries) = (stringEntries entries).map f
  | [] => rfl
  | (key, value) :: entries => by
      simp only [mapEntries, stringEntries, List.map_append]
      rw [stringValues_mapStrings value, stringEntries_mapEntries entries]

end

mutual

theorem objectKeys_mapStrings : ∀ value, objectKeys (mapStrings f value) = objectKeys value
  | .null | .bool _ | .int _ | .float _ | .str _ => rfl
  | .arr items => itemKeys_mapItems items
  | .obj entries => entryKeys_mapEntries entries

theorem itemKeys_mapItems : ∀ items, itemKeys (mapItems f items) = itemKeys items
  | [] => rfl
  | value :: items => by
      simp only [mapItems, itemKeys]
      rw [objectKeys_mapStrings value, itemKeys_mapItems items]

theorem entryKeys_mapEntries : ∀ entries, entryKeys (mapEntries f entries) = entryKeys entries
  | [] => rfl
  | (key, value) :: entries => by
      simp only [mapEntries, entryKeys]
      rw [objectKeys_mapStrings value, entryKeys_mapEntries entries]

end

end Walk

section Secrets

variable {provider : LlmProviderRuntimeConfig}

theorem mem_secrets {secret : Text} : secret ∈ secrets provider ↔
    secret ∈ provider.apiKey.getD [] :: provider.defaultHeaders.map Prod.snd ++
      provider.defaultQuery.map Prod.snd ∧ secret ≠ [] := by
  rw [secrets, List.mem_mergeSort, List.mem_eraseDups, List.mem_filter]
  simp

/-- A star in no secret: only a text with a star could be put together from the marker. -/
theorem secret_separate (hstar : ∀ secret ∈ secrets provider, 0x2a ∉ secret) :
    ∀ secret ∈ secrets provider, Separate secret redacted := by
  intro secret hsecret
  have hne : secret ≠ [] := (mem_secrets.mp hsecret).2
  have hstars : ∀ c ∈ redacted, c = 0x2a := List.forall_iff_forall_mem.mp (by decide)
  refine .of_disjoint hne (by decide) fun c hc hmarker => ?_
  rw [hstars c hmarker] at hc
  exact hstar secret hsecret hc

theorem sanitizeError_hides (hstar : ∀ secret ∈ secrets provider, 0x2a ∉ secret)
    (message : Text) : ∀ secret ∈ secrets provider, ¬ secret <:+: sanitizeError message provider := by
  intro secret hsecret hinside
  have hseparate := secret_separate hstar
  have hmarked : sanitizeError message provider =
      plain (replaceEach redacted (secrets provider) (original message)) := by
    rw [← foldl_replaceFrom, plain_original]
    rfl
  rw [hmarked] at hinside
  have hwhole := replaceEach_whole hseparate (.original message)
  exact not_kept_of_replaceEach hseparate (.original message) secret hsecret
    (kept_of_isInfix (hseparate secret hsecret) hwhole hinside)

theorem shape_sanitizeValue (value : Value) : shape (sanitizeValue value provider) = shape value :=
  mapStrings_mapStrings _ _ value

/-- The sanitized value keeps its structure, and it shows a secret exactly where a key of the value
does: keys are left as they are. -/
theorem sanitizeValue_hides_iff (provider : LlmProviderRuntimeConfig) (value : Value)
    (hstar : ∀ secret ∈ secrets provider, 0x2a ∉ secret) :
    ((∀ secret ∈ secrets provider, ¬ Shows (sanitizeValue value provider) secret) ∧
        shape (sanitizeValue value provider) = shape value) ↔
      ∀ secret ∈ secrets provider, ∀ key ∈ objectKeys value, ¬ secret <:+: key := by
  rw [and_iff_left (shape_sanitizeValue value)]
  refine forall₂_congr fun secret hsecret => ?_
  unfold Shows sanitizeValue
  rw [stringValues_mapStrings, objectKeys_mapStrings]
  constructor
  · intro hhidden key hkey hinside
    exact hhidden ⟨key, List.mem_append_right _ hkey, hinside⟩
  · rintro hkeys ⟨string, hstring, hinside⟩
    rcases List.mem_append.mp hstring with hvalue | hkey
    · obtain ⟨text, _, rfl⟩ := List.mem_map.mp hvalue
      exact sanitizeError_hides hstar text secret hsecret hinside
    · exact hkeys string hkey hinside

def keyedProvider : LlmProviderRuntimeConfig where
  apiKey := some (ofString "hush")
  defaultHeaders := [(ofString "X-Tenant", ofString "hushing")]
  defaultQuery := []

theorem keyedProvider_stars : ∀ secret ∈ secrets keyedProvider, 0x2a ∉ secret := by
  have hstars : ([ofString "hush", ofString "hushing"].all fun secret => 0x2a ∉ secret) = true := by
    decide
  intro secret hsecret
  simpa using List.all_eq_true.mp hstars secret (mem_secrets.mp hsecret).1

/-- A secret in a string of a list is taken out. -/
theorem hides_in_list : ¬ ∃ secret ∈ secrets keyedProvider,
    Shows (sanitizeValue (.arr [.str (ofString "bad key hush for hushing")]) keyedProvider)
      secret := by
  rintro ⟨secret, hsecret, hshows⟩
  refine ((sanitizeValue_hides_iff keyedProvider _ keyedProvider_stars).mpr ?_).1 secret hsecret
    hshows
  intro secret _ key hkey
  cases hkey

/-- A secret that is the key of an object is shown. -/
theorem shows_key : ¬ ∀ provider value, (∀ secret ∈ secrets provider, 0x2a ∉ secret) →
    (∀ secret ∈ secrets provider, ¬ Shows (sanitizeValue value provider) secret) ∧
      shape (sanitizeValue value provider) = shape value := by
  intro h
  have hhidden := (h keyedProvider (.obj [(ofString "hush", .null)]) keyedProvider_stars).1
    (ofString "hush") (mem_secrets.mpr ⟨List.mem_cons_self, by decide⟩)
  exact hhidden ⟨ofString "hush", List.mem_singleton_self _, List.infix_rfl⟩

end Secrets

end ChangeQuality.LlmConnectivity
