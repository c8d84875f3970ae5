import ChangeQuality.McpForms

/-!
The masks of a server's details in the PATCH that the form submits.
-/

namespace ChangeQuality.McpFormMasks

open ChangeQuality.McpServers
open ChangeQuality.McpService
open ChangeQuality.McpForms
open ChangeQuality.McpRedaction (Chars)

/-- The details of a server, all of whose values are masked. -/
structure Masked (server : McpServerDetail) : Prop where
  env : ∀ entry ∈ server.env, entry.2 = redactedValue
  headers : ∀ entry ∈ server.headers, entry.2 = redactedValue

theorem serverDetail_masked (row : McpServer) : Masked (serverDetail row) :=
  ⟨(redactMapping_spec row.env).2, (redactMapping_spec row.headers).2⟩

/-- A field of a PATCH sets a key to the mask. -/
def CarriesMask (field : McpService.Field (List (String × String))) : Prop :=
  ∃ map, field = .set map ∧ ∃ entry ∈ map, entry.2 = String.ofList redactedValue

/-- The field is submitted as parsed, and the text of it gives the mask to such a key. -/
def GivesMask (label : String) (text : Chars) (original : JsObject) (keys : Chars → Prop) : Prop :=
  shouldOmitRedactedField text original = false ∧
    ∃ parsed, parseKeyValueText label text = .ok parsed ∧
      ∃ entry ∈ parsed, entry.2 = redactedValue ∧ keys entry.1

/-- The text gives the mask to a key that the server has. -/
def KeepsMask (label : String) (text : Chars) (original : JsObject) : Prop :=
  GivesMask label text original (· ∈ original.map Prod.fst)

/-- The text gives the mask to a key that the server does not have. -/
def AddsMask (label : String) (text : Chars) (original : JsObject) : Prop :=
  GivesMask label text original (· ∉ original.map Prod.fst)

section Fields

variable {label : String} {text : Chars} {original parsed : JsObject}

theorem get_masked (hmasked : ∀ entry ∈ original, entry.2 = redactedValue) (key : Chars) :
    original.get key = some redactedValue ↔ key ∈ original.map Prod.fst := by
  induction original with
  | nil => simp [JsObject.get]
  | cons entry rest ih =>
      obtain ⟨hentry, hrest⟩ := List.forall_mem_cons.mp hmasked
      have hget : JsObject.get (entry :: rest) key =
          if key = entry.1 then some entry.2 else JsObject.get rest key := by
        rw [JsObject.get, List.lookup_cons, JsObject.get]
        by_cases hkey : key = entry.1
        · simp [hkey]
        · simp [hkey, beq_eq_false_iff_ne.mpr hkey]
      rw [hget, List.map_cons, List.mem_cons]
      by_cases hkey : key = entry.1
      · simp [hkey, hentry]
      · rw [if_neg hkey, ih hrest]
        simp only [hkey, false_or]

/-- The check of the form stops the masks of the server's own keys. -/
theorem hasUnsafeRedactedPlaceholder_iff (hmasked : ∀ entry ∈ original, entry.2 = redactedValue)
    (hparsed : parseKeyValueText label text = .ok parsed) :
    hasUnsafeRedactedPlaceholder text parsed original = true ↔ KeepsMask label text original := by
  have hany : (parsed.any fun entry => entry.2 = redactedValue &&
      original.get entry.1 = some redactedValue) = true ↔
      ∃ entry ∈ parsed, entry.2 = redactedValue ∧ entry.1 ∈ original.map Prod.fst := by
    simp only [List.any_eq_true, Bool.and_eq_true, decide_eq_true_eq, get_masked hmasked]
  rw [hasUnsafeRedactedPlaceholder, Bool.and_eq_true, Bool.not_eq_true', hany]
  constructor
  · rintro ⟨homit, hentry⟩
    exact ⟨homit, parsed, hparsed, hentry⟩
  · rintro ⟨homit, parsed', hparsed', hentry⟩
    obtain rfl := Except.ok.inj (hparsed.symm.trans hparsed')
    exact ⟨homit, hentry⟩

/-- A field carries the mask exactly if the text gives it to a key of the server or to another. -/
theorem carriesMask_iff (hparsed : parseKeyValueText label text = .ok parsed) :
    CarriesMask (if shouldOmitRedactedField text original then .unset else .set (mapping parsed)) ↔
      KeepsMask label text original ∨ AddsMask label text original := by
  have hgives : KeepsMask label text original ∨ AddsMask label text original ↔
      shouldOmitRedactedField text original = false ∧ ∃ entry ∈ parsed, entry.2 = redactedValue := by
    constructor
    · rintro (⟨homit, parsed', hparsed', entry, hentry, hvalue, -⟩ |
        ⟨homit, parsed', hparsed', entry, hentry, hvalue, -⟩) <;>
        exact ⟨homit, entry, Except.ok.inj (hparsed'.symm.trans hparsed) ▸ hentry, hvalue⟩
    · rintro ⟨homit, entry, hentry, hvalue⟩
      by_cases hkey : entry.1 ∈ original.map Prod.fst
      · exact .inl ⟨homit, parsed, hparsed, entry, hentry, hvalue, hkey⟩
      · exact .inr ⟨homit, parsed, hparsed, entry, hentry, hvalue, hkey⟩
  rw [hgives]
  cases shouldOmitRedactedField text original with
  | true => simp [CarriesMask]
  | false =>
      simp only [Bool.false_eq_true, if_false, CarriesMask, McpService.Field.set.injEq,
        exists_eq_left', true_and]
      constructor
      · rintro ⟨entry, hentry, hvalue⟩
        obtain ⟨entry', hentry', rfl⟩ := List.mem_map.mp hentry
        exact ⟨entry', mem_entries.mp hentry', String.ofList_injective hvalue⟩
      · rintro ⟨entry, hentry, hvalue⟩
        refine ⟨_, List.mem_map.mpr ⟨entry, mem_entries.mpr hentry, rfl⟩, ?_⟩
        rw [hvalue]

end Fields

section Submissions

variable (urlProtocol : Chars → Option Chars) (server : McpServerDetail) (form : McpServerForm)

/-- The form shows an error, of its fields or of a mask that is kept, and submits nothing. -/
def Refused : Prop :=
  validateForm urlProtocol form ≠ none ∨ KeepsMask "env" form.envText server.env ∨
    KeepsMask "headers" form.headersText server.headers

variable {urlProtocol server form}

/-- Both maps of a valid form are parsed. -/
theorem parsed_of_valid (hvalid : validateForm urlProtocol form = none) :
    (∃ parsed, parseKeyValueText "env" form.envText = .ok parsed) ∧
      ∃ parsed, parseKeyValueText "headers" form.headersText = .ok parsed := by
  unfold validateForm at hvalid
  split at hvalid
  · cases hvalid
  split at hvalid
  · cases hvalid
  dsimp only at hvalid
  split at hvalid
  · cases hvalid
  split at hvalid
  · cases hvalid
  split at hvalid
  · cases hvalid
  next parsedEnv henv =>
    split at hvalid
    · cases hvalid
    next parsedHeaders hheaders => exact ⟨⟨parsedEnv, henv⟩, parsedHeaders, hheaders⟩

theorem handleSubmit_eq (hmasked : Masked server) (payload : McpServerUpdate) :
    handleSubmit urlProtocol server form = .ok payload ↔ ¬ Refused urlProtocol server form ∧
      ∃ parsedEnv parsedHeaders, parseKeyValueText "env" form.envText = .ok parsedEnv ∧
        parseKeyValueText "headers" form.headersText = .ok parsedHeaders ∧
        payload = updatePayload server form parsedEnv parsedHeaders := by
  unfold handleSubmit Refused
  cases hvalid : validateForm urlProtocol form with
  | some error => simp
  | none =>
      obtain ⟨⟨parsedEnv, henv⟩, parsedHeaders, hheaders⟩ := parsed_of_valid hvalid
      have henvRefused := hasUnsafeRedactedPlaceholder_iff hmasked.env henv
      have hheadersRefused := hasUnsafeRedactedPlaceholder_iff hmasked.headers hheaders
      have hpayload : (∃ env headers, parseKeyValueText "env" form.envText = .ok env ∧
          parseKeyValueText "headers" form.headersText = .ok headers ∧
          payload = updatePayload server form env headers) ↔
          updatePayload server form parsedEnv parsedHeaders = payload := by
        constructor
        · rintro ⟨env, headers, henv', hheaders', rfl⟩
          obtain rfl := Except.ok.inj (henv.symm.trans henv')
          obtain rfl := Except.ok.inj (hheaders.symm.trans hheaders')
          rfl
        · rintro rfl
          exact ⟨parsedEnv, parsedHeaders, henv, hheaders, rfl⟩
      rw [hpayload, ← henvRefused, ← hheadersRefused, ← Bool.or_eq_true]
      simp only [henv, hheaders, Except.toOption, Option.getD_some, ne_eq, not_true_eq_false,
        false_or]
      split
      next hrefused => simp [hrefused]
      next hsafe => simp [hsafe]

/-- No submission of the form carries a mask exactly if it is refused, or gives the mask to no key
that the server does not have. -/
theorem submit_carries_no_mask_iff (hmasked : Masked server) :
    (∀ payload, handleSubmit urlProtocol server form = .ok payload →
      ¬ CarriesMask payload.env ∧ ¬ CarriesMask payload.headers) ↔
    Refused urlProtocol server form ∨
      ¬ AddsMask "env" form.envText server.env ∧
        ¬ AddsMask "headers" form.headersText server.headers := by
  by_cases hrefused : Refused urlProtocol server form
  · refine iff_of_true (fun payload hpayload => ?_) (.inl hrefused)
    exact absurd hrefused ((handleSubmit_eq hmasked payload).mp hpayload).1
  · simp only [hrefused, false_or]
    have hvalid : validateForm urlProtocol form = none := by
      by_contra hinvalid
      exact hrefused (.inl hinvalid)
    obtain ⟨⟨parsedEnv, henv⟩, parsedHeaders, hheaders⟩ := parsed_of_valid hvalid
    have hkeeps : ¬ KeepsMask "env" form.envText server.env ∧
        ¬ KeepsMask "headers" form.headersText server.headers :=
      not_or.mp fun hkeeps => hrefused (.inr hkeeps)
    have hfields : (∀ payload, handleSubmit urlProtocol server form = .ok payload →
        ¬ CarriesMask payload.env ∧ ¬ CarriesMask payload.headers) ↔
        ¬ CarriesMask (updatePayload server form parsedEnv parsedHeaders).env ∧
          ¬ CarriesMask (updatePayload server form parsedEnv parsedHeaders).headers := by
      constructor
      · intro h
        exact h _ ((handleSubmit_eq hmasked _).mpr
          ⟨hrefused, parsedEnv, parsedHeaders, henv, hheaders, rfl⟩)
      · intro h payload hpayload
        obtain ⟨-, parsedEnv', parsedHeaders', henv', hheaders', rfl⟩ :=
          (handleSubmit_eq hmasked payload).mp hpayload
        obtain rfl := Except.ok.inj (henv.symm.trans henv')
        obtain rfl := Except.ok.inj (hheaders.symm.trans hheaders')
        exact h
    rw [hfields, updatePayload, carriesMask_iff henv, carriesMask_iff hheaders]
    simp only [hkeeps.1, hkeeps.2, false_or]

end Submissions

/-- A server with one secret, and its form with the key of the secret renamed. -/
def keyServer : McpServerDetail :=
  serverDetail docsServer

def renamedForm : McpServerForm :=
  { load keyServer with envText := "TOKEN=********".toList }

theorem keyServer_envText : keyValueMapToText keyServer.env = "API_KEY=********".toList := by
  have henv : keyServer.env = [("API_KEY".toList, redactedValue)] := rfl
  have hindex : JsObject.arrayIndex? "API_KEY".toList = none := by decide
  have hentries : JsObject.entries [("API_KEY".toList, redactedValue)] =
      [("API_KEY".toList, redactedValue)] := by
    simp only [JsObject.entries, List.filterMap_cons, List.filterMap_nil, hindex, Option.map_none,
      List.mergeSort_nil, List.map_nil, List.nil_append, List.filter_cons, Option.isNone_none,
      if_true, List.filter_nil]
  rw [henv, keyValueMapToText, hentries]
  rfl

theorem keyServer_headersText : keyValueMapToText keyServer.headers = [] := by
  have hentries : JsObject.entries [] = [] := entries_eq_nil.mpr rfl
  change keyValueMapToText [] = []
  rw [keyValueMapToText, hentries]
  rfl

/-- A text without entries gives the mask to no key. -/
theorem not_givesMask_empty {label : String} {original : JsObject} {keys : Chars → Prop} :
    ¬ GivesMask label [] original keys := by
  rintro ⟨-, parsed, hparsed, entry, hentry, -⟩
  obtain rfl : parsed = [] := (Except.ok.inj hparsed).symm
  cases hentry

theorem kept_submits_no_mask :
    ¬ ∃ payload, handleSubmit (fun _ => none) keyServer (load keyServer) = .ok payload ∧
      (CarriesMask payload.env ∨ CarriesMask payload.headers) := by
  have hkept : ¬ AddsMask "env" (load keyServer).envText keyServer.env := by
    rintro ⟨homit, -⟩
    have hmask : hasRedactedValue keyServer.env = true := by decide
    simp [shouldOmitRedactedField, load, hmask] at homit
  have hheaders : ¬ AddsMask "headers" (load keyServer).headersText keyServer.headers := by
    have htext : (load keyServer).headersText = [] := keyServer_headersText
    rw [htext]
    exact not_givesMask_empty
  rintro ⟨payload, hpayload, hcarries⟩
  have hnone := (submit_carries_no_mask_iff (serverDetail_masked docsServer)).mpr
    (.inr ⟨hkept, hheaders⟩) payload hpayload
  exact hcarries.elim hnone.1 hnone.2

/-- The form with the renamed key submits the mask as its value. -/
theorem renamed_submits_mask :
    Masked keyServer ∧
      ∃ payload, handleSubmit (fun _ => none) keyServer renamedForm = .ok payload ∧
        CarriesMask payload.env := by
  have hmasked : Masked keyServer := serverDetail_masked docsServer
  have hparsed : parseKeyValueText "env" renamedForm.envText =
      .ok [("TOKEN".toList, redactedValue)] := by rfl
  have hheaders : renamedForm.headersText = [] := keyServer_headersText
  have hnew : "TOKEN".toList ∉ keyServer.env.map Prod.fst := by decide
  have homit : shouldOmitRedactedField renamedForm.envText keyServer.env = false := by
    rw [shouldOmitRedactedField, keyServer_envText]
    decide
  have hrefused : ¬ Refused (fun _ => none) keyServer renamedForm := by
    rintro (hinvalid | ⟨-, parsed, hparsed', entry, hentry, -, hkey⟩ | hkeeps)
    · refine hinvalid ?_
      have hform : renamedForm = { load keyServer with
          envText := "TOKEN=********".toList, headersText := [] } := by
        rw [← hheaders]
        rfl
      rw [hform]
      rfl
    · obtain rfl := Except.ok.inj (hparsed.symm.trans hparsed')
      obtain rfl := List.mem_singleton.mp hentry
      exact hnew hkey
    · rw [hheaders] at hkeeps
      exact not_givesMask_empty hkeeps
  refine ⟨hmasked, _, (handleSubmit_eq hmasked _).mpr ⟨hrefused, _, [], hparsed, ?_, rfl⟩, ?_⟩
  · rw [hheaders]
    rfl
  · exact (carriesMask_iff hparsed).mpr
      (.inr ⟨homit, _, hparsed, _, List.mem_singleton_self _, rfl, hnew⟩)

end ChangeQuality.McpFormMasks
