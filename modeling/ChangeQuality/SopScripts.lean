import ChangeQuality.SequencedLog
import ChangeQuality.SopInvariant
import ChangeQuality.SopVerdicts

/-!
The conversation that the graph of a check writes into the session of the check, row by row, and
what the check may record for a conversation that is as long as that.
-/

namespace ChangeQuality.SopScripts

open ChangeQuality.Values
open ChangeQuality.Texts
open ChangeQuality.JsonDecoding (Limits)
open ChangeQuality.SequencedLog (foldl_max_range')
open ChangeQuality.SopTables
open ChangeQuality.SopReview
open ChangeQuality.SopVerdicts
open ChangeQuality.ReadCommitted

/-- What the step that summarizes makes of an answer. -/
structure Review where
  result : Json
  qualityResult : Option String

def reviewOf (limits : Limits) (answer : String) : Option Review :=
  match summarizeResultState limits { reviewOutput := some (ofString answer) } with
  | .ok update =>
      update.result.map fun result =>
        { result := writeResult result, qualityResult := update.qualityResult.map verdictName }
  | .error _ => none

/-- The row that `append_step_message` adds. -/
def stepRow (sid : SessionId) (sequence : Nat) (step content : String) (kwargs : Json) :
    Message where
  sessionId := sid
  sequence
  role := "assistant"
  content
  additionalKwargs := kwargs.set "step" (.str step)

def loadRow (sid : SessionId) (sopId : String) : Message :=
  stepRow sid 1 "load_sop" ("已读取 SOP " ++ sopId ++ "。")
    (.obj [("kind", .str "step_message"), ("step", .str "load_sop")])

def reviewRow (sid : SessionId) (answer : String) : Message :=
  stepRow sid 2 "review_sop" answer
    (.obj [("kind", .str "final_message"), ("step", .str "review_sop")])

/-- The text of `summarize_result`. -/
def reportText (result : Json) : String :=
  (((result.get "report_markdown").orElse (result.get "summary")).orElse (.str "")).text

def summaryRow (sid : SessionId) (result : Json) : Message :=
  stepRow sid 3 "summarize_result" (reportText result)
    (.obj [("kind", .str "step_message"), ("step", .str "summarize_result"),
      ("channel", .str "summary")])

def submitRow (sid : SessionId) : Message :=
  stepRow sid 4 "submit_result" "External submission: mock_submitted."
    (.obj [("kind", .str "step_message"), ("step", .str "submit_result"),
      ("channel", .str "summary")])

/-- The rows that follow the answer: none, if it cannot be summarized. -/
def closing (limits : Limits) (sid : SessionId) (answer : String) : List Message :=
  match reviewOf limits answer with
  | some review => [summaryRow sid review.result, submitRow sid]
  | none => []

/-- The conversation of a check whose agent gives the answer, if nothing cuts it short. -/
def script (limits : Limits) (sid : SessionId) (sopId answer : String) : List Message :=
  loadRow sid sopId :: reviewRow sid answer :: closing limits sid answer

/-- The result of a check as `submit_result` leaves it. -/
def storedResult (id : CheckId) (review : Review) : Json :=
  review.result.set "submission_result"
    (.obj [("external_status", .str "mock_submitted"), ("check_id", .str (toString id))])

section Told

variable (limits : Limits) (sid : SessionId)

/-- The check has recorded no result. -/
structure Unrecorded (row : SopQualityCheck) : Prop where
  result : row.result = none
  qualityResult : row.qualityResult = none

/-- The conversation is complete, and the check has recorded what it comes to. -/
def Concluded (lines : List Message) (row : SopQualityCheck) : Prop :=
  ∃ answer review, reviewOf limits answer = some review ∧
    lines = script limits sid row.sopId answer ∧ row.result = some (storedResult row.id review) ∧
    row.qualityResult = review.qualityResult

/-- The check records nothing but what a complete conversation comes to. -/
structure Records (lines : List Message) (row : SopQualityCheck) : Prop where
  recorded : Unrecorded row ∨ Concluded limits sid lines row
  succeeded : row.status = .succeeded → Concluded limits sid lines row

/-- A check and the rows of its session tell the same. -/
structure Told (lines : List Message) (row : SopQualityCheck) : Prop where
  pending : row.status = .pending → lines = []
  spoken : ∃ answer, lines <+: script limits sid row.sopId answer
  active : row.status.active = true → Unrecorded row
  records : Records limits sid lines row

end Told

/-- Every check and the rows of its session tell the same. -/
def Transcribed (limits : Limits) (db : Db) : Prop :=
  ∀ id row sid, db.check id = some row → row.sessionId = some sid →
    Told limits sid (db.messagesOf sid) row

/-- Only sessions in the tables have messages. -/
def MessagesLinked (db : Db) : Prop :=
  ∀ sid, db.session sid = none → db.messagesOf sid = []

section Scripts

variable {limits : Limits} {sid : SessionId} {sopId answer answer' : String} {lines : List Message}

theorem numbered_script (limits : Limits) (sid : SessionId) (sopId answer : String) :
    (script limits sid sopId answer).map (·.sequence) =
      List.range' 1 (script limits sid sopId answer).length := by
  unfold script closing
  split <;> rfl

/-- What has been said so far numbers the next row. -/
theorem latest_of_prefix (h : lines <+: script limits sid sopId answer) :
    (lines.map (·.sequence)).foldl max 0 = lines.length := by
  have hmap : lines.map (·.sequence) = List.range' 1 lines.length := by
    have hlines := List.prefix_iff_eq_take.mp h
    rw [hlines, List.map_take, numbered_script, List.take_range'_of_length_ge h.length_le]
    rw [← hlines]
  rw [hmap, foldl_max_range' 1 _ 0 Nat.one_pos]
  split <;> omega

/-- A conversation is told apart by its answer. -/
theorem answer_of_prefix (h : script limits sid sopId answer <+: script limits sid sopId answer') :
    answer = answer' := by
  obtain ⟨rest, hrest⟩ := h
  have hsecond : reviewRow sid answer = reviewRow sid answer' :=
    (List.cons.inj (List.cons.inj hrest).2).1
  exact congrArg (fun row : Message => row.content) hsecond

/-- Nothing follows a complete conversation. -/
theorem script_maximal (h : script limits sid sopId answer <+: lines)
    (hlines : lines <+: script limits sid sopId answer') :
    lines = script limits sid sopId answer := by
  have hanswer := answer_of_prefix (h.trans hlines)
  subst hanswer
  exact (h.eq_of_length (Nat.le_antisymm h.length_le hlines.length_le)).symm

theorem script_inj (h : script limits sid sopId answer = script limits sid sopId answer') :
    answer = answer' := by
  have hprefix : script limits sid sopId answer <+: script limits sid sopId answer' := by rw [h]
  exact answer_of_prefix hprefix

/-- A complete conversation that is continued within a script was the whole of it. -/
theorem Concluded.grow {lines' : List Message} {row : SopQualityCheck}
    (h : Concluded limits sid lines row) (hgrown : lines <+: lines')
    (hspoken : ∃ answer, lines' <+: script limits sid row.sopId answer) :
    Concluded limits sid lines' row := by
  obtain ⟨answer, review, hreview, rfl, hresult, hquality⟩ := h
  obtain ⟨answer', hanswer'⟩ := hspoken
  exact ⟨answer, review, hreview, script_maximal hgrown hanswer', hresult, hquality⟩

theorem Records.grow {lines' : List Message} {row : SopQualityCheck}
    (h : Records limits sid lines row) (hgrown : lines <+: lines')
    (hspoken : ∃ answer, lines' <+: script limits sid row.sopId answer) :
    Records limits sid lines' row :=
  ⟨h.recorded.imp_right fun hdone => hdone.grow hgrown hspoken,
    fun hstatus => (h.succeeded hstatus).grow hgrown hspoken⟩

end Scripts

section Patches

variable {limits : Limits} {sid : SessionId} {lines : List Message} {row : SopQualityCheck}
  {patch : CheckPatch}

/-- An update that records neither a result nor success. -/
structure Unspoken (patch : CheckPatch) : Prop where
  result : patch.result = none
  qualityResult : patch.qualityResult = none
  status : patch.status ≠ some .succeeded

/-- An update that records success and what the conversation comes to. -/
def Concludes (limits : Limits) (sid : SessionId) (lines : List Message) (id : CheckId)
    (sopId : String) (patch : CheckPatch) : Prop :=
  ∃ answer review, reviewOf limits answer = some review ∧ lines = script limits sid sopId answer ∧
    patch.status = some .succeeded ∧ patch.result = some (some (storedResult id review)) ∧
    (patch.qualityResult = some review.qualityResult ∨
      patch.qualityResult = none ∧ review.qualityResult = none)

theorem Unspoken.unrecorded (h : Unspoken patch) (hrow : Unrecorded row) :
    Unrecorded (patch.apply row) := by
  constructor
  · simpa [CheckPatch.apply, h.result] using hrow.result
  · simpa [CheckPatch.apply, h.qualityResult] using hrow.qualityResult

theorem Unspoken.concluded (h : Unspoken patch) (hrow : Concluded limits sid lines row) :
    Concluded limits sid lines (patch.apply row) := by
  obtain ⟨answer, review, hreview, hlines, hresult, hquality⟩ := hrow
  refine ⟨answer, review, hreview, hlines, ?_, ?_⟩
  · simpa [CheckPatch.apply, h.result] using hresult
  · simpa [CheckPatch.apply, h.qualityResult] using hquality

theorem Concludes.concluded (h : Concludes limits sid lines row.id row.sopId patch)
    (hrow : Unrecorded row ∨ Concluded limits sid lines row) :
    Concluded limits sid lines (patch.apply row) := by
  obtain ⟨answer, review, hreview, hlines, -, hresult, hquality⟩ := h
  refine ⟨answer, review, hreview, hlines, by simp [CheckPatch.apply, hresult], ?_⟩
  rcases hquality with hset | ⟨hkept, hnone⟩
  · simp [CheckPatch.apply, hset]
  · have hsame : row.qualityResult = review.qualityResult := by
      rcases hrow with hrow | ⟨answer', review', hreview', hlines', -, hquality'⟩
      · rw [hrow.qualityResult, hnone]
      · obtain rfl := script_inj (hlines.symm.trans hlines')
        rw [hquality', Option.some.inj (hreview.symm.trans hreview')]
    simpa [CheckPatch.apply, hkept] using hsame

theorem Records.unspoken (h : Records limits sid lines row) (hpatch : Unspoken patch) :
    Records limits sid lines (patch.apply row) := by
  refine ⟨h.recorded.imp hpatch.unrecorded hpatch.concluded, fun hstatus => ?_⟩
  refine hpatch.concluded (h.succeeded ?_)
  cases hset : patch.status with
  | none => simpa [CheckPatch.apply, hset] using hstatus
  | some status =>
      have : status = .succeeded := by simpa [CheckPatch.apply, hset] using hstatus
      exact absurd (this ▸ hset) hpatch.status

theorem Records.concludes (h : Records limits sid lines row)
    (hpatch : Concludes limits sid lines row.id row.sopId patch) :
    Records limits sid lines (patch.apply row) :=
  ⟨.inr (hpatch.concluded h.recorded), fun _ => hpatch.concluded h.recorded⟩

end Patches

section Tables

variable {id : CheckId} {sid : SessionId} {db : Db}

/-- What the updates of a transaction keep of a check, the transaction keeps of it. -/
theorem check_applyAll {φ : SopQualityCheck → Prop} {ws : List Write} {row : SopQualityCheck}
    (hpatch : ∀ patch, .updateCheck id patch ∈ ws → ∀ row, φ row → φ (patch.apply row))
    (hrow : db.check id = some row) (h : φ row) :
    ∃ row', (applyAll schema ws db).check id = some row' ∧ φ row' := by
  refine applyAll_keeps (φ := fun db : Db => ∃ row', db.check id = some row' ∧ φ row') ?_
    ⟨row, hrow, h⟩
  rintro wr hwr db ⟨row', hrow', hφ⟩
  cases wr with
  | insertCheck other => exact ⟨row', by simp [check_insertCheck, hrow'], hφ⟩
  | updateCheck id' patch =>
      rw [check_updateCheck]
      split
      · rename_i hid
        subst hid
        exact ⟨patch.apply row', by simp [hrow'], hpatch patch hwr row' hφ⟩
      · exact ⟨row', hrow', hφ⟩
  | _ => exact ⟨row', hrow', hφ⟩

/-- The messages that a transaction adds to a session. -/
def sent (sid : SessionId) (ws : List Write) : List Message :=
  ws.filterMap fun
    | .insertMessage m => if m.sessionId = sid then some m else none
    | _ => none

theorem mem_sent {ws : List Write} {m : Message} (h : m ∈ sent sid ws) :
    .insertMessage m ∈ ws ∧ m.sessionId = sid := by
  obtain ⟨wr, hwr, hm⟩ := List.mem_filterMap.mp h
  cases wr with
  | insertMessage m' =>
      obtain ⟨hsid, rfl⟩ : m'.sessionId = sid ∧ m' = m := by simpa using hm
      exact ⟨hwr, hsid⟩
  | _ => cases hm

theorem messagesOf_apply (wr : Write) :
    (schema.apply wr db).messagesOf sid = db.messagesOf sid ++ sent sid [wr] := by
  cases wr with
  | insertMessage m =>
      rw [messagesOf_insertMessage]
      by_cases h : m.sessionId = sid <;> simp [sent, h]
  | _ => exact (List.append_nil _).symm

theorem messagesOf_applyAll (ws : List Write) :
    (applyAll schema ws db).messagesOf sid = db.messagesOf sid ++ sent sid ws := by
  induction ws generalizing db with
  | nil => exact (List.append_nil _).symm
  | cons wr ws ih =>
      have hsent : sent sid (wr :: ws) = sent sid [wr] ++ sent sid ws := by
        rw [sent, ← List.singleton_append, List.filterMap_append]
        rfl
      have hrest : (applyAll schema (wr :: ws) db).messagesOf sid =
          (schema.apply wr db).messagesOf sid ++ sent sid ws := ih
      rw [hrest, messagesOf_apply, hsent, List.append_assoc]

end Tables

end ChangeQuality.SopScripts
