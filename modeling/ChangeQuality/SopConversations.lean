import ChangeQuality.SopTranscripts

/-!
Every task of the SOP quality backend keeps to the script: the nodes of the graph append its rows one
after the other, and the end of a successful run records what the whole conversation comes to.
-/

namespace ChangeQuality.SopConversations

open ChangeQuality.Values
open ChangeQuality.Texts
open ChangeQuality.JsonDecoding (Limits bind_ok)
open ChangeQuality.SopTables
open ChangeQuality.SopRepository
open ChangeQuality.SopRunner
open ChangeQuality.SopReview
open ChangeQuality.SopVerdicts
open ChangeQuality.SopSystem
open ChangeQuality.SopEffects
open ChangeQuality.SopInvariant
open ChangeQuality.SopDiscipline
open ChangeQuality.SopTransactions
open ChangeQuality.SopLinks
open ChangeQuality.SopRunners
open ChangeQuality.SopScripts
open ChangeQuality.SopTranscripts
open ChangeQuality.Histories
open ChangeQuality.ReadCommitted
open ChangeQuality.Coroutine
open ChangeQuality.Interference

/-- The operations that add to no conversation, insert no check and record no result. -/
def Modest : Op → Prop
  | .insertMessage _ | .insertCheck _ => False
  | .updateCheck _ patch => Unspoken patch
  | _ => True

/-- What a run knows of the conversation of its check: the rows that are committed, and those that
it sees itself. -/
structure Heard (t : TaskId) (id : CheckId) (check : SopQualityCheck)
    (said seen : SessionId → List Message) (s : Recorded) : Prop where
  free : InsertsNone t s.1
  named : ∃ row, s.1.store.committed.check id = some row ∧ row.sessionId = check.sessionId ∧
    row.sopId = check.sopId
  said : ∀ sid, check.sessionId = some sid → s.1.store.committed.messagesOf sid = said sid
  seen : ∀ sid, check.sessionId = some sid → (s.1.view t).messagesOf sid = seen sid

/-- The task runs the graph of the check, and has said that. -/
structure Speaking (t : TaskId) (id : CheckId) (check : SopQualityCheck)
    (said : SessionId → List Message) (s : Recorded) : Prop where
  heard : Heard t id check said said s
  invoked : t ∈ invocations id s.2

section Assertions

variable {limits : Limits} {t : TaskId} {id : CheckId} {check : SopQualityCheck}
  {said seen : SessionId → List Message} {op : Op} {choice : Choice} {s s' : Recorded}
  {r : Except Exn (Reply op)}

theorem stable_insertsNone :
    Stable (scriptProtocol limits) t fun s => InsertsNone t s.1 :=
  fun _ _ _ h hrely _ row hrow => h row (Rely.pending hrely.1.1 ▸ hrow)

theorem Heard.rely (h : Heard t id check said seen s) (hclaims : Claims t id s)
    (hrely : (scriptProtocol limits).rely t s s') : Heard t id check said seen s' := by
  obtain ⟨row, hrow, hsid, hsop⟩ := h.named
  obtain ⟨row', hrow', hsid', hsop'⟩ := hrely.2.named id row hrow
  have hpending : s'.1.store.pending t = s.1.store.pending t := Rely.pending hrely.1.1
  have hsame : ∀ sid, check.sessionId = some sid →
      s'.1.store.committed.messagesOf sid = s.1.store.committed.messagesOf sid :=
    fun sid hcheck => (hrely.2.alone id row sid hclaims hrow (hsid.trans hcheck)).2
  refine ⟨fun row hrow => h.free row (hpending ▸ hrow),
    ⟨row', hrow', hsid'.trans hsid, hsop'.trans hsop⟩, fun sid hcheck => ?_, fun sid hcheck => ?_⟩
  · rw [hsame sid hcheck, h.said sid hcheck]
  · rw [view_messages, hsame sid hcheck, hpending, ← view_messages, h.seen sid hcheck]

/-- What a run knows while it claims its check stays. -/
theorem stable_heard {A : Recorded → Prop} (hA : Stable (scriptProtocol limits) t A)
    (hclaims : ∀ s, (scriptProtocol limits).inv s → A s → Claims t id s) :
    Stable (scriptProtocol limits) t fun s => Heard t id check said seen s ∧ A s :=
  fun s s' hinv h hrely hinv' =>
    ⟨h.1.rely (hclaims s hinv h.2) hrely, hA s s' hinv h.2 hrely hinv'⟩

theorem stable_invoked : Stable (scriptProtocol limits) t fun s => t ∈ invocations id s.2 :=
  fun _ _ _ h hrely _ => (hrely.1.2.own id).mpr h

theorem claims_of_invoked (hinv : (scriptProtocol limits).inv s) (h : t ∈ invocations id s.2) :
    Claims t id s :=
  .inr (runner_of_invoked hinv.1.2 h)

theorem stable_speaking : Stable (scriptProtocol limits) t (Speaking t id check said) := by
  intro s s' hinv h hrely hinv'
  exact ⟨h.heard.rely (claims_of_invoked hinv h.invoked) hrely,
    stable_invoked s s' hinv h.invoked hrely hinv'⟩

theorem InsertsNone.exec {w w' : World} (h : InsertsNone t w)
    (hop : ∀ values, op ≠ .insertCheck values) (hexec : exec t op choice w = some (r, w')) :
    InsertsNone t w' := by
  intro row hrow
  rcases pending_of_effect (exec_outcome hexec).effect with ⟨heq, -⟩ | heq | ⟨wr, -, hwr, -, heq⟩
  · exact h row (heq ▸ hrow)
  · simp [heq] at hrow
  · rw [heq, List.mem_append, List.mem_singleton] at hrow
    rcases hrow with hrow | rfl
    · exact h row hrow
    · cases hwr with
      | insertCheck _ _ => exact hop _ rfl

theorem Unspoken.net {patch : CheckPatch} (h : Unspoken patch) (check : SopQualityCheck) :
    Unspoken (patch.net check) where
  result := by simp [CheckPatch.net, h.result]
  qualityResult := by simp [CheckPatch.net, h.qualityResult]
  status hstatus := h.status (net_status hstatus)

theorem Modest.speaks (hop : Modest op) (h : InsertsNone t s.1) : Speaks limits t op s := by
  cases op with
  | updateCheck check patch => exact ⟨h, .inl (Unspoken.net hop check)⟩
  | insertMessage | insertCheck => exact hop.elim
  | _ => trivial

theorem Modest.insertsNone {w w' : World} (hop : Modest op) (h : InsertsNone t w)
    (hexec : exec t op choice w = some (r, w')) : InsertsNone t w' := by
  refine InsertsNone.exec h ?_ hexec
  rintro values rfl
  exact hop

/-- A modest operation that does not end the transaction adds no row to what its task sees. -/
theorem Modest.view_messages (hop : Modest op) {w w' : World} {sid : SessionId}
    (hexec : exec t op choice w = some (r, w')) :
    (w'.view t).messagesOf sid = (w.view t).messagesOf sid ∨
      (w'.view t).messagesOf sid = w.store.committed.messagesOf sid := by
  rcases view_of_effect (exec_outcome hexec).effect with heq | ⟨heq, -⟩ | ⟨wr, hwr, -, heq⟩
  · exact .inl (heq ▸ rfl)
  · exact .inr (heq ▸ rfl)
  · refine .inl ?_
    rw [heq, messagesOf_apply]
    cases hwr with
    | insertMessage _ => exact hop.elim
    | _ => exact List.append_nil _

theorem Heard.exec (h : Heard t id check said said s) (hop : Modest op)
    (hexec : exec t op choice s.1 = some (r, s'.1)) : Heard t id check said said s' := by
  obtain ⟨row, hrow, hsid, hsop⟩ := h.named
  have hcommitted := committed_of_effect (exec_outcome hexec).effect
  refine ⟨hop.insertsNone h.free hexec, ?_, fun sid hcheck => ?_, fun sid hcheck => ?_⟩
  · have hnamed : Named s.1.store.committed s'.1.store.committed := by
      rcases hcommitted with heq | ⟨-, -, heq⟩
      · exact heq ▸ .refl _
      · exact heq ▸ named_applyAll _ _
    obtain ⟨row', hrow', hsid', hsop'⟩ := hnamed id row hrow
    exact ⟨row', hrow', hsid'.trans hsid, hsop'.trans hsop⟩
  · rcases hcommitted with heq | ⟨-, -, heq⟩
    · rw [heq, h.said sid hcheck]
    · rw [heq, h.seen sid hcheck]
  · rcases hop.view_messages hexec with heq | heq
    · rw [heq, h.seen sid hcheck]
    · rw [heq, h.said sid hcheck]

theorem Speaking.exec (h : Speaking t id check said s) (hop : Modest op)
    (hexec : recording exec entries t op choice s = some (r, s')) :
    Speaking t id check said s' := by
  obtain ⟨hstep, hrecord⟩ := recording_eq_some hexec
  exact ⟨h.heard.exec hop hstep, invocations_grow hrecord h.invoked⟩

/-- A program over modest operations may run in any transaction that has inserted no check. -/
theorem triple_modest {α : Type} {p : Program α} (hp : Uses Modest p) :
    Triple (scriptProtocol limits) t (fun s => InsertsNone t s.1) p
      (fun _ s => InsertsNone t s.1) fun _ s => InsertsNone t s.1 :=
  Triple.of_uses (S := Modest) stable_insertsNone (fun _ _ hop _ h => hop.speaks h)
    (fun _ _ _ _ _ hop _ h _ hexec => hop.insertsNone h (recording_eq_some hexec).1) hp

/-- Whatever it does, a program over modest operations adds nothing to the conversation. -/
theorem triple_speaking {α : Type} {p : Program α} (hp : Uses Modest p) :
    Triple (scriptProtocol limits) t (Speaking t id check said) p
      (fun _ => Speaking t id check said) fun _ s => InsertsNone t s.1 :=
  (Triple.of_uses (S := Modest) stable_speaking (fun _ _ hop _ h => hop.speaks h.heard.free)
    (fun _ _ _ _ _ hop _ h _ hexec => h.exec hop hexec) hp).weaken (fun _ _ h => h)
    (fun _ _ _ h => h) fun _ _ _ h => h.heard.free

/-- The value of a program that has ended normally is one that it can return. -/
theorem Triple.returns {α : Type} {A : Recorded → Prop} {p : Program α} {Q : α → Recorded → Prop}
    {E : Exn → Recorded → Prop} (h : Triple (scriptProtocol limits) t A p Q E) :
    Triple (scriptProtocol limits) t A p (fun a s => Returns p a ∧ Q a s) E := by
  have hsafe : ∀ {p : Program α} {s : Recorded},
      Safe (scriptProtocol limits) t (outcome Q E) p s →
        Safe (scriptProtocol limits) t (outcome (fun a s => Returns p a ∧ Q a s) E) p s := by
    intro p
    induction p with
    | done a => exact fun h s' hrely hinv => ⟨.done a, h s' hrely hinv⟩
    | raise e => exact fun h => h
    | await op k ih =>
        intro s h s₁ hrely hinv
        obtain ⟨hpre, hk⟩ := h s₁ hrely hinv
        refine ⟨hpre, fun choice r s₂ hallowed hexec => ?_⟩
        refine Safe.mono ?_ (ih r (hk choice r s₂ hallowed hexec))
        rintro (e | a) s' - hr
        · exact hr
        · exact ⟨.await r hr.1, hr.2⟩
  exact fun s hinv hA => hsafe (h s hinv hA)

end Assertions

section Appending

variable {limits : Limits} {t : TaskId} {id : CheckId} {check : SopQualityCheck} {sid : SessionId}
  {said seen : SessionId → List Message} {answer : String}

/-- The number of the next row is read under the lock of the session. -/
theorem triple_nextMessageSequence (hsid : check.sessionId = some sid)
    (hsaid : said sid <+: script limits sid check.sopId answer) :
    Triple (scriptProtocol limits) t (Speaking t id check said) (nextMessageSequence sid)
      (fun sequence s => sequence = (said sid).length + 1 ∧ Speaking t id check said s)
      fun _ s => InsertsNone t s.1 := by
  have hlock : Uses Modest (lockSession sid) := by
    refine Uses.bind (Uses.perform trivial) fun found => ?_
    cases found <;> trivial
  refine Triple.bind (triple_speaking hlock) fun _ => ?_
  refine Triple.bind (B := fun latest s => latest = (said sid).length ∧ Speaking t id check said s)
    ?_ fun latest => Triple.done ((Stable.const _).and stable_speaking) fun _ _ h => ⟨by rw [h.1], h.2⟩
  refine Triple.perform stable_speaking (fun _ => (Stable.const _).and stable_speaking)
    (fun _ => stable_insertsNone) (fun _ _ _ => trivial) ?_
  intro s choice r s' _ h _ _ hexec
  have hafter := h.exec (show Modest (.latestMessage sid) from trivial) hexec
  cases r with
  | error e => exact hafter.heard.free
  | ok latest =>
      obtain ⟨answer', kept, -, hsucceed⟩ := exec_ok (recording_eq_some hexec).1
      obtain ⟨rfl, -⟩ := Prod.mk.inj (Option.some.inj hsucceed)
      refine ⟨?_, hafter⟩
      rw [Db.latestMessage, h.heard.seen sid hsid]
      exact latest_of_prefix hsaid

/-- A row of the script is added to what the run sees. -/
theorem triple_insertMessage {m : Message} (hsid : check.sessionId = some m.sessionId)
    (hnext : said m.sessionId ++ [m] <+: script limits m.sessionId check.sopId answer) :
    Triple (scriptProtocol limits) t (Speaking t id check said) (await (.insertMessage m))
      (fun _ s => Heard t id check said (fun sid => said sid ++ [m]) s ∧ t ∈ invocations id s.2)
      fun _ s => InsertsNone t s.1 := by
  refine Triple.perform stable_speaking (fun _ => stable_heard stable_invoked
    fun s hinv h => claims_of_invoked hinv h) (fun _ => stable_insertsNone) ?_ ?_
  · intro s _ h
    obtain ⟨row, hrow, hrowSid, hsop⟩ := h.heard.named
    refine ⟨id, row, answer, h.invoked, hrow, hrowSid.trans hsid, ?_⟩
    rw [h.heard.seen m.sessionId hsid, hsop]
    exact hnext
  · intro s choice r s' _ h _ _ hexec
    obtain ⟨hstep, hrecord⟩ := recording_eq_some hexec
    have hnone := InsertsNone.exec h.heard.free (by simp) hstep
    cases r with
    | error e => exact hnone
    | ok reply =>
        obtain ⟨answer', kept, -, hsucceed⟩ := exec_ok hstep
        simp only [succeed] at hsucceed
        split at hsucceed
        · obtain ⟨w, hwrite, heq⟩ := Option.map_eq_some_iff.mp hsucceed
          obtain ⟨-, hw⟩ := Prod.mk.inj heq
          obtain ⟨store, hstore, rfl⟩ := write_eq_some hwrite
          obtain ⟨mid, hlocks, hrecorded⟩ := Store.write_eq_some hstore
          have hcommitted : s'.1.store.committed = s.1.store.committed := by
            rw [← hw]
            exact hrecorded ▸ hlocks.committed
          have hview : s'.1.view t = schema.apply (.insertMessage m) (s.1.view t) := by
            refine view_of_write ?_
            rw [← hw]
            exact hstore
          refine ⟨⟨hnone, hcommitted ▸ h.heard.named, fun sid hcheck => ?_, fun sid hcheck => ?_⟩,
            invocations_grow hrecord h.invoked⟩
          · rw [hcommitted, h.heard.said sid hcheck]
          · obtain rfl := Option.some.inj (hsid.symm.trans hcheck)
            rw [hview, messagesOf_insertMessage, h.heard.seen _ hcheck, if_pos rfl]
        · simp at hsucceed

/-- The commit publishes what the run sees. -/
theorem triple_publish :
    Triple (scriptProtocol limits) t
      (fun s => Heard t id check said seen s ∧ t ∈ invocations id s.2) (await .commit)
      (fun _ => Speaking t id check seen) fun _ s => InsertsNone t s.1 := by
  refine Triple.perform (stable_heard stable_invoked fun s hinv h => claims_of_invoked hinv h)
    (fun _ => stable_speaking) (fun _ => stable_insertsNone) (fun _ _ _ => trivial) ?_
  intro s choice r s' _ h _ _ hexec
  obtain ⟨hstep, hrecord⟩ := recording_eq_some hexec
  have hnone := InsertsNone.exec h.1.free (by simp) hstep
  cases r with
  | error e => exact hnone
  | ok reply =>
      have hcommitted := exec_commit hstep
      have hview : s'.1.view t = s.1.view t := by
        obtain ⟨answer', kept, -, hsucceed⟩ := exec_ok hstep
        obtain ⟨-, hw⟩ := Prod.mk.inj (Option.some.inj hsucceed)
        rw [← hw]
        simp [World.view, World.withStore, Store.view, Store.commit]
      refine ⟨⟨hnone, ?_, fun sid hcheck => ?_, fun sid hcheck => ?_⟩,
        invocations_grow hrecord h.2⟩
      · obtain ⟨row, hrow, hsid, hsop⟩ := h.1.named
        obtain ⟨row', hrow', hsid', hsop'⟩ := named_applyAll (s.1.store.pending t) _ id row hrow
        exact ⟨row', hcommitted ▸ hrow', hsid'.trans hsid, hsop'.trans hsop⟩
      · rw [hcommitted, h.1.seen sid hcheck]
      · rw [hview, h.1.seen sid hcheck]

/-- `append_step_message` adds the next row of the script. -/
theorem triple_appendStepMessage (c : Collaborators) (answer : String) {step content : String}
    {kwargs : Json}
    (hnext : ∀ sid, said sid ++ [stepRow sid ((said sid).length + 1) step content kwargs] <+:
      script limits sid check.sopId answer) :
    Triple (scriptProtocol limits) t (Speaking t id check said)
      (appendStepMessage c check.sessionId step "assistant" content kwargs)
      (fun _ => Speaking t id check fun sid =>
        said sid ++ [stepRow sid ((said sid).length + 1) step content kwargs])
      fun _ s => InsertsNone t s.1 := by
  cases hsid : check.sessionId with
  | none =>
      refine Triple.done stable_speaking fun s _ h => ⟨⟨h.heard.free, h.heard.named, ?_, ?_⟩, h.invoked⟩
      · simp [hsid]
      · simp [hsid]
  | some sid =>
      have hsaid := (List.prefix_append _ _).trans (hnext sid)
      refine Triple.bind (B := fun m s => Heard t id check said
        (fun sid => said sid ++ [stepRow sid ((said sid).length + 1) step content kwargs]) s ∧
          t ∈ invocations id s.2) ?_ fun m => ?_
      · refine Triple.bind (triple_nextMessageSequence hsid hsaid) fun sequence => ?_
        refine Triple.given fun hsequence => ?_
        subst hsequence
        refine (triple_insertMessage hsid (hnext sid)).weaken (fun _ _ h => h)
          (fun _ s _ h => ⟨⟨h.1.free, h.1.named, h.1.said, fun sid' hsid' => ?_⟩, h.2⟩)
          fun _ _ _ h => h
        obtain rfl := Option.some.inj (hsid.symm.trans hsid')
        exact h.1.seen sid hsid'
      · refine Triple.bind triple_publish fun _ => triple_speaking ?_
        split
        · exact Uses.perform trivial
        · trivial

end Appending

section Nodes

variable {limits : Limits} {t : TaskId} {id : CheckId} {check : SopQualityCheck} {answer : String}
  {c : Collaborators}

theorem modest_of_live {op : Op} (h : LiveOp op) : Modest op := by
  cases op <;> first | exact h.elim | trivial

theorem sopId_text (check : SopQualityCheck) :
    (((initialState check).get "sop_id").orElse
      (((initialState check).getD "sop_snapshot" (.obj [])).getD "sop_id" (.str ""))).text =
        check.sopId := by
  change ((Json.str check.sopId).orElse (.str "")).text = check.sopId
  unfold Json.orElse Json.truthy
  by_cases h : check.sopId = ""
  · simp [h, Json.text, Json.asStr?]
  · simp [h, Json.text, Json.asStr?]

/-- The rows that the first nodes add. -/
def afterLoad (check : SopQualityCheck) (sid : SessionId) : List Message :=
  [loadRow sid check.sopId]

def afterReview (check : SopQualityCheck) (answer : String) (sid : SessionId) : List Message :=
  [loadRow sid check.sopId, reviewRow sid answer]

def afterSummary (check : SopQualityCheck) (answer : String) (review : Review)
    (sid : SessionId) : List Message :=
  [loadRow sid check.sopId, reviewRow sid answer, summaryRow sid review.result]

theorem script_eq {review : Review} (h : reviewOf limits answer = some review) (sid : SessionId) :
    script limits sid check.sopId answer = afterSummary check answer review sid ++ [submitRow sid] := by
  simp [script, closing, h, afterSummary]

theorem triple_loadSop :
    Triple (scriptProtocol limits) t (Speaking t id check fun _ => [])
      (loadSop c check.sessionId (initialState check)) (fun _ => Speaking t id check (afterLoad check))
      fun _ s => InsertsNone t s.1 := by
  unfold loadSop
  dsimp only
  rw [sopId_text]
  refine Triple.bind (triple_speaking (Uses.perform trivial)) fun snapshot => ?_
  refine Triple.bind (B := fun _ => Speaking t id check (afterLoad check))
    (triple_appendStepMessage c "" fun sid => ?_) fun _ =>
      Triple.done stable_speaking fun _ _ h => h
  exact ⟨reviewRow sid "" :: closing limits sid "", rfl⟩

theorem triple_runStep (sessionId : Option SessionId) (streams : Bool) (payload : Json) :
    Triple (scriptProtocol limits) t (Speaking t id check (afterLoad check))
      (runStep c sessionId check.sessionId streams "review_sop" payload)
      (fun answer => Speaking t id check (afterReview check answer))
      fun _ s => InsertsNone t s.1 := by
  have hrest : ∀ answer, Triple (scriptProtocol limits) t (Speaking t id check (afterLoad check))
      (do
        appendStepMessage c check.sessionId "review_sop" "assistant" answer
          (.obj [("kind", .str "final_message"), ("step", .str "review_sop")])
        pure answer)
      (fun answer => Speaking t id check (afterReview check answer))
      fun _ s => InsertsNone t s.1 := by
    intro answer
    refine Triple.bind (B := fun _ => Speaking t id check (afterReview check answer))
      (triple_appendStepMessage c answer fun sid => ?_) fun _ =>
        Triple.done stable_speaking fun _ _ h => h
    exact ⟨closing limits sid answer, rfl⟩
  cases streams with
  | true =>
      refine Triple.bind (triple_speaking (Uses.perform trivial)) fun chunks => ?_
      exact Triple.bind (triple_speaking ((uses_publishChunks c _ _ _ _ _).mono fun _ =>
        modest_of_live)) hrest
  | false => exact Triple.bind (triple_speaking (Uses.perform trivial)) hrest

theorem triple_reviewSop (sessionId : Option SessionId) (state : Json) :
    Triple (scriptProtocol limits) t (Speaking t id check (afterLoad check))
      (reviewSop c sessionId check.sessionId state)
      (fun update s => ∃ answer, update = .obj [("review_output", .str answer)] ∧
        Speaking t id check (afterReview check answer) s)
      fun _ s => InsertsNone t s.1 := by
  refine Triple.bind (triple_speaking (Uses.perform trivial)) fun streams => ?_
  refine Triple.bind (triple_runStep _ _ _) fun answer => ?_
  exact Triple.done (Stable.exists fun _ => (Stable.const _).and stable_speaking)
    fun _ _ h => ⟨answer, rfl, h⟩

/-- The step that summarizes always gives a result. -/
theorem exists_result {output : Text} {update : SopQualityState}
    (h : summarizeResultState limits { reviewOutput := some output } = .ok update) :
    ∃ result, update.result = some result := by
  unfold summarizeResultState at h
  dsimp only at h
  split at h
  · obtain rfl := Except.ok.inj h
    exact ⟨_, rfl⟩
  · obtain ⟨reviewed, -, hpure⟩ := bind_ok h
    cases hpure
    exact ⟨_, rfl⟩

/-- What `summarize_result` adds to the state of the graph. -/
def Summarizes (limits : Limits) (answer : String) (review : Review) (update : Json) : Prop :=
  ∃ summary result, summarizeResultState limits { reviewOutput := some (ofString answer) } =
      .ok summary ∧ summary.result = some result ∧ update = .obj (stateEntries summary) ∧
    review = { result := writeResult result, qualityResult := summary.qualityResult.map verdictName }

theorem Summarizes.reviewOf {review : Review} {update : Json}
    (h : Summarizes limits answer review update) : reviewOf limits answer = some review := by
  obtain ⟨summary, result, hsummary, hresult, -, rfl⟩ := h
  simp [SopScripts.reviewOf, hsummary, hresult]

theorem triple_summarizeResult {state : Json}
    (hstate : readState state = { reviewOutput := some (ofString answer) }) :
    Triple (scriptProtocol limits) t (Speaking t id check (afterReview check answer))
      (summarizeResult (summarizing limits c) check.sessionId state)
      (fun update s => ∃ review, Summarizes limits answer review update ∧
        Speaking t id check (afterSummary check answer review) s)
      fun _ s => InsertsNone t s.1 := by
  have hstable : ∀ update, Stable (scriptProtocol limits) t fun s => ∃ review,
      Summarizes limits answer review update ∧
        Speaking t id check (afterSummary check answer review) s :=
    fun _ => Stable.exists fun _ => (Stable.const _).and stable_speaking
  unfold summarizeResult
  have hsummarize : (summarizing limits c).summarizeResultState state = summarizeState limits state :=
    rfl
  rw [hsummarize]
  unfold summarizeState
  rw [hstate]
  cases hsummary : summarizeResultState limits { reviewOutput := some (ofString answer) } with
  | error e => exact Triple.raise stable_insertsNone fun _ _ h => h.heard.free
  | ok summary =>
      obtain ⟨result, hresult⟩ := exists_result hsummary
      have hget : (Json.obj (stateEntries summary)).get "result" = writeResult result := by
        change ((stateEntries summary).lookup "result").getD .null = _
        simp [stateEntries, List.lookup_append, lookup_entry, hresult]
      dsimp only
      rw [hget]
      let review : Review :=
        { result := writeResult result, qualityResult := summary.qualityResult.map verdictName }
      have hsummarizes : Summarizes limits answer review (.obj (stateEntries summary)) :=
        ⟨summary, result, hsummary, hresult, rfl, rfl⟩
      refine Triple.bind (B := fun _ => Speaking t id check (afterSummary check answer review))
        (triple_appendStepMessage (summarizing limits c) answer fun sid => ?_) fun _ =>
          Triple.done (hstable _) fun _ _ h => ⟨review, hsummarizes, h⟩
      rw [script_eq hsummarizes.reviewOf]
      exact ⟨[submitRow sid], rfl⟩

theorem triple_submitResult {review : Review} (hreview : reviewOf limits answer = some review)
    (state : Json) :
    Triple (scriptProtocol limits) t (Speaking t id check (afterSummary check answer review))
      (submitResult c check.sessionId state)
      (fun _ => Speaking t id check fun sid => script limits sid check.sopId answer)
      fun _ s => InsertsNone t s.1 := by
  unfold submitResult
  split
  · exact Triple.raise stable_insertsNone fun _ _ h => h.heard.free
  · refine Triple.bind (B := fun _ => Speaking t id check fun sid =>
      script limits sid check.sopId answer) ?_ fun _ => Triple.done stable_speaking fun _ _ h => h
    simp only [script_eq hreview]
    refine triple_appendStepMessage c answer fun sid => ?_
    rw [script_eq hreview]
    exact List.prefix_refl _

/-- A node adds its update to the state, and LangGraph saves that. -/
theorem triple_runNode {ι : Type} {φ : Json → ι → Prop} {said : SessionId → List Message}
    {lines : ι → SessionId → List Message} {node : Json → Program Json} {state : Json}
    (h : Triple (scriptProtocol limits) t (Speaking t id check said) (node state)
      (fun update s => ∃ x, φ update x ∧ Speaking t id check (lines x) s)
      fun _ s => InsertsNone t s.1) :
    Triple (scriptProtocol limits) t (Speaking t id check said) (runNode node state)
      (fun state' s => Returns (runNode node state) state' ∧
        ∃ x, (∃ update, φ update x ∧ state' = state.merge update) ∧
          Speaking t id check (lines x) s)
      fun _ s => InsertsNone t s.1 := by
  refine Triple.returns (Triple.bind h fun update => Triple.exists fun x => Triple.given fun hφ => ?_)
  refine Triple.bind (triple_speaking (Uses.perform trivial)) fun _ => ?_
  exact Triple.done (Stable.exists fun _ => (Stable.const _).and stable_speaking)
    fun _ _ h => ⟨x, ⟨update, hφ, rfl⟩, h⟩

theorem triple_runNode_plain {said lines : SessionId → List Message} {node : Json → Program Json}
    {state : Json}
    (h : Triple (scriptProtocol limits) t (Speaking t id check said) (node state)
      (fun _ => Speaking t id check lines) fun _ s => InsertsNone t s.1) :
    Triple (scriptProtocol limits) t (Speaking t id check said) (runNode node state)
      (fun state' s => Returns (runNode node state) state' ∧ Speaking t id check lines s)
      fun _ s => InsertsNone t s.1 := by
  refine Triple.returns (Triple.bind h fun update => ?_)
  refine Triple.bind (triple_speaking (Uses.perform trivial)) fun _ => ?_
  exact Triple.done stable_speaking fun _ _ h => h

end Nodes

section Graph

variable {limits : Limits} {c : Collaborators} {check : SopQualityCheck}
  {sessionId writer : Option SessionId}

/-- The state after the step that reviews holds the answer. -/
theorem reviewed_answer {loaded : Json} {answer : String}
    (hload : Returns (runNode (loadSop c writer) (initialState check)) loaded) :
    ((loaded.merge (.obj [("review_output", .str answer)])).get "review_output").text = answer := by
  obtain ⟨_, hupdate, hloaded⟩ := returns_runNode.mp hload
  obtain ⟨_, _, rfl⟩ := loadSop_update hupdate
  unfold initialState at hloaded
  rw [hloaded, Json.merge_obj, Json.merge_obj, Json.get_overlay]
  rfl

theorem lookup_checkId (summary : SopQualityState) (result : SopQualityReviewResult) :
    (stateEntries summary).reverse.lookup "check_id" = none ∧
      (resultEntries result).reverse.lookup "check_id" = none := by
  simp [stateEntries, resultEntries, List.lookup_append, lookup_entry, reverse_entry]

/-- The check is still named in the state of the graph when its result is submitted. -/
theorem summarized_checkId {loaded reviewed : Json} {summary : SopQualityState}
    (hload : Returns (runNode (loadSop c writer) (initialState check)) loaded)
    (hreview : Returns (runNode (reviewSop c sessionId writer) loaded) reviewed) :
    (reviewed.merge (.obj (stateEntries summary))).get "check_id" = .str (toString check.id) := by
  obtain ⟨_, hload, hloaded⟩ := returns_runNode.mp hload
  obtain ⟨snapshot, messages, rfl⟩ := loadSop_update hload
  obtain ⟨_, hreview, hreviewed⟩ := returns_runNode.mp hreview
  obtain ⟨text, rfl⟩ := reviewSop_update hreview
  unfold initialState at hloaded
  rw [hloaded, Json.merge_obj, Json.merge_obj] at hreviewed
  rw [hreviewed, Json.merge_obj, Json.get_overlay, (lookup_checkId summary {}).1, Json.get_overlay,
    Json.get_overlay]
  rfl

/-- What a run of the graph that ends normally gives to `mark_terminal`. -/
theorem final_state (run : GraphRun (summarizing limits c) sessionId writer (initialState check)) :
    ∃ review, reviewOf limits run.reviewOutput = some review ∧
      (run.final.get "result").asObj? = some (storedResult check.id review) ∧
      (run.final.get "quality_result").asStr? = review.qualityResult := by
  obtain ⟨entries, hentries, hread, hverdict, hnone⟩ := reviewed_state run.load run.review
  obtain ⟨_, hsummarize, hsummarized⟩ := returns_runNode.mp run.summarize
  have hstate := summarizeResult_update hsummarize
  change summarizeState limits run.reviewed = _ at hstate
  unfold summarizeState at hstate
  rw [hread] at hstate
  cases hsummary : summarizeResultState limits
      { reviewOutput := some (ofString (run.reviewed.get "review_output").text) } with
  | error e => simp [hsummary] at hstate
  | ok summary =>
      rw [hsummary] at hstate
      obtain rfl := Except.ok.inj hstate
      obtain ⟨result, hresult⟩ := exists_result hsummary
      have hpresent : run.summarized.get "result" = writeResult result := by
        rw [hsummarized, summarized_result hentries hnone, hresult]
        rfl
      have hid : run.summarized.get "check_id" = .str (toString check.id) := by
        rw [hsummarized]
        exact summarized_checkId run.load run.review
      have hpayload : (submissionPayload run.summarized (.obj (resultEntries result))).get
          "check_id" = .str (toString check.id) := by
        unfold submissionPayload
        rw [Json.merge_obj, Json.get_overlay, (lookup_checkId {} result).2]
        exact hid
      obtain ⟨_, hsubmit, hfinal⟩ := returns_runNode.mp run.submit
      obtain ⟨stored, hstored, rfl⟩ := submitResult_update hsubmit
      rw [hpresent] at hstored
      obtain rfl := Option.some.inj hstored
      rw [hentries, Json.merge_obj] at hsummarized
      rw [hentries] at hverdict
      refine ⟨{ result := writeResult result, qualityResult := summary.qualityResult.map verdictName },
        by simp [reviewOf, GraphRun.reviewOutput, hsummary, hresult], ?_, ?_⟩
      · rw [hfinal, hsummarized, Json.merge_obj, Json.get_overlay, ← hsummarized]
        change ((writeResult result).set "submission_result" (mockExternalSubmit _)).asObj? = _
        unfold mockExternalSubmit
        rw [hpayload]
        rfl
      · rw [hfinal, hsummarized, Json.merge_obj, Json.get_overlay]
        change ((Json.obj (Json.overlay entries (stateEntries summary))).get _).asStr? = _
        rw [Json.get_overlay, (lookup_stateEntries summary).1, hverdict]
        exact asStr_writeVerdict _

variable {t : TaskId} {id : CheckId}

/-- The graph has ended normally, on that answer and review. -/
structure Final (limits : Limits) (check : SopQualityCheck) (final : Json) (answer : String)
    (review : Review) : Prop where
  reviewed : reviewOf limits answer = some review
  result : (final.get "result").asObj? = some (storedResult check.id review)
  qualityResult : (final.get "quality_result").asStr? = review.qualityResult

/-- When the graph ends normally, the conversation is the whole script of some answer. -/
theorem triple_ainvoke :
    Triple (scriptProtocol limits) t (Speaking t id check fun _ => [])
      (ainvoke (summarizing limits c) check.sessionId check.sessionId (initialState check))
      (fun final s => ∃ answer review, Final limits check final answer review ∧
        Speaking t id check (fun sid => script limits sid check.sopId answer) s)
      fun _ s => InsertsNone t s.1 := by
  refine Triple.bind (triple_speaking (Uses.perform trivial)) fun _ => ?_
  refine Triple.bind (triple_runNode_plain triple_loadSop) fun loaded =>
    Triple.given fun hload => ?_
  refine Triple.bind (triple_runNode (triple_reviewSop check.sessionId loaded)) fun reviewed =>
    Triple.given fun hreview => Triple.exists fun answer => Triple.given fun hupdate => ?_
  obtain ⟨_, rfl, hreviewed⟩ := hupdate
  have hanswer : (reviewed.get "review_output").text = answer := hreviewed ▸ reviewed_answer hload
  obtain ⟨_, -, hread, -⟩ := reviewed_state hload hreview
  rw [hanswer] at hread
  refine Triple.bind (triple_runNode (triple_summarizeResult hread)) fun summarized =>
    Triple.given fun hsummarize => Triple.exists fun review => Triple.given fun hsummary => ?_
  obtain ⟨_, hsummary, -⟩ := hsummary
  refine (triple_runNode_plain (triple_submitResult hsummary.reviewOf summarized)).weaken
    (fun _ _ h => h) ?_ fun _ _ _ h => h
  rintro final s - ⟨hsubmit, hspeaking⟩
  obtain ⟨review', hreview', hresult, hquality⟩ :=
    final_state ⟨loaded, reviewed, summarized, final, hload, hreview, hsummarize, hsubmit⟩
  rw [GraphRun.reviewOutput, hanswer] at hreview'
  exact ⟨answer, review', ⟨hreview', hresult, hquality⟩, hspeaking⟩

end Graph

end ChangeQuality.SopConversations
