import ChangeQuality.SopRunners
import ChangeQuality.SopScripts
import ChangeQuality.SopLinks

/-!
The conversation of a check under all interleavings. Only the run that has published the status
running writes into the session of its check, so that the session stays within the script of the
graph, and the check records a result for a complete conversation only.
-/

namespace ChangeQuality.SopTranscripts

open ChangeQuality.JsonDecoding (Limits)
open ChangeQuality.SopTables
open ChangeQuality.SopRepository
open ChangeQuality.SopSystem
open ChangeQuality.SopEffects
open ChangeQuality.SopInvariant
open ChangeQuality.SopTransactions
open ChangeQuality.SopLinks
open ChangeQuality.SopRunners
open ChangeQuality.SopScripts
open ChangeQuality.Histories
open ChangeQuality.ReadCommitted
open ChangeQuality.Coroutine
open ChangeQuality.Interference

/-- A write that changes no check. -/
def SparesChecks : Write → Prop
  | .insertCheck _ | .updateCheck _ _ => False
  | _ => True

/-- The transaction has inserted no check. -/
def InsertsNone (t : TaskId) (w : World) : Prop :=
  ∀ row, .insertCheck row ∉ w.store.pending t

/-- The check that a transaction inserts is all that it does to checks, and comes with a session that
it has made. -/
structure Inserted (t : TaskId) (row : SopQualityCheck) (w : World) : Prop where
  only : ∀ wr ∈ w.store.pending t, wr = .insertCheck row ∨ SparesChecks wr
  pending : row.status = .pending
  unrecorded : Unrecorded row
  session : ∀ sid, row.sessionId = some sid →
    w.store.committed.session sid = none ∧ w.store.owner (.session sid) = some t

/-- The task runs the graph of a check, whose conversation is complete, and the update records what
it comes to. -/
def Justified (limits : Limits) (t : TaskId) (id : CheckId) (patch : CheckPatch)
    (s : Recorded) : Prop :=
  ∀ row sid, s.1.store.committed.check id = some row → row.sessionId = some sid →
    t ∈ invocations id s.2 ∧
      Concludes limits sid (s.1.store.committed.messagesOf sid) id row.sopId patch

/-- What holds between any two steps. -/
structure Scripted (limits : Limits) (s : Recorded) : Prop where
  told : Transcribed limits s.1.store.committed
  unshared : Unshared s.1.store.committed
  foreign : MessagesLinked s.1.store.committed
  inserts : ∀ t row, .insertCheck row ∈ s.1.store.pending t → Inserted t row s.1
  messages : ∀ t m, .insertMessage m ∈ s.1.store.pending t → ∃ id row, t ∈ invocations id s.2 ∧
    s.1.store.committed.check id = some row ∧ row.sessionId = some m.sessionId
  spoken : ∀ t id row sid, t ∈ invocations id s.2 → s.1.store.committed.check id = some row →
    row.sessionId = some sid →
      ∃ answer, (s.1.view t).messagesOf sid <+: script limits sid row.sopId answer
  patches : ∀ t id patch, .updateCheck id patch ∈ s.1.store.pending t →
    Unspoken patch ∨ Justified limits t id patch s
  active : ∀ t id row sid, (s.1.view t).check id = some row → row.sessionId = some sid →
    row.status.active = true → Unrecorded row

/-- The task has set the check to running, or has published that. -/
def Claims (t : TaskId) (id : CheckId) (s : Recorded) : Prop :=
  HasSetRunning t id s.1 ∨ runner id s.2 = some t

/-- Every check is still there, with its session and its SOP. -/
def Named (db db' : Db) : Prop :=
  ∀ id row, db.check id = some row → ∃ row', db'.check id = some row' ∧
    row'.sessionId = row.sessionId ∧ row'.sopId = row.sopId

/-- What a task may rely on about conversations: nobody else speaks in that of its check. -/
structure Listens (t : TaskId) (s s' : Recorded) : Prop where
  named : Named s.1.store.committed s'.1.store.committed
  alone : ∀ id row sid, Claims t id s → s.1.store.committed.check id = some row →
    row.sessionId = some sid →
      Claims t id s' ∧ s'.1.store.committed.messagesOf sid = s.1.store.committed.messagesOf sid

/-- What a task must have established before an operation. -/
def Speaks (limits : Limits) (t : TaskId) (op : Op) (s : Recorded) : Prop :=
  match op with
  | .insertMessage m => ∃ id row answer, t ∈ invocations id s.2 ∧
      s.1.store.committed.check id = some row ∧ row.sessionId = some m.sessionId ∧
      (s.1.view t).messagesOf m.sessionId ++ [m] <+: script limits m.sessionId row.sopId answer
  | .updateCheck check patch => InsertsNone t s.1 ∧
      (Unspoken (patch.net check) ∨ Justified limits t check.id (patch.net check) s)
  | .insertCheck values => (∀ wr ∈ s.1.store.pending t, SparesChecks wr) ∧
      ∀ sid, values.sessionId = some sid →
        s.1.store.committed.session sid = none ∧ s.1.store.owner (.session sid) = some t
  | _ => True

theorem Named.refl (db : Db) : Named db db :=
  fun _ row h => ⟨row, h, rfl, rfl⟩

theorem Named.trans {db₁ db₂ db₃ : Db} (h : Named db₁ db₂) (h' : Named db₂ db₃) :
    Named db₁ db₃ := by
  intro id row hrow
  obtain ⟨row₂, hrow₂, hsid₂, hsop₂⟩ := h id row hrow
  obtain ⟨row₃, hrow₃, hsid₃, hsop₃⟩ := h' id row₂ hrow₂
  exact ⟨row₃, hrow₃, hsid₃.trans hsid₂, hsop₃.trans hsop₂⟩

theorem named_applyAll (ws : List Write) (db : Db) : Named db (applyAll schema ws db) := by
  intro id row hrow
  exact check_applyAll (φ := fun row' => row'.sessionId = row.sessionId ∧ row'.sopId = row.sopId)
    (fun _ _ _ h => h) hrow ⟨rfl, rfl⟩

theorem Listens.refl (t : TaskId) (s : Recorded) : Listens t s s :=
  ⟨.refl _, fun _ _ _ h _ _ => ⟨h, rfl⟩⟩

theorem Listens.trans {t : TaskId} {s₁ s₂ s₃ : Recorded} (h : Listens t s₁ s₂)
    (h' : Listens t s₂ s₃) : Listens t s₁ s₃ := by
  refine ⟨h.named.trans h'.named, fun id row sid hclaims hrow hsid => ?_⟩
  obtain ⟨hclaims₂, hsame₂⟩ := h.alone id row sid hclaims hrow hsid
  obtain ⟨row₂, hrow₂, hsid₂, -⟩ := h.named id row hrow
  obtain ⟨hclaims₃, hsame₃⟩ := h'.alone id row₂ sid hclaims₂ hrow₂ (hsid₂.trans hsid)
  exact ⟨hclaims₃, hsame₃.trans hsame₂⟩

section Views

variable {limits : Limits} {t t' : TaskId} {s : Recorded} {id : CheckId} {row : SopQualityCheck}
  {sid : SessionId}

/-- A task that runs the graph of a check has published the status running. -/
theorem runner_of_invoked (h : Elected s) (hmem : t ∈ invocations id s.2) :
    runner id s.2 = some t := by
  rcases h.once id with hnone | ⟨t', hrunner, honce⟩
  · simp [hnone] at hmem
  · obtain rfl : t = t' := by simpa [honce] using hmem
    exact hrunner

/-- Nobody runs the graph of a check that another task claims. -/
theorem Claims.invoked (h : Claims t id s) (helected : Elected s)
    (hmem : t' ∈ invocations id s.2) : t' = t := by
  have hrunner := runner_of_invoked helected hmem
  rcases h with hset | hwon
  · simp [helected.unpublished hset] at hrunner
  · exact Option.some.inj (hrunner.symm.trans hwon)

/-- The messages of a session that a transaction sees. -/
theorem view_messages : (s.1.view t).messagesOf sid =
    s.1.store.committed.messagesOf sid ++ sent sid (s.1.store.pending t) :=
  messagesOf_applyAll _

/-- Whoever adds to the session of a check runs its graph. -/
theorem Scripted.invoked (h : Scripted limits s) {m : Message}
    (hm : m ∈ sent sid (s.1.store.pending t)) (hrow : s.1.store.committed.check id = some row)
    (hsid : row.sessionId = some sid) : t ∈ invocations id s.2 := by
  obtain ⟨hmem, rfl⟩ := mem_sent hm
  obtain ⟨id', row', hinvoked, hrow', hsid'⟩ := h.messages t m hmem
  obtain rfl := h.unshared id id' row row' m.sessionId hrow hrow' hsid hsid'
  exact hinvoked

theorem Scripted.silent (h : Scripted limits s) (hrow : s.1.store.committed.check id = some row)
    (hsid : row.sessionId = some sid) (hnot : t ∉ invocations id s.2) :
    (s.1.view t).messagesOf sid = s.1.store.committed.messagesOf sid := by
  have hnone : sent sid (s.1.store.pending t) = [] :=
    List.eq_nil_iff_forall_not_mem.mpr fun m hm => hnot (h.invoked hm hrow hsid)
  rw [view_messages, hnone, List.append_nil]

/-- No transaction sees messages of a session that is not in the tables. -/
theorem Scripted.unheard (h : Scripted limits s) (hlinked : Linked s.1.store.committed)
    (hnone : s.1.store.committed.session sid = none) : (s.1.view t).messagesOf sid = [] := by
  rw [view_messages, h.foreign sid hnone, List.nil_append]
  refine List.eq_nil_iff_forall_not_mem.mpr fun m hm => ?_
  obtain ⟨hmem, rfl⟩ := mem_sent hm
  obtain ⟨id, row, -, hrow, hsid⟩ := h.messages t m hmem
  have hpresent := hlinked id row m.sessionId hrow hsid
  simp [Present, hnone] at hpresent

/-- A check that a transaction sees is committed, or is the one that it has inserted. -/
theorem Scripted.inserted_or_committed (h : Scripted limits s)
    (hrow : (s.1.view t).check id = some row) :
    (∃ row₀, s.1.store.committed.check id = some row₀ ∧ row.sessionId = row₀.sessionId ∧
      row.sopId = row₀.sopId) ∨
      s.1.store.committed.check id = none ∧ .insertCheck row ∈ s.1.store.pending t := by
  cases hrow₀ : s.1.store.committed.check id with
  | some row₀ =>
      obtain ⟨row', hrow', hsid, hsop⟩ := named_applyAll (s.1.store.pending t) _ id row₀ hrow₀
      obtain rfl : row = row' := Option.some.inj (Eq.trans (Eq.symm hrow) hrow')
      exact .inl ⟨row₀, rfl, hsid, hsop⟩
  | none =>
      obtain ⟨ins, hins, -, -⟩ := inserted_of_view hrow₀ hrow
      have honly := (h.inserts t ins hins).only
      have hkeeps : ∀ row, (s.1.view t).check id = some row → row = ins := by
        refine applyAll_keeps (φ := fun db : Db => ∀ row, db.check id = some row → row = ins) ?_ ?_
        · intro wr hwr db h row hrow
          rcases honly wr hwr with rfl | hspares
          · rw [check_insertCheck] at hrow
            rcases Option.or_eq_some_iff.mp hrow with hrow | ⟨-, hrow⟩
            · exact h row hrow
            · split at hrow
              · exact (Option.some.inj hrow).symm
              · simp at hrow
          · cases wr <;> first | exact hspares.elim | exact h row hrow
        · simp [hrow₀]
      exact .inr ⟨rfl, hkeeps row hrow ▸ hins⟩

/-- What a transaction sees of a conversation keeps to the script. -/
theorem Scripted.spoken_view (h : Scripted limits s)
    (hrow : s.1.store.committed.check id = some row) (hsid : row.sessionId = some sid) :
    ∃ answer, (s.1.view t).messagesOf sid <+: script limits sid row.sopId answer := by
  by_cases hinvoked : t ∈ invocations id s.2
  · exact h.spoken t id row sid hinvoked hrow hsid
  · rw [h.silent hrow hsid hinvoked]
    exact (h.told id row sid hrow hsid).spoken

/-- A check that its transaction has written agrees with the conversation that the transaction
sees. -/
theorem Scripted.records_view (h : Scripted limits s) {row₀ : SopQualityCheck}
    (hrow₀ : s.1.store.committed.check id = some row₀) (hsid₀ : row₀.sessionId = some sid)
    (hrow : (s.1.view t).check id = some row) :
    Records limits sid ((s.1.view t).messagesOf sid) row := by
  have hspoken := h.spoken_view (t := t) hrow₀ hsid₀
  generalize hlines : (s.1.view t).messagesOf sid = lines at hspoken ⊢
  have hgrown : s.1.store.committed.messagesOf sid <+: lines := by
    rw [← hlines, view_messages]
    exact List.prefix_append _ _
  have hkeeps : ∀ patch, .updateCheck id patch ∈ s.1.store.pending t → ∀ row,
      row.id = id ∧ row.sopId = row₀.sopId ∧ Records limits sid lines row →
        (patch.apply row).id = id ∧ (patch.apply row).sopId = row₀.sopId ∧
          Records limits sid lines (patch.apply row) := by
    rintro patch hpatch row ⟨rfl, hsop, hrecords⟩
    refine ⟨rfl, hsop, ?_⟩
    rcases h.patches t row.id patch hpatch with hplain | hjustified
    · exact hrecords.unspoken hplain
    · obtain ⟨-, answer, review, hreview, hwhole, hrest⟩ := hjustified row₀ sid hrow₀ hsid₀
      obtain ⟨answer', hanswer'⟩ := hspoken
      have hmaximal := script_maximal (hwhole ▸ hgrown) hanswer'
      exact hrecords.concludes ⟨answer, review, hreview, hsop ▸ hmaximal, hrest⟩
  obtain ⟨row', hrow', -, -, hrecords⟩ := check_applyAll hkeeps hrow₀ ⟨Db.check_id hrow₀, rfl,
    (h.told id row₀ sid hrow₀ hsid₀).records.grow hgrown hspoken⟩
  obtain rfl : row = row' := Option.some.inj (Eq.trans (Eq.symm hrow) hrow')
  exact hrecords

/-- What a transaction sees may be committed. -/
theorem Scripted.told_view (h : Scripted limits s) (hcoherent : Coherent s.1)
    (helected : Elected s) (t : TaskId) : Transcribed limits (s.1.view t) := by
  intro id row sid hrow hsid
  rcases h.inserted_or_committed hrow with ⟨row₀, hrow₀, hsid₀, hsop₀⟩ | ⟨-, hmem⟩
  · rw [hsid₀] at hsid
    refine
      { pending := fun hstatus => ?_
        spoken := hsop₀ ▸ h.spoken_view hrow₀ hsid
        active := h.active t id row sid hrow (hsid₀.trans hsid)
        records := h.records_view hrow₀ hsid hrow }
    have hpending := hcoherent.pending_committed hrow₀ hrow hstatus
    have hnot : t ∉ invocations id s.2 := by
      intro hmem
      obtain ⟨row', hrow', hne⟩ := helected.published id t (runner_of_invoked helected hmem)
      exact hne (Option.some.inj (hrow₀.symm.trans hrow') ▸ hpending)
    rw [h.silent hrow₀ hsid hnot]
    exact (h.told id row₀ sid hrow₀ hsid).pending hpending
  · have hins := h.inserts t row hmem
    have hnone : (s.1.view t).messagesOf sid = [] :=
      h.unheard hcoherent.linked (hins.session sid hsid).1
    exact
      { pending := fun _ => hnone
        spoken := ⟨"", hnone ▸ List.nil_prefix⟩
        active := fun _ => hins.unrecorded
        records := ⟨.inl hins.unrecorded, fun hstatus => by simp [hins.pending] at hstatus⟩ }

end Views

section Steps

variable {limits : Limits} {t t' : TaskId} {op : Op} {choice : Choice} {r : Except Exn (Reply op)}
  {s s' : Recorded} {failed : Prop}

theorem invocations_grow {id : CheckId} (hrecord : s'.2 = s.2 ++ entries t op r s.1)
    (h : t' ∈ invocations id s.2) : t' ∈ invocations id s'.2 := by
  rw [hrecord, invocations_append]
  exact List.mem_append_left _ h

theorem invocations_new {id : CheckId} (hrecord : s'.2 = s.2 ++ entries t op r s.1)
    (h : t' ∈ invocations id s'.2) :
    t' ∈ invocations id s.2 ∨ t' = t ∧ op = .note (.started id) := by
  rw [hrecord, invocations_append, List.mem_append] at h
  refine h.imp_right fun hmem => ?_
  obtain ⟨hop, ht⟩ := mem_entries_invoked (mem_invocations.mp hmem)
  exact ⟨ht, hop⟩

theorem Justified.later {id : CheckId} {patch : CheckPatch} (h : Justified limits t' id patch s)
    (hrecord : s'.2 = s.2 ++ entries t op r s.1)
    (hcommitted : s'.1.store.committed = s.1.store.committed) :
    Justified limits t' id patch s' := by
  intro row sid hrow hsid
  rw [hcommitted] at hrow ⊢
  obtain ⟨hinvoked, hconcludes⟩ := h row sid hrow hsid
  exact ⟨invocations_grow hrecord hinvoked, hconcludes⟩

/-- Every step looks to the other tasks like something that they rely on. -/
theorem Scripted.listens (h : Scripted limits s) (hcoherent : Coherent s.1) (helected : Elected s)
    (hexec : exec t op choice s.1 = some (r, s'.1))
    (hrecord : s'.2 = s.2 ++ entries t op r s.1) (hne : t' ≠ t) : Listens t' s s' := by
  have houtcome := exec_outcome hexec
  have hrely := hcoherent.rely houtcome hne
  refine ⟨?_, fun id row sid hclaims hrow hsid => ⟨?_, ?_⟩⟩
  · rcases committed_of_effect houtcome.effect with heq | ⟨-, -, heq⟩
    · exact heq ▸ .refl _
    · exact heq ▸ named_applyAll _ _
  · rcases hclaims with ⟨wr, hwr, hset⟩ | hrunner
    · exact .inl ⟨wr, hrely.pending ▸ hwr, hset⟩
    · exact .inr (hrecord ▸ runner_append hrunner)
  · rcases committed_of_effect houtcome.effect with heq | ⟨-, -, heq⟩
    · rw [heq]
    · rw [heq]
      exact h.silent hrow hsid fun hmem => hne (hclaims.invoked helected hmem).symm

theorem Scripted.committed (h : Scripted limits s) (hcoherent : Coherent s.1)
    (helected : Elected s) (heffect : Effect t s.1 s'.1 failed op) :
    Transcribed limits s'.1.store.committed ∧ Unshared s'.1.store.committed ∧
      MessagesLinked s'.1.store.committed := by
  rcases committed_of_effect heffect with heq | ⟨-, -, heq⟩
  · exact heq ▸ ⟨h.told, h.unshared, h.foreign⟩
  rw [heq]
  refine ⟨h.told_view hcoherent helected t, unshared_applyAll h.unshared hcoherent.linked
    fun row hrow => ⟨fun row' hrow' => ?_, fun sid hsid => ?_⟩, fun sid hnone => ?_⟩
  · rcases (h.inserts t row hrow).only _ hrow' with heq | hspares
    · exact Write.insertCheck.inj heq
    · exact hspares.elim
  · exact ((h.inserts t row hrow).session sid hsid).1
  · refine h.unheard hcoherent.linked (Option.not_isSome_iff_eq_none.mp fun hpresent => ?_)
    have hlater := (extends_applyAll (s.1.store.pending t) _).session sid hpresent
    rw [Present, show (applyAll schema _ _).session sid = none from hnone] at hlater
    cases hlater

/-- What the task itself has inserted after its operation. -/
theorem Scripted.inserts_own (h : Scripted limits s) (hspeaks : Speaks limits t op s)
    (heffect : Effect t s.1 s'.1 failed op) {row : SopQualityCheck}
    (hrow : .insertCheck row ∈ s'.1.store.pending t) : Inserted t row s'.1 := by
  have hkeeps := (keeps_own heffect).resolve_left (List.ne_nil_of_mem hrow)
  rcases pending_of_effect heffect with ⟨heq, hcommitted⟩ | heq | ⟨wr, -, hwr, hcommitted, heq⟩
  · have hins := h.inserts t row (heq ▸ hrow)
    exact ⟨fun wr hwr => hins.only wr (heq ▸ hwr), hins.pending, hins.unrecorded, fun sid hsid =>
      ⟨hcommitted ▸ (hins.session sid hsid).1, hkeeps _ (hins.session sid hsid).2⟩⟩
  · simp [heq] at hrow
  rw [heq, List.mem_append, List.mem_singleton] at hrow
  rcases hrow with hrow | rfl
  · have hins := h.inserts t row hrow
    refine ⟨fun wr' hwr' => ?_, hins.pending, hins.unrecorded, fun sid hsid =>
      ⟨hcommitted ▸ (hins.session sid hsid).1, hkeeps _ (hins.session sid hsid).2⟩⟩
    rw [heq, List.mem_append, List.mem_singleton] at hwr'
    rcases hwr' with hwr' | rfl
    · exact hins.only wr' hwr'
    · cases hwr with
      | updateCheck => exact absurd hrow (hspeaks.1 row)
      | insertCheck _ _ => exact (hspeaks.1 _ hrow).elim
      | _ => exact .inr trivial
  · cases hwr with
    | insertCheck _ _ =>
        refine ⟨fun wr' hwr' => ?_, rfl, ⟨rfl, rfl⟩, fun sid hsid =>
          ⟨hcommitted ▸ (hspeaks.2 sid hsid).1, hkeeps _ (hspeaks.2 sid hsid).2⟩⟩
        rw [heq, List.mem_append, List.mem_singleton] at hwr'
        exact hwr'.symm.imp_right fun hold => hspeaks.1 wr' hold

theorem Scripted.messages_own (h : Scripted limits s) (hspeaks : Speaks limits t op s)
    (heffect : Effect t s.1 s'.1 failed op) (hrecord : s'.2 = s.2 ++ entries t op r s.1)
    {m : Message} (hm : .insertMessage m ∈ s'.1.store.pending t) :
    ∃ id row, t ∈ invocations id s'.2 ∧ s'.1.store.committed.check id = some row ∧
      row.sessionId = some m.sessionId := by
  have hold : .insertMessage m ∈ s.1.store.pending t →
      s'.1.store.committed = s.1.store.committed → ∃ id row, t ∈ invocations id s'.2 ∧
        s'.1.store.committed.check id = some row ∧ row.sessionId = some m.sessionId := by
    intro hm hcommitted
    obtain ⟨id, row, hinvoked, hrow, hsid⟩ := h.messages t m hm
    exact ⟨id, row, invocations_grow hrecord hinvoked, hcommitted ▸ hrow, hsid⟩
  rcases pending_of_effect heffect with ⟨heq, hcommitted⟩ | heq | ⟨wr, -, hwr, hcommitted, heq⟩
  · exact hold (heq ▸ hm) hcommitted
  · simp [heq] at hm
  rw [heq, List.mem_append, List.mem_singleton] at hm
  rcases hm with hm | rfl
  · exact hold hm hcommitted
  · cases hwr with
    | insertMessage _ =>
        obtain ⟨id, row, answer, hinvoked, hrow, hsid, -⟩ := hspeaks
        exact ⟨id, row, invocations_grow hrecord hinvoked, hcommitted ▸ hrow, hsid⟩

theorem Scripted.patches_own (h : Scripted limits s) (hspeaks : Speaks limits t op s)
    (heffect : Effect t s.1 s'.1 failed op) (hrecord : s'.2 = s.2 ++ entries t op r s.1)
    {id : CheckId} {patch : CheckPatch} (hpatch : .updateCheck id patch ∈ s'.1.store.pending t) :
    Unspoken patch ∨ Justified limits t id patch s' := by
  rcases pending_of_effect heffect with ⟨heq, hcommitted⟩ | heq | ⟨wr, -, hwr, hcommitted, heq⟩
  · exact (h.patches t id patch (heq ▸ hpatch)).imp_right fun hj => hj.later hrecord hcommitted
  · simp [heq] at hpatch
  rw [heq, List.mem_append, List.mem_singleton] at hpatch
  rcases hpatch with hpatch | rfl
  · exact (h.patches t id patch hpatch).imp_right fun hj => hj.later hrecord hcommitted
  · cases hwr with
    | updateCheck => exact hspeaks.2.imp_right fun hj => hj.later hrecord hcommitted

theorem Scripted.spoken_own (h : Scripted limits s) (hspeaks : Speaks limits t op s)
    (htold : Transcribed limits s'.1.store.committed) (heffect : Effect t s.1 s'.1 failed op)
    {id : CheckId} {row : SopQualityCheck} {sid : SessionId}
    (hrow : s'.1.store.committed.check id = some row) (hsid : row.sessionId = some sid) :
    ∃ answer, (s'.1.view t).messagesOf sid <+: script limits sid row.sopId answer := by
  rcases view_of_effect heffect with heq | ⟨heq, hended, -⟩ | ⟨wr, hwr, hwrite, heq⟩
  · rcases committed_of_effect heffect with hcommitted | ⟨-, -, hcommitted⟩
    · exact heq ▸ h.spoken_view (hcommitted ▸ hrow) hsid
    · rw [heq, ← hcommitted]
      exact (htold id row sid hrow hsid).spoken
  · rcases committed_of_effect heffect with hcommitted | ⟨rfl, hok, -⟩
    · rw [heq, ← hcommitted]
      exact (htold id row sid hrow hsid).spoken
    · simp [hok] at hended
  · have hcommitted : s'.1.store.committed = s.1.store.committed := by
      obtain ⟨mid, hlocks, hrecord⟩ := Store.write_eq_some hwrite
      rw [hrecord, Store.record_committed, hlocks.committed]
    rw [hcommitted] at hrow
    have hspoken := h.spoken_view (t := t) hrow hsid
    rw [heq, messagesOf_apply]
    cases hwr with
    | @insertMessage m _ =>
        obtain ⟨id', row', answer, -, hrow', hsid', hnext⟩ := hspeaks
        by_cases hm : m.sessionId = sid
        · subst hm
          obtain rfl := h.unshared id id' row row' m.sessionId hrow hrow' hsid hsid'
          obtain rfl := Option.some.inj (hrow.symm.trans hrow')
          exact ⟨answer, by simpa [sent] using hnext⟩
        · simpa [sent, hm] using hspoken
    | _ => simpa [sent] using hspoken

/-- What the task itself sees of a check without an outcome has no result after its operation. -/
theorem Scripted.active_own (h : Scripted limits s) (hspeaks : Speaks limits t op s)
    (hpre : Discipline t op s.1) (heffect : Effect t s.1 s'.1 failed op) {id : CheckId}
    {row : SopQualityCheck} {sid : SessionId} (hrow : (s'.1.view t).check id = some row)
    (hsid : row.sessionId = some sid) (hactive : row.status.active = true) : Unrecorded row := by
  rcases view_of_effect heffect with heq | ⟨heq, -⟩ | ⟨wr, hwr, -, heq⟩
  · exact h.active t id row sid (heq ▸ hrow) hsid hactive
  · exact (h.told id row sid (heq ▸ hrow) hsid).active hactive
  rw [heq] at hrow
  cases hwr with
  | @updateCheck check patch =>
      rw [check_updateCheck] at hrow
      split at hrow
      · rename_i hid
        subst hid
        obtain ⟨old, hold, rfl⟩ := Option.map_eq_some_iff.mp hrow
        rcases hspeaks.2 with hplain | hjustified
        · refine hplain.unrecorded (h.active t check.id old sid hold hsid ?_)
          cases hset : (patch.net check).status with
          | none => simpa [CheckPatch.apply, hset] using hactive
          | some status =>
              have hstatus := net_status hset
              cases status with
              | pending => exact absurd hstatus hpre.2.1
              | running =>
                  obtain ⟨-, row, hrow, hpending⟩ := hpre.2.2 hstatus
                  rw [Option.some.inj (hold.symm.trans hrow), hpending]
                  rfl
              | _ => simp [CheckPatch.apply, hset, CheckStatus.active] at hactive
        · rcases h.inserted_or_committed hold with ⟨row₀, hrow₀, hsid₀, -⟩ | ⟨-, hins⟩
          · obtain ⟨-, answer, review, -, -, hset, -⟩ :=
              hjustified row₀ sid hrow₀ (hsid₀.symm.trans hsid)
            simp [CheckPatch.apply, hset, CheckStatus.active] at hactive
          · exact absurd hins (hspeaks.1 old)
      · exact h.active t id row sid hrow hsid hactive
  | insertCheck _ _ =>
      rw [check_insertCheck] at hrow
      rcases Option.or_eq_some_iff.mp hrow with hrow | ⟨-, hrow⟩
      · exact h.active t id row sid hrow hsid hactive
      · split at hrow
        · obtain rfl := Option.some.inj hrow
          exact ⟨rfl, rfl⟩
        · simp at hrow
  | _ => exact h.active t id row sid hrow hsid hactive

theorem Scripted.step (h : Scripted limits s) (hcoherent : Coherent s.1) (helected : Elected s)
    (hpre : Discipline t op s.1) (hspeaks : Speaks limits t op s)
    (hexec : exec t op choice s.1 = some (r, s'.1))
    (hrecord : s'.2 = s.2 ++ entries t op r s.1) (hcoherent' : Coherent s'.1) :
    Scripted limits s' := by
  have houtcome := exec_outcome hexec
  obtain ⟨htold, hunshared, hforeign⟩ := h.committed hcoherent helected houtcome.effect
  have hrely : ∀ t', t' ≠ t → Rely t' s.1 s'.1 := fun t' hne => hcoherent.rely houtcome hne
  have hlistens : ∀ t', t' ≠ t → Listens t' s s' := fun t' hne =>
    h.listens hcoherent helected hexec hrecord hne
  refine
    { told := htold
      unshared := hunshared
      foreign := hforeign
      inserts := fun t' row hrow => ?_
      messages := fun t' m hm => ?_
      spoken := fun t' id row sid hinvoked hrow hsid => ?_
      patches := fun t' id patch hpatch => ?_
      active := fun t' id row sid hrow hsid hactive => ?_ }
  · by_cases hne : t' = t
    · subst hne
      exact h.inserts_own hspeaks houtcome.effect hrow
    · rw [(hrely t' hne).pending] at hrow
      have hins := h.inserts t' row hrow
      refine ⟨(hrely t' hne).pending ▸ hins.only, hins.pending, hins.unrecorded, fun sid hsid => ?_⟩
      obtain ⟨hnone, howner⟩ := hins.session sid hsid
      refine ⟨?_, ((hrely t' hne).owner _).mpr howner⟩
      exact (Prod.mk.inj ((hrely t' hne).sessionLocked sid howner)).1.trans hnone
  · by_cases hne : t' = t
    · subst hne
      exact h.messages_own hspeaks houtcome.effect hrecord hm
    · rw [(hrely t' hne).pending] at hm
      obtain ⟨id, row, hinvoked, hrow, hsid⟩ := h.messages t' m hm
      obtain ⟨row', hrow', hsid', -⟩ := (hlistens t' hne).named id row hrow
      exact ⟨id, row', invocations_grow hrecord hinvoked, hrow', hsid'.trans hsid⟩
  · by_cases hne : t' = t
    · subst hne
      exact h.spoken_own hspeaks htold houtcome.effect hrow hsid
    · have hinvoked : t' ∈ invocations id s.2 :=
        (invocations_new hrecord hinvoked).resolve_right fun heq => hne heq.1
      have hrunner := runner_of_invoked helected hinvoked
      obtain ⟨row₀, hrow₀, -⟩ := helected.published id t' hrunner
      obtain ⟨row', hrow', hsid', hsop'⟩ := (hlistens t' hne).named id row₀ hrow₀
      obtain rfl := Option.some.inj (hrow.symm.trans hrow')
      have hsid₀ := hsid'.symm.trans hsid
      obtain ⟨-, hsame⟩ := (hlistens t' hne).alone id row₀ sid (.inr hrunner) hrow₀ hsid₀
      rw [view_messages, hsame, (hrely t' hne).pending, ← view_messages, hsop']
      exact h.spoken t' id row₀ sid hinvoked hrow₀ hsid₀
  · by_cases hne : t' = t
    · subst hne
      exact h.patches_own hspeaks houtcome.effect hrecord hpatch
    · rw [(hrely t' hne).pending] at hpatch
      refine (h.patches t' id patch hpatch).imp_right fun hjustified row sid hrow hsid => ?_
      have howner : s.1.store.owner (.check id) = some t' :=
        hcoherent.guarded t' _ _ hpatch (by simp [schema])
      rw [(Prod.mk.inj ((hrely t' hne).checkLocked id howner)).1] at hrow
      obtain ⟨hinvoked, hconcludes⟩ := hjustified row sid hrow hsid
      obtain ⟨-, hsame⟩ := (hlistens t' hne).alone id row sid
        (.inr (runner_of_invoked helected hinvoked)) hrow hsid
      exact ⟨invocations_grow hrecord hinvoked, hsame ▸ hconcludes⟩
  · by_cases hne : t' = t
    · subst hne
      exact h.active_own hspeaks hpre houtcome.effect hrow hsid hactive
    · by_cases howner : s.1.store.owner (.check id) = some t'
      · rw [(Prod.mk.inj ((hrely t' hne).view_check howner)).1] at hrow
        exact h.active t' id row sid hrow hsid hactive
      · have howner' : s'.1.store.owner (.check id) ≠ some t' := fun h =>
          howner (((hrely t' hne).owner _).mp h)
        rw [view_check_committed hcoherent'.guarded howner'] at hrow
        exact (htold id row sid hrow hsid).active hactive

end Steps

/-- The protocol of the conversations. -/
def scriptProtocol (limits : Limits) : Protocol (recording exec entries) fun t op choice s =>
    (unrestricted t op choice s.1 ∧ Discipline t op s.1) ∧ Entitled t op s :=
  runnerProtocol.extend (Scripted limits) Listens (Speaks limits) Listens.refl Listens.trans
    fun hinv hscripted _ hspeaks hallowed hexec hinv' => by
      obtain ⟨hstep, hrecord⟩ := recording_eq_some hexec
      exact ⟨hscripted.step hinv.1 hinv.2 hallowed.2 hspeaks hstep hrecord hinv'.1,
        fun _ hne _ => hscripted.listens hinv.1 hinv.2 hstep hrecord hne⟩

end ChangeQuality.SopTranscripts
