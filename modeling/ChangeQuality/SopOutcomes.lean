import ChangeQuality.SopDiscipline

/-!
Whether the outcome of a check is final. `mark_running` reads the status under the row lock;
`mark_terminal` and the interruption at startup read it without, so that their UPDATE may fall on a
check that has got its outcome in between.
-/

namespace ChangeQuality.SopOutcomes

open ChangeQuality.Values
open ChangeQuality.SopTables
open ChangeQuality.SopRepository
open ChangeQuality.SopRunner
open ChangeQuality.SopSystem
open ChangeQuality.SopEffects
open ChangeQuality.SopInvariant
open ChangeQuality.SopDiscipline
open ChangeQuality.ReadCommitted
open ChangeQuality.Coroutine
open ChangeQuality.Interference

/-- A call on the repositories of one database session. -/
inductive RepositoryCall where
  | markRunning (id : CheckId)
  | markTerminal (id : CheckId) (status : CheckStatus) (terminal : status.active = false)
      (qualityResult : Option String) (result error : Option Json)
  | interruptActiveChecksOnStartup
  | commit
  | rollback

def RepositoryCall.run : RepositoryCall → Program Unit
  | .markRunning id => do let _ ← SopRepository.markRunning id
  | .markTerminal id status _ qualityResult result error => do
      let _ ← SopRepository.markTerminal id status qualityResult result error
  | .interruptActiveChecksOnStartup => do let _ ← SopRepository.interruptActiveChecksOnStartup
  | .commit => await .commit
  | .rollback => await .rollback

/-- Any calls in one database session, each with its exceptions caught. -/
def calls : List RepositoryCall → Program Unit
  | [] => pure ()
  | call :: rest => do
      Coroutine.Program.tryCatch call.run fun _ => pure ()
      calls rest

def transactions (script : List RepositoryCall) : Program Unit :=
  (calls script).ensuring (await .close)

/-- The tasks of the backend, and sessions that make any calls. -/
def Spawnable (c : Collaborators) (p : Program Unit) : Prop :=
  Task c p ∨ ∃ script, p = transactions script

theorem gives_call {allowed : TaskId → Op → Choice → World → Prop} {t : TaskId}
    (call : RepositoryCall) : Gives allowed t call.run fun _ _ => True := by
  have hdone : Gives allowed t (pure () : Program Unit) fun _ _ => True :=
    Triple.done (Stable.const True) fun _ _ _ => trivial
  cases call with
  | markRunning id => exact Gives.bind (gives_markRunning id) fun _ => hdone
  | markTerminal id status terminal qualityResult result error =>
      exact Gives.bind (gives_markTerminal id terminal _ _ _) fun _ => hdone
  | interruptActiveChecksOnStartup =>
      exact Gives.bind gives_interruptActiveChecksOnStartup fun _ => hdone
  | commit => exact Gives.of_uses (Uses.perform trivial)
  | rollback => exact Gives.of_uses (Uses.perform trivial)

theorem disciplined_transactions (c : Collaborators) : Disciplined (Spawnable c) := by
  rintro allowed t p (hp | ⟨script, rfl⟩)
  · exact gives_task hp
  have hdone : Gives allowed t (pure () : Program Unit) fun _ _ => True :=
    Triple.done (Stable.const True) fun _ _ _ => trivial
  have hclose : Gives allowed t (await .close) fun _ _ => True :=
    Gives.of_uses (Uses.perform trivial)
  refine Triple.ensuring (fun _ => Stable.const True) (fun _ => Stable.const True) ?_
    (fun _ => hclose) fun _ => hclose
  induction script with
  | nil => exact hdone
  | cons call rest ih =>
      exact Gives.bind (Triple.tryCatch (gives_call call) fun _ => hdone) fun _ => ih

/-- The patch sets a column that belongs to the outcome of a check. -/
def SetsOutcome (patch : CheckPatch) : Prop :=
  patch.status.isSome ∨ patch.qualityResult.isSome ∨ patch.result.isSome ∨ patch.error.isSome

instance (patch : CheckPatch) : Decidable (SetsOutcome patch) :=
  inferInstanceAs (Decidable (_ ∨ _))

/-- The check is committed with an active status, or not at all. -/
def CommittedActive (w : World) (id : CheckId) : Prop :=
  ∀ row ∈ w.store.committed.check id, row.status.active = true

instance (w : World) (id : CheckId) : Decidable (CommittedActive w id) :=
  inferInstanceAs (Decidable (∀ row ∈ w.store.committed.check id, row.status.active = true))

/-- The condition on a run: an UPDATE that writes an outcome finds the committed status active. -/
def OutcomesMeetActive (_ : TaskId) (op : Op) (choice : Choice) (w : World) : Prop :=
  match op, choice with
  | .updateCheck check patch, .succeed _ _ =>
      patch.status ≠ some .running → SetsOutcome patch → CommittedActive w check.id
  | _, _ => True

instance (t : TaskId) (op : Op) (choice : Choice) (w : World) :
    Decidable (OutcomesMeetActive t op choice w) := by
  unfold OutcomesMeetActive
  split <;> infer_instance

/-- What is final about a check. -/
structure SameOutcome (row row' : SopQualityCheck) : Prop where
  status : row'.status = row.status
  qualityResult : row'.qualityResult = row.qualityResult
  result : row'.result = row.result
  error : row'.error = row.error

/-- An open transaction has written outcomes only to checks that are still active. -/
def OutcomesOpen (w : World) : Prop :=
  ∀ t id patch, .updateCheck id patch ∈ w.store.pending t → SetsOutcome patch →
    CommittedActive w id

theorem SetsOutcome.of_net {patch : CheckPatch} {check : SopQualityCheck}
    (h : SetsOutcome (patch.net check)) : SetsOutcome patch := by
  have hsome : ∀ {α : Type} {o : Option α} {keep : α → Bool}, (o.filter keep).isSome → o.isSome := by
    intro α o keep ho
    cases o with
    | none => simp at ho
    | some a => rfl
  rcases h with h | h | h | h
  · exact .inl (hsome h)
  · exact .inr (.inl (hsome h))
  · exact .inr (.inr (.inl (hsome h)))
  · exact .inr (.inr (.inr (hsome h)))

theorem CommittedActive.congr {w w' : World} {id : CheckId} (h : CommittedActive w id)
    (heq : w'.store.committed.check id = w.store.committed.check id) : CommittedActive w' id := by
  simpa only [CommittedActive, heq] using h

/-- An outcome is written to an active check: by the condition, or because `mark_running` has read
the status under the lock. -/
theorem committedActive_of_write {t : TaskId} {check : SopQualityCheck} {patch : CheckPatch}
    {answer : Answer} {kept : Bool} {w : World} (hcoherent : Coherent w)
    (hpre : Discipline t (.updateCheck check patch) w)
    (hallowed : OutcomesMeetActive t (.updateCheck check patch) (.succeed answer kept) w)
    (hsets : SetsOutcome patch) : CommittedActive w check.id := by
  by_cases hrunning : patch.status = some .running
  · obtain ⟨-, row, hrow, hpending⟩ := hpre.2.2 hrunning
    intro row₀ hrow₀
    simp [hcoherent.pending_committed hrow₀ hrow hpending, CheckStatus.active]
  · exact hallowed hrunning hsets

theorem OutcomesOpen.step {t : TaskId} {op : Op} {choice : Choice} {w w' : World}
    {r : Except Exn (Reply op)} (hcoherent : Coherent w) (hopen : OutcomesOpen w)
    (hpre : Discipline t op w) (hallowed : OutcomesMeetActive t op choice w)
    (hexec : exec t op choice w = some (r, w')) : OutcomesOpen w' := by
  have houtcome := exec_outcome hexec
  intro t' id patch hpatch hsets
  by_cases hne : t' = t
  · subst hne
    rcases pending_of_effect houtcome.effect with ⟨heq, hcommitted⟩ | heq |
      ⟨wr, hok, hwr, hcommitted, heq⟩
    · exact (hopen t' id patch (heq ▸ hpatch) hsets).congr (by rw [hcommitted])
    · simp [heq] at hpatch
    · rw [heq, List.mem_append, List.mem_singleton] at hpatch
      rcases hpatch with hold | rfl
      · exact (hopen t' id patch hold hsets).congr (by rw [hcommitted])
      · cases hwr with
        | updateCheck =>
            cases choice with
            | fail e poisons => exact absurd ⟨e, (exec_fail hexec).2.1⟩ hok
            | succeed answer kept =>
                exact (committedActive_of_write hcoherent hpre hallowed hsets.of_net).congr
                  (by rw [hcommitted])
  · have hrely := hcoherent.rely houtcome hne
    rw [hrely.pending] at hpatch
    have howner : w.store.owner (.check id) = some t' :=
      hcoherent.guarded t' _ _ hpatch (by simp [schema])
    exact (hopen t' id patch hpatch hsets).congr (Prod.mk.inj (hrely.checkLocked id howner)).1

/-- The protocol under the condition: no operation needs more than the discipline. -/
def outcomeProtocol : Protocol exec fun t op choice w =>
    OutcomesMeetActive t op choice w ∧ Discipline t op w :=
  (discipline OutcomesMeetActive).extend OutcomesOpen (fun _ _ _ => True) (fun _ _ _ => True)
    (fun _ _ => trivial) (fun _ _ => trivial) fun hcoherent hopen hpre _ hallowed hexec _ =>
      ⟨hopen.step hcoherent hpre hallowed hexec, fun _ _ _ => trivial⟩

theorem SameOutcome.refl (row : SopQualityCheck) : SameOutcome row row :=
  ⟨rfl, rfl, rfl, rfl⟩

theorem SameOutcome.trans {row₁ row₂ row₃ : SopQualityCheck} (h : SameOutcome row₁ row₂)
    (h' : SameOutcome row₂ row₃) : SameOutcome row₁ row₃ :=
  ⟨h'.status.trans h.status, h'.qualityResult.trans h.qualityResult, h'.result.trans h.result,
    h'.error.trans h.error⟩

theorem sameOutcome_apply {patch : CheckPatch} (h : ¬ SetsOutcome patch) (row : SopQualityCheck) :
    SameOutcome row (patch.apply row) := by
  simp only [SetsOutcome, not_or, Bool.not_eq_true, Option.isSome_eq_false_iff,
    Option.isNone_iff_eq_none] at h
  obtain ⟨hstatus, hquality, hresult, herror⟩ := h
  constructor <;> simp [CheckPatch.apply, hstatus, hquality, hresult, herror]

/-- The outcomes that are committed stay. -/
def Final (w w' : World) : Prop :=
  ∀ id row, w.store.committed.check id = some row → row.status.active = false →
    ∃ row', w'.store.committed.check id = some row' ∧ SameOutcome row row'

theorem Final.trans {w₁ w₂ w₃ : World} (h : Final w₁ w₂) (h' : Final w₂ w₃) : Final w₁ w₃ := by
  intro id row hrow hterminal
  obtain ⟨row₂, hrow₂, hsame₂⟩ := h id row hrow hterminal
  obtain ⟨row₃, hrow₃, hsame₃⟩ := h' id row₂ hrow₂ (hsame₂.status ▸ hterminal)
  exact ⟨row₃, hrow₃, hsame₂.trans hsame₃⟩

/-- A commit publishes no other outcome than the one that is there. -/
theorem OutcomesOpen.final {t : TaskId} {op : Op} {w w' : World} {failed : Prop}
    (hopen : OutcomesOpen w) (heffect : Effect t w w' failed op) : Final w w' := by
  intro id row hrow hterminal
  rcases committed_of_effect heffect with heq | ⟨-, -, heq⟩
  · exact ⟨row, heq ▸ hrow, .refl row⟩
  rw [heq]
  refine applyAll_keeps
    (φ := fun db : Db => ∃ row', db.check id = some row' ∧ SameOutcome row row') ?_
    ⟨row, hrow, .refl row⟩
  rintro wr hwr db ⟨row', hrow', hsame⟩
  cases wr with
  | insertCheck other => exact ⟨row', by simp [check_insertCheck, hrow'], hsame⟩
  | updateCheck id' patch =>
      rw [check_updateCheck]
      split
      · rename_i hid
        subst hid
        have hsets : ¬ SetsOutcome patch := fun hsets => by
          simp [hopen t id patch hwr hsets row hrow] at hterminal
        exact ⟨patch.apply row', by simp [hrow'], hsame.trans (sameOutcome_apply hsets row')⟩
      · exact ⟨row', hrow', hsame⟩
  | _ => exact ⟨row', hrow', hsame⟩

/-- As long as every UPDATE of an outcome meets an active check, a committed outcome is final. -/
theorem final_of_outcomesMeetActive (c : Collaborators) {w : World} (hidle : Idle w)
    (hw : WellFormed w) {c₁ c₂ : Config}
    (h₁ : Steps exec (Spawnable c) OutcomesMeetActive (.idle w) c₁)
    (h₂ : Steps exec (Spawnable c) OutcomesMeetActive c₁ c₂) :
    Final c₁.shared c₂.shared := by
  have htasks := disciplined_transactions c
  have horderly : Orderly OutcomesMeetActive (.idle w) := .idle hidle hw
  have hsafe : ∀ t p, Spawnable c p → ∀ w', outcomeProtocol.inv w' → True →
      Safe outcomeProtocol t (fun _ _ => True) p w' :=
    fun t p _ w' _ _ => Safe.of_pre (fun _ _ => trivial) p w'
  have hopen : OutcomesOpen w := fun t id patch hpatch => by simp [hidle.pending t] at hpatch
  have hidleInv : Invariant outcomeProtocol (fun _ _ => True) (fun _ _ _ => True)
      (Config.idle w : Config) := .idle ⟨hw.coherent hidle, hopen⟩ fun _ => trivial
  have hinv := hidleInv.steps (fun _ => Stable.const True) hsafe (htasks.steps horderly h₁)
  exact hinv.steps_relation (R := Final) (fun _ => Stable.const True) hsafe
    (fun w id row hrow _ => ⟨row, hrow, .refl row⟩) Final.trans
    (fun hinv _ _ hexec => hinv.2.final (exec_outcome hexec).effect)
    (htasks.steps (htasks.orderly horderly h₁) h₂)

/-- The collaborators of the concrete runs. -/
def collaborators : Collaborators where
  checkpointer := true
  sessionRepository := true
  broadcast := true
  sessionBroadcast := true
  userMessage := fun state => state
  summarizeResultState := fun _ => .ok (.obj [("result", .obj [("summary", .str "ok")])])

/-- An await that succeeds and has nothing to answer. -/
def proceed (t : TaskId) : Move Reply Exn TaskId Choice :=
  .resume t (.succeed .nothing true)

/-- A session that records a success. -/
def recordSuccess : List RepositoryCall :=
  [.markTerminal 0 .succeeded rfl (some "pass") none none, .commit]

/-- A startup reads the running check, and then the success is recorded. -/
def readThenSucceed : List (Move Reply Exn TaskId Choice) :=
  [.spawn 0 interruptLeftoverSopQualityChecks, .spawn 1 (transactions recordSuccess), proceed 0] ++
    List.replicate 5 (proceed 1)

/-- The startup goes on to interrupt the check that it has read. -/
def interruptSucceeded : List (Move Reply Exn TaskId Choice) :=
  List.replicate 6 (proceed 0)

/-- A startup that has read the check before its outcome was committed replaces the outcome. -/
theorem not_forall_final :
    ¬ ∀ (c : Collaborators) (w : World), Idle w → WellFormed w → ∀ c₁ c₂ : Config,
      Steps exec (Spawnable c) unrestricted (.idle w) c₁ →
      Steps exec (Spawnable c) unrestricted c₁ c₂ → Final c₁.shared c₂.shared := by
  intro h
  have hrun : ∃ c₁ c₂ : Config,
      follow exec unrestricted (.idle (oneCheck .running)) readThenSucceed = some c₁ ∧
        follow exec unrestricted c₁ interruptSucceeded = some c₂ ∧
        (c₁.shared.store.committed.check 0).map (·.status) = some .succeeded ∧
        (c₂.shared.store.committed.check 0).map (·.status) = some .interrupted :=
    ⟨_, _, rfl, rfl, rfl, rfl⟩
  obtain ⟨c₁, c₂, h₁, h₂, hsucceeded, hinterrupted⟩ := hrun
  have hspawn : ∀ p ∈ started readThenSucceed, Spawnable collaborators p := by
    simpa [readThenSucceed, started, proceed] using ⟨.inl .startup, .inr ⟨_, rfl⟩⟩
  have hspawn' : ∀ p ∈ started interruptSucceeded, Spawnable collaborators p := by
    simp [interruptSucceeded, started, proceed]
  have hfinal := h collaborators _ (idle_oneCheck .running) (wellFormed_oneCheck .running) c₁ c₂
    (follow_steps hspawn h₁) (follow_steps hspawn' h₂)
  obtain ⟨row, hrow, hstatus⟩ := Option.map_eq_some_iff.mp hsucceeded
  obtain ⟨row', hrow', hsame⟩ := hfinal 0 row hrow (by simp [hstatus, CheckStatus.active])
  simp [hrow', hsame.status, hstatus] at hinterrupted

/-- The success is recorded before the startup looks for active checks. -/
def succeedFirst : List (Move Reply Exn TaskId Choice) :=
  .spawn 1 (transactions recordSuccess) :: List.replicate 5 (proceed 1)

def startupAfter : List (Move Reply Exn TaskId Choice) :=
  .spawn 0 interruptLeftoverSopQualityChecks :: List.replicate 3 (proceed 0)

theorem final_succeedFirst : ∃ c₁ c₂ : Config,
    follow exec OutcomesMeetActive (.idle (oneCheck .running)) succeedFirst = some c₁ ∧
      follow exec OutcomesMeetActive c₁ startupAfter = some c₂ ∧
      (c₁.shared.store.committed.check 0).map (·.status) = some .succeeded ∧
      Final c₁.shared c₂.shared := by
  have hrun : ∃ c₁ c₂ : Config,
      follow exec OutcomesMeetActive (.idle (oneCheck .running)) succeedFirst = some c₁ ∧
        follow exec OutcomesMeetActive c₁ startupAfter = some c₂ ∧
        (c₁.shared.store.committed.check 0).map (·.status) = some .succeeded :=
    ⟨_, _, rfl, rfl, rfl⟩
  obtain ⟨c₁, c₂, h₁, h₂, hsucceeded⟩ := hrun
  have hspawn : ∀ p ∈ started succeedFirst, Spawnable collaborators p := by
    simpa [succeedFirst, started, proceed] using .inr ⟨_, rfl⟩
  have hspawn' : ∀ p ∈ started startupAfter, Spawnable collaborators p := by
    simpa [startupAfter, started, proceed] using .inl .startup
  exact ⟨c₁, c₂, h₁, h₂, hsucceeded, final_of_outcomesMeetActive collaborators
    (idle_oneCheck .running) (wellFormed_oneCheck .running) (follow_steps hspawn h₁)
    (follow_steps hspawn' h₂)⟩

end ChangeQuality.SopOutcomes
