import ChangeQuality.SopLinks
import ChangeQuality.SopRunners

/-!
`start_check` as create-or-join. Concurrent calls for one subject meet in the unique index over the
active checks; the one that is refused rolls back and joins the check that it finds then.
-/

namespace ChangeQuality.SopCreation

open ChangeQuality.Values
open ChangeQuality.SopTables
open ChangeQuality.SopRepository
open ChangeQuality.SopRunner
open ChangeQuality.SopSystem
open ChangeQuality.SopEffects
open ChangeQuality.SopInvariant
open ChangeQuality.SopDiscipline
open ChangeQuality.SopTransactions
open ChangeQuality.SopOutcomes
open ChangeQuality.SopLinks
open ChangeQuality.Histories
open ChangeQuality.ReadCommitted
open ChangeQuality.Coroutine
open ChangeQuality.Interference

/-- A call of `start_check`, with the instants at which it begins and at which it has returned. -/
def call (environments : List String) (sopId envKey : String) (createdBy : Option String) :
    Program Unit := do
  await (.note (.called sopId envKey))
  let result ← startCheckRequest environments sopId envKey createdBy
  await (.note (.answered result.checkId result.created))

/-- Calls for known environments, runs, startups, and sessions that move checks on. -/
inductive Contender (c : Collaborators) : Program Unit → Prop
  | call (environments : List String) (sopId envKey : String) (createdBy : Option String) :
      envKey ∈ environments → Contender c (call environments sopId envKey createdBy)
  | run (id : CheckId) : Contender c (backgroundRun c id)
  | startup : Contender c interruptLeftoverSopQualityChecks
  | transactions (script : List RepositoryCall) : Contender c (transactions script)

/-- What the history of the calls tells. -/
inductive Entry where
  | called (t : TaskId) (sopId envKey : String)
  /-- What is committed when the task looks for the active check, before its commit or after it. -/
  | instant (t : TaskId) (committed : Db)
  | inserted (t : TaskId) (id : CheckId)
  | rolledBack (t : TaskId)
  | answered (t : TaskId) (id : CheckId) (created : Bool)

def Entry.task : Entry → TaskId
  | .called t _ _ | .instant t _ | .inserted t _ | .rolledBack t | .answered t _ _ => t

def entries : Entries Reply Exn TaskId World Entry
  | t, .note (.called sopId envKey), .ok _, _ => [.called t sopId envKey]
  | t, .note (.answered id created), .ok _, _ => [.answered t id created]
  | t, .activeCheck _ _, .ok _, w => [.instant t w.store.committed]
  | t, .insertCheck _, .ok _, w => [.inserted t w.nextCheck]
  | t, .rollback, .ok _, _ => [.rolledBack t]
  | t, .commit, .ok _, w => [.instant t w.store.committed, .instant t (w.view t)]
  | _, _, _, _ => []

/-- A state of the backend with its history. -/
abbrev Recorded := World × List Entry

/-- The operations of services other than the database. -/
def external : Op → Bool
  | .publishEvent _ | .publishMessage _ | .publishDelta _ _ | .openCheckpointer | .closeCheckpointer
  | .saveCheckpoint | .graphState | .getSop _ _ | .agentStream _ | .agentStreamEnd
  | .agentInvoke _ => true
  | _ => false

/-- The unique index over the active checks refuses a check. -/
def conflicts (op : Op) (e : Exn) (w : World) : Bool :=
  match op, e with
  | .insertCheck values, .integrityError _ =>
      (w.store.committed.activeCheck values.sopId values.envKey).isSome
  | _, _ => false

/-- A healthy database fails on no statement, except that it refuses a second active check. -/
def healthy (op : Op) (choice : Choice) (w : World) : Bool :=
  match choice with
  | .succeed _ _ => true
  | .fail e _ => external op || conflicts op e w

def Entry.isRollback (t : TaskId) : Entry → Bool
  | .rolledBack t' => t' = t
  | _ => false

/-- A task that looks for the active check after it has rolled back finds one. -/
def rereadFinds (t : TaskId) (op : Op) (s : Recorded) : Bool :=
  match op with
  | .activeCheck sopId envKey =>
      !(s.2.any (Entry.isRollback t)) || (s.1.store.committed.activeCheck sopId envKey).isSome
  | _ => true

/-- The runs over a healthy database. -/
def Healthy (_ : TaskId) (op : Op) (choice : Choice) (s : Recorded) : Prop :=
  healthy op choice s.1 = true

/-- The condition on such a run: a check that is active is there when `create_check` looks again
after a conflict. -/
def RereadsFind (t : TaskId) (op : Op) (choice : Choice) (s : Recorded) : Prop :=
  Healthy t op choice s ∧ rereadFinds t op s = true

instance (t : TaskId) (op : Op) (choice : Choice) (s : Recorded) :
    Decidable (Healthy t op choice s) :=
  inferInstanceAs (Decidable (_ = _))

instance (t : TaskId) (op : Op) (choice : Choice) (s : Recorded) :
    Decidable (RereadsFind t op choice s) :=
  inferInstanceAs (Decidable (_ ∧ _))

/-- The check of that number is an active one of the pair. -/
def ActiveIn (db : Db) (sopId envKey : String) (id : CheckId) : Prop :=
  ∃ row, db.check id = some row ∧ row.status.active = true ∧ row.sopId = sopId ∧
    row.envKey = envKey

/-- The operation can happen now. -/
def Enabled (t : TaskId) (op : Op) (w : World) : Prop :=
  ∃ choice out, healthy op choice w = true ∧ exec t op choice w = some out

abbrev RecordedConfig := Coroutine.Config Reply Exn TaskId Recorded

def Entry.isAnswer (t : TaskId) : Entry → Bool
  | .answered t' _ _ => t' = t
  | _ => false

/-- What the calls achieve, from the tables of `w₀` on. -/
structure CreateOrJoin (w₀ : World) (c : RecordedConfig) : Prop where
  /-- No call raises, and one that has ended has answered, once. -/
  returns : ∀ t sopId envKey, .called t sopId envKey ∈ c.shared.2 → ∀ r,
    c.task t = some (.leave r) → r = .ok () ∧ ∃ id created, .answered t id created ∈ c.shared.2
  once : ∀ t, (c.shared.2.filter (Entry.isAnswer t)).length ≤ 1
  /-- A call goes on, or waits for another call that goes on. -/
  progresses : ∀ t sopId envKey, .called t sopId envKey ∈ c.shared.2 → ∀ op k,
    c.task t = some (.await op k) → Enabled t op c.shared.1 ∨
      ∃ t' op' k', .called t' sopId envKey ∈ c.shared.2 ∧ c.task t' = some (.await op' k') ∧
        Enabled t' op' c.shared.1
  /-- The answer names a check of the pair that was active during the call. -/
  joins : ∀ t id created, .answered t id created ∈ c.shared.2 →
    ∃ sopId envKey db, .called t sopId envKey ∈ c.shared.2 ∧ .instant t db ∈ c.shared.2 ∧
      ActiveIn db sopId envKey id
  /-- A check that was not there before is one that one call reports as its creation. -/
  creates : ∀ id, (c.shared.1.store.committed.check id).isSome →
    w₀.store.committed.check id = none → ∃ t,
      (∀ r, c.task t = some (.leave r) → .answered t id true ∈ c.shared.2) ∧
      ∀ t', .answered t' id true ∈ c.shared.2 → t' = t
  createsNew : ∀ t id, .answered t id true ∈ c.shared.2 →
    (c.shared.1.store.committed.check id).isSome ∧ w₀.store.committed.check id = none
  /-- A session that was not there before belongs to a check. -/
  sessions : ∀ sid, (c.shared.1.store.committed.session sid).isSome →
    w₀.store.committed.session sid = none →
      ∃ id row, c.shared.1.store.committed.check id = some row ∧ row.sessionId = some sid

/-- The task has seen the check active, after its call. -/
def Joined (t : TaskId) (sopId envKey : String) (id : CheckId) (history : List Entry) : Prop :=
  ∃ db, .instant t db ∈ history ∧ ActiveIn db sopId envKey id

/-- What holds between any two steps, from the tables of `w₀` on. -/
structure Contended (w₀ : World) (s : Recorded) : Prop where
  drawn : w₀.nextCheck ≤ s.1.nextCheck
  subject : ∀ t sopId sopId' envKey envKey', .called t sopId envKey ∈ s.2 →
    .called t sopId' envKey' ∈ s.2 → sopId' = sopId ∧ envKey' = envKey
  numbered : ∀ t id, .inserted t id ∈ s.2 → w₀.nextCheck ≤ id ∧ id < s.1.nextCheck
  unique : ∀ t t' id, .inserted t id ∈ s.2 → .inserted t' id ∈ s.2 → t' = t
  inserting : ∀ t row, .insertCheck row ∈ s.1.store.pending t → .inserted t row.id ∈ s.2 ∧
    .called t row.sopId row.envKey ∈ s.2 ∧ Known (s.1.view t) row
  subjects : ∀ t sopId envKey, s.1.store.owner (.subject sopId envKey) = some t →
    ∃ row, .insertCheck row ∈ s.1.store.pending t ∧ row.sopId = sopId ∧ row.envKey = envKey
  checks : ∀ id, Present s.1.store.committed (.check id) →
    Present w₀.store.committed (.check id) ∨ ∃ t, .inserted t id ∈ s.2
  sessions : ∀ sid, Present s.1.store.committed (.session sid) →
    Present w₀.store.committed (.session sid) ∨
      ∃ id row, s.1.store.committed.check id = some row ∧ row.sessionId = some sid
  once : ∀ t, (s.2.filter (Entry.isAnswer t)).length ≤ 1
  joined : ∀ t id created, .answered t id created ∈ s.2 →
    ∃ sopId envKey, .called t sopId envKey ∈ s.2 ∧ Joined t sopId envKey id s.2
  created : ∀ t id, .answered t id true ∈ s.2 →
    .inserted t id ∈ s.2 ∧ Present s.1.store.committed (.check id)

/-- The subject of the check that the operation inserts is locked by another task. -/
def Waits (t : TaskId) (op : Op) (w : World) : Prop :=
  ∃ values t', op = .insertCheck values ∧ t' ≠ t ∧
    w.store.owner (.subject values.sopId values.envKey) = some t'

/-- What a task must have established before an operation, so that its answer is right. -/
def Founded (t : TaskId) (op : Op) (s : Recorded) : Prop :=
  match op with
  | .note (.called _ _) => ∀ sopId envKey, .called t sopId envKey ∉ s.2
  | .insertCheck values =>
      .called t values.sopId values.envKey ∈ s.2 ∧ ∀ row, .insertCheck row ∉ s.1.store.pending t
  | .commit => ∀ session, .insertSession session ∈ s.1.store.pending t →
      ∃ row, .insertCheck row ∈ s.1.store.pending t ∧ row.sessionId = some session.id
  | .note (.answered id created) =>
      (∀ id' created', .answered t id' created' ∉ s.2) ∧
        (∃ sopId envKey, .called t sopId envKey ∈ s.2 ∧ Joined t sopId envKey id s.2) ∧
        (created = true → .inserted t id ∈ s.2 ∧ Present s.1.store.committed (.check id))
  | _ => True

/-- A call awaits what can happen now, or what waits for another task. -/
def Ready (t : TaskId) (op : Op) (s : Recorded) : Prop :=
  Founded t op s ∧
    ∀ sopId envKey, .called t sopId envKey ∈ s.2 → Enabled t op s.1 ∨ Waits t op s.1

/-- What a task may rely on about the history. -/
structure Heard (t : TaskId) (s s' : Recorded) : Prop where
  own : ∀ entry : Entry, entry.task = t → (entry ∈ s'.2 ↔ entry ∈ s.2)
  kept : s.2 ⊆ s'.2

theorem Heard.refl (t : TaskId) (s : Recorded) : Heard t s s :=
  ⟨fun _ _ => Iff.rfl, List.Subset.refl _⟩

theorem Heard.trans {t : TaskId} {s₁ s₂ s₃ : Recorded} (h : Heard t s₁ s₂) (h' : Heard t s₂ s₃) :
    Heard t s₁ s₃ :=
  ⟨fun entry ht => (h'.own entry ht).trans (h.own entry ht), List.Subset.trans h.kept h'.kept⟩

theorem Joined.mono {t : TaskId} {sopId envKey : String} {id : CheckId}
    {history history' : List Entry} (h : Joined t sopId envKey id history)
    (hkept : history ⊆ history') : Joined t sopId envKey id history' := by
  obtain ⟨db, hdb, hactive⟩ := h
  exact ⟨db, hkept hdb, hactive⟩

section Entries

variable {t t' : TaskId} {op : Op} {r : Except Exn (Reply op)} {w : World} {id : CheckId}
  {created : Bool} {sopId envKey : String} {entry : Entry}

theorem entries_task (h : entry ∈ entries t op r w) : entry.task = t := by
  unfold entries at h
  split at h <;> simp only [List.mem_cons, List.not_mem_nil, or_false] at h <;>
    rcases h with rfl | rfl <;> rfl

theorem mem_entries_called (h : .called t' sopId envKey ∈ entries t op r w) :
    op = .note (.called sopId envKey) ∧ t' = t := by
  unfold entries at h
  split at h <;> simp at h
  obtain ⟨rfl, rfl, rfl⟩ := h
  exact ⟨rfl, rfl⟩

theorem mem_entries_answered (h : .answered t' id created ∈ entries t op r w) :
    op = .note (.answered id created) ∧ t' = t := by
  unfold entries at h
  split at h <;> simp at h
  obtain ⟨rfl, rfl, rfl⟩ := h
  exact ⟨rfl, rfl⟩

theorem mem_entries_inserted (h : .inserted t' id ∈ entries t op r w) :
    (∃ values, op = .insertCheck values) ∧ (∃ a, r = .ok a) ∧ t' = t ∧ id = w.nextCheck := by
  unfold entries at h
  split at h <;> simp at h
  obtain ⟨rfl, rfl⟩ := h
  exact ⟨⟨_, rfl⟩, ⟨_, rfl⟩, rfl, rfl⟩

/-- An operation enters one answer at most. -/
theorem answers_of_entries : ((entries t op r w).filter (Entry.isAnswer t')).length ≤ 1 := by
  unfold entries
  split
  · exact (List.length_filter_le _ _).trans (by simp)
  · exact (List.length_filter_le _ _).trans (by simp)
  all_goals simp [Entry.isAnswer]

end Entries

section Steps

variable {t t' : TaskId} {op : Op} {choice : Choice} {w w₀ : World} {r : Except Exn (Reply op)}
  {s s' : Recorded}

/-- A session that a transaction sees and that is not committed was inserted by it. -/
theorem insertedSession_of_view {ws : List Write} {db : Db} {sid : SessionId}
    (hnone : db.session sid = none) (hsid : Present (applyAll schema ws db) (.session sid)) :
    ∃ session, .insertSession session ∈ ws ∧ session.id = sid := by
  by_contra hcon
  refine absurd hsid ?_
  rw [Present, Bool.not_eq_true, Option.isSome_eq_false_iff, Option.isNone_iff_eq_none]
  refine applyAll_keeps (φ := fun db : Db => db.session sid = none) ?_ hnone
  intro wr hwr db hdb
  cases wr with
  | insertSession row =>
      have hne : row.id ≠ sid := fun hid => hcon ⟨row, hwr, hid⟩
      simp [session_insertSession, hdb, hne]
  | updateSession sid' patch => simp [session_updateSession, hdb]
  | _ => exact hdb

theorem exec_insertCheck {values : NewCheck} {a : SopQualityCheck} {w' : World}
    (h : exec t (.insertCheck values) choice w = some (.ok a, w')) :
    a = values.toRow w.nextCheck ∧ w'.nextCheck = w.nextCheck + 1 ∧
      w'.invalid = w.invalid ∧
      w.store.write schema t (.insertCheck (values.toRow w.nextCheck)) = some w'.store := by
  obtain ⟨answer, kept, -, hsucceed⟩ := exec_ok h
  simp only [succeed] at hsucceed
  split at hsucceed
  · obtain ⟨w₁, hwrite, heq⟩ := Option.map_eq_some_iff.mp hsucceed
    obtain ⟨rfl, rfl⟩ := Prod.mk.inj heq
    obtain ⟨store, hstore, rfl⟩ := write_eq_some hwrite
    exact ⟨rfl, rfl, rfl, hstore⟩
  · simp at hsucceed

theorem heard_step (hne : t' ≠ t) (hrecord : s'.2 = s.2 ++ entries t op r s.1) :
    Heard t' s s' := by
  refine ⟨fun entry ht => ?_, hrecord ▸ List.subset_append_left _ _⟩
  rw [hrecord, List.mem_append, or_iff_left_iff_imp]
  exact fun hentry => absurd (ht.symm.trans (entries_task hentry)) hne

theorem Contended.inserted_step (hrecord : s'.2 = s.2 ++ entries t op r s.1) {id : CheckId}
    (hid : .inserted t' id ∈ s'.2) : .inserted t' id ∈ s.2 ∨
      ((∃ values, op = .insertCheck values) ∧ (∃ a, r = .ok a) ∧ t' = t ∧ id = s.1.nextCheck) := by
  rw [hrecord] at hid
  exact (List.mem_append.mp hid).imp_right mem_entries_inserted

/-- A call is for one subject. -/
theorem Contended.subject_step (h : Contended w₀ s) (hfounded : Founded t op s)
    (hrecord : s'.2 = s.2 ++ entries t op r s.1) {sopId sopId' envKey envKey' : String}
    (h₁ : .called t' sopId envKey ∈ s'.2) (h₂ : .called t' sopId' envKey' ∈ s'.2) :
    sopId' = sopId ∧ envKey' = envKey := by
  rw [hrecord, List.mem_append] at h₁ h₂
  rcases h₁ with h₁ | h₁ <;> rcases h₂ with h₂ | h₂
  · exact h.subject t' sopId sopId' envKey envKey' h₁ h₂
  · obtain ⟨rfl, rfl⟩ := mem_entries_called h₂
    exact absurd h₁ (hfounded _ _)
  · obtain ⟨rfl, rfl⟩ := mem_entries_called h₁
    exact absurd h₂ (hfounded _ _)
  · obtain ⟨rfl, -⟩ := mem_entries_called h₁
    obtain ⟨hop, -⟩ := mem_entries_called h₂
    cases hop
    exact ⟨rfl, rfl⟩

/-- The numbers of the inserted checks after an operation. -/
theorem Contended.numbered_step (h : Contended w₀ s)
    (hstep : exec t op choice s.1 = some (r, s'.1))
    (hrecord : s'.2 = s.2 ++ entries t op r s.1) {id : CheckId} (hid : .inserted t' id ∈ s'.2) :
    w₀.nextCheck ≤ id ∧ id < s'.1.nextCheck := by
  rcases inserted_step hrecord hid with hid | ⟨⟨values, rfl⟩, ⟨a, rfl⟩, -, rfl⟩
  · obtain ⟨hle, hlt⟩ := h.numbered t' id hid
    exact ⟨hle, hlt.trans_le (exec_outcome hstep).frame.nextCheck⟩
  · rw [(exec_insertCheck hstep).2.1]
    exact ⟨h.drawn, Nat.lt_succ_self _⟩

theorem Contended.unique_step (h : Contended w₀ s) (hrecord : s'.2 = s.2 ++ entries t op r s.1)
    {t₁ t₂ : TaskId} {id : CheckId} (h₁ : .inserted t₁ id ∈ s'.2) (h₂ : .inserted t₂ id ∈ s'.2) :
    t₂ = t₁ := by
  rcases inserted_step hrecord h₁ with h₁ | ⟨-, -, rfl, rfl⟩ <;>
    rcases inserted_step hrecord h₂ with h₂ | ⟨-, -, rfl, hid⟩
  · exact h.unique t₁ t₂ id h₁ h₂
  · exact absurd (h.numbered t₁ id h₁).2 (hid ▸ Nat.lt_irrefl _)
  · exact absurd (h.numbered t₂ _ h₂).2 (Nat.lt_irrefl _)
  · rfl

/-- What a transaction has written since it began is in its history. -/
theorem Contended.inserting_step (h : Contended w₀ s) (hcoherent : Coherent s.1)
    (hfounded : Founded t op s) (hstep : exec t op choice s.1 = some (r, s'.1))
    (hrecord : s'.2 = s.2 ++ entries t op r s.1) {row : SopQualityCheck}
    (hrow : .insertCheck row ∈ s'.1.store.pending t') : .inserted t' row.id ∈ s'.2 ∧
      .called t' row.sopId row.envKey ∈ s'.2 ∧ Known (s'.1.view t') row := by
  have hkept : s.2 ⊆ s'.2 := hrecord ▸ List.subset_append_left _ _
  have houtcome := exec_outcome hstep
  by_cases hne : t' = t
  · subst hne
    rcases pending_of_effect houtcome.effect with ⟨hpending, hcommitted⟩ | hnil |
      ⟨wr, hok, hwr, hcommitted, hpending⟩
    · obtain ⟨hinserted, hcalled, hknown⟩ := h.inserting t' row (hpending ▸ hrow)
      refine ⟨hkept hinserted, hkept hcalled, ?_⟩
      rwa [World.view, Store.view, hpending, hcommitted]
    · simp [hnil] at hrow
    · have hview : s'.1.view t' = schema.apply wr (s.1.view t') := by
        simp only [World.view, Store.view, hpending, hcommitted, applyAll_append]
      rw [hpending, List.mem_append, List.mem_singleton] at hrow
      rcases hrow with hrow | rfl
      · obtain ⟨hinserted, hcalled, hknown⟩ := h.inserting t' row hrow
        exact ⟨hkept hinserted, hkept hcalled, hview ▸ Known.extends hknown (extends_apply _ _)⟩
      · cases hwr with
        | @insertCheck values _ _ =>
            obtain ⟨a, rfl⟩ : ∃ a, r = .ok a := by
              cases r with
              | ok a => exact ⟨a, rfl⟩
              | error e => exact absurd ⟨e, rfl⟩ hok
            have hfresh : (s.1.view t').check s.1.nextCheck = none :=
              (Prod.mk.inj (hcoherent.view_fresh (Nat.le_refl _))).1
            refine ⟨?_, hkept hfounded.1, values.toRow s.1.nextCheck, ?_, rfl⟩
            · rw [hrecord]
              exact List.mem_append_right _ (by simp [entries, NewCheck.toRow])
            · rw [hview, check_insertCheck]
              simp [NewCheck.toRow, hfresh]
  · have hrely := hcoherent.rely houtcome hne
    obtain ⟨hinserted, hcalled, hknown⟩ := h.inserting t' row (hrely.pending ▸ hrow)
    exact ⟨hkept hinserted, hkept hcalled,
      Known.extends hknown (hrely.extends_view hcoherent.guarded)⟩

/-- A subject is locked for the check that is about to be inserted. -/
theorem Contended.subjects_step (h : Contended w₀ s)
    (hstep : exec t op choice s.1 = some (r, s'.1)) {sopId envKey : String}
    (howner : s'.1.store.owner (.subject sopId envKey) = some t') :
    ∃ row, .insertCheck row ∈ s'.1.store.pending t' ∧ row.sopId = sopId ∧ row.envKey = envKey := by
  have heffect := (exec_outcome hstep).effect
  by_cases hne : t' = t
  · subst hne
    cases heffect with
    | stay heq =>
        rw [heq] at howner ⊢
        exact h.subjects t' sopId envKey howner
    | @lock _ k hop _ heq =>
        have hlocks := Store.lock_eq_some heq
        rw [hlocks.pending]
        rcases hlocks.only _ _ howner with hold | ⟨-, hk⟩
        · exact h.subjects t' sopId envKey hold
        · obtain rfl := List.mem_singleton.mp hk
          cases op <;> simp [lockOf] at hop
    | write _ hwr heq =>
        obtain ⟨mid, hlocks, hwritten⟩ := Store.write_eq_some heq
        rw [hwritten, Store.record_pending, hlocks.pending]
        rw [hwritten, Store.record_owner] at howner
        rcases hlocks.only _ _ howner with hold | ⟨-, hk⟩
        · obtain ⟨row, hrow, hpair⟩ := h.subjects t' sopId envKey hold
          exact ⟨row, List.mem_append_left _ hrow, hpair⟩
        · cases hwr with
          | insertCheck _ _ =>
              obtain ⟨rfl, rfl⟩ : sopId = _ ∧ envKey = _ := by simpa [schema] using hk
              exact ⟨_, List.mem_append_right _ (List.mem_singleton_self _), rfl, rfl⟩
          | _ => simp [schema] at hk
    | commit _ heq => simp [heq, Store.commit, Store.release] at howner
    | rollback _ heq => simp [heq, Store.rollback, Store.release] at howner
  · have hchange := heffect.change
    obtain ⟨row, hrow, hpair⟩ := h.subjects t' sopId envKey ((hchange.owner_ne hne).mp howner)
    exact ⟨row, (hchange.pending_ne hne).symm ▸ hrow, hpair⟩

/-- Every check that a task sees was there in the beginning or has been inserted since. -/
theorem Contended.checks_view (h : Contended w₀ s) {id : CheckId}
    (hid : Present (s.1.view t) (.check id)) :
    Present w₀.store.committed (.check id) ∨ ∃ t, .inserted t id ∈ s.2 := by
  by_cases hcommitted : Present s.1.store.committed (.check id)
  · exact h.checks id hcommitted
  · obtain ⟨row, hrow⟩ := Option.isSome_iff_exists.mp hid
    obtain ⟨ins, hins, rfl, -⟩ := inserted_of_view (by simpa [Present] using hcommitted) hrow
    exact .inr ⟨t, (h.inserting t ins hins).1⟩

/-- A transaction that is about to be committed has a check for each session. -/
theorem Contended.sessions_view (h : Contended w₀ s) (hfounded : Founded t .commit s)
    {sid : SessionId} (hsid : Present (s.1.view t) (.session sid)) :
    Present w₀.store.committed (.session sid) ∨
      ∃ id row, (s.1.view t).check id = some row ∧ row.sessionId = some sid := by
  by_cases hcommitted : Present s.1.store.committed (.session sid)
  · refine (h.sessions sid hcommitted).imp id ?_
    rintro ⟨id, row, hrow, hsession⟩
    obtain ⟨row', hrow', hsame⟩ := (extends_applyAll _ _).check id row hrow
    exact ⟨id, row', hrow', hsame.trans hsession⟩
  · obtain ⟨session, hsession, rfl⟩ :=
      insertedSession_of_view (by simpa [Present] using hcommitted) hsid
    obtain ⟨ins, hins, hlink⟩ := hfounded session hsession
    obtain ⟨row, hrow, hsame⟩ := (h.inserting t ins hins).2.2
    exact .inr ⟨ins.id, row, hrow, hsame.trans hlink⟩

theorem Contended.once_step (h : Contended w₀ s) (hfounded : Founded t op s)
    (hrecord : s'.2 = s.2 ++ entries t op r s.1) :
    (s'.2.filter (Entry.isAnswer t')).length ≤ 1 := by
  rw [hrecord, List.filter_append, List.length_append]
  by_cases hnone : (entries t op r s.1).filter (Entry.isAnswer t') = []
  · simpa [hnone] using h.once t'
  · obtain ⟨entry, hentry⟩ := List.exists_mem_of_ne_nil _ hnone
    obtain ⟨hmem, hanswer⟩ := List.mem_filter.mp hentry
    have hbefore : s.2.filter (Entry.isAnswer t') = [] := by
      cases entry with
      | answered t₁ id created =>
          obtain ⟨rfl, rfl⟩ := mem_entries_answered hmem
          obtain rfl : t₁ = t' := by simpa [Entry.isAnswer] using hanswer
          refine List.filter_eq_nil_iff.mpr fun other hother hanswer => ?_
          cases other with
          | answered t₂ id' created' =>
              obtain rfl : t₂ = t₁ := by simpa [Entry.isAnswer] using hanswer
              exact hfounded.1 id' created' hother
          | _ => simp [Entry.isAnswer] at hanswer
      | _ => simp [Entry.isAnswer] at hanswer
    rw [hbefore]
    simpa using answers_of_entries

theorem Contended.answered_step (h : Contended w₀ s) (hfounded : Founded t op s)
    (hstep : exec t op choice s.1 = some (r, s'.1))
    (hrecord : s'.2 = s.2 ++ entries t op r s.1) {id : CheckId} {created : Bool}
    (hid : .answered t' id created ∈ s'.2) :
    (∃ sopId envKey, .called t' sopId envKey ∈ s'.2 ∧ Joined t' sopId envKey id s'.2) ∧
      (created = true → .inserted t' id ∈ s'.2 ∧ Present s'.1.store.committed (.check id)) := by
  have hkept : s.2 ⊆ s'.2 := hrecord ▸ List.subset_append_left _ _
  have hgrown := committed_grows hstep
  have hbefore : (∃ sopId envKey, .called t' sopId envKey ∈ s.2 ∧ Joined t' sopId envKey id s.2) ∧
      (created = true → .inserted t' id ∈ s.2 ∧ Present s.1.store.committed (.check id)) := by
    rw [hrecord] at hid
    rcases List.mem_append.mp hid with hid | hid
    · exact ⟨h.joined t' id created hid, fun hcreated => h.created t' id (hcreated ▸ hid)⟩
    · obtain ⟨rfl, rfl⟩ := mem_entries_answered hid
      exact hfounded.2
  obtain ⟨⟨sopId, envKey, hcalled, hjoined⟩, hcreated⟩ := hbefore
  refine ⟨⟨sopId, envKey, hkept hcalled, hjoined.mono hkept⟩, fun hc => ?_⟩
  exact ⟨hkept (hcreated hc).1, Present.extends (hcreated hc).2 hgrown⟩

theorem Contended.step (h : Contended w₀ s) (hcoherent : Coherent s.1) (hfounded : Founded t op s)
    (hstep : exec t op choice s.1 = some (r, s'.1))
    (hrecord : s'.2 = s.2 ++ entries t op r s.1) : Contended w₀ s' := by
  have hkept : s.2 ⊆ s'.2 := hrecord ▸ List.subset_append_left _ _
  have houtcome := exec_outcome hstep
  refine
    { drawn := h.drawn.trans houtcome.frame.nextCheck
      subject := fun _ _ _ _ _ h₁ h₂ => h.subject_step hfounded hrecord h₁ h₂
      numbered := fun _ _ hid => h.numbered_step hstep hrecord hid
      unique := fun _ _ _ h₁ h₂ => h.unique_step hrecord h₁ h₂
      inserting := fun _ _ hrow => h.inserting_step hcoherent hfounded hstep hrecord hrow
      subjects := fun _ _ _ howner => h.subjects_step hstep howner
      checks := fun id hid => ?_
      sessions := fun sid hsid => ?_
      once := fun _ => h.once_step hfounded hrecord
      joined := fun _ _ _ hid => (h.answered_step hfounded hstep hrecord hid).1
      created := fun _ _ hid => (h.answered_step hfounded hstep hrecord hid).2 rfl }
  · have hbefore : Present w₀.store.committed (.check id) ∨ ∃ t, .inserted t id ∈ s.2 := by
      rcases committed_of_effect houtcome.effect with heq | ⟨-, -, heq⟩
      · exact h.checks id (heq ▸ hid)
      · exact h.checks_view (t := t) (heq ▸ hid)
    exact hbefore.imp (fun h => h) fun ⟨t, ht⟩ => ⟨t, hkept ht⟩
  · rcases committed_of_effect houtcome.effect with heq | ⟨rfl, -, heq⟩
    · exact heq ▸ h.sessions sid (heq ▸ hsid)
    · exact heq ▸ h.sessions_view hfounded (heq ▸ hsid)

end Steps

/-- The discipline as a protocol of these runs. -/
def recordedDiscipline : Protocol (recording exec entries) RereadsFind :=
  (recorded (discipline unrestricted) entries).restrict fun _ => trivial

/-- The protocol of the runs in which a conflicting check is still active when it is looked up. -/
def contention (w₀ : World) : Protocol (recording exec entries) fun t op choice s =>
    RereadsFind t op choice s ∧ Discipline t op s.1 :=
  recordedDiscipline.extend (Contended w₀) Heard Ready Heard.refl Heard.trans
    fun hcoherent hcontended _ hready _ hexec _ => by
      obtain ⟨hstep, hrecord⟩ := recording_eq_some hexec
      exact ⟨hcontended.step hcoherent hready.1 hstep hrecord,
        fun _ hne _ => heard_step hne hrecord⟩

end ChangeQuality.SopCreation
