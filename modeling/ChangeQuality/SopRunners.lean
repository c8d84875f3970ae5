import ChangeQuality.Histories
import ChangeQuality.SopCompletion

/-!
Who runs the graph of a check. `mark_running` sets the status under the row lock, and the history
of a run of the backend tells which task has published that status.
-/

namespace ChangeQuality.SopRunners

open ChangeQuality.Values
open ChangeQuality.SopTables
open ChangeQuality.SopRepository
open ChangeQuality.SopRunner
open ChangeQuality.SopSystem
open ChangeQuality.SopEffects
open ChangeQuality.SopInvariant
open ChangeQuality.SopDiscipline
open ChangeQuality.SopTransactions
open ChangeQuality.SopOutcomes
open ChangeQuality.SopCompletion
open ChangeQuality.Histories
open ChangeQuality.ReadCommitted
open ChangeQuality.Coroutine
open ChangeQuality.Interference

/-- What the history of a check tells. -/
inductive Entry where
  /-- `mark_running` is about to return the check, whose row it has set to running. -/
  | obtained (t : TaskId) (id : CheckId)
  /-- The run goes on to the graph: its transaction with `mark_running` has been committed. -/
  | invoked (t : TaskId) (id : CheckId)
  | committed (t : TaskId) (writes : List Write)

def entries : Entries Reply Exn TaskId World Entry
  | t, .updateCheck check patch, .ok _, _ =>
      if patch.status = some .running then [.obtained t check.id] else []
  | t, .note (.started id), .ok _, _ => [.invoked t id]
  | t, .commit, .ok _, w => [.committed t (w.store.pending t)]
  | _, _, _, _ => []

/-- A state of the backend with its history. -/
abbrev Recorded := World × List Entry

def setsRunning (id : CheckId) : Write → Bool
  | .updateCheck id' patch => id' = id && patch.status = some .running
  | _ => false

/-- The task of a commit that publishes the status running of a check. -/
def publisher (id : CheckId) : Entry → Option TaskId
  | .committed t writes => if writes.any (setsRunning id) then some t else none
  | _ => none

/-- Which task was the first to publish the status running of a check. -/
def runner (id : CheckId) (history : List Entry) : Option TaskId :=
  history.findSome? (publisher id)

/-- The task of an entry that tells of the graph of a check. -/
def invoker (id : CheckId) : Entry → Option TaskId
  | .invoked t id' => if id' = id then some t else none
  | _ => none

/-- The tasks that have gone on to the graph of a check, in order. -/
def invocations (id : CheckId) (history : List Entry) : List TaskId :=
  history.filterMap (invoker id)

/-- The transaction has set the check to running. -/
def HasSetRunning (t : TaskId) (id : CheckId) (w : World) : Prop :=
  ∃ wr ∈ w.store.pending t, setsRunning id wr = true

/-- The check is in the tables and has left its first status. -/
def Left (id : CheckId) (db : Db) : Prop :=
  ∃ row, db.check id = some row ∧ row.status ≠ .pending

/-- What holds between any two steps. -/
structure Elected (s : Recorded) : Prop where
  waiting : ∀ t id, HasSetRunning t id s.1 → Left id (s.1.view t) ∧
    ∀ row, s.1.store.committed.check id = some row → row.status = .pending
  published : ∀ id t, runner id s.2 = some t → Left id s.1.store.committed
  once : ∀ id, invocations id s.2 = [] ∨
    ∃ t, runner id s.2 = some t ∧ invocations id s.2 = [t]

/-- What a task must have established before an operation, besides the discipline. -/
def Entitled (t : TaskId) (op : Op) (s : Recorded) : Prop :=
  match op with
  | .note (.started id) => runner id s.2 = some t ∧ t ∉ invocations id s.2
  | _ => True

/-- What a task may rely on, besides the discipline. -/
structure Keeping (t : TaskId) (s s' : Recorded) : Prop where
  runner : ∀ id t', SopRunners.runner id s.2 = some t' → SopRunners.runner id s'.2 = some t'
  own : ∀ id, t ∈ invocations id s'.2 ↔ t ∈ invocations id s.2

section Histories

variable {id : CheckId} {history added : List Entry} {t t' : TaskId}

theorem runner_append (h : runner id history = some t) : runner id (history ++ added) = some t := by
  rw [runner, List.findSome?_append, show history.findSome? (publisher id) = some t from h]
  rfl

theorem runner_committed {writes : List Write} (h : runner id history = none)
    (hset : writes.any (setsRunning id) = true) :
    runner id (history ++ [.committed t writes]) = some t := by
  rw [runner, List.findSome?_append, show history.findSome? (publisher id) = none from h]
  simp only [List.findSome?_cons, publisher, hset, if_true, Option.none_or]

/-- Only a commit elects a task. -/
theorem runner_append_eq_some (h : runner id (history ++ added) = some t) :
    runner id history = some t ∨
      ∃ writes, .committed t writes ∈ added ∧ writes.any (setsRunning id) = true := by
  rw [runner, List.findSome?_append, Option.or_eq_some_iff] at h
  rcases h with h | ⟨-, h⟩
  · exact .inl h
  · obtain ⟨entry, hentry, hsome⟩ := List.exists_of_findSome?_eq_some h
    cases entry with
    | committed t' writes =>
        obtain ⟨hset, rfl⟩ : _ ∧ t' = t := by simpa only [publisher,
          Option.ite_none_right_eq_some, Option.some.injEq] using hsome
        exact .inr ⟨writes, hentry, hset⟩
    | _ => cases hsome

theorem invocations_append : invocations id (history ++ added) =
    invocations id history ++ invocations id added := by
  simp [invocations]

theorem mem_invocations : t ∈ invocations id history ↔ .invoked t id ∈ history := by
  simp only [invocations, List.mem_filterMap]
  constructor
  · rintro ⟨entry, hentry, hsome⟩
    cases entry with
    | invoked t' id' =>
        obtain ⟨rfl, rfl⟩ : id' = id ∧ t' = t := by simpa only [invoker,
          Option.ite_none_right_eq_some, Option.some.injEq] using hsome
        exact hentry
    | _ => cases hsome
  · exact fun h => ⟨_, h, by simp [invoker]⟩

theorem setsRunning_eq_true {wr : Write} (h : setsRunning id wr = true) :
    ∃ patch, wr = .updateCheck id patch ∧ patch.status = some .running := by
  cases wr with
  | updateCheck id' patch =>
      simp only [setsRunning, Bool.and_eq_true, decide_eq_true_eq] at h
      exact ⟨patch, by rw [h.1], h.2⟩
  | _ => simp [setsRunning] at h

end Histories

section Steps

variable {t t' : TaskId} {op : Op} {choice : Choice} {w w' : World} {r : Except Exn (Reply op)}
  {id : CheckId} {s s' : Recorded}

theorem mem_entries_committed {writes : List Write}
    (h : .committed t' writes ∈ entries t op r w) :
    op = .commit ∧ (∃ a, r = .ok a) ∧ t' = t ∧ writes = w.store.pending t := by
  unfold entries at h
  split at h
  · split at h <;> simp at h
  · simp at h
  · exact ⟨rfl, ⟨_, rfl⟩, by simpa using h⟩
  · simp at h

/-- A commit that succeeds publishes what its transaction sees. -/
theorem exec_commit {a : Reply .commit} (h : exec t .commit choice w = some (.ok a, w')) :
    w'.store.committed = w.view t := by
  obtain ⟨answer, kept, -, hsucceed⟩ := exec_ok h
  obtain ⟨-, rfl⟩ := Prod.mk.inj (Option.some.inj hsucceed)
  rfl

theorem mem_entries_invoked (h : .invoked t' id ∈ entries t op r w) :
    op = .note (.started id) ∧ t' = t := by
  unfold entries at h
  split at h
  · split at h <;> simp at h
  · obtain ⟨rfl, rfl⟩ : t' = t ∧ id = _ := by simpa using h
    exact ⟨rfl, rfl⟩
  · simp at h
  · simp at h

theorem Left.apply {wr : Write} {db : Db} (h : Left id db)
    (hwr : ∀ patch, wr = .updateCheck id patch → patch.status ≠ some .pending) :
    Left id (schema.apply wr db) := by
  obtain ⟨row, hrow, hne⟩ := h
  cases wr with
  | insertCheck other => exact ⟨row, by simp [check_insertCheck, hrow], hne⟩
  | updateCheck id' patch =>
      rw [Left, check_updateCheck]
      split
      · rename_i hid
        subst hid
        refine ⟨patch.apply row, by simp [hrow], fun hpending => ?_⟩
        cases hstatus : patch.status with
        | none => exact hne (by simpa [CheckPatch.apply, hstatus] using hpending)
        | some status =>
            have : status = .pending := by simpa [CheckPatch.apply, hstatus] using hpending
            exact hwr patch rfl (this ▸ hstatus)
      · exact ⟨row, hrow, hne⟩
  | _ => exact ⟨row, hrow, hne⟩

/-- A check that has left its first status has left it for every transaction. -/
theorem Left.view (h : Left id w.store.committed) (hcoherent : Coherent w) :
    Left id (w.view t) := by
  refine applyAll_keeps (φ := Left id) (fun wr hwr db hdb => hdb.apply fun patch hpatch => ?_) h
  exact (hcoherent.status t id patch (hpatch ▸ hwr)).1

/-- The first change to running finds the check pending; its transaction has the lock, so that
nobody else changes the check before the commit. -/
theorem Elected.waiting_step (h : Elected s) (hcoherent : Coherent s.1)
    (hpre : Discipline t op s.1) (hexec : exec t op choice s.1 = some (r, s'.1))
    (hset : HasSetRunning t' id s'.1) : Left id (s'.1.view t') ∧
      ∀ row, s'.1.store.committed.check id = some row → row.status = .pending := by
  have houtcome := exec_outcome hexec
  obtain ⟨wr, hwr, hrunning⟩ := hset
  by_cases hne : t' = t
  · subst hne
    rcases pending_of_effect houtcome.effect with ⟨heq, hcommitted⟩ | heq |
      ⟨wr', -, hwr', hcommitted, heq⟩
    · have hview : s'.1.view t' = s.1.view t' := by
        simp only [World.view, Store.view, heq, hcommitted]
      rw [hview, hcommitted]
      exact h.waiting t' id ⟨wr, heq ▸ hwr, hrunning⟩
    · simp [heq] at hwr
    · have hview : s'.1.view t' = schema.apply wr' (s.1.view t') := by
        simp only [World.view, Store.view, heq, hcommitted, applyAll_append]
      rw [hview, hcommitted]
      have hpending : ∀ patch, wr' = .updateCheck id patch → patch.status ≠ some .pending := by
        rintro patch rfl hstatus
        cases hwr' with
        | updateCheck => exact hpre.2.1 (net_status hstatus)
      rw [heq, List.mem_append, List.mem_singleton] at hwr
      rcases hwr with hold | rfl
      · obtain ⟨hleft, hrow⟩ := h.waiting t' id ⟨wr, hold, hrunning⟩
        exact ⟨hleft.apply hpending, hrow⟩
      · obtain ⟨patch, rfl, hstatus⟩ := setsRunning_eq_true hrunning
        cases hwr' with
        | @updateCheck check patch =>
            obtain ⟨-, row, hrow, hrowPending⟩ := hpre.2.2 (net_status hstatus)
            refine ⟨⟨(patch.net check).apply row, ?_, ?_⟩, fun row₀ hrow₀ => ?_⟩
            · rw [check_updateCheck, if_pos rfl, hrow]
              rfl
            · simp [CheckPatch.apply, hstatus]
            · exact hcoherent.pending_committed hrow₀ hrow hrowPending
  · have hrely := hcoherent.rely houtcome hne
    rw [hrely.pending] at hwr
    obtain ⟨hleft, hrow⟩ := h.waiting t' id ⟨wr, hwr, hrunning⟩
    obtain ⟨patch, rfl, -⟩ := setsRunning_eq_true hrunning
    have howner : s.1.store.owner (.check id) = some t' :=
      hcoherent.guarded t' _ _ hwr (by simp [schema])
    refine ⟨?_, ?_⟩
    · rw [Left, (Prod.mk.inj (hrely.view_check howner)).1]
      exact hleft
    · rw [(Prod.mk.inj (hrely.checkLocked id howner)).1]
      exact hrow

/-- A task that has set the check to running is the first one to publish that. -/
theorem Elected.unpublished (h : Elected s) (hset : HasSetRunning t id s.1) :
    runner id s.2 = none := by
  cases hrunner : runner id s.2 with
  | none => rfl
  | some t' =>
      obtain ⟨row, hrow, hne⟩ := h.published id t' hrunner
      exact absurd ((h.waiting t id hset).2 row hrow) hne

theorem Elected.published_step (h : Elected s) (hcoherent : Coherent s.1)
    (hexec : exec t op choice s.1 = some (r, s'.1))
    (hrecord : s'.2 = s.2 ++ entries t op r s.1) (hrunner : runner id s'.2 = some t') :
    Left id s'.1.store.committed := by
  rw [hrecord] at hrunner
  rcases runner_append_eq_some hrunner with hold | ⟨writes, hwrites, hset⟩
  · have hleft := h.published id t' hold
    rcases committed_of_effect (exec_outcome hexec).effect with heq | ⟨-, -, heq⟩
    · exact heq ▸ hleft
    · exact heq ▸ hleft.view hcoherent
  · obtain ⟨rfl, ⟨a, rfl⟩, rfl, rfl⟩ := mem_entries_committed hwrites
    rw [exec_commit hexec]
    exact (h.waiting t' id (by simpa [HasSetRunning] using hset)).1

theorem Elected.once_step (h : Elected s) (hentitled : Entitled t op s)
    (hrecord : s'.2 = s.2 ++ entries t op r s.1) :
    invocations id s'.2 = [] ∨ ∃ t, runner id s'.2 = some t ∧ invocations id s'.2 = [t] := by
  rw [hrecord, invocations_append]
  cases hadded : invocations id (entries t op r s.1) with
  | nil =>
      rw [List.append_nil]
      rcases h.once id with hnone | ⟨t', hrunner, honce⟩
      · exact .inl hnone
      · exact .inr ⟨t', runner_append hrunner, honce⟩
  | cons t' rest =>
      have hmem : t' ∈ invocations id (entries t op r s.1) := hadded ▸ List.mem_cons_self
      obtain ⟨rfl, rfl⟩ := mem_entries_invoked (mem_invocations.mp hmem)
      obtain ⟨hrunner, hfirst⟩ := hentitled
      have hnone : invocations id s.2 = [] := by
        rcases h.once id with hnone | ⟨t, hrunner', honce⟩
        · exact hnone
        · obtain rfl := Option.some.inj (hrunner.symm.trans hrunner')
          simp [honce] at hfirst
      refine .inr ⟨t', runner_append hrunner, ?_⟩
      rw [hnone, List.nil_append, ← hadded]
      cases r with
      | ok a => simp [entries, invocations, invoker]
      | error e => simp [entries, invocations] at hadded

theorem Elected.step (h : Elected s) (hcoherent : Coherent s.1) (hpre : Discipline t op s.1)
    (hentitled : Entitled t op s) (hexec : exec t op choice s.1 = some (r, s'.1))
    (hrecord : s'.2 = s.2 ++ entries t op r s.1) : Elected s' where
  waiting _ _ hset := h.waiting_step hcoherent hpre hexec hset
  published _ _ hrunner := h.published_step hcoherent hexec hrecord hrunner
  once _ := h.once_step hentitled hrecord

theorem keeping_step (hne : t' ≠ t) (hrecord : s'.2 = s.2 ++ entries t op r s.1) :
    Keeping t' s s' := by
  refine ⟨fun id t'' h => hrecord ▸ runner_append h, fun id => ?_⟩
  rw [hrecord, invocations_append, List.mem_append]
  refine or_iff_left fun hmem => hne ?_
  exact (mem_entries_invoked (mem_invocations.mp hmem)).2

theorem Keeping.refl (t : TaskId) (s : Recorded) : Keeping t s s :=
  ⟨fun _ _ h => h, fun _ => Iff.rfl⟩

theorem Keeping.trans {s₁ s₂ s₃ : Recorded} (h : Keeping t s₁ s₂) (h' : Keeping t s₂ s₃) :
    Keeping t s₁ s₃ :=
  ⟨fun id t' hrunner => h'.runner id t' (h.runner id t' hrunner),
    fun id => (h'.own id).trans (h.own id)⟩

end Steps

/-- The discipline of the recording backend. -/
abbrev recordedDiscipline : Protocol (recording exec entries) fun t op choice s =>
    unrestricted t op choice s.1 :=
  recorded (discipline unrestricted) entries

/-- The protocol of the runs: a task goes on to the graph once, and only when it has published the
status running. -/
def runnerProtocol : Protocol (recording exec entries) fun t op choice s =>
    unrestricted t op choice s.1 ∧ Discipline t op s.1 :=
  recordedDiscipline.extend Elected Keeping Entitled Keeping.refl Keeping.trans
    fun hcoherent helected hpre hentitled _ hexec _ => by
      obtain ⟨hstep, hrecord⟩ := recording_eq_some hexec
      exact ⟨helected.step hcoherent hpre hentitled hstep hrecord,
        fun _ hne _ => keeping_step hne hrecord⟩

section Programs

variable {t : TaskId} {id : CheckId}

/-- The task has not gone on to a graph. -/
def Uninvoked (t : TaskId) (s : Recorded) : Prop :=
  ∀ id, t ∉ invocations id s.2

/-- `mark_running` has set the status, and nothing is committed yet. -/
structure Chosen (t : TaskId) (id : CheckId) (s : Recorded) : Prop where
  uninvoked : Uninvoked t s
  set : HasSetRunning t id s.1

/-- The task has published the status running. -/
structure Won (t : TaskId) (id : CheckId) (s : Recorded) : Prop where
  uninvoked : Uninvoked t s
  runner : runner id s.2 = some t

theorem stable_uninvoked : Stable runnerProtocol t (Uninvoked t) :=
  fun _ _ _ h hrely _ id hmem => h id ((hrely.2.own id).mp hmem)

theorem stable_chosen : Stable runnerProtocol t (Chosen t id) := by
  rintro s s' hinv ⟨hun, wr, hwr, hset⟩ hrely hinv'
  have hpending : s'.1.store.pending t = s.1.store.pending t := Rely.pending hrely.1
  exact ⟨stable_uninvoked s s' hinv hun hrely hinv', wr, hpending ▸ hwr, hset⟩

theorem stable_won : Stable runnerProtocol t (Won t id) :=
  fun s s' hinv h hrely hinv' =>
    ⟨stable_uninvoked s s' hinv h.uninvoked hrely hinv', hrely.2.runner id t h.runner⟩

/-- The operations that are no step to the graph. -/
def NotStarted : Op → Prop
  | .note (.started _) => False
  | _ => True

theorem notStarted_of_plain {op : Op} (h : Plain op) : NotStarted op := by
  cases op with
  | note n => cases n <;> first | exact h.elim | trivial
  | _ => trivial

theorem NotStarted.entitled {op : Op} (h : NotStarted op) (s : Recorded) : Entitled t op s := by
  cases op with
  | note n => cases n <;> first | exact h.elim | trivial
  | _ => trivial

theorem Uninvoked.exec (op : Op) {choice : Choice} {r : Except Exn (Reply op)} {s s' : Recorded}
    (h : Uninvoked t s) (hop : NotStarted op)
    (hexec : recording exec entries t op choice s = some (r, s')) : Uninvoked t s' := by
  intro id hmem
  rw [(recording_eq_some hexec).2, invocations_append, List.mem_append] at hmem
  rcases hmem with hold | hnew
  · exact h id hold
  · obtain ⟨rfl, -⟩ := mem_entries_invoked (mem_invocations.mp hnew)
    exact hop

/-- A program that takes no step to the graph may run in any state. -/
theorem triple_notStarted {α : Type} {p : Program α} (hp : Uses NotStarted p) :
    Triple runnerProtocol t (fun _ => True) p (fun _ _ => True) fun _ _ => True :=
  Triple.of_uses (Stable.const True) (fun _ s hop _ _ => hop.entitled s)
    (fun _ _ _ _ _ _ _ _ _ _ => trivial) hp

theorem triple_uninvoked {α : Type} {p : Program α} (hp : Uses NotStarted p) :
    Triple runnerProtocol t (Uninvoked t) p (fun _ => Uninvoked t) fun _ => Uninvoked t :=
  Triple.of_uses stable_uninvoked (fun _ s hop _ _ => hop.entitled s)
    (fun op _ _ _ _ hop _ h _ hexec => h.exec op hop hexec) hp

/-- One await in front of what takes no step to the graph when it fails. -/
theorem triple_before (op : Op) (hop : NotStarted op) :
    Triple runnerProtocol t (Uninvoked t) (await op) (fun _ => Uninvoked t) fun _ _ => True :=
  (triple_uninvoked (Uses.perform hop)).weaken (fun _ _ h => h) (fun _ _ _ h => h)
    fun _ _ _ _ => trivial

/-- What `mark_running` has found. -/
def Outcome (t : TaskId) (id : CheckId) : Option SopQualityCheck → Recorded → Prop
  | some _ => Chosen t id
  | none => Uninvoked t

theorem hasSetRunning_updateCheck {check : SopQualityCheck} {choice : Choice}
    {reply : SopQualityCheck} {w w' : World} (hpending : check.status = .pending)
    (hexec : exec t (.updateCheck check { status := some .running }) choice w =
      some (.ok reply, w')) : HasSetRunning t check.id w' := by
  obtain ⟨answer, kept, -, hsucceed⟩ := exec_ok hexec
  obtain ⟨mid, -, hrecord⟩ := Store.write_eq_some (succeed_updateCheck (by simp) hsucceed)
  refine ⟨_, by rw [hrecord, Store.record_pending]; exact List.mem_concat_self, ?_⟩
  simp [setsRunning, CheckPatch.net, hpending, Option.filter_some]

theorem triple_markRunning :
    Triple runnerProtocol t (Uninvoked t) (markRunning id) (Outcome t id) fun _ => Uninvoked t := by
  have hreads : ∀ op, Reads op → NotStarted op := fun _ h => notStarted_of_plain (plain_of_reads h)
  refine Triple.bind (triple_uninvoked ((straight_requireCheck id).uses.mono hreads)) fun _ => ?_
  refine Triple.bind (triple_uninvoked ((straight_lockCheck id).uses.mono hreads)) fun _ => ?_
  refine Triple.bind (B := fun check s => Uninvoked t s ∧ check.id = id) ?_ fun check => ?_
  · refine Triple.perform stable_uninvoked (fun _ => stable_uninvoked.and (Stable.const _))
      (fun _ => stable_uninvoked) (fun _ _ _ => trivial) ?_
    intro s choice r s' _ h _ _ hexec
    have hun := h.exec (.refreshCheck id) trivial hexec
    cases r with
    | error e => exact hun
    | ok check =>
        obtain ⟨answer, kept, -, hsucceed⟩ := exec_ok (recording_eq_some hexec).1
        exact ⟨hun, Db.check_id (reply_refreshCheck hsucceed).1⟩
  · split
    · exact Triple.done stable_uninvoked fun _ _ h => h.1
    · rename_i hstatus
      have hpending : check.status = .pending := by simpa using hstatus
      refine Triple.bind (B := fun _ => Chosen t id) ?_ fun _ =>
        Triple.done stable_chosen fun _ _ h => h
      refine Triple.perform (stable_uninvoked.and (Stable.const _)) (fun _ => stable_chosen)
        (fun _ => stable_uninvoked) (fun _ _ _ => trivial) ?_
      intro s choice r s' _ h _ _ hexec
      obtain ⟨hun, hid⟩ := h
      have hun' := hun.exec (.updateCheck check { status := some .running }) trivial hexec
      cases r with
      | error e => exact hun'
      | ok reply =>
          exact ⟨hun', hid ▸ hasSetRunning_updateCheck hpending (recording_eq_some hexec).1⟩

/-- The writes of a transaction last until it ends. -/
theorem pending_lasts {type : EventType} {op : Op} {choice : Choice} {a : Reply op} {w w' : World}
    (hop : Appends type op) (hexec : exec t op choice w = some (.ok a, w')) {wr : Write}
    (hwr : wr ∈ w.store.pending t) : wr ∈ w'.store.pending t := by
  cases (exec_outcome hexec).effect with
  | stay heq => rwa [heq]
  | lock _ _ heq => rwa [(Store.lock_eq_some heq).pending]
  | write _ _ heq =>
      obtain ⟨mid, hlocks, hrecord⟩ := Store.write_eq_some heq
      rw [hrecord, Store.record_pending, hlocks.pending]
      exact List.mem_append_left _ hwr
  | commit _ _ => exact hop.elim
  | rollback hended _ _ _ =>
      rcases hended with ⟨e, he⟩ | rfl | rfl
      · cases he
      · exact hop.elim
      · exact hop.elim

theorem triple_appendEvent (type : EventType) (node checkpointId taskId message : Option String) :
    Triple runnerProtocol t (Chosen t id) (appendEvent id type node checkpointId taskId message)
      (fun _ => Chosen t id) fun _ => Uninvoked t := by
  have hplain : ∀ {op}, Appends type op → NotStarted op :=
    fun h => notStarted_of_plain (plain_of_appends h)
  refine Triple.of_straight stable_chosen stable_uninvoked
    (fun _ s hop _ _ => (hplain hop).entitled s) ?_ ?_ (fun _ _ h => h.uninvoked)
    (straight_appendEvent id type node checkpointId taskId message)
  · rintro op choice a s s' hop - ⟨hun, wr, hwr, hset⟩ - hexec
    exact ⟨hun.exec op (hplain hop) hexec, wr,
      pending_lasts hop (recording_eq_some hexec).1 hwr, hset⟩
  · rintro op choice e s s' hop - h - hexec
    exact h.uninvoked.exec op (hplain hop) hexec

/-- The commit after `mark_running` publishes the status, which no other task has done before. -/
theorem triple_commit :
    Triple runnerProtocol t (Chosen t id) (await .commit) (fun _ => Won t id)
      fun _ => Uninvoked t := by
  refine Triple.perform stable_chosen (fun _ => stable_won) (fun _ => stable_uninvoked)
    (fun _ _ _ => trivial) ?_
  rintro s choice r s' hinv ⟨hun, hset⟩ - - hexec
  have hun' := hun.exec .commit trivial hexec
  cases r with
  | error e => exact hun'
  | ok a =>
      refine ⟨hun', ?_⟩
      rw [(recording_eq_some hexec).2]
      exact runner_committed (hinv.2.unpublished hset) (by simpa [HasSetRunning] using hset)

theorem triple_tryRun (c : Collaborators) :
    Triple runnerProtocol t (Uninvoked t) (tryRun c id) (fun _ _ => True) fun _ _ => True := by
  have hplain : ∀ {α : Type} {p : Program α}, Uses Plain p →
      Triple runnerProtocol t (fun _ => True) p (fun _ _ => True) fun _ _ => True :=
    fun hp => triple_notStarted (hp.mono fun _ => notStarted_of_plain)
  refine Triple.bind (triple_markRunning.weaken (fun _ _ h => h) (fun _ _ _ h => h)
    fun _ _ _ _ => trivial) fun found => ?_
  cases found with
  | none => exact Triple.done (Stable.const True) fun _ _ _ => trivial
  | some check =>
      refine Triple.bind ((triple_appendEvent .started _ _ _ _).weaken (fun _ _ h => h)
        (fun _ _ _ h => h) fun _ _ _ _ => trivial) fun event => ?_
      refine Triple.bind (triple_commit.weaken (fun _ _ h => h) (fun _ _ _ h => h)
        fun _ _ _ _ => trivial) fun _ => ?_
      refine Triple.bind (B := fun _ _ => True) ?_ fun _ => hplain ?_
      · refine Triple.perform stable_won (fun _ => Stable.const True) (fun _ => Stable.const True)
          (fun s _ h => ⟨h.runner, h.uninvoked id⟩) ?_
        rintro s choice (e | a) s' - - - - - <;> trivial
      · refine Uses.bind ((uses_publishEvent _ _).mono fun _ => plain_of_publishes) fun _ => ?_
        refine Uses.bind ((uses_ainvoke _ _ _ _).mono fun _ => plain_of_graph) fun _ => ?_
        refine Uses.bind ((uses_recordCheckpoint _ id).mono fun _ => plain_of_checkpoints)
          fun _ => ?_
        exact (uses_markSucceeded c id _ _).mono fun _ => plain_of_bystander

theorem triple_run (c : Collaborators) (id : CheckId) :
    Triple runnerProtocol t (Uninvoked t) (runSopQualityCheckWithNewSession c id) (fun _ _ => True)
      fun _ _ => True := by
  have hfailed : ∀ c e, Triple runnerProtocol t (fun _ => True) (markFailed c id e)
      (fun _ _ => True) fun _ _ => True :=
    fun c e => triple_notStarted ((uses_markFailed c id e).mono fun _ h =>
      notStarted_of_plain (plain_of_bystander h))
  have hoperation : ∀ {op : Op}, NotStarted op → Triple runnerProtocol t (fun _ => True)
      (await op) (fun _ _ => True) fun _ _ => True :=
    fun hop => triple_notStarted (Uses.perform hop)
  refine Triple.ensuring (fun _ => Stable.const True) (fun _ => Stable.const True)
    (Triple.tryCatch (B := fun _ _ => True) ?_ fun e => ?_) (fun _ => hoperation trivial)
    fun _ => hoperation trivial
  · refine Triple.bind (triple_before .openCheckpointer trivial) fun _ => ?_
    refine Triple.ensuring (fun _ => Stable.const True) (fun _ => Stable.const True) ?_
      (fun _ => hoperation trivial) fun _ => hoperation trivial
    exact Triple.tryCatch (triple_tryRun _) fun e => hfailed _ e
  · exact Triple.bind (hoperation trivial) fun _ => hfailed _ e

theorem uses_call (call : RepositoryCall) : Uses Bystander call.run := by
  cases call with
  | markRunning id =>
      exact Uses.bind ((uses_markRunning id).mono fun _ => bystander_of_begins) fun _ => trivial
  | markTerminal id status terminal qualityResult result error =>
      refine Uses.bind ?_ fun _ => trivial
      exact (uses_markTerminal _ _ _ _ _).mono fun _ => bystander_of_concludes
  | interruptActiveChecksOnStartup =>
      exact Uses.bind uses_interruptActiveChecksOnStartup fun _ => trivial
  | commit => exact Uses.perform trivial
  | rollback => exact Uses.perform trivial

theorem uses_transactions (script : List RepositoryCall) :
    Uses Bystander (transactions script) := by
  refine Uses.ensuring ?_ (Uses.perform trivial)
  induction script with
  | nil => trivial
  | cons call rest ih =>
      exact Uses.bind (Uses.tryCatch (uses_call call) fun _ => trivial) fun _ => ih

theorem triple_spawnable {c : Collaborators} {p : Program Unit} (hp : Spawnable c p) :
    Triple runnerProtocol t (Uninvoked t) p (fun _ _ => True) fun _ _ => True := by
  have hplain : ∀ {p : Program Unit}, Uses Plain p →
      Triple runnerProtocol t (Uninvoked t) p (fun _ _ => True) fun _ _ => True :=
    fun hp => (triple_notStarted (hp.mono fun _ => notStarted_of_plain)).weaken
      (fun _ _ _ => trivial) (fun _ _ _ h => h) fun _ _ _ h => h
  rcases hp with hp | ⟨script, rfl⟩
  · cases hp with
    | run id =>
        refine Triple.bind (triple_before (.startBackground id) trivial) fun _ => ?_
        exact Triple.bind (triple_run c id) fun _ =>
          Triple.done (Stable.const True) fun _ _ _ => trivial
    | startup =>
        exact hplain (uses_startup.mono fun _ => plain_of_bystander)
    | start environments sopId envKey createdBy =>
        refine hplain (Uses.bind (Uses.ensuring ?_ (Uses.perform trivial)) fun _ => trivial)
        exact (uses_startCheck _ _ _ _).mono fun _ => plain_of_starts
  · exact hplain ((uses_transactions script).mono fun _ => plain_of_bystander)

end Programs

section Runs

variable {c : Collaborators} {w : World}

/-- The configurations of the recording backend. -/
abbrev RecordedConfig := Coroutine.Config Reply Exn TaskId Recorded

abbrev RecordedSteps (c : Collaborators) : RecordedConfig → RecordedConfig → Prop :=
  Steps (recording exec entries) (Spawnable c) unrestricted

/-- The discipline as an invariant of the recorded runs. -/
abbrev OrderlyRecorded (c : RecordedConfig) : Prop :=
  Invariant recordedDiscipline (fun _ _ => True) (fun _ _ _ => True) c

theorem safe_recorded (t : TaskId) (p : Program Unit) (hp : Spawnable c p) (s : Recorded)
    (hinv : recordedDiscipline.inv s) (_ : True) :
    Safe recordedDiscipline t (fun _ _ => True) p s :=
  Safe.mono (fun _ _ _ _ => trivial)
    (Safe.recorded (disciplined_transactions c unrestricted t p hp s.1 hinv trivial))

theorem elected_idle (hidle : Idle w) : Elected (w, []) := by
  refine ⟨fun t id hset => ?_, fun id t h => ?_, fun id => .inl rfl⟩
  · obtain ⟨wr, hwr, -⟩ := hset
    simp [hidle.pending t] at hwr
  · cases h

theorem elected_of_steps (hidle : Idle w) (hw : WellFormed w) {c₁ : RecordedConfig}
    (h₁ : RecordedSteps c (.idle (w, [])) c₁) : Elected c₁.shared := by
  have horderly : OrderlyRecorded (.idle (w, [])) := .idle (hw.coherent hidle) fun _ => trivial
  have hinv : Invariant runnerProtocol (fun t s => Uninvoked t s) (fun _ _ _ => True)
      (Config.idle (w, []) : RecordedConfig) :=
    .idle ⟨hw.coherent hidle, elected_idle hidle⟩ fun t id hmem => by cases hmem
  exact (hinv.steps (fun _ => stable_uninvoked)
    (fun t p hp s hs hbegin => Safe.mono (fun _ _ _ _ => trivial) (triple_spawnable hp s hs hbegin))
    (horderly.steps_pre (fun _ => Stable.const True) safe_recorded h₁)).shared.2

/-- The check has an outcome. -/
def HasOutcome (id : CheckId) (w : World) : Prop :=
  ∃ row, w.store.committed.check id = some row ∧ row.status.active = false

/-- From a state in which the check has an outcome, `mark_running` returns it to nobody. -/
def NeverAgain (s s' : Recorded) : Prop :=
  ∀ id, HasOutcome id s.1 → HasOutcome id s'.1 ∧
    ∃ later, s'.2 = s.2 ++ later ∧ ∀ t, .obtained t id ∉ later

theorem NeverAgain.trans {s₁ s₂ s₃ : Recorded} (h : NeverAgain s₁ s₂) (h' : NeverAgain s₂ s₃) :
    NeverAgain s₁ s₃ := by
  intro id hid
  obtain ⟨hid₂, later, hlater, hnone⟩ := h id hid
  obtain ⟨hid₃, later', hlater', hnone'⟩ := h' id hid₂
  refine ⟨hid₃, later ++ later', by rw [hlater', hlater, List.append_assoc], fun t hmem => ?_⟩
  rcases List.mem_append.mp hmem with hmem | hmem
  · exact hnone t hmem
  · exact hnone' t hmem

theorem mem_entries_obtained {t t' : TaskId} {op : Op} {r : Except Exn (Reply op)} {id : CheckId}
    (h : .obtained t' id ∈ entries t op r w) :
    ∃ check patch, op = .updateCheck check patch ∧ patch.status = some .running ∧
      check.id = id := by
  unfold entries at h
  split at h
  · split at h
    · rename_i hstatus
      obtain ⟨-, rfl⟩ : _ ∧ id = _ := by simpa using h
      exact ⟨_, _, rfl, hstatus, rfl⟩
    · simp at h
  · simp at h
  · simp at h
  · simp at h

theorem neverAgain_step {t : TaskId} {op : Op} {choice : Choice} {s s' : Recorded}
    {r : Except Exn (Reply op)} (hcoherent : Coherent s.1) (hpre : Discipline t op s.1)
    (hexec : recording exec entries t op choice s = some (r, s')) : NeverAgain s s' := by
  obtain ⟨hstep, hrecord⟩ := recording_eq_some hexec
  rintro id ⟨row, hrow, hterminal⟩
  refine ⟨?_, _, hrecord, fun t' hmem => ?_⟩
  · rcases committed_of_effect (exec_outcome hstep).effect with heq | ⟨-, -, heq⟩
    · exact ⟨row, heq ▸ hrow, hterminal⟩
    · rw [HasOutcome, heq]
      exact hcoherent.terminal_view hrow hterminal
  · obtain ⟨check, patch, rfl, hstatus, rfl⟩ := mem_entries_obtained hmem
    obtain ⟨-, row', hrow', hpending⟩ := hpre.2.2 hstatus
    simp [hcoherent.pending_committed hrow hrow' hpending, CheckStatus.active] at hterminal

end Runs

/-- In every interleaving of runs of a check with calls of `mark_running` and `mark_terminal` and
with startups, at most one run goes on to the graph, and once an outcome of the check is committed
`mark_running` returns it to nobody. -/
theorem at_most_one_runner (c : Collaborators) {w : World} (hidle : Idle w) (hw : WellFormed w)
    {c₁ c₂ : RecordedConfig} (h₁ : RecordedSteps c (.idle (w, [])) c₁)
    (h₂ : RecordedSteps c c₁ c₂) :
    (∀ id, (invocations id c₂.shared.2).length ≤ 1) ∧ NeverAgain c₁.shared c₂.shared := by
  have horderly : OrderlyRecorded (.idle (w, [])) := .idle (hw.coherent hidle) fun _ => trivial
  constructor
  · intro id
    rcases (elected_of_steps hidle hw (h₁.trans h₂)).once id with hnone | ⟨t, -, honce⟩
    · simp [hnone]
    · simp [honce]
  · refine (horderly.steps (fun _ => Stable.const True) safe_recorded h₁).steps_relation
      (R := NeverAgain) (fun _ => Stable.const True) safe_recorded (fun s id hid => ?_)
      NeverAgain.trans (fun hinv hpre _ hexec => neverAgain_step hinv hpre hexec) h₂
    exact ⟨hid, [], by simp, by simp⟩

/-- A run of the check goes on to the graph, and then a startup interrupts the check. -/
def startThenInterrupt : List (Move Reply Exn TaskId Choice) :=
  .spawn 0 (backgroundRun collaborators 0) :: List.replicate 12 (proceed 0) ++
    .spawn 1 interruptLeftoverSopQualityChecks :: List.replicate 8 (proceed 1)

/-- A second run of the check finds it interrupted. -/
def runAgain : List (Move Reply Exn TaskId Choice) :=
  .spawn 2 (backgroundRun collaborators 0) :: List.replicate 8 (proceed 2)

theorem at_most_one_runner_startThenInterrupt : ∃ c₁ c₂ : RecordedConfig,
    follow (recording exec entries) unrestricted (.idle (oneCheck .pending, []))
        startThenInterrupt = some c₁ ∧
      follow (recording exec entries) unrestricted c₁ runAgain = some c₂ ∧
      (c₁.shared.1.store.committed.check 0).map (·.status) = some .interrupted ∧
      invocations 0 c₂.shared.2 = [0] ∧
      (∀ id, (invocations id c₂.shared.2).length ≤ 1) ∧ NeverAgain c₁.shared c₂.shared := by
  have hrun : ∃ c₁ c₂ : RecordedConfig,
      follow (recording exec entries) unrestricted (.idle (oneCheck .pending, []))
          startThenInterrupt = some c₁ ∧
        follow (recording exec entries) unrestricted c₁ runAgain = some c₂ ∧
        (c₁.shared.1.store.committed.check 0).map (·.status) = some .interrupted ∧
        invocations 0 c₂.shared.2 = [0] :=
    ⟨_, _, rfl, rfl, rfl, rfl⟩
  obtain ⟨c₁, c₂, h₁, h₂, hinterrupted, hinvoked⟩ := hrun
  have hspawn : ∀ p ∈ started startThenInterrupt, Spawnable collaborators p := by
    simpa [startThenInterrupt, started, proceed] using ⟨.inl (.run 0), .inl .startup⟩
  have hspawn' : ∀ p ∈ started runAgain, Spawnable collaborators p := by
    simpa [runAgain, started, proceed] using .inl (.run 0)
  exact ⟨c₁, c₂, h₁, h₂, hinterrupted, hinvoked, at_most_one_runner collaborators
    (idle_oneCheck .pending) (wellFormed_oneCheck .pending) (follow_steps hspawn h₁)
    (follow_steps hspawn' h₂)⟩

end ChangeQuality.SopRunners
