import Mathlib.Order.Basic
import Mathlib.Data.Nat.Basic
import ChangeQuality.SopSystem

/-!
What an operation of the SOP quality backend can do, said once: to the store, to the copies that
the session of its task has loaded, and to nothing of the other tasks.
-/

namespace ChangeQuality.SopEffects

open ChangeQuality.Values
open ChangeQuality.SopTables
open ChangeQuality.SopRepository
open ChangeQuality.SopRunner
open ChangeQuality.SopSystem
open ChangeQuality.ReadCommitted

/-- The row that an operation only locks. -/
def lockOf : Op → Option Key
  | .lockCheck id => some (.check id)
  | .lockSession id => some (.session id)
  | _ => none

/-- The row of a key is in the tables. -/
def Present (db : Db) : Key → Prop
  | .check id => (db.check id).isSome
  | .session id => (db.session id).isSome
  | .subject _ _ => True

/-- The write that an operation sends, with what the database checked before and the number that
it drew. -/
inductive Writes (t : TaskId) (w w' : World) : Op → Write → Prop
  | updateCheck {check : SopQualityCheck} {patch : CheckPatch} :
      Writes t w w' (.updateCheck check patch) (.updateCheck check.id (patch.net check))
  | insertEvent {event : SopQualityEvent} :
      Present (w.view t) (.check event.checkId) →
      Writes t w w' (.insertEvent event) (.insertEvent event)
  | insertCheck {values : NewCheck} :
      (∀ id, values.sessionId = some id → Present (w.view t) (.session id)) →
      w'.nextCheck = w.nextCheck + 1 →
      Writes t w w' (.insertCheck values) (.insertCheck (values.toRow w.nextCheck))
  | insertSession {title : Option String} {row : Session} :
      row.id = w.nextSession → row.status = .active → w'.nextSession = w.nextSession + 1 →
      Writes t w w' (.insertSession title) (.insertSession row)
  | updateSession {session : Session} {status : SessionStatus} :
      Writes t w w' (.updateSession session status)
        (.updateSession session.id (SessionPatch.net (some status) session))
  | insertMessage {message : Message} :
      Present (w.view t) (.session message.sessionId) →
      Writes t w w' (.insertMessage message) (.insertMessage message)

/-- What an operation of `t` can do to the store; only a failure or an explicit end rolls back. -/
inductive Effect (t : TaskId) (w w' : World) (failed : Prop) : Op → Prop
  | stay {op : Op} : w'.store = w.store → Effect t w w' failed op
  | lock {op : Op} {k : Key} :
      lockOf op = some k → Present (w.view t) k → w.store.lock t k = some w'.store →
      Effect t w w' failed op
  | write {op : Op} {wr : Write} :
      ¬ failed → Writes t w w' op wr → w.store.write schema t wr = some w'.store →
      Effect t w w' failed op
  | commit : ¬ failed → w'.store = w.store.commit schema t → Effect t w w' failed .commit
  | rollback {op : Op} :
      failed ∨ op = .rollback ∨ op = .close → w'.store = w.store.rollback t →
      w'.checks t = [] → w'.sessions t = [] → Effect t w w' failed op

variable {t t' : TaskId} {op : Op} {choice : Choice} {w w' : World} {r : Except Exn (Reply op)}
  {failed : Prop}

theorem Effect.change (h : Effect t w w' failed op) : Change schema t w.store w'.store := by
  cases h with
  | stay h => exact h ▸ .stay
  | lock _ _ h => exact .lock h
  | write _ _ h => exact .write h
  | commit _ h => exact h ▸ .commit
  | rollback _ h => exact h ▸ .rollback

theorem exec_succeed {answer : Answer} {kept : Bool}
    (h : exec t op (.succeed answer kept) w = some (r, w')) :
    ∃ reply, r = .ok reply ∧ succeed t answer kept w op = some (reply, w') := by
  simp only [exec] at h
  split at h
  · simp at h
  · obtain ⟨⟨reply, w₁⟩, hsucceed, heq⟩ := Option.map_eq_some_iff.mp h
    obtain ⟨rfl, rfl⟩ := Prod.mk.inj heq
    exact ⟨reply, rfl, hsucceed⟩

/-- An operation of a session that rejects statements does not succeed. -/
theorem exec_invalid {answer : Answer} {kept : Bool} (hinvalid : w.invalid t = true)
    (huses : usesSession op = true) : exec t op (.succeed answer kept) w = none := by
  simp [exec, hinvalid, huses]

theorem exec_fail {e : Exn} {poisons : Bool} (h : exec t op (.fail e poisons) w = some (r, w')) :
    infallible op = false ∧ r = .error e ∧
      ((usesSession op = true ∧ (poisons = true ∨ flushes op = true) ∧ w' = w.reset t true) ∨
        (usesSession op = false ∨ poisons = false ∧ flushes op = false) ∧ w' = w) := by
  simp only [exec] at h
  split at h
  · simp at h
  · rename_i hinfallible
    refine ⟨by simpa using hinfallible, ?_⟩
    split at h
    · rename_i hpoisoned
      obtain ⟨rfl, rfl⟩ := Prod.mk.inj (Option.some.inj h)
      simp only [Bool.and_eq_true, Bool.or_eq_true] at hpoisoned
      exact ⟨rfl, .inl ⟨hpoisoned.1, hpoisoned.2, rfl⟩⟩
    · rename_i hpoisoned
      obtain ⟨rfl, rfl⟩ := Prod.mk.inj (Option.some.inj h)
      simp only [Bool.and_eq_true, Bool.or_eq_true, not_and_or, not_or, Bool.not_eq_true]
        at hpoisoned
      exact ⟨rfl, .inr ⟨hpoisoned, rfl⟩⟩

/-- What an operation leaves alone: the copies, the validity and the phase of the other tasks. -/
structure Local (t : TaskId) (w w' : World) : Prop where
  checks : ∀ t', t' ≠ t → w'.checks t' = w.checks t'
  sessions : ∀ t', t' ≠ t → w'.sessions t' = w.sessions t'
  invalid : ∀ t', t' ≠ t → w'.invalid t' = w.invalid t'
  phase : ∀ t', t' ≠ t → w'.phase t' = w.phase t'
  nextCheck : w.nextCheck ≤ w'.nextCheck
  nextSession : w.nextSession ≤ w'.nextSession

theorem Local.refl (t : TaskId) (w : World) : Local t w w :=
  ⟨fun _ _ => rfl, fun _ _ => rfl, fun _ _ => rfl, fun _ _ => rfl, le_rfl, le_rfl⟩

theorem Local.trans {w₁ w₂ w₃ : World} (h : Local t w₁ w₂) (h' : Local t w₂ w₃) :
    Local t w₁ w₃ where
  checks t' hne := (h'.checks t' hne).trans (h.checks t' hne)
  sessions t' hne := (h'.sessions t' hne).trans (h.sessions t' hne)
  invalid t' hne := (h'.invalid t' hne).trans (h.invalid t' hne)
  phase t' hne := (h'.phase t' hne).trans (h.phase t' hne)
  nextCheck := h.nextCheck.trans h'.nextCheck
  nextSession := h.nextSession.trans h'.nextSession

theorem local_loadCheck (row : SopQualityCheck) : Local t w (w.loadCheck t row) :=
  { Local.refl t w with checks := fun t' hne => by simp [World.loadCheck, hne] }

theorem local_loadSession (row : Session) : Local t w (w.loadSession t row) :=
  { Local.refl t w with sessions := fun t' hne => by simp [World.loadSession, hne] }

theorem local_loadChecks (rows : List SopQualityCheck) :
    Local t w (rows.foldl (fun w check => w.loadCheck t check) w) := by
  induction rows generalizing w with
  | nil => exact .refl t w
  | cons row rows ih => exact (local_loadCheck row).trans ih

theorem local_withStore (s : Store Db Write Key TaskId) : Local t w (w.withStore s) :=
  { Local.refl t w with }

theorem local_reset (invalid : Bool) : Local t w (w.reset t invalid) :=
  { Local.refl t w with
    checks := fun t' hne => by simp [World.reset, hne]
    sessions := fun t' hne => by simp [World.reset, hne]
    invalid := fun t' hne => by simp [World.reset, hne] }

theorem local_noted (n : Note) : Local t w (w.noted t n) := by
  cases n with
  | alreadyTerminal | called | answered => exact .refl t w
  | started id =>
      exact { Local.refl t w with phase := fun t' hne => by simp [World.noted, hne] }
  | lastResort id =>
      simp only [World.noted]
      split
      · exact { Local.refl t w with phase := fun t' hne => by simp [hne] }
      · exact .refl t w

theorem noted_eq (n : Note) :
    (w.noted t n).store = w.store ∧ (w.noted t n).checks = w.checks ∧
      (w.noted t n).sessions = w.sessions := by
  cases n with
  | alreadyTerminal | called | answered => exact ⟨rfl, rfl, rfl⟩
  | started id => exact ⟨rfl, rfl, rfl⟩
  | lastResort id =>
      simp only [World.noted]
      split <;> exact ⟨rfl, rfl, rfl⟩

/-- The tables have the row of a copy, with the session that the copy names. -/
def Known (db : Db) (copy : SopQualityCheck) : Prop :=
  ∃ row, db.check copy.id = some row ∧ row.sessionId = copy.sessionId

/-- What an operation may load: rows that the task sees, copies that it was given, and the row that
it inserts. -/
structure Loads (t : TaskId) (w : World) (op : Op) (w' : World) : Prop where
  checks : ∀ copy ∈ w'.checks t, copy ∈ w.checks t ∨ Known (w.view t) copy ∨
    (∃ check patch, op = .updateCheck check patch ∧ copy = patch.apply check) ∨
    (copy.id = w.nextCheck ∧ w.store.write schema t (.insertCheck copy) = some w'.store)
  sessions : ∀ copy ∈ w'.sessions t, copy ∈ w.sessions t ∨
    (w.view t).session copy.id = some copy ∨
    (∃ session status, op = .updateSession session status ∧
      copy = SessionPatch.apply (some status) session) ∨
    (copy.status = .active ∧ w.store.write schema t (.insertSession copy) = some w'.store)

theorem Loads.of_eq (hchecks : w'.checks t = w.checks t) (hsessions : w'.sessions t = w.sessions t) :
    Loads t w op w' :=
  ⟨fun _ h => .inl (hchecks ▸ h), fun _ h => .inl (hsessions ▸ h)⟩

theorem mem_loadCheck {row copy : SopQualityCheck} (h : copy ∈ (w.loadCheck t row).checks t) :
    copy = row ∨ copy ∈ w.checks t := by
  simp only [World.loadCheck, Function.update_self, List.mem_cons, List.mem_filter] at h
  exact h.imp id fun h => h.1

theorem mem_loadSession {row copy : Session} (h : copy ∈ (w.loadSession t row).sessions t) :
    copy = row ∨ copy ∈ w.sessions t := by
  simp only [World.loadSession, Function.update_self, List.mem_cons, List.mem_filter] at h
  exact h.imp id fun h => h.1

theorem mem_loadChecks {rows : List SopQualityCheck} {copy : SopQualityCheck}
    (h : copy ∈ (rows.foldl (fun w check => w.loadCheck t check) w).checks t) :
    copy ∈ rows ∨ copy ∈ w.checks t := by
  induction rows generalizing w with
  | nil => exact .inr h
  | cons row rows ih =>
      rcases ih h with h | h
      · exact .inl (List.mem_cons_of_mem row h)
      · rcases mem_loadCheck h with rfl | h
        · exact .inl List.mem_cons_self
        · exact .inr h

theorem loadChecks_eq (rows : List SopQualityCheck) :
    (rows.foldl (fun w check => w.loadCheck t check) w).store = w.store ∧
      (rows.foldl (fun w check => w.loadCheck t check) w).sessions = w.sessions := by
  induction rows generalizing w with
  | nil => exact ⟨rfl, rfl⟩
  | cons row rows ih => exact ih

theorem heldCheck_mem {kept : Bool} {id : CheckId} {copy : SopQualityCheck}
    (h : w.heldCheck t kept id = some copy) : copy ∈ w.checks t := by
  unfold World.heldCheck at h
  split at h
  · exact List.mem_of_find?_eq_some h
  · simp at h

theorem write_eq_some {wr : Write} (h : w.write t wr = some w') :
    ∃ s, w.store.write schema t wr = some s ∧ w' = w.withStore s := by
  obtain ⟨s, hs, rfl⟩ := Option.map_eq_some_iff.mp h
  exact ⟨s, hs, rfl⟩

theorem lock_eq_some {k : Key} (h : w.lock t k = some w') :
    ∃ s, w.store.lock t k = some s ∧ w' = w.withStore s := by
  obtain ⟨s, hs, rfl⟩ := Option.map_eq_some_iff.mp h
  exact ⟨s, hs, rfl⟩

/-- Everything that a successful operation does. -/
structure Outcome (t : TaskId) (w : World) (failed : Prop) (op : Op) (w' : World) : Prop where
  effect : Effect t w w' failed op
  frame : Local t w w'
  loads : Loads t w op w'

theorem Outcome.unchanged : Outcome t w failed op w :=
  ⟨.stay rfl, .refl t w, .of_eq rfl rfl⟩

theorem Outcome.loadCheck {row : SopQualityCheck} (hrow : Known (w.view t) row) :
    Outcome t w failed op (w.loadCheck t row) := by
  refine ⟨.stay rfl, local_loadCheck row, fun copy h => ?_, fun copy h => .inl h⟩
  rcases mem_loadCheck h with rfl | h
  · exact .inr (.inl hrow)
  · exact .inl h

theorem Outcome.lock {k : Key} (hop : lockOf op = some k) (hk : Present (w.view t) k)
    (h : w.lock t k = some w') : Outcome t w failed op w' := by
  obtain ⟨s, hs, rfl⟩ := lock_eq_some h
  exact ⟨.lock hop hk hs, local_withStore s, .of_eq rfl rfl⟩

theorem Outcome.write {wr : Write} (hwr : ∀ w', Writes t w w' op wr)
    (h : w.write t wr = some w') : Outcome t w False op w' := by
  obtain ⟨s, hs, rfl⟩ := write_eq_some h
  exact ⟨.write not_false (hwr _) hs, local_withStore s, .of_eq rfl rfl⟩

theorem check_known {id : CheckId} {row : SopQualityCheck} (h : (w.view t).check id = some row) :
    Known (w.view t) row :=
  ⟨row, Db.check_id h ▸ h, rfl⟩

/-- A row that a query found, or the copy that the session already holds of it. -/
theorem held_or_known {kept : Bool} {row : SopQualityCheck}
    (hrow : row ∈ (w.view t).activeChecks) :
    (w.heldCheck t kept row.id).getD row ∈ w.checks t ∨
      Known (w.view t) ((w.heldCheck t kept row.id).getD row) := by
  cases hheld : w.heldCheck t kept row.id with
  | some held => exact .inl (heldCheck_mem hheld)
  | none => exact .inr (check_known (Db.mem_activeChecks hrow).1)

theorem succeed_outcome {answer : Answer} {kept : Bool} {reply : Reply op}
    (h : succeed t answer kept w op = some (reply, w')) : Outcome t w False op w' := by
  cases op with
  | getCheck id =>
      simp only [succeed] at h
      split at h
      · obtain ⟨-, rfl⟩ := Prod.mk.inj (Option.some.inj h)
        exact .unchanged
      · split at h
        · rename_i row hrow
          obtain ⟨-, rfl⟩ := Prod.mk.inj (Option.some.inj h)
          exact .loadCheck (check_known hrow)
        · obtain ⟨-, rfl⟩ := Prod.mk.inj (Option.some.inj h)
          exact .unchanged
  | lockCheck id =>
      simp only [succeed] at h
      split at h
      · rename_i row hrow
        obtain ⟨w₁, hlock, heq⟩ := Option.map_eq_some_iff.mp h
        obtain ⟨-, rfl⟩ := Prod.mk.inj heq
        exact .lock rfl (by simp [Present, hrow]) hlock
      · obtain ⟨-, rfl⟩ := Prod.mk.inj (Option.some.inj h)
        exact .unchanged
  | refreshCheck id =>
      obtain ⟨row, hrow, heq⟩ := Option.map_eq_some_iff.mp h
      obtain ⟨-, rfl⟩ := Prod.mk.inj heq
      exact .loadCheck (check_known hrow)
  | updateCheck check patch =>
      have hloads : ∀ w₁ : World, w₁.checks = w.checks → w₁.sessions = w.sessions →
          Loads t w (.updateCheck check patch) (w₁.loadCheck t (patch.apply check)) := by
        refine fun w₁ hchecks hsessions => ⟨fun copy hcopy => ?_, fun copy hcopy => ?_⟩
        · rcases mem_loadCheck hcopy with rfl | hcopy
          · exact .inr (.inr (.inl ⟨check, patch, rfl, rfl⟩))
          · exact .inl (hchecks ▸ hcopy)
        · exact .inl (hsessions ▸ hcopy)
      simp only [succeed] at h
      split at h
      · obtain ⟨-, rfl⟩ := Prod.mk.inj (Option.some.inj h)
        exact ⟨.stay rfl, local_loadCheck _, hloads w rfl rfl⟩
      · obtain ⟨w₁, hwrite, heq⟩ := Option.map_eq_some_iff.mp h
        obtain ⟨-, rfl⟩ := Prod.mk.inj heq
        obtain ⟨s, hs, rfl⟩ := write_eq_some hwrite
        exact ⟨.write not_false .updateCheck hs, (local_withStore s).trans (local_loadCheck _),
          hloads _ rfl rfl⟩
  | insertEvent event =>
      simp only [succeed] at h
      split at h
      · rename_i hcheck
        obtain ⟨w₁, hwrite, heq⟩ := Option.map_eq_some_iff.mp h
        obtain ⟨-, rfl⟩ := Prod.mk.inj heq
        exact .write (fun _ => .insertEvent hcheck.1) hwrite
      · simp at h
  | selectActive =>
      obtain ⟨-, rfl⟩ := Prod.mk.inj (Option.some.inj h)
      refine ⟨?_, local_loadChecks _, fun copy hcopy => ?_, fun copy hcopy => .inl ?_⟩
      · exact .stay (loadChecks_eq _).1
      · rcases mem_loadChecks hcopy with hcopy | hcopy
        · obtain ⟨row, hrow, rfl⟩ := List.mem_map.mp hcopy
          exact (held_or_known hrow).imp id .inl
        · exact .inl hcopy
      · rwa [(loadChecks_eq _).2] at hcopy
  | activeCheck sopId envKey =>
      simp only [succeed] at h
      split at h
      · obtain ⟨-, rfl⟩ := Prod.mk.inj (Option.some.inj h)
        exact .unchanged
      · rename_i row hrow
        obtain ⟨-, rfl⟩ := Prod.mk.inj (Option.some.inj h)
        refine ⟨.stay rfl, local_loadCheck _, fun copy hcopy => ?_, fun copy hcopy => .inl hcopy⟩
        rcases mem_loadCheck hcopy with rfl | hcopy
        · exact (held_or_known (Db.mem_of_activeCheck hrow)).imp id .inl
        · exact .inl hcopy
  | insertCheck values =>
      simp only [succeed] at h
      split at h
      · rename_i hvalid
        obtain ⟨w₁, hwrite, heq⟩ := Option.map_eq_some_iff.mp h
        obtain ⟨-, rfl⟩ := Prod.mk.inj heq
        obtain ⟨s, hs, rfl⟩ := write_eq_some hwrite
        refine ⟨.write not_false (.insertCheck (fun id hid => ?_) rfl) hs, ?_, fun copy hcopy => ?_,
          fun copy hcopy => .inl hcopy⟩
        · simpa [hid, Present] using hvalid.2
        · exact { (local_withStore s).trans (local_loadCheck (values.toRow w.nextCheck)) with
            nextCheck := Nat.le_succ _ }
        · rcases mem_loadCheck hcopy with rfl | hcopy
          · exact .inr (.inr (.inr ⟨rfl, hs⟩))
          · exact .inl hcopy
      · simp at h
  | insertSession title =>
      simp only [succeed] at h
      split at h
      · split at h
        · obtain ⟨w₁, hwrite, heq⟩ := Option.map_eq_some_iff.mp h
          obtain ⟨-, rfl⟩ := Prod.mk.inj heq
          obtain ⟨s, hs, rfl⟩ := write_eq_some hwrite
          refine ⟨.write not_false (.insertSession rfl rfl rfl) hs, ?_, fun copy hcopy => .inl hcopy,
            fun copy hcopy => ?_⟩
          · exact { (local_withStore s).trans (local_loadSession _) with
              nextSession := Nat.le_succ _ }
          · rcases mem_loadSession hcopy with rfl | hcopy
            · exact .inr (.inr (.inr ⟨rfl, hs⟩))
            · exact .inl hcopy
        · simp at h
      · simp at h
  | getSession id =>
      simp only [succeed] at h
      split at h
      · obtain ⟨-, rfl⟩ := Prod.mk.inj (Option.some.inj h)
        exact .unchanged
      · split at h
        · rename_i row hrow
          obtain ⟨-, rfl⟩ := Prod.mk.inj (Option.some.inj h)
          refine ⟨.stay rfl, local_loadSession row, fun copy h => .inl h, fun copy h => ?_⟩
          rcases mem_loadSession h with rfl | h
          · exact .inr (.inl (Db.session_id hrow ▸ hrow))
          · exact .inl h
        · obtain ⟨-, rfl⟩ := Prod.mk.inj (Option.some.inj h)
          exact .unchanged
  | updateSession session status =>
      obtain ⟨w₁, hwrite, heq⟩ := Option.map_eq_some_iff.mp h
      obtain ⟨-, rfl⟩ := Prod.mk.inj heq
      obtain ⟨s, hs, rfl⟩ := write_eq_some hwrite
      refine ⟨.write not_false .updateSession hs, (local_withStore s).trans (local_loadSession _),
        fun copy hcopy => .inl hcopy, fun copy hcopy => ?_⟩
      rcases mem_loadSession hcopy with rfl | hcopy
      · exact .inr (.inr (.inl ⟨session, status, rfl, rfl⟩))
      · exact .inl hcopy
  | lockSession id =>
      simp only [succeed] at h
      split at h
      · rename_i row hrow
        obtain ⟨w₁, hlock, heq⟩ := Option.map_eq_some_iff.mp h
        obtain ⟨-, rfl⟩ := Prod.mk.inj heq
        exact .lock rfl (by simp [Present, hrow]) hlock
      · obtain ⟨-, rfl⟩ := Prod.mk.inj (Option.some.inj h)
        exact .unchanged
  | insertMessage message =>
      simp only [succeed] at h
      split at h
      · rename_i hsession
        obtain ⟨w₁, hwrite, heq⟩ := Option.map_eq_some_iff.mp h
        obtain ⟨-, rfl⟩ := Prod.mk.inj heq
        exact .write (fun _ => .insertMessage hsession.1) hwrite
      · simp at h
  | commit =>
      obtain ⟨-, rfl⟩ := Prod.mk.inj (Option.some.inj h)
      exact ⟨.commit not_false rfl, local_withStore _, .of_eq rfl rfl⟩
  | rollback | close =>
      obtain ⟨-, rfl⟩ := Prod.mk.inj (Option.some.inj h)
      refine ⟨.rollback (by simp) rfl (by simp [World.reset]) (by simp [World.reset]),
        local_reset false, fun copy hcopy => ?_, fun copy hcopy => ?_⟩
      · simp [World.reset] at hcopy
      · simp [World.reset] at hcopy
  | note n =>
      obtain ⟨-, rfl⟩ := Prod.mk.inj (Option.some.inj h)
      obtain ⟨hstore, hchecks, hsessions⟩ := noted_eq (w := w) (t := t) n
      exact ⟨.stay hstore, local_noted n, .of_eq (by rw [hchecks]) (by rw [hsessions])⟩
  | createAgent | agentStream | agentInvoke | graphState | getSop | startBackground =>
      simp only [succeed] at h
      split at h
      · obtain ⟨-, rfl⟩ := Prod.mk.inj (Option.some.inj h)
        exact .unchanged
      · simp at h
  | latestSequence | latestMessage | flush | publishEvent | publishMessage | publishDelta
  | schedule | openCheckpointer | closeCheckpointer | saveCheckpoint | agentStreamEnd =>
      obtain ⟨-, rfl⟩ := Prod.mk.inj (Option.some.inj h)
      exact .unchanged

theorem Outcome.weaken (h : Outcome t w False op w') (hok : ¬ failed) :
    Outcome t w failed op w' := by
  refine ⟨?_, h.frame, h.loads⟩
  rcases h with ⟨heffect, -, -⟩
  cases heffect with
  | stay h => exact .stay h
  | lock hop hk h => exact .lock hop hk h
  | write _ hwr h => exact .write hok hwr h
  | commit _ h => exact .commit hok h
  | rollback hended h hchecks hsessions =>
      exact .rollback (.inr (hended.resolve_left not_false)) h hchecks hsessions

/-- An operation has its effect, stays with its task, and loads what it read. -/
theorem exec_outcome (h : exec t op choice w = some (r, w')) :
    Outcome t w (∃ e, r = .error e) op w' := by
  cases choice with
  | fail e poisons =>
      obtain ⟨-, hr, ⟨-, -, rfl⟩ | ⟨-, rfl⟩⟩ := exec_fail h
      · refine ⟨.rollback (.inl ⟨e, hr⟩) rfl (by simp [World.reset]) (by simp [World.reset]),
          local_reset true, fun copy hcopy => ?_, fun copy hcopy => ?_⟩
        · simp [World.reset] at hcopy
        · simp [World.reset] at hcopy
      · exact .unchanged
  | succeed answer kept =>
      obtain ⟨reply, rfl, hsucceed⟩ := exec_succeed h
      exact (succeed_outcome hsucceed).weaken (by simp)

section Replies

variable {answer : Answer} {kept : Bool} {id : CheckId}

theorem loadCheck_mem (row : SopQualityCheck) : row ∈ (w.loadCheck t row).checks t := by
  simp [World.loadCheck]

theorem loadSession_mem (row : Session) : row ∈ (w.loadSession t row).sessions t := by
  simp [World.loadSession]

/-- The reply of `session.get` is one of the copies that the session has loaded. -/
theorem reply_getCheck {check : SopQualityCheck}
    (h : succeed t answer kept w (.getCheck id) = some (some check, w')) :
    check ∈ w'.checks t ∧ check.id = id ∧ w'.store = w.store := by
  simp only [succeed] at h
  split at h
  · rename_i held hheld
    obtain ⟨heq, rfl⟩ := Prod.mk.inj (Option.some.inj h)
    obtain rfl := Option.some.inj heq
    refine ⟨heldCheck_mem hheld, ?_, rfl⟩
    unfold World.heldCheck at hheld
    split at hheld
    · simpa using List.find?_some hheld
    · simp at hheld
  · split at h
    · rename_i row hrow
      obtain ⟨heq, rfl⟩ := Prod.mk.inj (Option.some.inj h)
      obtain rfl := Option.some.inj heq
      exact ⟨loadCheck_mem row, Db.check_id hrow, rfl⟩
    · simp at h

/-- `session.get` finds every check that the task sees. -/
theorem reply_getCheck_none (h : succeed t answer kept w (.getCheck id) = some (none, w')) :
    (w.view t).check id = none := by
  simp only [succeed] at h
  split at h
  · simp at h
  · split at h
    · simp at h
    · assumption

theorem reply_refreshCheck {check : SopQualityCheck}
    (h : succeed t answer kept w (.refreshCheck id) = some (check, w')) :
    (w.view t).check id = some check ∧ w' = w.loadCheck t check := by
  obtain ⟨row, hrow, heq⟩ := Option.map_eq_some_iff.mp h
  obtain ⟨rfl, rfl⟩ := Prod.mk.inj heq
  exact ⟨hrow, rfl⟩

theorem reply_lockCheck (h : succeed t answer kept w (.lockCheck id) = some (true, w')) :
    w'.store.owner (.check id) = some t := by
  simp only [succeed] at h
  split at h
  · obtain ⟨w₁, hlock, heq⟩ := Option.map_eq_some_iff.mp h
    obtain ⟨-, rfl⟩ := Prod.mk.inj heq
    obtain ⟨s, hs, rfl⟩ := lock_eq_some hlock
    exact (Store.lock_eq_some hs).taken _ (by simp)
  · simp at h

theorem reply_lockSession {sid : SessionId}
    (h : succeed t answer kept w (.lockSession sid) = some (true, w')) :
    w'.store.owner (.session sid) = some t := by
  simp only [succeed] at h
  split at h
  · obtain ⟨w₁, hlock, heq⟩ := Option.map_eq_some_iff.mp h
    obtain ⟨-, rfl⟩ := Prod.mk.inj heq
    obtain ⟨s, hs, rfl⟩ := lock_eq_some hlock
    exact (Store.lock_eq_some hs).taken _ (by simp)
  · simp at h

theorem reply_lockCheck_false (h : succeed t answer kept w (.lockCheck id) = some (false, w')) :
    (w.view t).check id = none := by
  simp only [succeed] at h
  split at h
  · obtain ⟨w₁, -, heq⟩ := Option.map_eq_some_iff.mp h
    simp at heq
  · assumption

theorem reply_getSession_none {sid : SessionId}
    (h : succeed t answer kept w (.getSession sid) = some (none, w')) :
    (w.view t).session sid = none := by
  simp only [succeed] at h
  split at h
  · simp at h
  · split at h
    · simp at h
    · assumption

theorem reply_getSession {sid : SessionId} {session : Session}
    (h : succeed t answer kept w (.getSession sid) = some (some session, w')) :
    session ∈ w'.sessions t ∧ session.id = sid ∧ w'.store = w.store := by
  simp only [succeed] at h
  split at h
  · rename_i held hheld
    obtain ⟨heq, rfl⟩ := Prod.mk.inj (Option.some.inj h)
    obtain rfl := Option.some.inj heq
    unfold World.heldSession at hheld
    split at hheld
    · exact ⟨List.mem_of_find?_eq_some hheld, by simpa using List.find?_some hheld, rfl⟩
    · simp at hheld
  · split at h
    · rename_i row hrow
      obtain ⟨heq, rfl⟩ := Prod.mk.inj (Option.some.inj h)
      obtain rfl := Option.some.inj heq
      exact ⟨loadSession_mem row, Db.session_id hrow, rfl⟩
    · simp at h

/-- The checks that the startup query finds are rows or copies that the session held. -/
theorem reply_selectActive {checks : List SopQualityCheck}
    (h : succeed t answer kept w .selectActive = some (checks, w')) :
    (∀ check ∈ checks, check ∈ w.checks t ∨ Known (w.view t) check) ∧ w'.store = w.store := by
  obtain ⟨rfl, rfl⟩ := Prod.mk.inj (Option.some.inj h)
  refine ⟨fun check hcheck => ?_, (loadChecks_eq _).1⟩
  obtain ⟨row, hrow, rfl⟩ := List.mem_map.mp hcheck
  exact held_or_known hrow

end Replies

end ChangeQuality.SopEffects
