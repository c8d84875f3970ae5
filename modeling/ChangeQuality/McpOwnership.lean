import ChangeQuality.McpLocks
import ChangeQuality.McpPrograms

/-!
Who may change what of a server. The row of a server and its entry in the registry of handles change
only by the task that holds the lock of the server, but for what a relation on rows lets pass.
-/

namespace ChangeQuality.McpOwnership

open ChangeQuality.Values
open ChangeQuality.McpServers
open ChangeQuality.McpRuntime
open ChangeQuality.McpSystem
open ChangeQuality.McpLocks
open ChangeQuality.ReadCommitted
open ChangeQuality.Coroutine
open ChangeQuality.Interference

section Rows

/-- What a write makes of the row of a server. -/
def onRow (id : ServerId) : Write → Option McpServer → Option McpServer
  | .insertServer new, row => row.or (if new.id = id then some new else none)
  | .updateServer id' patch, row => if id' = id then row.map patch.apply else row
  | .deleteServer id', row => if id' = id then none else row
  | .deleteTools _, row => row
  | .insertTools _, row => row

def onRowAll (id : ServerId) (writes : List Write) (row : Option McpServer) : Option McpServer :=
  writes.foldl (fun row wr => onRow id wr row) row

theorem server_id {db : Db} {id : ServerId} {row : McpServer} (h : db.server id = some row) :
    row.id = id := by
  simpa using List.find?_some h

/-- The row of a server after a write depends on its row before only. -/
theorem server_apply (id : ServerId) (wr : Write) (db : Db) :
    (schema.apply wr db).server id = onRow id wr (db.server id) := by
  cases wr with
  | insertServer new =>
      have hnew : [new].find? (fun row => decide (row.id = id)) =
          if new.id = id then some new else none := by
        by_cases h : new.id = id <;> simp [h]
      simp only [Db.server, schema, onRow, List.find?_append, hnew]
  | updateServer id' patch =>
      have hsame : ((fun row : McpServer => decide (row.id = id)) ∘ fun row : McpServer =>
          if row.id = id' then patch.apply row else row) = fun row => decide (row.id = id) := by
        funext row
        by_cases h : row.id = id' <;> simp [h, McpServerPatch.apply]
      simp only [Db.server, schema, onRow, List.find?_map, hsame]
      by_cases hid : id' = id
      · subst hid
        rw [if_pos rfl]
        cases hfind : db.servers.find? fun row => decide (row.id = id') with
        | none => rfl
        | some row =>
            have hrow : row.id = id' := server_id hfind
            rw [Option.map_some, Option.map_some, if_pos hrow]
      · rw [if_neg hid]
        cases hfind : db.servers.find? fun row => decide (row.id = id) with
        | none => rfl
        | some row =>
            have hrow : row.id ≠ id' := fun h => hid (h.symm.trans (server_id hfind))
            rw [Option.map_some, if_neg hrow]
  | deleteServer id' =>
      simp only [Db.server, schema, onRow, List.find?_filter]
      by_cases hid : id' = id
      · subst hid
        rw [if_pos rfl, List.find?_eq_none]
        intro row _
        by_cases h : row.id = id' <;> simp [h]
      · rw [if_neg hid]
        congr 1
        funext row
        by_cases h : row.id = id
        · simp [h, Ne.symm hid]
        · simp [h]
  | deleteTools id' => rfl
  | insertTools rows => rfl

theorem server_applyAll (id : ServerId) (ws : List Write) (db : Db) :
    (applyAll schema ws db).server id = onRowAll id ws (db.server id) := by
  induction ws generalizing db with
  | nil => rfl
  | cons wr ws ih =>
      change (applyAll schema ws (schema.apply wr db)).server id = onRowAll id ws (onRow id wr _)
      rw [ih, server_apply]

theorem server_view (w : World) (x : Txn) (id : ServerId) :
    (w.view x).server id = onRowAll id (w.store.pending x) (w.store.committed.server id) :=
  server_applyAll id _ _

@[simp] theorem onRowAll_append (id : ServerId) (ws : List Write) (wr : Write)
    (row : Option McpServer) : onRowAll id (ws ++ [wr]) row = onRow id wr (onRowAll id ws row) := by
  simp [onRowAll]

/-- A relation that every write of a list keeps to, the list keeps to. -/
theorem onRowAll_relation {R : Option McpServer → Option McpServer → Prop} {id : ServerId}
    {ws : List Write} (hrefl : ∀ row, R row row)
    (htrans : ∀ {row₁ row₂ row₃}, R row₁ row₂ → R row₂ row₃ → R row₁ row₃)
    (h : ∀ wr ∈ ws, ∀ row, R row (onRow id wr row)) (row : Option McpServer) :
    R row (onRowAll id ws row) := by
  induction ws generalizing row with
  | nil => exact hrefl row
  | cons wr ws ih =>
      refine htrans (h wr (by simp) row) (ih (fun wr' hwr' => h wr' (by simp [hwr'])) _)

end Rows

section Effects

variable {t : TaskId} {op : Op} {choice : Choice} {w w' : World} {r : Except Exn (Reply op)}

/-- The write that a statement of a session makes. -/
inductive Statement (t : TaskId) (w : World) : Op → Conn → Write → Prop
  | insertServer {conn : Conn} {values : McpServerCreate} :
      Statement t w (.insertServer conn values) conn (.insertServer (values.toRow w.nextServer))
  | updateServer {conn : Conn} {id : ServerId} {patch : McpServerPatch} {server : McpServer} :
      w.instance? (t, conn) id = some server →
      Statement t w (.updateServer conn id patch) conn (.updateServer id (patch.net server))
  | deleteServer {conn : Conn} {id : ServerId} :
      Statement t w (.deleteServer conn id) conn (.deleteServer id)
  | deleteTools {conn : Conn} {id : ServerId} :
      Statement t w (.deleteTools conn id) conn (.deleteTools id)
  | insertTools {conn : Conn} {rows : List McpServerTool} :
      Statement t w (.insertTools conn rows) conn (.insertTools rows)

/-- What an operation does to the store. -/
inductive StoreChange (t : TaskId) (op : Op) (w : World) : Store Db Write ServerId Txn → Prop
  | stay : StoreChange t op w w.store
  | write {conn : Conn} {wr : Write} {store : Store Db Write ServerId Txn} :
      Statement t w op conn wr → w.store.write schema (t, conn) wr = some store →
      StoreChange t op w store
  | commit {conn : Conn} : op = .commit conn →
      StoreChange t op w (w.store.commit schema (t, conn))
  | rollback {conn : Conn} : StoreChange t op w (w.store.rollback (t, conn))

theorem World.write_eq_some {x : Txn} {wr : Write} (h : w.write x wr = some w') :
    ∃ store, w.store.write schema x wr = some store ∧ w' = { w with store } := by
  obtain ⟨store, hstore, rfl⟩ := Option.map_eq_some_iff.mp h
  exact ⟨store, hstore, rfl⟩

theorem World.write_loaded {x : Txn} {wr : Write} (h : w.write x wr = some w') :
    w'.loaded = w.loaded := by
  obtain ⟨store, -, rfl⟩ := World.write_eq_some h
  rfl

theorem World.write_handles {x : Txn} {wr : Write} (h : w.write x wr = some w') :
    w'.handles = w.handles := by
  obtain ⟨store, -, rfl⟩ := World.write_eq_some h
  rfl

theorem World.load_loaded_ne {x y : Txn} (hne : x ≠ y) (w : World) (row : McpServer) :
    (w.load y row).loaded x = w.loaded x :=
  Function.update_of_ne hne _ _

theorem World.unload_loaded_ne {x y : Txn} (hne : x ≠ y) (w : World) (id : ServerId) :
    (w.unload y id).loaded x = w.loaded x :=
  Function.update_of_ne hne _ _

theorem World.load_handles (w : World) (x : Txn) (row : McpServer) :
    (w.load x row).handles = w.handles := rfl

theorem World.unload_handles (w : World) (x : Txn) (id : ServerId) :
    (w.unload x id).handles = w.handles := rfl

theorem succeed_change {tools : List Json} {reply : Reply op}
    (h : succeed t tools w op = some (reply, w')) : StoreChange t op w w'.store := by
  cases op with
  | commit conn =>
      obtain ⟨-, rfl⟩ := Prod.mk.inj (Option.some.inj h)
      exact .commit rfl
  | close conn =>
      obtain ⟨-, rfl⟩ := Prod.mk.inj (Option.some.inj h)
      exact .rollback
  | insertServer conn values =>
      simp only [succeed] at h
      split at h
      · simp at h
      · obtain ⟨mid, hmid, heq⟩ := Option.map_eq_some_iff.mp h
        obtain ⟨store, hstore, rfl⟩ := World.write_eq_some hmid
        obtain ⟨-, rfl⟩ := Prod.mk.inj heq
        exact .write .insertServer hstore
  | updateServer conn id patch =>
      simp only [succeed] at h
      split at h
      · simp at h
      · rename_i server hserver
        split at h
        · simp at h
        · split at h
          · obtain ⟨-, rfl⟩ := Prod.mk.inj (Option.some.inj h)
            exact .stay
          · obtain ⟨mid, hmid, heq⟩ := Option.map_eq_some_iff.mp h
            obtain ⟨store, hstore, rfl⟩ := World.write_eq_some hmid
            obtain ⟨-, rfl⟩ := Prod.mk.inj heq
            exact .write (.updateServer hserver) hstore
  | deleteServer conn id =>
      simp only [succeed] at h
      obtain ⟨mid, hmid, heq⟩ := Option.map_eq_some_iff.mp h
      obtain ⟨store, hstore, rfl⟩ := World.write_eq_some hmid
      obtain ⟨-, rfl⟩ := Prod.mk.inj heq
      exact .write .deleteServer hstore
  | deleteTools conn id =>
      simp only [succeed] at h
      obtain ⟨mid, hmid, heq⟩ := Option.map_eq_some_iff.mp h
      obtain ⟨store, hstore, rfl⟩ := World.write_eq_some hmid
      obtain ⟨-, rfl⟩ := Prod.mk.inj heq
      exact .write .deleteTools hstore
  | insertTools conn rows =>
      simp only [succeed] at h
      split at h
      · obtain ⟨mid, hmid, heq⟩ := Option.map_eq_some_iff.mp h
        obtain ⟨store, hstore, rfl⟩ := World.write_eq_some hmid
        obtain ⟨-, rfl⟩ := Prod.mk.inj heq
        exact .write .insertTools hstore
      · simp at h
  | _ =>
      have hstore : w'.store = w.store := by grind [succeed, World.setLock, World.load]
      rw [hstore]
      exact .stay

theorem exec_change (h : exec t op choice w = some (r, w')) : StoreChange t op w w'.store := by
  cases choice with
  | fail e poisons =>
      obtain ⟨-, -, rfl | ⟨conn, -, rfl⟩⟩ := exec_fail h
      · cases op <;> exact .stay
      · exact .rollback
  | succeed tools =>
      obtain ⟨reply, -, hsucceed⟩ := exec_succeed h
      exact succeed_change hsucceed

/-- Only a commit changes what is committed. -/
theorem exec_committed (h : exec t op choice w = some (r, w')) :
    w'.store.committed = w.store.committed ∨
      ∃ conn, op = .commit conn ∧ w'.store.committed = w.view (t, conn) := by
  have hchange := exec_change h
  generalize w'.store = store at hchange
  cases hchange with
  | stay => exact .inl rfl
  | write _ hwrite => exact .inl (Store.committed_write hwrite)
  | commit hop => exact .inr ⟨_, hop, rfl⟩
  | rollback => exact .inl rfl

/-- What an operation does to the writes of one of the task's transactions. -/
theorem exec_pending (h : exec t op choice w = some (r, w')) (conn : Conn) :
    w'.store.pending (t, conn) = w.store.pending (t, conn) ∨ w'.store.pending (t, conn) = [] ∨
      ∃ wr, Statement t w op conn wr ∧
        w'.store.pending (t, conn) = w.store.pending (t, conn) ++ [wr] := by
  have hchange := exec_change h
  generalize w'.store = store at hchange
  have hended : ∀ conn', Function.update w.store.pending (t, conn') [] (t, conn) =
      w.store.pending (t, conn) ∨ Function.update w.store.pending (t, conn') [] (t, conn) = [] := by
    intro conn'
    by_cases hconn : conn = conn'
    · exact .inr (by simp [hconn])
    · exact .inl (by simp [hconn])
  cases hchange with
  | stay => exact .inl rfl
  | @write conn' wr _ hstatement hwrite =>
      obtain ⟨mid, hlocks, rfl⟩ := Store.write_eq_some hwrite
      by_cases hconn : conn = conn'
      · subst hconn
        exact .inr (.inr ⟨wr, hstatement, by rw [Store.record_pending, hlocks.pending]⟩)
      · refine .inl ?_
        rw [Store.record_pending_ne (by simpa using hconn), hlocks.pending]
  | @commit conn' hop => exact (hended conn').imp_right .inl
  | @rollback conn' => exact (hended conn').imp_right .inl

/-- The sessions of the other tasks stay as they are. -/
theorem exec_loaded_ne (h : exec t op choice w = some (r, w')) {x : Txn} (hne : x.1 ≠ t) :
    w'.loaded x = w.loaded x := by
  have hx : ∀ conn, x ≠ (t, conn) := by
    rintro conn rfl
    exact hne rfl
  cases choice with
  | fail e poisons =>
      obtain ⟨-, -, rfl | ⟨conn, -, rfl⟩⟩ := exec_fail h
      · cases op <;> rfl
      · rfl
  | succeed tools =>
      obtain ⟨reply, -, hsucceed⟩ := exec_succeed h
      cases op with
      | close conn =>
          obtain ⟨-, rfl⟩ := Prod.mk.inj (Option.some.inj hsucceed)
          exact Function.update_of_ne (hx conn) _ _
      | insertServer conn values =>
          simp only [succeed] at hsucceed
          split at hsucceed
          · simp at hsucceed
          · obtain ⟨mid, hmid, heq⟩ := Option.map_eq_some_iff.mp hsucceed
            obtain ⟨-, rfl⟩ := Prod.mk.inj heq
            exact (World.load_loaded_ne (hx conn) mid _).trans (by rw [World.write_loaded hmid])
      | _ =>
          grind [succeed, World.setLock, World.load_loaded_ne, World.unload_loaded_ne,
            → World.write_loaded, Option.map_eq_some_iff]

theorem exec_pending_ne (h : exec t op choice w = some (r, w')) {x : Txn} (hne : x.1 ≠ t) :
    w'.store.pending x = w.store.pending x := by
  have hx : ∀ conn, x ≠ (t, conn) := by
    rintro conn rfl
    exact hne rfl
  have hchange := exec_change h
  generalize w'.store = store at hchange
  cases hchange with
  | stay => rfl
  | write _ hwrite =>
      obtain ⟨mid, hlocks, rfl⟩ := Store.write_eq_some hwrite
      rw [Store.record_pending_ne (hx _), hlocks.pending]
  | commit _ => exact Function.update_of_ne (hx _) _ _
  | rollback => exact Function.update_of_ne (hx _) _ _

theorem lookup_filter_ne {id id' : ServerId} (hne : id' ≠ id)
    (handles : List (ServerId × Handle)) :
    (handles.filter (·.1 ≠ id)).lookup id' = handles.lookup id' := by
  induction handles with
  | nil => rfl
  | cons entry handles ih =>
      obtain ⟨key, handle⟩ := entry
      by_cases hkey : key = id
      · subst hkey
        have hfalse : (id' == key) = false := by simpa using hne
        simp only [ne_eq, decide_not, List.lookup_cons, hfalse]
        simpa using ih
      · simp only [ne_eq, hkey, not_false_eq_true, decide_true, List.filter_cons_of_pos,
          List.lookup_cons]
        cases id' == key
        · exact ih
        · rfl

theorem lookup_filter_self (id : ServerId) (handles : List (ServerId × Handle)) :
    (handles.filter (·.1 ≠ id)).lookup id = none := by
  rw [List.lookup_eq_none_iff]
  intro entry hentry
  have hne : entry.1 ≠ id := by simpa using (List.mem_filter.mp hentry).2
  simpa using Ne.symm hne

/-- Only two operations change the registry, each the entry that it names. -/
theorem exec_lookup (h : exec t op choice w = some (r, w')) (id : ServerId) :
    w'.handles.lookup id = w.handles.lookup id ∨
      (∃ handle, op = .setHandle id handle ∧ w'.handles.lookup id = some handle) ∨
      (op = .popHandle id ∧ w'.handles.lookup id = none) := by
  cases choice with
  | fail e poisons =>
      obtain ⟨-, -, rfl | ⟨conn, -, rfl⟩⟩ := exec_fail h
      · cases op <;> exact .inl rfl
      · exact .inl rfl
  | succeed tools =>
      obtain ⟨reply, -, hsucceed⟩ := exec_succeed h
      cases op with
      | setHandle id' handle =>
          obtain ⟨-, rfl⟩ := Prod.mk.inj (Option.some.inj hsucceed)
          simp only [List.lookup_append]
          by_cases hid : id = id'
          · subst hid
            refine .inr (.inl ⟨handle, rfl, ?_⟩)
            rw [lookup_filter_self]
            simp
          · refine .inl ?_
            have hfalse : (id == id') = false := by simpa using hid
            rw [lookup_filter_ne hid]
            simp [List.lookup_cons, hfalse]
      | popHandle id' =>
          obtain ⟨-, rfl⟩ := Prod.mk.inj (Option.some.inj hsucceed)
          by_cases hid : id = id'
          · subst hid
            exact .inr (.inr ⟨rfl, lookup_filter_self id w.handles⟩)
          · exact .inl (lookup_filter_ne hid w.handles)
      | _ =>
          refine .inl ?_
          grind [succeed, World.setLock, World.load_handles, World.unload_handles,
            → World.write_handles, Option.map_eq_some_iff]

end Effects

/-- What a relation lets pass of a row that the task does not hold. -/
structure RowRelation where
  holds : Option McpServer → Option McpServer → Prop
  refl : ∀ row, holds row row
  trans : ∀ {row₁ row₂ row₃}, holds row₁ row₂ → holds row₂ row₃ → holds row₁ row₃

section Ownership

variable (R : RowRelation)

/-- The write is within the relation on the row of a server. -/
def Respects (id : ServerId) (wr : Write) : Prop :=
  ∀ row, R.holds row (onRow id wr row)

/-- A task releases the lock and changes the registry of a server under its lock, and what it
commits without the lock is within the relation. -/
def OwnerPre (t : TaskId) (op : Op) (w : World) : Prop :=
  match op with
  | .release id | .setHandle id _ | .popHandle id => (w.lock id).holder = some t
  | .commit conn =>
      ∀ wr ∈ w.store.pending (t, conn), ∀ id, (w.lock id).holder ≠ some t → Respects R id wr
  | _ => True

/-- What a task relies on: of the servers whose lock it holds, the registry stays as it is and the
rows stay within the relation; its own sessions stay as they are. -/
structure OwnerRely (t : TaskId) (w w' : World) : Prop where
  holder : ∀ id, (w.lock id).holder = some t → (w'.lock id).holder = some t
  handle : ∀ id, (w.lock id).holder = some t → w'.handles.lookup id = w.handles.lookup id
  row : ∀ id, (w.lock id).holder = some t →
    R.holds (w.store.committed.server id) (w'.store.committed.server id)
  pending : ∀ conn, w'.store.pending (t, conn) = w.store.pending (t, conn)
  loaded : ∀ conn, w'.loaded (t, conn) = w.loaded (t, conn)

variable {R} {t t' : TaskId} {op : Op} {choice : Choice} {w w' : World} {r : Except Exn (Reply op)}

theorem OwnerRely.refl : OwnerRely R t w w :=
  ⟨fun _ h => h, fun _ _ => rfl, fun _ _ => R.refl _, fun _ => rfl, fun _ => rfl⟩

theorem OwnerRely.trans {w₁ w₂ w₃ : World} (h₁ : OwnerRely R t w₁ w₂) (h₂ : OwnerRely R t w₂ w₃) :
    OwnerRely R t w₁ w₃ where
  holder id h := h₂.holder id (h₁.holder id h)
  handle id h := (h₂.handle id (h₁.holder id h)).trans (h₁.handle id h)
  row id h := R.trans (h₁.row id h) (h₂.row id (h₁.holder id h))
  pending conn := (h₂.pending conn).trans (h₁.pending conn)
  loaded conn := (h₂.loaded conn).trans (h₁.loaded conn)

/-- Only a release gives a lock away. -/
theorem exec_holder (h : exec t op choice w = some (r, w')) {id : ServerId}
    (hheld : (w.lock id).holder = some t') (hop : op = .release id → t' ≠ t)
    (hpre : OwnerPre R t op w) : (w'.lock id).holder = some t' := by
  rcases exec_lock h with ⟨-, heq⟩ | ⟨id', l, hchange, heq⟩
  · rw [heq]
    exact hheld
  · rw [heq]
    by_cases hid : id = id'
    · subst hid
      rw [Function.update_self]
      cases hchange with
      | take hfree => simp [hheld] at hfree
      | serve hfree => simp [hheld] at hfree
      | join => exact hheld
      | abandon => exact hheld
      | release =>
          have howner : (w.lock id).holder = some t := hpre
          exact absurd (Option.some.inj (hheld.symm.trans howner)) (hop rfl)
    · rw [Function.update_of_ne hid]
      exact hheld

/-- A lock that is free after an operation was free before, or is released by it. -/
theorem exec_free (h : exec t op choice w = some (r, w')) {id : ServerId}
    (hfree : (w'.lock id).holder = none) : (w.lock id).holder = none ∨ op = .release id := by
  rcases exec_lock h with ⟨-, heq⟩ | ⟨id', l, hchange, heq⟩
  · exact .inl (by rw [← heq]; exact hfree)
  · rw [heq] at hfree
    by_cases hid : id = id'
    · subst hid
      rw [Function.update_self] at hfree
      cases hchange with
      | take _ => simp at hfree
      | serve _ => simp at hfree
      | join => exact .inl hfree
      | abandon => exact .inl hfree
      | release => exact .inr rfl
    · rw [Function.update_of_ne hid] at hfree
      exact .inl hfree

/-- Of a server whose lock the task does not hold, it changes no entry of the registry. -/
theorem exec_lookup_not_held (h : exec t op choice w = some (r, w')) (hpre : OwnerPre R t op w)
    {id : ServerId} (hheld : (w.lock id).holder ≠ some t) :
    w'.handles.lookup id = w.handles.lookup id := by
  rcases exec_lookup h id with heq | ⟨handle, rfl, -⟩ | ⟨rfl, -⟩
  · exact heq
  · exact absurd hpre hheld
  · exact absurd hpre hheld

/-- Of such a server the committed row stays within the relation. -/
theorem exec_row_not_held (h : exec t op choice w = some (r, w')) (hpre : OwnerPre R t op w)
    {id : ServerId} (hheld : (w.lock id).holder ≠ some t) :
    R.holds (w.store.committed.server id) (w'.store.committed.server id) := by
  rcases exec_committed h with heq | ⟨conn, rfl, heq⟩
  · rw [heq]
    exact R.refl _
  · rw [heq, server_view]
    exact onRowAll_relation R.refl R.trans (fun wr hwr => hpre wr hwr id hheld) _

theorem exec_ownerRely (h : exec t op choice w = some (r, w')) (hpre : OwnerPre R t op w)
    (hne : t' ≠ t) : OwnerRely R t' w w' := by
  have hother : ∀ {id}, (w.lock id).holder = some t' → (w.lock id).holder ≠ some t := by
    intro id hheld howner
    exact hne (Option.some.inj (hheld.symm.trans howner))
  refine ⟨fun id hheld => ?_, fun id hheld => ?_, fun id hheld => ?_, fun conn => ?_, fun conn => ?_⟩
  · exact exec_holder h hheld (fun _ => hne) hpre
  · exact exec_lookup_not_held h hpre (hother hheld)
  · exact exec_row_not_held h hpre (hother hheld)
  · exact exec_pending_ne h hne
  · exact exec_loaded_ne h hne

end Ownership

end ChangeQuality.McpOwnership
