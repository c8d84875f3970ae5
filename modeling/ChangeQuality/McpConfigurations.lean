import Mathlib.Data.Option.Defs
import Mathlib.Logic.Relation
import ChangeQuality.McpOwnership
import ChangeQuality.McpFailures
import ChangeQuality.TextLines

/-!
The configurations that create and PATCH requests leave in `mcp_servers`, the requests being served
one after the other. A PATCH is validated together with the stored row, but only the fields that it
carries are written back.
-/

namespace ChangeQuality.McpConfigurations

open ChangeQuality.Values
open ChangeQuality.McpServers
open ChangeQuality.McpRuntime
open ChangeQuality.McpService
open ChangeQuality.McpSystem
open ChangeQuality.McpPrograms
open ChangeQuality.McpLocks (LockOp LockChange exec_lock)
open ChangeQuality.McpOwnership
open ChangeQuality.McpFailures (net_apply)
open ChangeQuality.ReadCommitted
open ChangeQuality.Solo
open ChangeQuality.Coroutine
open ChangeQuality.Interference
open ChangeQuality.Coroutine.Program (ensuring)

/-- What the URL type is known for: its texts are URLs in their normal form. -/
structure HttpUrlLaws (httpUrl : String → Option String) : Prop where
  idempotent : ∀ url normalized, httpUrl url = some normalized →
    httpUrl normalized = some normalized
  notBlank : ∀ url normalized, httpUrl url = some normalized → strip normalized ≠ ""

/-- The columns of a row that a request configures. -/
def configuration (row : McpServer) : McpServerCreate where
  name := row.name
  transport := row.transport
  command := row.command
  args := row.args
  env := row.env
  url := row.url
  headers := row.headers
  enabled := row.enabled
  desiredState := row.desiredState

/-- The row's configuration validates to itself. -/
def Normal (httpUrl : String → Option String) (row : McpServer) : Prop :=
  validateTransportFields httpUrl (configuration row) = some (configuration row)

/-- Every row that a query finds is normal. -/
def AllNormal (httpUrl : String → Option String) (db : Db) : Prop :=
  ∀ id row, db.server id = some row → Normal httpUrl row

/-- The second row is the first one, but for fields that the payload carries. -/
structure KeepsUnset (payload : McpServerUpdate) (row row' : McpServer) : Prop where
  id : row'.id = row.id
  name : payload.name = .unset → row'.name = row.name
  transport : row'.transport = row.transport
  command : payload.command = .unset → row'.command = row.command
  args : payload.args = .unset → row'.args = row.args
  env : payload.env = .unset → row'.env = row.env
  url : payload.url = .unset → row'.url = row.url
  headers : payload.headers = .unset → row'.headers = row.headers
  enabled : payload.enabled = .unset → row'.enabled = row.enabled
  desiredState : payload.desiredState = .unset → row'.desiredState = row.desiredState

/-- The rows of the other servers are unchanged, and the row of the server keeps what the payload
does not carry. -/
structure ChangesOnly (id : ServerId) (payload : McpServerUpdate) (db db' : Db) : Prop where
  others : ∀ other, other ≠ id → db'.server other = db.server other
  row : Option.Rel (KeepsUnset payload) (db.server id) (db'.server id)

section Rows

variable {httpUrl : String → Option String} {row : McpServer} {payload : McpServerUpdate}
  {id : ServerId} {db db' : Db}

theorem strip_strip (s : String) : strip (strip s) = strip s := by
  change String.ofList (TextLines.trim isSpace (strip s).toList) = _
  rw [strip, String.toList_ofList]
  exact congrArg String.ofList (TextLines.trim_trim isSpace s.toList)

theorem validateTransportFields_idempotent (hurl : HttpUrlLaws httpUrl)
    {values validated : McpServerCreate}
    (h : validateTransportFields httpUrl values = some validated) :
    validateTransportFields httpUrl validated = some validated := by
  unfold validateTransportFields at h
  split at h
  next htransport =>
    split at h
    · cases h
    next command hcommand =>
      split at h
      · cases h
      · split at h
        · cases h
        next hblank =>
          obtain rfl := Option.some.inj h
          have hempty : strip command ≠ "" := hblank
          simp [validateTransportFields, htransport, strip_strip, hempty]
  next htransport =>
    split at h
    · cases h
    next url hurl' =>
      split at h
      · cases h
      · obtain ⟨normalized, hnormalized, rfl⟩ := Option.map_eq_some_iff.mp h
        have hidem := hurl.idempotent _ _ hnormalized
        have hblank := hurl.notBlank _ _ hnormalized
        have hempty : normalized ≠ "" := by
          rintro rfl
          exact hblank (by decide)
        simp [validateTransportFields, htransport, hidem, hblank, hempty]
  · cases h

/-- The model validator makes a command of the command and a URL of the URL, and keeps the rest. -/
theorem validateTransportFields_fields {values validated : McpServerCreate}
    (h : validateTransportFields httpUrl values = some validated) :
    validated = { values with
      command := if values.transport = .stdio then values.command.map strip else values.command
      url := if values.transport = .http then values.url.bind httpUrl else values.url } := by
  unfold validateTransportFields at h
  split at h
  next htransport =>
    split at h
    · cases h
    next command hcommand =>
      split at h
      · cases h
      · split at h
        · cases h
        · obtain rfl := Option.some.inj h
          simp [htransport, hcommand]
  next htransport =>
    split at h
    · cases h
    next url hurl =>
      split at h
      · cases h
      · obtain ⟨normalized, hnormalized, rfl⟩ := Option.map_eq_some_iff.mp h
        simp [htransport, hurl, hnormalized]
  · cases h

theorem pick_getD {α : Type} {field : McpService.Field α} {β : Type} {stored validated : β}
    (h : field = .unset → validated = stored) : (field.pick validated).getD stored = validated := by
  cases field with
  | unset => exact (h rfl).symm
  | null => rfl
  | set _ => rfl

theorem merge_unset {α : Type} {field : McpService.Field α} {stored validated : α}
    (h : field.merge stored = some validated) : field = .unset → validated = stored := by
  rintro rfl
  exact (Option.some.inj h).symm

/-- The fields that a PATCH does not write are already what the validation makes of them. -/
theorem configuration_apply (hrow : Normal httpUrl row) {validated : McpServerCreate}
    (h : validatedMerge httpUrl row payload = some validated) {values : McpServerPatch}
    (hvalues : validatedUpdateValues httpUrl row payload = some values) :
    configuration (values.apply row) = validated := by
  unfold validatedUpdateValues at hvalues
  rw [h] at hvalues
  obtain rfl := Option.some.inj hvalues
  simp only [validatedMerge, Option.bind_eq_bind, Option.bind_eq_some_iff] at h
  obtain ⟨name, hname, args, hargs, env, henv, headers, hheaders, enabled, henabled, desired,
    hdesired, h⟩ := h
  have hstored := validateTransportFields_fields hrow
  have hstoredCommand := congrArg McpServerCreate.command hstored
  have hstoredUrl := congrArg McpServerCreate.url hstored
  have hfields := validateTransportFields_fields h
  have hcommand : payload.command = .unset → validated.command = row.command := by
    intro hunset
    rw [hfields, hunset]
    exact hstoredCommand.symm
  have hvalidatedUrl : payload.url = .unset → validated.url = row.url := by
    intro hunset
    rw [hfields, hunset]
    exact hstoredUrl.symm
  have hkeep {α : Type} {field : McpService.Field α} {stored value written : α} (heq : written = value)
      (hmerge : field.merge stored = some value) : (field.pick written).getD stored = written :=
    pick_getD (heq ▸ merge_unset hmerge)
  have hname' := hkeep (congrArg McpServerCreate.name hfields) hname
  have hargs' := hkeep (congrArg McpServerCreate.args hfields) hargs
  have henv' := hkeep (congrArg McpServerCreate.env hfields) henv
  have hheaders' := hkeep (congrArg McpServerCreate.headers hfields) hheaders
  have henabled' := hkeep (congrArg McpServerCreate.enabled hfields) henabled
  have hdesired' := hkeep (congrArg McpServerCreate.desiredState hfields) hdesired
  have htransport : validated.transport = row.transport :=
    congrArg McpServerCreate.transport hfields
  simp only [configuration, McpServerPatch.apply, hname', pick_getD hcommand, hargs', henv',
    pick_getD hvalidatedUrl, hheaders', henabled', hdesired', ← htransport]

theorem normal_apply (hurl : HttpUrlLaws httpUrl) (hrow : Normal httpUrl row)
    {values : McpServerPatch} (hvalues : validatedUpdateValues httpUrl row payload = some values) :
    Normal httpUrl (values.apply row) := by
  obtain ⟨validated, h, _⟩ := Option.map_eq_some_iff.mp hvalues
  unfold Normal
  rw [configuration_apply hrow h hvalues]
  simp only [validatedMerge, Option.bind_eq_bind, Option.bind_eq_some_iff] at h
  obtain ⟨_, _, _, _, _, _, _, _, _, _, _, _, h⟩ := h
  exact validateTransportFields_idempotent hurl h

theorem normal_toRow (hurl : HttpUrlLaws httpUrl) {raw values : McpServerCreate}
    (h : validateTransportFields httpUrl raw = some values) (id : ServerId) :
    Normal httpUrl (values.toRow id) :=
  validateTransportFields_idempotent hurl h

/-- What is flushed of a PATCH leaves the fields alone that the payload does not carry. -/
theorem keepsUnset_apply {server : McpServer} {values : McpServerPatch}
    (hvalues : validatedUpdateValues httpUrl server payload = some values) (loaded row : McpServer) :
    KeepsUnset payload row ((values.net loaded).apply row) := by
  obtain ⟨validated, _, rfl⟩ := Option.map_eq_some_iff.mp hvalues
  have hkeep {α β : Type} [DecidableEq β] {field : McpService.Field α} (written old stored : β)
      (hunset : field = .unset) :
      (((field.pick written).filter (· ≠ old)).getD stored) = stored := by
    rw [hunset]
    rfl
  exact ⟨rfl, hkeep _ _ _, rfl, hkeep _ _ _, hkeep _ _ _, hkeep _ _ _, hkeep _ _ _, hkeep _ _ _,
    hkeep _ _ _, hkeep _ _ _⟩

theorem KeepsUnset.refl (payload : McpServerUpdate) (row : McpServer) :
    KeepsUnset payload row row :=
  ⟨rfl, fun _ => rfl, rfl, fun _ => rfl, fun _ => rfl, fun _ => rfl, fun _ => rfl, fun _ => rfl,
    fun _ => rfl, fun _ => rfl⟩

theorem KeepsUnset.trans {row₁ row₂ row₃ : McpServer} (h : KeepsUnset payload row₁ row₂)
    (h' : KeepsUnset payload row₂ row₃) : KeepsUnset payload row₁ row₃ where
  id := h'.id.trans h.id
  name hunset := (h'.name hunset).trans (h.name hunset)
  transport := h'.transport.trans h.transport
  command hunset := (h'.command hunset).trans (h.command hunset)
  args hunset := (h'.args hunset).trans (h.args hunset)
  env hunset := (h'.env hunset).trans (h.env hunset)
  url hunset := (h'.url hunset).trans (h.url hunset)
  headers hunset := (h'.headers hunset).trans (h.headers hunset)
  enabled hunset := (h'.enabled hunset).trans (h.enabled hunset)
  desiredState hunset := (h'.desiredState hunset).trans (h.desiredState hunset)

theorem ChangesOnly.refl (id : ServerId) (payload : McpServerUpdate) (db : Db) :
    ChangesOnly id payload db db := by
  refine ⟨fun _ _ => rfl, ?_⟩
  cases db.server id with
  | none => exact .none
  | some row => exact .some (.refl payload row)

/-- The flush of a PATCH. -/
theorem ChangesOnly.update {patch : McpServerPatch} (h : ChangesOnly id payload db db')
    (hpatch : ∀ row, KeepsUnset payload row (patch.apply row)) :
    ChangesOnly id payload db (schema.apply (.updateServer id patch) db') := by
  constructor
  · intro other hother
    rw [server_apply, onRow, if_neg (Ne.symm hother)]
    exact h.others other hother
  · have hmap {stored found : Option McpServer} (hrel : Option.Rel (KeepsUnset payload) stored found) :
        Option.Rel (KeepsUnset payload) stored (found.map patch.apply) := by
      cases hrel with
      | none => exact .none
      | some hrow => exact .some (hrow.trans (hpatch _))
    rw [server_apply, onRow, if_pos rfl]
    exact hmap h.row

theorem AllNormal.update {patch : McpServerPatch} (h : AllNormal httpUrl db)
    (hpatch : ∀ row, db.server id = some row → Normal httpUrl (patch.apply row)) :
    AllNormal httpUrl (schema.apply (.updateServer id patch) db) := by
  intro other row hrow
  rw [server_apply, onRow] at hrow
  split at hrow
  next heq =>
    subst heq
    obtain ⟨stored, hstored, rfl⟩ := Option.map_eq_some_iff.mp hrow
    exact hpatch stored hstored
  · exact h other row hrow

theorem AllNormal.insert {new : McpServer} (h : AllNormal httpUrl db)
    (hnew : Normal httpUrl new) : AllNormal httpUrl (schema.apply (.insertServer new) db) := by
  intro other row hrow
  rw [server_apply, onRow] at hrow
  rcases Option.or_eq_some_iff.mp hrow with hstored | ⟨_, hnew'⟩
  · exact h other row hstored
  · split at hnew'
    · obtain rfl := Option.some.inj hnew'
      exact hnew
    · cases hnew'

end Rows

section Patches

/-- The task has no database session yet. -/
def Fresh (t : TaskId) (w : World) : Prop :=
  ∀ conn, w.store.pending (t, conn) = [] ∧ w.loaded (t, conn) = [] ∧ w.invalid (t, conn) = false

/-- The ways in which `update_server` refuses a PATCH. -/
inductive Refused (httpUrl : String → Option String) (w : World) (id : ServerId)
    (payload : McpServerUpdate) : Prop
  | missing : w.store.committed.server id = none → Refused httpUrl w id payload
  | running {row : McpServer} : w.store.committed.server id = some row →
      row.runtimeStatus = .running ∨ (w.handles.lookup id).isSome → Refused httpUrl w id payload
  | invalid {row : McpServer} : w.store.committed.server id = some row →
      validatedUpdateValues httpUrl row payload = none → Refused httpUrl w id payload
  | nameTaken {row other : McpServer} : w.store.committed.server id = some row →
      other ∈ w.store.committed.servers → other.id ≠ id → payload.name = .set other.name →
      row.name ≠ other.name → Refused httpUrl w id payload

/-- What the unique index on names makes of a flush. -/
def NameTaken (id : ServerId) (net : McpServerPatch) (db : Db) : Prop :=
  ∃ other ∈ db.servers, other.id ≠ id ∧ net.name = some other.name

/-- The flush of a PATCH fails or leads to tables with the property. -/
def Saves (Ok : Db → Prop) (id : ServerId) (server : McpServer) (values : McpServerPatch) (db : Db) :
    Prop :=
  NameTaken id (values.net server) db ∨
    Ok (schema.apply (.updateServer id (values.net server)) db)

variable {Ok : Db → Prop} {found : Option Handle} {t : TaskId} {id : ServerId}

/-- The tables, as committed and as the request sees them, have the property. -/
structure PatchInv (Ok : Db → Prop) (found : Option Handle) (t : TaskId) (id : ServerId)
    (w : World) : Prop where
  committed : Ok w.store.committed
  view : Ok (w.view (t, .request))
  runtime : w.store.pending (t, .runtime) = []
  handle : w.handles.lookup id = found

/-- What a PATCH awaits, on the session of its request. -/
def PatchPre (Ok : Db → Prop) (t : TaskId) (id : ServerId) (op : Op) (w : World) : Prop :=
  match op with
  | .tryAcquire _ | .acquired _ | .release _ | .handleOf _ | .selectServer .request _
  | .reloadServer .request _ | .commit .request | .close .request => True
  | .updateServer .request id' patch => id' = id ∧
      ∀ server, w.instance? (t, .request) id = some server →
        Saves Ok id server patch (w.view (t, .request))
  | _ => False

theorem exec_updateServer {conn : Conn} {patch : McpServerPatch} {choice : Choice} {w w' : World}
    {row : McpServer} (h : exec t (.updateServer conn id patch) choice w = some (.ok row, w')) :
    ∃ server, w.instance? (t, conn) id = some server ∧ row = patch.apply server ∧
      ¬ NameTaken id (patch.net server) (w.view (t, conn)) ∧ w'.lock = w.lock := by
  cases choice with
  | fail e poisons =>
      obtain ⟨_, hr, _⟩ := exec_fail h
      cases hr
  | succeed tools =>
      obtain ⟨reply, hr, hsucceed⟩ := exec_succeed h
      obtain rfl := Except.ok.inj hr
      have hop : ¬ LockOp (.updateServer conn id patch) := fun h => h
      have hlock := McpLocks.succeed_lock hop hsucceed
      simp only [succeed] at hsucceed
      split at hsucceed
      · cases hsucceed
      next server hserver =>
        split at hsucceed
        · cases hsucceed
        next hname =>
          refine ⟨server, hserver, ?_, ?_, hlock⟩
          · split at hsucceed
            · exact (Prod.mk.inj (Option.some.inj hsucceed)).1.symm
            · obtain ⟨_, _, heq⟩ := Option.map_eq_some_iff.mp hsucceed
              exact (Prod.mk.inj heq).1.symm
          · rintro ⟨other, hother, hne, htaken⟩
            exact hname (List.any_eq_true.mpr ⟨other, hother, by simp [hne, htaken]⟩)

theorem patchInv_exec {op : Op} {choice : Choice} {r : Except Exn (Reply op)} {w w' : World}
    (hinv : PatchInv Ok found t id w) (hpre : PatchPre Ok t id op w)
    (hexec : exec t op choice w = some (r, w')) : PatchInv Ok found t id w' := by
  have hruntime : w'.store.pending (t, .runtime) = [] := by
    rcases exec_pending hexec .runtime with heq | hnil | ⟨wr, hstatement, _⟩
    · exact heq.trans hinv.runtime
    · exact hnil
    · cases hstatement <;> exact hpre.elim
  have hhandle : w'.handles.lookup id = found := by
    rcases exec_lookup hexec id with heq | ⟨_, rfl, _⟩ | ⟨rfl, _⟩
    · exact heq.trans hinv.handle
    · exact hpre.elim
    · exact hpre.elim
  suffices h : Ok w'.store.committed ∧ Ok (w'.store.view schema (t, .request)) from
    ⟨h.1, h.2, hruntime, hhandle⟩
  have hview : ∀ conn, Ok ((w.store.rollback (t, conn)).view schema (t, .request)) := by
    intro conn
    by_cases hconn : conn = .request
    · simpa [hconn, Store.view, Store.rollback] using hinv.committed
    · have hne : (t, Conn.request) ≠ (t, conn) := by simpa using Ne.symm hconn
      have hsame : (w.store.rollback (t, conn)).view schema (t, .request) =
          w.view (t, .request) := by
        simp [World.view, Store.view, Store.rollback, hne]
      rw [hsame]
      exact hinv.view
  cases choice with
  | fail e poisons =>
      obtain ⟨_, _, rfl | ⟨conn, _, rfl⟩⟩ := exec_fail hexec
      · have hstore : (abandon t op w).store = w.store := by cases op <;> rfl
        rw [hstore]
        exact ⟨hinv.committed, hinv.view⟩
      · exact ⟨hinv.committed, hview conn⟩
  | succeed tools =>
      obtain ⟨reply, rfl, hsucceed⟩ := exec_succeed hexec
      have hchange := succeed_change hsucceed
      generalize w'.store = store at hchange
      cases hchange with
      | stay => exact ⟨hinv.committed, hinv.view⟩
      | rollback => exact ⟨hinv.committed, hview _⟩
      | @commit conn hop =>
          subst hop
          cases conn with
          | runtime => exact hpre.elim
          | request =>
              refine ⟨hinv.view, ?_⟩
              have hsame : (w.store.commit schema (t, .request)).view schema (t, .request) =
                  w.store.view schema (t, .request) := by
                simp [Store.view, Store.commit]
              rw [hsame]
              exact hinv.view
      | @write conn wr store hstatement hwrite =>
          refine ⟨(Store.committed_write hwrite).symm ▸ hinv.committed, ?_⟩
          cases hstatement with
          | @updateServer _ _ patch server hserver =>
              cases conn with
              | runtime => exact hpre.elim
              | request =>
                  obtain ⟨rfl, hsaves⟩ := hpre
                  obtain ⟨server', hserver', _, hfree, _⟩ := exec_updateServer hexec
                  obtain rfl := Option.some.inj (hserver.symm.trans hserver')
                  rw [Store.view_write hwrite]
                  exact (hsaves server hserver).resolve_left hfree
          | _ => exact hpre.elim

/-- A PATCH, with no other task. -/
abbrev PatchProtocol (Ok : Db → Prop) (found : Option Handle) (t : TaskId) (id : ServerId) :
    Protocol exec unrestricted :=
  alone t (PatchInv Ok found t id) (PatchPre Ok t id) patchInv_exec

/-- The task holds the lock of the server. -/
def Held (t : TaskId) (id : ServerId) (w : World) : Prop :=
  (w.lock id).holder = some t

/-- The task holds the lock, and its session sees the row and has it loaded. -/
structure Sees (t : TaskId) (id : ServerId) (server : McpServer) (w : World) : Prop where
  held : Held t id w
  row : (w.view (t, .request)).server id = some server
  loaded : w.instance? (t, .request) id = some server

/-- An operation outside the database leaves every session alone. -/
theorem exec_aside {op : Op} {choice : Choice} {r : Except Exn (Reply op)} {w w' : World}
    (hop : sessionOf op = none) (hclose : ∀ conn, op ≠ .close conn)
    (h : exec t op choice w = some (r, w')) : w'.store = w.store ∧ w'.loaded = w.loaded := by
  cases choice with
  | fail e poisons =>
      obtain ⟨_, _, rfl | ⟨conn, hconn, _⟩⟩ := exec_fail h
      · cases op <;> exact ⟨rfl, rfl⟩
      · rw [hop] at hconn
        cases hconn
  | succeed tools =>
      obtain ⟨reply, _, hsucceed⟩ := exec_succeed h
      cases op <;> grind [succeed, World.setLock, sessionOf]

theorem exec_held {op : Op} {choice : Choice} {r : Except Exn (Reply op)} {w w' : World}
    (h : exec t op choice w = some (r, w')) (hop : ¬ LockOp op) (hheld : Held t id w) :
    Held t id w' := by
  rcases exec_lock h with ⟨_, heq⟩ | ⟨id', l, hchange, _⟩
  · unfold Held
    rw [heq]
    exact hheld
  · exact (hop (by cases hchange <;> trivial)).elim

/-- The statements of a session, and the reads of the registry, need nothing but the invariant. -/
theorem triple_held {op : Op} (hop : ¬ LockOp op) (hpre : ∀ w, PatchPre Ok t id op w) :
    Triple (PatchProtocol Ok found t id) t (Held t id) (await op) (fun _ => Held t id)
      fun _ _ => True := by
  refine Triple.perform (alone_stable _) (fun _ => alone_stable _) (fun _ => alone_stable _)
    (fun w _ _ => ⟨rfl, hpre w⟩) ?_
  intro w choice r w' _ hheld _ _ hexec
  cases r with
  | error e => trivial
  | ok reply => exact exec_held hexec hop hheld

/-- The session is new: what it finds is what it loads. -/
theorem triple_getServerOrNotFound :
    Triple (PatchProtocol Ok found t id) t (fun w => Held t id w ∧ w.loaded (t, .request) = [])
      (getServerOrNotFound id) (fun server => Sees t id server) fun _ _ => True := by
  refine Triple.bind
    (B := fun reply w => ∀ server, reply = some server → Sees t id server w) ?_ fun reply => ?_
  · refine Triple.perform (alone_stable _) (fun _ => alone_stable _) (fun _ => alone_stable _)
      (fun _ _ _ => ⟨rfl, trivial⟩) ?_
    intro w choice r w' _ ⟨hheld, hnew⟩ _ _ hexec
    cases choice with
    | fail e poisons =>
        obtain ⟨_, rfl, _⟩ := exec_fail hexec
        trivial
    | succeed tools =>
        have hheld' := exec_held hexec (fun h => h) hheld
        obtain ⟨reply, rfl, hsucceed⟩ := exec_succeed hexec
        have hnone : w.instance? (t, .request) id = none := by simp [World.instance?, hnew]
        simp only [succeed, hnone] at hsucceed
        rintro server rfl
        split at hsucceed
        · cases hsucceed
        next row hrow =>
          obtain ⟨hreply, rfl⟩ := Prod.mk.inj (Option.some.inj hsucceed)
          obtain rfl := Option.some.inj hreply
          exact ⟨hheld', hrow, server_id hrow ▸ McpFailures.instance_load w _ _⟩
  · cases reply with
    | none => exact Triple.raise (alone_stable _) fun _ _ _ => trivial
    | some server => exact Triple.done (alone_stable _) fun _ _ h => h server rfl

theorem triple_isRunning {server : McpServer} :
    Triple (PatchProtocol Ok found t id) t (Sees t id server) (isRunning id)
      (fun live w => live = found.isSome ∧ Sees t id server w) fun _ _ => True := by
  refine Triple.bind (B := fun handle w => handle = found ∧ Sees t id server w) ?_ fun handle => ?_
  · refine Triple.perform (alone_stable _) (fun _ => alone_stable _) (fun _ => alone_stable _)
      (fun _ _ _ => ⟨rfl, trivial⟩) ?_
    intro w choice r w' hinv hsees _ _ hexec
    have hheld' := exec_held hexec (fun h => h) hsees.held
    cases choice with
    | fail e poisons =>
        obtain ⟨_, rfl, _⟩ := exec_fail hexec
        trivial
    | succeed tools =>
        obtain ⟨reply, rfl, hsucceed⟩ := exec_succeed hexec
        obtain ⟨rfl, rfl⟩ := Prod.mk.inj (Option.some.inj hsucceed)
        exact ⟨hinv.handle, hsees⟩
  · refine Triple.done (alone_stable _) fun w _ h => ⟨?_, h.2⟩
    rw [h.1]

/-- The repository reads the row again before it flushes the fields. -/
theorem triple_updateServer {server : McpServer} {values : McpServerPatch}
    (hsaves : ∀ db, Ok db → db.server id = some server → Saves Ok id server values db) :
    Triple (PatchProtocol Ok found t id) t (Sees t id server)
      (McpRuntime.updateServer .request id values)
      (fun row w => row.id = id ∧ Held t id w) fun _ _ => True := by
  refine Triple.bind (B := fun _ => Sees t id server) (Triple.bind
    (B := fun _ => Sees t id server) ?_ fun reply => ?_) fun _ => ?_
  · refine Triple.perform (alone_stable _) (fun _ => alone_stable _) (fun _ => alone_stable _)
      (fun _ _ _ => ⟨rfl, trivial⟩) ?_
    intro w choice r w' _ hsees _ _ hexec
    cases choice with
    | fail e poisons =>
        obtain ⟨_, rfl, _⟩ := exec_fail hexec
        trivial
    | succeed tools =>
        obtain ⟨reply, rfl, hsucceed⟩ := exec_succeed hexec
        simp only [succeed, hsees.row, hsees.loaded] at hsucceed
        obtain ⟨_, rfl⟩ := Prod.mk.inj (Option.some.inj hsucceed)
        exact hsees
  · cases reply with
    | none => exact Triple.raise (alone_stable _) fun _ _ _ => trivial
    | some row => exact Triple.done (alone_stable _) fun _ _ h => h
  · refine Triple.perform (alone_stable _) (fun _ => alone_stable _) (fun _ => alone_stable _) ?_ ?_
    · intro w hinv hsees
      refine ⟨rfl, rfl, fun server' hserver' => ?_⟩
      obtain rfl := Option.some.inj (hsees.loaded.symm.trans hserver')
      exact hsaves _ hinv.view hsees.row
    · intro w choice r w' _ hsees _ _ hexec
      cases r with
      | error e => trivial
      | ok row =>
          obtain ⟨server', hserver', rfl, _, _⟩ := exec_updateServer hexec
          obtain rfl := Option.some.inj (hsees.loaded.symm.trans hserver')
          have hid : server.id = id := server_id hsees.row
          exact ⟨hid, exec_held hexec (fun h => h) hsees.held⟩

/-- The task waits for ever for the lock that it holds. -/
theorem triple_startAfterSave {cfg : Settings} {server : McpServer} (hid : server.id = id) :
    Triple (PatchProtocol Ok found t id) t (Held t id) (startAfterSave cfg server)
      (fun _ _ => True) fun _ _ => True := by
  subst hid
  unfold startAfterSave
  split
  · refine Triple.bind (B := fun _ _ => False) ?_ fun _ => Triple.of_false fun _ _ h => h
    refine Triple.tryCatch (B := fun _ _ => True) ?_ fun e => ?_
    · refine Triple.bind (B := fun _ => Held t server.id) ?_ fun _ => ?_
      · unfold requireRuntimeEnabled
        split
        · exact Triple.done (alone_stable _) fun _ _ h => h
        · exact Triple.raise (alone_stable _) fun _ _ _ => trivial
      · refine Triple.bind (B := fun taken w => taken = false ∧ Held t server.id w) ?_ ?_
        · refine Triple.perform (alone_stable _) (fun _ => alone_stable _)
            (fun _ => alone_stable _) (fun _ _ _ => ⟨rfl, trivial⟩) ?_
          intro w choice r w' _ hheld _ _ hexec
          cases choice with
          | fail e poisons =>
              obtain ⟨_, rfl, _⟩ := exec_fail hexec
              trivial
          | succeed tools =>
              obtain ⟨reply, rfl, hsucceed⟩ := exec_succeed hexec
              have hholder : (w.lock server.id).holder = some t := hheld
              simp only [succeed, hholder] at hsucceed
              obtain ⟨rfl, rfl⟩ := Prod.mk.inj (Option.some.inj hsucceed)
              exact ⟨rfl, by simp [Held, World.setLock]⟩
        · intro taken
          cases taken with
          | true => exact Triple.of_false fun _ _ h => Bool.noConfusion h.1
          | false =>
              refine Triple.bind (B := fun _ _ => False) ?_ fun _ => Triple.of_false fun _ _ h => h
              refine Triple.perform (alone_stable _) (fun _ => alone_stable _)
                (fun _ => alone_stable _) (fun _ _ _ => ⟨rfl, trivial⟩) ?_
              rintro w choice r w' - ⟨-, hheld⟩ - - hexec
              cases choice with
              | fail e poisons =>
                  obtain ⟨_, rfl, _⟩ := exec_fail hexec
                  trivial
              | succeed tools =>
                  obtain ⟨reply, rfl, hsucceed⟩ := exec_succeed hexec
                  have hholder : (w.lock server.id).holder = some t := hheld
                  simp [succeed, hholder] at hsucceed
    · split
      · exact Triple.raise (alone_stable _) fun _ _ _ => trivial
      · exact Triple.raise (alone_stable _) fun _ _ _ => trivial
  · exact Triple.done (alone_stable _) fun _ _ _ => trivial

/-- What the save of a validated PATCH leads to. -/
def SavesAll (httpUrl : String → Option String) (Ok : Db → Prop) (found : Option Handle)
    (id : ServerId) (payload : McpServerUpdate) : Prop :=
  ∀ db server values, Ok db → db.server id = some server → server.runtimeStatus ≠ .running →
    found = none → validatedUpdateValues httpUrl server payload = some values →
    Saves Ok id server values db

/-- The flush of a validated PATCH and its commit. -/
theorem triple_savePatch {server : McpServer} {values : McpServerPatch}
    (hsaves : ∀ db, Ok db → db.server id = some server → Saves Ok id server values db) :
    Triple (PatchProtocol Ok found t id) t (Sees t id server)
      (exceptIntegrityError do
        let server ← McpRuntime.updateServer .request id values
        await (.commit .request)
        pure server)
      (fun row w => row.id = id ∧ Held t id w) fun _ _ => True := by
  refine Triple.tryCatch (B := fun _ _ => True) ?_ fun e => ?_
  · refine Triple.bind (triple_updateServer hsaves) fun row => ?_
    have hcommit : ¬ LockOp (.commit .request) := fun h => h
    by_cases hrow : row.id = id
    · refine Triple.bind (B := fun _ => Held t id) ?_ fun _ => ?_
      · exact (triple_held hcommit fun _ => trivial).weaken (fun _ _ h => h.2)
          (fun _ _ _ h => h) fun _ _ _ h => h
      · exact Triple.done (alone_stable _) fun _ _ h => ⟨hrow, h⟩
    · exact Triple.of_false fun _ _ h => hrow h.1
  · cases e <;> exact Triple.raise (alone_stable _) fun _ _ _ => trivial

/-- What an operation leads to when nothing is asked of it. -/
theorem triple_any {op : Op} (A : World → Prop) (hpre : ∀ w, PatchPre Ok t id op w) :
    Triple (PatchProtocol Ok found t id) t A (await op) (fun _ _ => True) fun _ _ => True := by
  refine Triple.perform (alone_stable _) (fun _ => alone_stable _) (fun _ => alone_stable _)
    (fun w _ _ => ⟨rfl, hpre w⟩) ?_
  intro w choice r w' _ _ _ _ _
  cases r <;> trivial

theorem triple_withLock {α : Type} {body : Program α}
    (hbody : Triple (PatchProtocol Ok found t id) t
      (fun w => Held t id w ∧ w.loaded (t, .request) = []) body (fun _ _ => True) fun _ _ => True) :
    Triple (PatchProtocol Ok found t id) t (fun w => w.loaded (t, .request) = [])
      (withLock id body) (fun _ _ => True) fun _ _ => True := by
  have hensuring : Triple (PatchProtocol Ok found t id) t
      (fun w => Held t id w ∧ w.loaded (t, .request) = []) (ensuring body (await (.release id)))
      (fun _ _ => True) fun _ _ => True :=
    Triple.ensuring (fun _ => alone_stable _) (fun _ => alone_stable _) hbody
      (fun _ => triple_any _ fun _ => trivial) fun _ => triple_any _ fun _ => trivial
  refine Triple.bind (B := fun taken w => (taken = true → Held t id w) ∧
    w.loaded (t, .request) = []) ?_ fun taken => ?_
  · refine Triple.perform (alone_stable _) (fun _ => alone_stable _) (fun _ => alone_stable _)
      (fun _ _ _ => ⟨rfl, trivial⟩) ?_
    intro w choice r w' _ hnew _ _ hexec
    have hloaded := (exec_aside rfl (by simp) hexec).2
    cases choice with
    | fail e poisons =>
        obtain ⟨_, rfl, _⟩ := exec_fail hexec
        trivial
    | succeed tools =>
        obtain ⟨reply, rfl, hsucceed⟩ := exec_succeed hexec
        refine ⟨fun htaken => ?_, hloaded ▸ hnew⟩
        subst htaken
        simp only [succeed] at hsucceed
        split at hsucceed
        · obtain ⟨_, rfl⟩ := Prod.mk.inj (Option.some.inj hsucceed)
          simp [Held, World.setLock]
        · cases (Prod.mk.inj (Option.some.inj hsucceed)).1
  · cases taken with
    | true =>
        exact hensuring.weaken (fun _ _ h => ⟨h.1 rfl, h.2⟩) (fun _ _ _ h => h)
          fun _ _ _ h => h
    | false =>
        refine Triple.bind (B := fun _ w => Held t id w ∧ w.loaded (t, .request) = []) ?_
          fun _ => hensuring
        refine Triple.perform (alone_stable _) (fun _ => alone_stable _) (fun _ => alone_stable _)
          (fun _ _ _ => ⟨rfl, trivial⟩) ?_
        rintro w choice r w' - ⟨-, hnew⟩ - - hexec
        have hloaded := (exec_aside rfl (by simp) hexec).2
        cases choice with
        | fail e poisons =>
            obtain ⟨_, rfl, _⟩ := exec_fail hexec
            trivial
        | succeed tools =>
            obtain ⟨reply, rfl, hsucceed⟩ := exec_succeed hexec
            refine ⟨?_, hloaded ▸ hnew⟩
            simp only [succeed] at hsucceed
            split at hsucceed
            · obtain ⟨_, rfl⟩ := Prod.mk.inj (Option.some.inj hsucceed)
              simp [Held, World.setLock]
            · cases hsucceed

theorem triple_patch {cfg : Settings} {httpUrl : String → Option String}
    {payload : McpServerUpdate} (hsaves : SavesAll httpUrl Ok found id payload) :
    Triple (PatchProtocol Ok found t id) t (fun w => w.loaded (t, .request) = [])
      (McpService.updateServer cfg httpUrl id payload) (fun _ _ => True) fun _ _ => True := by
  refine triple_withLock ?_
  refine Triple.bind triple_getServerOrNotFound fun server => ?_
  refine Triple.bind triple_isRunning fun live => ?_
  split
  · exact Triple.raise (alone_stable _) fun _ _ _ => trivial
  next hidle =>
    cases hvalues : validatedUpdateValues httpUrl server payload with
    | none => exact Triple.raise (alone_stable _) fun _ _ _ => trivial
    | some values =>
        by_cases hfound : live = found.isSome
        · have hstopped : server.runtimeStatus ≠ .running := fun hrunning => hidle (.inl hrunning)
          have hnone : found = none := by
            cases found with
            | none => rfl
            | some handle => exact (hidle (.inr hfound)).elim
          refine Triple.bind (Triple.weaken (triple_savePatch fun db hok hrow =>
            hsaves db server values hok hrow hstopped hnone hvalues) (fun _ _ h => h.2)
              (fun _ _ _ h => h) fun _ _ _ h => h) fun row => ?_
          by_cases hrow : row.id = id
          · exact (triple_startAfterSave hrow).weaken (fun _ _ h => h.2) (fun _ _ _ h => h)
              fun _ _ _ h => h
          · exact Triple.of_false fun _ _ h => hrow h.1
        · exact Triple.of_false fun _ _ h => hfound h.1

/-- Whatever the environment answers, the tables keep the property at every point of a PATCH. -/
theorem patch_keeps {cfg : Settings} {httpUrl : String → Option String} {payload : McpServerUpdate}
    {w w' : World} (hfresh : Fresh t w) (hok : Ok w.store.committed)
    (hsaves : SavesAll httpUrl Ok (w.handles.lookup id) id payload)
    (hreach : MayReach exec t (request cfg httpUrl (.update id payload)) w w') :
    Ok w'.store.committed := by
  obtain ⟨hpending, hloaded, _⟩ := hfresh .request
  have hview : w.view (t, .request) = w.store.committed := by
    simp [World.view, Store.view, hpending]
  have hinv : PatchInv Ok (w.handles.lookup id) t id w :=
    ⟨hok, hview.symm ▸ hok, (hfresh .runtime).1, rfl⟩
  have hrun : Triple (PatchProtocol Ok (w.handles.lookup id) t id) t
      (fun w => w.loaded (t, .request) = []) (request cfg httpUrl (.update id payload))
      (fun _ _ => True) fun _ _ => True := by
    have hcall : Triple (PatchProtocol Ok (w.handles.lookup id) t id) t
        (fun w => w.loaded (t, .request) = [])
        (McpService.discard (McpService.updateServer cfg httpUrl id payload)) (fun _ _ => True)
        fun _ _ => True :=
      Triple.bind (triple_patch hsaves) fun _ => Triple.done (alone_stable _) fun _ _ h => h
    exact Triple.ensuring (fun _ => alone_stable _) (fun _ => alone_stable _) hcall
      (fun _ => triple_any _ fun _ => trivial) fun _ => triple_any _ fun _ => trivial
  exact (mayReach_of_safe hinv (hrun w hinv hloaded) hreach).committed

end Patches

section Creates

variable {httpUrl : String → Option String} {t : TaskId}

/-- What a create request awaits: the row it inserts is validated, and a start sets states only. -/
def NormalOp (httpUrl : String → Option String) : Op → Prop
  | .insertServer _ values => validateTransportFields httpUrl values = some values
  | .updateServer _ _ patch => StatesOnly patch
  | _ => True

/-- The write leaves normal rows. -/
def KeepsNormal (httpUrl : String → Option String) (wr : Write) : Prop :=
  ∀ db, AllNormal httpUrl db → AllNormal httpUrl (schema.apply wr db)

/-- The tables are normal, and stay so whichever session of the task commits. -/
structure CreateInv (httpUrl : String → Option String) (t : TaskId) (w : World) : Prop where
  committed : AllNormal httpUrl w.store.committed
  pending : ∀ conn, ∀ wr ∈ w.store.pending (t, conn), KeepsNormal httpUrl wr

theorem statesOnly_net {patch : McpServerPatch} (h : StatesOnly patch) (row : McpServer) :
    StatesOnly (patch.net row) := by
  unfold StatesOnly at h ⊢
  rw [h]
  rfl

/-- The validation does not look at the states. -/
theorem normal_statesOnly {patch : McpServerPatch} {row : McpServer} (hpatch : StatesOnly patch)
    (h : Normal httpUrl row) : Normal httpUrl (patch.apply row) := by
  have hfields : configuration (patch.apply row) =
      { configuration row with desiredState := patch.desiredState.getD row.desiredState } := by
    rw [hpatch]
    rfl
  unfold Normal at h ⊢
  rw [hfields]
  unfold validateTransportFields at h ⊢
  cases htransport : row.transport with
  | other name => simp [configuration, htransport] at h
  | stdio =>
      cases hcommand : row.command with
      | none => simp [configuration, htransport, hcommand] at h
      | some command => simpa [configuration, htransport, hcommand] using h
  | http =>
      cases hurl : row.url with
      | none => simp [configuration, htransport, hurl] at h
      | some url => simpa [configuration, htransport, hurl] using h

theorem keepsNormal_statement {op : Op} {w : World} {conn : Conn} {wr : Write}
    (hop : NormalOp httpUrl op) (h : Statement t w op conn wr) : KeepsNormal httpUrl wr := by
  intro db hdb
  cases h with
  | insertServer => exact hdb.insert hop
  | updateServer _ =>
      exact hdb.update fun row hrow => normal_statesOnly (statesOnly_net hop _) (hdb _ row hrow)
  | @deleteServer _ id =>
      intro other row hrow
      rw [server_apply, onRow] at hrow
      split at hrow
      · cases hrow
      · exact hdb other row hrow
  | deleteTools => exact hdb
  | insertTools => exact hdb

theorem createInv_exec {op : Op} {choice : Choice} {r : Except Exn (Reply op)} {w w' : World}
    (hinv : CreateInv httpUrl t w) (hop : NormalOp httpUrl op)
    (hexec : exec t op choice w = some (r, w')) : CreateInv httpUrl t w' := by
  constructor
  · rcases exec_committed hexec with heq | ⟨conn, _, heq⟩
    · exact heq ▸ hinv.committed
    · rw [heq]
      exact applyAll_keeps (hinv.pending conn) hinv.committed
  · intro conn wr hwr
    rcases exec_pending hexec conn with heq | hnil | ⟨new, hstatement, heq⟩
    · exact hinv.pending conn wr (heq ▸ hwr)
    · rw [hnil] at hwr
      cases hwr
    · rw [heq, List.mem_append, List.mem_singleton] at hwr
      rcases hwr with hwr | rfl
      · exact hinv.pending conn wr hwr
      · exact keepsNormal_statement hop hstatement

theorem normalOp_lifecycleOp {op : Op} (h : LifecycleOp op) : NormalOp httpUrl op := by
  cases op with
  | updateServer conn id patch =>
      cases conn with
      | request => exact h.elim
      | runtime => exact h
  | insertServer conn values => exact h.elim
  | _ => trivial

theorem uses_create {cfg : Settings} {payload : McpServerCreate}
    (hpayload : validateTransportFields httpUrl payload = some payload) :
    Uses (NormalOp httpUrl) (request cfg httpUrl (.create payload)) := by
  refine Uses.ensuring (Uses.bind (Uses.bind ?_ fun server => ?_) fun _ => trivial)
    (uses_await trivial)
  · refine Uses.tryCatch ?_ fun e => ?_
    · exact Uses.bind (uses_await hpayload) fun _ => Uses.bind (uses_await trivial) fun _ => trivial
    · cases e <;> trivial
  · unfold startAfterSave
    split
    · refine Uses.bind (Uses.tryCatch ?_ fun e => ?_) fun _ =>
        Uses.bind (uses_await trivial) fun _ => trivial
      · refine Uses.bind (uses_requireRuntimeEnabled cfg) fun _ => ?_
        exact uses_withLock trivial trivial trivial
          ((uses_startLocked cfg server.id).mono fun _ => normalOp_lifecycleOp)
      · split <;> trivial
    · trivial

/-- Whatever the environment answers, every row is normal at every point of a create request. -/
theorem create_keeps {cfg : Settings} {payload : McpServerCreate} {w w' : World}
    (hfresh : Fresh t w) (hnormal : AllNormal httpUrl w.store.committed)
    (hpayload : validateTransportFields httpUrl payload = some payload)
    (hreach : MayReach exec t (request cfg httpUrl (.create payload)) w w') :
    AllNormal httpUrl w'.store.committed := by
  have hinv : CreateInv httpUrl t w := by
    refine ⟨hnormal, fun conn wr hwr => ?_⟩
    rw [(hfresh conn).1] at hwr
    cases hwr
  have hrun : Triple (alone t (CreateInv httpUrl t) (fun op _ => NormalOp httpUrl op)
      createInv_exec) t (fun _ => True) (request cfg httpUrl (.create payload)) (fun _ _ => True)
      fun _ _ => True :=
    Triple.of_uses (alone_stable _) (fun _ _ hop _ _ => ⟨rfl, hop⟩)
      (fun _ _ _ _ _ _ _ _ _ _ => trivial) (uses_create hpayload)
  exact (mayReach_of_safe hinv (hrun w hinv trivial) hreach).committed

end Creates

section Sequences

variable {httpUrl : String → Option String}

/-- One more create or PATCH request, on a task of its own, as far as it gets. A create request
carries a configuration that its schema has validated. -/
inductive RequestStep (cfg : Settings) (httpUrl : String → Option String) (w w' : World) : Prop
  | create {t : TaskId} {values payload : McpServerCreate} : Fresh t w →
      validateTransportFields httpUrl values = some payload →
      MayReach exec t (request cfg httpUrl (.create payload)) w w' → RequestStep cfg httpUrl w w'
  | patch {t : TaskId} {id : ServerId} {payload : McpServerUpdate} : Fresh t w →
      MayReach exec t (request cfg httpUrl (.update id payload)) w w' → RequestStep cfg httpUrl w w'

/-- A PATCH of normal rows leaves normal rows and changes only what it carries. -/
theorem saves_normal (hurl : HttpUrlLaws httpUrl) (found : Option Handle) (id : ServerId)
    (payload : McpServerUpdate) (db₀ : Db) :
    SavesAll httpUrl (fun db => AllNormal httpUrl db ∧ ChangesOnly id payload db₀ db) found id
      payload := by
  rintro db server values ⟨hnormal, hchanges⟩ hrow _ _ hvalues
  refine .inr ⟨hnormal.update fun row hrow' => ?_, hchanges.update (keepsUnset_apply hvalues server)⟩
  obtain rfl := Option.some.inj (hrow.symm.trans hrow')
  rw [net_apply]
  exact normal_apply hurl (hnormal id server hrow) hvalues

/-- A refused PATCH does not get to the flush, or fails there. -/
theorem saves_refused {w : World} {id : ServerId} {payload : McpServerUpdate}
    (h : Refused httpUrl w id payload) :
    SavesAll httpUrl (· = w.store.committed) (w.handles.lookup id) id payload := by
  rintro db server values rfl hrow hstopped hnone hvalues
  cases h with
  | missing hmissing => rw [hmissing] at hrow; cases hrow
  | running hstored hrunning =>
      obtain rfl := Option.some.inj (hrow.symm.trans hstored)
      rcases hrunning with hstatus | hlive
      · exact (hstopped hstatus).elim
      · simp [hnone] at hlive
  | invalid hstored hinvalid =>
      obtain rfl := Option.some.inj (hrow.symm.trans hstored)
      rw [hinvalid] at hvalues
      cases hvalues
  | @nameTaken row other hstored hother hne hname hnew =>
      obtain rfl := Option.some.inj (hrow.symm.trans hstored)
      refine .inl ⟨other, hother, hne, ?_⟩
      obtain ⟨validated, hvalidated, rfl⟩ := Option.map_eq_some_iff.mp hvalues
      simp only [validatedMerge, hname, Field.merge, Option.bind_eq_bind,
        Option.bind_eq_some_iff] at hvalidated
      obtain ⟨name, hsame, _, _, _, _, _, _, _, _, _, _, hvalidated⟩ := hvalidated
      obtain rfl := Option.some.inj hsame
      have hfields := congrArg McpServerCreate.name (validateTransportFields_fields hvalidated)
      simp [McpServerPatch.net, hname, Field.pick, hfields, Ne.symm hnew]

theorem requestStep_normal {cfg : Settings} (hurl : HttpUrlLaws httpUrl) {w w' : World}
    (hnormal : AllNormal httpUrl w.store.committed) (h : RequestStep cfg httpUrl w w') :
    AllNormal httpUrl w'.store.committed := by
  cases h with
  | create hfresh hvalues hreach =>
      exact create_keeps hfresh hnormal (validateTransportFields_idempotent hurl hvalues) hreach
  | @patch t id payload hfresh hreach =>
      exact (patch_keeps hfresh ⟨hnormal, ChangesOnly.refl id payload _⟩
        (saves_normal hurl _ id payload w.store.committed) hreach).1

/-- Every stored configuration validates to itself after every sequence of requests, and there a
PATCH changes at most the fields that it carries, or nothing when it is refused. -/
theorem configurations_kept (cfg : Settings) (hurl : HttpUrlLaws httpUrl) {w w' : World}
    (hnormal : AllNormal httpUrl w.store.committed)
    (hsteps : Relation.ReflTransGen (RequestStep cfg httpUrl) w w') :
    AllNormal httpUrl w'.store.committed ∧
      ∀ t id payload w'', Fresh t w' →
        MayReach exec t (request cfg httpUrl (.update id payload)) w' w'' →
        ChangesOnly id payload w'.store.committed w''.store.committed ∧
          (Refused httpUrl w' id payload → w''.store.committed = w'.store.committed) := by
  have hrows : AllNormal httpUrl w'.store.committed := by
    induction hsteps with
    | refl => exact hnormal
    | tail _ hstep ih => exact requestStep_normal hurl ih hstep
  refine ⟨hrows, fun t id payload w'' hfresh hreach => ⟨?_, fun hrefused => ?_⟩⟩
  · exact (patch_keeps hfresh ⟨hrows, ChangesOnly.refl id payload _⟩
      (saves_normal hurl _ id payload w'.store.committed) hreach).2
  · exact @patch_keeps (· = w'.store.committed) _ _ _ _ _ _ _ hfresh rfl (saves_refused hrefused)
      hreach

/-- A URL type that knows one host. -/
def localhostUrl (url : String) : Option String :=
  if url = "http://localhost" ∨ url = "http://localhost/" then some "http://localhost/" else none

theorem localhostUrl_laws : HttpUrlLaws localhostUrl := by
  have hnormalized : ∀ {url normalized}, localhostUrl url = some normalized →
      normalized = "http://localhost/" := by
    intro url normalized h
    unfold localhostUrl at h
    split at h
    · exact (Option.some.inj h).symm
    · cases h
  refine ⟨fun url normalized h => ?_, fun url normalized h => ?_⟩
  · rw [hnormalized h]
    decide
  · rw [hnormalized h]
    decide

def docsCreate : McpServerCreate :=
  { name := "docs", transport := .http, url := some "http://localhost" }

def docsPayload : McpServerCreate :=
  { name := "docs", transport := .http, url := some "http://localhost/" }

def noServers : World :=
  { store := { committed := { servers := [], tools := [] }, pending := fun _ => [],
               owner := fun _ => none }
    loaded := fun _ => []
    invalid := fun _ => false
    handles := []
    lock := fun _ => {}
    nextServer := 0
    nextHandle := 0 }

/-- A create request normalises the URL that it stores. -/
theorem configurations_kept_created : ∃ w : World,
    w.store.committed.server 0 = some (docsPayload.toRow 0) ∧
      AllNormal localhostUrl w.store.committed := by
  have hreach : ∃ w : World, MayReach exec 0 (request McpLocks.enabledRuntime localhostUrl
      (.create docsPayload)) noServers w ∧
      w.store.committed.server 0 = some (docsPayload.toRow 0) := by
    refine ⟨_, .inr ⟨.succeed [], _, _, rfl, .inr ⟨.succeed [], _, _, rfl, .inl rfl⟩⟩, ?_⟩
    rfl
  obtain ⟨w, hw, hrow⟩ := hreach
  have hstep : RequestStep McpLocks.enabledRuntime localhostUrl noServers w :=
    @RequestStep.create _ _ _ _ 0 docsCreate docsPayload (fun _ => ⟨rfl, rfl, rfl⟩) rfl hw
  have hempty : AllNormal localhostUrl noServers.store.committed := by
    intro id row hrow
    cases hrow
  exact ⟨w, hrow,
    (configurations_kept McpLocks.enabledRuntime localhostUrl_laws hempty (.single hstep)).1⟩

end Sequences

end ChangeQuality.McpConfigurations
