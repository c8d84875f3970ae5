import ChangeQuality.Authentication
import ChangeQuality.Runs
import Mathlib.Logic.Function.Basic

/-!
Who reaches the handlers. Clients keep the cookies that they are told to keep, and requests and
responses are in flight for as long as they please; a client may also forge a cookie.
-/

namespace ChangeQuality.Access

open ChangeQuality.Texts
open ChangeQuality.Runs
open ChangeQuality.Authentication

abbrev Client := Nat

/-- A call of a handler, as the process had it; `granted` is the account that it put into the
session cookie. -/
structure Entry where
  client : Client
  settings : Settings
  route : Route
  user : Option CurrentUser
  granted : Option Text

structure World where
  settings : Settings
  users : List User
  nextId : UserId
  jar : Client → List (String × Text)
  /-- The requests on their way to the server. -/
  requests : List (Client × Request)
  /-- What the responses on their way back do to the cookies. -/
  responses : List (Client × CookieChange)
  /-- The calls of handlers, the oldest first. -/
  journal : List Entry

inductive Move where
  /-- The process is started again, perhaps with other settings. -/
  | restart (settings : Settings)
  | send (client : Client) (method : Method) (path : Text) (account : Option Text)
  | serve (index : Nat)
  | receive (index : Nat)
  | loseRequest (index : Nat)
  | loseResponse (index : Nat)
  /-- A cookie of a client comes to its end. -/
  | expire (client : Client) (name : String)
  /-- A client writes a cookie by itself. -/
  | forge (client : Client) (name : String) (value : Text)

/-- What a client does with its cookies on a response. -/
def applyChange : CookieChange → List (String × Text) → List (String × Text)
  | .set name value, jar => Records.put name value jar
  | .delete name, jar => Records.without name jar

/-- The call of a handler, if there was one. -/
def entries (client : Client) (settings : Settings) (served : Served) : List Entry :=
  served.called.toList.map fun (route, user) => {
    client
    settings
    route
    user
    granted :=
      match served.response.cookie with
      | some (.set _ value) => some value
      | _ => none }

namespace World

def start (settings : Settings) (nextId : UserId) (users : List User) : World :=
  let seeded := if settings.authDevMode then seedDevUsers nextId users else (nextId, users)
  { settings
    users := seeded.2
    nextId := seeded.1
    jar := fun _ => []
    requests := []
    responses := []
    journal := [] }

/-- `lifespan` up to its `yield`. -/
def restart (w : World) (settings : Settings) : World :=
  let seeded := if settings.authDevMode then seedDevUsers w.nextId w.users else (w.nextId, w.users)
  { w with settings, users := seeded.2, nextId := seeded.1 }

def send (w : World) (client : Client) (method : Method) (path : Text) (account : Option Text) :
    World :=
  { w with requests := w.requests ++ [(client, { method, path, cookies := w.jar client, account })] }

def serve (matchesPath : String → Text → Bool) (w : World) (client : Client) (request : Request) :
    World :=
  let served := requireApiAuth matchesPath w.settings w.users request
  { w with
    responses := w.responses ++ served.response.cookie.toList.map (client, ·)
    journal := w.journal ++ entries client w.settings served }

def setJar (w : World) (client : Client) (jar : List (String × Text)) : World :=
  { w with jar := Function.update w.jar client jar }

end World

def step (matchesPath : String → Text → Bool) : Move → World → Option World
  | .restart settings, w => some (w.restart settings)
  | .send client method path account, w => some (w.send client method path account)
  | .serve index, w =>
      w.requests[index]?.map fun (client, request) =>
        World.serve matchesPath { w with requests := w.requests.eraseIdx index } client request
  | .receive index, w =>
      w.responses[index]?.map fun (client, change) =>
        { w with responses := w.responses.eraseIdx index }.setJar client
          (applyChange change (w.jar client))
  | .loseRequest index, w => some { w with requests := w.requests.eraseIdx index }
  | .loseResponse index, w => some { w with responses := w.responses.eraseIdx index }
  | .expire client name, w => some (w.setJar client (Records.without name (w.jar client)))
  | .forge client name value, w => some (w.setJar client (Records.put name value (w.jar client)))

/-- The client forges no cookie. -/
def Honest (client : Client) : Move → World → Prop
  | .forge forger _ _, _ => forger ≠ client
  | _, _ => True

/-- The part of a path template before its first parameter. -/
def literal (template : String) : Text :=
  (ofString template).takeWhile (· != 0x7b)

/-- The routing gives a template only the paths that begin as it does. -/
def MatchesLiterals (matchesPath : String → Text → Bool) : Prop :=
  ∀ template path, matchesPath template path = true → literal template <+: path

/-- The handlers that are reached without a user. -/
def isOpen : Handler → Bool
  | .devLogin | .logout | .healthCheck => true
  | _ => false

/-- A guarded handler runs while nothing is enforced, or for the user whom the cookie names. -/
def Admits (settings : Settings) (users : List User) (request : Request) (route : Route) : Prop :=
  settings.authEnabled = false ∨ ∃ user, resolveCurrentUser settings users request = some user ∧
    (route.admin = true → user.isAdmin = true)

/-- A call of a handler that the settings and the users of the time allowed. -/
structure Entitled (users : List User) (entry : Entry) : Prop where
  route : entry.route ∈ routes
  guarded : isOpen entry.route.handler = false → entry.settings.authEnabled = true →
    ∃ user, entry.user = some user ∧ (entry.route.admin = true → user.isAdmin = true)
  known : ∀ user, entry.user = some user → entry.settings.authDevMode = true ∧
    ∃ row ∈ users, row.id = user.id ∧ row.account = user.account
  role : ∀ user, entry.user = some user → ∀ values ∈ devUsers, user.account = values.account →
    user.isAdmin = values.isAdmin
  granted : ∀ account, entry.granted = some account → entry.route.handler = .devLogin ∧
    account ∈ devLoginAccounts ∧ ∃ row ∈ users, row.account = account

/-- A login of the client with an account is among the calls. -/
def LoggedIn (client : Client) (account : Text) (journal : List Entry) : Prop :=
  ∃ login ∈ journal, login.client = client ∧ login.route.handler = .devLogin ∧
    login.granted = some account

/-- A call for a client follows a login of this client with the account of the user. -/
structure Accountable (client : Client) (earlier : List Entry) (entry : Entry) : Prop where
  user : ∀ user, entry.user = some user → LoggedIn client user.account earlier
  admin : entry.route.admin = true → entry.settings.authEnabled = true →
    LoggedIn client (ofString "admin") earlier

variable {matchesPath : String → Text → Bool} {settings : Settings} {users : List User}
  {request : Request} {route : Route} {user : CurrentUser} {values : UserValues} {id : UserId}

section Users

/-- No row goes away, and none changes its account. -/
def Persists (users users' : List User) : Prop :=
  ∀ row ∈ users, ∃ row' ∈ users', row'.id = row.id ∧ row'.account = row.account

theorem Persists.trans {users' users'' : List User} (h : Persists users users')
    (h' : Persists users' users'') : Persists users users'' := by
  intro row hrow
  obtain ⟨row', hrow', hid, haccount⟩ := h row hrow
  obtain ⟨row'', hrow'', hid', haccount'⟩ := h' row' hrow'
  exact ⟨row'', hrow'', hid'.trans hid, haccount'.trans haccount⟩

theorem upsertUser_persists : Persists users (upsertUser id values users) := by
  intro row hrow
  unfold upsertUser
  split
  · refine ⟨_, List.mem_map_of_mem hrow, ?_⟩
    split <;> exact ⟨rfl, rfl⟩
  · exact ⟨row, List.mem_append_left _ hrow, rfl, rfl⟩

/-- The rows of the account carry the values. -/
theorem upsertUser_isAdmin {row : User} (hrow : row ∈ upsertUser id values users)
    (haccount : row.account = values.account) : row.isAdmin = values.isAdmin := by
  unfold upsertUser at hrow
  split at hrow
  · obtain ⟨old, hold, rfl⟩ := List.mem_map.mp hrow
    split
    · rfl
    · rename_i hother
      rw [if_neg hother] at haccount
      exact absurd (beq_iff_eq.mpr haccount) hother
  · rename_i hnone
    rcases List.mem_append.mp hrow with hold | hnew
    · have hany : (users.any fun user => user.account == values.account) = true :=
        List.any_eq_true.mpr ⟨row, hold, beq_iff_eq.mpr haccount⟩
      exact absurd hany hnone
    · rw [List.mem_singleton.mp hnew]

/-- The rows of the other accounts are as before. -/
theorem mem_of_mem_upsertUser {row : User} (hrow : row ∈ upsertUser id values users)
    (haccount : row.account ≠ values.account) : row ∈ users := by
  unfold upsertUser at hrow
  split at hrow
  · obtain ⟨old, hold, rfl⟩ := List.mem_map.mp hrow
    split at haccount
    · rename_i hsame
      exact absurd (eq_of_beq hsame) haccount
    · rename_i hother
      rw [if_neg hother]
      exact hold
  · rcases List.mem_append.mp hrow with hold | hnew
    · exact hold
    · rw [List.mem_singleton.mp hnew] at haccount
      exact absurd rfl haccount

theorem seedDevUsers_persists (nextId : UserId) : Persists users (seedDevUsers nextId users).2 :=
  upsertUser_persists.trans upsertUser_persists

theorem seedDevUsers_isAdmin (nextId : UserId) (hvalues : values ∈ devUsers) {row : User}
    (hrow : row ∈ (seedDevUsers nextId users).2) (haccount : row.account = values.account) :
    row.isAdmin = values.isAdmin := by
  simp only [devUsers, List.mem_cons, List.not_mem_nil, or_false] at hvalues
  rcases hvalues with rfl | rfl
  · exact upsertUser_isAdmin (mem_of_mem_upsertUser hrow (by rw [haccount]; decide)) haccount
  · exact upsertUser_isAdmin hrow haccount

end Users

section Requests

theorem getByAccount_eq_some {account : Text} {row : User} (h : getByAccount users account = some row) :
    row ∈ users ∧ row.account = account := by
  have hfound := List.find?_some h
  exact ⟨List.mem_of_find?_eq_some h, eq_of_beq hfound⟩

/-- The user of a request is a row that the session cookie names. -/
theorem resolveCurrentUser_eq_some (h : resolveCurrentUser settings users request = some user) :
    settings.authDevMode = true ∧
      request.cookies.lookup settings.authSessionCookieName = some user.account ∧
        ∃ row ∈ users, row.toPublic = user := by
  unfold resolveCurrentUser at h
  split at h
  · cases h
  · rename_i hmode
    split at h
    · cases h
    · rename_i account hcookie
      obtain ⟨row, hrow, rfl⟩ := Option.map_eq_some_iff.mp h
      obtain ⟨hmem, haccount⟩ := getByAccount_eq_some hrow
      exact ⟨by simpa using hmode, by rw [hcookie, ← haccount]; rfl, row, hmem, rfl⟩

/-- The paths that `is_auth_bypass_path` names. -/
def bypassPaths : List Text :=
  [ofString "/health", ofString "/docs", ofString "/redoc", ofString "/openapi.json",
    ofString "/api/auth/dev-login", ofString "/api/auth/logout"]

theorem rstripSlash_isPrefix (path : Text) : rstripSlash path <+: path := by
  simpa [rstripSlash] using
    List.reverse_prefix.mpr (List.dropWhile_suffix (· == 0x2f) (l := path.reverse))

theorem bypass_begins {path : Text} (h : isAuthBypassPath path = true) :
    ∃ n ∈ bypassPaths, n <+: path := by
  refine ⟨rstripSlash path, ?_, rstripSlash_isPrefix path⟩
  unfold isAuthBypassPath at h
  split at h
  · exact absurd h (by decide)
  · simpa [bypassPaths, or_assoc] using h

/-- The guarded routes are under `/api/`, and none of them is under a path that is let through. -/
theorem guarded_routes : ∀ route ∈ routes, isOpen route.handler = false →
    ofString "/api/" <+: literal route.path ∧
      ∀ n ∈ bypassPaths, ¬ literal route.path <+: n ∧ ¬ n <+: literal route.path := by
  decide

theorem routeOf_eq_some (h : routeOf matchesPath request = some route) :
    route ∈ routes ∧ matchesPath route.path request.path = true := by
  have hfound := List.find?_some h
  simp only [Bool.and_eq_true] at hfound
  exact ⟨List.mem_of_find?_eq_some h, hfound.1⟩

/-- The middleware lets no request for a guarded route pass unseen. -/
theorem not_bypassed (hmatches : MatchesLiterals matchesPath)
    (hroute : routeOf matchesPath request = some route) (hguarded : isOpen route.handler = false) :
    isAuthBypassPath request.path = false ∧ ofString "/api/" <+: request.path := by
  obtain ⟨hmem, hpath⟩ := routeOf_eq_some hroute
  obtain ⟨hapi, hbypass⟩ := guarded_routes route hmem hguarded
  have hbegins := hmatches _ _ hpath
  refine ⟨Bool.eq_false_iff.mpr fun hbypassed => ?_, hapi.trans hbegins⟩
  obtain ⟨n, hn, hpart⟩ := bypass_begins hbypassed
  obtain ⟨hleft, hright⟩ := hbypass n hn
  rcases List.prefix_or_prefix_of_prefix hbegins hpart with hle | hge
  · exact hleft hle
  · exact hright hge

/-- What the application calls is the route of the request, for the user that it is given. -/
theorem dispatch_called {current : Option CurrentUser} {called : Route × Option CurrentUser}
    (h : (dispatch matchesPath settings users request current).called = some called) :
    routeOf matchesPath request = some called.1 ∧ called.2 = current ∧
      (called.1.admin = true → requireAdminUser settings current = true) ∧
        (dispatch matchesPath settings users request current).response =
          handle settings users request current called.1.handler := by
  unfold dispatch at h ⊢
  split at h
  · cases h
  · rename_i route hroute
    split at h
    · cases h
    · rename_i hadmin
      obtain rfl := Option.some.inj h
      refine ⟨hroute, rfl, fun hguard => ?_, by rw [if_neg hadmin]⟩
      simpa [show route.admin = true from hguard] using hadmin

/-- A request passes the middleware with the user of its cookie, or with none where nothing is
enforced or the route is open. -/
theorem requireApiAuth_called (hmatches : MatchesLiterals matchesPath)
    {called : Route × Option CurrentUser}
    (h : (requireApiAuth matchesPath settings users request).called = some called) :
    requireApiAuth matchesPath settings users request =
        dispatch matchesPath settings users request called.2 ∧
      (called.2 = none ∧ (settings.authEnabled = true → isOpen called.1.handler = true) ∨
        ∃ user, called.2 = some user ∧ resolveCurrentUser settings users request = some user) := by
  have hopen : dispatch matchesPath settings users request none =
      requireApiAuth matchesPath settings users request →
        (settings.authEnabled = true → isAuthBypassPath request.path = true ∨
          ¬ ofString "/api/" <+: request.path) → called.2 = none ∧
            (settings.authEnabled = true → isOpen called.1.handler = true) := by
    intro heq hpasses
    obtain ⟨hroute, hcurrent, -, -⟩ := dispatch_called (heq ▸ h)
    refine ⟨hcurrent, fun henabled => ?_⟩
    by_contra hguarded
    obtain ⟨hbypass, hapi⟩ := not_bypassed hmatches hroute (Bool.eq_false_iff.mpr hguarded)
    rcases hpasses henabled with hpath | hpath
    · rw [hbypass] at hpath
      cases hpath
    · exact hpath hapi
  unfold requireApiAuth at h hopen ⊢
  split at h
  · rename_i hskips
    rw [if_pos hskips] at hopen ⊢
    obtain ⟨hnone, hleft⟩ := hopen rfl fun henabled => .inl (by simpa [henabled] using hskips)
    exact ⟨by rw [hnone], .inl ⟨hnone, hleft⟩⟩
  · rename_i hskips
    rw [if_neg hskips] at hopen ⊢
    split at h
    · rename_i houtside
      rw [if_pos houtside] at hopen ⊢
      obtain ⟨hnone, hleft⟩ := hopen rfl fun _ => .inr fun hapi => by
        simp [List.isPrefixOf_iff_prefix.mpr hapi] at houtside
      exact ⟨by rw [hnone], .inl ⟨hnone, hleft⟩⟩
    · rename_i hinside
      rw [if_neg hinside]
      cases hcurrent : resolveCurrentUser settings users request with
      | none =>
          rw [hcurrent] at h
          cases h
      | some current =>
          rw [hcurrent] at h
          obtain ⟨-, hcalled, -, -⟩ := dispatch_called h
          exact ⟨by rw [hcalled], .inr ⟨current, hcalled, rfl⟩⟩

/-- A guarded handler is called exactly where the request admits it. -/
theorem called_iff (hmatches : MatchesLiterals matchesPath)
    (hroute : routeOf matchesPath request = some route) (hguarded : isOpen route.handler = false) :
    (requireApiAuth matchesPath settings users request).called.isSome = true ↔
      Admits settings users request route := by
  obtain ⟨hbypass, hapi⟩ := not_bypassed hmatches hroute hguarded
  have hinside : (!(ofString "/api/").isPrefixOf request.path) = false := by
    rw [List.isPrefixOf_iff_prefix.mpr hapi]
    rfl
  cases henabled : settings.authEnabled with
  | false =>
      refine iff_of_true ?_ (.inl henabled)
      simp [requireApiAuth, henabled, dispatch, hroute, requireAdminUser]
  | true =>
      simp only [requireApiAuth, henabled, hbypass, hinside, Admits]
      cases hcurrent : resolveCurrentUser settings users request with
      | none => simp
      | some current =>
          cases hadmin : route.admin <;> cases hrole : current.isAdmin <;>
            simp [dispatch, hroute, requireAdminUser, henabled, hadmin, hrole]

/-- Only a login sets a cookie, and to the account of a row. -/
theorem handle_sets {current : Option CurrentUser} {handler : Handler} {name : String}
    {value : Text}
    (h : (handle settings users request current handler).cookie = some (.set name value)) :
    handler = .devLogin ∧ value ∈ devLoginAccounts ∧ ∃ row ∈ users, row.account = value := by
  unfold handle at h
  split at h
  · split at h <;> cases h
  · split at h
    · cases h
    · rename_i account _
      refine ⟨rfl, ?_⟩
      unfold devLogin at h
      split at h
      · rename_i hlogin
        obtain ⟨-, rfl⟩ := CookieChange.set.inj (Option.some.inj h)
        split at hlogin
        · cases hlogin
        · split at hlogin
          · cases hlogin
          · rename_i hknown
            split at hlogin
            · cases hlogin
            · rename_i row hrow
              obtain ⟨hmem, haccount⟩ := getByAccount_eq_some hrow
              exact ⟨by simpa using hknown, row, hmem, haccount⟩
      · cases h
      · cases h
  · cases h
  · cases h

theorem requireApiAuth_sets {name : String} {value : Text}
    (h : (requireApiAuth matchesPath settings users request).response.cookie =
      some (.set name value)) :
    ∃ called, (requireApiAuth matchesPath settings users request).called = some called ∧
      called.1.handler = .devLogin ∧ value ∈ devLoginAccounts ∧
        ∃ row ∈ users, row.account = value := by
  have hdispatch : ∀ {current}, (dispatch matchesPath settings users request current).response.cookie =
      some (.set name value) →
        ∃ called, (dispatch matchesPath settings users request current).called = some called ∧
          called.1.handler = .devLogin ∧ value ∈ devLoginAccounts ∧
            ∃ row ∈ users, row.account = value := by
    intro current hset
    unfold dispatch at hset ⊢
    split at hset
    · cases hset
    · rename_i route hroute
      split at hset
      · cases hset
      · rename_i hadmin
        rw [if_neg hadmin]
        exact ⟨_, rfl, handle_sets hset⟩
  unfold requireApiAuth at h ⊢
  split at h
  · rename_i hskips
    rw [if_pos hskips]
    exact hdispatch h
  · rename_i hskips
    rw [if_neg hskips]
    split at h
    · rename_i houtside
      rw [if_pos houtside]
      exact hdispatch h
    · rename_i hinside
      rw [if_neg hinside]
      split at h
      · simp only at h
        split at h <;> cases h
      · exact hdispatch h

theorem mem_entries {client : Client} {served : Served} {entry : Entry}
    (h : entry ∈ entries client settings served) :
    served.called = some (entry.route, entry.user) ∧ entry.client = client ∧
      entry.settings = settings ∧ ∀ account, entry.granted = some account →
        ∃ name, served.response.cookie = some (.set name account) := by
  obtain ⟨called, hcalled, rfl⟩ := List.mem_map.mp h
  refine ⟨Option.mem_toList.mp hcalled, rfl, rfl, fun account hgranted => ?_⟩
  simp only at hgranted
  split at hgranted
  · rename_i name value hcookie
    exact ⟨name, Option.some.inj hgranted ▸ hcookie⟩
  · cases hgranted

/-- No route for administrators is open. -/
theorem guarded_of_admin : ∀ route ∈ routes, route.admin = true → isOpen route.handler = false := by
  decide

/-- In a table with the development users, what the server calls is entitled. -/
theorem entitled_of_served (hmatches : MatchesLiterals matchesPath) {client : Client}
    (hroles : settings.authDevMode = true → ∀ values ∈ devUsers, ∀ row ∈ users,
      row.account = values.account → row.isAdmin = values.isAdmin) {entry : Entry}
    (h : entry ∈ entries client settings (requireApiAuth matchesPath settings users request)) :
    Entitled users entry := by
  obtain ⟨hcalled, -, rfl, hgranted⟩ := mem_entries h
  obtain ⟨heq, hcases⟩ := requireApiAuth_called hmatches hcalled
  obtain ⟨hroute, -, hadmin, -⟩ := dispatch_called (heq ▸ hcalled)
  have hrow : ∀ user, entry.user = some user → entry.settings.authDevMode = true ∧
      ∃ row ∈ users, row.toPublic = user := by
    rintro user huser
    rcases hcases with ⟨hnone, -⟩ | ⟨current, hcurrent, hresolve⟩
    · rw [huser] at hnone
      cases hnone
    · obtain rfl := Option.some.inj (hcurrent.symm.trans huser)
      obtain ⟨hmode, -, hrow⟩ := resolveCurrentUser_eq_some hresolve
      exact ⟨hmode, hrow⟩
  refine ⟨(routeOf_eq_some hroute).1, fun hguarded henabled => ?_, fun user huser => ?_,
    fun user huser values hvalues haccount => ?_, fun account haccount => ?_⟩
  · rcases hcases with ⟨-, hleft⟩ | ⟨current, hcurrent, -⟩
    · rw [hleft henabled] at hguarded
      cases hguarded
    · refine ⟨current, hcurrent, fun hneeds => ?_⟩
      simpa [requireAdminUser, henabled, show entry.user = some current from hcurrent] using
        hadmin hneeds
  · obtain ⟨hmode, row, hmem, rfl⟩ := hrow user huser
    exact ⟨hmode, row, hmem, rfl, rfl⟩
  · obtain ⟨hmode, row, hmem, rfl⟩ := hrow user huser
    exact hroles hmode values hvalues row hmem haccount
  · obtain ⟨name, hcookie⟩ := hgranted account haccount
    obtain ⟨called, hsame, hlogin, hdev, hmem⟩ := requireApiAuth_sets hcookie
    obtain rfl := Option.some.inj (hsame.symm.trans hcalled)
    exact ⟨hlogin, hdev, hmem⟩

end Requests

section Runs

variable {mv : Move} {ms : List Move} {w w' : World} {client : Client}

theorem Entitled.mono {users' : List User} {entry : Entry} (h : Entitled users entry)
    (hpersists : Persists users users') : Entitled users' entry := by
  refine ⟨h.route, h.guarded, fun user huser => ?_, h.role, fun account haccount => ?_⟩
  · obtain ⟨hmode, row, hrow, hid, haccount⟩ := h.known user huser
    obtain ⟨row', hrow', hid', haccount'⟩ := hpersists row hrow
    exact ⟨hmode, row', hrow', hid'.trans hid, haccount'.trans haccount⟩
  · obtain ⟨hlogin, hdev, row, hrow, hnamed⟩ := h.granted account haccount
    obtain ⟨row', hrow', -, haccount'⟩ := hpersists row hrow
    exact ⟨hlogin, hdev, row', hrow', haccount'.trans hnamed⟩

/-- What holds of every world: the development users are as they were seeded where logins are
possible, and every call was entitled. -/
structure Guarded (w : World) : Prop where
  seeded : w.settings.authDevMode = true → ∀ values ∈ devUsers, ∀ row ∈ w.users,
    row.account = values.account → row.isAdmin = values.isAdmin
  entitled : ∀ entry ∈ w.journal, Entitled w.users entry

theorem seeded_isAdmin (settings : Settings) (nextId : UserId) (users : List User)
    (hmode : settings.authDevMode = true) : ∀ values ∈ devUsers,
      ∀ row ∈ (if settings.authDevMode then seedDevUsers nextId users else (nextId, users)).2,
        row.account = values.account → row.isAdmin = values.isAdmin := by
  intro values hvalues row hrow haccount
  rw [if_pos hmode] at hrow
  exact seedDevUsers_isAdmin nextId hvalues hrow haccount

theorem Guarded.step (hmatches : MatchesLiterals matchesPath) (h : Guarded w)
    (hstep : step matchesPath mv w = some w') : Guarded w' := by
  cases mv with
  | restart settings =>
      obtain rfl := Option.some.inj hstep
      refine ⟨seeded_isAdmin settings w.nextId w.users, fun entry hentry => ?_⟩
      refine (h.entitled entry hentry).mono ?_
      simp only [World.restart]
      split
      · exact seedDevUsers_persists _
      · exact fun row hrow => ⟨row, hrow, rfl, rfl⟩
  | serve index =>
      obtain ⟨⟨client, request⟩, -, rfl⟩ := Option.map_eq_some_iff.mp hstep
      refine ⟨h.seeded, fun entry hentry => ?_⟩
      rcases List.mem_append.mp hentry with hold | hnew
      · exact h.entitled entry hold
      · exact entitled_of_served hmatches h.seeded hnew
  | receive index =>
      obtain ⟨⟨client, change⟩, -, rfl⟩ := Option.map_eq_some_iff.mp hstep
      exact ⟨h.seeded, h.entitled⟩
  | _ =>
      obtain rfl := Option.some.inj hstep
      exact ⟨h.seeded, h.entitled⟩

theorem LoggedIn.mono {account : Text} {journal journal' : List Entry}
    (h : LoggedIn client account journal) (hgrows : journal <+: journal') :
    LoggedIn client account journal' := by
  obtain ⟨login, hlogin, hclient⟩ := h
  exact ⟨login, hgrows.subset hlogin, hclient⟩

/-- Every session cookie of the client, wherever it is, comes from a login. -/
structure Accounted (client : Client) (w : World) : Prop where
  jar : ∀ cookie ∈ w.jar client, LoggedIn client cookie.2 w.journal
  requests : ∀ request, (client, request) ∈ w.requests →
    ∀ cookie ∈ request.cookies, LoggedIn client cookie.2 w.journal
  responses : ∀ name value, (client, CookieChange.set name value) ∈ w.responses →
    LoggedIn client value w.journal
  calls : ∀ n entry, w.journal[n]? = some entry → entry.client = client →
    ∀ user, entry.user = some user → LoggedIn client user.account (w.journal.take n)

theorem Accounted.congr (h : Accounted client w) (hjournal : w'.journal = w.journal)
    (hjar : ∀ cookie ∈ w'.jar client, cookie ∈ w.jar client ∨
      LoggedIn client cookie.2 w.journal)
    (hrequests : ∀ request, (client, request) ∈ w'.requests → (client, request) ∈ w.requests ∨
      request.cookies = w.jar client)
    (hresponses : ∀ change, (client, change) ∈ w'.responses → (client, change) ∈ w.responses) :
    Accounted client w' := by
  refine ⟨fun cookie hcookie => ?_, fun request hrequest cookie hcookie => ?_,
    fun name value hresponse => ?_, ?_⟩
  · rw [hjournal]
    exact (hjar cookie hcookie).elim (h.jar cookie) id
  · rw [hjournal]
    rcases hrequests request hrequest with hold | hsame
    · exact h.requests request hold cookie hcookie
    · exact h.jar cookie (hsame ▸ hcookie)
  · rw [hjournal]
    exact h.responses name value (hresponses _ hresponse)
  · rw [hjournal]
    exact h.calls

/-- A call for a client is one for the account of a cookie that came with the request. -/
theorem Accounted.serve (hmatches : MatchesLiterals matchesPath) (h : Accounted client w)
    {sender : Client} (hrequest : (sender, request) ∈ w.requests) :
    Accounted client (World.serve matchesPath w sender request) := by
  have hgrows := List.prefix_append w.journal
    (entries sender w.settings (requireApiAuth matchesPath w.settings w.users request))
  refine ⟨fun cookie hcookie => (h.jar cookie hcookie).mono hgrows,
    fun request' hrequest' cookie hcookie =>
      (h.requests request' hrequest' cookie hcookie).mono hgrows,
    fun name value hresponse => ?_, fun n entry hentry hclient user huser => ?_⟩
  · rcases List.mem_append.mp hresponse with hold | hnew
    · exact (h.responses name value hold).mono hgrows
    · obtain ⟨change, hchange, heq⟩ := List.mem_map.mp hnew
      obtain ⟨rfl, rfl⟩ := Prod.mk.inj heq
      have hcookie := Option.mem_toList.mp hchange
      obtain ⟨called, hcalled, hlogin, -⟩ := requireApiAuth_sets hcookie
      refine ⟨_, List.mem_append_right _ (List.mem_map.mpr
        ⟨called, Option.mem_toList.mpr hcalled, rfl⟩), rfl, hlogin, ?_⟩
      simp only [show _ = some (CookieChange.set name value) from hcookie]
  · simp only [World.serve] at hentry ⊢
    rcases Nat.lt_or_ge n w.journal.length with hlt | hge
    · rw [List.getElem?_append_left hlt] at hentry
      rw [List.take_append_of_le_length hlt.le]
      exact h.calls n entry hentry hclient user huser
    · rw [List.getElem?_append_right hge] at hentry
      obtain ⟨hcalled, rfl, -, -⟩ := mem_entries (List.mem_of_getElem? hentry)
      obtain ⟨-, hcases⟩ := requireApiAuth_called hmatches hcalled
      rcases hcases with ⟨hnone, -⟩ | ⟨current, hcurrent, hresolve⟩
      · rw [huser] at hnone
        cases hnone
      · obtain rfl := Option.some.inj (hcurrent.symm.trans huser)
        obtain ⟨-, hlookup, -⟩ := resolveCurrentUser_eq_some hresolve
        obtain ⟨before, after, hcookies, -⟩ := List.lookup_eq_some_iff.mp hlookup
        have hlogged := h.requests request (hclient ▸ hrequest) _
          (hcookies ▸ List.mem_append_right _ List.mem_cons_self)
        refine hlogged.mono ?_
        rw [List.take_append, List.take_of_length_le hge]
        exact List.prefix_append _ _

theorem mem_applyChange {change : CookieChange} {jar : List (String × Text)} {cookie : String × Text}
    (h : cookie ∈ applyChange change jar) :
    cookie ∈ jar ∨ ∃ name, change = .set name cookie.2 := by
  cases change with
  | set name value =>
      rcases Records.mem_put h with rfl | hold
      · exact .inr ⟨name, rfl⟩
      · exact .inl hold
  | delete name => exact .inl (List.mem_filter.mp h).1

theorem Accounted.setJar (h : Accounted client w) {owner : Client} {jar : List (String × Text)}
    (hjar : owner = client → ∀ cookie ∈ jar, cookie ∈ w.jar client ∨
      LoggedIn client cookie.2 w.journal) : Accounted client (w.setJar owner jar) := by
  refine h.congr rfl (fun cookie hcookie => ?_) (fun _ => .inl) fun _ => id
  simp only [World.setJar, Function.update_apply] at hcookie
  split at hcookie
  · rename_i howner
    exact hjar howner.symm cookie hcookie
  · exact .inl hcookie

theorem Accounted.step (hmatches : MatchesLiterals matchesPath) (h : Accounted client w)
    (hhonest : Honest client mv w) (hstep : step matchesPath mv w = some w') :
    Accounted client w' := by
  cases mv with
  | restart settings =>
      obtain rfl := Option.some.inj hstep
      exact h.congr rfl (fun _ => .inl) (fun _ => .inl) fun _ => id
  | send sender method path account =>
      obtain rfl := Option.some.inj hstep
      refine h.congr rfl (fun _ => .inl) (fun request hrequest => ?_) fun _ => id
      rcases List.mem_append.mp hrequest with hold | hnew
      · exact .inl hold
      · obtain ⟨rfl, rfl⟩ := Prod.mk.inj (List.mem_singleton.mp hnew)
        exact .inr rfl
  | serve index =>
      obtain ⟨⟨sender, request⟩, hget, rfl⟩ := Option.map_eq_some_iff.mp hstep
      -- the other requests stay, and this one had the cookies of its client
      have hmem := List.mem_of_getElem? hget
      have hwith := h.serve hmatches hmem
      exact hwith.congr rfl (fun _ => .inl)
        (fun _ hrequest => .inl (List.mem_of_mem_eraseIdx hrequest)) fun _ => id
  | receive index =>
      obtain ⟨⟨owner, change⟩, hget, rfl⟩ := Option.map_eq_some_iff.mp hstep
      have hless : Accounted client { w with responses := w.responses.eraseIdx index } :=
        h.congr rfl (fun _ => .inl) (fun _ => .inl) fun _ => List.mem_of_mem_eraseIdx
      refine hless.setJar fun howner cookie hcookie => ?_
      subst howner
      refine (mem_applyChange hcookie).imp_right ?_
      rintro ⟨name, rfl⟩
      exact h.responses name cookie.2 (List.mem_of_getElem? hget)
  | loseRequest index =>
      obtain rfl := Option.some.inj hstep
      exact h.congr rfl (fun _ => .inl)
        (fun _ hrequest => .inl (List.mem_of_mem_eraseIdx hrequest)) fun _ => id
  | loseResponse index =>
      obtain rfl := Option.some.inj hstep
      exact h.congr rfl (fun _ => .inl) (fun _ => .inl) fun _ => List.mem_of_mem_eraseIdx
  | expire owner name =>
      obtain rfl := Option.some.inj hstep
      exact h.setJar fun howner cookie hcookie =>
        .inl (howner ▸ (List.mem_filter.mp hcookie).1)
  | forge forger name value =>
      obtain rfl := Option.some.inj hstep
      exact h.setJar fun howner => absurd howner hhonest

/-- A call that an administrator's route made for an honest client follows its login as `admin`. -/
theorem accountable_of_accounted (hguarded : Guarded w) (h : Accounted client w) {n : Nat}
    {entry : Entry} (hentry : w.journal[n]? = some entry) (hclient : entry.client = client) :
    Accountable client (w.journal.take n) entry := by
  refine ⟨h.calls n entry hentry hclient, fun hadmin henabled => ?_⟩
  have hentitled := hguarded.entitled entry (List.mem_of_getElem? hentry)
  obtain ⟨user, huser, hrole⟩ :=
    hentitled.guarded (guarded_of_admin entry.route hentitled.route hadmin) henabled
  have hlogged := h.calls n entry hentry hclient user huser
  obtain ⟨login, hlogin, -, -, hgranted⟩ := hlogged
  obtain ⟨-, hdev, -⟩ :=
    (hguarded.entitled login (List.mem_of_mem_take hlogin)).granted user.account hgranted
  obtain ⟨values, hvalues, haccount⟩ := List.mem_map.mp hdev
  have hsame := hentitled.role user huser values hvalues haccount.symm
  rw [hrole hadmin] at hsame
  have hname : user.account = ofString "admin" := by
    rw [← haccount]
    revert hsame
    simp only [devUsers, List.mem_cons, List.not_mem_nil, or_false] at hvalues
    rcases hvalues with rfl | rfl
    · intro hcommon
      cases hcommon
    · exact fun _ => rfl
  exact hname ▸ h.calls n entry hentry hclient user huser

/-- The session cookie of an honest client names a user for as long as logins are possible. -/
theorem resolves_of_accounted (hguarded : Guarded w) (h : Accounted client w)
    (hmode : w.settings.authDevMode = true) {account : Text}
    (hcookie : (w.jar client).lookup w.settings.authSessionCookieName = some account)
    (hrequest : request.cookies = w.jar client) :
    ∃ user, resolveCurrentUser w.settings w.users request = some user ∧ user.account = account := by
  obtain ⟨before, after, hjar, -⟩ := List.lookup_eq_some_iff.mp hcookie
  obtain ⟨login, hlogin, -, -, hgranted⟩ := h.jar (w.settings.authSessionCookieName, account)
    (hjar ▸ List.mem_append_right _ List.mem_cons_self)
  obtain ⟨-, -, row, hrow, haccount⟩ := (hguarded.entitled login hlogin).granted account hgranted
  have hfound : (getByAccount w.users account).isSome = true :=
    List.find?_isSome.mpr ⟨row, hrow, beq_iff_eq.mpr haccount⟩
  obtain ⟨user, huser⟩ := Option.isSome_iff_exists.mp hfound
  refine ⟨user.toPublic, ?_, (getByAccount_eq_some huser).2⟩
  simp [resolveCurrentUser, hmode, hrequest, hcookie, huser]

theorem guarded_start (settings : Settings) (nextId : UserId) (users : List User) :
    Guarded (World.start settings nextId users) :=
  ⟨seeded_isAdmin settings nextId users, by simp [World.start]⟩

theorem accounted_start (settings : Settings) (nextId : UserId) (users : List User) :
    Accounted client (World.start settings nextId users) :=
  ⟨by simp [World.start], by simp [World.start], by simp [World.start], by simp [World.start]⟩

/-- A client logs in as an administrator and lists the servers. -/
def adminVisit : List Move :=
  [.send 7 .post (ofString "/api/auth/dev-login") (some (ofString "admin")), .serve 0, .receive 0,
    .send 7 .get (ofString "/api/mcp/servers") none, .serve 0]

/-- A routing that compares a path with the templates. -/
def equalsTemplate (template : String) (path : Text) : Bool :=
  path == ofString template

theorem matchesLiterals_equalsTemplate : MatchesLiterals equalsTemplate := by
  intro template path h
  rw [eq_of_beq h]
  exact List.takeWhile_prefix _

end Runs

end ChangeQuality.Access
