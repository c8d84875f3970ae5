import ChangeQuality.Texts
import ChangeQuality.Values
import ChangeQuality.Records

/-!
Who is behind a request: the users, the session cookie, the middleware that resolves it, and the
routes of the application.
-/

namespace ChangeQuality.Authentication

open ChangeQuality.Texts
open ChangeQuality.Values

abbrev UserId := Nat

/-- A row of `users`. -/
structure User where
  id : UserId
  account : Text
  refreshToken : String
  isAdmin : Bool
  userMeta : List (String × Json)

/-- `CurrentUser`, and `UserPublic`, which has the same fields. -/
structure CurrentUser where
  id : UserId
  account : Text
  isAdmin : Bool
  userMeta : List (String × Json)

structure Settings where
  authEnabled : Bool
  authDevMode : Bool
  authSessionCookieName : String

/-- The columns that `upsert_user` writes. -/
structure UserValues where
  account : Text
  refreshToken : String
  isAdmin : Bool
  userMeta : List (String × Json)

/-- `DEV_USERS`. -/
def devUsers : List UserValues :=
  [{ account := ofString "common"
     refreshToken := "dev-common-refresh-token"
     isAdmin := false
     userMeta := [("source", .str "dev")] },
   { account := ofString "admin"
     refreshToken := "dev-admin-refresh-token"
     isAdmin := true
     userMeta := [("source", .str "dev")] }]

/-- `DEV_LOGIN_ACCOUNTS`. -/
def devLoginAccounts : List Text :=
  devUsers.map (·.account)

section Users

/-- `UserRepository.get_by_account`. -/
def getByAccount (users : List User) (account : Text) : Option User :=
  users.find? (·.account == account)

/-- `UserRepository.upsert_user`; `id` is the identifier of a new row. -/
def upsertUser (id : UserId) (values : UserValues) (users : List User) : List User :=
  if users.any (·.account == values.account) then
    users.map fun user =>
      if user.account == values.account then
        { user with
          refreshToken := values.refreshToken
          isAdmin := values.isAdmin
          userMeta := values.userMeta }
      else user
  else
    users ++ [{
      id
      account := values.account
      refreshToken := values.refreshToken
      isAdmin := values.isAdmin
      userMeta := values.userMeta }]

/-- `seed_dev_users`; the identifiers of new rows are counted from `nextId` on. -/
def seedDevUsers (nextId : UserId) (users : List User) : UserId × List User :=
  devUsers.foldl (fun (nextId, users) values => (nextId + 1, upsertUser nextId values users))
    (nextId, users)

/-- `user_to_public`. -/
def User.toPublic (user : User) : CurrentUser where
  id := user.id
  account := user.account
  isAdmin := user.isAdmin
  userMeta := user.userMeta

end Users

section Requests

inductive Method where
  | get
  | post
  | patch
  | delete
  deriving DecidableEq

/-- The handlers of the application. -/
inductive Handler where
  | getMe | devLogin | logout
  | listMcpServers | createMcpServer | getMcpServer | updateMcpServer | deleteMcpServer
  | startMcpServer | stopMcpServer | restartMcpServer | checkMcpServer
  | listLlmProviders | createLlmProvider | getLlmProvider | updateLlmProvider | deleteLlmProvider
  | testLlmProviderModel
  | createAgent | listAgents | getAgent | updateAgentDraft | publishAgent | listAgentVersions
  | getAgentVersion | deleteAgent
  | listEnvironments | getSopPreview
  | getSession | listSessionMessages | streamSession
  | startSopQualityCheck | listSopQualityChecks | getSopQualityCheck | getSopQualityCheckEvents
  | streamSopQualityCheck
  | healthCheck
  deriving DecidableEq

/-- A path operation; `admin` tells whether `require_admin_user` is among its dependencies. -/
structure Route where
  method : Method
  path : String
  handler : Handler
  admin : Bool

/-- `APIRouter(prefix=base, dependencies=...)` with its path operations. -/
def router (base : String) (admin : Bool) (operations : List (Method × String × Handler)) :
    List Route :=
  operations.map fun (method, path, handler) => { method, path := base ++ path, handler, admin }

/-- The routers in the order in which `main` includes them, and the health check. -/
def routes : List Route :=
  router "/api/auth" false
    [(.get, "/me", .getMe),
     (.post, "/dev-login", .devLogin),
     (.post, "/logout", .logout)] ++
  router "/api/mcp" true
    [(.get, "/servers", .listMcpServers),
     (.post, "/servers", .createMcpServer),
     (.get, "/servers/{server_id}", .getMcpServer),
     (.patch, "/servers/{server_id}", .updateMcpServer),
     (.delete, "/servers/{server_id}", .deleteMcpServer),
     (.post, "/servers/{server_id}/start", .startMcpServer),
     (.post, "/servers/{server_id}/stop", .stopMcpServer),
     (.post, "/servers/{server_id}/restart", .restartMcpServer),
     (.post, "/servers/{server_id}/check", .checkMcpServer)] ++
  router "/api/v1/llm-providers" false
    [(.get, "", .listLlmProviders),
     (.post, "", .createLlmProvider),
     (.get, "/{provider_id}", .getLlmProvider),
     (.patch, "/{provider_id}", .updateLlmProvider),
     (.delete, "/{provider_id}", .deleteLlmProvider),
     (.post, "/{provider_id}/test", .testLlmProviderModel)] ++
  router "/api/agents" false
    [(.post, "", .createAgent),
     (.get, "", .listAgents),
     (.get, "/{agent_id}", .getAgent),
     (.patch, "/{agent_id}/draft", .updateAgentDraft),
     (.post, "/{agent_id}/publish", .publishAgent),
     (.get, "/{agent_id}/versions", .listAgentVersions),
     (.get, "/{agent_id}/versions/{version_number}", .getAgentVersion),
     (.delete, "/{agent_id}", .deleteAgent)] ++
  router "/api/sop" false
    [(.get, "/environments", .listEnvironments),
     (.get, "/{sop_id}", .getSopPreview)] ++
  router "/api/sessions" false
    [(.get, "/{session_id}", .getSession),
     (.get, "/{session_id}/messages", .listSessionMessages),
     (.get, "/{session_id}/stream", .streamSession)] ++
  router "/api/sop-quality-checks" false
    [(.post, "", .startSopQualityCheck),
     (.get, "", .listSopQualityChecks),
     (.get, "/{check_id}", .getSopQualityCheck),
     (.get, "/{check_id}/events", .getSopQualityCheckEvents),
     (.get, "/{check_id}/stream", .streamSopQualityCheck)] ++
  [{ method := .get, path := "/health", handler := .healthCheck, admin := false }]

/-- A request with its cookies, and the account of its body where it has one. -/
structure Request where
  method : Method
  path : Text
  cookies : List (String × Text)
  account : Option Text

/-- What a response does to the cookies of the client. -/
inductive CookieChange where
  | set (name : String) (value : Text)
  | delete (name : String)

/-- What a handler or the middleware answers. -/
inductive Answer where
  | user (user : CurrentUser)
  | error (status : Nat) (detail : String)
  | noContent
  /-- The answer of a handler that neither reads nor writes users and cookies. -/
  | other (handler : Handler)

structure Response where
  answer : Answer
  cookie : Option CookieChange

/-- `str.rstrip("/")`. -/
def rstripSlash (s : Text) : Text :=
  (s.reverse.dropWhile (· == 0x2f)).reverse

def isAuthBypassPath (path : Text) : Bool :=
  let normalizedPath := if (rstripSlash path).isEmpty then ofString "/" else rstripSlash path
  normalizedPath == ofString "/health" ||
    [ofString "/docs", ofString "/redoc", ofString "/openapi.json"].contains normalizedPath ||
    [ofString "/api/auth/dev-login", ofString "/api/auth/logout"].contains normalizedPath

def resolveCurrentUser (settings : Settings) (users : List User) (request : Request) :
    Option CurrentUser :=
  if !settings.authDevMode then none
  else
    match request.cookies.lookup settings.authSessionCookieName with
    | none => none
    | some account => (getByAccount users account).map User.toPublic

inductive LoginError where
  | disabled
  | accountNotFound

/-- `AuthService.dev_login` of a service with a repository. -/
def devLogin (settings : Settings) (users : List User) (account : Text) :
    Except LoginError CurrentUser :=
  if !settings.authDevMode then .error .disabled
  else if !devLoginAccounts.contains account then .error .accountNotFound
  else
    match getByAccount users account with
    | none => .error .accountNotFound
    | some user => .ok user.toPublic

/-- The handlers; `current` is `request.state.current_user`. -/
def handle (settings : Settings) (users : List User) (request : Request)
    (current : Option CurrentUser) : Handler → Response
  | .getMe =>
      match current with
      | some user => ⟨.user user, none⟩
      | none => ⟨.error 401 "Unauthorized", none⟩
  | .devLogin =>
      match request.account with
      | none => ⟨.error 422 "Unprocessable Content", none⟩
      | some account =>
          match devLogin settings users account with
          | .ok user => ⟨.user user, some (.set settings.authSessionCookieName account)⟩
          | .error .disabled => ⟨.error 403 "Forbidden", none⟩
          | .error .accountNotFound => ⟨.error 404 "Not Found", none⟩
  | .logout => ⟨.noContent, some (.delete settings.authSessionCookieName)⟩
  | handler => ⟨.other handler, none⟩

/-- `require_admin_user`: whether it lets a request pass. -/
def requireAdminUser (settings : Settings) (current : Option CurrentUser) : Bool :=
  !settings.authEnabled ||
    match current with
    | some user => user.isAdmin
    | none => false

/-- What the server makes of a request: the response, and the route whose handler was called, with
the user that it was called for. -/
structure Served where
  response : Response
  called : Option (Route × Option CurrentUser)

/-- The first route for the method and the path of a request. -/
def routeOf (matchesPath : String → Text → Bool) (request : Request) : Option Route :=
  routes.find? fun route =>
    matchesPath route.path request.path && route.method == request.method

/-- The routing, the dependencies and the handler. -/
def dispatch (matchesPath : String → Text → Bool) (settings : Settings) (users : List User)
    (request : Request) (current : Option CurrentUser) : Served :=
  match routeOf matchesPath request with
  | none => ⟨⟨.error 404 "Not Found", none⟩, none⟩
  | some route =>
      if route.admin && !requireAdminUser settings current then
        ⟨⟨.error 403 "Admin access required.", none⟩, none⟩
      else
        ⟨handle settings users request current route.handler, some (route, current)⟩

/-- The middleware `require_api_auth` around the application. -/
def requireApiAuth (matchesPath : String → Text → Bool) (settings : Settings) (users : List User)
    (request : Request) : Served :=
  if !settings.authEnabled || isAuthBypassPath request.path then
    dispatch matchesPath settings users request none
  else if !(ofString "/api/").isPrefixOf request.path then
    dispatch matchesPath settings users request none
  else
    match resolveCurrentUser settings users request with
    | none =>
        let cookie :=
          if (request.cookies.lookup settings.authSessionCookieName).isSome then
            some (CookieChange.delete settings.authSessionCookieName)
          else none
        ⟨⟨.error 401 "Authentication required.", cookie⟩, none⟩
    | some current => dispatch matchesPath settings users request (some current)

end Requests

end ChangeQuality.Authentication
