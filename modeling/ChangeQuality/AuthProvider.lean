import ChangeQuality.Runs
import Mathlib.Data.List.Basic

/-!
The authentication state of the client: overlapping requests, fenced by a request counter.
-/

namespace ChangeQuality.AuthProvider

open ChangeQuality.Runs

inductive AuthState (User : Type) where
  | loading
  | anonymous
  | authenticated (user : User)
  deriving DecidableEq

/-- The calls that the provider hands out. -/
inductive Operation where
  | refresh
  | loginAs (account : String)
  | logout
  deriving DecidableEq

/-- A call that awaits the answer to its request. -/
structure PendingCall where
  requestId : Nat
  operation : Operation
  deriving DecidableEq

structure Provider (User : Type) where
  state : AuthState User
  mountedRef : Bool
  requestIdRef : Nat
  /-- The authentication requests in flight. -/
  inFlight : List PendingCall
  deriving DecidableEq

/-- What happens to a provider. The answer to a request comes at any time and in any order. -/
inductive Move (User ε : Type) where
  | mount
  | unmount
  | call (operation : Operation)
  | refreshed (requestId : Nat) (reply : Except ε User)
  | loggedIn (requestId : Nat) (reply : Except ε User)
  | loggedOut (requestId : Nat) (reply : Except ε Unit)

section Provider

variable {User ε : Type}

/-- The provider as it is first rendered. -/
def initial : Provider User where
  state := .loading
  mountedRef := true
  requestIdRef := 0
  inFlight := []

/-- The request that a call sends, under the next number. -/
def request (operation : Operation) (provider : Provider User) : Provider User :=
  let requestId := provider.requestIdRef + 1
  { provider with
    requestIdRef := requestId
    inFlight := { requestId, operation } :: provider.inFlight }

/-- A call up to its `await`. -/
def call : Operation → Provider User → Provider User
  | .refresh, provider => { request .refresh provider with state := .loading }
  | .loginAs account, provider => request (.loginAs account) provider
  | .logout, provider => request .logout provider

/-- The effects of a mount: the flag, then the first `refresh`. -/
def mount (provider : Provider User) : Provider User :=
  call .refresh { provider with mountedRef := true }

def unmount (provider : Provider User) : Provider User :=
  { provider with mountedRef := false }

/-- The rest of `refresh`, and what its promise settles with. -/
def afterRefresh (requestId : Nat) (reply : Except ε User) (provider : Provider User) :
    Provider User × Except ε Unit :=
  match reply with
  | .ok user =>
      if !provider.mountedRef || provider.requestIdRef != requestId then (provider, .ok ())
      else ({ provider with state := .authenticated user }, .ok ())
  | .error _ =>
      if !provider.mountedRef || provider.requestIdRef != requestId then (provider, .ok ())
      else ({ provider with state := .anonymous }, .ok ())

/-- The rest of `loginAs`. -/
def afterLoginAs (requestId : Nat) (reply : Except ε User) (provider : Provider User) :
    Provider User × Except ε User :=
  match reply with
  | .ok user =>
      if provider.mountedRef && provider.requestIdRef == requestId then
        ({ provider with state := .authenticated user }, .ok user)
      else (provider, .ok user)
  | .error error => (provider, .error error)

/-- The rest of `logout`. -/
def afterLogout (requestId : Nat) (reply : Except ε Unit) (provider : Provider User) :
    Provider User × Except ε Unit :=
  match reply with
  | .ok () =>
      if provider.mountedRef && provider.requestIdRef == requestId then
        ({ provider with state := .anonymous }, .ok ())
      else (provider, .ok ())
  | .error error => (provider, .error error)

/-- The request is no longer in flight. -/
def answered (requestId : Nat) (provider : Provider User) : Provider User :=
  { provider with inFlight := provider.inFlight.filter (·.requestId != requestId) }

/-- A call of a kind awaits the answer. -/
def awaits (provider : Provider User) (requestId : Nat) (kind : Operation → Bool) : Bool :=
  provider.inFlight.any fun pending => pending.requestId == requestId && kind pending.operation

def step : Move User ε → Provider User → Option (Provider User)
  | .mount, provider => some (mount provider)
  | .unmount, provider => some (unmount provider)
  | .call operation, provider => some (call operation provider)
  | .refreshed requestId reply, provider =>
      if awaits provider requestId (· matches .refresh) then
        some (afterRefresh requestId reply (answered requestId provider)).1
      else none
  | .loggedIn requestId reply, provider =>
      if awaits provider requestId (· matches .loginAs _) then
        some (afterLoginAs requestId reply (answered requestId provider)).1
      else none
  | .loggedOut requestId reply, provider =>
      if awaits provider requestId (· matches .logout) then
        some (afterLogout requestId reply (answered requestId provider)).1
      else none

/-- The request that a move completes. -/
def Move.completes : Move User ε → Option Nat
  | .mount | .unmount | .call _ => none
  | .refreshed requestId _ | .loggedIn requestId _ | .loggedOut requestId _ => some requestId

/-- The newest request is a `loginAs` or a `logout`, and it fails while the status is loading. -/
def FailsWhileLoading : Move User ε → Provider User → Prop
  | .loggedIn requestId (.error _), provider | .loggedOut requestId (.error _), provider =>
      requestId = provider.requestIdRef ∧ provider.mountedRef = true ∧ provider.state = .loading
  | _, _ => False

/-- No authentication request is in flight. -/
def Quiet (provider : Provider User) : Prop :=
  provider.inFlight = []

/-- The newest request is in flight. -/
def NewestPending (provider : Provider User) : Prop :=
  ∃ pending ∈ provider.inFlight, pending.requestId = provider.requestIdRef

/-- Numbers are given once and in order. -/
structure Numbered (provider : Provider User) : Prop where
  bounded : ∀ pending ∈ provider.inFlight, pending.requestId ≤ provider.requestIdRef
  distinct : (provider.inFlight.map (·.requestId)).Nodup

/-- A mounted provider is loading only for its newest request. -/
def LoadingForNewest (provider : Provider User) : Prop :=
  provider.mountedRef = true → provider.state = .loading → NewestPending provider

/-- The status of the provider is settled whenever nothing is in flight. -/
def SettledWhenQuiet (provider : Provider User) : Prop :=
  provider.mountedRef = true → Quiet provider → provider.state ≠ .loading

variable {provider provider' : Provider User} {move : Move User ε} {requestId : Nat}

/-- What the fence makes of a state: it reaches a mounted provider from its newest request only. -/
def land (requestId : Nat) (state : AuthState User) (provider : Provider User) : Provider User :=
  if provider.mountedRef = true ∧ provider.requestIdRef = requestId then { provider with state }
  else provider

theorem afterRefresh_ok (user : User) :
    (afterRefresh requestId (.ok user : Except ε User) provider).1 =
      land requestId (.authenticated user) provider := by
  unfold afterRefresh land
  cases provider.mountedRef <;> by_cases hid : provider.requestIdRef = requestId <;> simp [hid]

theorem afterRefresh_error (error : ε) :
    (afterRefresh requestId (.error error) provider).1 = land requestId .anonymous provider := by
  unfold afterRefresh land
  cases provider.mountedRef <;> by_cases hid : provider.requestIdRef = requestId <;> simp [hid]

theorem afterLoginAs_ok (user : User) :
    (afterLoginAs requestId (.ok user : Except ε User) provider).1 =
      land requestId (.authenticated user) provider := by
  unfold afterLoginAs land
  cases provider.mountedRef <;> by_cases hid : provider.requestIdRef = requestId <;> simp [hid]

theorem afterLogout_ok :
    (afterLogout requestId (.ok () : Except ε Unit) provider).1 =
      land requestId .anonymous provider := by
  unfold afterLogout land
  cases provider.mountedRef <;> by_cases hid : provider.requestIdRef = requestId <;> simp [hid]

/-- A completion takes its request out of flight. Then it lands a settled state, or it is the
failure of a `loginAs` or a `logout` and does nothing more. -/
theorem step_completes (hcompletes : move.completes = some requestId)
    (hstep : step move provider = some provider') :
    (∃ state, state ≠ .loading ∧ provider' = land requestId state (answered requestId provider)) ∨
      provider' = answered requestId provider ∧
        (requestId = provider.requestIdRef → provider.mountedRef = true →
          provider.state = .loading → FailsWhileLoading move provider) := by
  cases move with
  | mount => cases hcompletes
  | unmount => cases hcompletes
  | call operation => cases hcompletes
  | refreshed _ reply =>
      obtain rfl := Option.some.inj hcompletes
      obtain ⟨-, hafter⟩ := Option.ite_none_right_eq_some.mp hstep
      obtain rfl := Option.some.inj hafter
      cases reply with
      | ok user => exact .inl ⟨.authenticated user, by simp, afterRefresh_ok user⟩
      | error error => exact .inl ⟨.anonymous, by simp, afterRefresh_error error⟩
  | loggedIn _ reply =>
      obtain rfl := Option.some.inj hcompletes
      obtain ⟨-, hafter⟩ := Option.ite_none_right_eq_some.mp hstep
      obtain rfl := Option.some.inj hafter
      cases reply with
      | ok user => exact .inl ⟨.authenticated user, by simp, afterLoginAs_ok user⟩
      | error error =>
          exact .inr ⟨rfl, fun hnewest hmounted hloading => ⟨hnewest, hmounted, hloading⟩⟩
  | loggedOut _ reply =>
      obtain rfl := Option.some.inj hcompletes
      obtain ⟨-, hafter⟩ := Option.ite_none_right_eq_some.mp hstep
      obtain rfl := Option.some.inj hafter
      cases reply with
      | ok => exact .inl ⟨.anonymous, by simp, afterLogout_ok⟩
      | error error =>
          exact .inr ⟨rfl, fun hnewest hmounted hloading => ⟨hnewest, hmounted, hloading⟩⟩

theorem land_superseded (state : AuthState User) (hsuperseded : provider.requestIdRef ≠ requestId) :
    land requestId state provider = provider :=
  if_neg fun h => hsuperseded h.2

/-- The completion of a request that a later one superseded leaves the state. -/
theorem superseded_keeps_state (hcompletes : move.completes = some requestId)
    (hsuperseded : requestId < provider.requestIdRef)
    (hstep : step move provider = some provider') : provider'.state = provider.state := by
  have hne : (answered requestId provider).requestIdRef ≠ requestId := Nat.ne_of_gt hsuperseded
  obtain ⟨state, -, rfl⟩ | ⟨rfl, -⟩ := step_completes hcompletes hstep
  · rw [land_superseded state hne]
    rfl
  · rfl

theorem newestPending_answered (hsuperseded : requestId ≠ provider.requestIdRef)
    (hnewest : NewestPending provider) : NewestPending (answered requestId provider) := by
  obtain ⟨pending, hmem, hid⟩ := hnewest
  refine ⟨pending, List.mem_filter.mpr ⟨hmem, ?_⟩, hid⟩
  simpa [hid] using Ne.symm hsuperseded

theorem newestPending_request (operation : Operation) :
    NewestPending (request operation provider) :=
  ⟨_, List.mem_cons_self, rfl⟩

theorem loadingForNewest_completes (hcompletes : move.completes = some requestId)
    (hloading : LoadingForNewest provider) (hallowed : ¬ FailsWhileLoading move provider)
    (hstep : step move provider = some provider') : LoadingForNewest provider' := by
  by_cases hnewest : requestId = provider.requestIdRef
  · obtain ⟨state, hsettled, rfl⟩ | ⟨rfl, hfails⟩ := step_completes hcompletes hstep
    · intro hmounted hstill
      by_cases hland : provider.mountedRef = true
      · simp [land, answered, hland, hnewest, hsettled] at hstill
      · simp [land, answered, hland] at hmounted
    · intro hmounted hstill
      exact absurd (hfails hnewest hmounted hstill) hallowed
  · have hkeeps : provider' = answered requestId provider := by
      obtain ⟨state, -, rfl⟩ | ⟨rfl, -⟩ := step_completes hcompletes hstep
      · exact land_superseded state (Ne.symm hnewest)
      · rfl
    subst hkeeps
    intro hmounted hstill
    exact newestPending_answered hnewest (hloading hmounted hstill)

/-- One step keeps the reason for which the provider is loading. -/
theorem loadingForNewest_step (hloading : LoadingForNewest provider)
    (hallowed : ¬ FailsWhileLoading move provider) (hstep : step move provider = some provider') :
    LoadingForNewest provider' := by
  cases hcompletes : move.completes with
  | some requestId => exact loadingForNewest_completes hcompletes hloading hallowed hstep
  | none =>
      cases move with
      | mount =>
          obtain rfl := Option.some.inj hstep
          exact fun _ _ => newestPending_request .refresh
      | unmount =>
          obtain rfl := Option.some.inj hstep
          exact fun hmounted => nomatch hmounted
      | call operation =>
          obtain rfl := Option.some.inj hstep
          cases operation <;> exact fun _ _ => newestPending_request _
      | refreshed requestId reply => cases hcompletes
      | loggedIn requestId reply => cases hcompletes
      | loggedOut requestId reply => cases hcompletes

theorem settledWhenQuiet_of_loadingForNewest (hloading : LoadingForNewest provider) :
    SettledWhenQuiet provider := by
  intro hmounted hquiet hstill
  obtain ⟨pending, hmem, -⟩ := hloading hmounted hstill
  rw [hquiet] at hmem
  exact absurd hmem List.not_mem_nil

/-- In a run from the first mount in which no `loginAs` or `logout` that is the newest request fails
while the status is loading, the status is settled whenever nothing is in flight. In any run at all,
a superseded completion leaves the state. -/
theorem run_settled (moves : List (Move User ε)) (provider : Provider User)
    (hrun : run step moves (mount initial) = some provider) :
    (Along step (fun move before => ¬ FailsWhileLoading move before) moves (mount initial) →
      SettledWhenQuiet provider) ∧
    ∀ (move : Move User ε) requestId after, move.completes = some requestId →
      requestId < provider.requestIdRef → step move provider = some after →
        after.state = provider.state := by
  constructor
  · intro halong
    refine settledWhenQuiet_of_loadingForNewest ?_
    refine run_invariant_along (I := LoadingForNewest) ?_ ?_ halong hrun
    · exact fun move before after hbefore hallowed hstep =>
        loadingForNewest_step hbefore hallowed hstep
    · exact fun _ _ => newestPending_request .refresh
  · exact fun move requestId after hcompletes hsuperseded hstep =>
      superseded_keeps_state hcompletes hsuperseded hstep

/-- What a completion leaves in flight. -/
theorem inFlight_completes (hcompletes : move.completes = some requestId)
    (hstep : step move provider = some provider') :
    provider'.inFlight = (answered requestId provider).inFlight ∧
      provider'.requestIdRef = provider.requestIdRef := by
  obtain ⟨state, -, rfl⟩ | ⟨rfl, -⟩ := step_completes hcompletes hstep
  · unfold land
    split <;> exact ⟨rfl, rfl⟩
  · exact ⟨rfl, rfl⟩

theorem Numbered.of_sublist (hnumbered : Numbered provider)
    (hsub : provider'.inFlight.Sublist provider.inFlight)
    (hcounter : provider'.requestIdRef = provider.requestIdRef) : Numbered provider' where
  bounded := fun pending hmem => hcounter ▸ hnumbered.bounded pending (hsub.subset hmem)
  distinct := hnumbered.distinct.sublist (hsub.map _)

theorem Numbered.request (hnumbered : Numbered provider) (operation : Operation) :
    Numbered (request operation provider) where
  bounded := by
    intro pending hmem
    rcases List.mem_cons.mp hmem with rfl | hmem
    · exact Nat.le_refl _
    · exact Nat.le_succ_of_le (hnumbered.bounded pending hmem)
  distinct := by
    refine List.nodup_cons.mpr ⟨fun hmem => ?_, hnumbered.distinct⟩
    obtain ⟨pending, hpending, hid⟩ := List.mem_map.mp hmem
    have hle := hnumbered.bounded pending hpending
    rw [hid] at hle
    exact Nat.not_succ_le_self _ hle

theorem numbered_step (hnumbered : Numbered provider)
    (hstep : step move provider = some provider') : Numbered provider' := by
  cases hcompletes : move.completes with
  | some requestId =>
      obtain ⟨hflight, hcounter⟩ := inFlight_completes hcompletes hstep
      exact hnumbered.of_sublist (hflight ▸ List.filter_sublist) hcounter
  | none =>
      cases move with
      | mount =>
          obtain rfl := Option.some.inj hstep
          have hbefore : Numbered { provider with mountedRef := true } :=
            ⟨hnumbered.bounded, hnumbered.distinct⟩
          exact ⟨(hbefore.request .refresh).bounded, (hbefore.request .refresh).distinct⟩
      | unmount =>
          obtain rfl := Option.some.inj hstep
          exact ⟨hnumbered.bounded, hnumbered.distinct⟩
      | call operation =>
          obtain rfl := Option.some.inj hstep
          have hrequest := hnumbered.request operation
          cases operation <;> exact ⟨hrequest.bounded, hrequest.distinct⟩
      | refreshed requestId reply => cases hcompletes
      | loggedIn requestId reply => cases hcompletes
      | loggedOut requestId reply => cases hcompletes

/-- In every run, no two requests in flight share a number and none is above the counter. -/
theorem numbered_run {moves : List (Move User ε)}
    (hrun : run step moves (mount initial) = some provider) : Numbered provider := by
  refine run_invariant (fun move before after hbefore hstep => numbered_step hbefore hstep) ?_ hrun
  constructor <;> simp [mount, call, request, initial]

/-- A mounted provider is loading, and its newest request is no longer in flight. -/
def Stuck (provider : Provider User) : Prop :=
  provider.mountedRef = true ∧ provider.state = .loading ∧ ¬ NewestPending provider

/-- The failure of a newest `loginAs` or `logout` while the status is loading leaves the provider
stuck. -/
theorem stuck_of_fails (hfails : FailsWhileLoading move provider)
    (hstep : step move provider = some provider') : Stuck provider' := by
  have hgone : ¬ NewestPending (answered provider.requestIdRef provider) := by
    rintro ⟨pending, hmem, hid⟩
    simpa [answered, hid] using (List.mem_filter.mp hmem).2
  unfold FailsWhileLoading at hfails
  split at hfails
  · obtain ⟨rfl, hmounted, hloading⟩ := hfails
    obtain ⟨-, hafter⟩ := Option.ite_none_right_eq_some.mp hstep
    obtain rfl := Option.some.inj hafter
    exact ⟨hmounted, hloading, hgone⟩
  · obtain ⟨rfl, hmounted, hloading⟩ := hfails
    obtain ⟨-, hafter⟩ := Option.ite_none_right_eq_some.mp hstep
    obtain rfl := Option.some.inj hafter
    exact ⟨hmounted, hloading, hgone⟩
  · cases hfails

theorem pending_of_completes (hcompletes : move.completes = some requestId)
    (hstep : step move provider = some provider') :
    ∃ pending ∈ provider.inFlight, pending.requestId = requestId := by
  have hany (kind : Operation → Bool) (hawaits : awaits provider requestId kind = true) :
      ∃ pending ∈ provider.inFlight, pending.requestId = requestId := by
    obtain ⟨pending, hmem, hpending⟩ := List.any_eq_true.mp hawaits
    exact ⟨pending, hmem, beq_iff_eq.mp (Bool.and_eq_true_iff.mp hpending).1⟩
  cases move with
  | mount => cases hcompletes
  | unmount => cases hcompletes
  | call operation => cases hcompletes
  | refreshed _ reply =>
      obtain rfl := Option.some.inj hcompletes
      exact hany _ (Option.ite_none_right_eq_some.mp hstep).1
  | loggedIn _ reply =>
      obtain rfl := Option.some.inj hcompletes
      exact hany _ (Option.ite_none_right_eq_some.mp hstep).1
  | loggedOut _ reply =>
      obtain rfl := Option.some.inj hcompletes
      exact hany _ (Option.ite_none_right_eq_some.mp hstep).1

theorem stuck_completes (hstuck : Stuck provider) (hcompletes : move.completes = some requestId)
    (hstep : step move provider = some provider') : Stuck provider' := by
  obtain ⟨hmounted, hloading, hgone⟩ := hstuck
  obtain ⟨pending, hmem, hid⟩ := pending_of_completes hcompletes hstep
  have hsuperseded : provider.requestIdRef ≠ requestId :=
    fun hnewest => hgone ⟨pending, hmem, hid.trans hnewest.symm⟩
  have hkeeps : provider' = answered requestId provider := by
    obtain ⟨state, -, rfl⟩ | ⟨rfl, -⟩ := step_completes hcompletes hstep
    · exact land_superseded state hsuperseded
    · rfl
  subst hkeeps
  refine ⟨hmounted, hloading, ?_⟩
  rintro ⟨other, hother, hnewest⟩
  exact hgone ⟨other, List.mem_of_mem_filter hother, hnewest⟩

/-- Completions alone never settle a provider that is stuck. -/
theorem stuck_run {moves : List (Move User ε)} (hstuck : Stuck provider)
    (hall : ∀ move ∈ moves, move.completes.isSome = true)
    (hrun : run step moves provider = some provider') : Stuck provider' := by
  induction moves generalizing provider with
  | nil => exact Option.some.inj hrun ▸ hstuck
  | cons move moves ih =>
      obtain ⟨mid, hmid, hrest⟩ := run_cons hrun
      obtain ⟨requestId, hcompletes⟩ := Option.isSome_iff_exists.mp (hall move List.mem_cons_self)
      refine ih (stuck_completes hstuck hcompletes hmid) (fun later hlater => ?_) hrest
      exact hall later (List.mem_cons_of_mem move hlater)

end Provider

/-- Two overlapping calls of `refresh`, the newest one answered. -/
def overlapping : List (Move String Unit) :=
  [.call .refresh, .refreshed 2 (.ok "admin")]

theorem overlapping_settled :
    ∃ provider, run step overlapping (mount initial) = some provider ∧ SettledWhenQuiet provider ∧
      ((step (.refreshed 1 (.error ()) : Move String Unit) provider).map (·.state)) =
        some (.authenticated "admin") := by
  have hsettled := run_settled overlapping _ rfl
  refine ⟨_, rfl, hsettled.1 (by simp [overlapping, Along, FailsWhileLoading]), ?_⟩
  exact congrArg some (hsettled.2 (.refreshed 1 (.error ())) 1 _ rfl (by decide) rfl)

/-- A login supersedes the first `refresh` and fails; the answer to the `refresh` is ignored. -/
theorem failed_login_leaves_loading :
    ∃ provider, run step [.call (.loginAs "admin"), .loggedIn 2 (.error ()),
        .refreshed 1 (.ok "admin")] (mount (initial : Provider String)) = some provider ∧
      ¬ SettledWhenQuiet provider :=
  ⟨_, rfl, fun hsettled => hsettled rfl rfl rfl⟩

end ChangeQuality.AuthProvider
