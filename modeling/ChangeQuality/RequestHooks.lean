import ChangeQuality.RemoteReads

/-!
The hooks of the client that read from the server, and the MCP pages that show what they have read.
Two devices keep late answers out: a request counter, and a flag for each run of an effect.
-/

namespace ChangeQuality.RequestHooks

open ChangeQuality.Runs
open ChangeQuality.RemoteReads

structure Error where
  status : Option Nat
  message : String
  deriving DecidableEq

def isMcpNotFoundError (error : Error) : Bool :=
  error.status = some 404

section Hooks

variable {K D E : Type} (R : Reads K D)

/-- A hook that numbers its requests. -/
structure Hook (D E : Type) where
  state : AsyncState D E
  requestIdRef : Nat
  mountedRef : Bool
  deriving DecidableEq

/-- `refetch` up to its `await`. -/
def refetch (k : K) (hook : Hook D E) : Hook D E :=
  { hook with
    requestIdRef := hook.requestIdRef + 1
    state := R.starting k hook.state }

/-- The rest of `refetch`. -/
def afterRefetch (requestId : Nat) (reply : Except E D) (hook : Hook D E) : Hook D E :=
  if !hook.mountedRef || hook.requestIdRef != requestId then hook
  else { hook with state := R.settled reply }

theorem afterRefetch_late {n : Nat} {r : Except E D} {hook : Hook D E}
    (h : ¬ (hook.mountedRef = true ∧ hook.requestIdRef = n)) : afterRefetch R n r hook = hook := by
  unfold afterRefetch
  rw [if_pos]
  by_cases hmounted : hook.mountedRef = true
  · simpa using .inr fun hn => h ⟨hmounted, hn⟩
  · simp [hmounted]

theorem afterRefetch_taken {n : Nat} {r : Except E D} {hook : Hook D E}
    (h : hook.mountedRef = true ∧ hook.requestIdRef = n) :
    afterRefetch R n r hook = { hook with state := R.settled r } := by
  unfold afterRefetch
  rw [if_neg]
  simp [h.1, h.2]

theorem requestIdRef_afterRefetch (n : Nat) (r : Except E D) (hook : Hook D E) :
    (afterRefetch R n r hook).requestIdRef = hook.requestIdRef := by
  unfold afterRefetch
  split <;> rfl

theorem mountedRef_afterRefetch (n : Nat) (r : Except E D) (hook : Hook D E) :
    (afterRefetch R n r hook).mountedRef = hook.mountedRef := by
  unfold afterRefetch
  split <;> rfl

theorem not_taken_call (k : K) (hook : Hook D E) (n : Nat) (hn : n ≤ hook.requestIdRef) :
    ¬ ((refetch R k hook).mountedRef = true ∧ (refetch R k hook).requestIdRef = n) := by
  rintro ⟨-, heq⟩
  have hnext : hook.requestIdRef + 1 = n := heq
  omega

theorem taken_afterRefetch (n : Nat) (r : Except E D) (hook : Hook D E) (m : Nat) :
    ((afterRefetch R n r hook).mountedRef = true ∧ (afterRefetch R n r hook).requestIdRef = m) ↔
      (hook.mountedRef = true ∧ hook.requestIdRef = m) := by
  rw [requestIdRef_afterRefetch, mountedRef_afterRefetch]

theorem view_taken (n : Nat) (r : Except E D) (hook : Hook D E)
    (h : hook.mountedRef = true ∧ hook.requestIdRef = n) :
    (afterRefetch R n r hook).state = R.settled r := by
  rw [afterRefetch_taken R h]

/-- The counter of a hook, with the flag that says whether it is mounted. -/
def requestFence : Fence R E (Hook D E) where
  view := Hook.state
  number := Hook.requestIdRef
  mounted := Hook.mountedRef
  mount hook := { hook with mountedRef := true }
  leave hook := { hook with mountedRef := false }
  call := refetch R
  settle := afterRefetch R
  takes hook n := hook.mountedRef = true ∧ hook.requestIdRef = n
  number_mount _ := rfl
  mounted_mount _ := rfl
  number_leave _ := rfl
  view_call _ _ := rfl
  number_call _ _ := rfl
  mounted_call _ _ := rfl
  number_settle := requestIdRef_afterRefetch R
  mounted_settle := mountedRef_afterRefetch R
  takes_unique _ _ _ h h' := h.2.symm.trans h'.2
  not_takes_leave _ _ h := Bool.noConfusion h.1
  takes_call _ _ _ h := ⟨h, rfl⟩
  not_takes_call := not_taken_call R
  takes_settle := taken_afterRefetch R
  settle_late _ _ _ h := afterRefetch_late R h
  settle_taken := view_taken R

/-- A hook whose effect has a flag of its own in each run. -/
structure Effects (D E : Type) where
  state : AsyncState D E
  runs : Nat
  /-- The flags of the runs that have sent a request, by the number of the run. -/
  cancelled : List (Nat × Bool)
  /-- The run whose cleanup is still to come. -/
  cleanup : Option Nat
  numbered : ∀ flag ∈ cancelled, flag.1 ≤ runs
  closed : ∀ flag ∈ cancelled, flag.2 = false → cleanup = some flag.1

/-- `cancelled = true` in the run whose cleanup is called. -/
def raiseFlag (cleanup : Option Nat) (flag : Nat × Bool) : Nat × Bool :=
  if cleanup = some flag.1 then (flag.1, true) else flag

theorem raiseFlag_fst (cleanup : Option Nat) (flag : Nat × Bool) :
    (raiseFlag cleanup flag).1 = flag.1 := by
  unfold raiseFlag
  split <;> rfl

theorem raised (effects : Effects D E) :
    ∀ flag ∈ effects.cancelled.map (raiseFlag effects.cleanup), flag.2 = true := by
  intro flag hflag
  obtain ⟨old, hold, rfl⟩ := List.mem_map.mp hflag
  unfold raiseFlag
  split
  · rfl
  · rename_i hother
    cases hraised : old.2 with
    | true => rfl
    | false => exact (hother (effects.closed old hold hraised)).elim

theorem raised_numbered (effects : Effects D E) :
    ∀ flag ∈ effects.cancelled.map (raiseFlag effects.cleanup), flag.1 ≤ effects.runs := by
  intro flag hflag
  obtain ⟨old, hold, rfl⟩ := List.mem_map.mp hflag
  rw [raiseFlag_fst]
  exact effects.numbered old hold

theorem raised_closed (effects : Effects D E) (cleanup : Option Nat) :
    ∀ flag ∈ effects.cancelled.map (raiseFlag effects.cleanup), flag.2 = false →
      cleanup = some flag.1 := by
  intro flag hflag hlowered
  rw [raised effects flag hflag] at hlowered
  cases hlowered

/-- The cleanup of the last run, when its effect runs again or the component goes. -/
def cancel (effects : Effects D E) : Effects D E where
  state := effects.state
  runs := effects.runs
  cancelled := effects.cancelled.map (raiseFlag effects.cleanup)
  cleanup := none
  numbered := raised_numbered effects
  closed := raised_closed effects none

theorem opened_numbered (effects : Effects D E) :
    ∀ flag ∈ effects.cancelled ++ [(effects.runs + 1, false)], flag.1 ≤ effects.runs + 1 := by
  intro flag hflag
  rcases List.mem_append.mp hflag with hflag | hflag
  · exact Nat.le_succ_of_le (effects.numbered flag hflag)
  · obtain rfl := List.mem_singleton.mp hflag
    exact Nat.le_refl _

theorem opened_closed (effects : Effects D E) :
    ∀ flag ∈ (cancel effects).cancelled ++ [(effects.runs + 1, false)], flag.2 = false →
      some (effects.runs + 1) = some flag.1 := by
  intro flag hflag hlowered
  rcases List.mem_append.mp hflag with hflag | hflag
  · rw [raised effects flag hflag] at hlowered
    cases hlowered
  · obtain rfl := List.mem_singleton.mp hflag
    rfl

theorem later_numbered (effects : Effects D E) :
    ∀ flag ∈ effects.cancelled, flag.1 ≤ effects.runs + 1 :=
  fun flag hflag => Nat.le_succ_of_le (effects.numbered flag hflag)

/-- The effect runs again: the cleanup of the run before, then the new run. -/
def runEffect (k : K) (effects : Effects D E) : Effects D E :=
  if R.asks k then
    { state := R.starting k effects.state
      runs := effects.runs + 1
      cancelled := (cancel effects).cancelled ++ [(effects.runs + 1, false)]
      cleanup := some (effects.runs + 1)
      numbered := opened_numbered (cancel effects)
      closed := opened_closed effects }
  else
    { state := R.starting k effects.state
      runs := effects.runs + 1
      cancelled := (cancel effects).cancelled
      cleanup := none
      numbered := later_numbered (cancel effects)
      closed := (cancel effects).closed }

/-- The handlers of the promise that a run has made. -/
def afterEffect (run : Nat) (reply : Except E D) (effects : Effects D E) : Effects D E :=
  if (run, false) ∈ effects.cancelled then { effects with state := R.settled reply } else effects

theorem state_runEffect (k : K) (effects : Effects D E) :
    (runEffect R k effects).state = R.starting k effects.state := by
  unfold runEffect
  split <;> rfl

theorem runs_runEffect (k : K) (effects : Effects D E) :
    (runEffect R k effects).runs = effects.runs + 1 := by
  unfold runEffect
  split <;> rfl

theorem not_open_cancel (effects : Effects D E) (n : Nat) :
    (n, false) ∉ (cancel effects).cancelled := by
  intro hflag
  cases raised effects (n, false) hflag

theorem open_runEffect (k : K) (effects : Effects D E) (hasks : R.asks k = true) :
    (effects.runs + 1, false) ∈ (runEffect R k effects).cancelled := by
  simp [runEffect, hasks]

theorem not_open_runEffect (k : K) (effects : Effects D E) (n : Nat) (hn : n ≤ effects.runs) :
    (n, false) ∉ (runEffect R k effects).cancelled := by
  unfold runEffect
  split
  · intro hflag
    rcases List.mem_append.mp hflag with hflag | hflag
    · exact not_open_cancel effects n hflag
    · have heq : n = effects.runs + 1 := congrArg Prod.fst (List.mem_singleton.mp hflag)
      omega
  · exact not_open_cancel effects n

theorem open_unique (effects : Effects D E) (m n : Nat) (hm : (m, false) ∈ effects.cancelled)
    (hn : (n, false) ∈ effects.cancelled) : m = n :=
  Option.some.inj ((effects.closed _ hm rfl).symm.trans (effects.closed _ hn rfl))

theorem runs_afterEffect (n : Nat) (r : Except E D) (effects : Effects D E) :
    (afterEffect R n r effects).runs = effects.runs := by
  unfold afterEffect
  split <;> rfl

theorem open_afterEffect (n : Nat) (r : Except E D) (effects : Effects D E) (m : Nat) :
    (m, false) ∈ (afterEffect R n r effects).cancelled ↔ (m, false) ∈ effects.cancelled := by
  unfold afterEffect
  split <;> exact Iff.rfl

theorem afterEffect_taken (n : Nat) (r : Except E D) (effects : Effects D E)
    (h : (n, false) ∈ effects.cancelled) : (afterEffect R n r effects).state = R.settled r := by
  unfold afterEffect
  rw [if_pos h]

theorem afterEffect_late (n : Nat) (r : Except E D) (effects : Effects D E)
    (h : (n, false) ∉ effects.cancelled) : afterEffect R n r effects = effects :=
  if_neg h

def effectFence : Fence R E (Effects D E) where
  view := Effects.state
  number := Effects.runs
  mounted _ := true
  mount effects := effects
  leave := cancel
  call := runEffect R
  settle := afterEffect R
  takes effects n := (n, false) ∈ effects.cancelled
  number_mount _ := rfl
  mounted_mount _ := rfl
  number_leave _ := rfl
  view_call := state_runEffect R
  number_call := runs_runEffect R
  mounted_call _ _ := rfl
  number_settle := runs_afterEffect R
  mounted_settle _ _ _ := rfl
  takes_unique := open_unique
  not_takes_leave := not_open_cancel
  takes_call k effects h _ := open_runEffect R k effects h
  not_takes_call := not_open_runEffect R
  takes_settle := open_afterEffect R
  settle_late := afterEffect_late R
  settle_taken := afterEffect_taken R

end Hooks

section Pages

/-- The hooks that read a list. -/
def listReads (D : Type) : Reads Unit (List D) where
  empty := []
  asks _ := true
  keepsData := true
  refetchable := true

/-- The hooks that read one object, by its id. -/
def detailReads (D : Type) : Reads (Option String) (Option D) where
  empty := none
  asks id := id.any (· ≠ "")
  keepsData := false
  refetchable := true

abbrev useMcpServers (McpServerSummary : Type) := listReads McpServerSummary

abbrev useMcpServerDetail (McpServerDetail : Type) := detailReads McpServerDetail

abbrev useAgents (AgentSummary : Type) := listReads AgentSummary

abbrev useAgentDetail (AgentDetail : Type) := detailReads AgentDetail

abbrev useLlmProviders (LlmProviderSummary : Type) := listReads LlmProviderSummary

abbrev useLlmProviderDetail (LlmProviderDetail : Type) := detailReads LlmProviderDetail

def useSopEnvironments (SopEnvironment : Type) : Reads Unit (List SopEnvironment) :=
  { listReads SopEnvironment with refetchable := false }

/-- By SOP, environment and refresh key. -/
def useSopQualityCheckHistory (Item : Type) : Reads (String × String × Nat) (List Item) where
  empty := []
  asks key := decide (key.1 ≠ "") && decide (key.2.1 ≠ "")
  keepsData := false
  refetchable := false

def useRecentSopQualityChecks (Item : Type) : Reads (String × Nat) (List Item) where
  empty := []
  asks key := decide (key.1 ≠ "")
  keepsData := false
  refetchable := false

inductive McpAction where
  | start
  | stop
  | restart
  | check
  | delete
  deriving DecidableEq

/-- A component that reads by a hook, and the outcomes of its own actions after which it reads
again. -/
structure Page (K D M : Type) where
  reads : Reads K D
  refetches : M → Except Error Unit → Bool

/-- `McpListPage`: a failed action is swallowed. -/
def mcpListPage (McpServerSummary : Type) : Page Unit (List McpServerSummary) McpAction where
  reads := useMcpServers McpServerSummary
  refetches
    | _, .ok () => true
    | _, .error _ => false

/-- `McpDetailPage`, the server that it shows: not read again when it is gone. -/
def mcpDetailPage (McpServerDetail : Type) :
    Page (Option String) (Option McpServerDetail) McpAction where
  reads := useMcpServerDetail McpServerDetail
  refetches
    | .delete, _ => false
    | _, .ok () => true
    | _, .error e => !isMcpNotFoundError e

/-- `McpDetailPage`, the list of all servers. -/
def mcpDetailPageServers (McpServerSummary : Type) :
    Page Unit (List McpServerSummary) McpAction where
  reads := useMcpServers McpServerSummary
  refetches
    | .delete, .error _ => false
    | _, _ => true

/-- `McpEditPage`, whose action is the save. -/
def mcpEditPage (McpServerDetail : Type) : Page (Option String) (Option McpServerDetail) Unit where
  reads := useMcpServerDetail McpServerDetail
  refetches
    | _, .ok () => true
    | _, .error _ => false

/-- What a view shows at the end of a run that has led to `w`. -/
structure Follows {σ S K D M : Type} [DecidableEq K] {R : Reads K D} (F : Fence R Error σ)
    (answers : K → S → Except Error D) (refetches : M → Except Error Unit → Bool)
    (ms : List (Move S K Error M)) (w₀ w : World σ S K D Error M) : Prop where
  /-- What it shows belongs to the newest request, and is not older than that. -/
  shown : ∀ k ∈ w.key, ∃ k' v, w.newest = some (k', v) ∧ Shown F answers w k' v
  apt : Along (step F answers refetches) (Attentive refetches) ms w₀ →
    ∀ k ∈ w.key, ∃ v, w.newest = some (k, v)
  /-- At rest it shows the resource as it is. -/
  present : Along (step F answers refetches) (Undisturbed refetches) ms w₀ →
    w.reads = [] → w.changes = [] → ∀ k ∈ w.key, ∃ k' v, w.newest = some (k', v) ∧
      (F.view w.view = R.settled (answers k' (w.states w.version)) ∨
        (∃ e, F.view w.view = R.settled (.error e)) ∨
        R.asks k' = false ∧ F.view w.view = { data := R.empty, error := none, loading := false })

theorem follows_of_run {σ S K D M : Type} [DecidableEq K] {R : Reads K D} {F : Fence R Error σ}
    {answers : K → S → Except Error D} {refetches : M → Except Error Unit → Bool}
    {ms : List (Move S K Error M)} {view : σ} {s : S} {w : World σ S K D Error M}
    (hrun : run (step F answers refetches) ms (initial view s) = some w) :
    Follows F answers refetches ms (initial view s) w := by
  have hinv := inv_run hrun
  refine ⟨?_, fun halong => apt_run halong hrun, ?_⟩
  · intro k hk
    exact hinv.shown (hk ▸ rfl)
  · intro halong hreads hchanges k hk
    obtain ⟨k', v, hnewest, hshown⟩ := hinv.shown (hk ▸ rfl)
    refine ⟨k', v, hnewest, ?_⟩
    have hversion : v = w.version := by
      rcases fresh_run halong hrun k' v hnewest with heq | ⟨c, hc, -⟩
      · exact heq
      · rw [hchanges] at hc
        cases hc
    cases hshown with
    | awaited f hf =>
        rw [hreads] at hf
        cases hf
    | read u _ _ hle hle' hview =>
        obtain rfl : u = w.version := by omega
        exact .inl hview
    | failed e _ _ hview => exact .inr (.inl ⟨e, hview⟩)
    | idle _ hasks hview => exact .inr (.inr ⟨hasks, hview⟩)

/-- **Reading hooks.** Whatever comes late, in another order or not at all, and whoever changes the
resource meanwhile: a page shows of its newest request that it is in flight, what the server has had
since it was made, or its failure, under either device. -/
theorem hooks_of_run {S K D M : Type} [DecidableEq K] (page : Page K D M)
    (answers : K → S → Except Error D) (s : S) (ms : List (Move S K Error M)) :
    (∀ hook w, run (step (requestFence page.reads) answers page.refetches) ms (initial hook s) =
        some w →
      Follows (requestFence page.reads) answers page.refetches ms (initial hook s) w) ∧
    ∀ effects w, run (step (effectFence page.reads) answers page.refetches) ms
        (initial effects s) = some w →
      Follows (effectFence page.reads) answers page.refetches ms (initial effects s) w :=
  ⟨fun _ _ hrun => follows_of_run hrun, fun _ _ hrun => follows_of_run hrun⟩

/-- The list is read, a start succeeds, a read of the time before is made again and overtaken. -/
def startFromList : List (Move (List String) Unit Error McpAction) :=
  [.enter (), .answer 1 none, .deliver 1, .refetch (), .answer 2 none, .change .start (),
    .carryOut 0 ["started"] (.ok ()), .settle 0, .answer 3 none, .deliver 3, .deliver 2]

theorem hooks_startFromList : ∃ w,
    run (step (requestFence (mcpListPage String).reads) (fun _ names => .ok names)
        (mcpListPage String).refetches) startFromList
        (initial { state := ⟨[], none, true⟩, requestIdRef := 0, mountedRef := true } ["stopped"]) =
      some w ∧
      w.view.state = { data := ["started"], error := none, loading := false } ∧
      Follows (requestFence (mcpListPage String).reads) (fun _ names => .ok names)
        (mcpListPage String).refetches startFromList
        (initial { state := ⟨[], none, true⟩, requestIdRef := 0, mountedRef := true } ["stopped"])
        w := by
  refine ⟨_, rfl, rfl, ?_⟩
  exact (hooks_of_run (mcpListPage String) (fun _ names => .ok names) ["stopped"]
    startFromList).1 _ _ rfl

end Pages

end ChangeQuality.RequestHooks
