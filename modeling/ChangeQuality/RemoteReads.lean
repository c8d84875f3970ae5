import ChangeQuality.Runs
import Mathlib.Data.List.Nodup
import Mathlib.Logic.Function.Basic

/-!
A view of a remote resource. The view asks for what it shows by requests that are answered in any
order or lost; the resource changes meanwhile, by changes that the view itself has sent and by others.
Of all requests only the newest counts.
-/

namespace ChangeQuality.RemoteReads

open ChangeQuality.Runs

structure AsyncState (D E : Type) where
  data : D
  error : Option E
  loading : Bool
  deriving DecidableEq

/-- What a view asks for, by a key, and what it shows without an answer. -/
structure Reads (K D : Type) where
  empty : D
  asks : K → Bool
  /-- What was shown stays while a request is in flight. -/
  keepsData : Bool
  /-- A request can be made again, by any key that the view once had. -/
  refetchable : Bool

section Views

variable {K D E : Type} (R : Reads K D)

def Reads.starting (k : K) (s : AsyncState D E) : AsyncState D E :=
  if R.asks k then
    { data := if R.keepsData then s.data else R.empty, error := none, loading := true }
  else { data := R.empty, error := none, loading := false }

def Reads.settled : Except E D → AsyncState D E
  | .ok d => { data := d, error := none, loading := false }
  | .error e => { data := R.empty, error := some e, loading := false }

end Views

/-- A state of the view that keeps late answers out. `takes s n` says that an answer to the request
with the number `n` would be shown. -/
structure Fence {K D : Type} (R : Reads K D) (E σ : Type) where
  view : σ → AsyncState D E
  number : σ → Nat
  mounted : σ → Bool
  mount : σ → σ
  leave : σ → σ
  call : K → σ → σ
  settle : Nat → Except E D → σ → σ
  takes : σ → Nat → Prop
  number_mount : ∀ s, number (mount s) = number s
  mounted_mount : ∀ s, mounted (mount s) = true
  number_leave : ∀ s, number (leave s) = number s
  view_call : ∀ k s, view (call k s) = R.starting k (view s)
  number_call : ∀ k s, number (call k s) = number s + 1
  mounted_call : ∀ k s, mounted (call k s) = mounted s
  number_settle : ∀ n r s, number (settle n r s) = number s
  mounted_settle : ∀ n r s, mounted (settle n r s) = mounted s
  takes_unique : ∀ s m n, takes s m → takes s n → m = n
  not_takes_leave : ∀ s n, ¬ takes (leave s) n
  takes_call : ∀ k s, R.asks k = true → mounted s = true → takes (call k s) (number s + 1)
  not_takes_call : ∀ k s n, n ≤ number s → ¬ takes (call k s) n
  takes_settle : ∀ n r s m, takes (settle n r s) m ↔ takes s m
  settle_late : ∀ n r s, ¬ takes s n → settle n r s = s
  settle_taken : ∀ n r s, takes s n → view (settle n r s) = R.settled r

/-- A request in flight, with the version of the resource when it was sent. -/
structure Read (K D E : Type) where
  number : Nat
  key : K
  issued : Nat
  reply : Option (Except E D) := none

/-- A change in flight: once it was carried out, the version it has made and what it answers. -/
structure Change (M K E : Type) where
  number : Nat
  kind : M
  key : K
  outcome : Option (Nat × Except E Unit) := none

/-- The resource with all its versions, the view, and the messages in flight. -/
structure World (σ S K D E M : Type) where
  states : Nat → S
  version : Nat
  view : σ
  /-- The key that the view is rendered with; `none` when it is not there. -/
  key : Option K
  reads : List (Read K D E)
  changes : List (Change M K E)
  nextChange : Nat
  /-- The key of the newest request, and the version when it was made. -/
  newest : Option (K × Nat)

inductive Move (S K E M : Type) where
  | enter (k : K)
  | rerender (k : K)
  | leave
  | refetch (k : K)
  | answer (n : Nat) (failure : Option E)
  | deliver (n : Nat)
  | lose (n : Nat) (e : E)
  | change (kind : M) (k : K)
  | carryOut (i : Nat) (s : S) (r : Except E Unit)
  | settle (i : Nat)
  | abandon (i : Nat) (e : E)
  /-- Somebody else changes the resource. -/
  | drift (s : S)

section Machine

variable {σ S K D E M : Type} {R : Reads K D} (F : Fence R E σ)

def request (k : K) (w : World σ S K D E M) : World σ S K D E M :=
  { w with
    view := F.call k w.view
    reads :=
      if R.asks k then
        w.reads ++ [{ number := F.number w.view + 1, key := k, issued := w.version }]
      else w.reads
    newest := some (k, w.version) }

def World.evolve (s : S) (w : World σ S K D E M) : World σ S K D E M :=
  { w with states := Function.update w.states (w.version + 1) s, version := w.version + 1 }

def World.read? (w : World σ S K D E M) (n : Nat) : Option (Read K D E) :=
  w.reads.find? fun f => f.number = n

def World.change? (w : World σ S K D E M) (i : Nat) : Option (Change M K E) :=
  w.changes.find? fun c => c.number = i

def World.withoutRead (w : World σ S K D E M) (n : Nat) : World σ S K D E M :=
  { w with reads := w.reads.filter fun f => f.number ≠ n }

def World.withoutChange (w : World σ S K D E M) (i : Nat) : World σ S K D E M :=
  { w with changes := w.changes.filter fun c => c.number ≠ i }

variable (answers : K → S → Except E D) (refetches : M → Except E Unit → Bool)

/-- The end of a change, after which the view may ask again. -/
def ended (c : Change M K E) (r : Except E Unit) (w : World σ S K D E M) : World σ S K D E M :=
  if refetches c.kind r then request F c.key (w.withoutChange c.number)
  else w.withoutChange c.number

variable [DecidableEq K]

def step : Move S K E M → World σ S K D E M → Option (World σ S K D E M)
  | .enter k, w =>
      if w.key.isNone then some (request F k { w with view := F.mount w.view, key := some k })
      else none
  | .rerender k, w =>
      if w.key.isSome ∧ w.key ≠ some k then some (request F k { w with key := some k }) else none
  | .leave, w =>
      if w.key.isSome then some { w with view := F.leave w.view, key := none } else none
  | .refetch k, w => if R.refetchable then some (request F k w) else none
  | .answer n failure, w =>
      match w.read? n with
      | some f =>
          if f.reply.isNone then
            let r : Except E D := match failure with
              | some e => .error e
              | none => answers f.key (w.states w.version)
            some { w with
              reads := w.reads.map fun f => if f.number = n then { f with reply := some r } else f }
          else none
      | none => none
  | .deliver n, w =>
      match w.read? n with
      | some f => f.reply.map fun r =>
          { w.withoutRead n with view := F.settle n r w.view }
      | none => none
  | .lose n e, w =>
      (w.read? n).map fun _ => { w.withoutRead n with view := F.settle n (.error e) w.view }
  | .change kind k, w =>
      some { w with
        changes := w.changes ++ [{ number := w.nextChange, kind, key := k }]
        nextChange := w.nextChange + 1 }
  | .carryOut i s r, w =>
      match w.change? i with
      | some c =>
          if c.outcome.isNone then
            some { w.evolve s with
              changes := w.changes.map fun c =>
                if c.number = i then { c with outcome := some (w.version + 1, r) } else c }
          else none
      | none => none
  | .settle i, w =>
      match w.change? i with
      | some c => c.outcome.map fun o => ended F refetches c o.2 w
      | none => none
  | .abandon i e, w => (w.change? i).map fun c => ended F refetches c (.error e) w
  | .drift s, w => some (w.evolve s)

end Machine

section Invariants

variable {σ S K D E M : Type} {R : Reads K D} {F : Fence R E σ} {answers : K → S → Except E D}
  {refetches : M → Except E Unit → Bool} {w : World σ S K D E M}

/-- What the view shows of the request for a key that was made at a version: that it is in flight,
what the resource has answered since, or a failure. -/
inductive Shown (F : Fence R E σ) (answers : K → S → Except E D) (w : World σ S K D E M) (k : K)
    (v : Nat) : Prop
  | awaited (f : Read K D E) : f ∈ w.reads → F.takes w.view f.number →
      (F.view w.view).loading = true → (F.view w.view).error = none → Shown F answers w k v
  | read (u : Nat) : (∀ f ∈ w.reads, ¬ F.takes w.view f.number) → R.asks k = true → v ≤ u →
      u ≤ w.version → F.view w.view = R.settled (answers k (w.states u)) → Shown F answers w k v
  | failed (e : E) : (∀ f ∈ w.reads, ¬ F.takes w.view f.number) → R.asks k = true →
      F.view w.view = R.settled (.error e) → Shown F answers w k v
  | idle : (∀ f ∈ w.reads, ¬ F.takes w.view f.number) → R.asks k = false →
      F.view w.view = { data := R.empty, error := none, loading := false } → Shown F answers w k v

/-- What holds of the requests in flight, whatever the view shows. -/
structure Base (F : Fence R E σ) (answers : K → S → Except E D) (w : World σ S K D E M) : Prop where
  numbered : ∀ f ∈ w.reads, f.number ≤ F.number w.view
  distinct : (w.reads.map Read.number).Nodup
  asked : ∀ f ∈ w.reads, R.asks f.key = true
  issued : ∀ f ∈ w.reads, f.issued ≤ w.version
  replied : ∀ f ∈ w.reads, ∀ r, f.reply = some r → (∃ e, r = .error e) ∨
    ∃ u, f.issued ≤ u ∧ u ≤ w.version ∧ r = answers f.key (w.states u)
  newest : ∀ k v, w.newest = some (k, v) → v ≤ w.version

structure Inv (F : Fence R E σ) (answers : K → S → Except E D) (w : World σ S K D E M) : Prop
    extends Base F answers w where
  current : ∀ f ∈ w.reads, F.takes w.view f.number → w.newest = some (f.key, f.issued)
  present : w.key.isSome = true → F.mounted w.view = true
  shown : w.key.isSome = true → ∃ k v, w.newest = some (k, v) ∧ Shown F answers w k v

theorem Base.congr (h : Base F answers w) {s : σ} (hnumber : F.number s = F.number w.view)
    (key : Option K) : Base F answers { w with view := s, key } :=
  ⟨fun f hf => hnumber ▸ h.numbered f hf, h.distinct, h.asked, h.issued, h.replied, h.newest⟩

theorem inv_request (h : Base F answers w) (hpresent : w.key.isSome = true → F.mounted w.view = true)
    (k : K) : Inv F answers (request F k w) := by
  have hview := F.view_call k w.view
  have hnumber := F.number_call k w.view
  have hlate : ∀ f ∈ w.reads, ¬ F.takes (F.call k w.view) f.number :=
    fun f hf => F.not_takes_call k w.view f.number (h.numbered f hf)
  have hpresent' : w.key.isSome = true → F.mounted (F.call k w.view) = true :=
    fun hkey => (F.mounted_call k w.view).trans (hpresent hkey)
  by_cases hasks : R.asks k = true
  · have hreads : ∀ f, f ∈ (request F k w).reads ↔ f ∈ w.reads ∨
        f = { number := F.number w.view + 1, key := k, issued := w.version } := by
      simp [request, hasks]
    refine ⟨⟨?_, ?_, ?_, ?_, ?_, ?_⟩, ?_, hpresent', ?_⟩
    · intro f hf
      change f.number ≤ F.number (F.call k w.view)
      rw [hnumber]
      rcases (hreads f).mp hf with hf | rfl
      · exact Nat.le_succ_of_le (h.numbered f hf)
      · exact Nat.le_refl _
    · simp only [request, hasks, if_true, List.map_append, List.map_cons, List.map_nil]
      refine List.nodup_append.mpr ⟨h.distinct, by simp, ?_⟩
      intro m hm n hn
      obtain ⟨f, hf, rfl⟩ := List.mem_map.mp hm
      have hle := h.numbered f hf
      simp only [List.mem_singleton] at hn
      omega
    · intro f hf
      rcases (hreads f).mp hf with hf | rfl
      · exact h.asked f hf
      · exact hasks
    · intro f hf
      rcases (hreads f).mp hf with hf | rfl
      · exact h.issued f hf
      · exact Nat.le_refl _
    · intro f hf r hr
      rcases (hreads f).mp hf with hf | rfl
      · exact h.replied f hf r hr
      · cases hr
    · intro k' v hnewest
      obtain ⟨-, rfl⟩ := Prod.mk.inj (Option.some.inj hnewest)
      exact Nat.le_refl _
    · intro f hf htakes
      rcases (hreads f).mp hf with hf | rfl
      · exact (hlate f hf htakes).elim
      · rfl
    · intro hkey
      have hstarting : F.view (request F k w).view = R.starting k (F.view w.view) := hview
      refine ⟨k, w.version, rfl, .awaited _ ((hreads _).mpr (.inr rfl)) ?_ ?_ ?_⟩
      · exact F.takes_call k w.view hasks (hpresent hkey)
      · simp [hstarting, Reads.starting, hasks]
      · simp [hstarting, Reads.starting, hasks]
  · have hreads : (request F k w).reads = w.reads := by simp [request, hasks]
    refine ⟨⟨?_, ?_, ?_, ?_, ?_, ?_⟩, ?_, hpresent', ?_⟩
    · intro f hf
      change f.number ≤ F.number (F.call k w.view)
      rw [hnumber]
      exact Nat.le_succ_of_le (h.numbered f (hreads ▸ hf))
    · rw [hreads]
      exact h.distinct
    · rw [hreads]
      exact h.asked
    · rw [hreads]
      exact h.issued
    · rw [hreads]
      exact h.replied
    · intro k' v hnewest
      obtain ⟨-, rfl⟩ := Prod.mk.inj (Option.some.inj hnewest)
      exact Nat.le_refl _
    · intro f hf htakes
      exact (hlate f (hreads ▸ hf) htakes).elim
    · intro _
      refine ⟨k, w.version, rfl, .idle ?_ (by simpa using hasks) ?_⟩
      · intro f hf
        exact hlate f (hreads ▸ hf)
      · refine hview.trans ?_
        simp [Reads.starting, hasks]

theorem inv_leave (h : Inv F answers w) :
    Inv F answers { w with view := F.leave w.view, key := none } := by
  refine ⟨h.toBase.congr (F.number_leave w.view) none, fun f _ htakes => ?_, fun hkey => ?_,
    fun hkey => ?_⟩
  · exact (F.not_takes_leave w.view f.number htakes).elim
  · cases hkey
  · cases hkey

/-- The changes in flight say nothing of what is shown. -/
theorem Inv.changes (h : Inv F answers w) (changes : List (Change M K E)) (nextChange : Nat) :
    Inv F answers { w with changes, nextChange } := by
  refine ⟨⟨h.numbered, h.distinct, h.asked, h.issued, h.replied, h.newest⟩, h.current, h.present,
    fun hkey => ?_⟩
  obtain ⟨k, v, hnewest, hshown⟩ := h.shown hkey
  refine ⟨k, v, hnewest, ?_⟩
  cases hshown with
  | awaited f hf htakes hloading herror => exact .awaited f hf htakes hloading herror
  | read u hnone hasks hle hle' hview => exact .read u hnone hasks hle hle' hview
  | failed e hnone hasks hview => exact .failed e hnone hasks hview
  | idle hnone hasks hview => exact .idle hnone hasks hview

theorem states_evolve (w : World σ S K D E M) (s : S) {u : Nat} (hu : u ≤ w.version) :
    (w.evolve s).states u = w.states u :=
  Function.update_of_ne (by omega) _ _

theorem inv_evolve (h : Inv F answers w) (s : S) : Inv F answers (w.evolve s) := by
  refine ⟨⟨h.numbered, h.distinct, h.asked, ?_, ?_, ?_⟩, h.current, h.present,
    fun hkey => ?_⟩
  · intro f hf
    exact Nat.le_succ_of_le (h.issued f hf)
  · intro f hf r hr
    rcases h.replied f hf r hr with hfailed | ⟨u, hle, hle', rfl⟩
    · exact .inl hfailed
    · exact .inr ⟨u, hle, Nat.le_succ_of_le hle', by rw [states_evolve w s hle']⟩
  · intro k v hnewest
    exact Nat.le_succ_of_le (h.newest k v hnewest)
  · obtain ⟨k, v, hnewest, hshown⟩ := h.shown hkey
    refine ⟨k, v, hnewest, ?_⟩
    cases hshown with
    | awaited f hf htakes hloading herror => exact .awaited f hf htakes hloading herror
    | read u hnone hasks hle hle' hview =>
        refine .read u hnone hasks hle (Nat.le_succ_of_le hle') ?_
        rw [states_evolve w s hle']
        exact hview
    | failed e hnone hasks hview => exact .failed e hnone hasks hview
    | idle hnone hasks hview => exact .idle hnone hasks hview

theorem read?_some {n : Nat} {f : Read K D E} (h : w.read? n = some f) :
    f ∈ w.reads ∧ f.number = n :=
  ⟨List.mem_of_find?_eq_some h, by simpa using List.find?_some h⟩

theorem change?_some {i : Nat} {c : Change M K E} (h : w.change? i = some c) :
    c ∈ w.changes ∧ c.number = i :=
  ⟨List.mem_of_find?_eq_some h, by simpa using List.find?_some h⟩

/-- A reply is kept with its request until it arrives. -/
theorem inv_answer (h : Inv F answers w) {n : Nat} {f : Read K D E} (hf : w.read? n = some f)
    {r : Except E D} (hr : (∃ e, r = .error e) ∨ r = answers f.key (w.states w.version)) :
    Inv F answers { w with
      reads := w.reads.map fun f => if f.number = n then { f with reply := some r } else f } := by
  obtain ⟨hmem, hn⟩ := read?_some hf
  let g : Read K D E → Read K D E := fun f => if f.number = n then { f with reply := some r } else f
  have hnumber : ∀ f, (g f).number = f.number := by
    intro f
    by_cases hf : f.number = n <;> simp [g, hf]
  have hsame : ∀ f, (g f).key = f.key ∧ (g f).issued = f.issued := by
    intro f
    by_cases hf : f.number = n <;> simp [g, hf]
  have hnone : (∀ f ∈ w.reads, ¬ F.takes w.view f.number) →
      ∀ f ∈ w.reads.map g, ¬ F.takes w.view f.number := by
    intro hnone f' hf'
    obtain ⟨f, hf, rfl⟩ := List.mem_map.mp hf'
    rw [hnumber]
    exact hnone f hf
  refine ⟨⟨?_, ?_, ?_, ?_, ?_, h.newest⟩, ?_, h.present, fun hkey => ?_⟩
  · intro f' hf'
    obtain ⟨f, hf, rfl⟩ := List.mem_map.mp hf'
    exact (hnumber f).symm ▸ h.numbered f hf
  · have hmap : (w.reads.map g).map Read.number = w.reads.map Read.number := by
      rw [List.map_map]
      exact List.map_congr_left fun f _ => hnumber f
    exact hmap.symm ▸ h.distinct
  · intro f' hf'
    obtain ⟨f, hf, rfl⟩ := List.mem_map.mp hf'
    exact (hsame f).1.symm ▸ h.asked f hf
  · intro f' hf'
    obtain ⟨f, hf, rfl⟩ := List.mem_map.mp hf'
    exact (hsame f).2.symm ▸ h.issued f hf
  · intro f' hf' r' hr'
    obtain ⟨f₁, hf₁, rfl⟩ := List.mem_map.mp hf'
    by_cases hf₁n : f₁.number = n
    · obtain rfl : f₁ = f := List.inj_on_of_nodup_map h.distinct hf₁ hmem (hf₁n.trans hn.symm)
      rw [if_pos hf₁n] at hr' ⊢
      obtain rfl := Option.some.inj hr'
      exact hr.imp id fun heq => ⟨w.version, h.issued f₁ hf₁, Nat.le_refl _, heq⟩
    · rw [if_neg hf₁n] at hr' ⊢
      exact h.replied f₁ hf₁ r' hr'
  · intro f' hf' htakes
    obtain ⟨f, hf, rfl⟩ := List.mem_map.mp hf'
    have hcurrent := h.current f hf (hnumber f ▸ htakes)
    change w.newest = some ((g f).key, (g f).issued)
    rw [(hsame f).1, (hsame f).2]
    exact hcurrent
  · obtain ⟨k, v, hnewest, hshown⟩ := h.shown hkey
    refine ⟨k, v, hnewest, ?_⟩
    cases hshown with
    | awaited f hf htakes hloading herror =>
        exact .awaited (g f) (List.mem_map_of_mem hf) ((hnumber f).symm ▸ htakes) hloading herror
    | read u hlate hasks hle hle' hview => exact .read u (hnone hlate) hasks hle hle' hview
    | failed e hlate hasks hview => exact .failed e (hnone hlate) hasks hview
    | idle hlate hasks hview => exact .idle (hnone hlate) hasks hview

/-- A reply that arrives is shown if its request is the newest one. -/
theorem inv_settle (h : Inv F answers w) {n : Nat} {f : Read K D E} (hf : w.read? n = some f)
    {r : Except E D} (hr : (∃ e, r = .error e) ∨
      ∃ u, f.issued ≤ u ∧ u ≤ w.version ∧ r = answers f.key (w.states u)) :
    Inv F answers { w.withoutRead n with view := F.settle n r w.view } := by
  obtain ⟨hmem, hn⟩ := read?_some hf
  have hnumber := F.number_settle n r w.view
  have htakes := F.takes_settle n r w.view
  have hsub : ∀ f, f ∈ (w.withoutRead n).reads ↔ f ∈ w.reads ∧ f.number ≠ n := by
    simp [World.withoutRead]
  refine ⟨⟨?_, ?_, ?_, ?_, ?_, h.newest⟩, ?_, ?_, fun hkey => ?_⟩
  · intro f hf
    exact hnumber.symm ▸ h.numbered f ((hsub f).mp hf).1
  · exact h.distinct.sublist (List.filter_sublist.map Read.number)
  · intro f hf
    exact h.asked f ((hsub f).mp hf).1
  · intro f hf
    exact h.issued f ((hsub f).mp hf).1
  · intro f hf
    exact h.replied f ((hsub f).mp hf).1
  · intro f hf hf'
    exact h.current f ((hsub f).mp hf).1 ((htakes f.number).mp hf')
  · exact fun hkey => (F.mounted_settle n r w.view).trans (h.present hkey)
  · obtain ⟨k, v, hnewest, hshown⟩ := h.shown hkey
    refine ⟨k, v, hnewest, ?_⟩
    by_cases htaken : F.takes w.view n
    · have hnone : ∀ f ∈ (w.withoutRead n).reads, ¬ F.takes (F.settle n r w.view) f.number := by
        intro f hf hf'
        have heq := F.takes_unique w.view _ _ ((htakes f.number).mp hf') htaken
        exact ((hsub f).mp hf).2 heq
      have hview := F.settle_taken n r w.view htaken
      have hcurrent := h.current f hmem (hn.symm ▸ htaken)
      obtain ⟨rfl, rfl⟩ := Prod.mk.inj (Option.some.inj (hnewest.symm.trans hcurrent))
      have hasks := h.asked f hmem
      rcases hr with ⟨e, rfl⟩ | ⟨u, hle, hle', rfl⟩
      · exact .failed e hnone hasks hview
      · exact .read u hnone hasks hle hle' hview
    · rw [show F.settle n r w.view = w.view from F.settle_late n r w.view htaken]
      cases hshown with
      | awaited f' hf' htakes' hloading herror =>
          refine .awaited f' ((hsub f').mpr ⟨hf', ?_⟩) htakes' hloading herror
          rintro rfl
          exact htaken htakes'
      | read u hlate hasks hle hle' hview =>
          exact .read u (fun f hf => hlate f ((hsub f).mp hf).1) hasks hle hle' hview
      | failed e hlate hasks hview =>
          exact .failed e (fun f hf => hlate f ((hsub f).mp hf).1) hasks hview
      | idle hlate hasks hview => exact .idle (fun f hf => hlate f ((hsub f).mp hf).1) hasks hview

theorem inv_ended (h : Inv F answers w) (c : Change M K E) (r : Except E Unit) :
    Inv F answers (ended F refetches c r w) := by
  have hwithout : Inv F answers (w.withoutChange c.number) := h.changes _ w.nextChange
  unfold ended
  split
  · exact inv_request hwithout.toBase hwithout.present c.key
  · exact hwithout

/-- What a step does. -/
inductive Effect (F : Fence R E σ) (answers : K → S → Except E D)
    (refetches : M → Except E Unit → Bool) (w : World σ S K D E M) :
    Move S K E M → World σ S K D E M → Prop
  | enter (k : K) :
      Effect F answers refetches w (.enter k)
        (request F k { w with view := F.mount w.view, key := some k })
  | rerender (k : K) : w.key.isSome = true →
      Effect F answers refetches w (.rerender k) (request F k { w with key := some k })
  | leave : Effect F answers refetches w .leave { w with view := F.leave w.view, key := none }
  | refetch (k : K) : Effect F answers refetches w (.refetch k) (request F k w)
  | answer {n : Nat} {failure : Option E} {f : Read K D E} {r : Except E D} :
      w.read? n = some f → (∃ e, r = .error e) ∨ r = answers f.key (w.states w.version) →
      Effect F answers refetches w (.answer n failure) { w with
        reads := w.reads.map fun f => if f.number = n then { f with reply := some r } else f }
  | arrive {m : Move S K E M} {n : Nat} {f : Read K D E} {r : Except E D} :
      m = .deliver n ∨ (∃ e, m = .lose n e) → w.read? n = some f →
      f.reply = some r ∨ (∃ e, r = .error e) →
      Effect F answers refetches w m { w.withoutRead n with view := F.settle n r w.view }
  | change (kind : M) (k : K) :
      Effect F answers refetches w (.change kind k) { w with
        changes := w.changes ++ [{ number := w.nextChange, kind, key := k }]
        nextChange := w.nextChange + 1 }
  | carryOut {i : Nat} {s : S} {r : Except E Unit} {c : Change M K E} : w.change? i = some c →
      Effect F answers refetches w (.carryOut i s r) { w.evolve s with
        changes := w.changes.map fun c =>
          if c.number = i then { c with outcome := some (w.version + 1, r) } else c }
  | ended {m : Move S K E M} {i : Nat} {c : Change M K E} {r : Except E Unit} :
      w.change? i = some c →
      (m = .settle i ∧ ∃ v, c.outcome = some (v, r)) ∨ (∃ e, m = .abandon i e ∧ r = .error e) →
      Effect F answers refetches w m (ended F refetches c r w)
  | drift (s : S) : Effect F answers refetches w (.drift s) (w.evolve s)

variable [DecidableEq K] {m : Move S K E M} {w' : World σ S K D E M}

theorem step_effect (hstep : step F answers refetches m w = some w') :
    Effect F answers refetches w m w' := by
  cases m with
  | enter k =>
      simp only [step] at hstep
      split at hstep
      · exact Option.some.inj hstep ▸ .enter k
      · cases hstep
  | rerender k =>
      simp only [step] at hstep
      split at hstep
      · rename_i hkey
        exact Option.some.inj hstep ▸ .rerender k hkey.1
      · cases hstep
  | leave =>
      simp only [step] at hstep
      split at hstep
      · exact Option.some.inj hstep ▸ .leave
      · cases hstep
  | refetch k =>
      simp only [step] at hstep
      split at hstep
      · exact Option.some.inj hstep ▸ .refetch k
      · cases hstep
  | answer n failure =>
      simp only [step] at hstep
      split at hstep
      · rename_i f hf
        split at hstep
        · refine Option.some.inj hstep ▸ .answer hf ?_
          cases failure with
          | none => exact .inr rfl
          | some e => exact .inl ⟨e, rfl⟩
        · cases hstep
      · cases hstep
  | deliver n =>
      simp only [step] at hstep
      split at hstep
      · rename_i f hf
        obtain ⟨r, hr, rfl⟩ := Option.map_eq_some_iff.mp hstep
        exact .arrive (.inl rfl) hf (.inl hr)
      · cases hstep
  | lose n e =>
      obtain ⟨f, hf, rfl⟩ := Option.map_eq_some_iff.mp hstep
      exact .arrive (.inr ⟨e, rfl⟩) hf (.inr ⟨e, rfl⟩)
  | change kind k => exact Option.some.inj hstep ▸ .change kind k
  | carryOut i s r =>
      simp only [step] at hstep
      split at hstep
      · rename_i c hc
        split at hstep
        · exact Option.some.inj hstep ▸ .carryOut hc
        · cases hstep
      · cases hstep
  | settle i =>
      simp only [step] at hstep
      split at hstep
      · rename_i c hc
        obtain ⟨o, ho, rfl⟩ := Option.map_eq_some_iff.mp hstep
        exact .ended hc (.inl ⟨rfl, o.1, ho⟩)
      · cases hstep
  | abandon i e =>
      obtain ⟨c, hc, rfl⟩ := Option.map_eq_some_iff.mp hstep
      exact .ended hc (.inr ⟨e, rfl, rfl⟩)
  | drift s => exact Option.some.inj hstep ▸ .drift s

theorem inv_step (h : Inv F answers w) (hstep : step F answers refetches m w = some w') :
    Inv F answers w' := by
  cases step_effect hstep with
  | enter k =>
      exact inv_request (h.toBase.congr (F.number_mount w.view) (some k))
        (fun _ => F.mounted_mount w.view) k
  | rerender k hkey =>
      exact inv_request (h.toBase.congr rfl (some k)) (fun _ => h.present hkey) k
  | leave => exact inv_leave h
  | refetch k => exact inv_request h.toBase h.present k
  | answer hf hr => exact inv_answer h hf hr
  | arrive _ hf hr =>
      refine inv_settle h hf ?_
      rcases hr with hr | hfailed
      · exact h.replied _ (read?_some hf).1 _ hr
      · exact .inl hfailed
  | change kind k => exact h.changes _ _
  | @carryOut i s r c hc => exact (inv_evolve h s).changes _ w.nextChange
  | ended hc _ => exact inv_ended h _ _
  | drift s => exact inv_evolve h s

/-- A view that was never there, of a resource in its first state. -/
def initial (view : σ) (s : S) : World σ S K D E M where
  states _ := s
  version := 0
  view
  key := none
  reads := []
  changes := []
  nextChange := 0
  newest := none

omit [DecidableEq K] in
theorem inv_initial (view : σ) (s : S) : Inv F answers (initial view s : World σ S K D E M) := by
  refine ⟨⟨?_, ?_, ?_, ?_, ?_, ?_⟩, ?_, ?_, ?_⟩ <;> simp [initial]

theorem inv_run {ms : List (Move S K E M)} {view : σ} {s : S}
    (hrun : run (step F answers refetches) ms (initial view s) = some w) : Inv F answers w :=
  run_invariant (fun _ _ _ hinv hstep => inv_step hinv hstep) (inv_initial view s) hrun

end Invariants

section Freshness

variable {σ S K D E M : Type} {R : Reads K D} {F : Fence R E σ} {answers : K → S → Except E D}
  {refetches : M → Except E Unit → Bool} {w w' : World σ S K D E M} {m : Move S K E M}

/-- Nobody else changes the resource, and the view asks again after each of its own changes. -/
def Undisturbed (refetches : M → Except E Unit → Bool) (m : Move S K E M)
    (w : World σ S K D E M) : Prop :=
  match m with
  | .drift _ => False
  | .settle i => ∀ c ∈ w.change? i, ∀ o ∈ c.outcome, refetches c.kind o.2 = true
  | .abandon i e => ∀ c ∈ w.change? i, refetches c.kind (.error e) = true
  | _ => True

/-- The newest request was made at the present version, or the change that has made this version is
still to end. -/
def Fresh (w : World σ S K D E M) : Prop :=
  ∀ k v, w.newest = some (k, v) →
    v = w.version ∨ ∃ c ∈ w.changes, ∃ r, c.outcome = some (w.version, r)

theorem fresh_request (F : Fence R E σ) (k : K) (w : World σ S K D E M) :
    Fresh (request F k w) := by
  intro k' v hnewest
  obtain ⟨-, rfl⟩ := Prod.mk.inj (Option.some.inj hnewest)
  exact .inl rfl

theorem fresh_ended {c : Change M K E} {r : Except E Unit} (h : refetches c.kind r = true) :
    Fresh (ended F refetches c r w) := by
  rw [ended, if_pos h]
  exact fresh_request F c.key _

variable [DecidableEq K]

theorem fresh_step (h : Fresh w) (hallowed : Undisturbed refetches m w)
    (hstep : step F answers refetches m w = some w') : Fresh w' := by
  cases step_effect hstep with
  | enter k => exact fresh_request F k _
  | rerender k => exact fresh_request F k _
  | leave => exact h
  | refetch k => exact fresh_request F k _
  | answer => exact h
  | arrive => exact h
  | change kind k =>
      intro k' v hnewest
      rcases h k' v hnewest with heq | ⟨c, hc, hmade⟩
      · exact .inl heq
      · exact .inr ⟨c, List.mem_append_left _ hc, hmade⟩
  | @carryOut i s r c hc =>
      obtain ⟨hmem, hi⟩ := change?_some hc
      intro k v _
      refine .inr ⟨_, List.mem_map_of_mem hmem, r, ?_⟩
      rw [if_pos hi]
      rfl
  | ended hc hend =>
      rcases hend with ⟨rfl, v, ho⟩ | ⟨e, rfl, rfl⟩
      · exact fresh_ended (hallowed _ hc _ ho)
      · exact fresh_ended (hallowed _ hc)
  | drift s => exact hallowed.elim

theorem fresh_run {ms : List (Move S K E M)} {view : σ} {s : S}
    (hallowed : Along (step F answers refetches) (Undisturbed refetches) ms (initial view s))
    (hrun : run (step F answers refetches) ms (initial view s) = some w) : Fresh w := by
  refine run_invariant_along (fun _ _ _ h ha hstep => fresh_step h ha hstep) ?_ hallowed hrun
  intro k v hnewest
  cases hnewest

/-- What the view asks for again is what it is rendered with. -/
def Attentive (refetches : M → Except E Unit → Bool) (m : Move S K E M)
    (w : World σ S K D E M) : Prop :=
  match m with
  | .refetch k => ∀ k' ∈ w.key, k = k'
  | .settle i => ∀ c ∈ w.change? i, ∀ o ∈ c.outcome, refetches c.kind o.2 = true →
      ∀ k' ∈ w.key, c.key = k'
  | .abandon i e => ∀ c ∈ w.change? i, refetches c.kind (.error e) = true →
      ∀ k' ∈ w.key, c.key = k'
  | _ => True

/-- The newest request asked for what the view is rendered with. -/
def Apt (w : World σ S K D E M) : Prop :=
  ∀ k ∈ w.key, ∃ v, w.newest = some (k, v)

omit [DecidableEq K] in
theorem apt_ended (h : Apt w) {c : Change M K E} {r : Except E Unit}
    (hkey : refetches c.kind r = true → ∀ k ∈ w.key, c.key = k) :
    Apt (ended F refetches c r w) := by
  unfold ended
  split
  · rename_i hrefetches
    intro k hk
    obtain rfl := hkey hrefetches k hk
    exact ⟨_, rfl⟩
  · exact h

theorem apt_step (h : Apt w) (hallowed : Attentive refetches m w)
    (hstep : step F answers refetches m w = some w') : Apt w' := by
  cases step_effect hstep with
  | enter k =>
      intro k' hk'
      obtain rfl := Option.some.inj hk'
      exact ⟨_, rfl⟩
  | rerender k =>
      intro k' hk'
      obtain rfl := Option.some.inj hk'
      exact ⟨_, rfl⟩
  | leave => exact fun k hk => by cases hk
  | refetch k =>
      intro k' hk'
      obtain rfl := hallowed k' hk'
      exact ⟨_, rfl⟩
  | answer => exact h
  | arrive => exact h
  | change => exact h
  | carryOut => exact h
  | ended hc hend =>
      rcases hend with ⟨rfl, v, ho⟩ | ⟨e, rfl, rfl⟩
      · exact apt_ended h fun hrefetches => hallowed _ hc _ ho hrefetches
      · exact apt_ended h fun hrefetches => hallowed _ hc hrefetches
  | drift s => exact h

theorem apt_run {ms : List (Move S K E M)} {view : σ} {s : S}
    (hallowed : Along (step F answers refetches) (Attentive refetches) ms (initial view s))
    (hrun : run (step F answers refetches) ms (initial view s) = some w) : Apt w := by
  refine run_invariant_along (fun _ _ _ h ha hstep => apt_step h ha hstep) ?_ hallowed hrun
  intro k hk
  cases hk

end Freshness

end ChangeQuality.RemoteReads
