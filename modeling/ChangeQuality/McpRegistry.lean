import ChangeQuality.McpWorkerSteps
import ChangeQuality.McpOwnership

/-!
The registry of a manager over worker tasks. In every run, whatever is interrupted or fails, a
handle enters the registry under the lock of its server and leaves it by the call whose stop its
worker has carried out.
-/

namespace ChangeQuality.McpRegistry

open ChangeQuality.Values
open ChangeQuality.McpServers
open ChangeQuality.McpRuntime (Settings)
open ChangeQuality.McpWorkers
open ChangeQuality.McpTasks
open ChangeQuality.McpWorkerSteps
open ChangeQuality.McpLocks (exec_lock)
open ChangeQuality.McpOwnership (exec_lookup)
open ChangeQuality.Coroutine
open ChangeQuality.Interference

section Protocol

variable {cfg : Settings} {t t' : TaskId} {op : Op} {choice : TaskChoice} {w w' : World}
  {id : ServerId} {h : Handle}

theorem exec_manager {r : Except Exn (Reply op)}
    (hexec : exec cfg t (.manager op) choice w = some (r, w')) :
    ∃ c manager, choice = .manager c ∧ McpSystem.exec t op c w.manager = some (r, manager) ∧
      w' = note t { w with manager } op r := by
  cases choice with
  | manager c =>
      simp only [exec, Option.map_eq_some_iff] at hexec
      obtain ⟨⟨r', manager⟩, hbase, heq⟩ := hexec
      obtain ⟨rfl, rfl⟩ := Prod.mk.inj heq
      exact ⟨c, manager, rfl, hbase, rfl⟩
  | proceed => simp [exec] at hexec
  | interrupt e => simp [exec] at hexec
  | inner outcome => simp [exec] at hexec

/-- The history of a call leaves alone all but the records and the owners. -/
theorem note_frame (t : TaskId) (w : World) (op : Op) (r : Except Exn (Reply op)) :
    (note t w op r).manager = w.manager ∧ (note t w op r).worker = w.worker ∧
      (note t w op r).nextWorker = w.nextWorker ∧ (note t w op r).stopper = w.stopper ∧
      (note t w op r).abandoned = w.abandoned := by
  cases r with
  | error e => cases op <;> exact ⟨rfl, rfl, rfl, rfl, rfl⟩
  | ok reply => cases op <;> exact ⟨rfl, rfl, rfl, rfl, rfl⟩

/-- A handle that is put into the registry changes its owner. -/
theorem note_owner (t : TaskId) (w : World) (op : Op) (r : Except Exn (Reply op)) :
    (note t w op r).owner = w.owner ∨ ∃ id handle, op = .setHandle id handle ∧
      (note t w op r).owner = Function.update w.owner handle .registry := by
  cases r with
  | error e => cases op <;> exact .inl rfl
  | ok reply =>
      cases op with
      | setHandle id handle => exact .inr ⟨id, handle, rfl, rfl⟩
      | _ => exact .inl rfl

/-- Of the records only that of the call itself changes, but not in how the call began. -/
theorem note_record (t : TaskId) (w : World) (op : Op) (r : Except Exn (Reply op)) :
    (note t w op r).record = w.record ∨ ∃ f : CallRecord → CallRecord,
      (note t w op r).record = Function.update w.record t ((w.record t).map f) ∧
        ∀ record, (f record).call = record.call ∧
          (f record).endedBefore = record.endedBefore := by
  cases r with
  | error e => cases op <;> exact .inl rfl
  | ok reply =>
      cases op with
      | handleOf id => exact .inr ⟨_, rfl, fun _ => ⟨rfl, rfl⟩⟩
      | setHandle id handle => exact .inr ⟨_, rfl, fun _ => ⟨rfl, rfl⟩⟩
      | release id => exact .inr ⟨_, rfl, fun _ => ⟨rfl, rfl⟩⟩
      | _ => exact .inl rfl

/-- The task holds the lock of a server. -/
def Holds (t : TaskId) (id : ServerId) (w : World) : Prop :=
  (w.manager.lock id).holder = some t

/-- What holds between any two steps. -/
structure Inv (w : World) : Prop where
  unborn : ∀ h, w.nextWorker ≤ h → w.owner h = .nobody ∧ w.worker h = {} ∧ w.stopper h = none
  born : ∀ h, h < w.nextWorker → w.owner h ≠ .nobody
  sound : ∀ h, Sound (w.worker h)
  keys : (w.manager.handles.map Prod.fst).Nodup
  registered : ∀ id h, w.registered id = some h → w.owner h = .registry
  stopped : ∀ h t, w.stopper h = some t → w.ended h = true ∧ (w.worker h).stopInvoked = true
  abandoned : ∀ h, w.abandoned h = true → w.owner h ≠ .nobody
  before : ∀ t record h, w.record t = some record → record.endedBefore h = true →
    w.ended h = true ∧ w.owner h ≠ .task t

/-- What a task relies on of the steps of the others. -/
structure Rely (t : TaskId) (w w' : World) : Prop where
  holds : ∀ id, Holds t id w → Holds t id w'
  registered : ∀ id h, w.registered id = some h →
    w'.registered id = some h ∨ ∃ t', t' ≠ t ∧ w'.stopper h = some t'
  held : ∀ id, Holds t id w → w'.registered id = w.registered id ∨ w'.registered id = none
  stopper : ∀ h t', w.stopper h = some t' → w'.stopper h = some t'
  ended : ∀ h, w.ended h = true → w'.ended h = true
  closed : ∀ h, w.ended h = true → w'.stopper h = w.stopper h
  owns : ∀ h, w'.owner h = .task t ↔ w.owner h = .task t
  published : ∀ h, w.owner h = .registry → w'.owner h = .registry
  sent : ∀ h n, Sent t n (w.stopper h) (w.worker h) → Sent t n (w'.stopper h) (w'.worker h)
  record : w'.record t = w.record t
  loaded : w'.manager.loaded (t, .runtime) = w.manager.loaded (t, .runtime)

theorem Rely.refl : Rely t w w :=
  ⟨fun _ h => h, fun _ _ h => .inl h, fun _ _ => .inl rfl, fun _ _ h => h, fun _ h => h,
    fun _ _ => rfl, fun _ => Iff.rfl, fun _ h => h, fun _ _ h => h, rfl, rfl⟩

theorem Rely.trans {w₁ w₂ w₃ : World} (h₁ : Rely t w₁ w₂) (h₂ : Rely t w₂ w₃) : Rely t w₁ w₃ where
  holds id h := h₂.holds id (h₁.holds id h)
  registered id h hreg := by
    rcases h₁.registered id h hreg with hkept | ⟨t', hne, hstopper⟩
    · exact h₂.registered id h hkept
    · exact .inr ⟨t', hne, h₂.stopper h t' hstopper⟩
  held id hholds := by
    rcases h₂.held id (h₁.holds id hholds) with heq | hnone
    · rw [heq]
      exact h₁.held id hholds
    · exact .inr hnone
  stopper h t' hs := h₂.stopper h t' (h₁.stopper h t' hs)
  ended h hended := h₂.ended h (h₁.ended h hended)
  closed h hended := (h₂.closed h (h₁.ended h hended)).trans (h₁.closed h hended)
  owns h := (h₂.owns h).trans (h₁.owns h)
  published h howner := h₂.published h (h₁.published h howner)
  sent h n hsent := h₂.sent h n (h₁.sent h n hsent)
  record := h₂.record.trans h₁.record
  loaded := h₂.loaded.trans h₁.loaded

/-- What a task has established before it awaits an operation: it gives back its own locks, puts its
own worker where the registry has none, takes out what it has stopped, and talks to workers that are
its own or were registered. -/
def Pre (t : TaskId) (op : TaskOp) (w : World) : Prop :=
  match op with
  | .manager (.release id) => Holds t id w
  | .manager (.setHandle id h) => Holds t id w ∧ w.registered id = none ∧ w.owner h = .task t
  | .manager (.popHandle id) => ∀ h, w.registered id = some h → w.stopper h = some t
  | .started h | .cancelTask h => w.owner h = .task t
  | .put h _ | .replied h _ => w.owner h = .task t ∨ w.owner h = .registry
  | .began _ => ∀ h, w.owner h ≠ .task t
  | _ => True

/-- A step that changes a single worker. -/
theorem keeps_worker {v : World} {y : Worker} {s : Option TaskId} (hinv : Inv w)
    (hborn : w.owner h ≠ .nobody)
    (hmanager : v.manager = w.manager) (howner : v.owner = w.owner)
    (hnext : v.nextWorker = w.nextWorker) (hrecord : v.record = w.record)
    (hworker : v.worker = Function.update w.worker h y)
    (hstopper : v.stopper = Function.update w.stopper h s)
    (habandoned : ∀ h', v.abandoned h' = true → w.owner h' ≠ .nobody)
    (hsound : Sound y) (hended : w.ended h = true → y.done = true)
    (hstopped : ∀ t, s = some t → y.done = true ∧ y.stopInvoked = true)
    (hkept : ∀ t, w.stopper h = some t → s = some t) (hclosed : w.ended h = true → s = w.stopper h)
    (hsent : ∀ t n, Sent t n (w.stopper h) (w.worker h) → Sent t n s y) :
    Inv v ∧ ∀ t, Rely t w v := by
  have hsame : ∀ h', h' ≠ h → v.worker h' = w.worker h' ∧ v.stopper h' = w.stopper h' := by
    intro h' hne
    rw [hworker, hstopper]
    exact ⟨Function.update_of_ne hne _ _, Function.update_of_ne hne _ _⟩
  have hself : v.worker h = y ∧ v.stopper h = s := by
    rw [hworker, hstopper]
    exact ⟨Function.update_self .., Function.update_self ..⟩
  refine ⟨⟨fun h' hle => ?_, fun h' hlt => ?_, fun h' => ?_, hmanager ▸ hinv.keys,
    fun id h' hreg => ?_, fun h' t hs => ?_, fun h' hab => ?_,
    fun t record h' hrec hbefore => ?_⟩, fun t => ⟨fun id hholds => ?_,
    fun id h' hreg => ?_, fun id _ => ?_, fun h' t' hs => ?_, fun h' hdone => ?_,
    fun h' hdone => ?_, fun h' => by rw [howner], fun h' hpub => by rw [howner]; exact hpub,
    fun h' n hs => ?_,
    by rw [hrecord], by rw [hmanager]⟩⟩
  · rw [hnext] at hle
    obtain ⟨hnobody, hfresh, hnone⟩ := hinv.unborn h' hle
    have hne : h' ≠ h := fun heq => hborn (heq ▸ hnobody)
    rw [howner, (hsame h' hne).1, (hsame h' hne).2]
    exact ⟨hnobody, hfresh, hnone⟩
  · rw [howner]
    exact hinv.born h' (hnext ▸ hlt)
  · by_cases hh : h' = h
    · rw [hh, hself.1]
      exact hsound
    · rw [(hsame h' hh).1]
      exact hinv.sound h'
  · rw [howner]
    exact hinv.registered id h' (by simpa only [World.registered, hmanager] using hreg)
  · by_cases hh : h' = h
    · subst hh
      simp only [World.ended, hself.1]
      exact hstopped t (hself.2 ▸ hs)
    · simp only [World.ended, (hsame h' hh).1]
      exact hinv.stopped h' t ((hsame h' hh).2 ▸ hs)
  · rw [howner]
    exact habandoned h' hab
  · obtain ⟨hpast, hother⟩ := hinv.before t record h' (hrecord ▸ hrec) hbefore
    rw [howner]
    refine ⟨?_, hother⟩
    by_cases hh : h' = h
    · subst hh
      simp only [World.ended, hself.1]
      exact hended hpast
    · simpa only [World.ended, (hsame h' hh).1] using hpast
  · simpa only [Holds, hmanager] using hholds
  · exact .inl (by simpa only [World.registered, hmanager] using hreg)
  · exact .inl (by simp only [World.registered, hmanager])
  · by_cases hh : h' = h
    · subst hh
      exact hself.2.trans (hkept t' hs)
    · rw [(hsame h' hh).2]
      exact hs
  · by_cases hh : h' = h
    · subst hh
      simp only [World.ended, hself.1]
      exact hended hdone
    · simpa only [World.ended, (hsame h' hh).1] using hdone
  · by_cases hh : h' = h
    · subst hh
      exact hself.2.trans (hclosed hdone)
    · exact (hsame h' hh).2
  · by_cases hh : h' = h
    · subst hh
      rw [hself.1, hself.2]
      exact hsent t n hs
    · rw [(hsame h' hh).1, (hsame h' hh).2]
      exact hs

/-- A step that changes neither the worker's commands nor how it ended. -/
theorem keeps_setWorker {y : Worker} (hinv : Inv w) (hborn : w.owner h ≠ .nobody)
    (hsound : Sound y) (hdone : y.done = (w.worker h).done)
    (hinvoked : y.stopInvoked = (w.worker h).stopInvoked)
    (hsent : ∀ t n, Sent t n (w.stopper h) (w.worker h) → Sent t n (w.stopper h) y) :
    Inv (w.setWorker h y) ∧ ∀ t, Rely t w (w.setWorker h y) := by
  refine keeps_worker (s := w.stopper h) hinv hborn rfl rfl rfl rfl rfl
    (Function.update_eq_self h w.stopper).symm hinv.abandoned hsound ?_ ?_ (fun _ hs => hs)
    (fun _ => rfl) hsent
  · rw [hdone]
    exact id
  · intro t hs
    rw [hdone, hinvoked]
    exact hinv.stopped h t hs

/-- Another task's lock stays held. -/
theorem holder_kept {c : McpSystem.Choice} {m m' : McpSystem.World} {r : Except Exn (Reply op)}
    (hexec : McpSystem.exec t op c m = some (r, m'))
    (hrelease : ∀ id, op = .release id → (m.lock id).holder = some t) (hne : t' ≠ t)
    (hheld : (m.lock id).holder = some t') : (m'.lock id).holder = some t' := by
  rcases exec_lock hexec with ⟨-, heq⟩ | ⟨id', l, hchange, heq⟩
  · rw [heq]
    exact hheld
  · rw [heq]
    by_cases hid : id = id'
    · subst hid
      rw [Function.update_self]
      cases hchange with
      | take hfree => simp [hheld] at hfree
      | serve hfree => simp [hheld] at hfree
      | join => exact hheld
      | abandon => exact hheld
      | release => exact absurd (Option.some.inj (hheld.symm.trans (hrelease id rfl))) hne
    · rw [Function.update_of_ne hid]
      exact hheld

theorem setHandle_ok {c : McpSystem.Choice} {m m' : McpSystem.World} {r : Except Exn Unit}
    (hexec : McpSystem.exec t (.setHandle id h) c m = some (r, m')) : r = .ok () := by
  cases c with
  | fail e poisons => simp [McpSystem.exec, McpSystem.synchronous] at hexec
  | succeed tools =>
      obtain ⟨reply, rfl, -⟩ := McpSystem.exec_succeed hexec
      rfl

/-- What an operation does to the registry as a whole. -/
theorem exec_handles {c : McpSystem.Choice} {m m' : McpSystem.World} {r : Except Exn (Reply op)}
    (hexec : McpSystem.exec t op c m = some (r, m')) :
    m'.handles = m.handles ∨
      (∃ id h, op = .setHandle id h ∧ m'.handles = m.handles.filter (·.1 ≠ id) ++ [(id, h)]) ∨
      ∃ id, op = .popHandle id ∧ m'.handles = m.handles.filter (·.1 ≠ id) := by
  cases c with
  | fail e poisons =>
      obtain ⟨-, -, rfl | ⟨conn, -, rfl⟩⟩ := McpSystem.exec_fail hexec
      · cases op <;> exact .inl rfl
      · exact .inl rfl
  | succeed tools =>
      obtain ⟨reply, -, hsucceed⟩ := McpSystem.exec_succeed hexec
      cases op with
      | setHandle id h =>
          obtain ⟨-, rfl⟩ := Prod.mk.inj (Option.some.inj hsucceed)
          exact .inr (.inl ⟨id, h, rfl, rfl⟩)
      | popHandle id =>
          obtain ⟨-, rfl⟩ := Prod.mk.inj (Option.some.inj hsucceed)
          exact .inr (.inr ⟨id, rfl, rfl⟩)
      | _ =>
          refine .inl ?_
          grind [McpSystem.succeed, McpSystem.World.setLock, McpOwnership.World.load_handles,
            McpOwnership.World.unload_handles, → McpOwnership.World.write_handles,
            Option.map_eq_some_iff]

/-- The registry is a dictionary. -/
theorem keys_nodup {c : McpSystem.Choice} {m m' : McpSystem.World} {r : Except Exn (Reply op)}
    (hkeys : (m.handles.map Prod.fst).Nodup)
    (hexec : McpSystem.exec t op c m = some (r, m')) : (m'.handles.map Prod.fst).Nodup := by
  have hfilter : ∀ id, ((m.handles.filter (·.1 ≠ id)).map Prod.fst).Nodup :=
    fun id => hkeys.sublist (List.filter_sublist.map Prod.fst)
  rcases exec_handles hexec with heq | ⟨id, h, -, heq⟩ | ⟨id, -, heq⟩
  · rw [heq]
    exact hkeys
  · rw [heq, List.map_append, List.nodup_append]
    refine ⟨hfilter id, by simp, ?_⟩
    intro key hkey other hother
    obtain ⟨entry, hentry, rfl⟩ := List.mem_map.mp hkey
    obtain rfl : other = id := by simpa using hother
    simpa using (List.mem_filter.mp hentry).2
  · rw [heq]
    exact hfilter id

/-- A step of the manager itself. -/
theorem keeps_manager {c : McpSystem.Choice} {m : McpSystem.World} {r : Except Exn (Reply op)}
    (hinv : Inv w) (hpre : Pre t (.manager op) w)
    (hexec : McpSystem.exec t op c w.manager = some (r, m)) :
    Inv (note t { w with manager := m } op r) ∧
      ∀ t', t' ≠ t → Rely t' w (note t { w with manager := m } op r) := by
  obtain ⟨hmanager, hworker, hnext, hstopper, habandoned⟩ :=
    note_frame t { w with manager := m } op r
  have howner := note_owner t { w with manager := m } op r
  have hrecord := note_record t { w with manager := m } op r
  have hset : ∀ id h, op = .setHandle id h →
      (note t { w with manager := m } op r).owner h = .registry := by
    rintro id h rfl
    obtain rfl := setHandle_ok hexec
    exact Function.update_self ..
  generalize note t { w with manager := m } op r = w' at *
  have hown : ∀ h, w'.owner h = w.owner h ∨ w.owner h = .task t ∧ w'.owner h = .registry := by
    intro h
    rcases howner with heq | ⟨id, handle, rfl, heq⟩
    · exact .inl (congrFun heq h)
    · by_cases hh : h = handle
      · subst hh
        exact .inr ⟨hpre.2.2, by rw [heq]; exact Function.update_self ..⟩
      · exact .inl (by rw [heq]; exact Function.update_of_ne hh _ _)
  have hregistry : ∀ h, w.owner h = .registry → w'.owner h = .registry := by
    intro h hpub
    rcases hown h with heq | ⟨-, heq⟩
    · exact heq.trans hpub
    · exact heq
  have hlookup : ∀ id, w'.registered id = w.registered id ∨
      (∃ h, op = .setHandle id h ∧ w'.registered id = some h) ∨
      op = .popHandle id ∧ w'.registered id = none := by
    intro id
    simp only [World.registered, hmanager]
    exact exec_lookup hexec id
  have hinfo : ∀ t' record, w'.record t' = some record →
      ∃ old, w.record t' = some old ∧ record.endedBefore = old.endedBefore := by
    intro t' record hrec
    rcases hrecord with heq | ⟨f, heq, hf⟩
    · exact ⟨record, heq ▸ hrec, rfl⟩
    · rw [heq] at hrec
      by_cases ht : t' = t
      · subst ht
        rw [Function.update_self] at hrec
        obtain ⟨old, hold, rfl⟩ := Option.map_eq_some_iff.mp hrec
        exact ⟨old, hold, (hf old).2⟩
      · rw [Function.update_of_ne ht] at hrec
        exact ⟨record, hrec, rfl⟩
  refine ⟨⟨fun h hle => ?_, fun h hlt => ?_, fun h => ?_,
    by rw [hmanager]; exact keys_nodup hinv.keys hexec, fun id h hreg => ?_,
    fun h t' hs => ?_, fun h hab => ?_, fun t' record h hrec hbefore => ?_⟩,
    fun t' hne => ⟨fun id hholds => ?_,
    fun id h hreg => ?_, fun id hholds => ?_, fun h t'' hs => ?_, fun h hdone => ?_,
    fun h _ => by rw [hstopper], fun h => ?_, hregistry, fun h n hs => ?_, ?_, ?_⟩⟩
  · rw [hnext] at hle
    obtain ⟨hnobody, hfresh, hnone⟩ := hinv.unborn h hle
    rw [hworker, hstopper]
    rcases hown h with heq | ⟨htask, -⟩
    · exact ⟨heq.trans hnobody, hfresh, hnone⟩
    · simp [hnobody] at htask
  · rcases hown h with heq | ⟨-, heq⟩
    · rw [heq]
      exact hinv.born h (hnext ▸ hlt)
    · simp [heq]
  · rw [hworker]
    exact hinv.sound h
  · rcases hlookup id with heq | ⟨h', hop, heq⟩ | ⟨-, heq⟩
    · exact hregistry h (hinv.registered id h (heq ▸ hreg))
    · obtain rfl := Option.some.inj (heq.symm.trans hreg)
      exact hset id _ hop
    · simp [heq] at hreg
  · simp only [World.ended, hworker]
    exact hinv.stopped h t' (hstopper ▸ hs)
  · have hold : w.owner h ≠ .nobody := hinv.abandoned h (habandoned ▸ hab)
    rcases hown h with heq | ⟨-, heq⟩
    · rw [heq]
      exact hold
    · simp [heq]
  · obtain ⟨old, hold, hsame⟩ := hinfo t' record hrec
    obtain ⟨hpast, hother⟩ := hinv.before t' old h hold (hsame ▸ hbefore)
    refine ⟨by simpa only [World.ended, hworker] using hpast, ?_⟩
    rcases hown h with heq | ⟨-, heq⟩
    · rw [heq]
      exact hother
    · simp [heq]
  · simp only [Holds, hmanager]
    refine holder_kept hexec ?_ hne hholds
    rintro id' rfl
    exact hpre
  · rcases hlookup id with heq | ⟨h', rfl, -⟩ | ⟨rfl, -⟩
    · exact .inl (heq.trans hreg)
    · have hvacant : w.registered id = none := hpre.2.1
      simp [hvacant] at hreg
    · exact .inr ⟨t, hne.symm, by rw [hstopper]; exact hpre h hreg⟩
  · rcases hlookup id with heq | ⟨h', rfl, -⟩ | ⟨-, heq⟩
    · exact .inl heq
    · have hheld : Holds t id w := hpre.1
      exact absurd (Option.some.inj (hholds.symm.trans hheld)) hne
    · exact .inr heq
  · rw [hstopper]
    exact hs
  · simpa only [World.ended, hworker] using hdone
  · rcases hown h with heq | ⟨htask, heq⟩
    · rw [heq]
    · rw [heq, htask]
      simp [hne.symm]
  · rw [hworker, hstopper]
    exact hs
  · rcases hrecord with heq | ⟨f, heq, -⟩
    · rw [heq]
    · rw [heq]
      exact Function.update_of_ne hne _ _
  · rw [hmanager]
    exact McpOwnership.exec_loaded_ne hexec hne

theorem Inv.lt_of_ended (hinv : Inv w) (hended : w.ended h = true) : h < w.nextWorker := by
  by_contra hle
  simp [World.ended, (hinv.unborn h (Nat.le_of_not_lt hle)).2.1, Worker.done] at hended

theorem keeps_createTask (hinv : Inv w) :
    Inv { w with
      worker := Function.update w.worker w.nextWorker {}
      owner := Function.update w.owner w.nextWorker (.task t)
      nextWorker := w.nextWorker + 1 } ∧
    ∀ t', t' ≠ t → Rely t' w { w with
      worker := Function.update w.worker w.nextWorker {}
      owner := Function.update w.owner w.nextWorker (.task t)
      nextWorker := w.nextWorker + 1 } := by
  obtain ⟨hnobody, hfresh, hnone⟩ := hinv.unborn w.nextWorker (Nat.le_refl _)
  have hsame : Function.update w.worker w.nextWorker {} = w.worker := by
    rw [← hfresh]
    exact Function.update_eq_self ..
  have hold : ∀ h, w.owner h ≠ .nobody → h ≠ w.nextWorker :=
    fun h howner heq => howner (heq ▸ hnobody)
  refine ⟨⟨fun h hle => ?_, fun h hlt => ?_, fun h => ?_, hinv.keys, fun id h hreg => ?_,
    fun h t' hs => ?_, fun h hab => ?_, fun t' record h hrec hbefore => ?_⟩,
    fun t' hne => ⟨fun _ hholds => hholds,
    fun _ _ hreg => .inl hreg, fun _ _ => .inl rfl, fun _ _ hs => hs, fun h hdone => ?_,
    fun _ _ => rfl, fun h => ?_, fun h hpub => ?_, fun h n hs => ?_, rfl, rfl⟩⟩
  · have hlt : w.nextWorker < h := hle
    obtain ⟨howner, hworker, hstopper⟩ := hinv.unborn h (Nat.le_of_lt hlt)
    dsimp only
    rw [hsame, Function.update_of_ne (Nat.ne_of_gt hlt)]
    exact ⟨howner, hworker, hstopper⟩
  · have hle : h ≤ w.nextWorker := Nat.lt_succ_iff.mp hlt
    by_cases hh : h = w.nextWorker
    · subst hh
      simp
    · simpa [Function.update_of_ne hh] using hinv.born h (Nat.lt_of_le_of_ne hle hh)
  · dsimp only
    rw [hsame]
    exact hinv.sound h
  · have hpub : w.owner h = .registry := hinv.registered id h hreg
    exact (Function.update_of_ne (hold h (by simp [hpub])) _ _).trans hpub
  · simp only [World.ended, hsame]
    exact hinv.stopped h t' hs
  · have howner : w.owner h ≠ .nobody := hinv.abandoned h hab
    dsimp only
    rw [Function.update_of_ne (hold h howner)]
    exact howner
  · obtain ⟨hpast, hother⟩ := hinv.before t' record h hrec hbefore
    refine ⟨by simpa only [World.ended, hsame] using hpast, ?_⟩
    dsimp only
    rw [Function.update_of_ne (Nat.ne_of_lt (hinv.lt_of_ended hpast))]
    exact hother
  · simpa only [World.ended, hsame] using hdone
  · by_cases hh : h = w.nextWorker
    · subst hh
      simp [hnobody, hne.symm]
    · simp [Function.update_of_ne hh]
  · exact (Function.update_of_ne (hold h (by simp [hpub])) _ _).trans hpub
  · dsimp only
    rw [hsame]
    exact hs

/-- A step that changes the record of the call only. -/
theorem keeps_record {record : Option CallRecord} (hinv : Inv w)
    (hbefore : ∀ new h, record = some new → new.endedBefore h = true →
      w.ended h = true ∧ w.owner h ≠ .task t) :
    Inv { w with record := Function.update w.record t record } ∧
      ∀ t', t' ≠ t → Rely t' w { w with record := Function.update w.record t record } := by
  refine ⟨⟨hinv.unborn, hinv.born, hinv.sound, hinv.keys, hinv.registered, hinv.stopped,
    hinv.abandoned,
    fun t' new h hrec hended => ?_⟩, fun t' hne => ⟨fun _ h => h, fun _ _ h => .inl h,
    fun _ _ => .inl rfl, fun _ _ h => h, fun _ h => h, fun _ _ => rfl, fun _ => Iff.rfl,
    fun _ h => h, fun _ _ h => h, Function.update_of_ne hne _ _, rfl⟩⟩
  by_cases ht : t' = t
  · subst ht
    exact hbefore new h (by simpa using hrec) hended
  · exact hinv.before t' new h (by simpa [Function.update_of_ne ht] using hrec) hended

theorem exec_started {r : Except Exn (List Json)}
    (hexec : exec cfg t (.started h) choice w = some (r, w')) :
    choice = .proceed ∧ (w.worker h).started = .done r ∧ w' = w ∨
      ∃ e, choice = .interrupt e ∧ Interrupts cfg e ∧ r = .error e ∧
        w' = w.setWorker h { w.worker h with started := (w.worker h).started.cancel } := by
  cases choice with
  | proceed =>
      simp only [exec] at hexec
      split at hexec
      next outcome hstarted =>
        obtain ⟨rfl, rfl⟩ := Prod.mk.inj (Option.some.inj hexec)
        exact .inl ⟨rfl, hstarted, rfl⟩
      next => simp at hexec
  | interrupt e =>
      simp only [exec] at hexec
      split at hexec
      next he =>
        obtain ⟨rfl, rfl⟩ := Prod.mk.inj (Option.some.inj hexec)
        exact .inr ⟨e, rfl, he, rfl, rfl⟩
      next => simp at hexec
  | manager c => simp [exec] at hexec
  | inner outcome => simp [exec] at hexec

theorem exec_replied {n : Nat} {r : Except Exn (List Json)}
    (hexec : exec cfg t (.replied h n) choice w = some (r, w')) :
    choice = .proceed ∧ (w.worker h).future n = some (.done r) ∧ w' = w ∨
      ∃ e, choice = .interrupt e ∧ Interrupts cfg e ∧ r = .error e ∧
        w' = w.setWorker h ((w.worker h).giveUp n) := by
  cases choice with
  | proceed =>
      simp only [exec] at hexec
      split at hexec
      next outcome hfuture =>
        obtain ⟨rfl, rfl⟩ := Prod.mk.inj (Option.some.inj hexec)
        exact .inl ⟨rfl, hfuture, rfl⟩
      next => simp at hexec
  | interrupt e =>
      simp only [exec] at hexec
      split at hexec
      next he =>
        obtain ⟨rfl, rfl⟩ := Prod.mk.inj (Option.some.inj hexec)
        exact .inr ⟨e, rfl, he, rfl, rfl⟩
      next => simp at hexec
  | manager c => simp [exec] at hexec
  | inner outcome => simp [exec] at hexec

theorem exec_put {name : CommandName} {r : Except Exn (Option Nat)}
    (hexec : exec cfg t (.put h name) choice w = some (r, w')) :
    w.ended h = true ∧ r = .ok none ∧ w' = w ∨
      ∃ x, w.ended h = false ∧ (w.worker h).put t name = some x ∧
        r = .ok (some (w.worker h).replies.length) ∧ w' = w.setWorker h x := by
  cases choice with
  | proceed =>
      simp only [exec] at hexec
      split at hexec
      next hput =>
        obtain ⟨rfl, rfl⟩ := Prod.mk.inj (Option.some.inj hexec)
        refine .inl ⟨?_, rfl, rfl⟩
        by_contra hended
        simp [Worker.put, show (w.worker h).done = false by simpa [World.ended] using hended]
          at hput
      next x hput =>
        obtain ⟨rfl, rfl⟩ := Prod.mk.inj (Option.some.inj hexec)
        refine .inr ⟨x, ?_, hput, rfl, rfl⟩
        by_contra hended
        simp [Worker.put, show (w.worker h).done = true by simpa [World.ended] using hended]
          at hput
  | manager c => simp [exec] at hexec
  | interrupt e => simp [exec] at hexec
  | inner outcome => simp [exec] at hexec

theorem exec_work {r : Except Exn Unit} (hexec : exec cfg t (.work h) choice w = some (r, w')) :
    ∃ outcome x, choice = .inner outcome ∧ h < w.nextWorker ∧ r = .ok () ∧
      WorkStep (w.worker h) outcome x ∧ w' = { w.setWorker h x with
        stopper := Function.update w.stopper h
          ((stoppedFor outcome (w.worker h)).or (w.stopper h)) } := by
  cases choice with
  | inner outcome =>
      simp only [exec] at hexec
      split at hexec
      next hlt =>
        obtain ⟨x, hwork, heq⟩ := Option.map_eq_some_iff.mp hexec
        obtain ⟨rfl, rfl⟩ := Prod.mk.inj heq
        exact ⟨outcome, x, rfl, hlt, rfl, work_step hwork, rfl⟩
      next => simp at hexec
  | manager c => simp [exec] at hexec
  | proceed => simp [exec] at hexec
  | interrupt e => simp [exec] at hexec

/-- The end of a worker task, as those who wait for it see it. -/
theorem exec_ended {op : TaskOp} (hop : op = .joined h ∨ op = .taskResult h)
    {r : Except Exn (TaskReply op)} (hexec : exec cfg t op choice w = some (r, w')) :
    w.ended h = true ∧ w' = w := by
  rcases hop with rfl | rfl
  all_goals
    cases choice with
    | proceed =>
        simp only [exec] at hexec
        split at hexec
        next hphase =>
          obtain ⟨-, rfl⟩ := Prod.mk.inj (Option.some.inj hexec)
          exact ⟨by simp [World.ended, Worker.done, hphase], rfl⟩
        next e hphase =>
          obtain ⟨-, rfl⟩ := Prod.mk.inj (Option.some.inj hexec)
          exact ⟨by simp [World.ended, Worker.done, hphase], rfl⟩
        next => simp at hexec
    | manager c => simp [exec] at hexec
    | interrupt e => simp [exec] at hexec
    | inner outcome => simp [exec] at hexec

theorem keeps_exec {op : TaskOp} {r : Except Exn (TaskReply op)} (hinv : Inv w)
    (hpre : Pre t op w) (hexec : exec cfg t op choice w = some (r, w')) :
    Inv w' ∧ ∀ t', t' ≠ t → Rely t' w w' := by
  have hstay : Inv w ∧ ∀ t', t' ≠ t → Rely t' w w := ⟨hinv, fun _ _ => Rely.refl⟩
  have hborn : ∀ {h}, w.owner h = .task t ∨ w.owner h = .registry → w.owner h ≠ .nobody := by
    rintro h (howner | howner) <;> simp [howner]
  cases op with
  | manager op =>
      obtain ⟨c, m, -, hbase, rfl⟩ := exec_manager hexec
      exact keeps_manager hinv hpre hbase
  | handles =>
      cases choice <;> simp only [exec, Option.some.injEq, Prod.mk.injEq, reduceCtorEq] at hexec
      exact hexec.2 ▸ hstay
  | createTask server =>
      cases choice <;> simp only [exec, Option.some.injEq, Prod.mk.injEq, reduceCtorEq] at hexec
      exact hexec.2 ▸ keeps_createTask hinv
  | started h =>
      have hsound := hinv.sound h
      rcases exec_started hexec with ⟨-, -, rfl⟩ | ⟨e, -, -, -, rfl⟩
      · exact hstay
      · obtain ⟨hkept, hrely⟩ := keeps_setWorker (y := { w.worker h with
            started := (w.worker h).started.cancel }) hinv (hborn (.inl hpre))
          ⟨hsound.commands, hsound.listing, hsound.stopping⟩ rfl rfl
          fun t n hsent => ⟨hsent.caller, hsent.name, hsent.phase, hsent.success⟩
        exact ⟨hkept, fun t' _ => hrely t'⟩
  | cancelTask h =>
      cases choice <;> simp only [exec, Option.some.injEq, Prod.mk.injEq, reduceCtorEq] at hexec
      obtain ⟨-, rfl⟩ := hexec
      have hown : w.owner h ≠ .nobody := hborn (.inl hpre)
      obtain ⟨hkept, hrely⟩ := keeps_worker (y := (w.worker h).cancel) (s := w.stopper h)
        (v := { w.setWorker h (w.worker h).cancel with
          abandoned := Function.update w.abandoned h true }) hinv hown rfl rfl rfl rfl rfl
        (Function.update_eq_self h w.stopper).symm
        (fun h' hab => by
          by_cases hh : h' = h
          · exact hh ▸ hown
          · exact hinv.abandoned h' (by simpa [Function.update_of_ne hh] using hab))
        (hinv.sound h).cancel (fun hended => (cancel_done _).trans hended)
        (fun t hs => by
          rw [cancel_done, cancel_stopInvoked]
          exact hinv.stopped h t hs)
        (fun _ hs => hs) (fun _ => rfl) fun t n hsent => hsent.cancel
      exact ⟨hkept, fun t' _ => hrely t'⟩
  | joined h => exact (exec_ended (.inl rfl) hexec).2 ▸ hstay
  | taskDone h =>
      cases choice <;> simp only [exec, Option.some.injEq, Prod.mk.injEq, reduceCtorEq] at hexec
      exact hexec.2 ▸ hstay
  | taskResult h => exact (exec_ended (.inr rfl) hexec).2 ▸ hstay
  | put h name =>
      rcases exec_put hexec with ⟨-, -, rfl⟩ | ⟨x, -, hput, -, rfl⟩
      · exact hstay
      · obtain ⟨hkept, hrely⟩ := keeps_setWorker hinv (hborn hpre) ((hinv.sound h).put hput)
          (put_done hput).1 (put_done hput).2 fun t n hsent => hsent.put hput
        exact ⟨hkept, fun t' _ => hrely t'⟩
  | replied h n =>
      rcases exec_replied hexec with ⟨-, -, rfl⟩ | ⟨e, -, -, -, rfl⟩
      · exact hstay
      · obtain ⟨hkept, hrely⟩ := keeps_setWorker (y := (w.worker h).giveUp n) hinv (hborn hpre)
          ((hinv.sound h).modifyReply _) rfl rfl fun t n hsent => hsent.giveUp
        exact ⟨hkept, fun t' _ => hrely t'⟩
  | work h =>
      obtain ⟨outcome, x, -, hlt, -, hstep, rfl⟩ := exec_work hexec
      have hopen : ∀ t', w.stopper h ≠ some t' := by
        intro t' hs
        have hended : (w.worker h).done = true := (hinv.stopped h t' hs).1
        simp [hstep.not_done] at hended
      obtain ⟨hkept, hrely⟩ := keeps_worker (y := x)
        (s := (stoppedFor outcome (w.worker h)).or (w.stopper h)) (v := { w.setWorker h x with
          stopper := Function.update w.stopper h
            ((stoppedFor outcome (w.worker h)).or (w.stopper h)) })
        hinv (hinv.born h hlt) rfl rfl rfl rfl rfl rfl hinv.abandoned ((hinv.sound h).work hstep)
        (fun hended => by simp [World.ended, hstep.not_done] at hended)
        (fun t' hs => by
          rcases Option.or_eq_some_iff.mp hs with hfor | ⟨-, hs'⟩
          · exact stoppedFor_eq_some (hinv.sound h) hstep hfor
          · exact absurd hs' (hopen t'))
        (fun t' hs => absurd hs (hopen t'))
        (fun hended => by simp [World.ended, hstep.not_done] at hended)
        fun t' n hsent => hsent.work (fun t'' hs => absurd hs (hopen t'')) hstep
      exact ⟨hkept, fun t' _ => hrely t'⟩
  | interrupt h =>
      cases choice <;> simp only [exec, reduceCtorEq] at hexec
      split at hexec
      next hab =>
        obtain ⟨-, rfl⟩ := Prod.mk.inj (Option.some.inj hexec)
        obtain ⟨hkept, hrely⟩ := keeps_setWorker hinv (hinv.abandoned h hab)
          (hinv.sound h).cancel (cancel_done _) (cancel_stopInvoked _)
          fun t n hsent => hsent.cancel
        exact ⟨hkept, fun t' _ => hrely t'⟩
      next => simp at hexec
  | began call =>
      cases choice <;> simp only [exec, Option.some.injEq, Prod.mk.injEq, reduceCtorEq] at hexec
      obtain ⟨-, rfl⟩ := hexec
      refine keeps_record hinv ?_
      rintro new h hnew hended
      obtain rfl := Option.some.inj hnew
      exact ⟨hended, hpre h⟩
  | returned status =>
      cases choice <;> simp only [exec, Option.some.injEq, Prod.mk.injEq, reduceCtorEq] at hexec
      obtain ⟨-, rfl⟩ := hexec
      refine keeps_record hinv ?_
      rintro new h hnew hended
      obtain ⟨old, hold, rfl⟩ := Option.map_eq_some_iff.mp hnew
      exact hinv.before t old h hold hended

/-- The discipline of the calls and the workers, for any runs. -/
def registryProtocol (cfg : Settings)
    (allowed : TaskId → TaskOp → TaskChoice → World → Prop) : Protocol (exec cfg) allowed where
  inv := Inv
  rely := Rely
  pre := Pre
  rely_refl _ _ := Rely.refl
  rely_trans := Rely.trans
  sound hinv hpre _ hexec := keeps_exec hinv hpre hexec

end Protocol

end ChangeQuality.McpRegistry
