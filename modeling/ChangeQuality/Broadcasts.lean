import ChangeQuality.Runs
import Mathlib.Data.Finset.Basic
import Mathlib.Logic.Function.Basic

/-!
The broadcasts: a map from keys to sets of queues, under any interleaving of the contexts that enter
and leave it and of the calls that publish to it.
-/

namespace ChangeQuality.Broadcasts

open ChangeQuality.Runs

/-- An `asyncio.Queue`. A `maxsize` of 0 sets no bound. -/
structure Queue (Message : Type) where
  maxsize : Nat
  items : List Message
  /-- What was taken from the queue, in order. -/
  taken : List Message
  deriving DecidableEq

/-- A `subscribe` context that was entered, with the queue that it yields. -/
structure Subscription (Key Message : Type) where
  key : Key
  queue : Queue Message
  inside : Bool
  deriving DecidableEq

/-- A broadcast and the contexts entered so far. A queue is known by the place of its context. -/
structure Broadcast (Key Message : Type) where
  subscribers : Key → Option (Finset Nat)
  subscriptions : List (Subscription Key Message)

/-- Entering a context runs to its `yield`, leaving runs what follows. A `publish` goes over the set
of queues in any order, which is part of the move. -/
inductive Move (Key Message : Type) where
  | enter (key : Key)
  | leave (queue : Nat)
  | publish (key : Key) (message : Message) (order : List Nat)
  | take (queue : Nat)
  deriving DecidableEq

section Broadcast

variable {Key Message : Type} [DecidableEq Key]

namespace Queue

/-- `asyncio.Queue()`. -/
def unbounded : Queue Message where
  maxsize := 0
  items := []
  taken := []

def full (queue : Queue Message) : Bool :=
  queue.maxsize != 0 && decide (queue.maxsize ≤ queue.items.length)

/-- `await queue.put(message)`; `none` when it has to wait for a free slot. -/
def put (message : Message) (queue : Queue Message) : Option (Queue Message) :=
  if queue.full then none else some { queue with items := queue.items ++ [message] }

/-- `await queue.get()`; `none` when it has to wait for a message. -/
def get (queue : Queue Message) : Option (Queue Message) :=
  match queue.items with
  | [] => none
  | message :: items => some { queue with items, taken := queue.taken ++ [message] }

/-- All messages that were put into the queue. -/
def received (queue : Queue Message) : List Message :=
  queue.taken ++ queue.items

end Queue

namespace Broadcast

/-- `__init__`. -/
def init : Broadcast Key Message where
  subscribers := fun _ => none
  subscriptions := []

/-- `self._subscribers[key]`, where a missing key has an empty set. -/
def item (broadcast : Broadcast Key Message) (key : Key) : Finset Nat :=
  (broadcast.subscribers key).getD ∅

/-- `subscribe` up to its `yield`. -/
def enter (key : Key) (broadcast : Broadcast Key Message) : Broadcast Key Message where
  subscribers := Function.update broadcast.subscribers key
    (some (insert broadcast.subscriptions.length (broadcast.item key)))
  subscriptions := broadcast.subscriptions ++
    [{ key, queue := .unbounded, inside := true }]

/-- The `finally` of `subscribe`: the queue is discarded, and the set with its last queue. -/
def discard (key : Key) (queue : Nat) (broadcast : Broadcast Key Message) :
    Key → Option (Finset Nat) :=
  let rest := (broadcast.item key).erase queue
  let subscribers := Function.update broadcast.subscribers key (some rest)
  if rest = ∅ then Function.update subscribers key none else subscribers

def leave (queue : Nat) (broadcast : Broadcast Key Message) : Option (Broadcast Key Message) :=
  match broadcast.subscriptions[queue]? with
  | some { key, inside := true, .. } => some {
      subscribers := broadcast.discard key queue
      subscriptions := broadcast.subscriptions.modify queue ({ · with inside := false }) }
  | _ => none

/-- One round of the loop of `publish`. -/
def putOne (message : Message) (subscriptions : List (Subscription Key Message)) (queue : Nat) :
    Option (List (Subscription Key Message)) := do
  let subscription ← subscriptions[queue]?
  let after ← subscription.queue.put message
  return subscriptions.set queue { subscription with queue := after }

/-- The copy of a set as a list names each of its members once. -/
def Enumerates (order : List Nat) (queues : Finset Nat) : Prop :=
  order.Nodup ∧ order.toFinset = queues

instance (order : List Nat) (queues : Finset Nat) : Decidable (Enumerates order queues) :=
  inferInstanceAs (Decidable (_ ∧ _))

/-- `publish`. The loop awaits nothing but the `put`, so no other task runs in between unless a
`put` has to wait; `none` stands for that. -/
def publish (key : Key) (message : Message) (order : List Nat)
    (broadcast : Broadcast Key Message) : Option (Broadcast Key Message) := do
  guard (Enumerates order (broadcast.item key))
  let subscriptions ← order.foldlM (putOne message) broadcast.subscriptions
  return { broadcast with subscriptions }

def take (queue : Nat) (broadcast : Broadcast Key Message) : Option (Broadcast Key Message) := do
  let subscription ← broadcast.subscriptions[queue]?
  let after ← subscription.queue.get
  return { broadcast with
    subscriptions := broadcast.subscriptions.set queue { subscription with queue := after } }

def step : Move Key Message → Broadcast Key Message → Option (Broadcast Key Message)
  | .enter key, broadcast => some (broadcast.enter key)
  | .leave queue, broadcast => broadcast.leave queue
  | .publish key message order, broadcast => broadcast.publish key message order
  | .take queue, broadcast => broadcast.take queue

end Broadcast

open Broadcast

/-- What is published to a key until a context is left. -/
def publishedUntilLeft (key : Key) (queue : Nat) : List (Move Key Message) → List Message
  | [] => []
  | .enter _ :: moves => publishedUntilLeft key queue moves
  | .leave other :: moves => if other = queue then [] else publishedUntilLeft key queue moves
  | .publish other message _ :: moves =>
      if other = key then message :: publishedUntilLeft key queue moves
      else publishedUntilLeft key queue moves
  | .take _ :: moves => publishedUntilLeft key queue moves

/-- What is published, while it is subscribed, to the key of the context that is the `queue`-th of
those that are entered, where `entered` were entered before the moves. -/
def publishedWhileInside (queue : Nat) : Nat → List (Move Key Message) → List Message
  | _, [] => []
  | entered, .enter key :: moves =>
      if queue = entered then publishedUntilLeft key queue moves
      else publishedWhileInside queue (entered + 1) moves
  | entered, .leave _ :: moves => publishedWhileInside queue entered moves
  | entered, .publish _ _ _ :: moves => publishedWhileInside queue entered moves
  | entered, .take _ :: moves => publishedWhileInside queue entered moves

/-- What the moves publish to a key. -/
def publishedTo (key : Key) (moves : List (Move Key Message)) : List Message :=
  moves.filterMap fun move =>
    match move with
    | .publish other message _ => if other = key then some message else none
    | _ => none

/-- A context receives nothing that is published to another key. -/
theorem publishedUntilLeft_prefix (key : Key) (queue : Nat) (moves : List (Move Key Message)) :
    publishedUntilLeft key queue moves <+: publishedTo key moves := by
  induction moves with
  | nil => exact List.prefix_refl []
  | cons move moves ih =>
      cases move with
      | enter entered => exact ih
      | leave left =>
          by_cases hleft : left = queue
          · simp [publishedUntilLeft, hleft]
          · simpa [publishedUntilLeft, hleft, publishedTo] using ih
      | publish other message order =>
          by_cases hkey : other = key <;>
            simpa [publishedUntilLeft, publishedTo, hkey, List.cons_prefix_cons] using ih
      | take taken => exact ih

variable {broadcast broadcast' : Broadcast Key Message} {move : Move Key Message}
  {subscription : Subscription Key Message} {queue : Nat}

namespace Queue

theorem put_unbounded {queue : Queue Message} (hmaxsize : queue.maxsize = 0) (message : Message) :
    queue.put message = some { queue with items := queue.items ++ [message] } := by
  simp [put, full, hmaxsize]

theorem received_get {queue after : Queue Message} (h : queue.get = some after) :
    after.received = queue.received ∧ after.maxsize = queue.maxsize := by
  unfold get at h
  split at h
  · cases h
  next message items hitems =>
    obtain rfl := Option.some.inj h
    simp [received, hitems]

end Queue

/-- The subscription after its queue was given a message. -/
def Subscription.receive (message : Message) (subscription : Subscription Key Message) :
    Subscription Key Message :=
  { subscription with queue :=
      { subscription.queue with items := subscription.queue.items ++ [message] } }

/-- What a `publish` to a key comes to for one context. -/
def Subscription.deliver (key : Key) (message : Message)
    (subscription : Subscription Key Message) : Subscription Key Message :=
  if subscription.key = key ∧ subscription.inside = true then subscription.receive message
  else subscription

/-- The sets hold the queues of the contexts that were entered and not left, and no set is empty. -/
structure Invariant (broadcast : Broadcast Key Message) : Prop where
  registered : ∀ key queue, queue ∈ broadcast.item key ↔ ∃ subscription,
    broadcast.subscriptions[queue]? = some subscription ∧ subscription.key = key ∧
      subscription.inside = true
  nonempty : ∀ key, broadcast.subscribers key ≠ some ∅
  unbounded : ∀ subscription ∈ broadcast.subscriptions, subscription.queue.maxsize = 0

omit [DecidableEq Key] in
/-- The loop of `publish` gives the message once to every queue that it goes over. -/
theorem foldlM_putOne (message : Message) {order : List Nat} (hnodup : order.Nodup)
    {subscriptions : List (Subscription Key Message)}
    (hqueues : ∀ queue ∈ order, ∃ subscription, subscriptions[queue]? = some subscription ∧
      subscription.queue.maxsize = 0) :
    order.foldlM (putOne message) subscriptions =
      some (subscriptions.mapIdx fun queue subscription =>
        if queue ∈ order then subscription.receive message else subscription) := by
  induction order generalizing subscriptions with
  | nil =>
      refine congrArg some (List.ext_getElem? fun queue => ?_)
      simp [List.getElem?_mapIdx]
  | cons queue order ih =>
      obtain ⟨hnew, hrest⟩ := List.nodup_cons.mp hnodup
      obtain ⟨subscription, hsubscription, hmaxsize⟩ := hqueues queue List.mem_cons_self
      have hput : putOne message subscriptions queue =
          some (subscriptions.set queue (subscription.receive message)) := by
        simp [putOne, hsubscription, Queue.put_unbounded hmaxsize, Subscription.receive]
      rw [List.foldlM_cons, hput, Option.bind_eq_bind, Option.bind_some, ih hrest]
      · congr 1
        refine List.ext_getElem? fun other => ?_
        rw [List.getElem?_mapIdx, List.getElem?_mapIdx, List.getElem?_set]
        by_cases hother : queue = other
        · subst hother
          obtain ⟨hlt, hget⟩ := List.getElem?_eq_some_iff.mp hsubscription
          simp [hlt, hget, hnew]
        · simp [hother, Ne.symm hother]
      · intro other hother
        obtain ⟨sibling, hsibling, hsize⟩ := hqueues other (List.mem_cons_of_mem queue hother)
        have hne : queue ≠ other := fun h => hnew (h ▸ hother)
        exact ⟨sibling, by rw [List.getElem?_set_ne hne, hsibling], hsize⟩

/-- `publish` never waits, and gives the message to the contexts of its key that are inside. -/
theorem publish_eq (hinv : Invariant broadcast) {key : Key} (message : Message) {order : List Nat}
    (horder : Enumerates order (broadcast.item key)) :
    broadcast.publish key message order = some { broadcast with
      subscriptions := broadcast.subscriptions.map (Subscription.deliver key message) } := by
  have hmem (queue : Nat) : queue ∈ order ↔ queue ∈ broadcast.item key := by
    rw [← horder.2, List.mem_toFinset]
  have hloop : order.foldlM (putOne message) broadcast.subscriptions =
      some (broadcast.subscriptions.map (Subscription.deliver key message)) := by
    rw [foldlM_putOne message horder.1]
    · congr 1
      refine List.ext_getElem? fun queue => ?_
      rw [List.getElem?_mapIdx, List.getElem?_map]
      cases hqueue : broadcast.subscriptions[queue]? with
      | none => rfl
      | some subscription =>
          have hiff : queue ∈ order ↔ subscription.key = key ∧ subscription.inside = true := by
            rw [hmem, hinv.registered]
            simp [hqueue]
          simp only [Option.map_some, hiff, Subscription.deliver]
    · intro queue hqueue
      obtain ⟨subscription, hsubscription, -⟩ :=
        (hinv.registered key queue).mp ((hmem queue).mp hqueue)
      exact ⟨subscription, hsubscription,
        hinv.unbounded subscription (List.mem_of_getElem? hsubscription)⟩
  simp [publish, guard, horder, hloop]

/-- What a move puts into the queue of one context. -/
def delivered (subscription : Subscription Key Message) : Move Key Message → List Message
  | .publish key message _ =>
      if subscription.key = key ∧ subscription.inside = true then [message] else []
  | _ => []

/-- What a move may make of one context. -/
structure Follows (move : Move Key Message) (queue : Nat)
    (before after : Subscription Key Message) : Prop where
  key : after.key = before.key
  inside : after.inside = true ↔ before.inside = true ∧ move ≠ .leave queue
  received : after.queue.received = before.queue.received ++ delivered before move
  maxsize : after.queue.maxsize = before.queue.maxsize

theorem Follows.refl (hmove : move ≠ .leave queue) (hnothing : delivered subscription move = []) :
    Follows move queue subscription subscription where
  key := rfl
  inside := by simp [hmove]
  received := by simp [hnothing]
  maxsize := rfl

theorem follows_deliver (key : Key) (message : Message) (order : List Nat) :
    Follows (.publish key message order) queue subscription
      (subscription.deliver key message) := by
  unfold Subscription.deliver
  by_cases hinside : subscription.key = key ∧ subscription.inside = true
  · constructor <;> simp [hinside, Subscription.receive, Queue.received, delivered]
  · rw [if_neg hinside]
    exact .refl (by simp) (if_neg hinside)

/-- The moves and what each of them comes to. -/
inductive Happens (broadcast : Broadcast Key Message) :
    Move Key Message → Broadcast Key Message → Prop
  | enter (key : Key) : Happens broadcast (.enter key) (broadcast.enter key)
  | leave {key : Key} {own : Queue Message} {queue : Nat} :
      broadcast.subscriptions[queue]? = some { key, queue := own, inside := true } →
      Happens broadcast (.leave queue) {
        subscribers := broadcast.discard key queue
        subscriptions := broadcast.subscriptions.modify queue ({ · with inside := false }) }
  | publish (key : Key) (message : Message) {order : List Nat} :
      Enumerates order (broadcast.item key) →
      Happens broadcast (.publish key message order) { broadcast with
        subscriptions := broadcast.subscriptions.map (Subscription.deliver key message) }
  | take {queue : Nat} {subscription : Subscription Key Message} {after : Queue Message} :
      broadcast.subscriptions[queue]? = some subscription → subscription.queue.get = some after →
      Happens broadcast (.take queue) { broadcast with
        subscriptions := broadcast.subscriptions.set queue { subscription with queue := after } }

theorem happens_of_step (hinv : Invariant broadcast)
    (hstep : Broadcast.step move broadcast = some broadcast') :
    Happens broadcast move broadcast' := by
  cases move with
  | enter key => exact Option.some.inj hstep ▸ .enter key
  | leave queue =>
      simp only [Broadcast.step, Broadcast.leave] at hstep
      split at hstep
      next key own hleft => exact Option.some.inj hstep ▸ .leave hleft
      · cases hstep
  | publish key message order =>
      have horder : Enumerates order (broadcast.item key) := by
        by_contra hnot
        simp [Broadcast.step, publish, guard, hnot] at hstep
      have heq := (publish_eq hinv message horder).symm.trans hstep
      exact Option.some.inj heq ▸ .publish key message horder
  | take queue =>
      simp only [Broadcast.step, Broadcast.take, Option.bind_eq_bind, Option.bind_eq_some_iff,
        Option.pure_def, Option.some.injEq] at hstep
      obtain ⟨subscription, hsubscription, after, hget, rfl⟩ := hstep
      exact .take hsubscription hget

/-- Every context that was entered follows the move. -/
theorem follows_step (hhappens : Happens broadcast move broadcast')
    (hbefore : broadcast.subscriptions[queue]? = some subscription) :
    ∃ after, broadcast'.subscriptions[queue]? = some after ∧
      Follows move queue subscription after := by
  obtain ⟨hlt, hget⟩ := List.getElem?_eq_some_iff.mp hbefore
  cases hhappens with
  | enter key =>
      refine ⟨subscription, ?_, .refl (by simp) rfl⟩
      exact List.getElem?_append_left hlt ▸ hbefore
  | @leave key own left hleft =>
      by_cases hsame : left = queue
      · subst hsame
        refine ⟨{ subscription with inside := false }, by simp [hbefore], ?_⟩
        constructor <;> simp [delivered, Queue.received]
      · exact ⟨subscription, by simp [hbefore, hsame], .refl (by simpa using hsame) rfl⟩
  | publish key message horder =>
      exact ⟨_, by simp [hbefore], follows_deliver key message _⟩
  | @take taken taking after htaking hafter =>
      by_cases hsame : taken = queue
      · subst hsame
        obtain rfl := Option.some.inj (hbefore.symm.trans htaking)
        obtain ⟨hreceived, hmaxsize⟩ := Queue.received_get hafter
        refine ⟨{ subscription with queue := after }, by simp [hlt], ?_⟩
        constructor <;> simp [delivered, hreceived, hmaxsize]
      · exact ⟨subscription, by simp [List.getElem?_set_ne hsame, hbefore], .refl (by simp) rfl⟩

/-- The number of contexts that a move enters. -/
def entering : Move Key Message → Nat
  | .enter _ => 1
  | _ => 0

/-- The only new context of a move is the one that it enters. -/
theorem length_step (hhappens : Happens broadcast move broadcast') :
    broadcast'.subscriptions.length = broadcast.subscriptions.length + entering move := by
  cases hhappens <;> simp [Broadcast.enter, entering]

theorem item_enter (key other : Key) : (broadcast.enter key).item other =
    if other = key then insert broadcast.subscriptions.length (broadcast.item key)
    else broadcast.item other := by
  by_cases hother : other = key
  · subst hother
    simp [item, Broadcast.enter]
  · simp [item, Broadcast.enter, hother]

theorem getD_discard (key other : Key) : (broadcast.discard key queue other).getD ∅ =
    if other = key then (broadcast.item key).erase queue else broadcast.item other := by
  unfold Broadcast.discard
  by_cases hother : other = key
  · subst hother
    by_cases hempty : (broadcast.item other).erase queue = ∅ <;> simp [hempty]
  · by_cases hempty : (broadcast.item key).erase queue = ∅
    · simp only [hempty, if_true, Function.update_of_ne hother, if_neg hother]
      rfl
    · simp only [hempty, if_false, Function.update_of_ne hother, if_neg hother]
      rfl

theorem discard_nonempty (hinv : Invariant broadcast) (key other : Key) :
    broadcast.discard key queue other ≠ some ∅ := by
  unfold Broadcast.discard
  by_cases hother : other = key
  · subst hother
    by_cases hempty : (broadcast.item other).erase queue = ∅ <;> simp [hempty]
  · by_cases hempty : (broadcast.item key).erase queue = ∅ <;>
      simp [hempty, hother, hinv.nonempty other]

/-- The context holds a queue of the key and was not left. -/
def Inside (broadcast : Broadcast Key Message) (key : Key) (queue : Nat) : Prop :=
  ∃ subscription, broadcast.subscriptions[queue]? = some subscription ∧ subscription.key = key ∧
    subscription.inside = true

/-- A context is inside after a move if it was and is not left, or is entered. -/
theorem inside_step (hhappens : Happens broadcast move broadcast') (key : Key) :
    Inside broadcast' key queue ↔
      Inside broadcast key queue ∧ move ≠ .leave queue ∨
        queue = broadcast.subscriptions.length ∧ move = .enter key := by
  cases hbefore : broadcast.subscriptions[queue]? with
  | some subscription =>
      obtain ⟨after, hafter, hfollows⟩ := follows_step hhappens hbefore
      have hlt := (List.getElem?_eq_some_iff.mp hbefore).1
      simp [Inside, hbefore, hafter, hfollows.key, hfollows.inside, hlt.ne, and_assoc]
  | none =>
      have hle := List.getElem?_eq_none_iff.mp hbefore
      cases hhappens with
      | enter entered =>
          by_cases hnew : queue = broadcast.subscriptions.length
          · subst hnew
            simp [Inside, Broadcast.enter]
          · have hout : (broadcast.enter entered).subscriptions[queue]? = none := by
              refine List.getElem?_eq_none ?_
              rw [Broadcast.enter, List.length_append, List.length_singleton]
              omega
            simp [Inside, hbefore, hnew, hout]
      | leave hleft => simp [Inside, List.getElem?_modify, hbefore]
      | publish published message horder => simp [Inside, hbefore]
      | take htaking hget => simp [Inside, hle]

theorem item_step (hinv : Invariant broadcast) (hhappens : Happens broadcast move broadcast')
    (key : Key) : queue ∈ broadcast'.item key ↔
      queue ∈ broadcast.item key ∧ move ≠ .leave queue ∨
        queue = broadcast.subscriptions.length ∧ move = .enter key := by
  cases hhappens with
  | enter entered =>
      rw [item_enter]
      by_cases hkey : key = entered
      · simp [hkey, or_comm]
      · simp [hkey, Ne.symm hkey]
  | @leave left own queue' hleft =>
      rw [Broadcast.item, getD_discard]
      by_cases hkey : key = left
      · simp [hkey, and_comm, eq_comm]
      · have hother : queue' ∉ broadcast.item key := by
          rw [hinv.registered]
          rintro ⟨subscription, hsubscription, hsame, -⟩
          obtain rfl := Option.some.inj (hleft.symm.trans hsubscription)
          exact hkey hsame.symm
        have hne (hmem : queue ∈ broadcast.item key) : queue' ≠ queue := fun h => hother (h ▸ hmem)
        simp [hkey]
        exact hne
  | publish published message horder => simp [Broadcast.item]
  | take htaking hget => simp [Broadcast.item]

omit [DecidableEq Key] in
theorem invariant_init : Invariant (init : Broadcast Key Message) := by
  constructor <;> simp [init, Broadcast.item]

theorem invariant_step (hinv : Invariant broadcast)
    (hhappens : Happens broadcast move broadcast') : Invariant broadcast' where
  registered := by
    intro key queue
    rw [item_step hinv hhappens, hinv.registered]
    exact (inside_step hhappens key).symm
  nonempty := by
    intro key
    cases hhappens with
    | enter entered =>
        by_cases hkey : key = entered
        · simp [Broadcast.enter, hkey]
        · simp [Broadcast.enter, hkey, hinv.nonempty key]
    | leave hleft => exact discard_nonempty hinv _ key
    | publish published message horder => exact hinv.nonempty key
    | take htaking hget => exact hinv.nonempty key
  unbounded := by
    intro after hmem
    obtain ⟨queue, hafter⟩ := List.mem_iff_getElem?.mp hmem
    cases hbefore : broadcast.subscriptions[queue]? with
    | some subscription =>
        obtain ⟨after', hafter', hfollows⟩ := follows_step hhappens hbefore
        obtain rfl := Option.some.inj (hafter.symm.trans hafter')
        rw [hfollows.maxsize]
        exact hinv.unbounded subscription (List.mem_of_getElem? hbefore)
    | none =>
        have hle := List.getElem?_eq_none_iff.mp hbefore
        have hlt := (List.getElem?_eq_some_iff.mp hafter).1
        rw [length_step hhappens] at hlt
        cases hhappens with
        | enter key =>
            simp only [Broadcast.enter, List.getElem?_append_right hle] at hafter
            obtain rfl := List.mem_singleton.mp (List.mem_of_getElem? hafter)
            rfl
        | leave hleft => exact absurd hlt (Nat.not_lt_of_le hle)
        | publish published message horder => exact absurd hlt (Nat.not_lt_of_le hle)
        | take htaking hget => exact absurd hlt (Nat.not_lt_of_le hle)

theorem invariant_run {moves : List (Move Key Message)} (hinv : Invariant broadcast)
    (hrun : run Broadcast.step moves broadcast = some broadcast') : Invariant broadcast' :=
  run_invariant (fun _ _ _ hbefore hstep => invariant_step hbefore (happens_of_step hbefore hstep))
    hinv hrun

/-- What a context is still to receive from the moves. -/
def toReceive (subscription : Subscription Key Message) (queue : Nat)
    (moves : List (Move Key Message)) : List Message :=
  if subscription.inside = true then publishedUntilLeft subscription.key queue moves else []

theorem toReceive_cons {after : Subscription Key Message} (moves : List (Move Key Message))
    (hfollows : Follows move queue subscription after) :
    toReceive subscription queue (move :: moves) =
      delivered subscription move ++ toReceive after queue moves := by
  unfold toReceive
  rw [hfollows.key]
  by_cases hinside : subscription.inside = true
  · cases move with
    | enter key => simp [hinside, hfollows.inside, publishedUntilLeft, delivered]
    | leave left =>
        by_cases hleft : left = queue <;>
          simp [hinside, hfollows.inside, publishedUntilLeft, delivered, hleft]
    | publish key message order =>
        by_cases hkey : key = subscription.key <;>
          simp [hinside, hfollows.inside, publishedUntilLeft, delivered, hkey, eq_comm]
    | take taken => simp [hinside, hfollows.inside, publishedUntilLeft, delivered]
  · cases move <;> simp [hinside, hfollows.inside, delivered]

/-- A context that was entered receives what the moves publish to its key until it is left. -/
theorem received_of_entered {moves : List (Move Key Message)} (hinv : Invariant broadcast)
    (hrun : run Broadcast.step moves broadcast = some broadcast')
    (hbefore : broadcast.subscriptions[queue]? = some subscription) :
    ∃ after, broadcast'.subscriptions[queue]? = some after ∧
      after.queue.received = subscription.queue.received ++ toReceive subscription queue moves := by
  induction moves generalizing broadcast subscription with
  | nil =>
      obtain rfl := Option.some.inj hrun
      exact ⟨subscription, hbefore, by simp [toReceive, publishedUntilLeft]⟩
  | cons move moves ih =>
      obtain ⟨mid, hmid, hrest⟩ := run_cons hrun
      have hhappens := happens_of_step hinv hmid
      obtain ⟨next, hnext, hfollows⟩ := follows_step hhappens hbefore
      obtain ⟨after, hafter, hreceived⟩ := ih (invariant_step hinv hhappens) hrest hnext
      refine ⟨after, hafter, ?_⟩
      rw [hreceived, hfollows.received, toReceive_cons moves hfollows, List.append_assoc]

/-- A context that is entered later receives what is published while it is inside. -/
theorem received_of_entering {moves : List (Move Key Message)} (hinv : Invariant broadcast)
    (hrun : run Broadcast.step moves broadcast = some broadcast')
    (hbefore : broadcast.subscriptions.length ≤ queue)
    {after : Subscription Key Message} (hafter : broadcast'.subscriptions[queue]? = some after) :
    after.queue.received = publishedWhileInside queue broadcast.subscriptions.length moves := by
  induction moves generalizing broadcast with
  | nil =>
      obtain rfl := Option.some.inj hrun
      exact absurd (List.getElem?_eq_some_iff.mp hafter).1 (Nat.not_lt_of_le hbefore)
  | cons move moves ih =>
      obtain ⟨mid, hmid, hrest⟩ := run_cons hrun
      have hhappens := happens_of_step hinv hmid
      have hlength := length_step hhappens
      have hlater (hle : mid.subscriptions.length ≤ queue) :=
        ih (invariant_step hinv hhappens) hrest hle
      cases move with
      | enter key =>
          by_cases hnew : queue = broadcast.subscriptions.length
          · obtain rfl := Option.some.inj hmid
            have hentered : (broadcast.enter key).subscriptions[queue]? =
                some { key, queue := .unbounded, inside := true } := by
              simp [Broadcast.enter, hnew]
            obtain ⟨last, hlast, hreceived⟩ :=
              received_of_entered (invariant_step hinv hhappens) hrest hentered
            obtain rfl := Option.some.inj (hafter.symm.trans hlast)
            rw [hreceived, publishedWhileInside, if_pos hnew]
            rfl
          · have hle : mid.subscriptions.length ≤ queue := by
              rw [hlength, entering]
              omega
            rw [hlater hle, hlength, publishedWhileInside, if_neg hnew, entering]
      | leave left => rw [hlater (hlength ▸ hbefore), hlength, publishedWhileInside]; rfl
      | publish key message order =>
          rw [hlater (hlength ▸ hbefore), hlength, publishedWhileInside]; rfl
      | take taken => rw [hlater (hlength ▸ hbefore), hlength, publishedWhileInside]; rfl

/-- In every run, each queue receives exactly what is published to its key while its context is
inside, in order and once each, no key keeps an empty set, and a `publish` never has to wait. -/
theorem broadcast_delivers (moves : List (Move Key Message)) (broadcast : Broadcast Key Message)
    (hrun : run Broadcast.step moves init = some broadcast) :
    (∀ queue subscription, broadcast.subscriptions[queue]? = some subscription →
      subscription.queue.received = publishedWhileInside queue 0 moves) ∧
    (∀ key, broadcast.subscribers key ≠ some ∅) ∧
    ∀ key message order, Enumerates order (broadcast.item key) →
      (Broadcast.step (.publish key message order) broadcast).isSome = true := by
  have hinv := invariant_run invariant_init hrun
  refine ⟨fun queue subscription hsubscription => ?_, hinv.nonempty, fun key message order h => ?_⟩
  · exact received_of_entering invariant_init hrun (Nat.zero_le queue) hsubscription
  · simp [Broadcast.step, publish_eq hinv message h]

end Broadcast

section Instances

variable (Message : Type)

/-- Keyed by the number of a session. -/
abbrev SessionBroadcast := Broadcast Int Message

/-- Keyed by the UUID of a check. -/
abbrev SopQualityBroadcast := Broadcast (BitVec 128) Message

end Instances

/-- Two readers of session 1, one of which leaves, and a reader of session 2. -/
def twoSessions : List (Move Int String) :=
  [.enter 1, .enter 2, .publish 1 "a" [0], .enter 1, .publish 1 "b" [2, 0], .leave 0, .take 2,
    .publish 1 "c" [2], .leave 1]

theorem twoSessions_delivered :
    ∃ broadcast : SessionBroadcast String,
      run Broadcast.step twoSessions Broadcast.init = some broadcast ∧
      broadcast.subscriptions.map (·.queue.received) = [["a", "b"], [], ["b", "c"]] ∧
      broadcast.subscribers 2 ≠ some ∅ ∧
      (Broadcast.step (.publish 1 "d" [2]) broadcast).isSome = true := by
  obtain ⟨hreceived, hnonempty, hpublish⟩ := broadcast_delivers twoSessions _ rfl
  refine ⟨_, rfl, ?_, hnonempty 2, hpublish 1 "d" [2] (by decide)⟩
  exact congrArg₂ (· :: ·) (hreceived 0 _ rfl) (congrArg₂ (· :: ·) (hreceived 1 _ rfl)
    (congrArg (fun last => [last]) (hreceived 2 _ rfl)))

end ChangeQuality.Broadcasts
