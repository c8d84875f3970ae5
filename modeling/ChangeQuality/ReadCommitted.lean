import Mathlib.Logic.Function.Basic
import Mathlib.Data.List.Basic

/-!
A database under READ COMMITTED, as far as concurrency control goes. A statement sees what is
committed at that instant together with its own transaction's writes; a row that a transaction
wrote or selected for update stays locked until that transaction ends.
-/

set_option linter.unusedSectionVars false

namespace ChangeQuality.ReadCommitted

/-- What a write does to the tables, and the rows that it needs locked. -/
structure Schema (Db Write Key : Type) where
  apply : Write → Db → Db
  rowsOf : Write → List Key

/-- The committed tables, each open transaction's writes in order, and the owners of row locks. -/
structure Store (Db Write Key Txn : Type) where
  committed : Db
  pending : Txn → List Write
  owner : Key → Option Txn

variable {Db Write Key Txn : Type}

section Writes

variable (S : Schema Db Write Key)

/-- The tables after a list of writes. -/
def applyAll (writes : List Write) (db : Db) : Db :=
  writes.foldl (fun db wr => S.apply wr db) db

variable {S}

@[simp] theorem applyAll_nil (db : Db) : applyAll S [] db = db := rfl

@[simp] theorem applyAll_append (ws : List Write) (wr : Write) (db : Db) :
    applyAll S (ws ++ [wr]) db = S.apply wr (applyAll S ws db) := by
  simp [applyAll]

/-- What every write of a list keeps, the list keeps. -/
theorem applyAll_keeps {φ : Db → Prop} {ws : List Write}
    (hkeep : ∀ wr ∈ ws, ∀ db, φ db → φ (S.apply wr db)) {db : Db} (h : φ db) :
    φ (applyAll S ws db) := by
  induction ws generalizing db with
  | nil => exact h
  | cons wr ws ih =>
      refine ih (fun wr' hwr' => hkeep wr' (by simp [hwr'])) ?_
      exact hkeep wr (by simp) db h

/-- What no write of a list changes, the list does not change. -/
theorem applyAll_frame {γ : Type} {π : Db → γ} {ws : List Write}
    (hframe : ∀ wr ∈ ws, ∀ db, π (S.apply wr db) = π db) (db : Db) :
    π (applyAll S ws db) = π db :=
  applyAll_keeps (φ := fun db' => π db' = π db)
    (fun wr hwr db' h => (hframe wr hwr db').trans h) rfl

end Writes

namespace Store

variable [DecidableEq Key] [DecidableEq Txn] (S : Schema Db Write Key)

/-- What a statement of transaction `t` sees. -/
def view (s : Store Db Write Key Txn) (t : Txn) : Db :=
  applyAll S (s.pending t) s.committed

/-- Take a row lock; `none` while another transaction has it. -/
def lock (s : Store Db Write Key Txn) (t : Txn) (k : Key) : Option (Store Db Write Key Txn) :=
  if s.owner k = none ∨ s.owner k = some t then
    some { s with owner := Function.update s.owner k (some t) }
  else none

/-- Take several row locks. -/
def lockAll (s : Store Db Write Key Txn) (t : Txn) : List Key → Option (Store Db Write Key Txn)
  | [] => some s
  | k :: ks => (s.lock t k).bind fun s' => s'.lockAll t ks

/-- Add a write to the transaction. -/
def record (s : Store Db Write Key Txn) (t : Txn) (wr : Write) : Store Db Write Key Txn :=
  { s with pending := Function.update s.pending t (s.pending t ++ [wr]) }

/-- Execute a write, which waits for the locks of its rows. -/
def write (s : Store Db Write Key Txn) (t : Txn) (wr : Write) :
    Option (Store Db Write Key Txn) :=
  (s.lockAll t (S.rowsOf wr)).map fun s' => s'.record t wr

/-- The lock table once `t` has ended. -/
def release (s : Store Db Write Key Txn) (t : Txn) : Key → Option Txn :=
  fun k => if s.owner k = some t then none else s.owner k

def commit (s : Store Db Write Key Txn) (t : Txn) : Store Db Write Key Txn where
  committed := s.view S t
  pending := Function.update s.pending t []
  owner := s.release t

def rollback (s : Store Db Write Key Txn) (t : Txn) : Store Db Write Key Txn where
  committed := s.committed
  pending := Function.update s.pending t []
  owner := s.release t

/-- Every write on a row was made under that row's lock. -/
def Guarded (s : Store Db Write Key Txn) : Prop :=
  ∀ t wr k, wr ∈ s.pending t → k ∈ S.rowsOf wr → s.owner k = some t

/-- The second store is the first with the locks of `ks` taken by `t`. -/
structure Locks (t : Txn) (ks : List Key) (s s' : Store Db Write Key Txn) : Prop where
  committed : s'.committed = s.committed
  pending : s'.pending = s.pending
  keeps : ∀ k t', s.owner k = some t' → s'.owner k = some t'
  taken : ∀ k ∈ ks, s'.owner k = some t
  only : ∀ k t', s'.owner k = some t' → s.owner k = some t' ∨ t' = t ∧ k ∈ ks

variable {S} {s s' : Store Db Write Key Txn} {t t' : Txn} {k : Key} {wr : Write}

theorem lock_eq_some (h : s.lock t k = some s') : Locks t [k] s s' := by
  simp only [lock] at h
  split at h
  · rename_i hfree
    obtain rfl := Option.some.inj h
    refine ⟨rfl, rfl, fun k' t' howner => ?_, by simp, fun k' t' howner => ?_⟩
    · by_cases hk : k' = k
      · subst hk
        simpa [howner, eq_comm] using hfree
      · simpa [hk] using howner
    · by_cases hk : k' = k
      · subst hk
        exact .inr ⟨by simpa [eq_comm] using howner, by simp⟩
      · exact .inl (by simpa [hk] using howner)
  · simp at h

theorem lockAll_eq_some {ks : List Key} (h : s.lockAll t ks = some s') : Locks t ks s s' := by
  induction ks generalizing s with
  | nil =>
      obtain rfl := Option.some.inj h
      exact ⟨rfl, rfl, fun _ _ h => h, by simp, fun _ _ h => .inl h⟩
  | cons k ks ih =>
      simp only [lockAll, Option.bind_eq_some_iff] at h
      obtain ⟨mid, hmid, hrest⟩ := h
      have hfirst := lock_eq_some hmid
      have hlocks := ih hrest
      refine ⟨hlocks.committed.trans hfirst.committed, hlocks.pending.trans hfirst.pending,
        fun k' t' h' => hlocks.keeps k' t' (hfirst.keeps k' t' h'), fun k' hk' => ?_,
        fun k' t' h' => ?_⟩
      · rcases List.mem_cons.mp hk' with rfl | hk'
        · exact hlocks.keeps k' t (hfirst.taken k' (by simp))
        · exact hlocks.taken k' hk'
      · rcases hlocks.only k' t' h' with h' | ⟨rfl, hk'⟩
        · rcases hfirst.only k' t' h' with h' | ⟨rfl, hk'⟩
          · exact .inl h'
          · exact .inr ⟨rfl, by simp_all⟩
        · exact .inr ⟨rfl, List.mem_cons_of_mem k hk'⟩

@[simp] theorem record_pending : (s.record t wr).pending t = s.pending t ++ [wr] := by
  simp [record]

theorem record_pending_ne (hne : t' ≠ t) : (s.record t wr).pending t' = s.pending t' := by
  simp [record, hne]

@[simp] theorem record_owner : (s.record t wr).owner = s.owner := rfl

@[simp] theorem record_committed : (s.record t wr).committed = s.committed := rfl

/-- A write happened: its rows are locked and the write is pending. -/
theorem write_eq_some (h : s.write S t wr = some s') :
    ∃ mid, Locks t (S.rowsOf wr) s mid ∧ s' = mid.record t wr := by
  obtain ⟨mid, hmid, rfl⟩ := Option.map_eq_some_iff.mp h
  exact ⟨mid, lockAll_eq_some hmid, rfl⟩

/-- Rows that no other transaction has locked can be locked. -/
theorem lockAll_isSome {ks : List Key}
    (hfree : ∀ k ∈ ks, s.owner k = none ∨ s.owner k = some t) : (s.lockAll t ks).isSome := by
  induction ks generalizing s with
  | nil => rfl
  | cons k ks ih =>
      have hk := hfree k List.mem_cons_self
      simp only [lockAll, lock, if_pos hk, Option.bind_some]
      refine ih fun k' hk' => ?_
      by_cases heq : k' = k
      · exact .inr (by simp [heq])
      · simpa [heq] using hfree k' (List.mem_cons_of_mem k hk')

theorem write_isSome (wr : Write)
    (hfree : ∀ k ∈ S.rowsOf wr, s.owner k = none ∨ s.owner k = some t) :
    (s.write S t wr).isSome := by
  rw [write, Option.isSome_map]
  exact lockAll_isSome hfree

/-- A transaction sees its own writes. -/
theorem view_write (h : s.write S t wr = some s') : s'.view S t = S.apply wr (s.view S t) := by
  obtain ⟨mid, hlocks, rfl⟩ := write_eq_some h
  simp [view, hlocks.pending, hlocks.committed]

/-- A write takes no row from another transaction's reach but those it needs. -/
theorem owner_write (h : s.write S t wr = some s')
    (hfree : s.owner k = none ∨ s.owner k = some t) :
    s'.owner k = none ∨ s'.owner k = some t := by
  obtain ⟨mid, hlocks, rfl⟩ := write_eq_some h
  cases howner : mid.owner k with
  | none => exact .inl howner
  | some t' =>
      rcases hlocks.only k t' howner with hbefore | ⟨rfl, -⟩
      · rw [hbefore] at hfree
        simpa [howner] using hfree
      · exact .inr howner

theorem committed_write (h : s.write S t wr = some s') : s'.committed = s.committed := by
  obtain ⟨mid, hlocks, rfl⟩ := write_eq_some h
  exact hlocks.committed

theorem release_of_ne (howner : s.owner k = some t') (hne : t' ≠ t) :
    s.release t k = some t' := by
  simp [release, howner, hne]

end Store

variable [DecidableEq Key] [DecidableEq Txn] {S : Schema Db Write Key}

/-- What one statement of transaction `t` can do to the store. -/
inductive Change (S : Schema Db Write Key) (t : Txn) (s : Store Db Write Key Txn) :
    Store Db Write Key Txn → Prop
  | stay : Change S t s s
  | lock {s' : Store Db Write Key Txn} {k : Key} : s.lock t k = some s' → Change S t s s'
  | write {s' : Store Db Write Key Txn} {wr : Write} : s.write S t wr = some s' → Change S t s s'
  | commit : Change S t s (s.commit S t)
  | rollback : Change S t s (s.rollback t)

namespace Change

variable {s s' : Store Db Write Key Txn} {t t' : Txn} {k : Key}

theorem pending_ne (h : Change S t s s') (hne : t' ≠ t) : s'.pending t' = s.pending t' := by
  cases h with
  | stay => rfl
  | lock h => rw [(Store.lock_eq_some h).pending]
  | write h =>
      obtain ⟨mid, hlocks, rfl⟩ := Store.write_eq_some h
      rw [Store.record_pending_ne hne, hlocks.pending]
  | commit => simp [Store.commit, hne]
  | rollback => simp [Store.rollback, hne]

theorem keeps_owner (h : Change S t s s') (hne : t' ≠ t) (howner : s.owner k = some t') :
    s'.owner k = some t' := by
  cases h with
  | stay => exact howner
  | lock h => exact (Store.lock_eq_some h).keeps k t' howner
  | write h =>
      obtain ⟨mid, hlocks, rfl⟩ := Store.write_eq_some h
      exact hlocks.keeps k t' howner
  | commit => exact Store.release_of_ne howner hne
  | rollback => exact Store.release_of_ne howner hne

/-- A transaction's statement moves no lock to or from another transaction. -/
theorem owner_ne (h : Change S t s s') (hne : t' ≠ t) :
    s'.owner k = some t' ↔ s.owner k = some t' := by
  refine ⟨fun howner => ?_, h.keeps_owner hne⟩
  cases h with
  | stay => exact howner
  | lock h => exact ((Store.lock_eq_some h).only k t' howner).resolve_right fun h => hne h.1
  | write h =>
      obtain ⟨mid, hlocks, rfl⟩ := Store.write_eq_some h
      exact (hlocks.only k t' howner).resolve_right fun h => hne h.1
  | commit =>
      simp only [Store.commit, Store.release] at howner
      split at howner
      · simp at howner
      · exact howner
  | rollback =>
      simp only [Store.rollback, Store.release] at howner
      split at howner
      · simp at howner
      · exact howner

theorem guarded (hguard : s.Guarded S) (h : Change S t s s') : s'.Guarded S := by
  have hlocks : ∀ {ks : List Key} {mid : Store Db Write Key Txn}, Store.Locks t ks s mid →
      mid.Guarded S := by
    intro ks mid hlocks t₁ wr₁ k₁ hwr hrow
    exact hlocks.keeps k₁ t₁ (hguard t₁ wr₁ k₁ (hlocks.pending ▸ hwr) hrow)
  have hended : ∀ t₁ wr₁ k₁, wr₁ ∈ Function.update s.pending t [] t₁ → k₁ ∈ S.rowsOf wr₁ →
      s.release t k₁ = some t₁ := by
    intro t₁ wr₁ k₁ hwr hrow
    by_cases ht : t₁ = t
    · subst ht
      simp at hwr
    · rw [Function.update_of_ne ht] at hwr
      exact Store.release_of_ne (hguard t₁ wr₁ k₁ hwr hrow) ht
  cases h with
  | stay => exact hguard
  | lock h => exact hlocks (Store.lock_eq_some h)
  | @write s' wr h =>
      obtain ⟨mid, hmid, rfl⟩ := Store.write_eq_some h
      intro t₁ wr₁ k₁ hwr hrow
      rw [Store.record_owner]
      by_cases ht : t₁ = t
      · subst ht
        rw [Store.record_pending, List.mem_append, List.mem_singleton] at hwr
        rcases hwr with hwr | rfl
        · exact hlocks hmid t₁ wr₁ k₁ hwr hrow
        · exact hmid.taken k₁ hrow
      · rw [Store.record_pending_ne ht] at hwr
        exact hlocks hmid t₁ wr₁ k₁ hwr hrow
  | commit => exact hended
  | rollback => exact hended

/-- Only a commit changes what is committed. -/
theorem committed_eq (h : Change S t s s') :
    s'.committed = s.committed ∨ s' = s.commit S t := by
  cases h with
  | stay => exact .inl rfl
  | lock h => exact .inl (Store.lock_eq_some h).committed
  | write h =>
      obtain ⟨mid, hlocks, rfl⟩ := Store.write_eq_some h
      exact .inl hlocks.committed
  | commit => exact .inr rfl
  | rollback => exact .inl rfl

end Change

/-- A part of the tables that only the writes on one row change, and that such a write changes
without a look at the rest. -/
structure Aspect (S : Schema Db Write Key) (k : Key) (A : Type) where
  read : Db → A
  frame : ∀ wr db, k ∉ S.rowsOf wr → read (S.apply wr db) = read db
  congr : ∀ wr db db', read db = read db' → read (S.apply wr db) = read (S.apply wr db')

namespace Aspect

variable {A : Type} {k : Key} (a : Aspect S k A) {s s' : Store Db Write Key Txn} {t t' : Txn}

theorem applyAll_congr (ws : List Write) {db db' : Db} (h : a.read db = a.read db') :
    a.read (applyAll S ws db) = a.read (applyAll S ws db') := by
  induction ws generalizing db db' with
  | nil => exact h
  | cons wr ws ih => exact ih (a.congr wr db db' h)

/-- A transaction that has not locked the row sees what is committed. -/
theorem view_eq_committed (hguard : s.Guarded S) (howner : s.owner k ≠ some t) :
    a.read (s.view S t) = a.read s.committed :=
  applyAll_frame (fun wr hwr db => a.frame wr db fun hrow => howner (hguard t wr k hwr hrow))
    s.committed

/-- A row that another transaction has locked keeps its committed content. -/
theorem committed_keeps (hguard : s.Guarded S) (h : Change S t s s')
    (howner : s.owner k = some t') (hne : t' ≠ t) : a.read s'.committed = a.read s.committed := by
  rcases h.committed_eq with heq | rfl
  · rw [heq]
  · refine a.view_eq_committed hguard fun howner' => hne ?_
    exact Option.some.inj (howner.symm.trans howner')

end Aspect

end ChangeQuality.ReadCommitted
