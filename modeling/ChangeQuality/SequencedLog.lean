import Mathlib.Data.List.Range
import Mathlib.Data.List.Sort

/-!
Logs whose entries carry sequence numbers, and readers that page through them with a cursor while
the logs grow at their end.
-/

namespace ChangeQuality.SequencedLog

variable {α : Type} (seq : α → Nat)

/-- The entries of a log are numbered from one on, in the order of the log. -/
def Numbered (log : List α) : Prop :=
  log.map seq = List.range' 1 log.length

instance (log : List α) : Decidable (Numbered seq log) :=
  inferInstanceAs (Decidable (_ = _))

/-- `coalesce(max(sequence), 0)`. -/
def latest (log : List α) : Nat :=
  (log.map seq).foldl max 0

/-- The entries after a cursor in the order of their sequence, at most `limit` of them. -/
def pageAfter (log : List α) (cursor limit : Nat) : List α :=
  ((log.filter fun e => cursor < seq e).insertionSort fun a b => seq a ≤ seq b).take limit

/-- A reader that pages through a log; its cursor is the greatest sequence that it has seen. -/
structure Reader (α : Type) where
  cursor : Nat
  seen : List α

/-- A reader that has seen nothing. -/
def Reader.start : Reader α :=
  { cursor := 0, seen := [] }

/-- Read the next page. -/
def Reader.page (reader : Reader α) (log : List α) (limit : Nat) : Reader α :=
  let entries := pageAfter seq log reader.cursor limit
  { cursor := (entries.map seq).foldl max reader.cursor, seen := reader.seen ++ entries }

/-- Read page after page of a log that stays as it is. -/
def Reader.pages (reader : Reader α) (log : List α) (limits : List Nat) : Reader α :=
  limits.foldl (fun reader limit => reader.page seq log limit) reader

/-- The first entry after a cursor. -/
def nextAfter (log : List α) (cursor : Nat) : Option α :=
  log.find? fun e => cursor < seq e

/-- The entries after one sequence and up to another. -/
def between (log : List α) (after cursor : Nat) : List α :=
  log.filter fun e => after < seq e ∧ seq e ≤ cursor

/-- Runs of a system in which a reader pages through one of its logs. -/
inductive Paging {σ : Type} (step : σ → σ → Prop) (log : σ → List α) (s : σ) :
    σ → Reader α → Prop
  | start : Paging step log s s .start
  | step {s₁ s₂ : σ} {reader : Reader α} :
      Paging step log s s₁ reader → step s₁ s₂ → Paging step log s s₂ reader
  | page {s₁ : σ} {reader : Reader α} (limit : Nat) :
      Paging step log s s₁ reader → Paging step log s s₁ (reader.page seq (log s₁) limit)

/-- The reader has seen the entries up to its cursor, each of them once, and the pages to come hold
the others. -/
structure SeesAll (log : List α) (reader : Reader α) : Prop where
  seen : reader.seen = log.filter fun e => seq e ≤ reader.cursor
  rest : ∀ limits : List Nat, log.length ≤ reader.cursor + limits.foldr (· + ·) 0 →
    (reader.pages seq log limits).seen = log

/-- Strictly increasing, and all greater than `after`. -/
def Ascending (after : Nat) (sequences : List Nat) : Prop :=
  sequences.Pairwise (· < ·) ∧ ∀ s ∈ sequences, after < s

variable {seq} {log : List α} {e : α}

theorem le_foldl_max (l : List Nat) (a : Nat) : a ≤ l.foldl max a := by
  induction l generalizing a with
  | nil => exact le_rfl
  | cons b l ih => exact (le_max_left a b).trans (ih _)

theorem foldl_max_lt {l : List Nat} {a b : Nat} :
    l.foldl max a < b ↔ a < b ∧ ∀ s ∈ l, s < b := by
  induction l generalizing a with
  | nil => simp
  | cons c l ih => simp [ih, and_assoc]

theorem ascending_concat {after s : Nat} {l : List Nat} :
    Ascending after (l ++ [s]) ↔ Ascending after l ∧ l.foldl max after < s := by
  simp only [Ascending, List.pairwise_append, List.mem_append, List.mem_singleton,
    List.pairwise_singleton, foldl_max_lt]
  constructor
  · rintro ⟨⟨hpairwise, -, hlt⟩, hafter⟩
    exact ⟨⟨hpairwise, fun s hs => hafter s (.inl hs)⟩, hafter _ (.inr rfl),
      fun s hs => hlt s hs _ rfl⟩
  · rintro ⟨⟨hpairwise, hafter⟩, hlast, hlt⟩
    refine ⟨⟨hpairwise, trivial, ?_⟩, ?_⟩
    · rintro s hs _ rfl
      exact hlt s hs
    · rintro s (hs | rfl)
      · exact hafter s hs
      · exact hlast

theorem foldl_max_range' (start count init : Nat) (hinit : init < start) :
    (List.range' start count).foldl max init = if count = 0 then init else start + count - 1 := by
  induction count generalizing start init with
  | zero => simp
  | succ count ih =>
      rw [List.range'_succ, List.foldl_cons, Nat.max_eq_right hinit.le, ih (start + 1) start (by omega)]
      split <;> simp_all

theorem latest_concat : latest seq (log ++ [e]) = max (latest seq log) (seq e) := by
  simp [latest]

theorem le_latest (h : e ∈ log) : seq e ≤ latest seq log := by
  have hlt := (foldl_max_lt (l := log.map seq) (a := 0) (b := latest seq log + 1)).mp
    (Nat.lt_succ_self _)
  exact Nat.le_of_lt_succ (hlt.2 _ (List.mem_map_of_mem h))

section Between

variable {after cursor : Nat}

theorem mem_between : e ∈ between seq log after cursor ↔
    e ∈ log ∧ after < seq e ∧ seq e ≤ cursor := by
  simp [between]

theorem between_self : between seq log after after = [] := by
  refine List.filter_eq_nil_iff.mpr fun e _ => ?_
  simp only [decide_eq_true_eq, not_and]
  omega

theorem between_append {log' : List α} : between seq (log ++ log') after cursor =
    between seq log after cursor ++ between seq log' after cursor :=
  List.filter_append ..

theorem between_eq_nil (h : ∀ e ∈ log, cursor < seq e) : between seq log after cursor = [] := by
  refine List.filter_eq_nil_iff.mpr fun e he => ?_
  have hlt := h e he
  simp only [decide_eq_true_eq, not_and]
  omega

/-- What comes before and after the next entry. -/
theorem nextAfter_split (hascending : Ascending 0 (log.map seq))
    (h : nextAfter seq log cursor = some e) :
    cursor < seq e ∧ ∃ earlier later, log = earlier ++ e :: later ∧
      (∀ e' ∈ earlier, seq e' ≤ cursor) ∧ ∀ e' ∈ later, seq e < seq e' := by
  obtain ⟨he, earlier, later, rfl, hearlier⟩ := List.find?_eq_some_iff_append.mp h
  refine ⟨by simpa using he, earlier, later, rfl, fun e' he' => by simpa using hearlier e' he', ?_⟩
  intro e' he'
  have hpairwise := hascending.1
  rw [List.map_append, List.map_cons, List.pairwise_append] at hpairwise
  exact (List.pairwise_cons.mp hpairwise.2.1).1 _ (List.mem_map_of_mem he')

/-- Behind the next entry is what was behind it before. -/
theorem filter_after_next (hascending : Ascending 0 (log.map seq))
    (h : nextAfter seq log cursor = some e) :
    (log.filter fun e' => cursor < seq e') = e :: log.filter fun e' => seq e < seq e' := by
  obtain ⟨hlt, earlier, later, rfl, hearlier, hlater⟩ := nextAfter_split hascending h
  have hnone {bound : Nat} (hbound : cursor ≤ bound) :
      (earlier.filter fun e' => bound < seq e') = [] := by
    refine List.filter_eq_nil_iff.mpr fun e' he' => ?_
    simpa using (hearlier e' he').trans hbound
  have hall {bound : Nat} (hbound : bound ≤ seq e) :
      (later.filter fun e' => bound < seq e') = later :=
    List.filter_eq_self.mpr fun e' he' => decide_eq_true (hbound.trans_lt (hlater e' he'))
  rw [List.filter_append, List.filter_append, hnone (Nat.le_refl _), hnone hlt.le,
    List.filter_cons_of_pos (by simpa using hlt), List.filter_cons_of_neg (by simp), hall hlt.le,
    hall (Nat.le_refl _)]
  rfl

theorem between_next (hascending : Ascending 0 (log.map seq)) (hafter : after ≤ cursor)
    (h : nextAfter seq log cursor = some e) :
    between seq log after (seq e) = between seq log after cursor ++ [e] := by
  obtain ⟨hlt, earlier, later, rfl, hearlier, hlater⟩ := nextAfter_split hascending h
  have hfront : between seq earlier after (seq e) = between seq earlier after cursor := by
    refine List.filter_congr fun e' he' => ?_
    have hle := hearlier e' he'
    rw [decide_eq_decide]
    omega
  have hhere : between seq (e :: later) after (seq e) = [e] := by
    rw [← List.singleton_append, between_append, between_eq_nil hlater, List.append_nil]
    exact List.filter_eq_self.mpr (by simp; omega)
  have hbehind : between seq (e :: later) after cursor = [] := by
    refine between_eq_nil fun e' he' => ?_
    rcases List.mem_cons.mp he' with rfl | hrest
    · exact hlt
    · exact hlt.trans (hlater e' hrest)
  rw [between_append, between_append, hfront, hhere, hbehind, List.append_nil]

/-- An entry that continues what is between is the next one. -/
theorem nextAfter_of_between (hascending : Ascending 0 (log.map seq)) (hafter : after ≤ cursor)
    (he : e ∈ log) (h : between seq log after (max cursor (seq e)) =
      between seq log after cursor ++ [e]) : nextAfter seq log cursor = some e := by
  rcases Nat.lt_or_ge cursor (seq e) with hlt | hge
  · rw [Nat.max_eq_right hlt.le] at h
    cases hnext : nextAfter seq log cursor with
    | none =>
        have hnone := List.find?_eq_none.mp hnext e he
        exact absurd hlt (by simpa using hnone)
    | some next =>
        obtain ⟨hnextlt, earlier, later, rfl, hearlier, hlater⟩ :=
          nextAfter_split hascending hnext
        have hle : seq next ≤ seq e := by
          rcases List.mem_append.mp he with hold | hrest
          · have := hearlier e hold
            omega
          · rcases List.mem_cons.mp hrest with rfl | hlate
            · exact le_rfl
            · exact (hlater e hlate).le
        have hmem : next ∈ between seq (earlier ++ next :: later) after (seq e) :=
          mem_between.mpr ⟨by simp, by omega, hle⟩
        rw [h, List.mem_append, List.mem_singleton, mem_between] at hmem
        rcases hmem with ⟨-, -, hbehind⟩ | rfl
        · omega
        · rfl
  · rw [Nat.max_eq_left hge] at h
    have hlength := congrArg List.length h
    simp at hlength

end Between

namespace Numbered

theorem latest_eq (h : Numbered seq log) : latest seq log = log.length := by
  rw [latest, h, foldl_max_range' 1 _ 0 (by omega)]
  split <;> omega

theorem nil : Numbered seq [] := rfl

theorem push (h : Numbered seq log) (he : seq e = log.length + 1) : Numbered seq (log ++ [e]) := by
  simp only [Numbered, List.map_append, List.length_append, List.map_cons, List.map_nil,
    List.length_singleton, List.range'_concat, he, Nat.one_mul]
  rw [h, Nat.add_comm 1]

theorem take (h : Numbered seq log) (n : Nat) : Numbered seq (log.take n) := by
  rw [Numbered, List.map_take, h, List.length_take]
  rcases Nat.le_total n log.length with hle | hge
  · rw [Nat.min_eq_left hle, List.take_range'_of_length_ge hle]
  · rw [Nat.min_eq_right hge, List.take_range'_of_length_le hge]

theorem getElem (h : Numbered seq log) {i : Nat} (hi : i < log.length) : seq log[i] = i + 1 := by
  have hmap : (log.map seq)[i]? = (List.range' 1 log.length)[i]? := congrArg (·[i]?) h
  simpa [hi, List.getElem?_range', Nat.add_comm] using hmap

/-- An entry stands at the place that its sequence tells. -/
theorem mem_iff (h : Numbered seq log) : e ∈ log ↔ 0 < seq e ∧ log[seq e - 1]? = some e := by
  constructor
  · intro hmem
    obtain ⟨i, hi, rfl⟩ := List.getElem_of_mem hmem
    simp [h.getElem hi, hi]
  · rintro ⟨-, hget⟩
    exact List.mem_of_getElem? hget

theorem mem_bounds (h : Numbered seq log) (hmem : e ∈ log) : 0 < seq e ∧ seq e ≤ log.length := by
  obtain ⟨i, hi, rfl⟩ := List.getElem_of_mem hmem
  rw [h.getElem hi]
  omega

theorem mem_drop (h : Numbered seq log) {n : Nat} : e ∈ log.drop n ↔ e ∈ log ∧ n < seq e := by
  constructor
  · intro hmem
    obtain ⟨i, hi, rfl⟩ := List.getElem_of_mem hmem
    rw [List.length_drop] at hi
    rw [List.getElem_drop, h.getElem (by omega)]
    exact ⟨List.getElem_mem _, by omega⟩
  · rintro ⟨hmem, hlt⟩
    obtain ⟨i, hi, rfl⟩ := List.getElem_of_mem hmem
    rw [h.getElem hi] at hlt
    exact List.mem_drop_iff_getElem.mpr ⟨i - n, by omega, by simp [show n + (i - n) = i by omega]⟩

theorem mem_take (h : Numbered seq log) {n : Nat} : e ∈ log.take n ↔ e ∈ log ∧ seq e ≤ n := by
  constructor
  · intro hmem
    obtain ⟨i, hi, rfl⟩ := List.getElem_of_mem hmem
    rw [List.length_take] at hi
    rw [List.getElem_take, h.getElem (by omega)]
    exact ⟨List.getElem_mem _, by omega⟩
  · rintro ⟨hmem, hle⟩
    obtain ⟨i, hi, rfl⟩ := List.getElem_of_mem hmem
    rw [h.getElem hi] at hle
    exact List.mem_take_iff_getElem.mpr ⟨i, by omega, rfl⟩

theorem pairwise (h : Numbered seq log) : log.Pairwise fun a b => seq a < seq b := by
  have hrange : (log.map seq).Pairwise (· < ·) := h ▸ List.pairwise_lt_range'
  exact List.pairwise_map.mp hrange

theorem filter_eq_drop (h : Numbered seq log) (cursor : Nat) :
    (log.filter fun e => cursor < seq e) = log.drop cursor := by
  have htake : (log.take cursor).filter (fun e => cursor < seq e) = [] := by
    refine List.filter_eq_nil_iff.mpr fun e he => ?_
    have := (h.mem_take.mp he).2
    simpa using this
  have hdrop : (log.drop cursor).filter (fun e => cursor < seq e) = log.drop cursor :=
    List.filter_eq_self.mpr fun e he => by simpa using (h.mem_drop.mp he).2
  conv_lhs => rw [← List.take_append_drop cursor log]
  rw [List.filter_append, htake, hdrop, List.nil_append]

/-- A page is what stands behind the cursor in the log. -/
theorem pageAfter_eq (h : Numbered seq log) (cursor limit : Nat) :
    pageAfter seq log cursor limit = (log.drop cursor).take limit := by
  rw [pageAfter, h.filter_eq_drop]
  congr 1
  refine List.Pairwise.insertionSort_eq ?_
  exact (h.pairwise.sublist (List.drop_sublist _ _)).imp fun h => h.le

/-- The first entry behind a cursor is the next one. -/
theorem next (h : Numbered seq log) {cursor : Nat} {rest : List α}
    (hpage : e :: rest <+: log.drop cursor) :
    e ∈ log ∧ seq e = cursor + 1 ∧ cursor + 1 ≤ log.length ∧ rest <+: log.drop (cursor + 1) := by
  obtain ⟨suffix, hsuffix⟩ := hpage
  have hlt : cursor < log.length := by
    by_contra hge
    simp [List.drop_eq_nil_of_le (not_lt.mp hge)] at hsuffix
  rw [List.drop_eq_getElem_cons hlt, List.cons_append] at hsuffix
  obtain ⟨rfl, hrest⟩ := List.cons.inj hsuffix
  exact ⟨List.getElem_mem hlt, h.getElem hlt, hlt, suffix, hrest⟩

theorem filter_eq_take (h : Numbered seq log) (cursor : Nat) :
    (log.filter fun e => seq e ≤ cursor) = log.take cursor := by
  have htake : (log.take cursor).filter (fun e => seq e ≤ cursor) = log.take cursor :=
    List.filter_eq_self.mpr fun e he => by simpa using (h.mem_take.mp he).2
  have hdrop : (log.drop cursor).filter (fun e => seq e ≤ cursor) = [] := by
    refine List.filter_eq_nil_iff.mpr fun e he => ?_
    have := (h.mem_drop.mp he).2
    simpa using this
  conv_lhs => rw [← List.take_append_drop cursor log]
  rw [List.filter_append, htake, hdrop, List.append_nil]

theorem map_drop (h : Numbered seq log) (cursor : Nat) :
    (log.drop cursor).map seq = List.range' (cursor + 1) (log.length - cursor) := by
  rw [List.map_drop, h, List.drop_range', Nat.mul_one, Nat.add_comm]

end Numbered

/-- The reader has seen the first entries of the log, as many as its cursor tells. -/
structure UpTo (log : List α) (reader : Reader α) : Prop where
  seen : reader.seen = log.take reader.cursor
  bound : reader.cursor ≤ log.length

namespace UpTo

variable {reader : Reader α}

theorem start (log : List α) : UpTo log .start :=
  ⟨rfl, Nat.zero_le _⟩

/-- What is appended to the log lies behind the cursor. -/
theorem grow {log' : List α} (h : UpTo log reader) (hgrown : log <+: log') : UpTo log' reader := by
  obtain ⟨suffix, rfl⟩ := hgrown
  refine ⟨?_, h.bound.trans (by simp)⟩
  rw [h.seen, List.take_append_of_le_length h.bound]

/-- A page moves the cursor on by as many entries as it holds. -/
theorem cursor_page (h : UpTo log reader) (hnumbered : Numbered seq log) (limit : Nat) :
    (reader.page seq log limit).cursor = min (reader.cursor + limit) log.length := by
  have hbound := h.bound
  simp only [Reader.page, hnumbered.pageAfter_eq, List.map_take, hnumbered.map_drop]
  rcases Nat.le_total limit (log.length - reader.cursor) with hle | hge
  · rw [List.take_range'_of_length_ge hle, foldl_max_range' _ _ _ (by omega)]
    split <;> omega
  · rw [List.take_range'_of_length_le hge, foldl_max_range' _ _ _ (by omega)]
    split <;> omega

theorem page (h : UpTo log reader) (hnumbered : Numbered seq log) (limit : Nat) :
    UpTo log (reader.page seq log limit) := by
  refine ⟨?_, ?_⟩
  · rw [h.cursor_page hnumbered]
    simp only [Reader.page, hnumbered.pageAfter_eq, h.seen, ← List.take_add]
    rw [← List.take_eq_take_min]
  · rw [h.cursor_page hnumbered]
    omega

theorem pages (h : UpTo log reader) (hnumbered : Numbered seq log) (limits : List Nat) :
    UpTo log (reader.pages seq log limits) ∧
      (reader.pages seq log limits).cursor = min (reader.cursor + limits.foldr (· + ·) 0) log.length := by
  induction limits generalizing reader with
  | nil =>
      have hbound := h.bound
      refine ⟨h, ?_⟩
      simp only [Reader.pages, List.foldl_nil, List.foldr_nil]
      omega
  | cons limit limits ih =>
      obtain ⟨hupTo, hcursor⟩ := ih (h.page hnumbered limit)
      refine ⟨hupTo, hcursor.trans ?_⟩
      rw [h.cursor_page hnumbered, List.foldr_cons]
      omega

theorem seesAll (h : UpTo log reader) (hnumbered : Numbered seq log) : SeesAll seq log reader := by
  refine ⟨h.seen.trans (hnumbered.filter_eq_take _).symm, fun limits hlimits => ?_⟩
  obtain ⟨hupTo, hcursor⟩ := h.pages hnumbered limits
  rw [hupTo.seen, hcursor, Nat.min_eq_right hlimits, List.take_length]

end UpTo

/-- In runs along which a log grows at its end and stays numbered, a reader loses nothing. -/
theorem Paging.upTo {σ : Type} {step : σ → σ → Prop} {entries : σ → List α} {s s' : σ}
    {reader : Reader α} {I : σ → Prop} (hs : I s) (hkeep : ∀ s₁ s₂, I s₁ → step s₁ s₂ → I s₂)
    (hnumbered : ∀ s₁, I s₁ → Numbered seq (entries s₁))
    (hgrown : ∀ s₁ s₂, I s₁ → step s₁ s₂ → entries s₁ <+: entries s₂)
    (hrun : Paging seq step entries s s' reader) : I s' ∧ UpTo (entries s') reader := by
  induction hrun with
  | start => exact ⟨hs, .start _⟩
  | step _ hstep ih => exact ⟨hkeep _ _ ih.1 hstep, ih.2.grow (hgrown _ _ ih.1 hstep)⟩
  | page limit _ ih => exact ⟨ih.1, ih.2.page (hnumbered _ ih.1) limit⟩

end ChangeQuality.SequencedLog
