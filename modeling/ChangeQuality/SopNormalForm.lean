import ChangeQuality.JsonEncoding
import ChangeQuality.SopSummaries

/-!
A normalized review is a normal form: normalizing it changes nothing, and it is found again in any
answer that it is written into.
-/

namespace ChangeQuality.SopNormalForm

open ChangeQuality.Texts
open ChangeQuality.JsonDecoding
open ChangeQuality.JsonEncoding
open ChangeQuality.SopReview
open ChangeQuality.SopSummaries

variable {limits : Limits} {floatRepr : Text → Text}

def verdictText : SopQualityResultValue → Text
  | .pass => ofString "pass"
  | .warn => ofString "warn"
  | .fail => ofString "fail"

/-- The dictionary that a finding is. -/
def findingValue (finding : SopQualityFinding) : Value :=
  .obj [(ofString "severity", .str finding.severity.text), (ofString "title", .str finding.title),
    (ofString "recommendation", .str finding.recommendation)]

/-- The dictionary that a result is; a missing key is no entry. -/
def entries (result : SopQualityReviewResult) : List (Text × Value) :=
  (result.qualityResult.map fun verdict =>
      (ofString "quality_result", Value.str (verdictText verdict))).toList ++
    (result.summary.map fun summary => (ofString "summary", Value.str summary)).toList ++
    (result.findings.map fun findings =>
      (ofString "findings", Value.arr (findings.map findingValue))).toList ++
    (result.reportMarkdown.map fun report => (ofString "report_markdown", Value.str report)).toList ++
    (result.reviewOutput.map fun output => (ofString "review_output", Value.str output)).toList

/-- A text without white space around it that is not empty. -/
structure Neat (text : Text) : Prop where
  trimmed : strip text = text
  shows : ¬IsBlank text

structure NormalFinding (finding : SopQualityFinding) : Prop where
  title : Neat finding.title
  recommendation : Neat finding.recommendation

/-- A result that normalization does not change. -/
inductive Normal : SopQualityReviewResult → Prop where
  | mk {verdict : SopQualityResultValue} {summary report : Text}
      {findings : List SopQualityFinding} (hsummary : Neat summary)
      (hfindings : ∀ finding ∈ findings, NormalFinding finding) (hreport : ¬IsBlank report) :
      Normal
        { qualityResult := some verdict
          summary := some summary
          findings := some findings
          reportMarkdown := some report }

theorem neat_strip {text : Text} (h : ¬IsBlank text) : Neat (strip text) :=
  ⟨strip_strip text, fun hblank => h (isBlank_strip.mp hblank)⟩

theorem normalizeFinding_normal {item : Value} {finding : SopQualityFinding}
    (h : normalizeFinding item = .ok finding) : NormalFinding finding := by
  unfold normalizeFinding at h
  split at h
  · obtain ⟨severity, _, h⟩ := bind_ok h
    split at h
    · cases h
    next title htitle =>
      split at h
      · cases h
      next recommendation hrecommendation =>
        cases h
        exact ⟨neat_strip (nonBlank_some htitle).2, neat_strip (nonBlank_some hrecommendation).2⟩
  · cases h

theorem mapM_all {α β ε : Type} {f : α → Except ε β} {P : β → Prop} {xs : List α} {ys : List β}
    (hf : ∀ x y, f x = .ok y → P y) (h : xs.mapM f = .ok ys) : ∀ y ∈ ys, P y := by
  induction xs generalizing ys with
  | nil =>
      cases h
      simp
  | cons x xs ih =>
      rw [List.mapM_cons] at h
      obtain ⟨y, hy, h⟩ := bind_ok h
      obtain ⟨zs, hzs, h⟩ := bind_ok h
      cases h
      intro z hz
      rcases List.mem_cons.mp hz with rfl | hz
      · exact hf x z hy
      · exact ih hzs z hz

theorem mapM_map {α β ε : Type} {f : α → Except ε β} {g : β → α} {ys : List β}
    (h : ∀ y ∈ ys, f (g y) = .ok y) : (ys.map g).mapM f = .ok ys := by
  induction ys with
  | nil => rfl
  | cons y ys ih =>
      rw [List.map_cons, List.mapM_cons, h y List.mem_cons_self,
        ih fun z hz => h z (List.mem_cons_of_mem _ hz)]
      rfl

theorem normalizeResult_normal {parsed : List (Text × Value)} {result : SopQualityReviewResult}
    (h : normalizeResult parsed = .ok result) : Normal result := by
  obtain ⟨verdict, _, h⟩ := bind_ok h
  split at h
  · cases h
  next summary hsummary =>
    obtain ⟨items, _, h⟩ := bind_ok h
    obtain ⟨findings, hfindings, h⟩ := bind_ok h
    cases h
    refine .mk (neat_strip (nonBlank_some hsummary).2)
      (mapM_all (fun _ _ => normalizeFinding_normal) hfindings) ?_
    split
    next report hreport => exact (nonBlank_some hreport).2
    · exact fallbackReport_shows summary findings

theorem nonBlank_of_shows {text : Text} (h : ¬IsBlank text) :
    nonBlank (some (.str text)) = some text :=
  if_neg fun hstrip => h (strip_eq_nil.mp hstrip)

theorem normalizeQualityResult_text (verdict : SopQualityResultValue) :
    normalizeQualityResult (some (.str (verdictText verdict))) = .ok verdict := by
  have hwarn : ofString "warn" ≠ ofString "pass" := by decide
  have hfail : ofString "fail" ≠ ofString "pass" := by decide
  have hfail' : ofString "fail" ≠ ofString "warn" := by decide
  cases verdict with
  | pass => simp only [verdictText, normalizeQualityResult, if_true]
  | warn => simp only [verdictText, normalizeQualityResult, hwarn, if_false, if_true]
  | fail => simp only [verdictText, normalizeQualityResult, hfail, hfail', if_false, if_true]

/-- Each severity is an alias of itself. -/
theorem normalizeSeverity_text (severity : SopQualityFindingSeverity) :
    normalizeSeverity (some (.str severity.text)) = .ok severity := by
  have halias : severityAliases.lookup (lower (strip severity.text)) = some severity := by
    cases severity <;> decide
  simp only [normalizeSeverity, halias]

theorem normalizeFinding_findingValue {finding : SopQualityFinding} (h : NormalFinding finding) :
    normalizeFinding (findingValue finding) = .ok finding := by
  have htitle : (ofString "title" == ofString "severity") = false := by decide
  have hrecommendation : (ofString "recommendation" == ofString "severity") = false := by
    decide
  have hrecommendation' : (ofString "recommendation" == ofString "title") = false := by
    decide
  simp only [findingValue, normalizeFinding, getItem, List.lookup_cons, beq_self_eq_true, htitle,
    hrecommendation, hrecommendation', normalizeSeverity_text,
    nonBlank_of_shows h.title.shows, nonBlank_of_shows h.recommendation.shows, h.title.trimmed,
    h.recommendation.trimmed, bind, Except.bind]
  rfl

/-- Normalization leaves a normal result as it is. -/
theorem normalizeResult_entries {result : SopQualityReviewResult} (h : Normal result) :
    normalizeResult (entries result) = .ok result := by
  obtain @⟨verdict, summary, report, findings, hsummary, hfindings, hreport⟩ := h
  have hitems : (findings.map findingValue).mapM normalizeFinding = .ok findings :=
    mapM_map fun finding hfinding => normalizeFinding_findingValue (hfindings finding hfinding)
  have h₁ : (ofString "summary" == ofString "quality_result") = false := by decide
  have h₂ : (ofString "findings" == ofString "quality_result") = false := by decide
  have h₃ : (ofString "findings" == ofString "summary") = false := by decide
  have h₄ : (ofString "report_markdown" == ofString "quality_result") = false := by decide
  have h₅ : (ofString "report_markdown" == ofString "summary") = false := by decide
  have h₆ : (ofString "report_markdown" == ofString "findings") = false := by decide
  simp only [entries, Option.map_some, Option.map_none, Option.toList_some, Option.toList_none,
    List.cons_append, List.nil_append, List.append_nil, normalizeResult, getItem, List.lookup_cons,
    beq_self_eq_true, h₁, h₂, h₃, h₄, h₅, h₆, normalizeQualityResult_text,
    nonBlank_of_shows hsummary.shows, nonBlank_of_shows hreport, findingItems, hitems,
    hsummary.trimmed, bind, Except.bind]
  rfl

theorem fence_eq : fence = [0x60, 0x60, 0x60] := by decide

/-- A fence does not reach beyond the text before another character. -/
theorem fence_prefix_front {front after : Text} {c : Nat} (hc : c ≠ 0x60)
    (h : fence <+: front ++ c :: after) : fence <+: front := by
  rw [fence_eq] at h ⊢
  rcases front with _ | ⟨x, _ | ⟨y, _ | ⟨z, front⟩⟩⟩
  · simp only [List.nil_append, List.cons_prefix_cons] at h
    exact absurd h.1.symm hc
  · simp only [List.cons_append, List.nil_append, List.cons_prefix_cons] at h
    exact absurd h.2.1.symm hc
  · simp only [List.cons_append, List.nil_append, List.cons_prefix_cons] at h
    exact absurd h.2.2.1.symm hc
  · simpa only [List.cons_append, List.cons_prefix_cons, List.nil_prefix] using h

theorem stripCodeFence_of_not {text : Text} (h : ¬fence <+: text) : stripCodeFence text = text :=
  if_neg fun hstarts => h (List.isPrefixOf_iff_prefix.mp hstarts)

theorem dropWhile_before {c : Nat} (hc : isSpace c = false) (front after : Text) :
    (front ++ c :: after).dropWhile isSpace = front.dropWhile isSpace ++ c :: after := by
  rw [List.dropWhile_append]
  split
  next hempty =>
    rw [List.isEmpty_iff.mp hempty, List.dropWhile_cons_of_neg (by simp [hc])]
    rfl
  · rfl

/-- `strip` leaves an object in the text alone. -/
theorem strip_around (front body back : Text) :
    strip (front ++ (0x7b :: body ++ [0x7d]) ++ back) =
      front.dropWhile isSpace ++ (0x7b :: body ++ [0x7d]) ++
        (back.reverse.dropWhile isSpace).reverse := by
  have hleft : (front ++ (0x7b :: body ++ [0x7d]) ++ back).dropWhile isSpace =
      front.dropWhile isSpace ++ (0x7b :: body ++ [0x7d]) ++ back := by
    have hbrace := dropWhile_before (by decide : isSpace 0x7b = false) front (body ++ [0x7d] ++ back)
    simpa using hbrace
  have hreverse : (front.dropWhile isSpace ++ (0x7b :: body ++ [0x7d]) ++ back).reverse =
      back.reverse ++ 0x7d :: (front.dropWhile isSpace ++ 0x7b :: body).reverse := by
    simp
  unfold strip
  rw [hleft, hreverse, dropWhile_before (by decide)]
  simp

/-- A text that does not open with a fence still does not with the white space behind it. -/
theorem not_fence_dropWhile {front : Text} (h : ¬fence <+: strip front) :
    ¬fence <+: front.dropWhile isSpace := by
  have hcut : front.dropWhile isSpace =
      strip front ++ ((front.dropWhile isSpace).reverse.takeWhile isSpace).reverse := by
    unfold strip
    rw [← List.reverse_append, List.takeWhile_append_dropWhile, List.reverse_reverse]
  intro hfence
  rw [hcut] at hfence
  cases hblank : ((front.dropWhile isSpace).reverse.takeWhile isSpace).reverse with
  | nil =>
      rw [hblank, List.append_nil] at hfence
      exact h hfence
  | cons c blank =>
      have hspace : isSpace c = true := by
        refine List.mem_takeWhile_imp (l := (front.dropWhile isSpace).reverse) ?_
        rw [← List.mem_reverse, hblank]
        exact List.mem_cons_self
      rw [hblank] at hfence
      refine h (fence_prefix_front ?_ hfence)
      rintro rfl
      exact absurd hspace (by decide)

/-- Without a brace in front of it, an object is what the first brace of the answer opens. -/
theorem findFrom_object {front : Text} (hbrace : 0x7b ∉ front) (hfence : ¬fence <+: strip front)
    (body back : Text) :
    ∃ after, findFrom 0x7b (stripCodeFence (strip (front ++ (0x7b :: body ++ [0x7d]) ++ back))) =
      some (0x7b :: body ++ [0x7d] ++ after) := by
  have hopen : ¬fence <+: strip (front ++ (0x7b :: body ++ [0x7d]) ++ back) := by
    intro hstarts
    rw [strip_around, List.append_assoc, List.cons_append, List.cons_append] at hstarts
    exact not_fence_dropWhile hfence (fence_prefix_front (by decide) hstarts)
  have hskip : ∀ c ∈ front.dropWhile isSpace, (c != 0x7b) = true := by
    intro c hc
    have hne : c ≠ 0x7b := by
      rintro rfl
      exact hbrace ((List.dropWhile_suffix isSpace).subset hc)
    simpa using hne
  refine ⟨(back.reverse.dropWhile isSpace).reverse, ?_⟩
  rw [stripCodeFence_of_not hopen, strip_around]
  unfold findFrom
  rw [List.append_assoc, List.dropWhile_append_of_pos hskip]
  rfl

/-- No text of the result has two surrogates that read as a pair. -/
structure Legible (result : SopQualityReviewResult) : Prop where
  summary : ∀ summary, result.summary = some summary → Unpaired summary
  findings : ∀ findings, result.findings = some findings → ∀ finding ∈ findings,
    Unpaired finding.title ∧ Unpaired finding.recommendation
  report : ∀ report, result.reportMarkdown = some report → Unpaired report

theorem unpaired_of_lt {s : Text} (h : ∀ c ∈ s, c < 0xd800) : Unpaired s := by
  refine ⟨fun c hc => Nat.lt_trans (h c hc) (by decide), ?_⟩
  induction s with
  | nil => exact .nil
  | cons c s ih =>
      refine List.isChain_cons.mpr ⟨?_, ih fun d hd => h d (List.mem_cons_of_mem _ hd)⟩
      rintro next _ ⟨hhigh, _⟩
      have hlower := of_decide_eq_true (Bool.and_eq_true_iff.mp hhigh).1
      have hupper := h c List.mem_cons_self
      omega

theorem encodable_finding {depth : Nat} {finding : SopQualityFinding}
    (htitle : Unpaired finding.title) (hrecommendation : Unpaired finding.recommendation) :
    Encodable (depth + 1) (findingValue finding) := by
  have hseverity : Unpaired finding.severity.text := by
    refine unpaired_of_lt ?_
    cases finding.severity <;> decide
  refine .obj ?_ ?_ ?_
  · simp only [List.map_cons, List.map_nil]
    decide
  · have hkeys : ∀ key ∈ [ofString "severity", ofString "title", ofString "recommendation"],
        ∀ c ∈ key, c < 0xd800 := by
      decide
    intro entry hentry
    refine unpaired_of_lt (hkeys entry.1 ?_)
    exact List.mem_map_of_mem (f := Prod.fst) hentry
  · simp only [List.forall_mem_cons]
    exact ⟨.str hseverity, .str htitle, .str hrecommendation, by simp⟩

/-- The decoder reads a legible normal result back. -/
theorem encodable_entries {depth : Nat} {result : SopQualityReviewResult} (h : Normal result)
    (hlegible : Legible result) : Encodable (depth + 3) (.obj (entries result)) := by
  obtain @⟨verdict, summary, report, findings, hsummary, hfindings, hreport⟩ := h
  have hverdict : Unpaired (verdictText verdict) := by
    refine unpaired_of_lt ?_
    cases verdict <;> decide
  have hitems : ∀ value ∈ findings.map findingValue, Encodable (depth + 1) value := by
    intro value hvalue
    obtain ⟨finding, hfinding, rfl⟩ := List.mem_map.mp hvalue
    obtain ⟨htitle, hrecommendation⟩ := hlegible.findings _ rfl finding hfinding
    exact encodable_finding htitle hrecommendation
  refine .obj ?_ ?_ ?_
  · simp only [entries, Option.map_some, Option.map_none, Option.toList_some, Option.toList_none,
      List.cons_append, List.nil_append, List.append_nil, List.map_cons, List.map_nil]
    decide
  · have hkeys : ∀ key ∈ [ofString "quality_result", ofString "summary", ofString "findings",
        ofString "report_markdown"], ∀ c ∈ key, c < 0xd800 := by
      decide
    intro entry hentry
    refine unpaired_of_lt (hkeys entry.1 ?_)
    exact List.mem_map_of_mem (f := Prod.fst) hentry
  · simp only [entries, Option.map_some, Option.map_none, Option.toList_some, Option.toList_none,
      List.cons_append, List.nil_append, List.append_nil, List.forall_mem_cons]
    exact ⟨.str hverdict, .str (hlegible.summary _ rfl), .arr hitems, .str (hlegible.report _ rfl),
      by simp⟩

/-- A normal result is loaded from every answer that its JSON text follows a text without a brace
and a fence in. -/
theorem loadJsonObject_dumps {result : SopQualityReviewResult} {front : Text} (back : Text)
    (hbrace : 0x7b ∉ front) (hfence : ¬fence <+: strip front)
    (hdecode : ∀ after, rawDecode limits (dumps floatRepr (.obj (entries result)) ++ after) =
      .ok (.obj (entries result), after)) :
    loadJsonObject limits (front ++ dumps floatRepr (.obj (entries result)) ++ back) =
      .ok (entries result) := by
  have hdumps : dumps floatRepr (.obj (entries result)) =
      0x7b :: dumpsMembers floatRepr (entries result) ++ [0x7d] := by rw [dumps]
  obtain ⟨after, hfind⟩ :=
    findFrom_object hbrace hfence (dumpsMembers floatRepr (entries result)) back
  rw [hdumps] at hdecode ⊢
  unfold loadJsonObject
  rw [hfind]
  simp only [hdecode after]

/-- Normalization is idempotent, and a normalized review is read from every answer in which its
JSON text follows a text without a brace and a fence. -/
theorem normalized_review_survives (limits : Limits) (floatRepr : Text → Text)
    (parsed : List (Text × Value)) (result : SopQualityReviewResult)
    (h : normalizeResult parsed = .ok result) :
    normalizeResult (entries result) = .ok result ∧
      ∀ front back : Text, 0x7b ∉ front → ¬fence <+: strip front →
        (∀ after, rawDecode limits (dumps floatRepr (.obj (entries result)) ++ after) =
          .ok (.obj (entries result), after)) →
        resultFromReviewOutput limits
          (front ++ dumps floatRepr (.obj (entries result)) ++ back) = .ok result := by
  have hnormal := normalizeResult_entries (normalizeResult_normal h)
  refine ⟨hnormal, fun front back hbrace hfence hdecode => ?_⟩
  have hresult : (loadJsonObject limits
      (front ++ dumps floatRepr (.obj (entries result)) ++ back) >>= normalizeResult) =
        .ok result := by
    rw [loadJsonObject_dumps back hbrace hfence hdecode]
    exact hnormal
  unfold resultFromReviewOutput
  rw [hresult]

/-- A review with one finding. -/
def missingRollback : SopQualityReviewResult :=
  { qualityResult := some .warn
    summary := some (ofString "缺少回滚步骤")
    findings := some [⟨.high, ofString "回滚", ofString "补充回滚步骤"⟩]
    reportMarkdown := some (ofString "## 报告\n") }

theorem normal_missingRollback : Normal missingRollback := by
  refine .mk ⟨by decide, ?_⟩ (fun finding hfinding => ?_) ?_
  · unfold IsBlank
    decide
  · rw [List.mem_singleton.mp hfinding]
    refine ⟨⟨by decide, ?_⟩, ⟨by decide, ?_⟩⟩
    all_goals
      unfold IsBlank
      decide
  · unfold IsBlank
    decide

theorem legible_missingRollback : Legible missingRollback := by
  constructor
  · rintro _ ⟨⟩
    exact unpaired_of_lt (by decide)
  · rintro _ ⟨⟩ finding hfinding
    rw [List.mem_singleton.mp hfinding]
    exact ⟨unpaired_of_lt (by decide), unpaired_of_lt (by decide)⟩
  · rintro _ ⟨⟩
    exact unpaired_of_lt (by decide)

/-- The review is read from the prose around it. -/
theorem missingRollback_survives :
    normalizeResult (entries missingRollback) = .ok missingRollback ∧
      resultFromReviewOutput ⟨1000, 4300⟩ (ofString "评审结果：\n" ++
        dumps id (.obj (entries missingRollback)) ++ ofString "\n以上。") =
          .ok missingRollback := by
  have hresult := normalizeResult_entries normal_missingRollback
  obtain ⟨hnormal, hread⟩ :=
    normalized_review_survives ⟨1000, 4300⟩ id (entries missingRollback) missingRollback hresult
  refine ⟨hnormal, hread _ _ (by decide) (by decide) fun after => ?_⟩
  exact rawDecode_dumps (encodable_entries normal_missingRollback legible_missingRollback) after

end ChangeQuality.SopNormalForm
