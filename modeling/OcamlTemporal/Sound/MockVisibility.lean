import Mathlib
import OcamlTemporal.Lib.Decimal
import OcamlTemporal.Lib.Paging
import OcamlTemporal.Mock.Visibility
import OcamlTemporal.Sound.Utf8
import OcamlTemporal.Sound.MockService

/-!
# OcamlTemporal.Sound.MockVisibility

**Following the tokens lists every run once, exactly if no token on the way is too long.** A token
is read back to the identities it was made of, so that the service is a pager (`Lib.Pager`) of its
sorted history that takes back the tokens that pass the check of names. That check has the same
limit as the one of workflow identifiers, which a token exceeds if its workflow identifier is about
as long as allowed. Only the runs matter that end a page and are followed by another run, since the
service builds no token for the others.
-/

namespace OcamlTemporal.Mock

open OcamlTemporal.Protocol (Bytes text validUtf8)
open OcamlTemporal.Lib (decimal colon)

/-! ## Tokens -/

theorem span_colon {digits rest : Bytes} (h : colon ∉ digits) :
    (digits ++ colon :: rest).span (· ≠ colon) = (digits, colon :: rest) := by
  have hall : ∀ b ∈ digits, decide (b ≠ colon) = true := by
    intro b hb
    rw [decide_eq_true_eq]
    rintro rfl
    exact h hb
  rw [List.span_eq_takeWhile_dropWhile, List.takeWhile_append_of_pos hall,
    List.dropWhile_append_of_pos hall, List.takeWhile_cons_of_neg (by decide),
    List.dropWhile_cons_of_neg (by decide), List.append_nil]

theorem readToken_pageToken (reader : IntReader) {workflowId runId : Bytes} (hw : workflowId ≠ [])
    (hlength : workflowId.length < 2 ^ 62) (hr : runId ≠ []) :
    readToken reader (pageToken workflowId runId) = some (workflowId, runId) := by
  have hwpos := List.length_pos_iff.mpr hw
  have hrpos := List.length_pos_iff.mpr hr
  have hguard : tokenPrefix.isPrefixOf (pageToken workflowId runId) ∧
      (pageToken workflowId runId).length > tokenPrefix.length := by
    refine ⟨?_, ?_⟩
    · rw [List.isPrefixOf_iff_prefix, pageToken, List.append_assoc]
      exact List.prefix_append _ _
    · simp only [pageToken, List.length_append, List.length_cons]
      omega
  have hdrop : (pageToken workflowId runId).drop tokenPrefix.length =
      decimal workflowId.length ++ colon :: (workflowId ++ runId) := by
    rw [pageToken, List.append_assoc, List.drop_left]
  have hbound : 0 < (workflowId.length : Int) ∧
      (workflowId.length : Int) < ((workflowId ++ runId).length : Nat) := by
    rw [List.length_append]
    omega
  unfold readToken
  rw [if_pos hguard, hdrop, span_colon (Lib.colon_notMem_decimal _)]
  simp only [reader.reads _ hlength, if_pos hbound, Int.toNat_natCast, List.take_left,
    List.drop_left]

theorem validateName_eq_ok {value : Bytes} :
    validateName value = .ok () ↔
      value ≠ [] ∧ value.length ≤ maxTextBytes ∧ validUtf8 value = true ∧ 0 ∉ value := by
  unfold validateName
  split_ifs with h₁ h₂ h₃ h₄
  · simp [h₁]
  · simp only [false_iff]
    omega
  · simp only [false_iff]
    intro h
    rw [h.2.2.1] at h₃
    cases h₃
  · simp only [false_iff]
    intro h
    exact h.2.2.2 (List.contains_iff_mem.mp h₄)
  · simp only [true_iff]
    refine ⟨h₁, Nat.le_of_not_lt h₂, by simpa using h₃, fun hmem => h₄
      (List.contains_iff_mem.mpr hmem)⟩

/-- Printable ASCII, as the parts of a token that are not the workflow identifier. -/
def Plain (value : Bytes) : Prop := ∀ b ∈ value, b ≤ 0x7F ∧ b ≠ 0

theorem plain_decimal (n : Nat) : Plain (decimal n) := by
  intro b hb
  obtain ⟨c, hc, rfl⟩ := List.mem_map.mp hb
  have hdigit :=
    Lib.toUInt8_toNat_of_isDigit (Nat.isDigit_of_mem_toDigits (by decide) (by decide) hc)
  refine ⟨UInt8.le_iff_toNat_le.mpr (show c.toUInt8.toNat ≤ 127 by omega), fun hzero => ?_⟩
  have hval : c.toUInt8.toNat = 0 := by rw [hzero]; rfl
  omega

theorem Plain.append {a b : Bytes} (ha : Plain a) (hb : Plain b) : Plain (a ++ b) := by
  intro c hc
  rcases List.mem_append.mp hc with hc | hc
  · exact ha c hc
  · exact hb c hc

theorem plain_mockRunId (n : Nat) : Plain (mockRunId n) := by
  have htext : Plain (text "mock-run-") := by unfold Plain; decide +kernel
  exact htext.append (plain_decimal n)

/-- The token of a run whose workflow identifier is acceptable passes the check if it is not too
long. -/
theorem validateName_pageToken {workflowId runId : Bytes} (hname : validateName workflowId = .ok ())
    (hr : Plain runId) (hlength : (pageToken workflowId runId).length ≤ maxTextBytes) :
    validateName (pageToken workflowId runId) = .ok () := by
  obtain ⟨-, -, hvalid, hnul⟩ := validateName_eq_ok.mp hname
  have hhead : Plain (tokenPrefix ++ decimal workflowId.length ++ [colon]) := by
    have hstart : Plain tokenPrefix := by unfold Plain; decide +kernel
    have hcolon : Plain [colon] := by unfold Plain; decide +kernel
    exact (hstart.append (plain_decimal _)).append hcolon
  have htoken : pageToken workflowId runId =
      (tokenPrefix ++ decimal workflowId.length ++ [colon]) ++ (workflowId ++ runId) := by
    rw [pageToken, List.append_assoc _ [colon], List.singleton_append]
  refine validateName_eq_ok.mpr ⟨?_, hlength, ?_, ?_⟩
  · rw [htoken]
    simp
  · rw [htoken, Protocol.validUtf8_append (Protocol.validUtf8_ascii fun b hb => (hhead b hb).1),
      Protocol.validUtf8_append hvalid]
    exact Protocol.validUtf8_ascii fun b hb => (hr b hb).1
  · rw [htoken]
    intro hzero
    rcases List.mem_append.mp hzero with hzero | hzero
    · exact (hhead 0 hzero).2 rfl
    · rcases List.mem_append.mp hzero with hzero | hzero
      · exact hnul hzero
      · exact (hr 0 hzero).2 rfl

/-! ## Pages -/

theorem takePage_eq (n : Nat) (last : Option VisibilityExecution)
    (acc rest : List VisibilityExecution) :
    takePage n last acc rest = ⟨acc.reverse ++ rest.take n,
      if rest.length ≤ n then none
      else ((rest.take n).getLast?.or last).map fun row => pageToken row.workflowId row.runId⟩ := by
  induction n generalizing last acc rest with
  | zero =>
    cases rest with
    | nil => simp [takePage]
    | cons row rest => simp [takePage]
  | succ n ih =>
    cases rest with
    | nil => simp [takePage]
    | cons row rest =>
      rw [takePage, ih]
      simp only [List.reverse_cons, List.append_assoc, List.singleton_append, List.take_succ_cons,
        List.length_cons, Nat.add_le_add_iff_right]
      cases hlast : (rest.take n).getLast? with
      | none =>
        rw [List.getLast?_eq_none_iff.mp hlast]
        rfl
      | some x =>
        rw [List.getLast?_cons, hlast]
        rfl

theorem orderKey_injective {w₁ r₁ w₂ r₂ : Bytes} (h : orderKey w₁ r₁ = orderKey w₂ r₂) :
    w₁ = w₂ ∧ r₁ = r₂ := by
  have hbytes : Function.Injective (List.map UInt8.toNat) :=
    List.map_injective_iff.mpr fun a b hab => UInt8.toNat_inj.mp hab
  obtain ⟨hw, hr⟩ := Prod.mk.inj (toLex_inj.mp h)
  exact ⟨hbytes hw, hbytes hr⟩

namespace Service

variable {R : Type} {s : Service R}

def identity (row : VisibilityExecution) : Bytes × Bytes := (row.workflowId, row.runId)

theorem identities_history (h : Inv s) :
    (s.history.filterMap s.row).map identity = s.history.map Prod.fst := by
  have hrow : ∀ entry ∈ s.history, (s.row entry).map identity = some entry.1 := by
    intro entry hentry
    obtain ⟨e, he, hid⟩ := h.kept entry.1 entry.2 hentry
    rw [row, he, Option.map_some, Option.map_some, identity, hid]
  generalize s.history = entries at hrow
  induction entries with
  | nil => rfl
  | cons entry entries ih =>
    obtain ⟨r, hr, hid⟩ := Option.map_eq_some_iff.mp (hrow entry List.mem_cons_self)
    rw [List.filterMap_cons_some hr, List.map_cons, List.map_cons, hid,
      ih fun e he => hrow e (List.mem_cons_of_mem entry he)]

theorem perm_identities (h : Inv s) : (s.rows.map identity).Perm (s.history.map Prod.fst) := by
  rw [← identities_history h]
  exact (List.perm_insertionSort _ _).map identity

theorem nodup_keys (h : Inv s) : (s.history.map Prod.fst).Nodup := by
  have hids : (s.history.map Prod.fst).map Prod.snd =
      (s.history.map Prod.snd).map fun ref => mockRunId (ref + 1) := by
    rw [List.map_map, List.map_map]
    refine List.map_congr_left fun entry hentry => ?_
    obtain ⟨e, he, hid⟩ := h.kept entry.1 entry.2 hentry
    exact hid.symm.trans (h.ids entry.2 e he)
  have hnodup : ((s.history.map Prod.snd).map fun ref => mockRunId (ref + 1)).Nodup := by
    rw [h.refs]
    exact (List.nodup_reverse.mpr List.nodup_range).map fun i j hij =>
      Nat.succ.inj (mockRunId_injective hij)
  rw [← hids] at hnodup
  exact hnodup.of_map

/-- The rows stand in the order of their identities, each once. -/
theorem rows_sorted (h : Inv s) : s.rows.Pairwise fun a b => a.key < b.key := by
  refine Lib.pairwise_lt_of_nodup VisibilityExecution.key (List.pairwise_insertionSort _ _) ?_
  have hidentities : (s.rows.map identity).Nodup := (perm_identities h).nodup_iff.mpr (nodup_keys h)
  have hkeys : s.rows.map VisibilityExecution.key =
      (s.rows.map identity).map fun id => orderKey id.1 id.2 := by
    rw [List.map_map]
    rfl
  rw [hkeys]
  refine hidentities.map fun a b hab => ?_
  obtain ⟨hw, hr⟩ := orderKey_injective hab
  exact Prod.ext hw hr

theorem row_identity (h : Inv s) {row : VisibilityExecution} (hrow : row ∈ s.rows) :
    ∃ entry ∈ s.history, entry.1 = (row.workflowId, row.runId) ∧ ∃ n, row.runId = mockRunId n := by
  have hmem := (perm_identities h).mem_iff.mp (List.mem_map_of_mem hrow)
  obtain ⟨entry, hentry, heq⟩ := List.mem_map.mp hmem
  obtain ⟨e, he, hid⟩ := h.kept entry.1 entry.2 hentry
  refine ⟨entry, hentry, heq, entry.2 + 1, ?_⟩
  rw [← h.ids entry.2 e he, hid, heq]
  rfl

theorem pageAfter_none (s : Service R) (n : Nat) :
    s.pageAfter n none = ⟨(Lib.cut n (fun row => pageToken row.workflowId row.runId) s.rows).1,
      (Lib.cut n (fun row => pageToken row.workflowId row.runId) s.rows).2⟩ := by
  simp only [pageAfter, takePage_eq, Lib.cut, List.reverse_nil, List.nil_append, Option.or_none]

theorem pageAfter_some (h : Inv s) (n : Nat) {before rest : List VisibilityExecution}
    {row : VisibilityExecution} (hrows : s.rows = before ++ row :: rest) :
    s.pageAfter n (some (row.workflowId, row.runId)) =
      ⟨(Lib.cut n (fun row => pageToken row.workflowId row.runId) rest).1,
        (Lib.cut n (fun row => pageToken row.workflowId row.runId) rest).2⟩ := by
  have hfilter :
    s.rows.filter (fun r => decide (orderKey row.workflowId row.runId < r.key)) = rest := by
    have hsorted := rows_sorted h
    rw [hrows] at hsorted ⊢
    exact Lib.filter_after VisibilityExecution.key hsorted
  simp only [pageAfter, hfilter, takePage_eq, Lib.cut, List.reverse_nil, List.nil_append,
    Option.or_none]

/-- The public listing of pages of `n` rows, from a token on. -/
def listing (s : Service R) (reader : IntReader) (n : Nat) (token : Option Bytes) :
    Option (List VisibilityExecution × Option Bytes) :=
  (s.listVisibility reader false [] n token).toOption.map fun page =>
    (page.executions, page.nextPageToken)

theorem listVisibility_none (s : Service R) (reader : IntReader) {n : Nat} (hn : 1 ≤ n ∧ n ≤ 1000) :
    s.listVisibility reader false [] n none = .ok (s.pageAfter n none) := by
  have hsize : ¬ ((n : Int) < 1 ∨ (n : Int) > 1000) := by omega
  have hquery : validateText [] = .ok () := rfl
  simp only [listVisibility, mockClientListVisibility, if_neg hsize, hquery, Bool.false_eq_true,
    if_false, List.length_nil, Int.toNat_natCast]
  rfl

theorem listVisibility_some {reader : IntReader} {n : Nat} (hn : 1 ≤ n ∧ n ≤ 1000) {token : Bytes}
    {cursor : Bytes × Bytes} (hname : validateName token = .ok ())
    (hread : readToken reader token = some cursor) (hmem : cursor ∈ s.history.map Prod.fst) :
    s.listVisibility reader false [] n (some token) = .ok (s.pageAfter n (some cursor)) := by
  have hsize : ¬ ((n : Int) < 1 ∨ (n : Int) > 1000) := by omega
  have hquery : validateText [] = .ok () := rfl
  have hlookup : (s.history.lookup cursor).isNone = false := by
    rw [Option.isNone_eq_false_iff, Option.isSome_iff_ne_none, ne_eq, List.lookup_eq_none_iff]
    intro hall
    obtain ⟨entry, hentry, rfl⟩ := List.mem_map.mp hmem
    exact absurd (hall entry hentry) (by simp)
  simp only [listVisibility, mockClientListVisibility, if_neg hsize, hquery, hname, hread, hlookup,
    Bool.false_eq_true, if_false, List.length_nil, Int.toNat_natCast]
  rfl

theorem listVisibility_oversized (s : Service R) (reader : IntReader) {n : Nat}
    (hn : 1 ≤ n ∧ n ≤ 1000) {token : Bytes} (hlength : token.length > maxTextBytes) :
    s.listVisibility reader false [] n (some token) = .error (.pageToken .oversized) := by
  have hsize : ¬ ((n : Int) < 1 ∨ (n : Int) > 1000) := by omega
  have hne : token ≠ [] := by
    rintro rfl
    exact absurd hlength (Nat.not_lt_zero _)
  have hname : validateName token = .error .oversized := by
    rw [validateName, if_neg hne, if_pos hlength]
  have hquery : validateText [] = .ok () := rfl
  simp only [listVisibility, if_neg hsize, hname, hquery, Bool.false_eq_true, if_false]

/-- The token of a run is not longer than a name may be. -/
def TokenFits (row : VisibilityExecution) : Prop :=
  (pageToken row.workflowId row.runId).length ≤ maxTextBytes

/-- The service is a pager of its rows that refuses the tokens that are too long. -/
theorem pager (h : Inv s) (hnames : ∀ entry ∈ s.history, validateName entry.1.1 = .ok ())
    (reader : IntReader) {n : Nat} (hn : 1 ≤ n ∧ n ≤ 1000) :
    Lib.Pager s.rows n (fun row => pageToken row.workflowId row.runId) TokenFits
      (s.listing reader n) where
  first := by rw [listing, listVisibility_none s reader hn, pageAfter_none]; rfl
  refused row hlong := by
    rw [listing, listVisibility_oversized s reader hn (Nat.lt_of_not_le hlong)]
    rfl
  next before row rest hrows _ htoken := by
    have hrow : row ∈ s.rows := by
      rw [hrows]
      exact List.mem_append_right _ List.mem_cons_self
    obtain ⟨entry, hentry, hid, m, hm⟩ := row_identity h hrow
    have hw : entry.1.1 = row.workflowId := congrArg Prod.fst hid
    have hname := hnames entry hentry
    rw [hw] at hname
    obtain ⟨hne, hlength, -⟩ := validateName_eq_ok.mp hname
    have hrun : row.runId ≠ [] := by
      rw [hm, mockRunId]
      refine List.append_ne_nil_of_left_ne_nil ?_ _
      decide +kernel
    have hread := readToken_pageToken reader hne
      (Nat.lt_of_le_of_lt hlength (by decide)) hrun
    have hplain : Plain row.runId := hm ▸ plain_mockRunId m
    rw [listing, listVisibility_some hn (validateName_pageToken hname hplain htoken) hread
      (hid ▸ List.mem_map_of_mem hentry), pageAfter_some h n hrows]
    rfl

end Service

theorem rows_length {R : Type} {s : Service R} (h : Service.Inv s) :
    s.rows.length = s.history.length := by
  have hperm := (Service.perm_identities h).length_eq
  rwa [List.length_map, List.length_map] at hperm

/-- **The listing of runs.** In every state of the service with workflow identifiers that a start
accepts, whoever lists the runs without a token and then follows the tokens comes to an end and has
seen every run once, in the order of workflow and run identifiers, in pages of the size asked for at
most, exactly if every run that ends a page and is followed by another has a token that fits.
Otherwise the listing does not come to its end, however long one follows it. -/
theorem visibility_pages_ok {R : Type} [DecidableEq R] {s : Service R}
    (hs : (system R).Reachable s)
    (hnames : ∀ entry ∈ s.history, validateName entry.1.1 = .ok ())
    (reader : IntReader) (n : Nat) (hn : 1 ≤ n ∧ n ≤ 1000) :
    ((∃ pages, Lib.follow (s.listing reader n) (s.history.length + 1) none = some pages ∧
      (∀ page ∈ pages, page.length ≤ n) ∧
      (pages.flatten.Pairwise fun a b => a.key < b.key) ∧
      (pages.flatten.map Service.identity).Perm (s.history.map Prod.fst)) ↔
        Lib.PageEnds s.rows n Service.TokenFits) ∧
    (¬Lib.PageEnds s.rows n Service.TokenFits →
      ∀ fuel, Lib.follow (s.listing reader n) fuel none = none) := by
  have h := reachable_inv hs
  have hpager := Service.pager h hnames reader hn
  refine ⟨⟨fun hlisted => ?_, fun hends => ?_⟩,
    fun hbad fuel => hpager.follow_eq_none hn.1 hbad fuel⟩
  · by_contra hbad
    obtain ⟨pages, hpages, -⟩ := hlisted
    rw [hpager.follow_eq_none hn.1 hbad] at hpages
    cases hpages
  · have hfuel : s.rows.length < s.history.length + 1 := by
      rw [rows_length h]
      exact Nat.lt_succ_self _
    obtain ⟨pages, hpages, hflat, hsizes⟩ := hpager.follow_eq hn.1 hends hfuel
    refine ⟨pages, hpages, hsizes, ?_, ?_⟩
    · rw [hflat]
      exact Service.rows_sorted h
    · rw [hflat]
      exact Service.perm_identities h

def decimalReader : IntReader where
  read digits := some (Lib.numeralValue Lib.byteDigit digits)
  reads n _ := by rw [Lib.numeralValue_decimal]

def startWorkflow (workflowId : Bytes) : Call Unit :=
  .start { startOf none .fail with workflowId }

/-- A workflow identifier of the greatest length that a name may have. -/
def longestId : Bytes := List.replicate maxTextBytes 97

theorem validateName_longestId : validateName longestId = .ok () := by
  refine validateName_eq_ok.mpr ⟨?_, ?_, Protocol.validUtf8_ascii ?_, ?_⟩
  · rw [longestId, ne_eq, List.replicate_eq_nil_iff]
    decide
  · rw [longestId, List.length_replicate]
  · intro b hb
    rw [List.eq_of_mem_replicate hb]
    decide
  · intro h
    exact absurd (List.eq_of_mem_replicate h) (by decide)

def threeRuns : Service Unit :=
  after [startWorkflow (text "b"), startWorkflow (text "a"), .wait (text "a") [],
    startWorkflow (text "a")]

/-- One run of the longest identifier, whose token would be too long. -/
def longOnly : Service Unit := after [startWorkflow longestId]

/-- Three runs are listed in pages of two, and the run of the longest identifier, which no other run
follows, in a page of one. -/
theorem visibility_pages_ok_threeRuns :
    (∃ pages, Lib.follow (threeRuns.listing decimalReader 2) 4 none = some pages ∧
      (∀ page ∈ pages, page.length ≤ 2) ∧
      (pages.flatten.Pairwise fun a b => a.key < b.key) ∧
      (pages.flatten.map Service.identity).Perm (threeRuns.history.map Prod.fst)) ∧
    (∃ pages, Lib.follow (longOnly.listing decimalReader 1) 2 none = some pages ∧
      (∀ page ∈ pages, page.length ≤ 1) ∧
      (pages.flatten.Pairwise fun a b => a.key < b.key) ∧
      (pages.flatten.map Service.identity).Perm (longOnly.history.map Prod.fst)) := by
  have hlong : Service.Inv longOnly := reachable_inv (reachable_after _)
  constructor
  · refine (visibility_pages_ok (reachable_after _) (by decide +kernel) decimalReader 2
      ⟨by decide, by decide⟩).1.mpr fun before row rest hrows _ _ => ?_
    have hfits : ∀ row ∈ threeRuns.rows,
        (pageToken row.workflowId row.runId).length ≤ maxTextBytes := by decide +kernel
    have hrows : threeRuns.rows = before ++ row :: rest := hrows
    exact hfits row (hrows ▸ List.mem_append_right before List.mem_cons_self)
  · refine (visibility_pages_ok (s := longOnly) (reachable_after _)
      (fun entry hentry => ?_) decimalReader 1 ⟨by decide, by decide⟩).1.mpr
      fun before row rest hrows hrest _ => ?_
    · have hentry : entry ∈ [((longestId, mockRunId 1), 0)] := hentry
      rw [List.mem_singleton.mp hentry]
      exact validateName_longestId
    · have hlength := rows_length hlong
      have hpos := List.length_pos_iff.mpr hrest
      have hone : longOnly.history.length = 1 := rfl
      rw [hrows, List.length_append, List.length_cons] at hlength
      omega

/-- A run of the longest identifier, and a run after it. -/
def longAndShort : Service Unit := after [startWorkflow longestId, startWorkflow [98]]

theorem history_longAndShort :
    longAndShort.history = [(([98], mockRunId 2), 1), ((longestId, mockRunId 1), 0)] := rfl

theorem longestId_first : orderKey longestId (mockRunId 1) < orderKey [98] (mockRunId 2) := by
  refine Prod.Lex.toLex_lt_toLex.mpr (.inl ?_)
  rw [longestId, List.map_replicate]
  exact List.Lex.rel (by decide)

/-- The run of the longest identifier is listed first. -/
theorem rows_longAndShort :
    ∃ row rest, longAndShort.rows = row :: rest ∧ rest ≠ [] ∧ row.workflowId = longestId := by
  have h : Service.Inv longAndShort := reachable_inv (reachable_after _)
  have hsorted := Service.rows_sorted h
  have hperm := Service.perm_identities h
  have hlength := hperm.length_eq
  rw [history_longAndShort] at hperm hlength
  cases hrows : longAndShort.rows with
  | nil =>
    rw [hrows] at hlength
    cases hlength
  | cons row rest =>
    rw [hrows] at hsorted hperm hlength
    refine ⟨row, rest, rfl, ?_, ?_⟩
    · rintro rfl
      cases hlength
    · have hmem : Service.identity row ∈ [([98], mockRunId 2), (longestId, mockRunId 1)] :=
        hperm.mem_iff.mp List.mem_cons_self
      rcases List.mem_pair.mp hmem with hshort | hlong
      · -- The other run would stand after it, but its identifier is less.
        have hother : (longestId, mockRunId 1) ∈ (row :: rest).map Service.identity :=
          hperm.mem_iff.mpr (List.mem_cons_of_mem _ List.mem_cons_self)
        obtain ⟨row', hrow', hid'⟩ := List.mem_map.mp hother
        obtain ⟨hw, hr⟩ := Prod.mk.inj hshort
        obtain ⟨hw', hr'⟩ := Prod.mk.inj hid'
        have hkey : row.key = orderKey [98] (mockRunId 2) := by
          rw [VisibilityExecution.key, hw, hr]
        have hkey' : row'.key = orderKey longestId (mockRunId 1) := by
          rw [VisibilityExecution.key, hw', hr']
        have hless : row'.key < row.key := by
          rw [hkey, hkey']
          exact longestId_first
        rcases List.mem_cons.mp hrow' with rfl | hrest
        · exact absurd hless (lt_irrefl _)
        · exact absurd hless ((List.pairwise_cons.mp hsorted).1 row' hrest).asymm
      · exact congrArg Prod.fst hlong

theorem listVisibility_first {R : Type} {s : Service R} {row : VisibilityExecution}
    {rest : List VisibilityExecution} (hrows : s.rows = row :: rest) (hrest : rest ≠ [])
    (reader : IntReader) :
    s.listVisibility reader false [] 1 none =
      .ok ⟨[row], some (pageToken row.workflowId row.runId)⟩ := by
  have hmore : ¬ (row :: rest).length ≤ 1 := by
    have hpos := List.length_pos_iff.mpr hrest
    rw [List.length_cons]
    omega
  have hfirst := Service.listVisibility_none s reader ⟨Nat.le_refl 1, by decide⟩
  rw [Service.pageAfter_none, hrows, Lib.cut, if_neg hmore] at hfirst
  exact hfirst

/-- A run of the longest identifier with another run after it: the first page has a token that the
public listing itself refuses as too long. -/
theorem longest_id_ends_listing :
    validateName longestId = .ok () ∧
      ∃ s : Service Unit, (system Unit).Reachable s ∧ s.runs.length = 2 ∧
        (∀ entry ∈ s.history, validateName entry.1.1 = .ok ()) ∧
        ∀ reader : IntReader, ∃ page token,
          s.listVisibility reader false [] 1 none = .ok ⟨page, some token⟩ ∧ page.length = 1 ∧
          s.listVisibility reader false [] 1 (some token) = .error (.pageToken .oversized) := by
  obtain ⟨row, rest, hrows, hrest, hid⟩ := rows_longAndShort
  refine ⟨validateName_longestId, longAndShort, reachable_after _, rfl, ?_, fun reader => ?_⟩
  · rw [history_longAndShort]
    intro entry hentry
    rcases List.mem_pair.mp hentry with rfl | rfl
    · decide +kernel
    · exact validateName_longestId
  · refine ⟨[row], _, listVisibility_first hrows hrest reader, rfl,
      longAndShort.listVisibility_oversized reader ⟨Nat.le_refl 1, by decide⟩ ?_⟩
    rw [hid]
    simp only [pageToken, List.length_append, List.length_cons, longestId, List.length_replicate]
    omega

end OcamlTemporal.Mock
