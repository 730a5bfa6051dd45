import Mathlib

/-!
# OcamlTemporal.Lib.Paging

**Listing rows page by page**, where a token names the last row of a page and the next page holds
the rows after it.

* `cut` is a page of the rows that are left; `Pager` is a service that answers a token that it gave
  out with the page after it, or refuses it.
* `Pager.follow_eq`: whoever follows the tokens sees every row once, if no token is refused that
  stands at the end of a page; `Pager.follow_eq_none`: otherwise the listing does not get to its
  end.
* `filter_after`: in rows that are sorted by a key, the rows after one are those with a greater key.
-/

namespace OcamlTemporal.Lib

universe u v w

section Sorted

variable {α : Type u} {κ : Type v} [LinearOrder κ] (key : α → κ)

theorem filter_after {before rest : List α} {x : α}
    (h : (before ++ x :: rest).Pairwise fun a b => key a < key b) :
    (before ++ x :: rest).filter (fun b => decide (key x < key b)) = rest := by
  obtain ⟨-, hrest, hcross⟩ := List.pairwise_append.mp h
  have hbefore : before.filter (fun b => decide (key x < key b)) = [] := by
    refine List.filter_eq_nil_iff.mpr fun a ha => ?_
    rw [decide_eq_true_eq]
    exact (hcross a ha x List.mem_cons_self).asymm
  have hafter : rest.filter (fun b => decide (key x < key b)) = rest := by
    refine List.filter_eq_self.mpr fun a ha => ?_
    rw [decide_eq_true_eq]
    exact (List.pairwise_cons.mp hrest).1 a ha
  rw [List.filter_append, hbefore, List.nil_append,
    List.filter_cons_of_neg (by rw [decide_eq_true_eq]; exact lt_irrefl _), hafter]

theorem pairwise_lt_of_nodup {rows : List α} (h : rows.Pairwise fun a b => key a ≤ key b)
    (hnodup : (rows.map key).Nodup) : rows.Pairwise fun a b => key a < key b :=
  (h.and (List.pairwise_map.mp hnodup)).imp fun hab => lt_of_le_of_ne hab.1 hab.2

end Sorted

variable {α : Type u} {τ : Type w}

/-- Follows the tokens from one on, until none is returned. -/
def follow (list : Option τ → Option (List α × Option τ)) : Nat → Option τ → Option (List (List α))
  | 0, _ => none
  | fuel + 1, token =>
    (list token).bind fun (page, next) =>
      match next with
      | none => some [page]
      | some token => (follow list fuel (some token)).map (page :: ·)

/-- The page of rows that are left, with the token of its last row if more rows follow. -/
def cut (n : Nat) (tokenOf : α → τ) (rest : List α) : List α × Option τ :=
  (rest.take n, if rest.length ≤ n then none else (rest.take n).getLast?.map tokenOf)

/-- A service that lists the rows by pages of `n`. It takes back the tokens of the rows of `ok` and
refuses the others; the token of the very last row it never gives out. -/
structure Pager (rows : List α) (n : Nat) (tokenOf : α → τ) (ok : α → Prop)
    (list : Option τ → Option (List α × Option τ)) : Prop where
  first : list none = some (cut n tokenOf rows)
  next : ∀ before x rest, rows = before ++ x :: rest → rest ≠ [] → ok x →
    list (some (tokenOf x)) = some (cut n tokenOf rest)
  refused : ∀ x, ¬ok x → list (some (tokenOf x)) = none

/-- The rows that end a page of `n` and are followed by another row satisfy `ok`. -/
def PageEnds (rows : List α) (n : Nat) (ok : α → Prop) : Prop :=
  ∀ before x rest, rows = before ++ x :: rest → rest ≠ [] → n ∣ before.length + 1 → ok x

/-- The last row of a page that is not the last one. -/
theorem exists_pageEnd {n : Nat} (hn : 0 < n) {rest : List α} (hmore : n < rest.length) :
    ∃ x init, (rest.take n).getLast? = some x ∧ rest.take n = init ++ [x] ∧
      init.length + 1 = n := by
  have hlength : (rest.take n).length = n := by
    rw [List.length_take]
    omega
  have hne : rest.take n ≠ [] := List.ne_nil_of_length_pos (by omega)
  refine ⟨(rest.take n).getLast hne, (rest.take n).dropLast, List.getLast?_eq_some_getLast hne,
    (List.dropLast_append_getLast hne).symm, ?_⟩
  rw [List.length_dropLast]
  omega

namespace Pager

variable {rows : List α} {n : Nat} {tokenOf : α → τ} {ok : α → Prop}
  {list : Option τ → Option (List α × Option τ)}

theorem follow_rest (h : Pager rows n tokenOf ok list) (hn : 0 < n) (hok : PageEnds rows n ok)
    (fuel : Nat) {token : Option τ} {before rest : List α} (hrows : rows = before ++ rest)
    (hbefore : n ∣ before.length) (htoken : list token = some (cut n tokenOf rest))
    (hfuel : rest.length < fuel) :
    ∃ pages, follow list fuel token = some pages ∧ pages.flatten = rest ∧
      ∀ page ∈ pages, page.length ≤ n := by
  -- The induction is on the fuel, of which a page takes one and leaves fewer rows.
  induction fuel generalizing token before rest with
  | zero => exact absurd hfuel (Nat.not_lt_zero _)
  | succ fuel ih =>
    rw [follow, htoken, Option.bind_some, cut]
    by_cases hlast : rest.length ≤ n
    · rw [if_pos hlast]
      refine ⟨[rest.take n], rfl, ?_, ?_⟩
      · rw [List.flatten_singleton, List.take_of_length_le hlast]
      · intro page hpage
        rw [List.mem_singleton.mp hpage]
        exact List.length_take_le n rest
    · have hmore : n < rest.length := Nat.lt_of_not_le hlast
      obtain ⟨x, init, hx, htake, hinit⟩ := exists_pageEnd hn hmore
      have hsplit : rows = (before ++ init) ++ x :: rest.drop n := by
        rw [hrows, List.append_assoc, List.append_cons init, ← htake, List.take_append_drop]
      have hdrop : rest.drop n ≠ [] := by
        rw [← List.length_pos_iff, List.length_drop]
        omega
      have hend : n ∣ (before ++ init).length + 1 := by
        rw [List.length_append, Nat.add_assoc, hinit]
        exact (Nat.dvd_add_right hbefore).mpr (Nat.dvd_refl n)
      have hnext := h.next _ _ _ hsplit hdrop (hok _ _ _ hsplit hdrop hend)
      rw [if_neg hlast, hx, Option.map_some]
      have hrows' : rows = (before ++ rest.take n) ++ rest.drop n := by
        rw [hrows, List.append_assoc, List.take_append_drop]
      have hbefore' : n ∣ (before ++ rest.take n).length := by
        rw [htake, ← List.append_assoc, List.length_append, List.length_singleton]
        exact hend
      obtain ⟨pages, hpages, hflat, hsizes⟩ := ih hrows' hbefore' hnext
        (by rw [List.length_drop]; omega)
      refine ⟨rest.take n :: pages, by simp only [hpages, Option.map_some], ?_, ?_⟩
      · rw [List.flatten_cons, hflat, List.take_append_drop]
      · intro page hpage
        rcases List.mem_cons.mp hpage with rfl | hpage
        · exact List.length_take_le n rest
        · exact hsizes page hpage

/-- **Paging rule.** If the tokens of the rows that end a page are taken back, the pages hold every
row once, in order, and none is too large. -/
theorem follow_eq (h : Pager rows n tokenOf ok list) (hn : 0 < n) (hok : PageEnds rows n ok)
    {fuel : Nat} (hfuel : rows.length < fuel) :
    ∃ pages, follow list fuel none = some pages ∧ pages.flatten = rows ∧
      ∀ page ∈ pages, page.length ≤ n :=
  h.follow_rest hn hok fuel (List.nil_append rows).symm (Nat.dvd_zero n) h.first hfuel

theorem follow_none (h : Pager rows n tokenOf ok list) (hn : 0 < n) (fuel : Nat)
    {token : Option τ} {before rest : List α} (hrows : rows = before ++ rest)
    (htoken : list token = some (cut n tokenOf rest)) (hbad : ¬PageEnds rest n ok) :
    follow list fuel token = none := by
  induction fuel generalizing token before rest with
  | zero => rfl
  | succ fuel ih =>
    obtain ⟨b, y, r, hrest, hr, hend, hy⟩ : ∃ b y r, rest = b ++ y :: r ∧ r ≠ [] ∧
        n ∣ b.length + 1 ∧ ¬ok y := by
      by_contra hnone
      exact hbad fun b y r hrest hr hend => by_contra fun hy => hnone ⟨b, y, r, hrest, hr, hend, hy⟩
    have hlengths : rest.length = b.length + 1 + r.length := by
      rw [hrest, List.length_append, List.length_cons]
      omega
    have hle : n ≤ b.length + 1 := Nat.le_of_dvd (Nat.succ_pos _) hend
    have hmore : n < rest.length := by
      have := List.length_pos_iff.mpr hr
      omega
    obtain ⟨x, init, hx, htake, hinit⟩ := exists_pageEnd hn hmore
    have hsplit : rest = init ++ x :: rest.drop n := by
      rw [List.append_cons init, ← htake, List.take_append_drop]
    rw [follow, htoken, Option.bind_some, cut, if_neg (Nat.not_le_of_lt hmore), hx, Option.map_some]
    by_cases hok : ok x
    · -- The row that is refused ends a later page.
      have hdrop : rest.drop n ≠ [] := by
        rw [← List.length_pos_iff, List.length_drop]
        omega
      have hrows' : rows = (before ++ init) ++ x :: rest.drop n := by
        rw [hrows, List.append_assoc, ← hsplit]
      have hlater : n ≤ b.length := by
        by_contra hshort
        have heq : init.length = b.length := by omega
        have hheads := List.append_inj (hsplit.symm.trans hrest) heq
        exact hy ((List.cons.inj hheads.2).1 ▸ hok)
      have hbad' : ¬PageEnds (rest.drop n) n ok := by
        intro hall
        refine hy (hall (b.drop n) y r ?_ hr ?_)
        · rw [hrest, List.drop_append_of_le_length hlater]
        · rw [List.length_drop, ← Nat.sub_add_comm hlater]
          exact Nat.dvd_sub hend (Nat.dvd_refl n)
      have hrows'' : rows = (before ++ init ++ [x]) ++ rest.drop n := by
        rw [hrows', ← List.append_cons]
      simp only [ih hrows'' (h.next _ _ _ hrows' hdrop hok) hbad', Option.map_none]
    · cases fuel with
      | zero => rfl
      | succ fuel => simp only [follow, h.refused x hok, Option.bind_none, Option.map_none]

/-- A refused token at the end of a page ends the listing, however long one follows it. -/
theorem follow_eq_none (h : Pager rows n tokenOf ok list) (hn : 0 < n) (hbad : ¬PageEnds rows n ok)
    (fuel : Nat) : follow list fuel none = none :=
  h.follow_none hn fuel (List.nil_append rows).symm h.first hbad

end Pager

end OcamlTemporal.Lib
