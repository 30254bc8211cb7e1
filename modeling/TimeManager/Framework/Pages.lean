import Mathlib.Data.List.Nodup

/-! # Pages of a List

    A list cut into pages of `l` elements, numbered from `1`.

    * `page l xs p`: the `p`-th page.
    * `pageCount l n`: the number of requests that fetch a list of `n`
      elements page by page (an empty list still takes one).

    The main facts: the pages up to `p` are the first `p * l` elements
    (`take_append_page`), and appending any page but the next one to a
    proper prefix of a list without repetitions does not give a prefix
    (`not_prefix_append_page`). -/

namespace Pages

universe u

variable {α : Type u}

/-- The `p`-th page of `xs`, in pages of `l` elements counted from `1`. -/
def page (l : Nat) (xs : List α) (p : Nat) : List α :=
  (xs.drop ((p - 1) * l)).take l

/-- How many pages of `l` elements it takes to see that a list of `n`
    elements has no more: at least one. -/
def pageCount (l n : Nat) : Nat :=
  max 1 ((n + l - 1) / l)

/-! ## Section 1: Prefixes made of pages -/

/-- The first `p` pages followed by the next one are the first `p + 1` pages. -/
theorem take_append_page (l : Nat) (xs : List α) (p : Nat) :
    xs.take (p * l) ++ page l xs (p + 1) = xs.take ((p + 1) * l) := by
  rw [page, Nat.add_sub_cancel, Nat.add_one_mul, List.take_add]

/-- The elements of the pages up to `top`. -/
theorem mem_page_iff (l : Nat) (xs : List α) (top : Nat) {x : α} :
    (∃ p, (1 ≤ p ∧ p ≤ top) ∧ x ∈ page l xs p) ↔ x ∈ xs.take (top * l) := by
  induction top with
  | zero =>
    rw [Nat.zero_mul, List.take_zero]
    constructor
    · rintro ⟨p, hp, _⟩
      omega
    · intro hx
      cases hx
  | succ top ih =>
    rw [← take_append_page, List.mem_append, ← ih]
    constructor
    · rintro ⟨p, ⟨hpos, hle⟩, hx⟩
      rcases Nat.le_or_eq_of_le_succ hle with hle | rfl
      · exact .inl ⟨p, ⟨hpos, hle⟩, hx⟩
      · exact .inr hx
    · rintro (⟨p, ⟨hpos, hle⟩, hx⟩ | hx)
      · exact ⟨p, ⟨hpos, Nat.le_succ_of_le hle⟩, hx⟩
      · exact ⟨top + 1, ⟨Nat.le_add_left 1 top, Nat.le_refl _⟩, hx⟩

theorem length_take_pages (l : Nat) (xs : List α) (p : Nat) :
    (xs.take (p * l)).length = min xs.length (l * p) := by
  rw [List.length_take, Nat.mul_comm, Nat.min_comm]

/-- The element at the start of a page that is not past the end. -/
theorem page_head {l : Nat} (hl : 0 < l) {xs : List α} {p : Nat}
    (hp : (p - 1) * l < xs.length) :
    ∃ rest, page l xs p = xs[(p - 1) * l] :: rest := by
  obtain ⟨m, rfl⟩ : ∃ m, l = m + 1 := ⟨l - 1, by omega⟩
  refine ⟨(xs.drop ((p - 1) * (m + 1) + 1)).take m, ?_⟩
  rw [page, List.drop_eq_getElem_cons hp, List.take_succ_cons]

/-- If a list without repetitions has its first `q` pages followed by a page
    `p ≤ q`, what results is no prefix of it: the first element of that page
    stands there twice. -/
theorem not_prefix_append_page {l : Nat} (hl : 0 < l) {xs : List α} (hnd : xs.Nodup)
    {p q : Nat} (hp : 0 < p) (hpq : p ≤ q) (hlen : (p - 1) * l < xs.length) :
    ¬ (xs.take (q * l) ++ page l xs p) <+: xs := by
  intro hpre
  obtain ⟨rest, hpage⟩ := page_head hl hlen
  have hlt : (p - 1) * l < q * l := by
    have : p - 1 < q := by omega
    exact Nat.mul_lt_mul_of_pos_right this hl
  -- the page's first element, in the first `q` pages and right after them
  have hfst : (p - 1) * l < (xs.take (q * l)).length := by
    rw [List.length_take]
    omega
  have hsnd : (xs.take (q * l)).length < (xs.take (q * l) ++ page l xs p).length := by
    rw [hpage]
    simp
  have hin : (xs.take (q * l)).length < xs.length := by
    have := hpre.length_le
    omega
  have heq : xs[(xs.take (q * l)).length] = xs[(p - 1) * l] := by
    rw [← hpre.getElem hsnd]
    simp [hpage]
  -- without repetitions the two places are one
  have hidx := hnd.getElem_inj_iff.mp heq
  omega

/-! ## Section 2: The number of pages -/

theorem one_le_pageCount (l n : Nat) : 1 ≤ pageCount l n :=
  Nat.le_max_left 1 _

/-- Page `p` is not the last one exactly when elements are left after it. -/
theorem lt_pageCount_iff {l : Nat} (hl : 0 < l) {n p : Nat} (hp : 1 ≤ p) :
    p < pageCount l n ↔ l * p < n := by
  have hdiv : p < (n + l - 1) / l ↔ l * p < n := by
    rw [← Nat.succ_le_iff, Nat.le_div_iff_mul_le hl, Nat.succ_mul, Nat.mul_comm l p]
    omega
  rw [← hdiv, pageCount]
  omega

/-- All pages together hold all elements. -/
theorem le_mul_pageCount {l : Nat} (hl : 0 < l) (n : Nat) :
    n ≤ l * pageCount l n := by
  by_contra hno
  have hlast := (lt_pageCount_iff hl (one_le_pageCount l n)).mpr (Nat.lt_of_not_le hno)
  exact Nat.lt_irrefl _ hlast

/-- There are no more pages than elements, but for the page of an empty list. -/
theorem pageCount_le {l : Nat} (hl : 0 < l) (n : Nat) : pageCount l n ≤ max 1 n := by
  by_contra hno
  have hmore := (lt_pageCount_iff hl (Nat.le_max_left 1 n)).mp (Nat.lt_of_not_le hno)
  have hmul : max 1 n ≤ l * max 1 n := Nat.le_mul_of_pos_left _ hl
  omega

end Pages
