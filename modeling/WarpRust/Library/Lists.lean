import Mathlib.Algebra.GroupWithZero.Nat
import Mathlib.Data.List.Perm.Basic

/-!
# Taking one element out of a list

The element at a position and the list without it, for sets of running work kept as lists.
-/

namespace WarpRust.Library
variable {α : Type*} {l k : List α} {i : ℕ} {x y : α}

theorem perm_cons_eraseIdx (h : l[i]? = some x) : (x :: l.eraseIdx i).Perm l := by
  obtain ⟨hi, rfl⟩ := List.getElem?_eq_some_iff.mp h
  exact List.getElem_cons_eraseIdx_perm hi

theorem getElem?_set_of_some (h : l[i]? = some x) (j : ℕ) :
    (l.set i y)[j]? = if i = j then some y else l[j]? := by
  obtain ⟨hi, _⟩ := List.getElem?_eq_some_iff.mp h
  rw [List.getElem?_set, if_pos hi]

theorem perm_cons_set (h : l[i]? = some x) : (l.set i y).Perm (y :: l.eraseIdx i) := by
  have hi : i < l.length := (List.getElem?_eq_some_iff.mp h).1
  have hy : (l.set i y)[i]? = some y := by rw [getElem?_set_of_some h, if_pos rfl]
  have hperm := perm_cons_eraseIdx hy
  rwa [List.eraseIdx_set_eq, List.perm_comm] at hperm

theorem filterMap_perm_append {β : Type*} (f : α → Option β) (h : l.Perm (x :: k)) :
    (l.filterMap f).Perm ((f x).toList ++ k.filterMap f) := by
  have hperm := h.filterMap f
  cases hx : f x <;> simpa [List.filterMap_cons, hx] using hperm

theorem countP_perm_cons (q : α → Bool) (h : l.Perm (x :: k)) :
    l.countP q = (q x).toNat + k.countP q := by
  rw [h.countP_eq, List.countP_cons, Nat.add_comm]
  cases q x <;> rfl

theorem countP_set (q : α → Bool) (h : l[i]? = some x) :
    (l.set i y).countP q + (q x).toNat = l.countP q + (q y).toNat := by
  rw [countP_perm_cons q (perm_cons_set h), countP_perm_cons q (perm_cons_eraseIdx h).symm]
  omega

theorem countP_add_countP_le {p q r : α → Bool}
    (hp : ∀ x ∈ l, p x = true → r x = true ∧ q x = false)
    (hq : ∀ x ∈ l, q x = true → r x = true) : l.countP p + l.countP q ≤ l.countP r := by
  induction l with
  | nil => exact Nat.le_refl 0
  | cons x l ih =>
    have htail := ih (fun y hy => hp y (List.mem_cons_of_mem x hy))
      fun y hy => hq y (List.mem_cons_of_mem x hy)
    have hhead : (if p x then 1 else 0) + (if q x then 1 else 0) ≤ if r x then 1 else 0 := by
      cases hpx : p x with
      | true =>
        obtain ⟨hr, hqx⟩ := hp x List.mem_cons_self hpx
        simp [hr, hqx]
      | false =>
        cases hqx : q x with
        | true => simp [hq x List.mem_cons_self hqx]
        | false => simp
    rw [List.countP_cons, List.countP_cons, List.countP_cons]
    omega

theorem perm_append_middle (l k : List α) (x : α) : (l ++ [x] ++ k).Perm (l ++ k ++ [x]) := by
  rw [List.append_assoc]
  exact List.perm_middle.trans (List.perm_append_singleton x (l ++ k)).symm

theorem length_eraseIdx_add_one (h : l[i]? = some x) : (l.eraseIdx i).length + 1 = l.length :=
  (perm_cons_eraseIdx h).length_eq

theorem mem_eraseIdx_of_ne (h : l[i]? = some x) (hy : y ∈ l) (hne : y ≠ x) : y ∈ l.eraseIdx i := by
  rcases List.mem_cons.mp ((perm_cons_eraseIdx h).mem_iff.mpr hy) with he | hm
  · exact absurd he hne
  · exact hm

theorem getElem?_modify_of_some (h : l[i]? = some x) (f : α → α) (j : ℕ) :
    (l.modify i f)[j]? = if i = j then some (f x) else l[j]? := by
  rw [List.getElem?_modify]
  by_cases hij : i = j
  · subst hij
    simp [h]
  · simp [hij]

theorem forall_mem_modify {P : α → Prop} {f : α → α} (i : ℕ) (hl : ∀ x ∈ l, P x)
    (hf : ∀ x ∈ l, P (f x)) : ∀ x ∈ l.modify i f, P x := by
  intro y hy
  obtain ⟨j, hj⟩ := List.getElem?_of_mem hy
  rw [List.getElem?_modify] at hj
  obtain ⟨x, hx, rfl⟩ := Option.map_eq_some_iff.mp hj
  have hmem : x ∈ l := List.mem_of_getElem? hx
  split
  · exact hf x hmem
  · exact hl x hmem

theorem getElem?_append_singleton (l : List α) (x : α) (j : ℕ) :
    (l ++ [x])[j]? = if j = l.length then some x else l[j]? := by
  by_cases hj : j = l.length
  · simp [hj]
  · rw [if_neg hj]
    by_cases hlt : j < l.length
    · rw [List.getElem?_append_left hlt]
    · rw [List.getElem?_eq_none (by simp; omega), List.getElem?_eq_none (by omega)]

theorem countP_le_one {q : α → Bool} (h : ∀ (i j : ℕ) (x y : α), l[i]? = some x →
    l[j]? = some y → q x = true → q y = true → i = j) : l.countP q ≤ 1 := by
  induction l with
  | nil => simp
  | cons a l ih =>
    have htail : l.countP q ≤ 1 := by
      apply ih
      intro i j x y hx hy hqx hqy
      have := h (i + 1) (j + 1) x y (by simpa using hx) (by simpa using hy) hqx hqy
      omega
    by_cases ha : q a = true
    · have hnone : l.countP q = 0 := by
        apply List.countP_eq_zero.mpr
        intro x hx hqx
        obtain ⟨i, hi⟩ := List.getElem?_of_mem hx
        have := h 0 (i + 1) a x rfl (by simpa using hi) ha hqx
        omega
      rw [List.countP_cons_of_pos ha]
      omega
    · rw [List.countP_cons_of_neg ha]
      exact htail

theorem sum_map_le_countP {q : α → Bool} {f : α → ℕ} {p m : ℕ} (l : List α)
    (hq : ∀ x ∈ l, q x = true → f x ≤ p) (hm : ∀ x ∈ l, q x = false → f x ≤ m) :
    (l.map f).sum ≤ l.countP q * p + (l.length - l.countP q) * m := by
  induction l with
  | nil => simp
  | cons x l ih =>
    have htail := ih (fun y hy => hq y (List.mem_cons_of_mem x hy))
      (fun y hy => hm y (List.mem_cons_of_mem x hy))
    have hcount := List.countP_le_length (p := q) (l := l)
    rw [List.map_cons, List.sum_cons, List.length_cons]
    cases hx : q x with
    | true =>
      have hval := hq x List.mem_cons_self hx
      rw [List.countP_cons_of_pos hx, Nat.add_sub_add_right, Nat.add_mul, Nat.one_mul]
      omega
    | false =>
      have hval := hm x List.mem_cons_self hx
      rw [List.countP_cons_of_neg (by rw [hx]; nofun), Nat.sub_add_comm hcount, Nat.add_mul,
        Nat.one_mul]
      omega

theorem forall₂_filterMap {β : Type*} {f : α → Option β} (h : ∀ x ∈ l, ∃ y, f x = some y) :
    List.Forall₂ (fun x y => f x = some y) l (l.filterMap f) := by
  induction l with
  | nil => exact .nil
  | cons x l ih =>
    obtain ⟨y, hy⟩ := h x List.mem_cons_self
    rw [List.filterMap_cons_some hy]
    exact .cons hy (ih fun z hz => h z (List.mem_cons_of_mem x hz))

/-! ### Appending what is not there yet -/

section
variable [DecidableEq α]

def appendNew (l : List α) (x : α) : List α := if x ∈ l then l else l ++ [x]

def firstOccurrences : List α → List α
  | [] => []
  | x :: l => x :: (firstOccurrences l).filter (· ≠ x)

theorem mem_firstOccurrences : x ∈ firstOccurrences l ↔ x ∈ l := by
  induction l with
  | nil => rfl
  | cons y l ih =>
    by_cases h : x = y <;> simp [firstOccurrences, ih, h]

theorem firstOccurrences_nodup (l : List α) : (firstOccurrences l).Nodup := by
  induction l with
  | nil => exact List.nodup_nil
  | cons y l ih =>
    refine List.nodup_cons.mpr ⟨?_, ih.filter _⟩
    simp

theorem filter_firstOccurrences (p : α → Bool) (l : List α) :
    (firstOccurrences l).filter p = firstOccurrences (l.filter p) := by
  induction l with
  | nil => rfl
  | cons y l ih =>
    have hcomm : ((firstOccurrences l).filter (· ≠ y)).filter p =
        (firstOccurrences (l.filter p)).filter (· ≠ y) := by
      rw [← ih, List.filter_filter, List.filter_filter]
      exact List.filter_congr fun x _ => Bool.and_comm _ _
    rw [firstOccurrences]
    by_cases hy : p y = true
    · rw [List.filter_cons_of_pos hy, List.filter_cons_of_pos hy, firstOccurrences, hcomm]
    · have hself : (firstOccurrences (l.filter p)).filter (· ≠ y) =
          firstOccurrences (l.filter p) := by
        refine List.filter_eq_self.mpr fun x hx => decide_eq_true fun hxy => hy ?_
        exact hxy ▸ (List.mem_filter.mp (mem_firstOccurrences.mp hx)).2
      rw [List.filter_cons_of_neg hy, List.filter_cons_of_neg hy, hcomm, hself]

theorem firstOccurrences_eq_self (h : l.Nodup) : firstOccurrences l = l := by
  induction l with
  | nil => rfl
  | cons y l ih =>
    obtain ⟨hy, hl⟩ := List.nodup_cons.mp h
    rw [firstOccurrences, ih hl, List.filter_eq_self.mpr]
    exact fun x hx => decide_eq_true fun hxy => hy (hxy ▸ hx)

theorem foldl_appendNew (acc l : List α) :
    l.foldl appendNew acc = acc ++ (firstOccurrences l).filter (· ∉ acc) := by
  induction l generalizing acc with
  | nil => simp [firstOccurrences]
  | cons y l ih =>
    rw [List.foldl_cons, ih, firstOccurrences, appendNew]
    split
    · next hy =>
      have hfilter : ((firstOccurrences l).filter (· ≠ y)).filter (· ∉ acc) =
          (firstOccurrences l).filter (· ∉ acc) := by
        rw [List.filter_filter]
        refine List.filter_congr fun x _ => ?_
        by_cases hx : x = y <;> simp [hx, hy]
      rw [List.filter_cons_of_neg (by simpa using hy), hfilter]
    · next hy =>
      have hfilter : ((firstOccurrences l).filter (· ≠ y)).filter (· ∉ acc) =
          (firstOccurrences l).filter (· ∉ acc ++ [y]) := by
        rw [List.filter_filter]
        refine List.filter_congr fun x _ => ?_
        simp [Bool.and_comm]
      rw [List.filter_cons_of_pos (by simpa using hy), hfilter, List.append_assoc,
        List.singleton_append]

theorem foldl_appendNew_nil (l : List α) : l.foldl appendNew [] = firstOccurrences l := by
  rw [foldl_appendNew]
  simp

theorem mem_foldl_appendNew {acc : List α} : x ∈ l.foldl appendNew acc ↔ x ∈ acc ∨ x ∈ l := by
  rw [foldl_appendNew, List.mem_append, List.mem_filter, mem_firstOccurrences]
  by_cases h : x ∈ acc <;> simp [h]

theorem foldl_appendNew_nodup {acc : List α} (h : acc.Nodup) : (l.foldl appendNew acc).Nodup := by
  rw [foldl_appendNew]
  refine List.nodup_append.mpr ⟨h, (firstOccurrences_nodup l).filter _, ?_⟩
  rintro x hx y hy rfl
  exact of_decide_eq_true (List.mem_filter.mp hy).2 hx

end

/-- A statement about the characters of a text is decided along the text, not over every
character. -/
instance (priority := high) decidableBallChar (p : Char → Prop) [DecidablePred p]
    (text : List Char) :
    Decidable (∀ c ∈ text, p c) :=
  List.decidableBAll p text

end WarpRust.Library
