import Mathlib

/-!
# Sorting by a key, and serving the least element

A list sorted by a key `f` into a linear order is determined by its elements when `f` tells them
apart (`eq_sortByKey`): sorting commutes with renaming the elements (`map_sortByKey`) and does
not see their order (`sortByKey_eq_of_perm`). The least element by `f`, found by a scan that keeps
the first least one (`argminBy`), is the first element with the least key (`argminBy_eq_some`) and
the head of the sorted list (`argminBy_eq_head?`).

Serving the least element, by giving it a key above every other, moves it from the head of the
sorted list to its end (`sortByKey_serve`); so serving `k` times serves the first `k` elements of
the sorted list in order, the sorted list being rotated by one each time.
-/

namespace SortKey

variable {ι γ : Type*}

/-- `f` tells the elements of `l` apart. -/
def InjOn (f : ι → γ) (l : List ι) : Prop := ∀ a ∈ l, ∀ b ∈ l, f a = f b → a = b

variable [LinearOrder γ] (f : ι → γ)

/-- The list sorted by `f`, by insertion sort. -/
def sortByKey (l : List ι) : List ι := l.insertionSort fun a b => f a ≤ f b

/-- The first least element of `l` by `f`: a scan that replaces the best element so far only by
a strictly less one. -/
def argminBy (l : List ι) : Option ι :=
  l.foldl (fun best x => match best with
    | none => some x
    | some b => if f x < f b then some x else best) none

variable {f}

theorem sortByKey_perm (l : List ι) : (sortByKey f l).Perm l := List.perm_insertionSort _ l

theorem mem_sortByKey {l : List ι} {a : ι} : a ∈ sortByKey f l ↔ a ∈ l :=
  (sortByKey_perm l).mem_iff

theorem sortByKey_pairwise (l : List ι) : (sortByKey f l).Pairwise fun a b => f a ≤ f b := by
  have : Std.Total fun a b : ι => f a ≤ f b := ⟨fun a b => le_total (f a) (f b)⟩
  have : IsTrans ι fun a b => f a ≤ f b := ⟨fun _ _ _ => le_trans⟩
  exact List.pairwise_insertionSort _ l

/-- A list with the elements of `l` that is sorted by a key telling them apart is the sorted
list. -/
theorem eq_sortByKey {l l' : List ι} (hinj : InjOn f l) (hp : l'.Perm l)
    (hs : l'.Pairwise fun a b => f a ≤ f b) : l' = sortByKey f l :=
  (hp.trans (sortByKey_perm l).symm).eq_of_pairwise
    (fun a b ha hb hab hba => hinj a (hp.subset ha) b ((sortByKey_perm l).subset hb)
      (le_antisymm hab hba)) hs (sortByKey_pairwise l)

/-- Sorting does not see the order of the elements. -/
theorem sortByKey_eq_of_perm {l l' : List ι} (hinj : InjOn f l) (hp : l'.Perm l) :
    sortByKey f l' = sortByKey f l :=
  eq_sortByKey hinj ((sortByKey_perm l').trans hp) (sortByKey_pairwise l')

/-- Sorting commutes with renaming the elements, when the key of a renamed element is the key of
the element. -/
theorem map_sortByKey {κ : Type*} {g : ι → κ} {f' : κ → γ} {l : List ι} (hinj : InjOn f l)
    (hf : ∀ a ∈ l, f' (g a) = f a) : (sortByKey f l).map g = sortByKey f' (l.map g) := by
  have hinj' : InjOn f' (l.map g) := by
    intro a ha b hb hab
    obtain ⟨a, ha', rfl⟩ := List.mem_map.1 ha
    obtain ⟨b, hb', rfl⟩ := List.mem_map.1 hb
    rw [hf a ha', hf b hb'] at hab
    rw [hinj a ha' b hb' hab]
  refine eq_sortByKey hinj' ((sortByKey_perm l).map g) ?_
  refine List.pairwise_map.2 ((sortByKey_pairwise l).imp_of_mem fun ha hb hab => ?_)
  rwa [hf _ (mem_sortByKey.1 ha), hf _ (mem_sortByKey.1 hb)]

/-- The head of the sorted list is an element with the least key. -/
theorem head_sortByKey {l rest : List ι} {m : ι} (h : sortByKey f l = m :: rest) :
    m ∈ l ∧ ∀ x ∈ l, f m ≤ f x := by
  have hp := sortByKey_pairwise (f := f) l
  rw [h, List.pairwise_cons] at hp
  refine ⟨mem_sortByKey.1 (h ▸ List.mem_cons_self), fun x hx => ?_⟩
  have hx' : x ∈ m :: rest := h ▸ mem_sortByKey.2 hx
  rcases List.mem_cons.1 hx' with rfl | hx'
  · exact le_rfl
  · exact hp.1 x hx'

/-- The scan from a best element `b` ends at an element of `b :: l` with the least key. -/
theorem foldl_argmin (l : List ι) (b : ι) :
    ∃ m, l.foldl (fun best x => match best with
      | none => some x
      | some b => if f x < f b then some x else best) (some b) = some m ∧
      m ∈ b :: l ∧ ∀ x ∈ b :: l, f m ≤ f x := by
  induction l generalizing b with
  | nil => exact ⟨b, rfl, List.mem_cons_self, fun x hx => by simp_all⟩
  | cons y l ih =>
    -- the best element after `y` is the less of `b` and `y`
    by_cases hy : f y < f b
    · obtain ⟨m, hm, hmem, hle⟩ := ih y
      refine ⟨m, by simpa [hy] using hm, ?_, fun x hx => ?_⟩
      · simp only [List.mem_cons] at hmem ⊢
        tauto
      · simp only [List.mem_cons] at hx
        rcases hx with rfl | rfl | hx
        · exact (hle y List.mem_cons_self).trans hy.le
        · exact hle x List.mem_cons_self
        · exact hle x (List.mem_cons_of_mem _ hx)
    · obtain ⟨m, hm, hmem, hle⟩ := ih b
      refine ⟨m, by simpa [hy] using hm, ?_, fun x hx => ?_⟩
      · simp only [List.mem_cons] at hmem ⊢
        tauto
      · simp only [List.mem_cons] at hx
        rcases hx with rfl | rfl | hx
        · exact hle x List.mem_cons_self
        · exact (hle b List.mem_cons_self).trans (not_lt.1 hy)
        · exact hle x (List.mem_cons_of_mem _ hx)

@[simp] theorem argminBy_singleton (a : ι) : argminBy f [a] = some a := rfl

/-- One step of the scan: the second element replaces the first when its key is strictly less. -/
theorem argminBy_cons_cons (a b : ι) (l : List ι) :
    argminBy f (a :: b :: l) = if f b < f a then argminBy f (b :: l) else argminBy f (a :: l) := by
  by_cases h : f b < f a <;> simp [argminBy, h]

/-- The scan from a best element `b` ends at the first element of `b :: l` with the least key:
every element before it has a greater key, none after it a smaller one. -/
theorem foldl_argmin_first {l : List ι} {b m : ι}
    (h : l.foldl (fun best x => match best with
      | none => some x
      | some b => if f x < f b then some x else best) (some b) = some m) :
    ∃ pre post, b :: l = pre ++ m :: post ∧ (∀ x ∈ pre, f m < f x) ∧ ∀ x ∈ post, f m ≤ f x := by
  induction l generalizing b with
  | nil =>
    cases h
    exact ⟨[], [], rfl, by simp, by simp⟩
  | cons y l ih =>
    by_cases hy : f y < f b
    · -- `y` becomes the best element, and `m` is at most `y`, so below `b`
      simp only [List.foldl_cons, hy, if_true] at h
      obtain ⟨pre, post, heq, hpre, hpost⟩ := ih h
      have hmy : f m ≤ f y := by
        rcases pre with _ | ⟨z, pre⟩
        · simp only [List.nil_append, List.cons.injEq] at heq
          rw [heq.1]
        · simp only [List.cons_append, List.cons.injEq] at heq
          rw [heq.1]
          exact (hpre z List.mem_cons_self).le
      refine ⟨b :: pre, post, by rw [heq]; rfl, fun x hx => ?_, hpost⟩
      rcases List.mem_cons.1 hx with rfl | hx
      · exact lt_of_le_of_lt hmy hy
      · exact hpre x hx
    · -- `b` stays the best element, and `y` joins the elements after it or before `m`
      simp only [List.foldl_cons, hy, if_false] at h
      obtain ⟨pre, post, heq, hpre, hpost⟩ := ih h
      rcases pre with _ | ⟨z, pre⟩
      · simp only [List.nil_append, List.cons.injEq] at heq
        obtain ⟨rfl, rfl⟩ := heq
        refine ⟨[], y :: l, rfl, by simp, fun x hx => ?_⟩
        rcases List.mem_cons.1 hx with rfl | hx
        · exact not_lt.1 hy
        · exact hpost x hx
      · simp only [List.cons_append, List.cons.injEq] at heq
        obtain ⟨rfl, rfl⟩ := heq
        have hmb : f m < f b := hpre b List.mem_cons_self
        refine ⟨b :: y :: pre, post, rfl, fun x hx => ?_, hpost⟩
        simp only [List.mem_cons] at hx
        rcases hx with rfl | rfl | hx
        · exact hmb
        · exact lt_of_lt_of_le hmb (not_lt.1 hy)
        · exact hpre x (List.mem_cons_of_mem _ hx)

/-- What the scan finds is the first element with the least key. -/
theorem argminBy_eq_some {l : List ι} {m : ι} (h : argminBy f l = some m) :
    ∃ pre post, l = pre ++ m :: post ∧ (∀ x ∈ pre, f m < f x) ∧ ∀ x ∈ post, f m ≤ f x := by
  cases l with
  | nil => cases h
  | cons a l => exact foldl_argmin_first h

/-- The scan finds an element exactly when the list has one. -/
theorem argminBy_isSome {l : List ι} : (argminBy f l).isSome ↔ l ≠ [] := by
  cases l with
  | nil => simp [argminBy]
  | cons a l =>
    obtain ⟨m, hm, -⟩ := foldl_argmin (f := f) l a
    simp only [ne_eq, reduceCtorEq, not_false_eq_true, iff_true]
    exact Option.isSome_iff_exists.2 ⟨m, hm⟩

/-- In a list sorted by `f`, the elements up to a bound on `f` are a prefix. -/
theorem takeWhile_le_eq_filter {l : List ι} (hs : l.Pairwise fun a b => f a ≤ f b) (c : γ) :
    l.takeWhile (fun x => decide (f x ≤ c)) = l.filter (fun x => decide (f x ≤ c)) := by
  induction l with
  | nil => rfl
  | cons a l ih =>
    rw [List.pairwise_cons] at hs
    by_cases ha : f a ≤ c
    · simp [ha, ih hs.2]
    · -- every element after `a` is above `c` as well
      have hrest : l.filter (fun x => decide (f x ≤ c)) = [] :=
        List.filter_eq_nil_iff.2 fun x hx hxc =>
          ha (le_trans (hs.1 x hx) (of_decide_eq_true hxc))
      simp [ha, hrest]

/-- When `f` tells the elements apart, the scan finds the head of the sorted list. -/
theorem argminBy_eq_head? {l : List ι} (hinj : InjOn f l) :
    argminBy f l = (sortByKey f l).head? := by
  cases hl : l with
  | nil => rfl
  | cons a l' =>
    obtain ⟨m, hm, hmem, hle⟩ := foldl_argmin (f := f) l' a
    have hargmin : argminBy f (a :: l') = some m := hm
    cases hs : sortByKey f (a :: l') with
    | nil =>
      have hlen := (sortByKey_perm (f := f) (a :: l')).length_eq
      rw [hs] at hlen
      simp at hlen
    | cons h rest =>
      obtain ⟨hmem', hle'⟩ := head_sortByKey hs
      rw [hargmin, List.head?_cons]
      subst hl
      exact congrArg some (hinj m hmem h hmem' (le_antisymm (hle h hmem') (hle' m hmem)))

/-- Serving the least element: when its new key is above the key of every other element, and the
other keys stay, it moves from the head of the sorted list to the end. -/
theorem sortByKey_serve {g : ι → γ} {l rest : List ι} {m : ι} (hnd : l.Nodup)
    (hinj : InjOn f l) (hs : sortByKey f l = m :: rest) (hg : ∀ x ∈ l, x ≠ m → g x = f x)
    (hgm : ∀ x ∈ l, x ≠ m → g x < g m) : sortByKey g l = rest ++ [m] := by
  have hp : (rest ++ [m]).Perm l :=
    List.perm_append_singleton m rest |>.trans (hs ▸ sortByKey_perm l)
  have hnd' : (m :: rest).Nodup := hs ▸ (sortByKey_perm l).nodup_iff.2 hnd
  have hrest : ∀ x ∈ rest, x ∈ l ∧ x ≠ m := fun x hx =>
    ⟨hp.subset (List.mem_append_left _ hx), fun h => (List.nodup_cons.1 hnd').1 (h ▸ hx)⟩
  -- `g` tells the elements apart: it is `f` off `m`, and `m` is above the rest
  have hinj' : InjOn g l := by
    intro a ha b hb hab
    by_cases ham : a = m
    · by_cases hbm : b = m
      · rw [ham, hbm]
      · exact absurd hab (ne_of_gt (ham ▸ hgm b hb hbm))
    · by_cases hbm : b = m
      · exact absurd hab (ne_of_lt (hbm ▸ hgm a ha ham))
      · exact hinj a ha b hb (by rwa [hg a ha ham, hg b hb hbm] at hab)
  refine (eq_sortByKey hinj' hp ?_).symm
  have hsorted := sortByKey_pairwise (f := f) l
  rw [hs, List.pairwise_cons] at hsorted
  refine List.pairwise_append.2 ⟨hsorted.2.imp_of_mem fun ha hb hab => ?_, by simp, ?_⟩
  · rwa [hg _ (hrest _ ha).1 (hrest _ ha).2, hg _ (hrest _ hb).1 (hrest _ hb).2]
  · intro x hx y hy
    rw [List.mem_singleton] at hy
    subst hy
    exact (hgm x (hrest x hx).1 (hrest x hx).2).le

/-- The heads of the first `k` rotations of a list are its first `k` elements. -/
theorem map_range_head?_rotate {l : List ι} {k : ℕ} (hk : k ≤ l.length) :
    (List.range k).map (fun i => (l.rotate i).head?) = (l.take k).map some := by
  refine List.ext_getElem (by simp [hk]) fun i hi _ => ?_
  have hik : i < k := by simpa using hi
  simp [List.head?_rotate (lt_of_lt_of_le hik hk)]

end SortKey
