import Mathlib
import TerrainPatches.ExpiringCache

/-!
# A cache keeps its entries in order

The entries stand in the strict order of their keys (`Ordered`), and every operation leaves them
so.  A cache is therefore known by what it keeps under which key, the pairs of `toList`:

* `get?_eq_some_iff`   looking a key up finds what is kept under it;
* `mem_toList_insert`  an insertion adds one pair;
* `toList_evict`       an eviction leaves out pairs and changes none;
* `sweep_eq_of_references` what an eviction makes of an entry depends on no other entry's fate;
* `lowerBound_spec`    a bound is the greatest key that is not above the one looked up.
-/

namespace TerrainPatches

namespace ExpiringCache

open Std

variable {κ ν : Type}

theorem mem_objects {c : ExpiringCache κ ν} {o : Shared ν} :
    o ∈ c.objects ↔ ∃ k, (k, o) ∈ c.toList := by
  simp only [objects, toList, List.mem_map, Prod.mk.injEq]
  constructor
  · intro h
    obtain ⟨e, he, rfl⟩ := h
    exact ⟨e.key, e, he, rfl, rfl⟩
  · intro h
    obtain ⟨k, e, he, -, ho⟩ := h
    exact ⟨e, he, ho⟩

theorem mem_toList_of_mem {c : ExpiringCache κ ν} {e : CacheEntry κ ν} (h : e ∈ c.entries) :
    (e.key, e.object) ∈ c.toList :=
  List.mem_map.mpr ⟨e, h, rfl⟩

theorem toList_empty (expiry : Nat) : (empty expiry : ExpiringCache κ ν).toList = [] := rfl
theorem toList_clear (c : ExpiringCache κ ν) : c.clear.toList = [] := rfl

/-! ## eviction -/

/-- what a sweep adds to the entries already kept comes from those that were left -/
theorem sweep_eq_append (expiry : Nat) (outside : ObjectId → Nat) (now : Nat)
    (left : List (CacheEntry κ ν)) : ∀ kept, ∃ es,
      sweep expiry outside now kept left = kept ++ es ∧
        List.Sublist (es.map fun e => (e.key, e.object)) (left.map fun e => (e.key, e.object)) := by
  induction left with
  | nil =>
    intro kept
    exact ⟨[], (List.append_nil kept).symm, List.Sublist.slnil⟩
  | cons e left ih =>
    intro kept
    unfold sweep
    split
    · obtain ⟨es, h, hs⟩ := ih (kept ++ [{ e with lastUsed := now }])
      exact ⟨{ e with lastUsed := now } :: es, by rw [h, List.append_assoc]; rfl, hs.cons_cons _⟩
    · split
      · obtain ⟨es, h, hs⟩ := ih (kept ++ [e])
        exact ⟨e :: es, by rw [h, List.append_assoc]; rfl, hs.cons_cons _⟩
      · obtain ⟨es, h, hs⟩ := ih kept
        exact ⟨es, h, hs.cons _⟩

theorem toList_evict (c : ExpiringCache κ ν) (outside : ObjectId → Nat) (now : Nat) :
    List.Sublist (c.evict outside now).2.toList c.toList := by
  obtain ⟨es, h, hs⟩ := sweep_eq_append c.expiry outside now c.entries []
  show List.Sublist ((sweep c.expiry outside now [] c.entries).map _) _
  rw [h]
  exact hs

/-- an eviction of no entry leaves everything that is kept -/
theorem toList_evict_of_none {c : ExpiringCache κ ν} {outside : ObjectId → Nat} {now : Nat}
    (h : (c.evict outside now).1 = 0) : (c.evict outside now).2.toList = c.toList := by
  have hs := c.toList_evict outside now
  refine hs.eq_of_length ?_
  have hle := hs.length_le
  simp only [toList, List.length_map] at hle ⊢
  have hcount : c.entries.length - (c.evict outside now).2.entries.length = 0 := h
  omega

/-- what an eviction makes of an entry, by the references to its object besides its own -/
def stays (expiry : Nat) (outside : ObjectId → Nat) (now : Nat) (e : CacheEntry κ ν) :
    Option (CacheEntry κ ν) :=
  if 0 < outside e.object.id then some { e with lastUsed := now }
  else if now - e.lastUsed ≤ expiry then some e
  else none

section
variable {expiry : Nat} {outside : ObjectId → Nat} {now : Nat} {e f : CacheEntry κ ν}

theorem stays_eq_none_iff : stays expiry outside now e = none ↔
    outside e.object.id = 0 ∧ expiry < now - e.lastUsed := by
  unfold stays
  split
  · exact iff_of_false (by simp) (by omega)
  · split
    · exact iff_of_false (by simp) (by omega)
    · exact iff_of_true rfl (by omega)

/-- what stays keeps its key and its object, and is marked as used now if it is in use -/
theorem stays_eq_some (h : stays expiry outside now e = some f) : f.key = e.key ∧
    f.object = e.object ∧
    f.lastUsed = if 0 < outside e.object.id then now else e.lastUsed := by
  unfold stays at h
  split at h
  · next used =>
    cases h
    exact ⟨rfl, rfl, (if_pos used).symm⟩
  · next unused =>
    split at h <;> cases h
    exact ⟨rfl, rfl, (if_neg unused).symm⟩

/-- which pairs stay, without the marks -/
theorem map_filterMap_stays (es : List (CacheEntry κ ν)) :
    (es.filterMap (stays expiry outside now)).map (fun e => (e.key, e.object))
      = (es.filter fun e => (stays expiry outside now e).isSome).map fun e => (e.key, e.object) := by
  induction es with
  | nil => rfl
  | cons e es ih =>
    rw [List.filterMap_cons, List.filter_cons]
    cases h : stays expiry outside now e with
    | none => exact ih
    | some f =>
      obtain ⟨key, object, -⟩ := stays_eq_some h
      rw [Option.isSome_some, if_pos rfl, List.map_cons, List.map_cons, ih, key, object]

theorem references_of_nodup {es : List (CacheEntry κ ν)}
    (nodup : (es.map fun e => e.object.id).Nodup) (h : e ∈ es) :
    references es e.object.id = 1 := by
  have once := List.count_eq_one_of_mem nodup (List.mem_map_of_mem h)
  rwa [List.count, List.countP_map] at once

theorem references_append (a b : List (CacheEntry κ ν)) (id : ObjectId) :
    references (a ++ b) id = references a id + references b id := List.countP_append

theorem references_cons (e : CacheEntry κ ν) (es : List (CacheEntry κ ν)) (id : ObjectId) :
    references (e :: es) id = references es id + if e.object.id = id then 1 else 0 := by
  simp only [references, List.countP_cons, beq_iff_eq]

/-- the number of references that a sweep compares with is taken anew at each entry, while it marks
and forgets others; but an object that has another entry is never forgotten, so the number is what
it was at first -/
theorem sweep_eq_of_references (n : ObjectId → Nat) (left : List (CacheEntry κ ν)) : ∀ kept,
    (∀ e ∈ left, references (kept ++ left) e.object.id = n e.object.id) →
      sweep expiry outside now kept left = kept
        ++ left.filterMap (stays expiry (fun id => outside id + n id - 1) now) := by
  induction left with
  | nil =>
    intro kept _
    exact (List.append_nil kept).symm
  | cons e left ih =>
    intro kept counted
    obtain ⟨here, later⟩ := List.forall_mem_cons.mp counted
    have own : references (kept ++ e :: left) e.object.id
        = references (kept ++ left) e.object.id + 1 := by
      simp only [references_append, references_cons, if_pos]
      omega
    have marked : ∀ f : CacheEntry κ ν, f.object = e.object → ∀ g ∈ left,
        references ((kept ++ [f]) ++ left) g.object.id = n g.object.id := by
      intro f hf g hg
      rw [← later g hg, List.append_assoc, List.singleton_append]
      simp only [references_append, references_cons, hf]
    unfold sweep
    rw [here, List.filterMap_cons]
    by_cases used : 0 < outside e.object.id + n e.object.id - 1
    · rw [if_pos (by omega), ih _ (marked { e with lastUsed := now } rfl), stays, if_pos used,
        List.append_assoc]
      rfl
    · rw [if_neg (by omega), stays, if_neg used]
      split
      · rw [ih _ (marked _ rfl), List.append_assoc]
        rfl
      · refine ih _ fun g hg => ?_
        -- what goes is the only entry of its object
        have other : e.object.id ≠ g.object.id := by
          intro same
          have another : 0 < references (kept ++ left) e.object.id :=
            List.countP_pos_iff.mpr ⟨g, List.mem_append_right _ hg, beq_iff_eq.mpr same.symm⟩
          omega
        rw [← later g hg]
        simp only [references_append, references_cons, if_neg other, Nat.add_zero]

/-- if no object stands twice, only the references from outside count -/
theorem sweep_eq_filterMap (left : List (CacheEntry κ ν)) (kept : List (CacheEntry κ ν))
    (nodup : ((kept ++ left).map fun e => e.object.id).Nodup) :
    sweep expiry outside now kept left = kept ++ left.filterMap (stays expiry outside now) :=
  sweep_eq_of_references (fun _ => 1) left kept fun _ he =>
    references_of_nodup nodup (List.mem_append_right _ he)

end

/-! ## order -/

section
variable [Ord κ]

/-- the entries stand in the order of their keys, each key once -/
def Ordered (c : ExpiringCache κ ν) : Prop :=
  c.toList.Pairwise fun a b => compare a.1 b.1 = .lt

theorem ordered_empty (expiry : Nat) : (empty expiry : ExpiringCache κ ν).Ordered :=
  List.Pairwise.nil

theorem ordered_clear (c : ExpiringCache κ ν) : c.clear.Ordered := List.Pairwise.nil

theorem Ordered.evict {c : ExpiringCache κ ν} (h : c.Ordered) (outside : ObjectId → Nat)
    (now : Nat) : (c.evict outside now).2.Ordered :=
  List.Pairwise.sublist (c.toList_evict outside now) h

theorem toList_remove (c : ExpiringCache κ ν) (k : κ) :
    List.Sublist (c.remove k).toList c.toList :=
  List.filter_sublist.map _

theorem Ordered.remove {c : ExpiringCache κ ν} (h : c.Ordered) (k : κ) : (c.remove k).Ordered :=
  List.Pairwise.sublist (c.toList_remove k) h

/-! ### insertion -/

theorem mem_place {e f : CacheEntry κ ν} {es : List (CacheEntry κ ν)} (h : f ∈ place e es) :
    f = e ∨ f ∈ es := by
  induction es with
  | nil => exact .inl (List.mem_singleton.mp h)
  | cons g es ih =>
    unfold place at h
    split at h
    · exact List.mem_cons.mp h
    · cases List.mem_cons.mp h with
      | inl h => exact .inl h
      | inr h => exact .inr (List.mem_cons_of_mem g h)
    · cases List.mem_cons.mp h with
      | inl h => exact .inr (h ▸ List.mem_cons_self)
      | inr h => exact (ih h).imp_right (List.mem_cons_of_mem g)

theorem mem_place_self (e : CacheEntry κ ν) (es : List (CacheEntry κ ν)) : e ∈ place e es := by
  induction es with
  | nil => exact List.mem_singleton_self e
  | cons g es ih =>
    unfold place
    split
    · exact List.mem_cons_self
    · exact List.mem_cons_self
    · exact List.mem_cons_of_mem g ih

theorem mem_toList_insert_self (c : ExpiringCache κ ν) (k : κ) (o : Shared ν) (now : Nat) :
    (k, o) ∈ (c.insert k o now).toList :=
  List.mem_map.mpr ⟨⟨k, o, now⟩, mem_place_self _ _, rfl⟩

theorem mem_toList_insert {c : ExpiringCache κ ν} {k : κ} {o : Shared ν} {now : Nat}
    {a : κ × Shared ν} (h : a ∈ (c.insert k o now).toList) : a = (k, o) ∨ a ∈ c.toList := by
  obtain ⟨e, he, rfl⟩ := List.mem_map.mp h
  cases mem_place he with
  | inl h => exact .inl (by rw [h])
  | inr h => exact .inr (mem_toList_of_mem h)

/-- what is placed takes the place of a key only from an entry with its own -/
theorem exists_mem_place [LawfulEqOrd κ] (e : CacheEntry κ ν) {es : List (CacheEntry κ ν)}
    {f : CacheEntry κ ν} (h : f ∈ es) : ∃ g ∈ place e es, g.key = f.key := by
  induction es with
  | nil => cases h
  | cons g es ih =>
    unfold place
    split
    · exact ⟨f, List.mem_cons_of_mem e h, rfl⟩
    · next heq =>
      cases List.mem_cons.mp h with
      | inl h => exact ⟨e, List.mem_cons_self, by rw [h]; exact LawfulEqCmp.eq_of_compare heq⟩
      | inr h => exact ⟨f, List.mem_cons_of_mem e h, rfl⟩
    · cases List.mem_cons.mp h with
      | inl h => exact ⟨g, List.mem_cons_self, by rw [h]⟩
      | inr h =>
        obtain ⟨g', hg', hk⟩ := ih h
        exact ⟨g', List.mem_cons_of_mem g hg', hk⟩

/-- an insertion loses no key -/
theorem exists_mem_toList_insert [LawfulEqOrd κ] {c : ExpiringCache κ ν} (k : κ) (o : Shared ν)
    (now : Nat) {a : κ × Shared ν} (h : a ∈ c.toList) :
    ∃ b ∈ (c.insert k o now).toList, b.1 = a.1 := by
  obtain ⟨e, he, rfl⟩ := List.mem_map.mp h
  obtain ⟨g, hg, hk⟩ := exists_mem_place ⟨k, o, now⟩ he
  exact ⟨(g.key, g.object), mem_toList_of_mem hg, hk⟩

theorem pairwise_place [TransOrd κ] [LawfulEqOrd κ] (e : CacheEntry κ ν)
    (es : List (CacheEntry κ ν)) (h : es.Pairwise fun a b => compare a.key b.key = .lt) :
    (place e es).Pairwise fun a b => compare a.key b.key = .lt := by
  induction es with
  | nil => exact List.pairwise_singleton _ _
  | cons f es ih =>
    obtain ⟨hf, hes⟩ := List.pairwise_cons.mp h
    unfold place
    split
    · next hlt =>
      refine List.pairwise_cons.mpr ⟨?_, h⟩
      intro g hg
      cases List.mem_cons.mp hg with
      | inl hg => rwa [hg]
      | inr hg => exact TransCmp.lt_trans hlt (hf g hg)
    · next heq =>
      have hk : e.key = f.key := LawfulEqCmp.eq_of_compare heq
      refine List.pairwise_cons.mpr ⟨?_, hes⟩
      intro g hg
      rw [hk]
      exact hf g hg
    · next hgt =>
      refine List.pairwise_cons.mpr ⟨?_, ih hes⟩
      intro g hg
      cases mem_place hg with
      | inl hg => rw [hg]; exact OrientedCmp.lt_of_gt hgt
      | inr hg => exact hf g hg

theorem Ordered.insert [TransOrd κ] [LawfulEqOrd κ] {c : ExpiringCache κ ν} (h : c.Ordered)
    (k : κ) (o : Shared ν) (now : Nat) : (c.insert k o now).Ordered :=
  List.pairwise_map.mpr (pairwise_place _ _ (List.pairwise_map.mp h))

/-! ### looking up -/

theorem Ordered.nodup_keys [LawfulEqOrd κ] {c : ExpiringCache κ ν} (h : c.Ordered) :
    (c.toList.map Prod.fst).Nodup := by
  refine List.pairwise_map.mpr (h.imp ?_)
  intro a b hlt hk
  rw [hk, ReflOrd.compare_self] at hlt
  cases hlt

/-- an entry is known by its key -/
theorem Ordered.eq_of_key [LawfulEqOrd κ] {c : ExpiringCache κ ν} (h : c.Ordered)
    {e f : CacheEntry κ ν} (he : e ∈ c.entries) (hf : f ∈ c.entries) (hk : e.key = f.key) :
    e = f := by
  have keys : (c.entries.map (·.key)).Nodup := by
    have := h.nodup_keys
    rwa [toList, List.map_map] at this
  exact List.inj_on_of_nodup_map keys he hf hk

/-- a key stands for at most one object -/
theorem Ordered.unique [LawfulEqOrd κ] {c : ExpiringCache κ ν} (h : c.Ordered) {k : κ}
    {o o' : Shared ν} (ho : (k, o) ∈ c.toList) (ho' : (k, o') ∈ c.toList) : o = o' :=
  (Prod.mk.inj (List.inj_on_of_nodup_map h.nodup_keys ho ho' rfl)).2

theorem get?_eq_none_iff [LawfulEqOrd κ] {c : ExpiringCache κ ν} {k : κ} :
    c.get? k = none ↔ ∀ o, (k, o) ∉ c.toList := by
  simp only [get?, find?, toList, Option.map_eq_none_iff, List.find?_eq_none, beq_iff_eq,
    LawfulEqCmp.compare_eq_iff_eq, List.mem_map, Prod.mk.injEq, not_exists, not_and]
  constructor
  · intro h o e he hk
    exact absurd hk (h e he)
  · intro h e he hk
    exact h e.object e he hk rfl

theorem mem_toList_of_get? [LawfulEqOrd κ] {c : ExpiringCache κ ν} {k : κ} {o : Shared ν}
    (h : c.get? k = some o) : (k, o) ∈ c.toList := by
  obtain ⟨e, he, rfl⟩ := Option.map_eq_some_iff.mp h
  have hk := beq_iff_eq.mp (List.find?_some he :)
  rw [← LawfulEqCmp.eq_of_compare hk]
  exact mem_toList_of_mem (List.mem_of_find?_eq_some he)

theorem Ordered.get?_eq_some_iff [LawfulEqOrd κ] {c : ExpiringCache κ ν} (h : c.Ordered) {k : κ}
    {o : Shared ν} : c.get? k = some o ↔ (k, o) ∈ c.toList := by
  constructor
  · exact mem_toList_of_get?
  · intro ho
    cases hget : c.get? k with
    | none => exact absurd ho (get?_eq_none_iff.mp hget o)
    | some o' => rw [h.unique ho (mem_toList_of_get? hget)]

/-- what is put under a new key takes the place of nothing -/
theorem Ordered.mem_toList_insert_of_new [LawfulEqOrd κ] {c : ExpiringCache κ ν} (h : c.Ordered)
    {k : κ} {o : Shared ν} {now : Nat} (new : c.get? k = none) {a : κ × Shared ν}
    (ha : a ∈ c.toList) : a ∈ (c.insert k o now).toList := by
  obtain ⟨b, hb, hk⟩ := exists_mem_toList_insert k o now ha
  have here : (b.1, a.2) ∈ c.toList := by
    rw [hk]
    exact ha
  have old : b ∈ c.toList := by
    refine (mem_toList_insert hb).resolve_left ?_
    rintro rfl
    exact get?_eq_none_iff.mp new a.2 here
  have same : b = a := Prod.ext hk (h.unique old here)
  exact same ▸ hb

theorem mem_of_lowerBound {c : ExpiringCache κ ν} {k : κ} {e : CacheEntry κ ν}
    (h : c.lowerBound k = some e) : e ∈ c.entries :=
  (List.mem_filter.mp (List.mem_of_getLast? h)).1

theorem lowerBound_eq_none_iff {c : ExpiringCache κ ν} {k : κ} :
    c.lowerBound k = none ↔ ∀ a ∈ c.toList, ¬ (compare a.1 k).isLE := by
  simp only [lowerBound, toList, List.getLast?_eq_none_iff, List.filter_eq_nil_iff, List.mem_map]
  constructor
  · intro h a ha
    obtain ⟨e, he, rfl⟩ := ha
    exact h e he
  · intro h e he
    exact h _ ⟨e, he, rfl⟩

/-- a bound is kept, is not above the key, and no other key between them is kept -/
theorem Ordered.lowerBound_spec [OrientedOrd κ] {c : ExpiringCache κ ν} (h : c.Ordered) {k : κ}
    {e : CacheEntry κ ν} (he : c.lowerBound k = some e) :
    (e.key, e.object) ∈ c.toList ∧ (compare e.key k).isLE ∧
      ∀ a ∈ c.toList, (compare a.1 k).isLE → (compare a.1 e.key).isLE := by
  obtain ⟨es, hes⟩ := List.getLast?_eq_some_iff.mp he
  have hmem : e ∈ c.entries.filter fun e => (compare e.key k).isLE := by
    rw [hes]
    exact List.mem_append_right es List.mem_cons_self
  obtain ⟨hin, hle⟩ := List.mem_filter.mp hmem
  refine ⟨mem_toList_of_mem hin, hle, ?_⟩
  intro a ha hak
  obtain ⟨f, hf, rfl⟩ := List.mem_map.mp ha
  have hsorted : (es ++ [e]).Pairwise fun a b => compare a.key b.key = .lt := by
    rw [← hes]
    exact (List.pairwise_map.mp h).filter _
  have hfe : f ∈ es ++ [e] := by
    rw [← hes]
    exact List.mem_filter.mpr ⟨hf, hak⟩
  cases List.mem_append.mp hfe with
  | inl hfes =>
    have hlt := (List.pairwise_append.mp hsorted).2.2 f hfes e List.mem_cons_self
    show (compare f.key e.key).isLE
    rw [hlt]
    rfl
  | inr hfes =>
    rw [List.mem_singleton.mp hfes]
    exact ReflCmp.isLE_rfl

end

end ExpiringCache

end TerrainPatches
