import TerrainPatches.Proofs.Cache.Order

/-!
# What a cache forgets, by its history

A cache reads off the references to an object whether anything uses it.  Told from outside, an entry
is in use while a name holds its object or another entry has the same object
(`Shelf.Referenced`), and its last use is the insertion under its key or a later eviction that found
it in use (`Shelf.lastUse`).  `Shelf.evict_of_run` says by these what an eviction does after any
uses of the cache, of objects that stand under several keys too.

An object under two keys keeps itself in use: no name holds it, and it is never forgotten
(`Shelf.kept_by_itself`).
-/

namespace TerrainPatches

open Std

/-- the last time that a past tells of is that of its last step, if this tells of one -/
theorem latest_append {α β : Type} (time? : α → Option β) (past : List α) (a : α) :
    ((past ++ [a]).filterMap time?).getLast? = (time? a).or (past.filterMap time?).getLast? := by
  rw [List.filterMap_append, List.getLast?_append, List.filterMap_cons]
  cases time? a <;> rfl

/-- a cache, and what is held outside of it -/
structure Shelf (κ ν : Type) where
  cache : ExpiringCache κ ν
  holders : Holders ν

namespace Shelf

variable {κ ν : Type}

inductive Use (κ ν : Type) where
  | insert (k : κ) (o : Shared ν) (now : Nat)
  | remove (k : κ)
  /-- to look a key up, and the name that is to hold what is found -/
  | get (k : κ) (name : Option String)
  | clear
  | evict (now : Nat)
  | hold (name : String) (o : Shared ν)
  | drop (name : String)

/-- nothing is cached -/
def bare (expiry : Nat) (holders : Holders ν) : Shelf κ ν := ⟨.empty expiry, holders⟩

/-- marks what is in use and forgets what has expired; how many entries went -/
def evict (s : Shelf κ ν) (now : Nat) : Nat × Shelf κ ν :=
  ((s.cache.evict s.holders.count now).1,
    { s with cache := (s.cache.evict s.holders.count now).2 })

variable [Ord κ]

/-- `name` holds what is found under a key -/
def take (s : Shelf κ ν) (k : κ) (name : String) : Shelf κ ν :=
  match s.cache.get? k with
  | some o => { s with holders := s.holders.hold name o }
  | none => s

def use (s : Shelf κ ν) : Use κ ν → Shelf κ ν
  | .insert k o now => { s with cache := s.cache.insert k o now }
  | .remove k => { s with cache := s.cache.remove k }
  | .get k (some name) => s.take k name
  | .get _ none => s
  | .clear => { s with cache := s.cache.clear }
  | .evict now => (s.evict now).2
  | .hold name o => { s with holders := s.holders.hold name o }
  | .drop name => { s with holders := s.holders.drop name }

def run (s : Shelf κ ν) (us : List (Use κ ν)) : Shelf κ ν := us.foldl use s

/-- the uses of a run, each with what it meets -/
def trace (s : Shelf κ ν) : List (Use κ ν) → List (Shelf κ ν × Use κ ν)
  | [] => []
  | u :: us => (s, u) :: (s.use u).trace us

/-! ## in use -/

/-- a name holds the object of the entry, or another entry has the same object -/
def Referenced (s : Shelf κ ν) (e : CacheEntry κ ν) : Prop :=
  (∃ h ∈ s.holders.held, h.2.id = e.object.id) ∨
    ∃ f ∈ s.cache.entries, compare f.key e.key ≠ .eq ∧ f.object.id = e.object.id

instance (s : Shelf κ ν) (e : CacheEntry κ ν) : Decidable (s.Referenced e) :=
  inferInstanceAs (Decidable (_ ∨ _))

/-- an object has more than one entry if there is another one besides this -/
theorem one_lt_references_iff [LawfulEqOrd κ] {c : ExpiringCache κ ν} (ordered : c.Ordered)
    {e : CacheEntry κ ν} (he : e ∈ c.entries) :
    1 < ExpiringCache.references c.entries e.object.id ↔
      ∃ f ∈ c.entries, compare f.key e.key ≠ .eq ∧ f.object.id = e.object.id := by
  obtain ⟨before, after, hsplit⟩ := List.append_of_mem he
  have perm : c.entries.Perm (e :: (before ++ after)) := hsplit ▸ List.perm_middle
  have once : e ∉ before ++ after := by
    have entries : c.entries.Nodup := .of_map _ (.of_map Prod.fst ordered.nodup_keys)
    exact (List.nodup_cons.mp (perm.nodup_iff.mp entries)).1
  have others (f : CacheEntry κ ν) :
      f ∈ before ++ after ↔ f ∈ c.entries ∧ compare f.key e.key ≠ .eq := by
    rw [perm.mem_iff, List.mem_cons]
    constructor
    · intro hf
      refine ⟨.inr hf, fun same => once ?_⟩
      have hfe := ordered.eq_of_key (perm.mem_iff.mpr (List.mem_cons_of_mem e hf)) he
        (LawfulEqCmp.eq_of_compare same)
      rwa [← hfe]
    · rintro ⟨rfl | hf, other⟩
      · exact absurd ReflOrd.compare_self other
      · exact hf
  have count : ExpiringCache.references c.entries e.object.id
      = ExpiringCache.references (before ++ after) e.object.id + 1 := by
    rw [ExpiringCache.references, perm.countP_eq]
    exact List.countP_cons_of_pos (beq_self_eq_true e.object.id)
  rw [count, Nat.lt_add_left_iff_pos, ExpiringCache.references, List.countP_pos_iff]
  simp only [others, beq_iff_eq, and_assoc]

theorem referenced_iff [LawfulEqOrd κ] {s : Shelf κ ν} (ordered : s.cache.Ordered)
    {e : CacheEntry κ ν} (he : e ∈ s.cache.entries) :
    0 < s.holders.count e.object.id + ExpiringCache.references s.cache.entries e.object.id - 1 ↔
      s.Referenced e := by
  have own : 0 < ExpiringCache.references s.cache.entries e.object.id :=
    List.countP_pos_iff.mpr ⟨e, he, beq_self_eq_true _⟩
  have held : 0 < s.holders.count e.object.id ↔ ∃ h ∈ s.holders.held, h.2.id = e.object.id := by
    simp only [Holders.count, List.countP_pos_iff, beq_iff_eq]
  rw [Referenced, ← held, ← one_lt_references_iff ordered he]
  omega

/-! ## the last use -/

/-- when a use of the cache is a use of what is under a key: it puts it there, or it is an eviction
that finds it in use -/
def usedAt (s : Shelf κ ν) (k : κ) : Use κ ν → Option Nat
  | .insert k' _ now => if compare k' k = .eq then some now else none
  | .evict now =>
    if ∃ e ∈ s.cache.entries, compare e.key k = .eq ∧ s.Referenced e then some now else none
  | _ => none

/-- when what is under a key was used last, by the order of the uses and not of their times -/
def lastUse (past : List (Shelf κ ν × Use κ ν)) (k : κ) : Option Nat :=
  (past.filterMap fun s => s.1.usedAt k s.2).getLast?

theorem lastUse_append (past : List (Shelf κ ν × Use κ ν)) (s : Shelf κ ν) (u : Use κ ν) (k : κ) :
    lastUse (past ++ [(s, u)]) k = (s.usedAt k u).or (lastUse past k) :=
  latest_append _ past (s, u)

/-- an entry is not in use, and was used last longer ago than `expiry` -/
def Expires (s : Shelf κ ν) (past : List (Shelf κ ν × Use κ ν)) (expiry now : Nat)
    (e : CacheEntry κ ν) : Prop :=
  ¬ s.Referenced e ∧ ∃ t ∈ lastUse past e.key, t + expiry < now

instance (s : Shelf κ ν) (past : List (Shelf κ ν × Use κ ν)) (expiry now : Nat)
    (e : CacheEntry κ ν) : Decidable (s.Expires past expiry now e) :=
  inferInstanceAs (Decidable (_ ∧ _))

/-- what an eviction makes of an entry that it does not forget -/
def mark (s : Shelf κ ν) (now : Nat) (e : CacheEntry κ ν) : CacheEntry κ ν :=
  if s.Referenced e then { e with lastUsed := now } else e

/-! ## the times of the entries -/

/-- the entries carry the times of the last uses -/
structure Timed (expiry : Nat) (s : Shelf κ ν) (past : List (Shelf κ ν × Use κ ν)) : Prop where
  ordered : s.cache.Ordered
  expiry : s.cache.expiry = expiry
  times : ∀ e ∈ s.cache.entries, lastUse past e.key = some e.lastUsed

variable {s : Shelf κ ν} {past : List (Shelf κ ν × Use κ ν)} {expiry : Nat}

theorem timed_bare (expiry : Nat) (holders : Holders ν) :
    (bare expiry holders : Shelf κ ν).Timed expiry [] :=
  ⟨ExpiringCache.ordered_empty expiry, rfl, fun _ he => absurd he List.not_mem_nil⟩

theorem Timed.unused (h : s.Timed expiry past) {u : Use κ ν} (unused : ∀ k, s.usedAt k u = none) :
    s.Timed expiry (past ++ [(s, u)]) := by
  refine ⟨h.ordered, h.expiry, fun e he => ?_⟩
  rw [lastUse_append, unused, h.times e he]
  rfl

/-- with other holders, and with fewer entries, the times are the same -/
theorem Timed.sublist (h : s.Timed expiry past) {s' : Shelf κ ν} (ordered : s'.cache.Ordered)
    (same : s'.cache.expiry = s.cache.expiry) (sub : s'.cache.entries ⊆ s.cache.entries) :
    s'.Timed expiry past :=
  ⟨ordered, same.trans h.expiry, fun e he => h.times e (sub he)⟩

theorem Timed.insert [TransOrd κ] [LawfulEqOrd κ] (h : s.Timed expiry past) (k : κ) (o : Shared ν)
    (now : Nat) : (s.use (.insert k o now)).Timed expiry (past ++ [(s, .insert k o now)]) := by
  have ordered := h.ordered.insert k o now
  refine ⟨ordered, h.expiry, fun e he => ?_⟩
  rw [lastUse_append, usedAt]
  by_cases same : compare k e.key = .eq
  · have hk : e.key = k := (LawfulEqCmp.eq_of_compare same).symm
    have new := ordered.eq_of_key he (ExpiringCache.mem_place_self ⟨k, o, now⟩ _) hk
    rw [if_pos same, new]
    rfl
  · have old : e ∈ s.cache.entries := by
      refine (ExpiringCache.mem_place he).resolve_left ?_
      rintro rfl
      exact same ReflOrd.compare_self
    rw [if_neg same, h.times e old]
    rfl

/-! ## what an eviction does -/

theorem Timed.expires_iff (h : s.Timed expiry past) {e : CacheEntry κ ν}
    (he : e ∈ s.cache.entries) (now : Nat) :
    s.Expires past expiry now e ↔ ¬ s.Referenced e ∧ e.lastUsed + expiry < now := by
  simp only [Expires, h.times e he, Option.mem_some_iff, exists_eq_left']

/-- an entry that does not expire is marked if it is in use -/
theorem Timed.stays_eq [LawfulEqOrd κ] (h : s.Timed expiry past) (now : Nat) {e : CacheEntry κ ν}
    (he : e ∈ s.cache.entries) :
    ExpiringCache.stays s.cache.expiry (fun id =>
        s.holders.count id + ExpiringCache.references s.cache.entries id - 1) now e
      = if ¬ s.Expires past expiry now e then some (s.mark now e) else none := by
  have used := referenced_iff h.ordered he
  rw [ExpiringCache.stays, h.expiry, mark]
  by_cases ref : s.Referenced e
  · have stays : ¬ s.Expires past expiry now e := fun expires => expires.1 ref
    rw [if_pos (used.mpr ref), if_pos stays, if_pos ref]
  · rw [if_neg (used.not.mpr ref), if_neg ref]
    refine if_congr ?_ rfl rfl
    rw [h.expires_iff he, and_iff_right ref]
    omega

theorem Timed.entries_evict [LawfulEqOrd κ] (h : s.Timed expiry past) (now : Nat) :
    (s.evict now).2.cache.entries = (s.cache.entries.filter fun e =>
      ¬ s.Expires past expiry now e).map (s.mark now) := by
  have swept : (s.evict now).2.cache.entries = s.cache.entries.filterMap (ExpiringCache.stays
      s.cache.expiry (fun id => s.holders.count id
        + ExpiringCache.references s.cache.entries id - 1) now) :=
    ExpiringCache.sweep_eq_of_references _ s.cache.entries [] fun _ _ => rfl
  rw [swept, List.filterMap_congr fun e he => h.stays_eq now he, ← List.filterMap_eq_map,
    List.filterMap_filter]
  refine List.filterMap_congr fun e _ => ?_
  simp

/-- the answer of an eviction is the number of entries that expire -/
theorem Timed.count_evict [LawfulEqOrd κ] (h : s.Timed expiry past) (now : Nat) :
    (s.evict now).1 = s.cache.entries.countP fun e => s.Expires past expiry now e := by
  have gone : (s.evict now).1
      = s.cache.entries.length - (s.evict now).2.cache.entries.length := rfl
  have parts := List.length_eq_length_filter_add (l := s.cache.entries) fun e =>
    decide (s.Expires past expiry now e)
  simp only [gone, h.entries_evict, List.length_map, decide_not, parts,
    List.countP_eq_length_filter, Nat.add_sub_cancel]

theorem Timed.evict [LawfulEqOrd κ] (h : s.Timed expiry past) (now : Nat) :
    (s.use (.evict now)).Timed expiry (past ++ [(s, .evict now)]) := by
  refine ⟨h.ordered.evict _ now, h.expiry, fun f hf => ?_⟩
  have entries := h.entries_evict now
  rw [show (s.use (.evict now)) = (s.evict now).2 from rfl, entries, List.mem_map] at hf
  obtain ⟨e, he, rfl⟩ := hf
  have he := (List.mem_filter.mp he).1
  have key : (s.mark now e).key = e.key := by
    unfold mark
    split <;> rfl
  have found : (∃ g ∈ s.cache.entries, compare g.key e.key = .eq ∧ s.Referenced g) ↔
      s.Referenced e := by
    constructor
    · rintro ⟨g, hg, same, used⟩
      rwa [← h.ordered.eq_of_key hg he (LawfulEqCmp.eq_of_compare same)]
    · exact fun used => ⟨e, he, ReflOrd.compare_self, used⟩
  rw [lastUse_append, key, h.times e he, usedAt, mark]
  by_cases used : s.Referenced e
  · rw [if_pos (found.mpr used), if_pos used]
    rfl
  · rw [if_neg (found.not.mpr used), if_neg used]
    rfl

/-! ## runs -/

theorem Timed.use [TransOrd κ] [LawfulEqOrd κ] (h : s.Timed expiry past) (u : Use κ ν) :
    (s.use u).Timed expiry (past ++ [(s, u)]) := by
  cases u with
  | insert k o now => exact h.insert k o now
  | evict now => exact h.evict now
  | remove k =>
    have after := h.unused (u := .remove k) fun _ => rfl
    exact after.sublist (h.ordered.remove k) rfl (List.filter_subset_self _)
  | clear =>
    have after := h.unused (u := .clear) fun _ => rfl
    exact after.sublist s.cache.ordered_clear rfl (List.nil_subset _)
  | get k name =>
    have after := h.unused (u := .get k name) fun _ => rfl
    cases name with
    | none => exact after
    | some name =>
      show (s.take k name).Timed _ _
      unfold take
      split
      · exact after.sublist h.ordered rfl (List.Subset.refl _)
      · exact after
  | hold name o =>
    have after := h.unused (u := .hold name o) fun _ => rfl
    exact after.sublist h.ordered rfl (List.Subset.refl _)
  | drop name =>
    have after := h.unused (u := .drop name) fun _ => rfl
    exact after.sublist h.ordered rfl (List.Subset.refl _)

theorem Timed.run [TransOrd κ] [LawfulEqOrd κ] (h : s.Timed expiry past) (us : List (Use κ ν)) :
    (s.run us).Timed expiry (past ++ s.trace us) := by
  induction us generalizing s past with
  | nil =>
    show s.Timed expiry (past ++ [])
    rwa [List.append_nil]
  | cons u us ih =>
    have rest := ih (h.use u)
    rwa [List.append_assoc] at rest

/-- **What an eviction does after any uses of a cache.**  Every entry has a last use: the insertion
under its key or a later eviction that found it in use.  An eviction forgets exactly the entries that
are not in use, that is, whose object no name holds and no other entry has, and whose last use lies
more than the expiry before.  It marks as used those that are in use, leaves the others as they are
and all in their order, and answers how many it forgot. -/
theorem evict_of_run [TransOrd κ] [LawfulEqOrd κ] (expiry : Nat) (holders : Holders ν)
    (us : List (Use κ ν)) : ∃ s past, (bare expiry holders).run us = s ∧
      (bare expiry holders).trace us = past ∧
      (∀ e ∈ s.cache.entries, lastUse past e.key = some e.lastUsed) ∧
      ∀ now, (s.evict now).2.cache.entries = (s.cache.entries.filter fun e =>
          ¬ s.Expires past expiry now e).map (s.mark now) ∧
        (s.evict now).1 = s.cache.entries.countP fun e => s.Expires past expiry now e := by
  have timed : Timed expiry ((bare expiry holders).run us) ((bare expiry holders).trace us) :=
    (timed_bare expiry holders).run us
  exact ⟨_, _, rfl, rfl, timed.times, fun now => ⟨timed.entries_evict now, timed.count_evict now⟩⟩

/-- an object is found in use under two keys, and loses one of them -/
def sharedOnce : List (Use Nat Unit) :=
  [.insert 1 ⟨7, ()⟩ 0, .insert 2 ⟨7, ()⟩ 0, .insert 3 ⟨8, ()⟩ 0, .evict 500, .remove 2]

theorem evict_of_run_sharedOnce : ∃ s past, (bare 1000 .nobody).run sharedOnce = s ∧
    (bare 1000 .nobody).trace sharedOnce = past ∧ lastUse past 1 = some 500 ∧
    lastUse past 3 = some 0 ∧ (s.evict 1400).1 = 1 ∧
    (s.evict 1400).2.cache.entries.map (fun e => (e.key, e.lastUsed)) = [(1, 500)] ∧
    (s.evict 1501).1 = 2 := by
  obtain ⟨s, past, hs, hpast, -, evictions⟩ := evict_of_run 1000 .nobody sharedOnce
  obtain ⟨left, gone⟩ := evictions 1400
  obtain ⟨-, both⟩ := evictions 1501
  subst hs hpast
  refine ⟨_, _, rfl, rfl, by decide, by decide, gone.trans (by decide), ?_, both.trans (by decide)⟩
  exact (congrArg _ left).trans (by decide)

/-- an object that is held while it is put under a second key, and then is not held any more -/
def putTwice : List (Use Nat Unit) :=
  [.insert 1 ⟨7, ()⟩ 0, .hold "h" ⟨7, ()⟩, .insert 2 ⟨7, ()⟩ 0, .drop "h"]

/-- an object that nobody holds and that was used last longer ago than the expiry is not forgotten,
but marked as used now, while it stands under two keys -/
theorem kept_by_itself : ∃ s past, (bare 1000 .nobody).run putTwice = s ∧
    (bare 1000 .nobody).trace putTwice = past ∧ s.holders.held.length = 0 ∧
    (s.cache.entries.map fun e => (e.key, lastUse past e.key)) = [(1, some 0), (2, some 0)] ∧
    (s.evict 50000).1 = 0 ∧
    (s.evict 50000).2.cache.entries.map (fun e => (e.key, e.lastUsed))
      = [(1, 50000), (2, 50000)] :=
  ⟨_, _, rfl, rfl, by decide, by decide, by decide, by decide⟩

end Shelf

end TerrainPatches
