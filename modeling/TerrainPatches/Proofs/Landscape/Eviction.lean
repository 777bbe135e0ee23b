import TerrainPatches.Proofs.Cache.Expiry
import TerrainPatches.Proofs.Landscape.Bakes

/-!
# What is forgotten, and when

An entry of the cache carries a time, and an update writes to it while it decides what to forget.
Told from outside, the time is that of the last step of the run that used the patch: the request
that cached it or an update that found it in use (`lastUse`).  `Timed` is the invariant that says
so, and `update_of_run` tells by the history of a run what an update forgets.

A patch in use is never forgotten by an update, so while it is held only a clearing makes a request
for its key miss (`Timed.hit_of_run`).
-/

namespace TerrainPatches

namespace Landscape

variable {l l' : Landscape} {r : PatchRequest} {p : Shared Patch} {now : Nat}

/-! ## being in use -/

/-- a name holds the patch, or it waits for its upload -/
def InUse (l : Landscape) (id : ObjectId) : Prop :=
  (∃ h ∈ l.holders.held, h.2.id = id) ∨ ∃ p ∈ l.uploadQueue.getD [], p.id = id

instance (l : Landscape) (id : ObjectId) : Decidable (l.InUse id) :=
  inferInstanceAs (Decidable (_ ∨ _))

theorem outside_pos_iff {id : ObjectId} : 0 < l.outside id ↔ l.InUse id := by
  simp only [outside, Holders.count, InUse, Nat.add_pos_iff_pos_or_pos, List.countP_pos_iff,
    beq_iff_eq]

theorem outside_eq_zero_iff {id : ObjectId} : l.outside id = 0 ↔ ¬ l.InUse id := by
  rw [← outside_pos_iff, Nat.pos_iff_ne_zero, not_not]

/-! ## the last use -/

/-- when an action uses a patch: it caches the patch, or it is an update that finds it in use -/
def usedAt (l : Landscape) (id : ObjectId) : Action → Option Nat
  | .get r now _ =>
    match l.get r now with
    | .ok (p, _) => if p.id = id ∧ l.cache.get? r.key = none then some now else none
    | .error _ => none
  | .update now => if l.InUse id then some now else none
  | _ => none

/-- when a patch was used last, by the order of the actions and not of their times -/
def lastUse (past : List (Landscape × Action)) (id : ObjectId) : Option Nat :=
  (past.filterMap fun s => s.1.usedAt id s.2).getLast?

theorem lastUse_append (past : List (Landscape × Action)) (a : Action) (id : ObjectId) :
    lastUse (past ++ [(l, a)]) id = (l.usedAt id a).or (lastUse past id) :=
  latest_append _ past (l, a)

/-- a patch is not in use, and was used last longer ago than `expiry`; time that runs backward
stands still -/
def Expires (l : Landscape) (past : List (Landscape × Action)) (expiry now : Nat)
    (id : ObjectId) : Prop :=
  ¬ l.InUse id ∧ ∃ t ∈ lastUse past id, expiry < now - t

instance (l : Landscape) (past : List (Landscape × Action)) (expiry now : Nat) (id : ObjectId) :
    Decidable (l.Expires past expiry now id) :=
  inferInstanceAs (Decidable (_ ∧ _))

/-- what holds of a landscape and its past is kept by a run, if every action keeps it -/
theorem past_induction {P : Landscape → List (Landscape × Action) → Prop} {acts : List Action}
    {past : List (Landscape × Action)} (h : l.run acts = .ok l') (start : P l past)
    (step : ∀ (a : Action) (l l' : Landscape) (past : List (Landscape × Action)),
      l.act a = .ok l' → P l past → P l' (past ++ [(l, a)])) : P l' (past ++ l.trace acts) := by
  induction acts generalizing l past with
  | nil =>
    cases h
    show P l' (past ++ [])
    rwa [List.append_nil]
  | cons a acts ih =>
    obtain ⟨l₁, h₁, h⟩ := Fault.bind_eq_ok.mp h
    rw [trace_cons acts h₁, List.append_cons]
    exact ih h (step a l l₁ past h₁ start)

/-! ## the times of the entries -/

/-- the entries carry the times of the last uses -/
structure Timed (l : Landscape) (past : List (Landscape × Action)) : Prop where
  kept : l.Kept
  expiry : l.cache.expiry = l.settings.expiry
  times : ∀ e ∈ l.cache.entries, lastUse past e.object.id = some e.lastUsed

theorem Kept.nodup_ids (hl : l.Kept) : (l.cache.entries.map fun e => e.object.id).Nodup := by
  have different : l.cache.toList.Pairwise fun a b => a.2.id ≠ b.2.id := by
    refine List.Pairwise.imp_of_mem ?_ (List.pairwise_map.mp hl.ordered.nodup_keys)
    intro a b ha hb hne hid
    exact hne (hl.named ha hb hid)
  have entries := List.pairwise_map.mp different
  exact List.pairwise_map.mpr entries

theorem entries_update (hl : l.Kept) (now : Nat) : (l.update now).2.cache.entries
    = l.cache.entries.filterMap (ExpiringCache.stays l.cache.expiry l.outside now) :=
  ExpiringCache.sweep_eq_filterMap l.cache.entries [] hl.nodup_ids

theorem timed_create {source : Source} {scene : Scene} {queue : BakeQueue} {settings : Settings}
    (h : create source scene queue settings = .ok l) : l.Timed [] where
  kept := kept_create h
  expiry := by
    rw [(new_create h).cache, (new_create h).settings]
    rfl
  times e he := by
    rw [(new_create h).cache] at he
    cases he

theorem Timed.update {past : List (Landscape × Action)} (h : l.Timed past) (now : Nat) :
    (l.update now).2.Timed (past ++ [(l, .update now)]) := by
  refine ⟨h.kept.update now, h.expiry, ?_⟩
  intro f hf
  rw [entries_update h.kept, List.mem_filterMap] at hf
  obtain ⟨e, he, stays⟩ := hf
  obtain ⟨-, object, last⟩ := ExpiringCache.stays_eq_some stays
  rw [lastUse_append, object, last, h.times e he, usedAt]
  by_cases used : l.InUse e.object.id
  · rw [if_pos used, if_pos (outside_pos_iff.mpr used)]
    rfl
  · rw [if_neg used, if_neg fun pos => used (outside_pos_iff.mp pos)]
    rfl

/-- the patch that a request caches is used by it, and no patch cached before -/
theorem Timed.miss {past : List (Landscape × Action)} {name : Option String} (h : l.Timed past)
    (none : l.cache.get? r.key = none) (hmiss : l.miss r now = .ok (p, l')) :
    l'.Timed (past ++ [(l, .get r now name)]) := by
  have asked : ∀ id, l.usedAt id (.get r now name) = if p.id = id then some now else .none := by
    intro id
    have hget : l.get r now = .ok (p, l') := by rw [Landscape.get, none]; exact hmiss
    simp only [usedAt, hget, none, and_true]
  have hkept := h.kept.miss hmiss
  obtain ⟨patch, l₁, hbuild, rfl, rfl⟩ := miss_eq_ok hmiss
  have builds := builds_build hbuild
  obtain ⟨w, c, b, rfl, steps⟩ := builds
  refine ⟨hkept, h.expiry, ?_⟩
  intro f hf
  rw [lastUse_append, asked]
  cases ExpiringCache.mem_place hf with
  | inl new =>
    rw [new, if_pos rfl]
    rfl
  | inr old =>
    have given := (h.kept.given (ExpiringCache.mem_toList_of_mem old)).trans_le steps.grows.supply
    rw [if_neg given.ne', h.times f old]
    rfl

theorem Timed.unused {past : List (Landscape × Action)} {a : Action} (h : l.Timed past)
    (unused : ∀ id, l.usedAt id a = none) : l.Timed (past ++ [(l, a)]) := by
  refine ⟨h.kept, h.expiry, ?_⟩
  intro e he
  rw [lastUse_append, unused, h.times e he]
  rfl

theorem Timed.apart {past : List (Landscape × Action)} (h : l.Timed past) (same : Apart l l') :
    l'.Timed past := by
  have kept := h.kept.apart same
  obtain ⟨m, c, q, b, o, rfl⟩ := same
  exact ⟨kept, h.expiry, h.times⟩

theorem usedAt_of_hit {name : Option String} (id : ObjectId) (hit : l.cache.get? r.key = some p) :
    l.usedAt id (.get r now name) = none := by
  have hget : l.get r now = .ok (l.hit p) := by rw [Landscape.get, hit]
  simp only [usedAt, hget, hit, Landscape.hit, reduceCtorEq, and_false, if_false]

theorem Timed.act {past : List (Landscape × Action)} {a : Action} (h : l.Timed past)
    (ha : l.act a = .ok l') : l'.Timed (past ++ [(l, a)]) := by
  cases a with
  | get r now name =>
    obtain ⟨p, l₁, hget, same⟩ := get_of_act ha
    rcases get_cases hget with ⟨hit, rfl⟩ | ⟨none, hmiss⟩
    · have counted : Apart l (l.hit p).2 := ⟨_, _, _, _, _, rfl⟩
      exact (h.unused fun id => usedAt_of_hit id hit).apart (counted.trans same)
    · exact (h.miss none hmiss).apart same
  | update now =>
    cases ha
    exact h.update now
  | clear =>
    cases ha
    exact ⟨h.kept.clear, h.expiry, fun e he => absurd he List.not_mem_nil⟩
  | _ =>
    -- none of these can be a miss, an update or a clearing
    rcases act_cases ha with same | ⟨_, _, _, _, _, ⟨⟩, -⟩ | ⟨_, ⟨⟩, -⟩ | ⟨⟨⟩, -⟩
    exact (h.unused fun id => rfl).apart same

theorem timed_run {source : Source} {scene : Scene} {queue : BakeQueue} {settings : Settings}
    {l₀ : Landscape} {acts : List Action} (hl : create source scene queue settings = .ok l₀)
    (h : l₀.run acts = .ok l) : l.Timed (l₀.trace acts) := by
  have timed := past_induction h (timed_create hl) fun _ _ _ _ ha ht => Timed.act ht ha
  exact timed

/-! ## what an update forgets -/

section
variable {past : List (Landscape × Action)}

/-- an entry stays exactly if its patch does not expire -/
theorem Timed.stays_isSome (h : l.Timed past) {e : CacheEntry PatchKey Patch}
    (he : e ∈ l.cache.entries) :
    (ExpiringCache.stays l.cache.expiry l.outside now e).isSome
      = !decide (l.Expires past l.settings.expiry now e.object.id) := by
  have last := h.times e he
  rw [Bool.eq_iff_iff, Bool.not_eq_true', decide_eq_false_iff_not, ← Option.ne_none_iff_isSome,
    not_iff_not, ExpiringCache.stays_eq_none_iff, outside_eq_zero_iff, Expires, last, h.expiry]
  simp only [Option.mem_some_iff, exists_eq_left']

theorem Timed.toList_update (h : l.Timed past) (now : Nat) : (l.update now).2.cache.toList
    = l.cache.toList.filter fun e => !decide (l.Expires past l.settings.expiry now e.2.id) := by
  show (l.update now).2.cache.entries.map _ = (l.cache.entries.map _).filter _
  rw [entries_update h.kept, ExpiringCache.map_filterMap_stays, List.filter_map]
  exact congrArg _ (List.filter_congr fun e he => h.stays_isSome he)

/-- the answer of an update is the number of patches that expire -/
theorem Timed.count_update (h : l.Timed past) (now : Nat) : (l.update now).1
    = l.cache.toList.countP fun e => decide (l.Expires past l.settings.expiry now e.2.id) := by
  have count : (l.update now).1 = l.cache.toList.length - (l.update now).2.cache.toList.length := by
    rw [ExpiringCache.toList, ExpiringCache.toList, List.length_map, List.length_map]
    rfl
  have parts := List.length_eq_length_filter_add (l := l.cache.toList) fun e =>
    decide (l.Expires past l.settings.expiry now e.2.id)
  rw [count, h.toList_update, parts, List.countP_eq_length_filter, Nat.add_sub_cancel]

/-! ## patches that are held -/

/-- only a clearing takes a patch in use out of the cache -/
theorem Timed.mem_act (h : l.Timed past) {a : Action} {k : PatchKey} (ha : l.act a = .ok l')
    (used : l.InUse p.id) (spared : a ≠ .clear) (hp : (k, p) ∈ l.cache.toList) :
    (k, p) ∈ l'.cache.toList := by
  rcases act_cases ha with same | ⟨r, now, name, q, l₁, rfl, new, hmiss, same⟩ | ⟨now, rfl, rfl⟩ |
    ⟨rfl, rfl⟩
  · rwa [same.cache]
  · rw [same.cache]
    obtain ⟨patch, l₂, hbuild, rfl, rfl⟩ := miss_eq_ok hmiss
    obtain ⟨w, c, b, rfl, -⟩ := builds_build hbuild
    exact h.kept.ordered.mem_toList_insert_of_new new hp
  · rw [h.toList_update, List.mem_filter, Bool.not_eq_true', decide_eq_false_iff_not]
    exact ⟨hp, fun expires => expires.1 used⟩
  · exact absurd rfl spared

/-- a patch that is in use before every action stays cached while nothing is cleared -/
theorem Timed.mem_run (h : l.Timed past) {acts : List Action} {k : PatchKey}
    (hrun : l.run acts = .ok l') (spared : .clear ∉ acts)
    (used : ∀ s ∈ l.trace acts, s.1.InUse p.id) (hp : (k, p) ∈ l.cache.toList) :
    (k, p) ∈ l'.cache.toList := by
  induction acts generalizing l past with
  | nil =>
    cases hrun
    exact hp
  | cons a acts ih =>
    obtain ⟨l₁, h₁, hrun⟩ := Fault.bind_eq_ok.mp hrun
    rw [trace_cons acts h₁] at used
    have first : l.InUse p.id := used (l, a) List.mem_cons_self
    have other : a ≠ .clear := fun same => spared (same ▸ List.mem_cons_self)
    exact ih (h.act h₁) hrun (fun later => spared (List.mem_cons_of_mem a later))
      (fun s hs => used s (List.mem_cons_of_mem _ hs)) (h.mem_act h₁ first other hp)

theorem Timed.hit_of_run (h : l.Timed past) {acts : List Action} {k : PatchKey}
    (hrun : l.run acts = .ok l') (spared : .clear ∉ acts)
    (used : ∀ s ∈ l.trace acts, s.1.InUse p.id) (hp : (k, p) ∈ l.cache.toList)
    (hr : r.key = k) : l'.get r now = .ok (l'.hit p) := by
  have cached := h.mem_run hrun spared used hp
  have ordered := (run_induction hrun h.kept fun _ _ _ _ hact hk => hk.act hact).ordered
  rw [Landscape.get, hr, ordered.get?_eq_some_iff.mpr cached]

/-- **What an update forgets after any run, and what it never forgets.**  The last use of a cached
patch is the request that cached it or a later update that found it in use, whichever came last in
the run.  An update forgets exactly the patches that are not in use, neither held nor waiting for
their upload, and were used last more than the expiry ago.  It answers how many these are, and all
other entries keep their keys and their patches.  A patch that is held from its request on is the
answer to every request with its key, whatever is done in between, until the cache is cleared. -/
theorem update_of_run {source : Source} {scene : Scene} {queue : BakeQueue} {settings : Settings}
    {l₀ l : Landscape} {acts : List Action} (hl : create source scene queue settings = .ok l₀)
    (h : l₀.run acts = .ok l) :
    (∀ e ∈ l.cache.toList, ∃ t, lastUse (l₀.trace acts) e.2.id = some t) ∧
    (∀ now,
      (l.update now).2.cache.toList = (l.cache.toList.filter fun e =>
        ¬ l.Expires (l₀.trace acts) settings.expiry now e.2.id) ∧
      (l.update now).1 = l.cache.toList.countP fun e =>
        l.Expires (l₀.trace acts) settings.expiry now e.2.id) ∧
    ∀ r now name p l₁, l.get r now = .ok (p, l₁) →
      ∀ more l₂, (l₁.hold name p).run more = .ok l₂ → .clear ∉ more →
        (∀ s ∈ (l₁.hold name p).trace more, ∃ h ∈ s.1.holders.held, h.2.id = p.id) →
          ∀ r' now', r'.key = r.key → l₂.get r' now' = .ok (l₂.hit p) := by
  have timed := timed_run hl h
  have settled : l.settings = settings :=
    (sameGround_run h).settings.trans (new_create hl).settings
  refine ⟨?_, ?_, ?_⟩
  · intro e he
    obtain ⟨f, hf, rfl⟩ := List.mem_map.mp he
    exact ⟨f.lastUsed, timed.times f hf⟩
  · intro now
    rw [← settled, timed.toList_update now, timed.count_update now]
    simp only [decide_not, and_self]
  · intro r now name p l₁ hget more l₂ hmore spared held r' now' hkey
    have asked : l.act (.get r now name) = .ok (l₁.hold name p) := by
      show (l.get r now >>= _) = _
      rw [hget]
      rfl
    have cached : (r.key, p) ∈ (l₁.hold name p).cache.toList := (timed.kept.get hget).2
    exact (timed.act asked).hit_of_run hmore spared (fun s hs => .inl (held s hs)) cached hkey

end

/-- a held patch is found in use while its copy is forgotten, and time runs backward after that -/
def usedLate : List Action :=
  [.get (requestAtOrigin Scalar.two 0) 0 "kept", .get (requestAtOrigin Scalar.two 1) 0 none,
    .update 6000, .drop "kept", .compileQueued 8, .update 3000]

theorem update_of_run_usedLate : ∃ l₀ l l₁ l₂ : Landscape, ∃ p, small = .ok l₀ ∧
    l₀.run usedLate = .ok l ∧
    (l.cache.toList.map fun e => (lastUse (l₀.trace usedLate) e.2.id, decide (l.InUse e.2.id)))
      = [(some 6000, false)] ∧
    (l.update 11000).1 = 0 ∧ (l.update 11001).1 = 1 ∧
    l.get (requestAtOrigin Scalar.two 1) 3000 = .ok (p, l₁) ∧
    (l₁.hold "copy" p).run [.update 20000, .drop "kept", .update 40000] = .ok l₂ ∧
    (l₂.cache.toList.map fun e => e.1.seams.bits) = [1] ∧
    l₂.get (requestAtOrigin Scalar.half 1) 0 = .ok (l₂.hit p) := by
  obtain ⟨l₀, hl, ht⟩ : ∃ l₀, small = .ok l₀ ∧ ((l₀.run usedLate).toOption.any fun l =>
      decide ((l.cache.toList.map fun e =>
          (lastUse (l₀.trace usedLate) e.2.id, decide (l.InUse e.2.id))) = [(some 6000, false)] ∧
        (l.cache.toList.countP fun e => l.Expires (l₀.trace usedLate) 5000 11000 e.2.id) = 0 ∧
        (l.cache.toList.countP fun e => l.Expires (l₀.trace usedLate) 5000 11001 e.2.id) = 1) &&
      (l.get (requestAtOrigin Scalar.two 1) 3000).toOption.any fun a =>
        ((a.2.hold "copy" a.1).run [.update 20000, .drop "kept", .update 40000]).toOption.any
          fun l₂ => decide ((∀ s ∈ (a.2.hold "copy" a.1).trace
              [.update 20000, .drop "kept", .update 40000],
              ∃ h ∈ s.1.holders.held, h.2.id = a.1.id) ∧
            (l₂.cache.toList.map fun e => e.1.seams.bits) = [1])) = true :=
    exists_ok_of_any (by decide +kernel)
  obtain ⟨l, h, ht⟩ := exists_ok_of_any ht
  obtain ⟨ht, hmore⟩ := (Bool.and_eq_true _ _).mp ht
  obtain ⟨last, none, one⟩ := of_decide_eq_true ht
  obtain ⟨⟨p, l₁⟩, hget, hmore⟩ := exists_ok_of_any hmore
  obtain ⟨l₂, hrun, hmore⟩ := exists_ok_of_any hmore
  obtain ⟨held, cached⟩ := of_decide_eq_true hmore
  obtain ⟨-, updates, hits⟩ := update_of_run hl h
  refine ⟨l₀, l, l₁, l₂, p, hl, h, last, ?_, ?_, hget, hrun, cached, ?_⟩
  · exact (updates 11000).2.trans none
  · exact (updates 11001).2.trans one
  · exact hits _ _ "copy" p l₁ hget _ l₂ hrun (by simp) held _ 0 rfl

end Landscape

end TerrainPatches
