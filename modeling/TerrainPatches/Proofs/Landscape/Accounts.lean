import TerrainPatches.Proofs.Landscape.Sharing
import TerrainPatches.Proofs.Workshop.Questions

/-!
# Accounts

Every request that is answered is counted once, by where its answer comes from (`Origin`): a patch
was cached under the key, or else one of the sample, or else there was nothing to copy and the
source was asked.  What is counted at one request is said by `get_of_cached`, `counts_of_copied` and
`counts_of_sampled`.

The answers of a run are its log (`answers`).  `Accounted` says that all counts can be read off the
log; every action keeps it so, and `accounts_of_run` is what follows for a run.  While nothing is
forgotten, what has been asked for is what is cached (`Remembers`), and no sample is taken twice.
-/

namespace TerrainPatches

/-- where the answer to a request comes from -/
inductive Origin where
  | cached
  | copied
  | sampled
deriving DecidableEq

/-- a request with its answer -/
structure Answer where
  request : PatchRequest
  origin : Origin
  patch : Shared Patch

/-- the number of tiles that are baked for a patch -/
def Patch.tileCount (p : Patch) : Nat := (p.composite.toList.map fun c => c.val.tiles.length).sum

namespace Landscape

variable {l l' : Landscape} {r : PatchRequest} {p : Shared Patch} {now : Nat}

/-- where the answer comes from, by what is cached -/
def origin (l : Landscape) (r : PatchRequest) : Origin :=
  if ∃ a ∈ l.cache.toList, a.1 = r.key then .cached
  else if ∃ a ∈ l.cache.toList, a.1.sample = r.key.sample then .copied
  else .sampled

theorem origin_cached_iff :
    l.origin r = .cached ↔ ∃ a ∈ l.cache.toList, a.1 = r.key := by
  unfold origin
  split
  · next h => exact iff_of_true rfl h
  · next h => split <;> exact iff_of_false (by simp) h

theorem origin_sampled_iff :
    l.origin r = .sampled ↔ ∀ a ∈ l.cache.toList, a.1.sample ≠ r.key.sample := by
  unfold origin
  split
  · next h =>
    obtain ⟨a, ha, hk⟩ := h
    exact iff_of_false (by simp) fun hno => hno a ha (by rw [hk])
  · split
    · next h =>
      obtain ⟨a, ha, hs⟩ := h
      exact iff_of_false (by simp) fun hno => hno a ha hs
    · next h => exact iff_of_true rfl fun a ha hs => h ⟨a, ha, hs⟩

/-! ## the search agrees with what is cached -/

theorem get?_isSome_iff (hl : l.Kept) :
    (l.cache.get? r.key).isSome ↔ l.origin r = .cached := by
  rw [origin_cached_iff, Option.isSome_iff_exists]
  constructor
  · rintro ⟨p, hp⟩
    exact ⟨(r.key, p), ExpiringCache.mem_toList_of_get? hp, rfl⟩
  · rintro ⟨⟨k, p⟩, ha, rfl⟩
    exact ⟨p, hl.ordered.get?_eq_some_iff.mpr ha⟩

theorem sibling?_isNone_iff (hl : l.Kept) :
    l.sibling? r.key.sample = none ↔ l.origin r = .sampled := by
  rw [sibling?_eq_none_iff hl.ordered, origin_sampled_iff]

/-! ## one request -/

/-- **An answer from the cache changes nothing but the count of such answers.** -/
theorem get_of_cached (hl : l.Kept) (ho : l.origin r = .cached) (h : l.get r now = .ok (p, l')) :
    l' = { l with counts := { l.counts with hits := l.counts.hits + 1 } } := by
  rcases get_cases h with ⟨-, rfl⟩ | ⟨hnone, -⟩
  · rfl
  · have hsome := (get?_isSome_iff hl).mpr ho
    rw [hnone] at hsome
    cases hsome

theorem miss_of_not_cached (hl : l.Kept) (ho : l.origin r ≠ .cached)
    (h : l.get r now = .ok (p, l')) : l.miss r now = .ok (p, l') := by
  rcases get_cases h with ⟨hsome, -⟩ | ⟨-, hmiss⟩
  · exact absurd ((get?_isSome_iff hl).mp (by rw [hsome]; rfl)) ho
  · exact hmiss

theorem build_of_miss (h : l.miss r now = .ok (p, l')) :
    ∃ l₁, l.build r (l.sibling? r.key.sample) = .ok (p.val, l₁) ∧ l'.counts = l₁.counts ∧
      l'.workshop.requests = l₁.workshop.requests := by
  obtain ⟨patch, l₁, hbuild, rfl, rfl⟩ := miss_eq_ok h
  exact ⟨l₁, hbuild, rfl, rfl⟩

theorem counts_of_build_copied {q : Shared Patch} {patch : Patch}
    (h : l.build r (some q) = .ok (patch, l')) :
    l'.counts = { l.counts with copies := l.counts.copies + 1 } ∧
      l'.workshop.requests = l.workshop.requests := by
  obtain ⟨shape, l₁, n, skin, hshape, -, -, hskin, -⟩ := build_eq_ok h
  cases hskin
  cases hshape
  exact ⟨rfl, rfl⟩

theorem counts_of_shape_sampled {shape : Shape} {baked : Bool}
    (h : l.shape r none baked = .ok (shape, l')) :
    l'.counts = { l.counts with sampled := l.counts.sampled + 1 } ∧
      l'.workshop.requests
        = { l.workshop.requests with vertices := l.workshop.requests.vertices + 1 } := by
  obtain ⟨⟨v, requests⟩, hv, h⟩ := Fault.bind_eq_ok.mp h
  unfold Requests.askVertices at hv
  split at hv
  · cases hv
  · cases hv
    cases h
    exact ⟨rfl, rfl⟩

theorem counts_of_skin_layered {skin : Skin} (h : l.skin r none false = .ok (skin, l')) :
    l'.counts = l.counts ∧ l'.workshop.requests = l.workshop.requests.addLayers 1 ∧
      skin.composite = none := by
  cases h
  exact ⟨rfl, Workshop.requests_passes _ _ _ _, rfl⟩

theorem counts_of_skin_baked {skin : Skin} (h : l.skin r none true = .ok (skin, l')) :
    ∃ c, skin.composite = some c ∧
      l'.counts = { l.counts with composites := l.counts.composites + 1 } ∧
      l'.workshop.requests = l.workshop.requests.addTiles c.val.tiles.length := by
  obtain ⟨target, w₁, c, w₂, htarget, hc, hcomposite, -, rfl⟩ := bakedSkin_eq_ok h
  refine ⟨_, hcomposite, rfl, (Workshop.requests_composite hc).trans ?_⟩
  rw [show w₁ = (l.workshop.share _).2 from congrArg Prod.snd htarget]
  rfl

/-- how many questions about layers a new patch takes beside those for its tiles -/
def ownLayers (l : Landscape) (size : Float32) : Nat := if l.isBaked size then 0 else 1

theorem counts_of_build_sampled {patch : Patch} (h : l.build r none = .ok (patch, l')) :
    l'.counts = { l.counts with
      sampled := l.counts.sampled + 1
      composites := l.counts.composites + (l.isBaked r.size).toNat } ∧
    l'.workshop.requests = (({ l.workshop.requests with
      vertices := l.workshop.requests.vertices + 1 }).addTiles patch.tileCount).addLayers
        (l.ownLayers r.size) := by
  obtain ⟨shape, l₁, n, skin, hshape, -, -, hskin, rfl⟩ := build_eq_ok h
  obtain ⟨hcounts, hrequests⟩ := counts_of_shape_sampled hshape
  unfold ownLayers
  cases hb : l.isBaked r.size with
  | false =>
    rw [hb] at hskin
    obtain ⟨hc, hr, hnone⟩ := counts_of_skin_layered hskin
    refine ⟨by rw [hc]; exact hcounts, ?_⟩
    simp only [Patch.tileCount, hnone, hr]
    show l₁.workshop.requests.addLayers 1 = _
    rw [hrequests]
    rfl
  | true =>
    rw [hb] at hskin
    obtain ⟨c, hsome, hc, hr⟩ := counts_of_skin_baked hskin
    refine ⟨?_, ?_⟩
    · rw [hc]
      show { l₁.counts with composites := l₁.counts.composites + 1 } = _
      rw [hcounts]
      rfl
    · simp only [Patch.tileCount, hsome, hr]
      show l₁.workshop.requests.addTiles _ = _
      rw [hrequests]
      rfl

theorem counts_of_copied (hl : l.Kept) (ho : l.origin r = .copied)
    (h : l.get r now = .ok (p, l')) :
    l'.counts = { l.counts with copies := l.counts.copies + 1 } ∧
      l'.workshop.requests = l.workshop.requests := by
  obtain ⟨l₁, hbuild, hc, hr⟩ := build_of_miss (miss_of_not_cached hl (by rw [ho]; simp) h)
  rw [hc, hr]
  cases hq : l.sibling? r.key.sample with
  | none =>
    rw [(sibling?_isNone_iff hl).mp hq] at ho
    cases ho
  | some q =>
    rw [hq] at hbuild
    exact counts_of_build_copied hbuild

theorem counts_of_sampled (hl : l.Kept) (ho : l.origin r = .sampled)
    (h : l.get r now = .ok (p, l')) :
    l'.counts = { l.counts with
      sampled := l.counts.sampled + 1
      composites := l.counts.composites + (l.isBaked r.size).toNat } ∧
    l'.workshop.requests = (({ l.workshop.requests with
      vertices := l.workshop.requests.vertices + 1 }).addTiles p.val.tileCount).addLayers
        (l.ownLayers r.size) := by
  obtain ⟨l₁, hbuild, hc, hr⟩ := build_of_miss (miss_of_not_cached hl (by rw [ho]; simp) h)
  rw [hc, hr]
  rw [(sibling?_isNone_iff hl).mpr ho] at hbuild
  exact counts_of_build_sampled hbuild

/-- a patch that is baked is one that has a composite, if it comes from the source -/
theorem composite_isSome_of_sampled (hl : l.Kept) (ho : l.origin r = .sampled)
    (h : l.get r now = .ok (p, l')) :
    p.val.composite.isSome = decide (l.settings.bakedFrom ≤ r.size) := by
  obtain ⟨patch, l₁, hbuild, rfl, -⟩ := miss_eq_ok (miss_of_not_cached hl (by rw [ho]; simp) h)
  rw [(sibling?_isNone_iff hl).mpr ho] at hbuild
  obtain ⟨shape, l₂, n, skin, -, -, -, hskin, rfl⟩ := build_eq_ok hbuild
  show skin.composite.isSome = l.isBaked r.size
  cases hb : l.isBaked r.size with
  | false =>
    rw [hb] at hskin
    rw [(counts_of_skin_layered hskin).2.2]
    rfl
  | true =>
    rw [hb] at hskin
    obtain ⟨c, hc, -⟩ := counts_of_skin_baked hskin
    rw [hc]
    rfl

/-! ## the log of a run -/

/-- the actions of a run, each with the landscape that it meets -/
def trace (l : Landscape) : List Action → List (Landscape × Action)
  | [] => []
  | a :: acts => (l, a) ::
    match l.act a with
    | .ok l' => l'.trace acts
    | .error _ => []

/-- what an action is answered, if it is a request -/
def answer? (l : Landscape) : Action → Option Answer
  | .get r now _ =>
    match l.get r now with
    | .ok (p, _) => some ⟨r, l.origin r, p⟩
    | .error _ => none
  | _ => none

/-- how many entries an action forgets -/
def forgets (l : Landscape) : Action → Nat
  | .update now => (l.update now).1
  | .clear => l.cache.size
  | _ => 0

/-- all answers of a run -/
def answers (l : Landscape) (acts : List Action) : List Answer :=
  (l.trace acts).filterMap fun s => s.1.answer? s.2

/-- how many entries a run forgets -/
def forgotten (l : Landscape) (acts : List Action) : Nat :=
  ((l.trace acts).map fun s => s.1.forgets s.2).sum

theorem trace_cons {a : Action} (acts : List Action) (h : l.act a = .ok l') :
    l.trace (a :: acts) = (l, a) :: l'.trace acts := by
  simp only [trace, h]

theorem answers_cons {a : Action} (acts : List Action) (h : l.act a = .ok l') :
    l.answers (a :: acts) = (l.answer? a).toList ++ l'.answers acts := by
  simp only [answers, trace_cons acts h, List.filterMap_cons]
  cases l.answer? a <;> rfl

theorem get_of_answer? {b : Action} {a : Answer} (h : l.answer? b = some a) :
    ∃ now name l', b = .get a.request now name ∧ l.get a.request now = .ok (a.patch, l') := by
  cases b with
  | get r now name =>
    unfold answer? at h
    cases hget : l.get r now with
    | error e =>
      simp only [hget, reduceCtorEq] at h
    | ok q =>
      simp only [hget, Option.some.injEq] at h
      subst h
      exact ⟨now, name, q.2, rfl, hget⟩
  | _ => cases h

/-- an answer of a run is the answer to a request that the run gets to -/
theorem get_of_answers {a : Answer} (h : a ∈ l.answers acts) :
    ∃ before now name after l' l'', acts = before ++ .get a.request now name :: after ∧
      l.run before = .ok l' ∧ l'.get a.request now = .ok (a.patch, l'') := by
  induction acts generalizing l with
  | nil => cases h
  | cons b acts ih =>
    have first : l.answer? b = some a → ∃ before now name after l' l'',
        b :: acts = before ++ .get a.request now name :: after ∧
          l.run before = .ok l' ∧ l'.get a.request now = .ok (a.patch, l'') := by
      intro here
      obtain ⟨now, name, l', rfl, hget⟩ := get_of_answer? here
      exact ⟨[], now, name, acts, l, l', rfl, rfl, hget⟩
    cases hb : l.act b with
    | error e =>
      obtain ⟨s, hs, here⟩ := List.mem_filterMap.mp h
      simp only [trace, hb, List.mem_singleton] at hs
      subst hs
      exact first here
    | ok l₁ =>
      rw [answers_cons acts hb, List.mem_append, Option.mem_toList] at h
      rcases h with here | later
      · exact first here
      · obtain ⟨before, now, name, after, l', l'', rfl, hrun, hget⟩ := ih later
        exact ⟨b :: before, now, name, after, l', l'', rfl, (run_cons before hb).trans hrun, hget⟩

/-- **What holds of a landscape and its log is kept by a run, if every action of it keeps it.** -/
theorem log_induction {P : Landscape → List Answer → Prop} {acts : List Action}
    {log : List Answer} (h : l.run acts = .ok l') (kept : l.Kept) (start : P l log)
    (step : ∀ s ∈ l.trace acts, ∀ (l' : Landscape) (log : List Answer), s.1.Kept →
      s.1.act s.2 = .ok l' → P s.1 log → P l' (log ++ (s.1.answer? s.2).toList)) :
    P l' (log ++ l.answers acts) := by
  induction acts generalizing l log with
  | nil =>
    cases h
    show P l' (log ++ [])
    rwa [List.append_nil]
  | cons a acts ih =>
    obtain ⟨l₁, h₁, h⟩ := Fault.bind_eq_ok.mp h
    rw [trace_cons acts h₁] at step
    rw [answers_cons acts h₁, ← List.append_assoc]
    exact ih h (kept.act h₁) (step (l, a) List.mem_cons_self l₁ log kept h₁ start)
      fun s hs => step s (List.mem_cons_of_mem _ hs)

/-! ## actions that are not requests -/

/-- nothing is counted between `l` and `l'` -/
structure Uncounted (l l' : Landscape) : Prop where
  counts : l'.counts = l.counts
  requests : l'.workshop.requests = l.workshop.requests

theorem Uncounted.refl (l : Landscape) : Uncounted l l := ⟨rfl, rfl⟩

theorem uncounted_withHeld {name : String} {f : Shared Patch → Landscape}
    (hf : ∀ p, Uncounted l (f p)) : Uncounted l (l.withHeld name f) := by
  unfold withHeld
  split
  · exact hf _
  · exact .refl l

theorem uncounted_withComposite (p : Shared Patch) (f : Shared Composite → Bakery) :
    Uncounted l (l.withComposite p f) := by
  unfold withComposite
  split
  · exact ⟨rfl, rfl⟩
  · exact .refl l

theorem uncounted_compileAll (l : Landscape) (ps : List (Shared Patch)) :
    Uncounted l (l.compileAll ps) := by
  induction ps generalizing l with
  | nil => exact .refl l
  | cons p ps ih => exact ⟨(ih _).counts, (ih _).requests⟩

theorem uncounted_compileQueued (l : Landscape) (limit : Nat) :
    Uncounted l (l.compileQueued limit).2 := by
  unfold compileQueued
  split
  · exact .refl l
  · exact ⟨(uncounted_compileAll _ _).counts, (uncounted_compileAll _ _).requests⟩

theorem uncounted_requestBake (l : Landscape) (p : Shared Patch) :
    Uncounted l (l.requestBake p).2 := by
  unfold requestBake
  split
  · exact .refl l
  · split <;> exact ⟨rfl, rfl⟩

/-- an action counts something only if it is a request that is answered -/
theorem act_counted {a : Action} (h : l.act a = .ok l') :
    (∃ r now name p l₁, a = .get r now name ∧ l.get r now = .ok (p, l₁) ∧
      l.answer? a = some ⟨r, l.origin r, p⟩ ∧ Uncounted l₁ l' ∧ l'.cache = l₁.cache) ∨
    (requests [a] = [] ∧ l.answer? a = none ∧ Uncounted l l') := by
  cases a with
  | get r now name =>
    obtain ⟨⟨p, l₁⟩, hget, h⟩ := Fault.bind_eq_ok.mp h
    have answered : l.answer? (.get r now name) = some ⟨r, l.origin r, p⟩ := by
      simp only [answer?, hget]
    refine .inl ⟨r, now, name, p, l₁, rfl, hget, answered, ?_⟩
    cases name with
    | none => cases h; exact ⟨.refl l₁, rfl⟩
    | some name => cases h; exact ⟨⟨rfl, rfl⟩, rfl⟩
  | drop name => cases h; exact .inr ⟨rfl, rfl, rfl, rfl⟩
  | setNodeMask mask => cases h; exact .inr ⟨rfl, rfl, rfl, rfl⟩
  | update now => cases h; exact .inr ⟨rfl, rfl, rfl, rfl⟩
  | clear => cases h; exact .inr ⟨rfl, rfl, rfl, rfl⟩
  | enqueue name => cases h; exact .inr ⟨rfl, rfl, uncounted_withHeld fun p => ⟨rfl, rfl⟩⟩
  | compile name => cases h; exact .inr ⟨rfl, rfl, uncounted_withHeld fun p => ⟨rfl, rfl⟩⟩
  | compileQueued limit => cases h; exact .inr ⟨rfl, rfl, uncounted_compileQueued l limit⟩
  | upload us => cases h; exact .inr ⟨rfl, rfl, rfl, rfl⟩
  | requestBake name => cases h; exact .inr ⟨rfl, rfl, uncounted_withHeld (uncounted_requestBake l)⟩
  | addComposite name urgent =>
    cases h
    exact .inr ⟨rfl, rfl, uncounted_withHeld fun p => uncounted_withComposite p _⟩
  | renderFrame lasts => cases h; exact .inr ⟨rfl, rfl, rfl, rfl⟩
  | release => cases h; exact .inr ⟨rfl, rfl, rfl, rfl⟩
  | releasePatch name => cases h; exact .inr ⟨rfl, rfl, uncounted_withHeld fun p => ⟨rfl, rfl⟩⟩
  | releaseComposite name =>
    cases h
    exact .inr ⟨rfl, rfl, uncounted_withHeld fun p => uncounted_withComposite p _⟩
  | releaseBuffers => cases h; exact .inr ⟨rfl, rfl, rfl, rfl⟩
  | releaseTileGrids => cases h; exact .inr ⟨rfl, rfl, rfl, rfl⟩

/-! ## the log accounts for the counts -/

/-- the answers from the source, for patches that are baked or for others -/
def sampledIn (settings : Settings) (baked : Bool) (log : List Answer) : Nat :=
  log.countP fun a =>
    a.origin = .sampled && decide (settings.bakedFrom ≤ a.request.size) == baked

/-- the tiles of the patches that were sampled -/
def sampledTiles (log : List Answer) : Nat :=
  ((log.filter fun a => a.origin = .sampled).map fun a => a.patch.val.tileCount).sum

@[simp] theorem sampledIn_append_singleton (settings : Settings) (baked : Bool)
    (log : List Answer) (a : Answer) : sampledIn settings baked (log ++ [a])
      = sampledIn settings baked log +
        if a.origin = .sampled && decide (settings.bakedFrom ≤ a.request.size) == baked
          then 1 else 0 := by
  rw [sampledIn, List.countP_append, List.countP_singleton]
  rfl

@[simp] theorem sampledTiles_append_singleton (log : List Answer) (a : Answer) :
    sampledTiles (log ++ [a])
      = sampledTiles log + if a.origin = .sampled then a.patch.val.tileCount else 0 := by
  unfold sampledTiles
  rw [List.filter_append, List.map_append, List.sum_append]
  by_cases h : a.origin = .sampled <;> simp [h]

/-- the counts that a log stands for -/
def countsOf (settings : Settings) (log : List Answer) : BuildCounts where
  hits := log.countP fun a => a.origin = .cached
  copies := log.countP fun a => a.origin = .copied
  sampled := log.countP fun a => a.origin = .sampled
  composites := sampledIn settings true log

/-- the questions that a log stands for -/
def requestsOf (settings : Settings) (log : List Answer) : Requests where
  vertices := log.countP fun a => a.origin = .sampled
  tileColors := sampledTiles log
  layers := sampledIn settings false log + sampledTiles log

/-- what is counted can be read off the log -/
structure Accounted (l : Landscape) (log : List Answer) : Prop where
  counts : l.counts = countsOf l.settings log
  requests : l.workshop.requests = requestsOf l.settings log
  baked : ∀ a ∈ log, a.origin = .sampled →
    a.patch.val.composite.isSome = decide (l.settings.bakedFrom ≤ a.request.size)

variable {log : List Answer}

theorem accounted_create {source : Source} {scene : Scene} {queue : BakeQueue}
    {settings : Settings} (h : create source scene queue settings = .ok l) : l.Accounted [] where
  counts := by
    unfold create at h
    split at h
    · cases h
    · dsimp only at h
      split at h <;> cases h
      rfl
  requests := by
    rw [(new_create h).workshop]
    rfl
  baked a ha := absurd ha List.not_mem_nil

theorem Accounted.uncounted (h : l.Accounted log) (settings : l'.settings = l.settings)
    (h' : Uncounted l l') : l'.Accounted log := by
  refine ⟨?_, ?_, ?_⟩ <;> rw [settings]
  · rw [h'.counts, h.counts]
  · rw [h'.requests, h.requests]
  · exact h.baked

theorem Accounted.get (h : l.Accounted log) (hl : l.Kept) (hget : l.get r now = .ok (p, l')) :
    l'.Accounted (log ++ [⟨r, l.origin r, p⟩]) := by
  have baked : ∀ a ∈ log ++ [⟨r, l.origin r, p⟩], a.origin = .sampled →
      a.patch.val.composite.isSome = decide (l.settings.bakedFrom ≤ a.request.size) := by
    intro a ha ho
    cases List.mem_append.mp ha with
    | inl ha => exact h.baked a ha ho
    | inr ha =>
      rw [List.mem_singleton.mp ha] at ho ⊢
      exact composite_isSome_of_sampled hl ho hget
  have settings := (sameGround_get hget).settings
  rw [← settings] at baked
  refine ⟨?_, ?_, baked⟩ <;> rw [settings] <;> cases ho : l.origin r
  · rw [get_of_cached hl ho hget, h.counts]
    simp [countsOf]
  · rw [(counts_of_copied hl ho hget).1, h.counts]
    simp [countsOf]
  · rw [(counts_of_sampled hl ho hget).1, h.counts]
    show _ = countsOf l.settings (log ++ [⟨r, .sampled, p⟩])
    cases hb : decide (l.settings.bakedFrom ≤ r.size) <;> simp [countsOf, isBaked, hb]
  · rw [get_of_cached hl ho hget, h.requests]
    simp [requestsOf]
  · rw [(counts_of_copied hl ho hget).2, h.requests]
    simp [requestsOf]
  · rw [(counts_of_sampled hl ho hget).2, h.requests]
    show _ = requestsOf l.settings (log ++ [⟨r, .sampled, p⟩])
    cases hb : decide (l.settings.bakedFrom ≤ r.size) <;>
      simp [requestsOf, Requests.addTiles, Requests.addLayers, ownLayers, isBaked, hb]
    · omega
    · exact Nat.add_assoc _ _ _

theorem Accounted.act (h : l.Accounted log) (hl : l.Kept) {a : Action} (ha : l.act a = .ok l') :
    l'.Accounted (log ++ (l.answer? a).toList) := by
  have settings := (sameGround_act ha).settings
  rcases act_counted ha with ⟨r, now, name, p, l₁, -, hget, hanswer, same, -⟩ | ⟨-, hanswer, same⟩
  · rw [hanswer]
    exact (h.get hl hget).uncounted (settings.trans (sameGround_get hget).settings.symm) same
  · rw [hanswer, Option.toList_none, List.append_nil]
    exact h.uncounted settings same

theorem request_of_act {a : Action} (ha : l.act a = .ok l') :
    (l.answer? a).toList.map (·.request) = requests [a] := by
  rcases act_counted ha with ⟨r, now, name, p, l₁, rfl, -, hanswer, -⟩ | ⟨hnone, hanswer, -⟩
  · rw [hanswer]
    rfl
  · rw [hanswer, hnone]
    rfl

/-- the log has one answer for each request -/
theorem requests_answers {acts : List Action} (h : l.run acts = .ok l') :
    (l.answers acts).map (·.request) = requests acts := by
  induction acts generalizing l with
  | nil => rfl
  | cons a acts ih =>
    obtain ⟨l₁, h₁, h⟩ := Fault.bind_eq_ok.mp h
    rw [answers_cons acts h₁, List.map_append, ih h, request_of_act h₁]
    exact (List.filterMap_append (l := [a])).symm

/-- an answer comes from one of three places -/
theorem length_eq_countP (log : List Answer) :
    log.length = (log.countP fun a => a.origin = .cached) +
      (log.countP fun a => a.origin = .copied) + log.countP fun a => a.origin = .sampled := by
  induction log with
  | nil => rfl
  | cons a log ih =>
    simp only [List.countP_cons, List.length_cons, ih]
    cases a.origin <;> simp <;> omega

/-! ## while nothing is forgotten -/

/-- whether a patch of the sample is cached -/
def Caches (l : Landscape) (s : SampleKey) : Prop := ∃ a ∈ l.cache.toList, a.1.sample = s

theorem caches_get (hl : l.Kept) (h : l.get r now = .ok (p, l')) (s : SampleKey) :
    l'.Caches s ↔ l.Caches s ∨ r.key.sample = s := by
  have answered : l'.Caches r.key.sample := ⟨_, (hl.get h).2, rfl⟩
  rcases get_cases h with ⟨hsome, rfl⟩ | ⟨-, hmiss⟩
  · have cached : l.Caches r.key.sample := ⟨_, ExpiringCache.mem_toList_of_get? hsome, rfl⟩
    exact ⟨.inl, fun h => h.elim id fun hs => hs ▸ cached⟩
  · obtain ⟨patch, l₁, hbuild, -, rfl⟩ := miss_eq_ok hmiss
    obtain ⟨w, c, b, rfl, -⟩ := builds_build hbuild
    constructor
    · rintro ⟨a, ha, hs⟩
      cases ExpiringCache.mem_toList_insert ha with
      | inl hnew =>
        rw [hnew] at hs
        exact .inr hs
      | inr hold => exact .inl ⟨a, hold, hs⟩
    · rintro (⟨a, ha, rfl⟩ | rfl)
      · obtain ⟨b, hb, hk⟩ := ExpiringCache.exists_mem_toList_insert r.key p now ha
        exact ⟨b, hb, by rw [hk]⟩
      · exact answered

theorem toList_of_forgets {a : Action} (h : l.act a = .ok l') (hf : l.forgets a = 0)
    (hr : requests [a] = []) : l'.cache.toList = l.cache.toList := by
  rcases act_cases h with h | ⟨r, now, name, p, l₁, rfl, -⟩ | ⟨now, rfl, rfl⟩ | ⟨rfl, rfl⟩
  · rw [h.cache]
  · cases hr
  · exact ExpiringCache.toList_evict_of_none hf
  · exact (congrArg _ (List.length_eq_zero_iff.mp hf)).symm

/-- the samples of the requests in a log -/
def samplesIn (log : List Answer) : List SampleKey := log.map fun a => a.request.key.sample

/-- what has been asked for is what is cached, and the source has been asked for each sample
once -/
structure Remembers (l : Landscape) (log : List Answer) : Prop where
  cached : ∀ s, l.Caches s ↔ s ∈ samplesIn log
  once : (log.countP fun a => a.origin = .sampled) = (samplesIn log).toFinset.card

theorem remembers_create {source : Source} {scene : Scene} {queue : BakeQueue}
    {settings : Settings} (h : create source scene queue settings = .ok l) :
    l.Remembers [] where
  cached s := by
    rw [Caches, (new_create h).toList_cache]
    simp [samplesIn]
  once := rfl

theorem Remembers.get (h : l.Remembers log) (hl : l.Kept) (hget : l.get r now = .ok (p, l')) :
    l'.Remembers (log ++ [⟨r, l.origin r, p⟩]) := by
  have samples : samplesIn (log ++ [⟨r, l.origin r, p⟩]) = samplesIn log ++ [r.key.sample] :=
    List.map_append
  refine ⟨?_, ?_⟩
  · intro s
    rw [samples, caches_get hl hget, h.cached, List.mem_append, List.mem_singleton, eq_comm]
  · have new : l.origin r = .sampled ↔ r.key.sample ∉ samplesIn log := by
      rw [← h.cached, origin_sampled_iff, Caches]
      push Not
      rfl
    rw [samples, List.countP_append, List.countP_singleton, h.once, List.toFinset_append]
    by_cases ho : l.origin r = .sampled
    · have fresh : r.key.sample ∉ (samplesIn log).toFinset := by
        rw [List.mem_toFinset]
        exact new.mp ho
      rw [Finset.union_comm]
      simp [ho, Finset.card_insert_of_notMem fresh]
    · have old : r.key.sample ∈ (samplesIn log).toFinset := by
        rw [List.mem_toFinset]
        exact not_not.mp fun hno => ho (new.mpr hno)
      simp [ho, Finset.union_eq_left.mpr, old]

theorem Remembers.act (h : l.Remembers log) (hl : l.Kept) {a : Action} (ha : l.act a = .ok l')
    (hf : l.forgets a = 0) : l'.Remembers (log ++ (l.answer? a).toList) := by
  rcases act_counted ha with ⟨r, now, name, p, l₁, -, hget, hanswer, -, cache⟩ |
    ⟨hr, hanswer, -⟩
  · rw [hanswer]
    have after := h.get hl hget
    refine ⟨?_, after.once⟩
    intro s
    rw [Caches, cache]
    exact after.cached s
  · rw [hanswer, Option.toList_none, List.append_nil]
    refine ⟨?_, h.once⟩
    intro s
    rw [← h.cached, Caches, Caches, toList_of_forgets ha hf hr]

/-! ## runs -/

theorem forgets_of_forgotten {acts : List Action} (h : l.forgotten acts = 0)
    {s : Landscape × Action} (hs : s ∈ l.trace acts) : s.1.forgets s.2 = 0 :=
  List.sum_eq_zero_iff.mp h _ (List.mem_map.mpr ⟨s, hs, rfl⟩)

/-- **The counts after any run are those of its log.**  The log has one answer for each request, in
order.  An answer is counted as a hit, as a copy or as sampled by what was cached at the request:
its key, or only another key with its center and level, or neither.  The source is asked for
vertices once for each patch that is sampled, and a composite is put together for those that are at
least `bakedFrom` cells large.  The source is asked for the colors of every tile of these
composites, and for the layers of every such tile and of every other sampled patch.  If nothing was
forgotten in the run, each center and level was sampled once.  One more request counts as one more
answer of its kind, and if it is cached nothing else changes. -/
theorem accounts_of_run {source : Source} {scene : Scene} {queue : BakeQueue} {settings : Settings}
    {l₀ l : Landscape} {acts : List Action} (hl : create source scene queue settings = .ok l₀)
    (h : l₀.run acts = .ok l) :
    (l₀.answers acts).map (·.request) = requests acts ∧
    l.counts.hits = ((l₀.answers acts).countP fun a => a.origin = .cached) ∧
    l.counts.copies = ((l₀.answers acts).countP fun a => a.origin = .copied) ∧
    l.counts.sampled = ((l₀.answers acts).countP fun a => a.origin = .sampled) ∧
    l.counts.hits + l.counts.copies + l.counts.sampled = (requests acts).length ∧
    l.workshop.requests.vertices = l.counts.sampled ∧
    l.counts.composites = ((l₀.answers acts).countP fun a =>
      a.origin = .sampled ∧ settings.bakedFrom ≤ a.request.size) ∧
    (∀ a ∈ l₀.answers acts, a.origin = .sampled →
      (a.patch.val.composite.isSome ↔ settings.bakedFrom ≤ a.request.size)) ∧
    l.workshop.requests.tileColors = (((l₀.answers acts).filter fun a =>
      a.origin = .sampled).map fun a => a.patch.val.tileCount).sum ∧
    l.workshop.requests.layers = ((l₀.answers acts).countP fun a =>
      a.origin = .sampled ∧ ¬ settings.bakedFrom ≤ a.request.size) +
        l.workshop.requests.tileColors ∧
    (l₀.forgotten acts = 0 →
      l.counts.sampled = ((requests acts).map fun r => r.key.sample).dedup.length) ∧
    ∀ r now p l', l.get r now = .ok (p, l') →
      (l.origin r = .cached →
        l' = { l with counts := { l.counts with hits := l.counts.hits + 1 } }) ∧
      (l.origin r = .copied → l'.counts = { l.counts with copies := l.counts.copies + 1 }) ∧
      (l.origin r = .sampled → l'.counts = { l.counts with
        sampled := l.counts.sampled + 1
        composites := l.counts.composites + (l.isBaked r.size).toNat }) := by
  have kept := kept_create hl
  have accounted : l.Accounted (l₀.answers acts) :=
    log_induction h kept (accounted_create hl) fun _ _ _ _ hk ha hacc => hacc.act hk ha
  have hsettings : l.settings = settings :=
    (sameGround_run h).settings.trans (new_create hl).settings
  have asked := requests_answers h
  obtain ⟨counts, questions, baked⟩ := accounted
  rw [hsettings] at counts questions baked
  refine ⟨asked, ?_, ?_, ?_, ?_, ?_, ?_, ?_, ?_, ?_, ?_, ?_⟩
  · rw [counts, countsOf]
  · rw [counts, countsOf]
  · rw [counts, countsOf]
  · rw [counts, ← asked, List.length_map]
    exact (length_eq_countP _).symm
  · rw [counts, questions, countsOf, requestsOf]
  · simp [counts, countsOf, sampledIn]
  · intro a ha ho
    simp [baked a ha ho]
  · rw [questions, requestsOf, sampledTiles]
  · simp [questions, requestsOf, sampledIn]
  · intro hf
    have remembers : l.Remembers (l₀.answers acts) :=
      log_induction h kept (remembers_create hl) fun s hs _ _ hk ha hr =>
        hr.act hk ha (forgets_of_forgotten hf hs)
    rw [counts, ← asked, List.map_map]
    exact remembers.once.trans (List.card_toFinset _)
  · intro r now p l' hget
    have hk := kept_run hl h
    exact ⟨fun ho => get_of_cached hk ho hget, fun ho => (counts_of_copied hk ho hget).1,
      fun ho => (counts_of_sampled hk ho hget).1⟩

/-- a patch is sampled, hit and copied, and another one, around the point `(2, 0)`, is small -/
def thirdTime : List Action :=
  [.get (requestAtOrigin Scalar.two 0) 0 none, .get (requestAtOrigin Scalar.two 0) 0 none,
    .get (requestAtOrigin Scalar.two 1) 0 none, .update 0, .release,
    .get ⟨Scalar.half, ⟨⟨0x40000000⟩, ⟨0⟩⟩, 0, ⟨0⟩, false⟩ 0 none]

theorem accounts_of_run_thirdTime : ∃ l₀ l : Landscape, small = .ok l₀ ∧
    l₀.run thirdTime = .ok l ∧ l₀.forgotten thirdTime = 0 ∧
    ((l₀.answers thirdTime).map fun a => (a.origin, a.patch.val.tileCount))
      = [(.sampled, 4), (.cached, 4), (.copied, 4), (.sampled, 0)] ∧
    l.counts.hits + l.counts.copies + l.counts.sampled = (requests thirdTime).length ∧
    l.counts.sampled = ((requests thirdTime).map fun r => r.key.sample).dedup.length := by
  obtain ⟨l₀, hl, ht⟩ : ∃ l₀, small = .ok l₀ ∧ ((l₀.run thirdTime).toOption.any fun _ =>
      decide (l₀.forgotten thirdTime = 0 ∧
        ((l₀.answers thirdTime).map fun a => (a.origin, a.patch.val.tileCount))
          = [(.sampled, 4), (.cached, 4), (.copied, 4), (.sampled, 0)])) = true :=
    exists_ok_of_any (by decide +kernel)
  obtain ⟨l, h, ht⟩ := exists_ok_of_any ht
  obtain ⟨hf, hlog⟩ := of_decide_eq_true ht
  obtain ⟨-, -, -, -, sum, -, -, -, -, -, once, -⟩ := accounts_of_run hl h
  exact ⟨l₀, l, hl, h, hf, hlog, sum, once hf⟩

end Landscape

end TerrainPatches
