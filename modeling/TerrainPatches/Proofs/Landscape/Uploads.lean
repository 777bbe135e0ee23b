import TerrainPatches.Proofs.Landscape.Eviction
import TerrainPatches.Proofs.Landscape.Handles

/-!
# Uploads spread over frames

What enters the upload queue leaves it at the front, in the order in which it came (`queue_act`).
Of the requests only those enter a patch that sample one and ask for its upload; hits and copies
never do.  `queued_of_run` is what follows for a run: what was compiled and what still waits are
together the sampled patches, in order, each once.

A compilation takes one patch after the other (`drain`), and right after its turn a patch has all
that drawing it needs on the device (`Patch.Ready`), whatever has become of it in the cache.
-/

namespace TerrainPatches

/-! ## what a compiled patch has on the device -/

/-- all that drawing the patch needs is resident, but for what is baked -/
structure Patch.Ready (d : Device) (p : Patch) : Prop where
  positions : d.isResident p.positions.slot = true
  normals : d.isResident p.normals.slot = true
  colors : d.isResident p.colors.slot = true
  indices : d.isResident p.indices.id = true
  uvs : d.isResident p.uvs.id = true
  textures : ∀ pass ∈ p.passes.val, ∀ t,
    t = pass.diffuse ∨ pass.normal = some t ∨ pass.blendMap = some t → t.val.isTarget = false →
      d.isResident t.id = true

theorem Patch.ready_uploadAll (p : Patch) (d : Device) : p.Ready (d.uploadAll p.uploads).2 := by
  have resident (slot : ObjectId) (h : slot ∈ p.uploads.map (·.slot)) :
      (d.uploadAll p.uploads).2.isResident slot = true :=
    (d.isResident_uploadAll _ _).mpr (.inr h)
  refine ⟨resident _ ?_, resident _ ?_, resident _ ?_, resident _ ?_, resident _ ?_, ?_⟩
  · exact List.mem_cons_self
  · exact .tail _ List.mem_cons_self
  · exact .tail _ (.tail _ List.mem_cons_self)
  · exact .tail _ (.tail _ (.tail _ List.mem_cons_self))
  · exact .tail _ (.tail _ (.tail _ (.tail _ List.mem_cons_self)))
  · intro pass hpass t ht sampled
    have drawn : t ∈ p.textures := List.mem_flatMap.mpr ⟨pass, hpass, Pass.mem_textures.mpr ht⟩
    have kept : t ∈ p.textures.filter fun t => !t.val.isTarget :=
      List.mem_filter.mpr ⟨drawn, by rw [sampled]; rfl⟩
    refine resident _ (List.mem_map.mpr ⟨t.textureUpload, ?_, rfl⟩)
    exact List.mem_append_right _ (List.mem_map_of_mem kept)

namespace Landscape

variable {l l' : Landscape} {r : PatchRequest} {p : Shared Patch} {now : Nat}

/-! ## one patch after the other -/

def withQueue (l : Landscape) (q : List (Shared Patch)) : Landscape :=
  { l with uploadQueue := some q }

theorem withQueue_self {q : List (Shared Patch)} (hq : l.uploadQueue = some q) :
    l.withQueue q = l := by
  rw [withQueue, ← hq]

/-- patches taken from the front of the queue and compiled, at most `limit`, each with the landscape
right after its turn -/
def drain (l : Landscape) : Nat → List (Shared Patch × Landscape)
  | 0 => []
  | limit + 1 =>
    match l.uploadQueue with
    | some (p :: q) =>
      let after := ((l.withQueue q).compile p).2
      (p, after) :: after.drain limit
    | _ => []

theorem drain_withQueue_nil (l : Landscape) (limit : Nat) : (l.withQueue []).drain limit = [] := by
  cases limit <;> rfl

theorem map_drain {q : List (Shared Patch)} (hq : l.uploadQueue = some q) (limit : Nat) :
    (l.drain limit).map (·.1) = q.take limit := by
  rw [← withQueue_self hq]
  induction limit generalizing l q with
  | zero => rfl
  | succ limit ih =>
    cases q with
    | nil => rw [drain_withQueue_nil, List.take_nil, List.map_nil]
    | cons p q => exact congrArg (p :: ·) (ih (l := ((l.withQueue q).compile p).2) rfl)

theorem compileAll_withQueue (l : Landscape) (q : List (Shared Patch)) (limit : Nat) :
    (l.withQueue (q.drop limit)).compileAll (q.take limit)
      = (((l.withQueue q).drain limit).map (·.2)).getLastD (l.withQueue q) := by
  induction limit generalizing l q with
  | zero => rfl
  | succ limit ih =>
    cases q with
    | nil =>
      rw [drain_withQueue_nil]
      rfl
    | cons p q =>
      have turn := ih ((l.withQueue q).compile p).2 q
      rw [withQueue_self (show ((l.withQueue q).compile p).2.uploadQueue = some q from rfl)] at turn
      show _ = List.getLastD (_ :: _) _
      rw [List.getLastD_cons]
      exact turn

/-- what waits is compiled one patch after the other -/
theorem compileQueued_eq {q : List (Shared Patch)} (hq : l.uploadQueue = some q) (limit : Nat) :
    l.compileQueued limit
      = (some (min limit q.length), ((l.drain limit).map (·.2)).getLastD l) := by
  have turns := l.compileAll_withQueue q limit
  rw [withQueue_self hq] at turns
  rw [← turns, ← List.length_take, compileQueued, hq]
  rfl

theorem uploadQueue_compileQueued {q : List (Shared Patch)} (hq : l.uploadQueue = some q)
    (limit : Nat) : (l.compileQueued limit).2.uploadQueue = some (q.drop limit) := by
  rw [compileQueued, hq]
  show (compileAll _ _).uploadQueue = _
  rw [compileAll_eq]

theorem ready_compile (l : Landscape) (p : Shared Patch) :
    p.val.Ready (l.compile p).2.bakery.device :=
  p.val.ready_uploadAll l.bakery.device

theorem ready_of_drain {s : Shared Patch × Landscape} {limit : Nat} (hs : s ∈ l.drain limit) :
    s.1.val.Ready s.2.bakery.device := by
  induction limit generalizing l with
  | zero => cases hs
  | succ limit ih =>
    rw [drain] at hs
    split at hs
    · next p q _ =>
      rcases List.mem_cons.mp hs with rfl | hs
      · exact (l.withQueue q).ready_compile p
      · exact ih hs
    · cases hs

/-! ## what enters the queue and what leaves it -/

/-- the sampled patches whose upload was asked for -/
def toUpload (log : List Answer) : List (Shared Patch) :=
  (log.filter fun a => a.origin = .sampled ∧ a.request.uploadSoon = true).map (·.patch)

/-- what an action puts at the end of the queue -/
def joins (l : Landscape) : Action → List (Shared Patch)
  | .enqueue name => (l.holders.get? name).toList
  | a => toUpload (l.answer? a).toList

/-- what an action takes from the queue and compiles -/
def compiledBy (l : Landscape) : Action → List (Shared Patch)
  | .compileQueued limit => (l.drain limit).map (·.1)
  | _ => []

/-- what a run takes from the queue and compiles -/
def compiled (l : Landscape) (acts : List Action) : List (Shared Patch) :=
  (l.trace acts).flatMap fun s => s.1.compiledBy s.2

theorem toUpload_append (log more : List Answer) :
    toUpload (log ++ more) = toUpload log ++ toUpload more := by
  rw [toUpload, List.filter_append, List.map_append]
  rfl

theorem toUpload_of_hit (hl : l.Kept) (hit : l.cache.get? r.key = some p) (now : Nat)
    (name : Option String) : toUpload (l.answer? (.get r now name)).toList = [] := by
  have cached : l.origin r = .cached := (get?_isSome_iff hl).mp (by rw [hit]; rfl)
  have hget : l.get r now = .ok (l.hit p) := by rw [get, hit]
  simp [toUpload, answer?, hget, cached, Landscape.hit]

/-- a patch that was not cached is to be uploaded if it was sampled and its upload was asked for -/
theorem toUpload_of_miss (hl : l.Kept) (none : l.cache.get? r.key = none)
    (hmiss : l.miss r now = .ok (p, l')) (name : Option String) :
    toUpload (l.answer? (.get r now name)).toList
      = if r.uploadSoon && (l.sibling? r.key.sample).isNone then [p] else [] := by
  have hget : l.get r now = .ok (p, l') := by rw [get, none, hmiss]
  have sampled := sibling?_isNone_iff hl (r := r)
  by_cases fresh : l.origin r = .sampled
  · cases soon : r.uploadSoon <;> simp [toUpload, answer?, hget, soon, fresh, sampled.mpr fresh]
  · have copied : l.sibling? r.key.sample ≠ .none := fun h => fresh (sampled.mp h)
    simp [toUpload, answer?, hget, fresh, copied]

theorem queue_get (hl : l.Kept) (h : l.get r now = .ok (p, l')) (name : Option String) :
    l'.uploadQueue
      = l.uploadQueue.map (· ++ toUpload (l.answer? (.get r now name)).toList) := by
  rcases get_cases h with ⟨hit, rfl⟩ | ⟨none, hmiss⟩
  · simp only [toUpload_of_hit hl hit, List.append_nil, Option.map_id']
    rfl
  · rw [toUpload_of_miss hl none hmiss]
    obtain ⟨patch, l₁, hbuild, -, rfl⟩ := miss_eq_ok hmiss
    obtain ⟨w, c, b, rfl, -⟩ := builds_build hbuild
    split
    · rfl
    · simp only [List.append_nil, Option.map_id']

/-- **The queue keeps the order.**  What an action takes from the queue and what is left of it are
together what waited before and what joins it. -/
theorem queue_act {a : Action} (hl : l.Kept) (h : l.act a = .ok l') {q : List (Shared Patch)}
    (hq : l.uploadQueue = some q) :
    ∃ left, l'.uploadQueue = some left ∧ l.compiledBy a ++ left = q ++ l.joins a := by
  cases a with
  | get r now name =>
    obtain ⟨⟨p, l₁⟩, hget, h⟩ := Fault.bind_eq_ok.mp h
    have queue := queue_get hl hget name
    rw [hq] at queue
    refine ⟨_, ?_, rfl⟩
    cases name <;> cases h <;> exact queue
  | enqueue name =>
    cases h
    unfold withHeld
    show ∃ left, _ ∧ _ = q ++ (l.holders.get? name).toList
    cases l.holders.get? name with
    | none => exact ⟨q, hq, (List.append_nil q).symm⟩
    | some p => exact ⟨q ++ [p], by simp only [enqueue, hq, Option.map_some], rfl⟩
  | compileQueued limit =>
    cases h
    refine ⟨q.drop limit, uploadQueue_compileQueued hq limit, ?_⟩
    show (l.drain limit).map (·.1) ++ _ = q ++ []
    rw [map_drain hq, List.take_append_drop, List.append_nil]
  | drop name => cases h; exact ⟨q, hq, (List.append_nil q).symm⟩
  | setNodeMask mask => cases h; exact ⟨q, hq, (List.append_nil q).symm⟩
  | update now => cases h; exact ⟨q, hq, (List.append_nil q).symm⟩
  | clear => cases h; exact ⟨q, hq, (List.append_nil q).symm⟩
  | _ =>
    obtain ⟨bakery, rfl⟩ := act_atBakery h rfl
    exact ⟨q, hq, (List.append_nil q).symm⟩

/-! ## no patch is sampled twice -/

theorem supply_le_act {a : Action} (h : l.act a = .ok l') :
    l.workshop.supply.next ≤ l'.workshop.supply.next := by
  rcases act_cases h with ⟨_, _, _, _, _, rfl⟩ | ⟨r, now, name, p, l₁, -, -, hmiss, same⟩ |
    ⟨now, -, rfl⟩ | ⟨-, rfl⟩
  · exact le_rfl
  · obtain ⟨_, _, _, _, _, rfl⟩ := same
    obtain ⟨patch, l₂, hbuild, -, rfl⟩ := miss_eq_ok hmiss
    exact (builds_build hbuild).steps.grows.supply.trans (Nat.le_succ _)
  · exact le_rfl
  · exact le_rfl

/-- a patch that is to be uploaded is a new one -/
theorem new_toUpload {a : Action} (hl : l.Kept) (h : l.act a = .ok l') :
    toUpload (l.answer? a).toList = [] ∨ ∃ p, toUpload (l.answer? a).toList = [p] ∧
      l.workshop.supply.next ≤ p.id ∧ p.id < l'.workshop.supply.next := by
  cases a with
  | get r now name =>
    obtain ⟨p, l₁, hget, same⟩ := get_of_act h
    obtain ⟨_, _, _, _, _, rfl⟩ := same
    rcases get_cases hget with ⟨hit, -⟩ | ⟨none, hmiss⟩
    · exact .inl (toUpload_of_hit hl hit now name)
    · rw [toUpload_of_miss hl none hmiss]
      obtain ⟨patch, l₂, hbuild, rfl, rfl⟩ := miss_eq_ok hmiss
      split
      · exact .inr ⟨_, rfl, (builds_build hbuild).steps.grows.supply, Nat.lt_succ_self _⟩
      · exact .inl rfl
  | _ => exact .inl rfl

/-! ## runs -/

/-- the answers of a past -/
def answersIn (past : List (Landscape × Action)) : List Answer :=
  past.filterMap fun s => s.1.answer? s.2

/-- what a past has put into the queue -/
def joined (past : List (Landscape × Action)) : List (Shared Patch) :=
  past.flatMap fun s => s.1.joins s.2

/-- what a past has taken from the queue and compiled -/
def taken (past : List (Landscape × Action)) : List (Shared Patch) :=
  past.flatMap fun s => s.1.compiledBy s.2

theorem answersIn_append (past : List (Landscape × Action)) (a : Action) :
    answersIn (past ++ [(l, a)]) = answersIn past ++ (l.answer? a).toList := by
  rw [answersIn, List.filterMap_append, List.filterMap_cons]
  cases l.answer? a <;> rfl

/-- without a patch put there by hand, only what was sampled has joined the queue -/
theorem joined_eq {past : List (Landscape × Action)}
    (own : ∀ s ∈ past, ∀ name, s.2 ≠ .enqueue name) : joined past = toUpload (answersIn past) := by
  induction past with
  | nil => rfl
  | cons s past ih =>
    obtain ⟨l, a⟩ := s
    obtain ⟨first, rest⟩ := List.forall_mem_cons.mp own
    have here : l.joins a = toUpload (l.answer? a).toList := by
      cases a with
      | enqueue name => exact absurd rfl (first name)
      | _ => rfl
    have all : answersIn ((l, a) :: past) = (l.answer? a).toList ++ answersIn past := by
      rw [answersIn, List.filterMap_cons]
      cases l.answer? a <;> rfl
    rw [all, toUpload_append, ← ih rest, ← here]
    rfl

theorem mem_of_trace {acts : List Action} {s : Landscape × Action} (hs : s ∈ l.trace acts) :
    s.2 ∈ acts := by
  induction acts generalizing l with
  | nil => cases hs
  | cons a acts ih =>
    rw [trace] at hs
    rcases List.mem_cons.mp hs with rfl | hs
    · exact List.mem_cons_self
    · split at hs
      · exact List.mem_cons_of_mem a (ih hs)
      · cases hs

/-- what has left the queue and what waits in it has joined it, in this order -/
structure InLine (l : Landscape) (past : List (Landscape × Action)) : Prop where
  kept : l.Kept
  account : ∃ waiting, l.uploadQueue = some waiting ∧ taken past ++ waiting = joined past
  increasing : ((toUpload (answersIn past)).map (·.id)).Pairwise (· < ·)
  given : ∀ p ∈ toUpload (answersIn past), p.id < l.workshop.supply.next

theorem InLine.act {past : List (Landscape × Action)} {a : Action} (h : l.InLine past)
    (ha : l.act a = .ok l') : l'.InLine (past ++ [(l, a)]) := by
  obtain ⟨waiting, hwaiting, account⟩ := h.account
  obtain ⟨left, hleft, order⟩ := queue_act h.kept ha hwaiting
  have later := supply_le_act ha
  refine ⟨h.kept.act ha, ⟨left, hleft, ?_⟩, ?_, ?_⟩
  · rw [taken, joined, List.flatMap_append, List.flatMap_append, List.flatMap_singleton,
      List.flatMap_singleton, List.append_assoc, order, ← List.append_assoc]
    exact congrArg (· ++ _) account
  · rw [answersIn_append, toUpload_append, List.map_append]
    rcases new_toUpload h.kept ha with none | ⟨p, one, new, -⟩
    · rw [none, List.map_nil, List.append_nil]
      exact h.increasing
    · rw [one, List.map_singleton]
      refine List.pairwise_append.mpr ⟨h.increasing, List.pairwise_singleton _ _, ?_⟩
      intro i hi j hj
      obtain ⟨q, hq, rfl⟩ := List.mem_map.mp hi
      rw [List.mem_singleton.mp hj]
      exact (h.given q hq).trans_le new
  · rw [answersIn_append, toUpload_append]
    intro q hq
    rcases List.mem_append.mp hq with old | hq
    · exact (h.given q old).trans_le later
    · rcases new_toUpload h.kept ha with none | ⟨p, one, -, given⟩
      · rw [none] at hq
        cases hq
      · rw [one, List.mem_singleton] at hq
        rwa [hq]

section
variable {source : Source} {scene : Scene} {queue : BakeQueue} {settings : Settings}

theorem inLine_create (hl : create source scene queue settings = .ok l)
    (spreads : scene.queuesUploads = true) : l.InLine [] := by
  have empty : l.uploadQueue = some [] := by
    unfold create at hl
    split at hl
    · cases hl
    · dsimp only at hl
      split at hl
      · cases hl
      · cases hl
        exact if_pos spreads
  exact ⟨kept_create hl, ⟨[], empty, rfl⟩, .nil, fun p hp => absurd hp List.not_mem_nil⟩

/-- **What a queue holds after any run.**  If no patch is put into it by hand, what has been compiled
from the queue and what still waits in it are, in order, the answers that were sampled on requests
for their upload, each of them once.  A compilation takes as many patches from the front as its limit
allows, one after the other; right after its turn a patch is ready to be drawn, whether or not it is
still cached. -/
theorem queued_of_run {l₀ : Landscape} {acts : List Action}
    (hl : create source scene queue settings = .ok l₀) (spreads : scene.queuesUploads = true)
    (h : l₀.run acts = .ok l) (own : ∀ name, .enqueue name ∉ acts) :
    ∃ waiting, l.uploadQueue = some waiting ∧
      l₀.compiled acts ++ waiting = ((l₀.answers acts).filter fun a =>
        a.origin = .sampled ∧ a.request.uploadSoon = true).map (·.patch) ∧
      ((l₀.compiled acts ++ waiting).map (·.id)).Nodup ∧
      ∀ limit,
        l.compileQueued limit
          = (some (min limit waiting.length), ((l.drain limit).map (·.2)).getLastD l) ∧
        (l.drain limit).map (·.1) = waiting.take limit ∧
        (l.compileQueued limit).2.uploadQueue = some (waiting.drop limit) ∧
        ∀ s ∈ l.drain limit, s.1.val.Ready s.2.bakery.device := by
  have inLine : l.InLine (l₀.trace acts) :=
    past_induction h (inLine_create hl spreads) fun _ _ _ _ ha hp => hp.act ha
  obtain ⟨waiting, hwaiting, account⟩ := inLine.account
  rw [joined_eq fun s hs name same => own name (same ▸ mem_of_trace hs)] at account
  refine ⟨waiting, hwaiting, account, ?_, fun limit => ⟨compileQueued_eq hwaiting limit,
    map_drain hwaiting limit, uploadQueue_compileQueued hwaiting limit,
    fun s hs => ready_of_drain hs⟩⟩
  rw [show l₀.compiled acts ++ waiting = _ from account]
  exact inLine.increasing.imp ne_of_lt

end

/-- a patch is sampled, copied, found and forgotten, and it is compiled while its successor waits -/
def sampledAgain : List Action :=
  [.get (requestAtOrigin Scalar.two 0) 0 none, .get (requestAtOrigin Scalar.two 1) 0 none,
    .get (requestAtOrigin Scalar.two 0) 0 none, .clear,
    .get (requestAtOrigin Scalar.two 0) 0 none, .compileQueued 1]

/-- the second layer of a patch drawn in layers has its normal map and its blend map on the device
after the patch's turn -/
theorem queued_of_run_sampledAgain : (∃ l₀ l : Landscape, small = .ok l₀ ∧
    l₀.run sampledAgain = .ok l ∧ ∃ p q, l₀.compiled sampledAgain = [p] ∧
      l.uploadQueue = some [q] ∧ (l.cache.toList.map fun e => e.2.id) = [q.id] ∧ p.id ≠ q.id ∧
      (l.compileQueued 8).1 = some 1 ∧ ∀ s ∈ l.drain 8, s.1.val.Ready s.2.bakery.device) ∧
    ∃ l₀ l : Landscape, layered = .ok l₀ ∧
      l₀.run [.get (requestAtOrigin Scalar.one 0) 0 none] = .ok l ∧
      ∃ s ∈ l.drain 8, ∃ pass ∈ s.1.val.passes.val, ∃ normal blendMap,
        pass.normal = some normal ∧ pass.blendMap = some blendMap ∧
        ∀ t ∈ [pass.diffuse, normal, blendMap], s.2.bakery.device.isResident t.id = true := by
  constructor
  · obtain ⟨l₀, hl, ht⟩ : ∃ l₀, small = .ok l₀ ∧ ((l₀.run sampledAgain).toOption.any fun l =>
        decide ((l₀.compiled sampledAgain).length = 1 ∧ (l.uploadQueue.getD []).length = 1 ∧
          (l.cache.toList.map fun e => e.2.id) = (l.uploadQueue.getD []).map (·.id))) = true :=
      exists_ok_of_any (by decide +kernel)
    obtain ⟨l, h, ht⟩ := exists_ok_of_any ht
    obtain ⟨once, one, cached⟩ := of_decide_eq_true ht
    obtain ⟨waiting, hwaiting, -, distinct, calls⟩ :=
      queued_of_run hl rfl h (fun name => by simp [sampledAgain])
    rw [hwaiting] at one cached
    obtain ⟨p, hp⟩ := List.length_eq_one_iff.mp once
    obtain ⟨q, rfl⟩ := List.length_eq_one_iff.mp one
    obtain ⟨count, -, -, ready⟩ := calls 8
    rw [hp] at distinct
    refine ⟨l₀, l, hl, h, p, q, hp, hwaiting, cached, ?_, congrArg Prod.fst count, ready⟩
    exact List.ne_of_not_mem_cons (List.nodup_cons.mp distinct).1
  · obtain ⟨l₀, l, hl, h, ht⟩ := exists_run layered
      [.get (requestAtOrigin Scalar.one 0) 0 none]
      (fun l => (l.drain 8).any fun s => s.1.val.passes.val.any fun pass =>
        pass.normal.isSome && pass.blendMap.isSome && pass.textures.all fun t => !t.val.isTarget)
      (by decide +kernel)
    obtain ⟨_, -, -, -, calls⟩ := queued_of_run hl rfl h (fun name => by simp)
    obtain ⟨s, hs, ht⟩ := List.any_eq_true.mp ht
    obtain ⟨pass, hpass, normal, blendMap, hnormal, hblendMap, painted⟩ :=
      exists_mapped_of_any _ ht
    refine ⟨l₀, l, hl, h, s, hs, pass, hpass, normal, blendMap, hnormal, hblendMap, ?_⟩
    intro t ht
    obtain ⟨sampled, painted⟩ := painted t ht
    exact ((calls 8).2.2.2 s hs).textures pass hpass t (Pass.mem_textures.mp sampled)
      (Bool.not_eq_true' _ ▸ painted)

end Landscape

end TerrainPatches
