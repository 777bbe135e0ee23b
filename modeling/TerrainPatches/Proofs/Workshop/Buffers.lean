import TerrainPatches.Proofs.Workshop.Planned

/-!
# Buffers are given out as if each were made on the spot

A memo remembers what it has made by a key, and what is made depends on that key alone
(`Memo`).  `Memo.Records` is what holds of its table and of all that was ever given out: everything
is as it would be if it were made for its question, two questions since the same clearing have one
object exactly if they have one key, and the table has one object for each key that was asked for
since the last clearing.

Index buffers are such a memo because a triangulation depends on no more of the seams than their
edge bits; texture coordinates are one by their resolution.  `buffers_of_calls` is what follows for
any calls on both.
-/

namespace TerrainPatches

/-! ## memos -/

/-- what is made depends on a key of the question alone, and shows that key -/
structure Memo (ι κ α : Type) where
  make : ι → α
  key : ι → κ
  keyOf : α → κ
  keyOf_make : ∀ q, keyOf (make q) = key q
  make_congr : ∀ {q q'}, key q = key q' → make q = make q'

/-- an object given out for a question, and how often its memo had been cleared before -/
structure Given (ι α : Type) where
  question : ι
  object : Shared α
  clears : Nat

namespace Memo

variable {ι κ α : Type} (m : Memo ι κ α)

/-- the object for a question, made if there is none with its key -/
def ask [DecidableEq κ] (table : List (Shared α)) (q : ι) (supply : Supply) :
    Shared α × List (Shared α) × Supply :=
  match table.find? fun s => decide (m.keyOf s.val = m.key q) with
  | some s => (s, table, supply)
  | none => ((supply.share (m.make q)).1, (supply.share (m.make q)).1 :: table,
      (supply.share (m.make q)).2)

/-- two questions have the same object if they have the same key and nothing was forgotten between
them, and otherwise they do not -/
def Agree (g g' : Given ι α) : Prop :=
  g.object.id = g'.object.id ↔ g.clears = g'.clears ∧ m.key g.question = m.key g'.question

/-- what was given out since the last clearing -/
def recent (clears : Nat) (log : List (Given ι α)) : List (Given ι α) :=
  log.filter fun g => g.clears = clears

/-- the table is what was given out last, and all that was given out is as it should be -/
structure Records (table : List (Shared α)) (supply : Supply) (clears : Nat)
    (log : List (Given ι α)) : Prop where
  made : ∀ g ∈ log, g.object.val = m.make g.question
  given : ∀ g ∈ log, g.object.id < supply.next
  past : ∀ g ∈ log, g.clears ≤ clears
  agree : log.Pairwise m.Agree
  remembered : ∀ s, s ∈ table ↔ ∃ g ∈ recent clears log, g.object = s
  keys : (table.map fun s => m.keyOf s.val).Nodup

variable {m} {table : List (Shared α)} {supply supply' : Supply} {clears : Nat}
  {log : List (Given ι α)}

theorem mem_recent {g : Given ι α} : g ∈ recent clears log ↔ g ∈ log ∧ g.clears = clears := by
  rw [recent, List.mem_filter, decide_eq_true_iff]

theorem recent_cons (q : ι) (s : Shared α) :
    recent clears (⟨q, s, clears⟩ :: log) = ⟨q, s, clears⟩ :: recent clears log :=
  List.filter_cons_of_pos (decide_eq_true rfl)

theorem records_nil (supply : Supply) : m.Records [] supply clears [] where
  made _ h := absurd h List.not_mem_nil
  given _ h := absurd h List.not_mem_nil
  past _ h := absurd h List.not_mem_nil
  agree := .nil
  remembered s := by simp [recent]
  keys := List.nodup_nil

theorem Records.mono (h : m.Records table supply clears log) (le : supply.next ≤ supply'.next) :
    m.Records table supply' clears log :=
  ⟨h.made, fun g hg => (h.given g hg).trans_le le, h.past, h.agree, h.remembered, h.keys⟩

theorem Records.clear (h : m.Records table supply clears log) :
    m.Records [] supply (clears + 1) log where
  made := h.made
  given := h.given
  past g hg := (h.past g hg).trans (Nat.le_succ clears)
  agree := h.agree
  remembered s := by
    refine iff_of_false List.not_mem_nil ?_
    rintro ⟨g, hg, -⟩
    obtain ⟨hg, now⟩ := mem_recent.mp hg
    exact absurd (h.past g hg) (by omega)
  keys := List.nodup_nil

/-- what is in the table shows the key of the question it was given out for -/
theorem Records.keyOf (h : m.Records table supply clears log) {g : Given ι α} (hg : g ∈ log) :
    m.keyOf g.object.val = m.key g.question := by
  rw [h.made g hg, m.keyOf_make]

instance : Std.Symm m.Agree where
  symm g g' h := by
    rw [Agree, eq_comm, eq_comm (a := g'.clears), eq_comm (a := m.key g'.question)]
    exact h

theorem Records.agree_of_mem (h : m.Records table supply clears log) {g g' : Given ι α}
    (hg : g ∈ log) (hg' : g' ∈ log) : m.Agree g g' :=
  List.Pairwise.forall_of_forall (R := m.Agree) (fun _ _ => iff_of_true rfl ⟨rfl, rfl⟩) h.agree
    hg hg'

/-- an object of the table is given out again -/
theorem Records.again (h : m.Records table supply clears log) {q : ι} {s : Shared α}
    (hs : s ∈ table) (key : m.keyOf s.val = m.key q) :
    m.Records table supply clears (⟨q, s, clears⟩ :: log) := by
  obtain ⟨first, hfirst, rfl⟩ := (h.remembered s).mp hs
  obtain ⟨hlog, now⟩ := mem_recent.mp hfirst
  rw [h.keyOf hlog] at key
  refine ⟨?_, ?_, ?_, ?_, ?_, h.keys⟩
  · refine List.forall_mem_cons.mpr ⟨?_, h.made⟩
    exact (h.made first hlog).trans (m.make_congr key)
  · exact List.forall_mem_cons.mpr ⟨h.given first hlog, h.given⟩
  · exact List.forall_mem_cons.mpr ⟨le_rfl, h.past⟩
  · -- it agrees with whatever the first of its kind agrees with
    refine List.pairwise_cons.mpr ⟨fun g hg => ?_, h.agree⟩
    have same := h.agree_of_mem hlog hg
    rwa [Agree, now, key] at same
  · intro s
    rw [h.remembered, recent_cons]
    refine ⟨fun ⟨g, hg, hs⟩ => ⟨g, List.mem_cons_of_mem _ hg, hs⟩, ?_⟩
    rintro ⟨g, hg, rfl⟩
    rcases List.mem_cons.mp hg with rfl | hg
    · exact ⟨first, hfirst, rfl⟩
    · exact ⟨g, hg, rfl⟩

/-- a new object is given out for a key that is not in the table -/
theorem Records.new (h : m.Records table supply clears log) {q : ι}
    (none : ∀ s ∈ table, m.keyOf s.val ≠ m.key q) :
    m.Records ((supply.share (m.make q)).1 :: table) (supply.share (m.make q)).2 clears
      (⟨q, (supply.share (m.make q)).1, clears⟩ :: log) := by
  refine ⟨?_, ?_, ?_, ?_, ?_, ?_⟩
  · exact List.forall_mem_cons.mpr ⟨rfl, h.made⟩
  · refine List.forall_mem_cons.mpr ⟨Nat.lt_succ_self _, fun g hg => ?_⟩
    exact Nat.lt_succ_of_lt (h.given g hg)
  · exact List.forall_mem_cons.mpr ⟨le_rfl, h.past⟩
  · refine List.pairwise_cons.mpr ⟨fun g hg => ?_, h.agree⟩
    refine iff_of_false (h.given g hg).ne' ?_
    rintro ⟨now, key⟩
    have cached : g.object ∈ table :=
      (h.remembered _).mpr ⟨g, mem_recent.mpr ⟨hg, now.symm⟩, rfl⟩
    exact none _ cached ((h.keyOf hg).trans key.symm)
  · intro s
    rw [List.mem_cons, h.remembered, recent_cons, List.exists_mem_cons_iff, eq_comm]
  · refine List.nodup_cons.mpr ⟨fun hk => ?_, h.keys⟩
    obtain ⟨s, hs, hkey⟩ := List.mem_map.mp hk
    exact none s hs (hkey.trans (m.keyOf_make q))

theorem Records.ask [DecidableEq κ] (h : m.Records table supply clears log) (q : ι) :
    m.Records (m.ask table q supply).2.1 (m.ask table q supply).2.2 clears
      (⟨q, (m.ask table q supply).1, clears⟩ :: log) := by
  unfold Memo.ask
  split
  · next s hs =>
    have key := List.find?_some hs
    exact h.again (List.mem_of_find?_eq_some hs) (of_decide_eq_true key)
  · next hnone =>
    refine h.new fun s hs => ?_
    have other := List.find?_eq_none.mp hnone s hs
    rwa [decide_eq_true_iff] at other

theorem supply_le_ask [DecidableEq κ] (m : Memo ι κ α) (table : List (Shared α)) (q : ι)
    (supply : Supply) : supply.next ≤ (m.ask table q supply).2.2.next := by
  unfold ask
  split
  · exact le_rfl
  · exact Nat.le_succ _

/-- the table has one object for each key that was asked for since the last clearing -/
theorem Records.length_table [DecidableEq κ] (h : m.Records table supply clears log) :
    table.length = ((recent clears log).map fun g => m.key g.question).toFinset.card := by
  have same : (table.map fun s => m.keyOf s.val).toFinset
      = ((recent clears log).map fun g => m.key g.question).toFinset := by
    ext k
    simp only [List.mem_toFinset, List.mem_map, h.remembered]
    constructor
    · rintro ⟨_, ⟨g, hg, rfl⟩, rfl⟩
      exact ⟨g, hg, (h.keyOf (mem_recent.mp hg).1).symm⟩
    · rintro ⟨g, hg, rfl⟩
      exact ⟨g.object, ⟨g, hg, rfl⟩, h.keyOf (mem_recent.mp hg).1⟩
  rw [← same, List.toFinset_card_of_nodup h.keys, List.length_map]

end Memo

/-! ## the two kinds of buffers -/

namespace GridBuffers

/-- index buffers, by the resolution and the edge bits -/
def indexMemo : Memo (Nat × Seams) (Nat × UInt16) IndexBuffer where
  make q := .build q.1 q.2
  key q := (q.1, q.2.edgeBits)
  keyOf b := (b.resolution, b.edgeBits)
  keyOf_make _ := rfl
  make_congr {q q'} h := by
    obtain ⟨n, bits⟩ := Prod.mk.inj h
    rw [n, IndexBuffer.build_congr bits]

/-- texture coordinate buffers, by the resolution -/
def uvMemo : Memo Nat Nat UvBuffer where
  make := .build
  key n := n
  keyOf b := b.resolution
  keyOf_make _ := rfl
  make_congr h := congrArg _ h

variable (b : GridBuffers) (n : Nat) (seams : Seams) (supply : Supply)

theorem indexBuffer_eq_ask : b.indexBuffer n seams supply =
    ((indexMemo.ask b.index (n, seams) supply).1,
      { b with index := (indexMemo.ask b.index (n, seams) supply).2.1 },
      (indexMemo.ask b.index (n, seams) supply).2.2) := by
  have find : b.findIndex? n seams.edgeBits = b.index.find? fun s =>
      decide (indexMemo.keyOf s.val = indexMemo.key (n, seams)) := by
    refine congrArg (b.index.find? ·) (funext fun s => ?_)
    rw [Bool.eq_iff_iff, decide_eq_true_iff, Bool.and_eq_true, beq_iff_eq, beq_iff_eq]
    exact Prod.mk_inj.symm
  unfold indexBuffer Memo.ask
  rw [find]
  cases b.index.find? _ <;> rfl

theorem uvBuffer_eq_ask : b.uvBuffer n supply =
    ((uvMemo.ask b.uv n supply).1, { b with uv := (uvMemo.ask b.uv n supply).2.1 },
      (uvMemo.ask b.uv n supply).2.2) := by
  have find : b.findUv? n = b.uv.find? fun s =>
      decide (uvMemo.keyOf s.val = uvMemo.key n) := by
    refine congrArg (b.uv.find? ·) (funext fun s => ?_)
    rw [Bool.eq_iff_iff, decide_eq_true_iff, beq_iff_eq]
    rfl
  unfold uvBuffer Memo.ask
  rw [find]
  cases b.uv.find? _ <;> rfl

end GridBuffers

/-! ## calls -/

/-- what is asked of shared buffers -/
inductive BufferCall where
  | index (n : Nat) (seams : Seams)
  | uv (n : Nat)
  /-- to forget them -/
  | clear
  /-- to release them from the device -/
  | release

/-- shared buffers with the device they are on and all that was given out, the last first -/
structure BufferDesk where
  buffers : GridBuffers
  supply : Supply
  device : Device
  clears : Nat
  index : List (Given (Nat × Seams) IndexBuffer)
  uv : List (Given Nat UvBuffer)

namespace BufferDesk

def initial (supply : Supply) (device : Device) : BufferDesk := ⟨.empty, supply, device, 0, [], []⟩

def call (d : BufferDesk) : BufferCall → BufferDesk
  | .index n seams =>
    let (found, buffers, supply) := d.buffers.indexBuffer n seams d.supply
    { d with buffers, supply, index := ⟨(n, seams), found, d.clears⟩ :: d.index }
  | .uv n =>
    let (found, buffers, supply) := d.buffers.uvBuffer n d.supply
    { d with buffers, supply, uv := ⟨n, found, d.clears⟩ :: d.uv }
  | .clear => { d with buffers := .empty, clears := d.clears + 1 }
  | .release => { d with device := (d.device.releaseAll d.buffers.slots).2 }

def run (d : BufferDesk) (calls : List BufferCall) : BufferDesk := calls.foldl call d

/-- both memos record what was given out -/
structure Kept (d : BufferDesk) : Prop where
  index : GridBuffers.indexMemo.Records d.buffers.index d.supply d.clears d.index
  uv : GridBuffers.uvMemo.Records d.buffers.uv d.supply d.clears d.uv

theorem kept_initial (supply : Supply) (device : Device) : (initial supply device).Kept :=
  ⟨Memo.records_nil supply, Memo.records_nil supply⟩

theorem Kept.call {d : BufferDesk} (h : d.Kept) (c : BufferCall) : (d.call c).Kept := by
  cases c with
  | index n seams =>
    have asked := h.index.ask (n, seams)
    have later := GridBuffers.indexMemo.supply_le_ask d.buffers.index (n, seams) d.supply
    simp only [BufferDesk.call, GridBuffers.indexBuffer_eq_ask]
    exact ⟨asked, h.uv.mono later⟩
  | uv n =>
    have asked := h.uv.ask n
    have later := GridBuffers.uvMemo.supply_le_ask d.buffers.uv n d.supply
    simp only [BufferDesk.call, GridBuffers.uvBuffer_eq_ask]
    exact ⟨h.index.mono later, asked⟩
  | clear => exact ⟨h.index.clear, h.uv.clear⟩
  | release => exact ⟨h.index, h.uv⟩

theorem Kept.run {d : BufferDesk} (h : d.Kept) (calls : List BufferCall) : (d.run calls).Kept := by
  induction calls generalizing d with
  | nil => exact h
  | cons c calls ih => exact ih (h.call c)

/-! ## every call is answered -/

/-- what is asked for by the calls for indices -/
def indexQuestions (calls : List BufferCall) : List (Nat × Seams) :=
  calls.filterMap fun
    | .index n seams => some (n, seams)
    | _ => none

/-- what is asked for by the calls for texture coordinates -/
def uvQuestions (calls : List BufferCall) : List Nat :=
  calls.filterMap fun
    | .uv n => some n
    | _ => none

theorem questions_run (d : BufferDesk) (calls : List BufferCall) :
    (d.run calls).index.map (·.question)
        = (indexQuestions calls).reverse ++ d.index.map (·.question) ∧
      (d.run calls).uv.map (·.question)
        = (uvQuestions calls).reverse ++ d.uv.map (·.question) := by
  induction calls generalizing d with
  | nil => exact ⟨rfl, rfl⟩
  | cons c calls ih =>
    obtain ⟨index, uv⟩ := ih (d.call c)
    show ((d.call c).run calls).index.map _ = _ ∧ ((d.call c).run calls).uv.map _ = _
    rw [index, uv]
    cases c <;> simp [call, indexQuestions, uvQuestions]

/-- **Sharing buffers cannot be told from making each of them on the spot**, but by their
identities.  After any calls, whatever was given out is what would be made for its question: the
indices are those of the grid stitched for the seams of that very call, vertex level and all.  Two
calls since the same clearing were given the same object exactly if they agree on the resolution
and, for indices, on the edge bits.  As many buffers are remembered as there were different such
keys since the last clearing. -/
theorem buffers_of_calls (supply : Supply) (device : Device) (calls : List BufferCall) :
    ∃ d, (initial supply device).run calls = d ∧
    (d.index.map (·.question) = (indexQuestions calls).reverse ∧
      d.uv.map (·.question) = (uvQuestions calls).reverse) ∧
    (∀ g ∈ d.index, g.object.val.indices = Mesh.indices g.question.1 g.question.2 ∧
      g.object.val.resolution = g.question.1 ∧
      g.object.val.vertexCount = g.question.1 * g.question.1) ∧
    (∀ g ∈ d.uv, g.object.val.uvs = Grid.uvs g.question ∧
      g.object.val.resolution = g.question) ∧
    (∀ g ∈ d.index, ∀ g' ∈ d.index, g.clears = g'.clears → (g.object.id = g'.object.id ↔
      g.question.1 = g'.question.1 ∧ g.question.2.edgeBits = g'.question.2.edgeBits)) ∧
    (∀ g ∈ d.uv, ∀ g' ∈ d.uv, g.clears = g'.clears →
      (g.object.id = g'.object.id ↔ g.question = g'.question)) ∧
    d.buffers.index.length = ((Memo.recent d.clears d.index).map fun g =>
      (g.question.1, g.question.2.edgeBits)).toFinset.card ∧
    d.buffers.uv.length = ((Memo.recent d.clears d.uv).map (·.question)).toFinset.card := by
  refine ⟨_, rfl, ?_⟩
  obtain ⟨index, uv⟩ := (kept_initial supply device).run calls
  obtain ⟨indexAll, uvAll⟩ := (initial supply device).questions_run calls
  refine ⟨⟨?_, ?_⟩, ?_, ?_, ?_, ?_, index.length_table, uv.length_table⟩
  · rwa [initial, List.map_nil, List.append_nil] at indexAll
  · rwa [initial, List.map_nil, List.append_nil] at uvAll
  · intro g hg
    rw [index.made g hg]
    exact ⟨rfl, rfl, rfl⟩
  · intro g hg
    rw [uv.made g hg]
    exact ⟨rfl, rfl⟩
  · intro g hg g' hg' now
    have agree := index.agree_of_mem hg hg'
    rw [Memo.Agree, and_iff_right now] at agree
    exact agree.trans Prod.mk_inj
  · intro g hg g' hg' now
    have agree := uv.agree_of_mem hg hg'
    rwa [Memo.Agree, and_iff_right now] at agree

/-- seams that differ only in their vertex level share their buffer, until it is forgotten -/
example : ((initial .initial .initial).run [.index 3 ⟨0x1⟩, .index 3 ⟨0x20001⟩, .index 3 ⟨0x10⟩,
    .release, .clear, .index 3 ⟨0x1⟩]).index.map (·.object.id) = [2, 1, 0, 0] := by
  decide +kernel

end BufferDesk

end TerrainPatches
