import TerrainPatches.Proofs.Landscape.Runs

/-!
# The frames of a bakery

Composites are put into the two queues at any time, and a frame takes them out: all that are urgent,
and the first of the pending ones, as many as its time lasts for (`taken`).  What is taken is served
in order, and only what is not baked yet is drawn (`servings`, `drawnOf`).

A composite that is not baked is due one bake.  Until it is released, its bakes and what is still
due add up to what was due before (`due_steps`), so it is never baked twice.  What is let into the
queues is served or still waits (`waiting_steps`).  `frames_of_run` says this and the rest of what a
frame promises, after any run of additions, frames and releases.
-/

namespace TerrainPatches

namespace Bakery

/-! ## baking in order -/

/-- the composites in the order in which they are served, and whether each is baked then -/
def servings (b : Bakery) : List (Shared Composite) → List (Shared Composite × Bool)
  | [] => []
  | c :: cs => (c, (b.bake c).1) :: (b.bake c).2.servings cs

/-- the composites that are drawn when these are served -/
def drawnOf (b : Bakery) (cs : List (Shared Composite)) : List (Shared Composite) :=
  ((b.servings cs).filter (·.2)).map (·.1)

/-- whether a composite is still to be baked: once, or not at all -/
def due (b : Bakery) (id : ObjectId) : Nat := if id ∈ b.baked then 0 else 1

section
variable (b : Bakery)

theorem drawnOf_cons (c : Shared Composite) (cs : List (Shared Composite)) :
    b.drawnOf (c :: cs) = b.drawnOf [c] ++ (b.bake c).2.drawnOf cs := by
  simp only [drawnOf, servings, List.filter_cons, List.filter_nil]
  split <;> rfl

theorem map_servings (cs : List (Shared Composite)) : (b.servings cs).map (·.1) = cs := by
  induction cs generalizing b with
  | nil => rfl
  | cons c cs ih => rw [servings, List.map_cons, ih]

theorem servings_append (cs ds : List (Shared Composite)) :
    b.servings (cs ++ ds) = b.servings cs ++ (b.bakeAll cs).2.servings ds := by
  induction cs generalizing b with
  | nil => rfl
  | cons c cs ih =>
    show (c, (b.bake c).1) :: (b.bake c).2.servings (cs ++ ds) = _
    rw [ih]
    rfl

theorem bakeAll_append (cs ds : List (Shared Composite)) :
    (b.bakeAll (cs ++ ds)).2 = ((b.bakeAll cs).2.bakeAll ds).2 := by
  induction cs generalizing b with
  | nil => rfl
  | cons c cs ih => exact ih (b.bake c).2

theorem bakeAll_counts (cs : List (Shared Composite)) : (b.bakeAll cs).1 =
    ((b.servings cs).countP (·.2), (b.servings cs).countP (!·.2)) := by
  induction cs generalizing b with
  | nil => rfl
  | cons c cs ih =>
    show (((b.bake c).2.bakeAll cs).1.1 + _, ((b.bake c).2.bakeAll cs).1.2 + _) = _
    rw [ih, servings, List.countP_cons, List.countP_cons]
    cases (b.bake c).1 <;> rfl

/-- the bakery after some composites have been drawn -/
def afterDrawing (b : Bakery) (cs : List (Shared Composite)) : Bakery :=
  { b with
    baked := (cs.map (·.id)).reverse ++ b.baked
    device := (b.device.uploadAll (cs.flatMap fun c => c.val.uploads)).2
    bakes := b.bakes + cs.length
    drawn := b.drawn + (cs.map fun c => c.val.draws.length).sum }

theorem afterDrawing_append (cs ds : List (Shared Composite)) :
    b.afterDrawing (cs ++ ds) = (b.afterDrawing cs).afterDrawing ds := by
  simp only [afterDrawing, List.map_append, List.reverse_append, List.append_assoc,
    List.flatMap_append, Device.uploadAll_append, List.length_append, List.sum_append,
    Nat.add_assoc]

theorem bake_eq (c : Shared Composite) : (b.bake c).2 = b.afterDrawing (b.drawnOf [c]) := by
  unfold drawnOf servings bake
  cases b.isBaked c with
  | true => rfl
  | false =>
    show _ = b.afterDrawing [c]
    unfold afterDrawing
    rw [List.flatMap_cons, List.flatMap_nil, List.append_nil]
    rfl

/-- **What serving in order does:** it draws what is not baked yet. -/
theorem bakeAll_eq (cs : List (Shared Composite)) :
    (b.bakeAll cs).2 = b.afterDrawing (b.drawnOf cs) := by
  induction cs generalizing b with
  | nil => rfl
  | cons c cs ih =>
    show ((b.bake c).2.bakeAll cs).2 = _
    rw [ih, drawnOf_cons, afterDrawing_append, bake_eq]

theorem isBaked_bake (c d : Shared Composite) :
    (b.bake c).2.isBaked d = (b.isBaked d || d.id == c.id) := by
  unfold bake
  cases h : b.isBaked c with
  | true =>
    show b.isBaked d = _
    cases hd : (d.id == c.id) with
    | true =>
      have same : b.isBaked d = b.isBaked c := by
        rw [isBaked, isBaked, eq_of_beq hd]
      rw [same, h]
      rfl
    | false => rw [Bool.or_false]
  | false =>
    show List.contains (c.id :: b.baked) d.id = _
    rw [List.contains_cons, Bool.or_comm]
    rfl

theorem isBaked_bakeAll {cs : List (Shared Composite)} {d : Shared Composite} :
    (b.bakeAll cs).2.isBaked d = true ↔ b.isBaked d = true ∨ ∃ c ∈ cs, d.id = c.id := by
  induction cs generalizing b with
  | nil => simp [bakeAll_nil]
  | cons c cs ih =>
    show ((b.bake c).2.bakeAll cs).2.isBaked d = true ↔ _
    rw [ih, isBaked_bake, Bool.or_eq_true, beq_iff_eq, or_assoc, List.exists_mem_cons_iff]

theorem due_bake (c : Shared Composite) (id : ObjectId) :
    (b.drawnOf [c]).countP (·.id == id) + (b.bake c).2.due id = b.due id := by
  cases h : b.isBaked c with
  | true => simp [drawnOf, servings, bake, h]
  | false =>
    have drawn : b.drawnOf [c] = [c] := by simp [drawnOf, servings, bake, h]
    have after : (b.bake c).2.baked = c.id :: b.baked := by simp [bake, h, markBaked, uploadAll]
    have absent : c.id ∉ b.baked := by
      intro hc
      rw [isBaked, List.contains_iff_mem.mpr hc] at h
      cases h
    simp only [drawn, due, after, List.countP_cons, List.countP_nil, List.mem_cons, beq_iff_eq]
    by_cases hid : c.id = id
    · simp [← hid, absent]
    · simp [hid, Ne.symm hid]

/-- the bakes of a composite and what is still due of it add up to what was due before -/
theorem due_bakeAll (cs : List (Shared Composite)) (id : ObjectId) :
    (b.drawnOf cs).countP (·.id == id) + (b.bakeAll cs).2.due id = b.due id := by
  induction cs generalizing b with
  | nil => exact Nat.zero_add _
  | cons c cs ih =>
    show _ + ((b.bake c).2.bakeAll cs).2.due id = _
    rw [drawnOf_cons, List.countP_append, Nat.add_assoc, ih, due_bake]

/-! ## one frame -/

/-- what a frame takes out of the queues if its time lasts for this many pending composites -/
def taken (b : Bakery) (lasts : Nat) : List (Shared Composite) :=
  b.queue.urgent ++ b.queue.pending.take lasts

/-- how many composites a frame with the present budget is taken to last for -/
def lasting (b : Bakery) : Nat := if 0 < b.queue.budget then b.queue.pending.length else 0

theorem servings_queue (queue : BakeQueue) (cs : List (Shared Composite)) :
    ({ b with queue } : Bakery).servings cs = b.servings cs := by
  induction cs generalizing b with
  | nil => rfl
  | cons c cs ih =>
    have next : ({ b with queue } : Bakery).bake c
        = ((b.bake c).1, { (b.bake c).2 with queue }) := by
      unfold bake
      show (if b.isBaked c then _ else _) = _
      split <;> rfl
    rw [servings, servings, next, ih]

theorem bakeAll_queue (queue : BakeQueue) (cs : List (Shared Composite)) :
    (({ b with queue } : Bakery).bakeAll cs).2 = { (b.bakeAll cs).2 with queue } := by
  rw [bakeAll_eq, bakeAll_eq, drawnOf, drawnOf, servings_queue]
  rfl

theorem renderFor_bakery (lasts : Nat) : (b.renderFor lasts).2 =
    { (b.bakeAll (b.taken lasts)).2 with
      queue := { b.queue with urgent := [], pending := b.queue.pending.drop lasts } } := by
  simp only [renderFor, taken, bakeAll_append, bakeAll_queue]

theorem renderFor_stats (lasts : Nat) : (b.renderFor lasts).1 =
    ⟨(b.servings b.queue.urgent).countP (·.2),
      ((b.bakeAll b.queue.urgent).2.servings (b.queue.pending.take lasts)).countP (·.2),
      (b.servings (b.taken lasts)).countP (!·.2)⟩ := by
  simp only [renderFor, taken, bakeAll_counts, bakeAll_queue, servings_queue, servings_append,
    List.countP_append]

/-- a frame draws what it takes and is not baked, and nothing else -/
theorem renderFor_eq (lasts : Nat) : (b.renderFor lasts).2 =
    { b.afterDrawing (b.drawnOf (b.taken lasts)) with
      queue := { b.queue with urgent := [], pending := b.queue.pending.drop lasts } } := by
  rw [renderFor_bakery, bakeAll_eq]

theorem isBaked_renderFor {lasts : Nat} {d : Shared Composite} :
    (b.renderFor lasts).2.isBaked d = true ↔
      b.isBaked d = true ∨ ∃ c ∈ b.taken lasts, d.id = c.id := by
  rw [renderFor_bakery]
  exact b.isBaked_bakeAll

theorem due_renderFor (lasts : Nat) (id : ObjectId) :
    (b.drawnOf (b.taken lasts)).countP (·.id == id) + (b.renderFor lasts).2.due id = b.due id := by
  rw [renderFor_bakery]
  exact b.due_bakeAll _ id

end

/-! ## runs -/

inductive Event where
  | add (c : Shared Composite) (urgent : Bool)
  | setBudget (budget : Nat)
  | frame (lasts : Nat)
  | release (c : Shared Composite)

def step (b : Bakery) : Event → Bakery
  | .add c urgent =>
    match b.add c urgent with
    | .ok b' => b'
    | .error _ => b
  | .setBudget budget => b.setBudget budget
  | .frame lasts => (b.renderFor lasts).2
  | .release c => (b.release c).2

/-- one event after the other -/
def steps (b : Bakery) : List Event → Bakery
  | [] => b
  | e :: es => (b.step e).steps es

/-- a frame with the present budget is one of the events -/
theorem step_frame (b : Bakery) : b.step (.frame b.lasting) = b.renderFrame.2 := by
  rw [renderFrame_eq_renderFor]
  rfl

/-- the composites that an event draws -/
def drawnAt (b : Bakery) : Event → List (Shared Composite)
  | .frame lasts => b.drawnOf (b.taken lasts)
  | _ => []

/-- the composites that a run draws -/
def drawnIn (b : Bakery) : List Event → List (Shared Composite)
  | [] => []
  | e :: es => b.drawnAt e ++ (b.step e).drawnIn es

/-- whether an event lets a composite into a queue -/
def accepts (b : Bakery) : Event → Bool
  | .add c urgent => (b.add c urgent).isOk
  | _ => false

/-- how many composites a run lets into the queues -/
def accepted (b : Bakery) : List Event → Nat
  | [] => 0
  | e :: es => (b.accepts e).toNat + (b.step e).accepted es

/-- what an event did, if it is a frame -/
def statsAt (b : Bakery) : Event → Option FrameStats
  | .frame lasts => some (b.renderFor lasts).1
  | _ => none

/-- what the frames of a run did -/
def frames (b : Bakery) : List Event → List FrameStats
  | [] => []
  | e :: es => (b.statsAt e).toList ++ (b.step e).frames es

/-! ## what an event does -/

section
variable {b : Bakery} {e : Event}

/-- an urgent composite is always let in, another one if there is room for it -/
theorem add_cases (b : Bakery) (c : Shared Composite) (urgent : Bool) :
    (urgent = true ∧ b.add c urgent = .ok { b with queue := b.queue.addUrgent c }) ∨
      (urgent = false ∧ b.queue.pending.length < b.queue.capacity ∧
        b.add c urgent
          = .ok { b with queue := { b.queue with pending := b.queue.pending ++ [c] } }) ∨
      (urgent = false ∧ b.queue.capacity ≤ b.queue.pending.length ∧
        b.add c urgent = .error (.full b.queue.capacity)) := by
  cases urgent with
  | true => exact .inl ⟨rfl, rfl⟩
  | false =>
    by_cases h : b.queue.pending.length < b.queue.capacity
    · refine .inr (.inl ⟨rfl, h, ?_⟩)
      simp only [add, BakeQueue.add, Bool.false_eq_true, if_false, BakeQueue.addPending, if_pos h]
    · refine .inr (.inr ⟨rfl, Nat.le_of_not_lt h, ?_⟩)
      simp only [add, BakeQueue.add, Bool.false_eq_true, if_false, BakeQueue.addPending, if_neg h]

/-- only a release makes a composite due again -/
theorem due_step {id : ObjectId} (h : ∀ c, e = .release c → c.id ≠ id) :
    (b.drawnAt e).countP (·.id == id) + (b.step e).due id = b.due id := by
  cases e with
  | add c urgent =>
    rcases add_cases b c urgent with ⟨-, hadd⟩ | ⟨-, -, hadd⟩ | ⟨-, -, hadd⟩ <;>
      simp only [drawnAt, step, hadd, List.countP_nil, Nat.zero_add, due]
  | setBudget budget => exact Nat.zero_add _
  | frame lasts => exact b.due_renderFor lasts id
  | release c =>
    have other : c.id ≠ id := h c rfl
    show 0 + (if id ∈ b.baked.filter (fun i => !List.contains [c.id] i) then 0 else 1) = _
    have kept : (!List.contains [c.id] id) = true := by
      simpa using Ne.symm other
    simp only [Nat.zero_add, List.mem_filter, kept, and_true, due]

/-- **A composite is drawn and still due as often as it was due,** until it is released. -/
theorem due_steps (b : Bakery) {es : List Event} {id : ObjectId}
    (h : ∀ c, .release c ∈ es → c.id ≠ id) :
    (b.drawnIn es).countP (·.id == id) + (b.steps es).due id = b.due id := by
  induction es generalizing b with
  | nil => exact Nat.zero_add _
  | cons e es ih =>
    have first : ∀ c, e = .release c → c.id ≠ id := by
      rintro c rfl
      exact h c List.mem_cons_self
    rw [drawnIn, steps, List.countP_append, Nat.add_assoc,
      ih (b.step e) fun c hc => h c (List.mem_cons_of_mem e hc), due_step first]

theorem due_le (b : Bakery) (id : ObjectId) : b.due id ≤ 1 := by
  unfold due
  split <;> decide

end

/-! ## accounts -/

end Bakery

/-- what waits for its bake -/
def BakeQueue.waiting (q : BakeQueue) : List (Shared Composite) := q.urgent ++ q.pending

/-- how many composites a frame took out of the queues -/
def FrameStats.served (f : FrameStats) : Nat := f.urgent + f.pending + f.skipped

namespace Bakery

theorem served_renderFor (b : Bakery) (lasts : Nat) :
    (b.renderFor lasts).1.served = (b.taken lasts).length := by
  have both : ∀ cs : List (Shared Composite × Bool),
      cs.countP (·.2) + cs.countP (!·.2) = cs.length := by
    intro cs
    simpa using (List.length_eq_countP_add_countP (fun s : Shared Composite × Bool => s.2)).symm
  have all := both (b.servings (b.taken lasts))
  rw [← List.length_map (·.1), map_servings] at all
  rw [← all, renderFor_stats]
  show _ + _ + _ = _
  rw [← List.countP_append, ← servings_append, taken]

theorem taken_subset (b : Bakery) (lasts : Nat) : b.taken lasts ⊆ b.queue.waiting :=
  List.append_subset.mpr ⟨List.subset_append_left _ _,
    List.subset_append_of_subset_right _ (List.take_subset _ _)⟩

theorem waiting_renderFor (b : Bakery) (lasts : Nat) :
    (b.taken lasts).length + (b.renderFor lasts).2.queue.waiting.length
      = b.queue.waiting.length := by
  rw [renderFor_eq, ← List.length_append]
  show (b.queue.urgent ++ b.queue.pending.take lasts ++ b.queue.pending.drop lasts).length = _
  rw [List.append_assoc, List.take_append_drop]
  rfl

theorem waiting_add (b : Bakery) (c : Shared Composite) (urgent : Bool) :
    b.queue.waiting.length + (b.accepts (.add c urgent)).toNat
      = (b.step (.add c urgent)).queue.waiting.length := by
  rcases add_cases b c urgent with ⟨-, h⟩ | ⟨-, -, h⟩ | ⟨-, -, h⟩
  · simp only [accepts, step, h, Except.isOk, Except.toBool, BakeQueue.waiting,
      BakeQueue.addUrgent, List.length_append, List.length_singleton, Bool.toNat_true]
    omega
  · simp only [accepts, step, h, Except.isOk, Except.toBool, BakeQueue.waiting,
      List.length_append, List.length_singleton, Bool.toNat_true]
    omega
  · simp only [accepts, step, h, Except.isOk, Except.toBool, Bool.toNat_false, Nat.add_zero]

theorem waiting_step (b : Bakery) (e : Event) :
    b.queue.waiting.length + (b.accepts e).toNat =
      ((b.statsAt e).toList.map FrameStats.served).sum + (b.step e).queue.waiting.length := by
  cases e with
  | add c urgent => exact (b.waiting_add c urgent).trans (Nat.zero_add _).symm
  | setBudget budget => exact (Nat.zero_add _).symm
  | frame lasts =>
    show b.queue.waiting.length
      = (b.renderFor lasts).1.served + 0 + (b.renderFor lasts).2.queue.waiting.length
    rw [Nat.add_zero, served_renderFor, waiting_renderFor]
  | release c => exact (Nat.zero_add _).symm

/-- **What was waiting or is let in is served or waits.** -/
theorem waiting_steps (b : Bakery) (es : List Event) :
    b.queue.waiting.length + b.accepted es =
      ((b.frames es).map FrameStats.served).sum + (b.steps es).queue.waiting.length := by
  induction es generalizing b with
  | nil => exact Nat.add_comm _ _
  | cons e es ih =>
    calc b.queue.waiting.length + b.accepted (e :: es)
        = b.queue.waiting.length + (b.accepts e).toNat + (b.step e).accepted es :=
          (Nat.add_assoc _ _ _).symm
      _ = ((b.statsAt e).toList.map FrameStats.served).sum +
            ((b.step e).queue.waiting.length + (b.step e).accepted es) := by
          rw [waiting_step, Nat.add_assoc]
      _ = _ := by
        rw [ih, frames, steps, List.map_append, List.sum_append, Nat.add_assoc]

/-! ## room -/

theorem pending_step {b : Bakery} (e : Event) (h : b.queue.pending.length ≤ b.queue.capacity) :
    (b.step e).queue.capacity = b.queue.capacity ∧
      (b.step e).queue.pending.length ≤ b.queue.capacity := by
  cases e with
  | add c urgent =>
    rcases add_cases b c urgent with ⟨-, hadd⟩ | ⟨-, room, hadd⟩ | ⟨-, -, hadd⟩
    · rw [step, hadd]
      exact ⟨rfl, h⟩
    · rw [step, hadd]
      exact ⟨rfl, (List.length_append).trans_le room⟩
    · rw [step, hadd]
      exact ⟨rfl, h⟩
  | setBudget budget => exact ⟨rfl, h⟩
  | frame lasts =>
    rw [step, renderFor_eq]
    exact ⟨rfl, (List.drop_sublist _ _).length_le.trans h⟩
  | release c => exact ⟨rfl, h⟩

theorem pending_steps {b : Bakery} (es : List Event)
    (h : b.queue.pending.length ≤ b.queue.capacity) :
    (b.steps es).queue.capacity = b.queue.capacity ∧
      (b.steps es).queue.pending.length ≤ b.queue.capacity := by
  induction es generalizing b with
  | nil => exact ⟨rfl, h⟩
  | cons e es ih =>
    obtain ⟨capacity, first⟩ := pending_step e h
    rw [← capacity] at first
    obtain ⟨rest, last⟩ := ih first
    exact ⟨rest.trans capacity, last.trans capacity.le⟩

/-! ## after any run -/

theorem new_ofSettings {s : BakeSettings} {q : BakeQueue} (h : BakeQueue.ofSettings s = .ok q) :
    q = ⟨[], [], s.capacity, s.budget⟩ := by
  unfold BakeQueue.ofSettings at h
  split at h
  · cases h
  · cases h
    rfl

/-- **What the frames of a bakery promise after any run.**

A composite is drawn at most once until it is released.  A frame takes all that is urgent and the
first pending composites, in order, leaves the others in order, and has baked all that it took; it
draws what it counts as baked, and each composite taken is counted once, by the queue it was taken
from if it was baked then and as skipped if not.  With no budget it takes nothing that is pending,
and with one it takes everything.  There are never more pending composites than there is room for;
only a pending one is refused, for want of room, and this changes nothing.  What was let in has been
baked or skipped or waits. -/
theorem frames_of_run {s : BakeSettings} {q : BakeQueue} {b : Bakery} {events : List Event}
    (hq : BakeQueue.ofSettings s = .ok q) (h : (ofQueue q).steps events = b) :
    (∀ more id, (∀ c, .release c ∈ more → c.id ≠ id) →
      (b.drawnIn more).countP (·.id == id) ≤ 1) ∧
    (∀ lasts, ∃ urgent pending : List (Shared Composite × Bool),
      urgent.map (·.1) = b.queue.urgent ∧ pending.map (·.1) = b.queue.pending.take lasts ∧
      b.renderFor lasts =
        (⟨urgent.countP (·.2), pending.countP (·.2), (urgent ++ pending).countP (!·.2)⟩,
          { b.afterDrawing (((urgent ++ pending).filter (·.2)).map (·.1)) with
            queue := { b.queue with urgent := [], pending := b.queue.pending.drop lasts } }) ∧
      ∀ c ∈ b.queue.urgent ++ b.queue.pending.take lasts,
        (b.renderFor lasts).2.isBaked c = true) ∧
    b.renderFrame = b.renderFor (if 0 < b.queue.budget then b.queue.pending.length else 0) ∧
    b.queue.pending.length ≤ s.capacity ∧
    (∀ c urgent e, b.add c urgent = .error e → b.step (.add c urgent) = b ∧ urgent = false ∧
      b.queue.pending.length = s.capacity) ∧
    (ofQueue q).accepted events
      = (((ofQueue q).frames events).map fun f => f.urgent + f.pending).sum +
        (((ofQueue q).frames events).map (·.skipped)).sum + b.queue.waiting.length := by
  obtain rfl := new_ofSettings hq
  obtain ⟨capacity, room⟩ := pending_steps (b := ofQueue ⟨[], [], s.capacity, s.budget⟩) events
    (Nat.zero_le _)
  rw [h] at capacity room
  refine ⟨?_, ?_, renderFrame_eq_renderFor b, room, ?_, ?_⟩
  · intro more id spared
    have spent := b.due_steps spared
    have once := b.due_le id
    omega
  · intro lasts
    refine ⟨b.servings b.queue.urgent,
      (b.bakeAll b.queue.urgent).2.servings (b.queue.pending.take lasts), b.map_servings _,
      map_servings _ _, ?_, ?_⟩
    · rw [← servings_append]
      exact Prod.ext (b.renderFor_stats lasts) (b.renderFor_eq lasts)
    · intro c hc
      exact b.isBaked_renderFor.mpr (.inr ⟨c, hc, rfl⟩)
  · intro c urgent e refused
    rcases add_cases b c urgent with ⟨-, hadd⟩ | ⟨-, -, hadd⟩ | ⟨hurgent, full, hadd⟩
    · rw [hadd] at refused
      cases refused
    · rw [hadd] at refused
      cases refused
    · rw [step, hadd]
      exact ⟨rfl, hurgent, room.antisymm (capacity ▸ full)⟩
  · have accounts := (ofQueue ⟨[], [], s.capacity, s.budget⟩).waiting_steps events
    have parts : ∀ fs : List FrameStats, (fs.map FrameStats.served).sum
        = (fs.map fun f => f.urgent + f.pending).sum + (fs.map (·.skipped)).sum := by
      intro fs
      rw [← List.sum_map_add]
      rfl
    rw [h, parts] at accounts
    exact (Nat.zero_add _).symm.trans accounts

/-- a composite without tiles -/
def bareTarget (id : ObjectId) : Shared Composite := ⟨id, ⟨⟨id + 1, Texture.target 4⟩, []⟩⟩

/-- one composite in both queues, and another one refused and then asked for twice -/
def crowded : List Event :=
  [.add (bareTarget 0) false, .add (bareTarget 0) true, .add (bareTarget 2) false, .frame 0,
    .add (bareTarget 2) true, .add (bareTarget 2) true]

theorem frames_of_run_crowded : ∃ q b, BakeQueue.ofSettings ⟨1, 0⟩ = .ok q ∧
    (ofQueue q).steps crowded = b ∧ (ofQueue q).accepted crowded = 4 ∧
    (ofQueue q).frames crowded = [⟨1, 0, 0⟩] ∧ (b.renderFor 1).1 = ⟨1, 0, 2⟩ ∧
    (b.renderFor 1).2.isBaked (bareTarget 2) = true ∧
    (b.drawnIn [.frame 1, .add (bareTarget 2) true, .frame 0]).countP (·.id == 2) ≤ 1 := by
  have hq : BakeQueue.ofSettings ⟨1, 0⟩ = .ok ⟨[], [], 1, 0⟩ := rfl
  have hb : (ofQueue ⟨[], [], 1, 0⟩).steps crowded = _ := rfl
  obtain ⟨once, frame, -⟩ := frames_of_run hq hb
  obtain ⟨urgent, pending, -, -, -, baked⟩ := frame 1
  refine ⟨_, _, rfl, rfl, by decide, by decide, by decide, baked (bareTarget 2) ?_, ?_⟩
  · show bareTarget 2 ∈ [bareTarget 2, bareTarget 2, bareTarget 0]
    exact List.mem_cons_self
  · exact once _ 2 (by simp)

end Bakery

end TerrainPatches
