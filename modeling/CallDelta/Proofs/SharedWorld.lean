import CallDelta.Proofs.SinkIsolation

/-!
# Sinks that share a world

Sinks of a run work on one host, but each on a part of its own: the console on the standard output
and the log on the disk. A sink that works on a part of a world is the same as a sink whose world is
that part, and sinks on two parts that have nothing in common do not disturb each other.

* `SinkPlace`: the sinks of one kind, in their part of a world
* `SinkPlace.emit_make`: a report to a sink in its place is a report to the sink itself
* `reportBatch_singleton`: a batch for one sink is one report with the lines of all frames
* `emitAll_places`, `reportBatch_places`: sinks in two places
-/

namespace CallDelta

/-! ## Parts of a world -/

/-- Two parts that have nothing in common. -/
structure WorldPart.Disjoint {ω π π' : Type} (p : WorldPart ω π) (q : WorldPart ω π') : Prop where
  get_left : ∀ part w, p.get (q.put part w) = p.get w
  get_right : ∀ part w, q.get (p.put part w) = q.get w
  comm : ∀ part part' w, p.put part (q.put part' w) = q.put part' (p.put part w)

/-- Of what is put into two parts, the last counts. -/
theorem WorldPart.Disjoint.put_put {ω π π' : Type} {p : WorldPart ω π} {q : WorldPart ω π'}
    (h : p.Disjoint q) (a a' : π) (b b' : π') (w : ω) :
    q.put b (p.put a (q.put b' (p.put a' w))) = q.put b (p.put a w) := by
  rw [h.comm, q.put_put, p.put_put]

/-- The sinks of one kind among others, in their part of a world. -/
structure SinkPlace (σ τ : Type) {π ω : Type} [ReportSink σ π] [ReportSink τ ω]
    (part : WorldPart ω π) where
  make : σ → τ
  name_make : ∀ s, ReportSink.name ω (make s) = ReportSink.name π s
  writeLine_make : ∀ line s w, ReportSink.writeLine line (make s) w =
    (ReportSink.writeLine line s (part.get w)).within make part w
  finish_make : ∀ s w, ReportSink.finish (make s) w =
    (ReportSink.finish s (part.get w)).within make part w

/-! ## One kind of sinks in its place -/

namespace SinkPlace

variable {σ τ π ω : Type} [ReportSink σ π] [ReportSink τ ω] {part : WorldPart ω π}
  (place : SinkPlace σ τ part)

theorem writeLines_make (lines : List String) (s : σ) (w : ω) :
    writeLines lines (place.make s) w =
      (writeLines lines s (part.get w)).within place.make part w := by
  induction lines generalizing s w with
  | nil => simp [SinkStep.within, part.put_get]
  | cons line lines ih =>
    simp only [writeLines, place.writeLine_make, SinkStep.within]
    split
    · rfl
    · rw [ih, part.get_put, SinkStep.within, part.put_put]

theorem blame_within (r : SinkStep IoError σ π) (w : ω) :
    (r.within place.make part w).blame = r.blame.within place.make part w := by
  simp only [SinkStep.blame, SinkStep.within, place.name_make]

/-- **A report to a sink in its place is a report to the sink itself.** -/
theorem emit_make (lines : List String) (s : σ) (w : ω) :
    emit lines (place.make s) w =
      (emit lines s (part.get w)).within place.make part w := by
  unfold emit
  rw [place.writeLines_make]
  dsimp only [SinkStep.within]
  split
  · exact place.blame_within _ w
  · rw [place.finish_make, part.get_put]
    dsimp only [SinkStep.within]
    rw [part.put_put]
    exact place.blame_within _ w

/-- A sink during a batch in its place. -/
def makeLive (s : LiveSink σ) : LiveSink τ := { sink := place.make s.sink, alive := s.alive }

theorem write_makeLive (lines : List String) (s : LiveSink σ) (w : ω) :
    (place.makeLive s).write lines w =
      (s.write lines (part.get w)).within place.makeLive part w := by
  unfold LiveSink.write
  cases halive : s.alive with
  | false => simp [makeLive, halive, SinkStep.within, part.put_get]
  | true =>
    simp only [makeLive, halive, if_true, place.writeLines_make, place.blame_within]
    rfl

theorem finish_makeLive (s : LiveSink σ) (w : ω) :
    (place.makeLive s).finish w =
      (s.finish (part.get w)).within place.makeLive part w := by
  unfold LiveSink.finish
  cases halive : s.alive with
  | false => simp [makeLive, halive, SinkStep.within, part.put_get]
  | true =>
    simp only [makeLive, halive, if_true, place.finish_make, place.blame_within]
    rfl

end SinkPlace

/-! ## Passes -/

section Passes

variable {τ σ σ' ω π π' : Type}

theorem passOver_append (step : τ → ω → SinkStep ReportError τ ω) (xs ys : List τ) (w : ω) :
    passOver step (xs ++ ys) w =
      { errors :=
          (passOver step xs w).errors ++ (passOver step ys (passOver step xs w).world).errors
        sinks := (passOver step xs w).sinks ++ (passOver step ys (passOver step xs w).world).sinks
        world := (passOver step ys (passOver step xs w).world).world } := by
  induction xs generalizing w with
  | nil => rfl
  | cons x xs ih => simp [passOver, ih]

/-- A pass over sinks in their part of a world. -/
theorem passOver_within {step : τ → ω → SinkStep ReportError τ ω}
    {step' : σ → π → SinkStep ReportError σ π} {make : σ → τ} {part : WorldPart ω π}
    (h : ∀ s w, step (make s) w = (step' s (part.get w)).within make part w) (sinks : List σ)
    (w : ω) :
    passOver step (sinks.map make) w =
      { errors := (passOver step' sinks (part.get w)).errors
        sinks := (passOver step' sinks (part.get w)).sinks.map make
        world := part.put (passOver step' sinks (part.get w)).world w } := by
  induction sinks generalizing w with
  | nil => simp [passOver, part.put_get]
  | cons s sinks ih =>
    simp only [List.map_cons, passOver, h, SinkStep.within, ih, part.get_put, part.put_put]

/-- **A pass over sinks in two parts of a world** is a pass over each. -/
theorem passOver_places {step : τ → ω → SinkStep ReportError τ ω}
    {left : σ → π → SinkStep ReportError σ π} {right : σ' → π' → SinkStep ReportError σ' π'}
    {make : σ → τ} {make' : σ' → τ} {p : WorldPart ω π} {q : WorldPart ω π'}
    (hleft : ∀ s w, step (make s) w = (left s (p.get w)).within make p w)
    (hright : ∀ s w, step (make' s) w = (right s (q.get w)).within make' q w)
    (hdisjoint : p.Disjoint q) (xs : List σ) (ys : List σ') (w : ω) :
    passOver step (xs.map make ++ ys.map make') w =
      { errors := (passOver left xs (p.get w)).errors ++ (passOver right ys (q.get w)).errors
        sinks := (passOver left xs (p.get w)).sinks.map make ++
          (passOver right ys (q.get w)).sinks.map make'
        world := q.put (passOver right ys (q.get w)).world
          (p.put (passOver left xs (p.get w)).world w) } := by
  rw [passOver_append, passOver_within hleft, passOver_within hright, hdisjoint.get_right]

end Passes

/-! ## One sink alone -/

section Alone

variable {σ ω : Type} [ReportSink σ ω]

theorem writeFrames_dead (frames : List (List String)) (s : σ) (w : ω) :
    writeFrames frames [{ sink := s, alive := false }] w =
      { errors := [], sinks := [{ sink := s, alive := false }], world := w } := by
  induction frames with
  | nil => rfl
  | cons frame frames ih => simp [writeFrames, passOver, LiveSink.write, ih]

/-- Frame by frame, a sink gets the lines of all frames up to the first that it refuses. -/
theorem writeFrames_singleton (frames : List (List String)) (s : σ) (w : ω) :
    writeFrames frames [{ sink := s }] w =
      { errors := (writeLines frames.flatten s w).blame.failure.toList
        sinks := [{ sink := (writeLines frames.flatten s w).sink
                    alive := (writeLines frames.flatten s w).failure.isNone }]
        world := (writeLines frames.flatten s w).world } := by
  induction frames generalizing s w with
  | nil => simp [writeFrames, SinkStep.blame]
  | cons frame frames ih =>
    rw [List.flatten_cons, writeLines_append, writeFrames]
    rcases Option.eq_none_or_eq_some (writeLines frame s w).failure with h | ⟨e, h⟩
    · simp [passOver, LiveSink.write, SinkStep.blame, h, ih]
    · simp [passOver, LiveSink.write, SinkStep.blame, h, writeFrames_dead]

/-- **A batch for one sink is one report with the lines of all frames.** -/
theorem reportBatch_singleton (items : List BatchItem) (s : σ) (w : ω) :
    (reportBatch items [s] w).errors =
        (emit (items.filterMap (·.frame?)).flatten s w).failure.toList ∧
      (reportBatch items [s] w).world = (emit (items.filterMap (·.frame?)).flatten s w).world := by
  simp only [reportBatch, List.map_singleton, writeFrames_singleton, emit]
  rcases Option.eq_none_or_eq_some
    (writeLines (items.filterMap (·.frame?)).flatten s w).failure with h | ⟨e, h⟩
  · simp [h, passOver, LiveSink.finish, SinkStep.blame]
  · simp [h, passOver, LiveSink.finish, SinkStep.blame]

theorem reportBatch_nil (items : List BatchItem) (w : ω) :
    (reportBatch items ([] : List σ) w).errors = [] ∧
      (reportBatch items ([] : List σ) w).world = w := by
  have hframes : ∀ frames, writeFrames frames ([] : List (LiveSink σ)) w =
      { errors := [], sinks := [], world := w } := by
    intro frames
    induction frames with
    | nil => rfl
    | cons frame frames ih => simp [writeFrames, passOver, ih]
  simp [reportBatch, hframes, passOver]

/-- The error of a report, if there is a sink for it and the sink fails. -/
def failureOf (lines : List String) (s? : Option σ) (w : ω) : Option ReportError :=
  s?.bind (fun s => (emit lines s w).failure)

/-- The world after a report, if there is a sink for it. -/
def worldAfter (lines : List String) (s? : Option σ) (w : ω) : ω :=
  s?.elim w (fun s => (emit lines s w).world)

theorem emitAll_toList (lines : List String) (s? : Option σ) (w : ω) :
    (emitAll lines s?.toList w).errors = (failureOf lines s? w).toList ∧
      (emitAll lines s?.toList w).world = worldAfter lines s? w := by
  cases s? with
  | none => exact ⟨rfl, rfl⟩
  | some s => exact ⟨List.append_nil _, rfl⟩

theorem reportBatch_toList (items : List BatchItem) (s? : Option σ) (w : ω) :
    (reportBatch items s?.toList w).errors =
        (failureOf (items.filterMap (·.frame?)).flatten s? w).toList ∧
      (reportBatch items s?.toList w).world =
        worldAfter (items.filterMap (·.frame?)).flatten s? w := by
  cases s? with
  | none => exact reportBatch_nil items w
  | some s => exact reportBatch_singleton items s w

end Alone

/-! ## Sinks in two places -/

theorem perm_append_append {α : Type} (as bs cs ds : List α) :
    ((as ++ bs) ++ (cs ++ ds)).Perm ((as ++ cs) ++ (bs ++ ds)) := by
  rw [List.append_assoc, List.append_assoc]
  refine List.Perm.append_left as ?_
  rw [← List.append_assoc, ← List.append_assoc]
  exact List.perm_append_comm.append_right ds

section Places

variable {σ σ' τ π π' ω : Type} [ReportSink σ π] [ReportSink σ' π'] [ReportSink τ ω]
  {p : WorldPart ω π} {q : WorldPart ω π'} (left : SinkPlace σ τ p) (right : SinkPlace σ' τ q)

include left right

/-- **A report to sinks in two places** is a report to the sinks of each. -/
theorem emitAll_places (hdisjoint : p.Disjoint q) (lines : List String) (xs : List σ)
    (ys : List σ') (w : ω) :
    emitAll lines (xs.map left.make ++ ys.map right.make) w =
      { errors := (emitAll lines xs (p.get w)).errors ++
          (emitAll lines ys (q.get w)).errors
        sinks := (emitAll lines xs (p.get w)).sinks.map left.make ++
          (emitAll lines ys (q.get w)).sinks.map right.make
        world := q.put (emitAll lines ys (q.get w)).world
          (p.put (emitAll lines xs (p.get w)).world w) } :=
  passOver_places (left.emit_make lines) (right.emit_make lines) hdisjoint xs ys w

/-- Frames for sinks in two places are frames for the sinks of each. Only the order of the errors is
that of the frames. -/
theorem writeFrames_places (hdisjoint : p.Disjoint q) (frames : List (List String))
    (xs : List (LiveSink σ)) (ys : List (LiveSink σ')) (w : ω) :
    let both := writeFrames frames (xs.map left.makeLive ++ ys.map right.makeLive) w
    let onLeft := writeFrames frames xs (p.get w)
    let onRight := writeFrames frames ys (q.get w)
    both.errors.Perm (onLeft.errors ++ onRight.errors) ∧
      both.sinks = onLeft.sinks.map left.makeLive ++ onRight.sinks.map right.makeLive ∧
      both.world = q.put onRight.world (p.put onLeft.world w) := by
  induction frames generalizing xs ys w with
  | nil =>
    refine ⟨List.Perm.refl _, rfl, ?_⟩
    simp only [writeFrames, p.put_get, q.put_get]
  | cons frame frames ih =>
    simp only [writeFrames]
    rw [passOver_places (left.write_makeLive frame) (right.write_makeLive frame) hdisjoint]
    generalize passOver (LiveSink.write frame) xs (p.get w) = passLeft
    generalize passOver (LiveSink.write frame) ys (q.get w) = passRight
    obtain ⟨herrors, hsinks, hworld⟩ := ih passLeft.sinks passRight.sinks
      (q.put passRight.world (p.put passLeft.world w))
    rw [hdisjoint.get_left, p.get_put, q.get_put] at herrors hsinks hworld
    refine ⟨?_, hsinks, ?_⟩
    · -- the errors of this frame stand before those of the others, on both sides
      exact (herrors.append_left _).trans (perm_append_append _ _ _ _)
    · rw [hworld, hdisjoint.put_put]

/-- **A batch for sinks in two places** is a batch for the sinks of each. -/
theorem reportBatch_places (hdisjoint : p.Disjoint q) (items : List BatchItem)
    (xs : List σ) (ys : List σ') (w : ω) :
    let both := reportBatch items (xs.map left.make ++ ys.map right.make) w
    let onLeft := reportBatch items xs (p.get w)
    let onRight := reportBatch items ys (q.get w)
    both.errors.Perm (onLeft.errors ++ onRight.errors) ∧
      both.world = q.put onRight.world (p.put onLeft.world w) := by
  have hlive : (xs.map left.make ++ ys.map right.make).map (fun sink => ({ sink } : LiveSink τ)) =
      (xs.map (fun sink => { sink })).map left.makeLive ++
        (ys.map (fun sink => { sink })).map right.makeLive := by
    simp [SinkPlace.makeLive, Function.comp_def]
  obtain ⟨herrors, hsinks, hworld⟩ := writeFrames_places left right hdisjoint
    (items.filterMap (·.frame?)) (xs.map (fun sink => { sink })) (ys.map (fun sink => { sink })) w
  simp only [reportBatch]
  rw [hlive, hsinks, passOver_places left.finish_makeLive right.finish_makeLive hdisjoint, hworld,
    hdisjoint.get_left, p.get_put, q.get_put]
  constructor
  · exact (herrors.append_right _).trans (perm_append_append _ _ _ _)
  · exact hdisjoint.put_put _ _ _ _ w

end Places

end CallDelta
