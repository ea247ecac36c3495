import Flux.Reactor.ConnectionRun

/-!
# The end of a release

`ReleaseInLoop` hands control to the closed callback in the middle, which may call `Release` again,
so a release can be under way more than once.  `ReleaseDone` says that it has run and none is under
way; `releaseDone_step` says what a step makes of that.
-/

namespace Flux

/-- `ReleaseInLoop` has run to its end, and no other one is under way. -/
def ConnState.ReleaseDone (c : ConnState) : Prop := .releaseInLoop ∈ c.log ∧ .releaseTail ∉ c.stack

/-- The step is the end of the only `ReleaseInLoop` under way. -/
def ConnState.EndsRelease (c : ConnState) (i : Input) : Prop :=
  i.act = .resume ∧ ∃ rest, c.stack = .releaseTail :: rest ∧ .releaseTail ∉ rest

theorem Segment.exec_enters {c : Connection} {hasTimer : Bool} {seg : Segment} {e : Exec}
    (h : seg.exec c hasTimer = some e) : .releaseInLoop ∈ e.obs ↔ seg = .releaseInLoop := by
  cases Segment.exec_effect h with
  | inert is kind =>
    refine iff_of_false (not_mem_of_plain is.plain rfl) ?_
    rintro rfl
    exact absurd kind Bool.false_ne_true
  | established _ plain | shutdown plain =>
    have hno : Obs.releaseInLoop ∉ _ := not_mem_of_plain plain rfl
    simp [hno]
  | _ => simp

/-- Only `ReleaseInLoop` leaves its own rest behind. -/
theorem Segment.exec_releaseTail {c : Connection} {hasTimer : Bool} {seg : Segment} {e : Exec}
    (h : seg.exec c hasTimer = some e) : .releaseTail ∈ e.frames ↔ seg = .releaseInLoop := by
  have hinvoke : ∀ {c : Connection} {k isSet behind}, .releaseTail ∉ behind →
      .releaseTail ∉ (c.invoke k isSet behind).frames :=
    fun hb hm => (Connection.mem_invoke hm).elim (by simp) hb
  cases seg with
  | releaseInLoop =>
    obtain rfl := Option.some.inj h
    rw [Connection.releaseInLoop_frames]
    simp
  | handleEvent | sendFailed | releaseTail =>
    obtain rfl := Option.some.inj h
    exact iff_of_false (hinvoke (by simp)) (by simp)
  | shutdownInLoop =>
    obtain rfl := Option.some.inj h
    exact iff_of_false (hinvoke (by simp)) (by simp)
  | readTest =>
    obtain rfl := Option.some.inj h
    unfold Connection.readTest
    split <;> simp
  | writeTest =>
    obtain rfl := Option.some.inj h
    have hclose : .releaseTail ∉ c.handleClose.frames := hinvoke (by simp)
    unfold Connection.writeTest
    split
    · simp
    · split
      · simpa using hclose
      · split
        · simpa using hclose
        · simp
  | recvData data =>
    obtain ⟨buf, _, _, rfl⟩ := recvData_exec h
    exact iff_of_false (hinvoke (by simp)) (by simp)
  | recvAgain =>
    obtain rfl := recvAgain_exec h
    simp
  | consume n =>
    obtain ⟨hn, rfl⟩ := consume_exec h
    simp
  | establishedInLoop =>
    obtain rfl := Option.some.inj h
    unfold Connection.establishedInLoop
    split
    · simp
    · exact iff_of_false (hinvoke (by simp)) (by simp)
  | setREvents _ | sendAgain | ret | enableInactiveReleaseInLoop _ | cancelInactiveReleaseInLoop =>
    obtain rfl := Option.some.inj h
    exact iff_of_false List.not_mem_nil (by simp)
  | sendInLoop _ | shutdownTail =>
    cases Segment.exec_effect h with
    | inert _ kind => exact absurd kind Bool.false_ne_true
    | _ => simp
  | sent _ =>
    cases Segment.exec_effect h with
    | inert _ kind => exact absurd kind Bool.false_ne_true
    | sentAll => split <;> simp
    | sentSome => simp

namespace ConnState

/-- A `ReleaseInLoop` that is under way has been entered. -/
def TailLogged (c : ConnState) : Prop := .releaseTail ∈ c.stack → .releaseInLoop ∈ c.log

theorem TailLogged.step {c c' : ConnState} {i : Input} (hc : c.TailLogged)
    (h : c.step i = some c') :
    c'.TailLogged := by
  obtain ⟨seg, rest, e, hseg, he, rfl⟩ := step_eq_some.mp h
  intro hm
  rw [List.mem_append]
  rcases List.mem_append.mp hm with hf | hr
  · exact Or.inr ((Segment.exec_enters he).mpr ((Segment.exec_releaseTail he).mp hf))
  · exact Or.inl (hc ((segment_comes hseg).suffix.subset hr))

/-- The one operation that enters `ReleaseInLoop`. -/
theorem runs_release_iff {c c' : ConnState} {op : ConnOp} {hasTimer : Bool}
    (h : c.step ⟨.call op, hasTimer⟩ = some c') :
    c.runs ⟨.call op, hasTimer⟩ = some .releaseInLoop ↔ op = .release := by
  obtain ⟨seg, rest, e, hseg, _, rfl⟩ := step_eq_some.mp h
  rw [runs_eq hseg]
  cases segment_comes hseg with
  | call _ enters => cases op <;> simp [ConnOp.segment, ← enters]

/-- What stays below a segment, seen from the end of a release. -/
theorem releaseTail_mem_rest {stack rest : List Frame} {act : Act} {seg : Segment}
    (h : Comes stack act seg rest) : .releaseTail ∉ rest ↔
      .releaseTail ∉ stack ∨ act = .resume ∧ ∃ below, stack = .releaseTail :: below ∧
        .releaseTail ∉ below := by
  cases h with
  | setREvents | handleEvent | call | consume => simp
  | ret top | recv top | send top => simp [top]
  | @resume f _ _ top goes =>
    by_cases hf : f = .releaseTail
    · simp [top, hf]
    · simp [top, hf, Ne.symm hf]

/-- **When a step leaves a connection with its release behind it**: it was behind already and is not
entered again, or this is the end of it. -/
theorem releaseDone_step {c c' : ConnState} {i : Input} (hc : c.TailLogged)
    (h : c.step i = some c') : c'.ReleaseDone ↔
      c.ReleaseDone ∧ c.runs i ≠ some .releaseInLoop ∨ c.EndsRelease i := by
  obtain ⟨seg, rest, e, hseg, he, rfl⟩ := step_eq_some.mp h
  have hcomes := segment_comes hseg
  have hends : c.EndsRelease i → seg ≠ .releaseInLoop := by
    rintro ⟨hact, below, hstack, -⟩ rfl
    rcases hcomes.cause with hcall | ⟨_, htop⟩
    · exact absurd (hact.symm.trans hcall) (by simp)
    · exact absurd (hstack.symm.trans htop) (by simp)
  rw [ReleaseDone, runs_eq hseg, List.mem_append, List.mem_append, Segment.exec_enters he,
    Segment.exec_releaseTail he, not_or, releaseTail_mem_rest hcomes]
  constructor
  · rintro ⟨hlog, hseg', hrest⟩
    refine hrest.imp (fun hstack => ⟨⟨hlog.resolve_right hseg', hstack⟩, by simp [hseg']⟩) id
  · rintro (⟨⟨hlog, hstack⟩, hruns⟩ | hend)
    · exact ⟨Or.inl hlog, by simpa using hruns, Or.inl hstack⟩
    · obtain ⟨below, hstack, _⟩ := hend.2
      exact ⟨Or.inl (hc (by simp [hstack])), hends hend, Or.inr hend⟩

end ConnState

end Flux
