import Flux.Http.Framing

/-!
# Which request a fault is about

The response to a fault is made from the request as far as it was parsed.  `recvHttpRequest_tells`
says that this is the request of the context in which the run over the unread bytes ends, and that a
finished request is left behind by that run.

Between requests the context is a new one, which is what `Ready` adds to a sound context.
-/

namespace Flux

open Lib

namespace HttpContext

variable {parse : Bytes → LineResult} {c c' : HttpContext} {buf buf' : Buffer} {u : Bytes}

/-- A context between two calls of the parser, and a new one where no request was begun. -/
structure Ready (c : HttpContext) : Prop where
  sound : Sound c
  line : c.recvStatus = .line → c = new

theorem ready_new : Ready new := ⟨sound_new, fun _ => rfl⟩

/-- A step of the reader gives a new context or one with a request begun. -/
theorem readStep_ready_next {done : List HttpRequest} {r : Bytes} (hr : Ready c)
    (h : readStep parse c u = .next done c' r) : Ready c' := by
  refine ⟨readStep_sound_next hr.sound h, ?_⟩
  intro hline
  unfold readStep at h
  split at h
  · obtain ⟨l, r', _, _, hn⟩ := onLine_next h
    rcases afterLine_cases parse c l with ⟨t, ht, hk⟩ | ⟨m, hk⟩
    · rw [hk] at hn
      simp only [Verdict.next.injEq] at hn
      exact absurd (ht.symm.trans (hn.2.1 ▸ hline)) (by decide)
    · rw [hk] at hn
      exact absurd hn (by simp)
  · rename_i hc
    obtain ⟨l, r', _, _, hn⟩ := onLine_next h
    unfold afterHead at hn
    split at hn
    · simp only [Verdict.next.injEq] at hn
      rw [← hn.2.1] at hline
      exact absurd hline (by simp)
    · split at hn
      · exact absurd hn (by simp)
      · rename_i hp
        obtain ⟨_, hrecv, _⟩ := parseHttpHead_ok hp
        simp only [Verdict.next.injEq] at hn
        rw [← hn.2.1] at hline
        exact absurd ((hc.symm.trans hrecv.symm).trans hline) (by decide)
  · split at h
    · exact absurd h (by simp)
    · split at h
      · exact absurd h (by simp)
      · split at h
        · simp only [Verdict.next.injEq] at h
          exact h.2.1.symm
        · exact absurd h (by simp)
  · exact absurd h (by simp)
  · exact absurd h (by simp)

theorem readStep_ready_wait {r : Bytes} (hr : Ready c) (h : readStep parse c u = .wait c' r) :
    Ready c' := by
  refine ⟨(readStep_wait hr.sound h).1, ?_⟩
  intro hline
  unfold readStep at h
  split at h
  · obtain ⟨_, _, rfl, _⟩ := onLine_wait (fun l r' => (afterLine_local parse c).ne_wait l r' _ _) h
    exact hr.line hline
  · obtain ⟨_, _, rfl, _⟩ := onLine_wait (fun l r' => c.afterHead_local.ne_wait l r' _ _) h
    exact hr.line hline
  · rename_i hc
    split at h
    · exact absurd h (by simp)
    · split at h
      · simp only [Verdict.wait.injEq] at h
        exact h.1 ▸ hr.line (h.1 ▸ hline)
      · split at h
        · exact absurd h (by simp)
        · simp only [Verdict.wait.injEq] at h
          rw [← h.1] at hline
          exact absurd (hc.symm.trans hline) (by decide)
  · simp only [Verdict.wait.injEq] at h
    exact h.1 ▸ hr.line (h.1 ▸ hline)
  · simp only [Verdict.wait.injEq] at h
    exact h.1 ▸ hr.line (h.1 ▸ hline)

/-! ### The stages -/

/-- What a stage leaves, told by where the run ends: an error is about the request there, and
success is on the way there. -/
def Ends (parse : Bytes → LineResult) (c : HttpContext) (u : Bytes) :
    ParseState × HttpContext × Buffer → Prop
  | (.needMore, c', _) => c'.respStatus = c.respStatus ∧ c'.recvStatus = c.recvStatus
  | (.error, c', _) => c'.recvStatus = .error ∧
      c'.request = ((httpReader parse).stop c u).1.request
  | (.success, c', b) => c'.respStatus = c.respStatus ∧
      (httpReader parse).stop c u = (httpReader parse).stop c' b.unread

theorem Ends.of_next {u' : Bytes} {r : ParseState × HttpContext × Buffer}
    (h : readStep parse c u = .next [] c' u') (hresp : c'.respStatus = c.respStatus)
    (hrecv : c'.recvStatus = c.recvStatus) (hr : Ends parse c' u' r) : Ends parse c u r := by
  have hstop := Reader.stop_of_next (R := httpReader parse) h
  obtain ⟨st, c'', b⟩ := r
  cases st with
  | needMore => exact ⟨hr.1.trans hresp, hr.2.trans hrecv⟩
  | error => exact ⟨hr.1, by rw [hstop]; exact hr.2⟩
  | success => exact ⟨hr.1.trans hresp, hstop.trans hr.2⟩

theorem recvHttpLine_ends (hc : c = new) (buf : Buffer) :
    Ends parse c buf.unread (c.recvHttpLine parse buf) := by
  subst hc
  have hstep : readStep parse new buf.unread = new.onLine buf.unread (new.afterLine parse) := rfl
  unfold recvHttpLine
  rw [if_neg (by simp [new])]
  rcases fetchLine_cases new buf with ⟨b, hf, hu, hk⟩ | ⟨b, hf, hk⟩ | ⟨l, b, hf, hk⟩
  · rw [hf]
    exact ⟨rfl, rfl⟩
  · have hstop : (httpReader parse).stop new buf.unread = (new, buf.unread) :=
      Reader.stop_of_fail (hstep.trans (hk _))
    rw [hf]
    exact ⟨rfl, by rw [hstop]; rfl⟩
  · rw [hf]
    simp only
    rw [hk, afterLine] at hstep
    cases hp : new.parseHttpLine parse l with
    | mk ok c' =>
      rw [hp] at hstep
      cases ok with
      | false =>
        have hstop : (httpReader parse).stop new buf.unread = (new, buf.unread) :=
          Reader.stop_of_fail hstep
        refine ⟨(parseHttpLine_fail hp).1, ?_⟩
        rw [hstop]
        -- both ways to fail leave a new request
        unfold parseHttpLine at hp
        split at hp <;> simp only [Prod.mk.injEq, true_and] at hp
        · rw [← hp]; rfl
        · rw [← hp]; rfl
        · exact absurd hp.1 (by simp)
      | true =>
        exact ⟨(parseHttpLine_ok hp).1, Reader.stop_of_next (R := httpReader parse) hstep⟩

theorem recvHttpHead_ends (hc : c.recvStatus = .head) (buf : Buffer) :
    Ends parse c buf.unread (c.recvHttpHead buf) := by
  unfold recvHttpHead
  rw [if_neg (by simp [hc])]
  induction hn : buf.readAbleSize using Nat.strong_induction_on generalizing c buf with
  | _ n ih =>
    have hstep : readStep parse c buf.unread = c.onLine buf.unread c.afterHead := readStep_head hc _
    rcases fetchLine_cases c buf with ⟨b, hf, hu, hk⟩ | ⟨b, hf, hk⟩ | ⟨l, b, hf, hk⟩
    · rw [headLines, hf]
      exact ⟨rfl, rfl⟩
    · have hstop : (httpReader parse).stop c buf.unread = (c, buf.unread) :=
        Reader.stop_of_fail (hstep.trans (hk _))
      rw [headLines, hf]
      exact ⟨rfl, by rw [hstop]; rfl⟩
    · have hlt := fetchLine_lt hf
      rw [hk, afterHead] at hstep
      rw [headLines, hf]
      simp only
      by_cases hb : blank l = true
      · rw [if_pos hb] at hstep ⊢
        exact ⟨rfl, Reader.stop_of_next (R := httpReader parse) hstep⟩
      · rw [if_neg hb] at hstep ⊢
        cases hp : c.parseHttpHead l with
        | mk ok c' =>
          rw [hp] at hstep
          cases ok with
          | false =>
            have hstop : (httpReader parse).stop c buf.unread = (c, buf.unread) :=
              Reader.stop_of_fail hstep
            refine ⟨(parseHttpHead_fail hp).1, ?_⟩
            rw [hstop]
            unfold parseHttpHead at hp
            split at hp <;> simp only [Prod.mk.injEq, true_and] at hp
            · rw [← hp]; rfl
            · exact absurd hp.1 (by simp)
          | true =>
            obtain ⟨hresp, hrecv, _⟩ := parseHttpHead_ok hp
            exact Ends.of_next hstep hresp hrecv
              (ih b.readAbleSize (hn ▸ hlt) (hrecv.trans hc) b rfl)

/-- A body that is all there ends its request. -/
theorem recvHttpBody_over (parse : Bytes → LineResult) {st : ParseState} (hc : c.recvStatus = .body)
    (hs : Sound c) (h : c.recvHttpBody buf = some (st, c', buf')) : c'.respStatus = c.respStatus ∧
      (c'.recvStatus = .over → (httpReader parse).stop c buf.unread =
        (httpReader parse).stop new buf'.unread) := by
  cases hn : c.request.contentLength with
  | none =>
    rw [recvHttpBody, if_neg (by simp [hc]), hn] at h
    exact absurd h (by simp)
  | some n =>
    have hle := hs.body_le hc n hn
    by_cases hfit : n - c.request.body.length ≤ buf.unread.length
    · obtain ⟨b, hu, hb⟩ := recvHttpBody_whole hc hn hle hfit
      rw [hb] at h
      simp only [Option.some.injEq, Prod.mk.injEq] at h
      obtain ⟨_, rfl, rfl⟩ := h
      refine ⟨rfl, fun _ => ?_⟩
      have hstep : readStep parse c buf.unread =
          .next [(c.withBody (buf.unread.take (n - c.request.body.length))).request] c.reset
            (buf.unread.drop (n - c.request.body.length)) := by
        simp only [readStep, hc, hn]
        rw [if_neg (Nat.not_lt.mpr hle), if_pos hfit]
      rw [Reader.stop_of_next (R := httpReader parse) hstep, hu]
      rfl
    · obtain ⟨b, hu, hb⟩ := recvHttpBody_part hc hn hle hfit
      rw [hb] at h
      simp only [Option.some.injEq, Prod.mk.injEq] at h
      obtain ⟨_, rfl, rfl⟩ := h
      exact ⟨rfl, fun ho => absurd (hc.symm.trans ho) (by decide)⟩

/-- The call tells where the run ends: at the request of a fault, or as the run on what is behind a
finished request. -/
def Tells (parse : Bytes → LineResult) (c : HttpContext) (u : Bytes) (c' : HttpContext)
    (buf' : Buffer) : Prop :=
  (400 ≤ c'.respStatus → c'.request = ((httpReader parse).stop c u).1.request) ∧
    (c'.respStatus < 400 → c'.respStatus = 200) ∧
    (c'.recvStatus = .over → (httpReader parse).stop c u = (httpReader parse).stop new buf'.unread)

theorem Ends.tells {r : ParseState × HttpContext × Buffer} (hs : Sound c) (h : Ends parse c u r)
    (hcode : r.2.1.recvStatus = .error → 400 ≤ r.2.1.respStatus) (hr : r.1 ≠ .success) :
    Tells parse c u r.2.1 r.2.2 := by
  obtain ⟨st, c', b⟩ := r
  cases st with
  | needMore =>
    obtain ⟨hresp, hrecv⟩ := h
    have h200 : c'.respStatus = 200 := hresp.trans hs.respStatus_eq
    exact ⟨fun h4 => absurd h4 (by simp [h200]), fun _ => h200,
      fun ho => absurd (hrecv.symm.trans ho) hs.ne_over⟩
  | error =>
    have h4 : 400 ≤ c'.respStatus := hcode h.1
    exact ⟨fun _ => h.2, fun hlt => absurd h4 (Nat.not_le.mpr hlt),
      fun ho => absurd (h.1.symm.trans ho) (by decide)⟩
  | success => exact absurd rfl hr

theorem recvHttpBody_tells (hc : c.recvStatus = .body) (hs : Sound c)
    (h : (c.recvHttpBody buf).map (·.2) = some (c', buf')) : Tells parse c buf.unread c' buf' := by
  obtain ⟨⟨st, c1, b1⟩, hr, hrb⟩ := Option.map_eq_some_iff.mp h
  simp only [Prod.mk.injEq] at hrb
  obtain ⟨rfl, rfl⟩ := hrb
  obtain ⟨hresp, hover⟩ := recvHttpBody_over parse hc hs hr
  have h200 := hresp.trans hs.respStatus_eq
  exact ⟨fun h4 => absurd h4 (by simp [h200]), fun _ => h200, hover⟩

theorem Tells.of_stop {c1 : HttpContext} {u1 : Bytes}
    (hstop : (httpReader parse).stop c u = (httpReader parse).stop c1 u1)
    (h : Tells parse c1 u1 c' buf') : Tells parse c u c' buf' := by
  rw [Tells, hstop]
  exact h

theorem Early.ends {r : ParseState × HttpContext × Buffer} (hr : Ready c)
    (h : Early parse c buf r) :
    Ends parse c buf.unread r := by
  cases h with
  | line status => exact recvHttpLine_ends (hr.line status) buf
  | head status => exact recvHttpHead_ends status buf

/-- Behind a stage that succeeds the context is as good as it was. -/
theorem Early.ready (hr : Ready c) (h : Early parse c buf (.success, c', buf')) : Ready c' := by
  obtain ⟨hgo, _, hstatus⟩ := h.success
  refine ⟨hgo.2 hr.sound, ?_⟩
  intro hline
  rcases hstatus with ⟨_, hc⟩ | ⟨_, hc⟩ <;> exact absurd (hc.symm.trans hline) (by decide)

/-- **What a call of `RecvHttpRequest` tells about the end of the run over the unread bytes.** -/
theorem recvHttpRequest_tells (hr : Ready c) (h : c.recvHttpRequest parse buf = some (c', buf')) :
    Tells parse c buf.unread c' buf' := by
  have hall : ∀ c' buf', c.recvHttpRequest parse buf = some (c', buf') →
      Tells parse c buf.unread c' buf' := by
    refine recvHttpRequest_rule (P := fun c buf res => Ready c → ∀ c' buf', res = some (c', buf') →
      Tells parse c buf.unread c' buf') ?_ ?_ ?_ hr.sound.receiving buf hr
    · intro c buf r he hsucc hr c' buf' hres
      have htells := (he.ends hr).tells hr.sound ?_ hsucc
      · rw [Option.some.inj hres] at htells
        exact htells
      · intro herror
        rcases he.stopped hsucc with ⟨hstays, _⟩ | ⟨_, hcode⟩
        · exact absurd (hstays.symm.trans herror) hr.sound.ne_error
        · exact hcode
    · intro c buf c₁ buf₁ res he ih hr c' buf' hres
      exact (ih (he.ready hr) c' buf' hres).of_stop (he.ends hr).2
    · intro c buf hc hr c' buf' hres
      exact recvHttpBody_tells hc hr.sound hres
  exact hall c' buf' h

end HttpContext

end Flux
