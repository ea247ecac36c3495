import Flux.Http.Reader

/-!
# Requests from a stream

`drain` is the loop of `HttpServer::OnMessage` around the parser: call `RecvHttpRequest`, hand a
finished request on and reset the context, until the buffer is empty, the request is incomplete or
there is an error.  `feed` runs it after every read of the socket.

The parser works on the buffer, with its indices and its two line checks, and a call falls through
its stages, which `recvHttpRequest_rule` takes apart; `httpReader` decides on the unread bytes, one
decision at a time.  `drain_eq_run` says they agree, so what holds of every reader holds of the
server: `feed_cut` says that how TCP cuts the stream makes no difference.

Between reads at most a line within the limit is left unread, so the vector of the buffer stays so
small that every read of at most 65535 bytes fits; no write on this path can leave the storage.
-/

namespace Flux

open Lib

namespace HttpContext

variable {parse : Bytes → LineResult} {c c' : HttpContext} {buf buf' : Buffer} {u : Bytes}

structure Sound (c : HttpContext) : Prop where
  respStatus_eq : c.respStatus = 200
  receiving : c.recvStatus = .line ∨ c.recvStatus = .head ∨ c.recvStatus = .body
  body_nil : c.recvStatus ≠ .body → c.request.body = []
  body_le : c.recvStatus = .body → ∀ n, c.request.contentLength = some n →
    c.request.body.length ≤ n

theorem sound_new : Sound new :=
  ⟨rfl, Or.inl rfl, fun _ => rfl, fun h => absurd h (by decide)⟩

theorem Sound.ne_over (hs : Sound c) : c.recvStatus ≠ .over := by
  rcases hs.receiving with h | h | h <;> rw [h] <;> decide

theorem Sound.ne_error (hs : Sound c) : c.recvStatus ≠ .error := by
  rcases hs.receiving with h | h | h <;> rw [h] <;> decide

theorem foldl_setParam_body (r : HttpRequest) (query : List (Bytes × Bytes)) :
    (query.foldl (fun r kv => r.setParam kv.1 kv.2) r).body = r.body := by
  induction query generalizing r with
  | nil => rfl
  | cons kv query ih => rw [List.foldl_cons, ih]; rfl

theorem foldl_setParam_headers (r : HttpRequest) (query : List (Bytes × Bytes)) :
    (query.foldl (fun r kv => r.setParam kv.1 kv.2) r).headers = r.headers := by
  induction query generalizing r with
  | nil => rfl
  | cons kv query ih => rw [List.foldl_cons, ih]; rfl

theorem parseHttpLine_ok {line : Bytes} (h : c.parseHttpLine parse line = (true, c')) :
    c'.respStatus = c.respStatus ∧ c'.request.body = c.request.body := by
  unfold parseHttpLine at h
  split at h
  · exact absurd h (by simp)
  · exact absurd h (by simp)
  · simp only [Prod.mk.injEq, true_and] at h
    rw [← h]
    exact ⟨rfl, foldl_setParam_body _ _⟩

theorem parseHttpLine_fail {line : Bytes} (h : c.parseHttpLine parse line = (false, c')) :
    c'.recvStatus = .error ∧ 400 ≤ c'.respStatus := by
  unfold parseHttpLine at h
  split at h <;> simp only [Prod.mk.injEq, true_and] at h
  · rw [← h]; exact ⟨rfl, le_rfl⟩
  · rw [← h]; exact ⟨rfl, le_rfl⟩
  · exact absurd h.1 (by simp)

theorem parseHttpHead_ok {line : Bytes} (h : c.parseHttpHead line = (true, c')) :
    c'.respStatus = c.respStatus ∧ c'.recvStatus = c.recvStatus ∧
      c'.request.body = c.request.body := by
  unfold parseHttpHead at h
  split at h
  · exact absurd h (by simp)
  · simp only [Prod.mk.injEq, true_and] at h
    rw [← h]
    exact ⟨rfl, rfl, rfl⟩

theorem parseHttpHead_fail {line : Bytes} (h : c.parseHttpHead line = (false, c')) :
    c'.recvStatus = .error ∧ 400 ≤ c'.respStatus := by
  unfold parseHttpHead at h
  split at h <;> simp only [Prod.mk.injEq, true_and] at h
  · rw [← h]; exact ⟨rfl, le_rfl⟩
  · exact absurd h.1 (by simp)

theorem readStep_sound_next {done : List HttpRequest} {r : Bytes} (hs : Sound c)
    (h : readStep parse c u = .next done c' r) : Sound c' := by
  unfold readStep at h
  split at h
  · rename_i hc
    obtain ⟨l, r', _, _, hn⟩ := onLine_next h
    unfold afterLine at hn
    split at hn
    · exact absurd hn (by simp)
    · rename_i hp
      obtain ⟨hresp, hbody⟩ := parseHttpLine_ok hp
      simp only [Verdict.next.injEq] at hn
      rw [← hn.2.1]
      exact ⟨hresp.trans hs.respStatus_eq, Or.inr (Or.inl rfl),
        fun _ => hbody.trans (hs.body_nil (by simp [hc])), fun h => absurd h (by simp)⟩
  · rename_i hc
    obtain ⟨l, r', _, _, hn⟩ := onLine_next h
    have hnil : c.request.body = [] := hs.body_nil (by simp [hc])
    unfold afterHead at hn
    split at hn
    · simp only [Verdict.next.injEq] at hn
      rw [← hn.2.1]
      refine ⟨hs.respStatus_eq, Or.inr (Or.inr rfl), fun h => absurd rfl h, ?_⟩
      intro _ m _
      exact le_of_eq_of_le (congrArg List.length hnil) (Nat.zero_le m)
    · split at hn
      · exact absurd hn (by simp)
      · rename_i hp
        obtain ⟨hresp, hrecv, hbody⟩ := parseHttpHead_ok hp
        simp only [Verdict.next.injEq] at hn
        rw [← hn.2.1]
        exact ⟨hresp.trans hs.respStatus_eq, Or.inr (Or.inl (hrecv.trans hc)),
          fun _ => hbody.trans hnil, fun h => absurd (hrecv.symm.trans h) (by simp [hc])⟩
  · split at h
    · exact absurd h (by simp)
    · split at h
      · exact absurd h (by simp)
      · split at h
        · simp only [Verdict.next.injEq] at h
          rw [← h.2.1]
          exact sound_new
        · exact absurd h (by simp)
  · exact absurd h (by simp)
  · exact absurd h (by simp)

/-- A context the parser waits in is sound again, and leaves at most a short line unread. -/
theorem readStep_wait {r : Bytes} (hs : Sound c) (h : readStep parse c u = .wait c' r) :
    Sound c' ∧ r.length ≤ maxLine := by
  unfold readStep at h
  split at h
  · obtain ⟨_, hlen, rfl, rfl⟩ :=
      onLine_wait (fun l r' => (afterLine_local parse c).ne_wait l r' _ _) h
    exact ⟨hs, hlen⟩
  · obtain ⟨_, hlen, rfl, rfl⟩ := onLine_wait (fun l r' => c.afterHead_local.ne_wait l r' _ _) h
    exact ⟨hs, hlen⟩
  · rename_i hc
    split at h
    · exact absurd h (by simp)
    · rename_i n hn
      split at h
      · rename_i hlt
        exact absurd (hs.body_le hc n hn) (Nat.not_le.mpr hlt)
      · split at h
        · exact absurd h (by simp)
        · rename_i hle hshort
          simp only [Verdict.wait.injEq] at h
          obtain ⟨rfl, rfl⟩ := h
          refine ⟨⟨hs.respStatus_eq, Or.inr (Or.inr hc), fun hb => absurd hc hb, ?_⟩,
            Nat.zero_le _⟩
          intro _ m hm
          obtain rfl : n = m := Option.some.inj (hn.symm.trans hm)
          simp only [withBody, List.length_append]
          omega
  · exact absurd ‹_› hs.ne_over
  · exact absurd ‹_› hs.ne_error

/-! ### Stages against decisions -/

/-- The parser moves on from one context and its unread bytes to another, handing nothing out. -/
def Goes (parse : Bytes → LineResult) (c : HttpContext) (u : Bytes) (c' : HttpContext)
    (u' : Bytes) : Prop :=
  (httpReader parse).run c u = (httpReader parse).run c' u' ∧ (Sound c → Sound c')

theorem Goes.refl (c : HttpContext) (u : Bytes) : Goes parse c u c u := ⟨rfl, id⟩

theorem Goes.trans {c'' : HttpContext} {u' u'' : Bytes} (h : Goes parse c u c' u')
    (h' : Goes parse c' u' c'' u'') : Goes parse c u c'' u'' :=
  ⟨h.1.trans h'.1, h'.2 ∘ h.2⟩

theorem Goes.of_next {u' : Bytes} (h : readStep parse c u = .next [] c' u') :
    Goes parse c u c' u' :=
  ⟨by rw [Reader.run_of_next (R := httpReader parse) h]; rfl, fun hs => readStep_sound_next hs h⟩

/-- What a stage of `RecvHttpRequest` leaves, told in decisions: it waits where it is, has failed,
or has moved on to the stage `next`. -/
inductive Stage (parse : Bytes → LineResult) (c : HttpContext) (buf : Buffer)
    (next : HttpRecvStatus) : ParseState × HttpContext × Buffer → Prop
  | needMore {c' b} (goes : Goes parse c buf.unread c' b.unread)
      (stays : c'.recvStatus = c.recvStatus)
      (waits : readStep parse c' b.unread = .wait c' b.unread) :
      Stage parse c buf next (.needMore, c', b)
  | failed {c' b} (status : c'.recvStatus = .error) (code : 400 ≤ c'.respStatus)
      (fails : (httpReader parse).run c buf.unread = ([], .error (.status c'.respStatus))) :
      Stage parse c buf next (.error, c', b)
  | success {c' b} (status : c'.recvStatus = next)
      (goes : Goes parse c buf.unread c' b.unread) (lt : b.readAbleSize < buf.readAbleSize) :
      Stage parse c buf next (.success, c', b)

theorem fetchLine_cases (c : HttpContext) (buf : Buffer) :
    (∃ b, fetchLine buf = (.needMore, [], b) ∧ b.unread = buf.unread ∧
      ∀ k, c.onLine buf.unread k = .wait c buf.unread) ∨
    (∃ b, fetchLine buf = (.error, [], b) ∧ ∀ k, c.onLine buf.unread k = .fail (.status 414)) ∨
    (∃ l b, fetchLine buf = (.success, l, b) ∧ ∀ k, c.onLine buf.unread k = k l b.unread) := by
  simp only [fetchLine, onLine]
  cases hs : splitThrough (· == newline) buf.unread with
  | none =>
    obtain ⟨hl, hu⟩ := Buffer.getLineAndPop_none hs
    have hlen : buf.getLineAndPop.2.readAbleSize = buf.unread.length := by
      rw [← Buffer.unread_length, hu]
    rw [if_pos (by rw [hl]; rfl), hlen]
    by_cases hlong : maxLine < buf.unread.length
    · exact Or.inr (Or.inl ⟨_, if_pos hlong, fun k => if_pos hlong⟩)
    · exact Or.inl ⟨_, if_neg hlong, hu, fun k => if_neg hlong⟩
  | some p =>
    obtain ⟨l, r⟩ := p
    obtain ⟨hl, hu⟩ := Buffer.getLineAndPop_some hs
    rw [if_neg (by rw [hl]; exact mt List.length_eq_zero_iff.mp (splitThrough_ne_nil hs)), hl]
    by_cases hlong : maxLine < l.length
    · exact Or.inr (Or.inl ⟨_, if_pos hlong, fun k => if_pos hlong⟩)
    · exact Or.inr (Or.inr ⟨_, _, if_neg hlong, fun k => by rw [hu]; exact if_neg hlong⟩)

theorem recvHttpLine_stage (hc : c.recvStatus = .line) (buf : Buffer) :
    Stage parse c buf .head (c.recvHttpLine parse buf) := by
  have hstep : readStep parse c buf.unread = c.onLine buf.unread (c.afterLine parse) := by
    rw [readStep, hc]
  unfold recvHttpLine
  rw [if_neg (by simp [hc])]
  rcases fetchLine_cases c buf with ⟨b, hf, hu, hk⟩ | ⟨b, hf, hk⟩ | ⟨l, b, hf, hk⟩
  · rw [hf]
    exact .needMore (by rw [hu]; exact Goes.refl c _) rfl (by rw [hu, hstep, hk])
  · rw [hf]
    exact .failed rfl (by simp [fail]) (Reader.run_of_fail (hstep.trans (hk _)))
  · rw [hf]
    simp only
    have hlt := fetchLine_lt hf
    rw [hk, afterLine] at hstep
    cases hp : c.parseHttpLine parse l with
    | mk ok c' =>
      rw [hp] at hstep
      cases ok with
      | false =>
        obtain ⟨hst, hcode⟩ := parseHttpLine_fail hp
        exact .failed hst hcode (Reader.run_of_fail hstep)
      | true => exact .success rfl (Goes.of_next hstep) hlt

theorem recvHttpHead_stage (hc : c.recvStatus = .head) (buf : Buffer) :
    Stage parse c buf .body (c.recvHttpHead buf) := by
  unfold recvHttpHead
  rw [if_neg (by simp [hc])]
  induction hn : buf.readAbleSize using Nat.strong_induction_on generalizing c buf with
  | _ n ih =>
    have hstep : readStep parse c buf.unread = c.onLine buf.unread c.afterHead := by
      rw [readStep, hc]
    rcases fetchLine_cases c buf with ⟨b, hf, hu, hk⟩ | ⟨b, hf, hk⟩ | ⟨l, b, hf, hk⟩
    · rw [headLines, hf]
      exact .needMore (by rw [hu]; exact Goes.refl c _) rfl (by rw [hu, hstep, hk])
    · rw [headLines, hf]
      exact .failed rfl (by simp [fail]) (Reader.run_of_fail (hstep.trans (hk _)))
    · have hlt := fetchLine_lt hf
      rw [hk, afterHead] at hstep
      rw [headLines, hf]
      simp only
      by_cases hb : blank l = true
      · rw [if_pos hb] at hstep ⊢
        exact .success rfl (Goes.of_next hstep) hlt
      · rw [if_neg hb] at hstep ⊢
        cases hp : c.parseHttpHead l with
        | mk ok c' =>
          rw [hp] at hstep
          cases ok with
          | false =>
            obtain ⟨hst, hcode⟩ := parseHttpHead_fail hp
            exact .failed hst hcode (Reader.run_of_fail hstep)
          | true =>
            obtain ⟨_, hrecv, _⟩ := parseHttpHead_ok hp
            have hgo : Goes parse c buf.unread c' b.unread := Goes.of_next hstep
            -- the rest of the headers
            have hrest := ih b.readAbleSize (hn ▸ hlt) (hrecv.trans hc) b rfl
            simp only
            generalize c'.headLines b = res at hrest
            cases hrest with
            | needMore goes stays waits =>
              exact .needMore (hgo.trans goes) (stays.trans hrecv) waits
            | failed status code fails => exact .failed status code (hgo.1.trans fails)
            | success status goes lt => exact .success status (hgo.trans goes) (lt.trans hlt)

/-- What a call of `RecvHttpRequest` leaves, told as the result of a run: an exception, a failure, a
context that waits, or a finished request with the run going on from a fresh context. -/
def Rendered (parse : Bytes → LineResult) (p : Result HttpContext HttpRequest Fault UInt8) :
    Option (HttpContext × Buffer) → Prop
  | none => p = ([], .error .threw)
  | some (c, b) =>
      if 400 ≤ c.respStatus then p = ([], .error (.status c.respStatus))
      else if c.recvStatus ≠ .over then p = ([], .ok (c, b.unread))
      else p = (c.request :: ((httpReader parse).run c.reset b.unread).1,
        ((httpReader parse).run c.reset b.unread).2)

theorem Rendered.waits {p : Result HttpContext HttpRequest Fault UInt8}
    (hresp : c.respStatus = 200) (ho : c.recvStatus ≠ .over) (h : p = ([], .ok (c, buf.unread))) :
    Rendered parse p (some (c, buf)) := by
  rw [Rendered, hresp, if_neg (by decide), if_pos ho]
  exact h

theorem Rendered.over {p : Result HttpContext HttpRequest Fault UInt8}
    (hresp : c.respStatus = 200) (ho : c.recvStatus = .over)
    (h : p = (c.request :: ((httpReader parse).run c.reset buf.unread).1,
      ((httpReader parse).run c.reset buf.unread).2)) : Rendered parse p (some (c, buf)) := by
  rw [Rendered, hresp, if_neg (by decide), if_neg (not_not.mpr ho)]
  exact h

theorem recvHttpBody_skip (h : c.recvStatus ≠ .body) (buf : Buffer) :
    c.recvHttpBody buf = some (.error, c, buf) := if_pos h

theorem recvHttpHead_skip (h : c.recvStatus ≠ .head) (buf : Buffer) :
    c.recvHttpHead buf = (.error, c, buf) := if_pos h

/-! ### A call, stage by stage -/

/-- A stage in front of the body, for the context that is in it, and what it answers. -/
inductive Early (parse : Bytes → LineResult) (c : HttpContext) (buf : Buffer) :
    ParseState × HttpContext × Buffer → Prop
  | line (status : c.recvStatus = .line) : Early parse c buf (c.recvHttpLine parse buf)
  | head (status : c.recvStatus = .head) : Early parse c buf (c.recvHttpHead buf)

theorem Early.stage {r : ParseState × HttpContext × Buffer} (h : Early parse c buf r) :
    (c.recvStatus = .line ∧ Stage parse c buf .head r) ∨
      (c.recvStatus = .head ∧ Stage parse c buf .body r) := by
  cases h with
  | line status => exact Or.inl ⟨status, recvHttpLine_stage status buf⟩
  | head status => exact Or.inr ⟨status, recvHttpHead_stage status buf⟩

theorem Early.success (h : Early parse c buf (.success, c', buf')) :
    Goes parse c buf.unread c' buf'.unread ∧ buf'.readAbleSize < buf.readAbleSize ∧
      ((c.recvStatus = .line ∧ c'.recvStatus = .head) ∨
        (c.recvStatus = .head ∧ c'.recvStatus = .body)) := by
  rcases h.stage with ⟨hc, hst⟩ | ⟨hc, hst⟩
  · cases hst with
    | success status goes lt => exact ⟨goes, lt, Or.inl ⟨hc, status⟩⟩
  · cases hst with
    | success status goes lt => exact ⟨goes, lt, Or.inr ⟨hc, status⟩⟩

theorem Early.stopped {r : ParseState × HttpContext × Buffer} (h : Early parse c buf r)
    (hr : r.1 ≠ .success) :
    (r.2.1.recvStatus = c.recvStatus ∧ (c.recvStatus = .line ∨ c.recvStatus = .head)) ∨
      (r.2.1.recvStatus = .error ∧ 400 ≤ r.2.1.respStatus) := by
  have hcases : ∀ next, Stage parse c buf next r → r.2.1.recvStatus = c.recvStatus ∨
      (r.2.1.recvStatus = .error ∧ 400 ≤ r.2.1.respStatus) := by
    intro next hst
    cases hst with
    | needMore goes stays waits => exact Or.inl stays
    | failed status code fails => exact Or.inr ⟨status, code⟩
    | success => exact absurd rfl hr
  rcases h.stage with ⟨hc, hst⟩ | ⟨hc, hst⟩
  · exact (hcases _ hst).imp_left fun h => ⟨h, Or.inl hc⟩
  · exact (hcases _ hst).imp_left fun h => ⟨h, Or.inr hc⟩

/-- **The rule for a call.**  It is enough to look at a stage that does not succeed, whose result is
that of the call, at one that does, with the rest of the call behind it, and at the body. -/
theorem recvHttpRequest_rule {P : HttpContext → Buffer → Option (HttpContext × Buffer) → Prop}
    (stops : ∀ c buf r, Early parse c buf r → r.1 ≠ .success → P c buf (some r.2))
    (goes : ∀ c buf c' buf' res, Early parse c buf (.success, c', buf') → P c' buf' res →
      P c buf res)
    (body : ∀ c buf, c.recvStatus = .body → P c buf ((c.recvHttpBody buf).map (·.2)))
    (hc : c.recvStatus = .line ∨ c.recvStatus = .head ∨ c.recvStatus = .body) (buf : Buffer) :
    P c buf (c.recvHttpRequest parse buf) := by
  have hhead : ∀ (c : HttpContext) (buf : Buffer), c.recvStatus = .head →
      P c buf (((c.recvHttpHead buf).2.1.recvHttpBody (c.recvHttpHead buf).2.2).map (·.2)) := by
    intro c buf hc
    have he : Early parse c buf (c.recvHttpHead buf) := .head hc
    have hst : Stage parse c buf .body (c.recvHttpHead buf) := recvHttpHead_stage hc buf
    generalize c.recvHttpHead buf = r at he hst
    cases hst with
    | needMore goes stays waits =>
      have hstops := stops c buf _ he (by simp)
      rw [recvHttpBody_skip (by simp [stays, hc])]
      exact hstops
    | failed status code fails =>
      have hstops := stops c buf _ he (by simp)
      rw [recvHttpBody_skip (by simp [status])]
      exact hstops
    | success status => exact goes _ _ _ _ _ he (body _ _ status)
  unfold recvHttpRequest
  rcases hc with hc | hc | hc <;> simp only [hc]
  · have he : Early parse c buf (c.recvHttpLine parse buf) := .line hc
    have hst : Stage parse c buf .head (c.recvHttpLine parse buf) := recvHttpLine_stage hc buf
    generalize c.recvHttpLine parse buf = r at he hst
    cases hst with
    | needMore goes stays waits =>
      have hstops := stops c buf _ he (by simp)
      rw [recvHttpHead_skip (by simp [stays, hc]), recvHttpBody_skip (by simp [stays, hc])]
      exact hstops
    | failed status code fails =>
      have hstops := stops c buf _ he (by simp)
      rw [recvHttpHead_skip (by simp [status]), recvHttpBody_skip (by simp [status])]
      exact hstops
    | success status => exact goes _ _ _ _ _ he (hhead _ _ status)
  · exact hhead c buf hc
  · exact body c buf hc

/-! ### What a call renders -/

theorem recvHttpBody_whole {n : Nat} (hc : c.recvStatus = .body)
    (hn : c.request.contentLength = some n) (hle : c.request.body.length ≤ n)
    (hfit : n - c.request.body.length ≤ buf.unread.length) :
    ∃ b, b.unread = buf.unread.drop (n - c.request.body.length) ∧
      c.recvHttpBody buf = some (.success, { c.withBody
        (buf.unread.take (n - c.request.body.length)) with recvStatus := .over }, b) := by
  rw [Buffer.unread_length] at hfit
  unfold recvHttpBody
  rw [if_neg (by simp [hc]), hn, Option.map_some, if_neg (Nat.not_lt.mpr hle)]
  by_cases hneed : n - c.request.body.length = 0
  · have hsame : c.withBody (buf.unread.take (n - c.request.body.length)) = c := by
      rw [hneed, List.take_zero, withBody, List.append_nil]
    refine ⟨buf, by rw [hneed, List.drop_zero], ?_⟩
    simp only [if_pos hneed, ite_self, hsame]
  · refine ⟨_, Buffer.moveReadOffset_unread buf _ hfit, ?_⟩
    simp only [if_neg hneed, min_eq_left hfit, if_true, Buffer.readAsStringAndPop]
    rw [if_neg (by omega)]
    rfl

theorem recvHttpBody_part {n : Nat} (hc : c.recvStatus = .body)
    (hn : c.request.contentLength = some n) (hle : c.request.body.length ≤ n)
    (hshort : ¬ n - c.request.body.length ≤ buf.unread.length) :
    ∃ b, b.unread = [] ∧ c.recvHttpBody buf = some (.needMore, c.withBody buf.unread, b) := by
  rw [Buffer.unread_length] at hshort
  have hmin : min (n - c.request.body.length) buf.readAbleSize = buf.readAbleSize :=
    min_eq_right (by omega)
  unfold recvHttpBody
  rw [if_neg (by simp [hc]), hn, Option.map_some, if_neg (Nat.not_lt.mpr hle)]
  refine ⟨buf.moveReadOffset buf.readAbleSize le_rfl, ?_, ?_⟩
  · rw [Buffer.moveReadOffset_unread, ← Buffer.unread_length, List.drop_length]
  · simp only [Buffer.readAsStringAndPop, hmin]
    rw [if_neg (by omega), if_neg (by omega), if_neg (by omega), Buffer.readAsString_all]
    rfl

theorem recvHttpBody_rendered (hc : c.recvStatus = .body) (hs : Sound c) (buf : Buffer) :
    Rendered parse ((httpReader parse).run c buf.unread) ((c.recvHttpBody buf).map (·.2)) := by
  have hresp := hs.respStatus_eq
  cases hn : c.request.contentLength with
  | none =>
    have hstep : readStep parse c buf.unread = .fail .threw := by
      simp only [readStep, hc, hn]
    rw [recvHttpBody, if_neg (by simp [hc]), hn]
    exact Reader.run_of_fail hstep
  | some n =>
    have hle := hs.body_le hc n hn
    by_cases hfit : n - c.request.body.length ≤ buf.unread.length
    · obtain ⟨b, hu, hb⟩ := recvHttpBody_whole hc hn hle hfit
      have hstep : readStep parse c buf.unread = .next
          [(c.withBody (buf.unread.take (n - c.request.body.length))).request] c.reset
          b.unread := by
        simp only [readStep, hc, hn]
        rw [if_neg (Nat.not_lt.mpr hle), if_pos hfit, hu]
      rw [hb, Option.map_some]
      exact Rendered.over hresp rfl (Reader.run_of_next (R := httpReader parse) hstep)
    · obtain ⟨b, hu, hb⟩ := recvHttpBody_part hc hn hle hfit
      have hstep : readStep parse c buf.unread = .wait (c.withBody buf.unread) b.unread := by
        simp only [readStep, hc, hn]
        rw [if_neg (Nat.not_lt.mpr hle), if_neg hfit, hu]
      rw [hb, Option.map_some]
      exact Rendered.waits hresp (by simp [withBody, hc]) (Reader.run_of_wait hstep)

/-- A context in which no later stage does anything is what the call leaves. -/
theorem rendered_of_stays {next : HttpRecvStatus} {r : ParseState × HttpContext × Buffer}
    (hs : Sound c) (hst : Stage parse c buf next r) (hr : r.1 ≠ .success) :
    Rendered parse ((httpReader parse).run c buf.unread) (some r.2) := by
  cases hst with
  | needMore goes stays waits =>
    rename_i c' b
    have hs' := goes.2 hs
    exact Rendered.waits hs'.respStatus_eq hs'.ne_over (goes.1.trans (Reader.run_of_wait waits))
  | failed status code fails =>
    rw [Rendered, if_pos code]
    exact fails
  | success => exact absurd rfl hr

theorem Rendered.of_goes {u' : Bytes} {r : Option (HttpContext × Buffer)}
    (h : Goes parse c u c' u') (hr : Rendered parse ((httpReader parse).run c' u') r) :
    Rendered parse ((httpReader parse).run c u) r := h.1 ▸ hr

/-- **A call of `RecvHttpRequest` renders the decisions about the unread bytes.** -/
theorem recvHttpRequest_rendered (hs : Sound c) (buf : Buffer) :
    Rendered parse ((httpReader parse).run c buf.unread) (c.recvHttpRequest parse buf) := by
  refine recvHttpRequest_rule (P := fun c buf res => Sound c →
    Rendered parse ((httpReader parse).run c buf.unread) res) ?_ ?_ ?_ hs.receiving buf hs
  · intro c buf r he hr hs
    rcases he.stage with ⟨_, hst⟩ | ⟨_, hst⟩
    · exact rendered_of_stays hs hst hr
    · exact rendered_of_stays hs hst hr
  · intro c buf c' buf' res he ih hs
    have hgo := he.success.1
    exact Rendered.of_goes hgo (ih (hgo.2 hs))
  · intro c buf hc hs
    exact recvHttpBody_rendered hc hs buf

/-- A finished request that began with its status line took bytes off the buffer. -/
theorem recvHttpRequest_over_lt (hc : c.recvStatus = .line)
    (h : c.recvHttpRequest parse buf = some (c', buf')) (ho : c'.recvStatus = .over) :
    buf'.readAbleSize < buf.readAbleSize := by
  have hall : ∀ c' buf', c.recvHttpRequest parse buf = some (c', buf') → c'.recvStatus = .over →
      buf'.readAbleSize ≤ buf.readAbleSize ∧
        (c.recvStatus ≠ .body → buf'.readAbleSize < buf.readAbleSize) := by
    refine recvHttpRequest_rule (P := fun c buf res => ∀ c' buf', res = some (c', buf') →
      c'.recvStatus = .over → buf'.readAbleSize ≤ buf.readAbleSize ∧
        (c.recvStatus ≠ .body → buf'.readAbleSize < buf.readAbleSize)) ?_ ?_ ?_ (Or.inl hc) buf
    · rintro c buf ⟨st, c₁, buf₁⟩ he hr c' buf' hres ho
      simp only [Option.some.injEq, Prod.mk.injEq] at hres
      obtain ⟨rfl, rfl⟩ := hres
      rcases he.stopped hr with ⟨hstays, hc | hc⟩ | ⟨herror, _⟩
      · exact absurd ((hstays.trans hc).symm.trans ho) (by decide)
      · exact absurd ((hstays.trans hc).symm.trans ho) (by decide)
      · exact absurd (herror.symm.trans ho) (by decide)
    · intro c buf c₁ buf₁ res he ih c' buf' hres ho
      have hlt := he.success.2.1
      have hle := (ih c' buf' hres ho).1
      exact ⟨by omega, fun _ => by omega⟩
    · intro c buf hc c' buf' hres _
      obtain ⟨r, hr, hrb⟩ := Option.map_eq_some_iff.mp hres
      have hb := recvHttpBody_readsTo hr
      rw [hrb] at hb
      exact ⟨hb.le, fun hne => absurd hc hne⟩
  exact (hall c' buf' h ho).2 (by simp [hc])

/-! ### The loop of `OnMessage` -/

/-- How far the loop is from its end: the bytes left, and a request that was begun. -/
def pending (c : HttpContext) (buf : Buffer) : Nat :=
  2 * buf.readAbleSize + if c.recvStatus = .line then 0 else 1

theorem pending_reset_lt (h : c.recvHttpRequest parse buf = some (c', buf'))
    (ho : c'.recvStatus = .over) : c'.reset.pending buf' < c.pending buf := by
  have hle := (recvHttpRequest_readsTo h).le
  have hreset : c'.reset.pending buf' = 2 * buf'.readAbleSize := rfl
  rw [hreset, pending]
  by_cases hc : c.recvStatus = .line
  · have := recvHttpRequest_over_lt hc h ho
    rw [if_pos hc]
    omega
  · rw [if_neg hc]
    omega

/-- The loop of `OnMessage`, with the finished requests in the order they are handed on, and the
error that ends it or the context and the buffer it leaves. -/
def drain (parse : Bytes → LineResult) (c : HttpContext) (buf : Buffer) :
    List HttpRequest × Except Fault (HttpContext × Buffer) :=
  if buf.readAbleSize = 0 then ([], .ok (c, buf))
  else
    match _h : c.recvHttpRequest parse buf with
    | none => ([], .error .threw)
    | some (c', buf') =>
      if 400 ≤ c'.respStatus then ([], .error (.status c'.respStatus))
      else if _ho : c'.recvStatus ≠ .over then ([], .ok (c', buf'))
      else
        let (requests, outcome) := drain parse c'.reset buf'
        (c'.request :: requests, outcome)
  termination_by c.pending buf
  decreasing_by exact pending_reset_lt ‹_› (not_not.mp ‹_›)

/-- The reads of a socket, one after the other: each is put behind the unread bytes and the loop
runs, up to the first error.  `none` is a write that leaves the storage of the buffer. -/
def feed (parse : Bytes → LineResult) : HttpContext → Buffer → List Bytes →
    Option (List HttpRequest × Except Fault (HttpContext × Buffer))
  | c, buf, [] => some ([], .ok (c, buf))
  | c, buf, read :: reads =>
    (buf.writeAndPush read).bind fun buf =>
      match drain parse c buf with
      | (requests, .error e) => some (requests, .error e)
      | (requests, .ok (c, buf)) =>
        (feed parse c buf reads).map fun later => (requests ++ later.1, later.2)

/-- What can be seen of an end: of the buffer the unread bytes. -/
def seen (p : List HttpRequest × Except Fault (HttpContext × Buffer)) :
    Result HttpContext HttpRequest Fault UInt8 :=
  (p.1, p.2.map fun q => (q.1, q.2.unread))

/-- The loop started with an empty buffer leaves all as it is, so the parser must be waiting
there. -/
def Idle (parse : Bytes → LineResult) (c : HttpContext) (u : Bytes) : Prop :=
  u = [] → readStep parse c u = .wait c u

theorem idle_new (parse : Bytes → LineResult) (u : Bytes) : Idle parse new u := by
  rintro rfl
  rfl

/-- **The loop over the buffer is a run of the reader over its unread bytes.** -/
theorem drain_eq_run (hs : Sound c) (buf : Buffer) (hi : Idle parse c buf.unread) :
    seen (drain parse c buf) = (httpReader parse).run c buf.unread := by
  induction hm : c.pending buf using Nat.strong_induction_on generalizing c buf with
  | _ m ih =>
    rw [drain]
    by_cases h0 : buf.readAbleSize = 0
    · have hu : buf.unread = [] := by rw [← List.length_eq_zero_iff, Buffer.unread_length, h0]
      rw [if_pos h0, Reader.run_of_wait (R := httpReader parse) (hi hu)]
      rfl
    · rw [if_neg h0]
      have hr : Rendered parse ((httpReader parse).run c buf.unread)
          (c.recvHttpRequest parse buf) := recvHttpRequest_rendered hs buf
      split
      · rename_i h
        rw [h] at hr
        exact hr.symm
      · rename_i c' buf' h
        rw [h, Rendered] at hr
        split
        · rename_i hcode
          rw [if_pos hcode] at hr
          exact hr.symm
        · rename_i hcode
          rw [if_neg hcode] at hr
          split
          · rename_i ho
            rw [if_pos ho] at hr
            exact hr.symm
          · rename_i ho
            rw [if_neg ho] at hr
            have hrest : seen (drain parse c'.reset buf') =
                (httpReader parse).run c'.reset buf'.unread :=
              ih (c'.reset.pending buf') (hm ▸ pending_reset_lt h (not_not.mp ho)) sound_new buf'
                (idle_new parse _) rfl
            rw [hr, ← hrest]
            rfl

/-! ### Read after read -/

/-- The buffer between two reads: a short line at most, in a vector of moderate size. -/
structure Roomy (buf : Buffer) : Prop where
  unread_le : buf.readAbleSize ≤ maxLine
  vector_le : buf.buffer.length ≤ 2 * (maxLine + 65535)

theorem roomy_new : Roomy Buffer.new :=
  ⟨by decide, by rw [Buffer.new_length]; decide⟩

theorem Roomy.write {read : Bytes} (h : Roomy buf) (hr : read.length ≤ 65535) :
    ∃ b, buf.writeAndPush read = some b ∧ b.unread = buf.unread ++ read ∧
      b.buffer.length ≤ 2 * (maxLine + 65535) := by
  have hlen := h.vector_le
  have hun := h.unread_le
  have hfit : buf.Fits read.length :=
    buf.fits_of_le (by simp only [maxLine, bufferMaxSize] at *; omega)
  obtain ⟨b, hb, hu⟩ := buf.writeAndPush_of_fits read hfit
  refine ⟨b, hb, hu, (Buffer.writeAndPush_length_le hb).trans (max_le hlen ?_)⟩
  exact Nat.mul_le_mul_left 2 (Nat.add_le_add hun hr)

theorem drain_readsTo (h : (drain parse c buf).2 = .ok (c', buf')) : ReadsTo buf buf' := by
  induction hm : c.pending buf using Nat.strong_induction_on generalizing c buf with
  | _ m ih =>
    rw [drain] at h
    split at h
    · simp only [Except.ok.injEq, Prod.mk.injEq] at h
      exact h.2 ▸ ReadsTo.refl buf
    · split at h
      · exact absurd h (by simp)
      · rename_i c1 b1 h1
        have hto := recvHttpRequest_readsTo h1
        split at h
        · exact absurd h (by simp)
        · split at h
          · simp only [Except.ok.injEq, Prod.mk.injEq] at h
            exact h.2 ▸ hto
          · rename_i ho
            exact hto.trans (ih _ (hm ▸ pending_reset_lt h1 (not_not.mp ho)) h rfl)

/-- Where the loop ends without an error, the next read finds the parser waiting. -/
theorem drain_ok (hs : Sound c) (hi : Idle parse c buf.unread)
    (h : (drain parse c buf).2 = .ok (c', buf')) :
    Sound c' ∧ readStep parse c' buf'.unread = .wait c' buf'.unread := by
  have hend : ((httpReader parse).run c buf.unread).2 = .ok (c', buf'.unread) := by
    rw [← drain_eq_run hs buf hi, seen, h]
    rfl
  exact ⟨Reader.run_invariant (R := httpReader parse) (fun hs h => (readStep_wait hs h).1)
    readStep_sound_next hs hend, Reader.run_ok_step hend⟩

theorem Roomy.of_drain (hs : Sound c') (hw : readStep parse c' buf'.unread = .wait c' buf'.unread)
    (hv : buf.buffer.length ≤ 2 * (maxLine + 65535)) (h : ReadsTo buf buf') : Roomy buf' := by
  constructor
  · rw [← Buffer.unread_length]
    exact (readStep_wait hs hw).2
  · rw [h.vector]
    exact hv

theorem idle_append (hw : readStep parse c u = .wait c u) (read : Bytes) :
    Idle parse c (u ++ read) := by
  intro hnil
  rw [hnil, ← (List.append_eq_nil_iff.mp hnil).1]
  exact hw

/-- **Reading the socket is feeding the reader.**  As long as no write leaves the storage, whatever
the sizes of the reads. -/
theorem feed_seen (hs : Sound c) (hw : readStep parse c buf.unread = .wait c buf.unread)
    {reads : List Bytes} {p : List HttpRequest × Except Fault (HttpContext × Buffer)}
    (h : feed parse c buf reads = some p) :
    seen p = (httpReader parse).feed c buf.unread reads := by
  induction reads generalizing c buf p with
  | nil =>
    obtain rfl := Option.some.inj h
    rfl
  | cons read reads ih =>
    obtain ⟨b, hb, hf⟩ := Option.bind_eq_some_iff.mp h
    have hu := Buffer.writeAndPush_unread hb
    have hi := idle_append hw read
    rw [← hu] at hi
    rw [Reader.feed, ← hu, ← drain_eq_run hs b hi]
    rcases hd : drain parse c b with ⟨requests, e | ⟨c', b'⟩⟩
    · rw [hd] at hf
      obtain rfl := Option.some.inj hf
      rfl
    · obtain ⟨hs', hw'⟩ := drain_ok hs hi (by rw [hd])
      rw [hd] at hf
      obtain ⟨later, hlater, rfl⟩ := Option.map_eq_some_iff.mp hf
      have hseen := ih hs' hw' hlater
      show (requests ++ (seen later).1, (seen later).2) = _
      rw [hseen]
      rfl

/-- **No write of a read leaves the storage.** -/
theorem feed_isSome (hs : Sound c) (hr : Roomy buf)
    (hw : readStep parse c buf.unread = .wait c buf.unread) {reads : List Bytes}
    (hreads : ∀ read ∈ reads, read.length ≤ 65535) : (feed parse c buf reads).isSome := by
  induction reads generalizing c buf with
  | nil => rfl
  | cons read reads ih =>
    obtain ⟨b, hb, hu, hv⟩ := hr.write (hreads read List.mem_cons_self)
    have hi := idle_append hw read
    rw [← hu] at hi
    rw [feed, hb, Option.bind_some]
    rcases hd : drain parse c b with ⟨requests, e | ⟨c', b'⟩⟩
    · rfl
    · obtain ⟨hs', hw'⟩ := drain_ok hs hi (by rw [hd])
      have hr' : Roomy b' := Roomy.of_drain hs' hw' hv (drain_readsTo (by rw [hd]))
      rw [Option.isSome_map]
      exact ih hs' hr' hw' fun r h => hreads r (List.mem_cons_of_mem read h)

theorem feed_new_seen {reads : List Bytes}
    {p : List HttpRequest × Except Fault (HttpContext × Buffer)}
    (h : feed parse new .new reads = some p) :
    seen p = (httpReader parse).run new reads.flatten :=
  (feed_seen sound_new (idle_new parse [] rfl) h).trans
    (Reader.feed_eq_run (idle_new parse [] rfl) reads)

theorem feed_new_isSome {reads : List Bytes} (h : ∀ read ∈ reads, read.length ≤ 65535) :
    (feed parse new .new reads).isSome :=
  feed_isSome sound_new roomy_new (idle_new parse [] rfl) h

/-- **The parser does not depend on how the stream is cut.**  Two ways of cutting a stream into
non-empty reads of at most 65535 bytes, fed to a fresh context and a fresh buffer, yield the same
requests, the same outcome and, without an error, the same context and the same unread bytes. -/
theorem feed_cut (parse : Bytes → LineResult) (xs ys : List Bytes)
    (hx : ∀ read ∈ xs, read ≠ [] ∧ read.length ≤ 65535)
    (hy : ∀ read ∈ ys, read ≠ [] ∧ read.length ≤ 65535) (h : xs.flatten = ys.flatten) :
    ∃ result, (feed parse new .new xs).map seen = some result ∧
      (feed parse new .new ys).map seen = some result := by
  obtain ⟨p, hp⟩ := Option.isSome_iff_exists.mp
    (feed_new_isSome fun r hr => (hx r hr).2)
  obtain ⟨q, hq⟩ := Option.isSome_iff_exists.mp
    (feed_new_isSome fun r hr => (hy r hr).2)
  refine ⟨(httpReader parse).run new xs.flatten, ?_, ?_⟩
  · rw [hp, Option.map_some, feed_new_seen hp]
  · rw [hq, Option.map_some, feed_new_seen hq, h]

/-- A request line cut before its newline, and whole. -/
theorem feed_cut_line :
    ∃ result, (feed (fun _ => .mismatch) new .new [[71], [10]]).map seen = some result ∧
      (feed (fun _ => .mismatch) new .new [[71, 10]]).map seen = some result :=
  feed_cut (fun _ => .mismatch) [[71], [10]] [[71, 10]] (by decide) (by decide) rfl

end HttpContext

end Flux
