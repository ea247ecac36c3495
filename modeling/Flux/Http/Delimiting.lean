import Flux.Http.Client
import Flux.Http.KeepAlive

/-!
# Where a response ends

On a connection that is kept a client finds the end of a response by its `Content-Length`.  The
header is set by a handler, or else by `MakeResponse` for a body that is not empty; an error page
replaces the body behind the handler's back, an empty body gets no header, and the body of an answer
to `HEAD` is sent all the same.  `kept_delimited_iff` says which responses delimit themselves, and
that a client recovers the responses of a run as far as they do.
-/

namespace Flux

open Lib HttpResponse

/-! ### Which responses delimit themselves -/

namespace HttpServer

variable (srv : HttpServer)

/-- What a handler, or a file, makes of a request. -/
def outcome (n : Nat) (req : HttpRequest) : HttpResponse := srv.route n req (.new (200 : Nat))

/-- The handler of a request sets `Content-Length` to the length of the body it sets, if at all. -/
def HonestLength (n : Nat) (req : HttpRequest) : Prop :=
  (srv.outcome n req).hasHeader HttpRequest.contentLengthKey = true →
    (srv.outcome n req).getHeader HttpRequest.contentLengthKey =
      digits (srv.outcome n req).body.length

def HonestLengths : Prop := ∀ n req, srv.HonestLength n req

/-- The body that is sent: that of the handler, or the error page if there is one. -/
def sentBody (n : Nat) (resp : HttpResponse) : Bytes :=
  match srv.files n (srv.basedir ++ notFoundPage) with
  | .whole page => if 400 ≤ resp.status then page else resp.body
  | .closed | .broken _ => resp.body

/-- **When a response delimits itself.**  Its handler has set the length and no error page of
another length is sent instead of its body, or it has not and the body that is sent is not empty;
and to `HEAD` no body is sent. -/
def Delimits (n : Nat) (req : HttpRequest) : Prop :=
  let resp := srv.outcome n req
  let body := srv.sentBody n resp
  (if resp.hasHeader HttpRequest.contentLengthKey then body.length = resp.body.length
    else body ≠ []) ∧
    (req.method = ascii "HEAD".toList → body = [])

theorem errorHandler_body (n : Nat) (resp : HttpResponse) (h : 400 ≤ resp.status) :
    (srv.errorHandler n resp).body = srv.sentBody n resp := by
  unfold errorHandler sentBody
  cases srv.files n (srv.basedir ++ notFoundPage) with
  | closed => rfl
  | broken content => rfl
  | whole content => exact (if_pos h).symm

/-- The response of the handler with the body that is sent. -/
theorem handled_eq (n : Nat) (req : HttpRequest) :
    (srv.handled n 200 req).body = srv.sentBody n (srv.outcome n req) ∧
    (srv.handled n 200 req).hasHeader HttpRequest.contentLengthKey =
      (srv.outcome n req).hasHeader HttpRequest.contentLengthKey ∧
    (srv.handled n 200 req).getHeader HttpRequest.contentLengthKey =
      (srv.outcome n req).getHeader HttpRequest.contentLengthKey := by
  have heq : srv.handled n 200 req =
      if 400 ≤ (srv.outcome n req).status then srv.errorHandler n (srv.outcome n req)
      else srv.outcome n req := rfl
  rw [heq]
  split
  · rename_i h
    exact ⟨srv.errorHandler_body n _ h, srv.errorHandler_header n _ (by decide)⟩
  · rename_i h
    refine ⟨?_, rfl, rfl⟩
    unfold sentBody
    split
    · rw [if_neg h]
    · rfl
    · rfl

/-- **The answer to a request delimits itself exactly then.** -/
theorem serve_delimited_iff {n : Nat} {req : HttpRequest} (hlen : srv.HonestLength n req) :
    (srv.serve n 200 req).Delimited ↔ srv.Delimits n req := by
  obtain ⟨hbody, hhas, hget⟩ := srv.handled_eq n req
  have hvalues : (srv.serve n 200 req).response.headers.values HttpRequest.contentLengthKey = _ :=
    (srv.handled n 200 req).complete_contentLength req
  have hsent : (srv.serve n 200 req).response.body = srv.sentBody n (srv.outcome n req) :=
    ((srv.handled n 200 req).complete_body req).trans hbody
  rw [hhas, hget, hbody] at hvalues
  rw [Exchange.Delimited, hvalues, hsent, Delimits]
  refine and_congr ?_ Iff.rfl
  cases hc : (srv.outcome n req).hasHeader HttpRequest.contentLengthKey with
  | true =>
    rw [if_pos rfl, if_pos rfl, hlen hc, List.singleton_inj, digits_injective.eq_iff, eq_comm]
  | false =>
    simp only [Bool.false_eq_true, if_false]
    by_cases hb : srv.sentBody n (srv.outcome n req) = []
    · rw [if_neg (not_not.mpr hb)]
      exact iff_of_false (by simp) (not_not.mpr hb)
    · rw [if_pos hb]
      exact iff_of_true rfl hb

end HttpServer

/-! ### Runs -/

namespace HttpServer

variable (srv : HttpServer)

def Made (n : Nat) (e : Exchange) : Prop :=
  e = srv.serve n 200 e.request ∨ ∃ status, e = srv.reject n status e.request

theorem serveAll_made (n : Nat) (reqs : List HttpRequest) :
    ∀ k e, (srv.serveAll n reqs)[k]? = some e → srv.Made (n + k) e := by
  induction reqs generalizing n with
  | nil => exact fun k e h => absurd h (by simp [serveAll])
  | cons req reqs ih =>
    intro k e h
    cases k with
    | zero =>
      obtain rfl := Option.some.inj h
      exact Or.inl rfl
    | succ k =>
      have hk := ih (n + 1) k e h
      rwa [Nat.add_assoc, Nat.add_comm 1 k] at hk

theorem answers_made (n : Nat) (c : HttpContext) (u : Bytes) :
    ∀ k e, (srv.answers n c u)[k]? = some e → srv.Made (n + k) e := by
  intro k e h
  rw [answers, List.getElem?_append, srv.serveAll_length] at h
  split at h
  · exact srv.serveAll_made n _ k e h
  · rename_i hk
    rcases srv.rejectEnd_cases (n + ((httpReader srv.parse).run c u).1.length)
      ((httpReader srv.parse).stop c u).1.request ((httpReader srv.parse).run c u).2 with
      hnil | ⟨status, hone⟩
    · rw [hnil] at h
      exact absurd h (by simp)
    · rw [hone] at h
      obtain ⟨hlt, he⟩ := List.getElem?_eq_some_iff.mp h
      rw [List.length_singleton] at hlt
      have hzero : k - ((httpReader srv.parse).run c u).1.length = 0 := by omega
      have hsum : n + k = n + ((httpReader srv.parse).run c u).1.length := by omega
      simp only [hzero, List.getElem_cons_zero] at he
      rw [hsum, ← he]
      exact Or.inr ⟨status, rfl⟩

variable {srv}

theorem Made.data {n : Nat} {e : Exchange} (h : srv.Made n e) :
    e.data = e.response.bytes srv.order e.request.version := by
  rcases h with h | ⟨status, h⟩
  · rw [h]
    rfl
  · rw [h]
    rfl

theorem Made.served {n : Nat} {e : Exchange} (h : srv.Made n e) (hopen : e.closes = false) :
    e = srv.serve n 200 e.request := by
  rcases h with h | ⟨status, h⟩
  · exact h
  · rw [h] at hopen
    exact absurd hopen (by simp [reject])

/-- A server at the root whose handler sets a body. -/
def greeting : HttpServer :=
  { bare rootLine with
    getRoute := [⟨fun _ => true, fun _ _ resp => resp.setContent (ascii "hello".toList) textHtml⟩] }

theorem bare_honest (line : Bytes) : (bare line).HonestLengths := by
  intro n req h
  have hnone : ((bare line).outcome n req).headers = [] := by
    have hno : isFileHandler ((bare line).isRegular n) (bare line).basedir req = false := if_pos rfl
    unfold outcome route
    rw [hno, if_neg Bool.false_ne_true]
    split_ifs <;> rfl
  rw [hasHeader, hnone] at h
  exact absurd h (by decide)

theorem greeting_honest : greeting.HonestLengths := by
  intro n req h
  have hnone : (greeting.outcome n req).hasHeader HttpRequest.contentLengthKey = false := by
    have hno : isFileHandler (greeting.isRegular n) greeting.basedir req = false := if_pos rfl
    unfold outcome route
    rw [hno, if_neg Bool.false_ne_true]
    split_ifs <;> rfl
  exact absurd (h.symm.trans hnone) (by decide)

end HttpServer

namespace HttpConn

variable {srv : HttpServer} {s t : HttpConn}

/-- Every exchange of a run is the answer to its request, or to a fault in it. -/
theorem made_run {connId sockfd : Nat} {is : List HttpInput}
    (h : run (HttpConn.step srv) (fresh connId sockfd) is = some s) :
    ∀ n e, s.log[n]? = some e → srv.Made n e := by
  have hboth : Rests srv s ∧ ∀ n e, s.log[n]? = some e → srv.Made n e := by
    refine run_preserves (I := fun s => Rests srv s ∧ ∀ n e, s.log[n]? = some e → srv.Made n e)
      ?_ ?_ h
    · rintro s i t ⟨hr, hm⟩ ht
      obtain ⟨hrt, hlog⟩ := hr.step ht
      refine ⟨hrt, ?_⟩
      intro n e he
      rw [hlog, List.getElem?_append] at he
      split at he
      · exact hm n e he
      · rename_i hn
        have hmade := srv.answers_made s.log.length s.context _ _ e he
        rwa [Nat.add_sub_cancel' (Nat.not_lt.mp hn)] at hmade
    · exact ⟨rests_fresh srv connId sockfd, fun n e he => absurd he (by simp [fresh])⟩
  exact hboth.2

/-- **Which responses on a kept connection delimit themselves.**  In every run, whatever the
requests and what handlers that set no false length make of them: a response behind which the
connection stays open delimits itself exactly if its handler and the error page give it a length in
the way of `Delimits`.  And a client that cuts the output by length recovers the responses as far as
they do, and then stands before the next one. -/
theorem kept_delimited_iff (hlen : srv.HonestLengths) {connId sockfd : Nat} {is : List HttpInput}
    (h : run (HttpConn.step srv) (fresh connId sockfd) is = some s) :
    (∀ n e, s.log[n]? = some e → e.closes = false → (e.Delimited ↔ srv.Delimits n e.request)) ∧
    ∀ kept rest, s.log = kept ++ rest → (∀ e ∈ kept, e.Delimited ∧ e.Plain) →
      Client.cut (kept.map Exchange.bodiless) (s.log.flatMap Exchange.data) =
        some (kept.map Exchange.data, rest.flatMap Exchange.data) := by
  have hmade := made_run h
  refine ⟨?_, ?_⟩
  · intro n e he hopen
    have hserve : e = srv.serve n 200 e.request := (hmade n e he).served hopen
    have hiff := srv.serve_delimited_iff (hlen n e.request)
    rwa [← hserve] at hiff
  · intro kept rest hlog hkept
    rw [hlog, List.flatMap_append]
    have hall : ∀ e ∈ kept, e.Separable srv.order := by
      intro e he
      obtain ⟨n, hn⟩ := List.mem_iff_getElem?.mp (hlog ▸ List.mem_append_left rest he : e ∈ s.log)
      obtain ⟨hdelimited, hplain⟩ := hkept e he
      exact ⟨(hmade n e hn).data, hplain, hdelimited⟩
    exact Client.cut_data hall _

/-- Two requests that keep the connection, with a handler that answers. -/
theorem kept_delimited_greeting : ∃ s, run (HttpConn.step .greeting) (fresh 1 7)
      [reading ([rootRequest true, rootRequest true].flatMap WireRequest.encode)] = some s ∧
    s.log.length = 2 ∧
    (∀ n e, s.log[n]? = some e → e.closes = false →
      (e.Delimited ↔ HttpServer.greeting.Delimits n e.request)) ∧
    ∀ kept rest, s.log = kept ++ rest → (∀ e ∈ kept, e.Delimited ∧ e.Plain) →
      Client.cut (kept.map Exchange.bodiless) (s.log.flatMap Exchange.data) =
        some (kept.map Exchange.data, rest.flatMap Exchange.data) := by
  obtain ⟨s, hs, hlog⟩ := exists_read_encodes .greeting [rootRequest true, rootRequest true]
    (by decide +kernel) (by decide +kernel)
  exact ⟨s, hs, by rw [hlog]; rfl, kept_delimited_iff HttpServer.greeting_honest hs⟩

/-- Without a handler the connection is kept behind a response that announces no length. -/
theorem kept_without_length : (HttpServer.bare rootLine).HonestLengths ∧
    ∃ s, run (HttpConn.step (.bare rootLine)) (fresh 1 7)
      [reading ([rootRequest true].flatMap WireRequest.encode)] = some s ∧
    ∃ e ∈ s.log, e.closes = false ∧ ¬ e.Delimited := by
  obtain ⟨s, hs, hlog⟩ := exists_read_encodes (.bare rootLine) [rootRequest true]
    (by decide +kernel) (by decide +kernel)
  refine ⟨HttpServer.bare_honest rootLine, s, hs, ?_⟩
  rw [hlog]
  refine ⟨_, List.mem_cons_self, by decide +kernel, ?_⟩
  intro hd
  exact absurd hd.1 (by decide +kernel)

end HttpConn

end Flux
