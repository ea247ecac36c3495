import Flux.Http.Delivery

/-!
# Draining

What happens to output once the kernel takes it.  `send` may take as little as one byte at an event,
and between two events there is nothing but the write interest to bring `HandleWrite` back.

* `HttpConn.Wrote`: an event at which `send` takes so many bytes.
* `HttpConn.answers_drained`: in whatever portions the kernel takes what is left, each reaches it,
  the interest is dropped with the last byte and not before, and a close that was waiting for it
  happens then.
-/

namespace Flux

open Lib

theorem Channel.disableWrite_writeAble (c : Channel) : c.disableWrite.writeAble = false := by
  have hnone : ~~~EPOLLOUT &&& EPOLLOUT = 0#32 := by decide
  rw [writeAble, hasBits, disableWrite, BitVec.and_assoc, hnone, BitVec.and_zero]
  rfl

namespace HttpConn

variable {srv : HttpServer} {s t u : HttpConn} {connId sockfd n : Nat} {is : List HttpInput}
  {ns : List Nat}

/-- **What a portion does.**  With output left it only takes bytes away; the last one ends the
interest, and the connection if it is to close. -/
structure Wrote (s t : HttpConn) (n : Nat) : Prop where
  log : t.log = s.log
  unread : t.conn.outBuffer.unread = s.conn.outBuffer.unread.drop n
  more : t.conn.outBuffer.unread ≠ [] → t.conn.statu = s.conn.statu ∧
    t.conn.socketOpen = s.conn.socketOpen ∧ t.conn.channel.writeAble = s.conn.channel.writeAble
  last : t.conn.outBuffer.unread = [] → t.conn.channel.writeAble = false ∧
    (t.conn.socketOpen = false ↔ s.conn.statu = .disconnecting)

theorem writing_step (srv : HttpServer) (hopen : s.conn.socketOpen = true)
    (hn : n ≤ s.conn.outBuffer.unread.length) :
    ∃ t, s.step srv (writing n) = some t ∧ s.Wrote t n := by
  let c0 : Connection := { s.conn with channel := s.conn.channel.setREvents EPOLLOUT }
  let s0 : HttpConn := { s with conn := c0 }
  have hread : s0.readBlock true (message srv true) .again = .ok s0 := by
    have hframes : c0.readTest.frames = [.writeTest] := by
      rw [Connection.readTest, show c0.channel.revents = EPOLLOUT from rfl, if_neg (by decide)]
    rw [readBlock, hframes, if_neg (by simp)]
  have hwrite : s0.writeBlock true (message srv true) (.sent n) =
      s0.handleWrite true (message srv true) (.sent n) := by
    have hframes : c0.writeTest.frames = [.send] := by
      rw [Connection.writeTest, show c0.channel.revents = EPOLLOUT from rfl, if_pos (by decide)]
    rw [writeBlock, hframes, if_pos List.mem_cons_self]
  have hn' : n ≤ c0.outBuffer.readAbleSize := by
    rw [← Buffer.unread_length]
    exact hn
  obtain ⟨e, he⟩ : ∃ e, c0.sent n = some e := by
    rw [Connection.sent, dif_pos hn']
    simp only
    split <;> exact ⟨_, rfl⟩
  have hexec : (Segment.sent n).exec c0 true = some e := by
    rw [Segment.exec, if_pos (show c0.socketOpen = true from hopen), he]
  have hstep : s.step srv (writing n) = some (s0.goOn true e) := by
    have hreact : s.react srv (writing n) = .ok (s0.goOn true e) := by
      show (s0.readBlock true (message srv true) .again).bind _ = _
      rw [hread]
      show s0.writeBlock true (message srv true) (.sent n) = _
      rw [hwrite, handleWrite, if_pos (show c0.socketOpen = true from hopen), he]
    rw [step, hreact]
    rfl
  refine ⟨s0.goOn true e, hstep, ?_⟩
  cases Segment.exec_effect hexec with
  | inert _ kind => exact absurd kind Bool.false_ne_true
  | sentSome opened taken left =>
    rw [goOn, if_neg List.not_mem_nil]
    exact ⟨rfl, taken, fun _ => ⟨rfl, rfl, rfl⟩, fun h => absurd h left⟩
  | @sentAll _ out opened taken left =>
    have hall : out.unread = s.conn.outBuffer.unread.drop n := by
      rw [left, List.drop_eq_nil_of_le]
      have hlen := congrArg List.length taken
      rw [List.length_take] at hlen
      exact min_eq_right_iff.mp hlen
    unfold goOn
    by_cases hdis : c0.statu = .disconnecting
    · rw [if_pos (by rw [if_pos hdis]; exact List.mem_cons_self)]
      have hconn : ∀ x : HttpConn, (x.release true).conn = { x.conn with
          statu := .disconnected, socketOpen := false, enableInactiveRelease := false } :=
        fun x => x.conn.releaseInLoop_conn true
      refine ⟨rfl, ?_, ?_, ?_⟩
      · rw [hconn]
        exact hall
      · rw [hconn]
        exact fun h => absurd left h
      · rw [hconn]
        exact fun _ => ⟨Channel.disableWrite_writeAble _, iff_of_true rfl hdis⟩
    · rw [if_neg (by rw [if_neg hdis]; exact List.not_mem_nil)]
      refine ⟨rfl, hall, fun h => absurd left h, fun _ => ⟨Channel.disableWrite_writeAble _, ?_⟩⟩
      exact iff_of_false (fun h => absurd (opened.symm.trans h) (by simp)) hdis

theorem writing_run (srv : HttpServer) (hopen : s.conn.socketOpen = true)
    (hleft : s.conn.outBuffer.unread ≠ []) (hwatched : s.conn.channel.writeAble = true)
    (hpos : ∀ n ∈ ns, 0 < n) (hsum : ns.sum ≤ s.conn.outBuffer.unread.length) :
    ∃ t, run (HttpConn.step srv) s (ns.map writing) = some t ∧ t.log = s.log ∧
      t.conn.outBuffer.unread = s.conn.outBuffer.unread.drop ns.sum ∧
      (t.conn.channel.writeAble = true ↔ ns.sum < s.conn.outBuffer.unread.length) ∧
      (t.conn.socketOpen = false ↔
        s.conn.statu = .disconnecting ∧ ns.sum = s.conn.outBuffer.unread.length) := by
  have hlen := List.length_pos_of_ne_nil hleft
  induction ns generalizing s with
  | nil =>
    refine ⟨s, rfl, rfl, by simp, iff_of_true hwatched hlen, iff_of_false (by simp [hopen]) ?_⟩
    rintro ⟨-, hzero⟩
    rw [List.sum_nil] at hzero
    omega
  | cons n ns ih =>
    rw [List.sum_cons] at hsum
    obtain ⟨u, hu, hlog, hunread, hmore, hlast⟩ := writing_step srv hopen (n := n) (by omega)
    have hulen : u.conn.outBuffer.unread.length = s.conn.outBuffer.unread.length - n := by
      rw [hunread, List.length_drop]
    by_cases hnil : u.conn.outBuffer.unread = []
    · -- the portions are used up
      obtain ⟨hoff, hclosed⟩ := hlast hnil
      rw [hnil, List.length_nil] at hulen
      have hns : ns = [] := by
        cases ns with
        | nil => rfl
        | cons m ns =>
          have hm := hpos m (by simp)
          rw [List.sum_cons] at hsum
          omega
      subst hns
      refine ⟨u, run_cons.mpr ⟨u, hu, rfl⟩, hlog, by simpa using hunread, ?_, ?_⟩
      · rw [hoff, List.sum_cons, List.sum_nil]
        exact iff_of_false Bool.false_ne_true (by omega)
      · rw [hclosed, List.sum_cons, List.sum_nil]
        exact ⟨fun h => ⟨h, by omega⟩, And.left⟩
    · obtain ⟨hst, hsock, hwrite⟩ := hmore hnil
      have hupos := List.length_pos_of_ne_nil hnil
      obtain ⟨t, ht, htlog, htunread, htwrite, htclosed⟩ := ih (hsock.trans hopen) hnil
        (hwrite.trans hwatched) (fun m hm => hpos m (List.mem_cons_of_mem _ hm)) (by omega) hupos
      refine ⟨t, run_cons.mpr ⟨u, hu, ht⟩, htlog.trans hlog, ?_, ?_, ?_⟩
      · rw [htunread, hunread, List.drop_drop, List.sum_cons]
      · rw [htwrite, List.sum_cons]
        omega
      · rw [htclosed, hst, List.sum_cons]
        refine and_congr_right fun _ => ?_
        omega

/-- **What is left is delivered, in whatever portions.**  Take any state of a run in which nothing
breaks, with the socket open and output left, and let the kernel take any portions of it at the
events that follow.  Every portion reaches the wire behind what is there and in front of what is
left; the write interest is on up to the last byte and off behind it; and the connection is closed
then and only then, if it was to close. -/
theorem answers_drained (hrun : run (HttpConn.step srv) (fresh connId sockfd) is = some s)
    (hcalm : ∀ i ∈ is, i.calm = true) (hopen : s.conn.socketOpen = true)
    (hleft : s.conn.outBuffer.unread ≠ []) (hpos : ∀ n ∈ ns, 0 < n)
    (hsum : ns.sum ≤ s.conn.outBuffer.unread.length) :
    ∃ t, run (HttpConn.step srv) (fresh connId sockfd) (is ++ ns.map writing) = some t ∧
      wire srv (fresh connId sockfd) (is ++ ns.map writing) ++ s.conn.outBuffer.unread.drop ns.sum =
        s.log.flatMap Exchange.data ∧
      (t.conn.channel.writeAble = true ↔ ns.sum < s.conn.outBuffer.unread.length) ∧
      (t.conn.socketOpen = false ↔
        s.conn.statu = .disconnecting ∧ ns.sum = s.conn.outBuffer.unread.length) := by
  obtain ⟨t, ht, hlog, hunread, hwrite, hclosed⟩ :=
    writing_run srv hopen hleft (watched_run hrun hleft) hpos hsum
  have hall := run_append.mpr ⟨s, hrun, ht⟩
  have hquiet : ∀ i ∈ is ++ ns.map writing, i.calm = true := by
    intro i hi
    rcases List.mem_append.mp hi with hi | hi
    · exact hcalm i hi
    · obtain ⟨n, -, rfl⟩ := List.mem_map.mp hi
      rfl
  have hbalance := (delivers_run hall hquiet).2
  rw [hunread, hlog] at hbalance
  exact ⟨t, hall, hbalance, hwrite, hclosed⟩

/-- A request that asks to close, and its response in two portions. -/
theorem answers_drained_portions :
    ∃ s, run (HttpConn.step (.bare rootLine)) (fresh 1 7) [reading (rootRequest false).encode] =
      some s ∧
      s.conn.statu = .disconnecting ∧ s.conn.outBuffer.unread.length = 45 ∧
      ∃ t, run (HttpConn.step (.bare rootLine)) (fresh 1 7)
          ([reading (rootRequest false).encode] ++ [5, 40].map writing) = some t ∧
        wire (.bare rootLine) (fresh 1 7)
          ([reading (rootRequest false).encode] ++ [5, 40].map writing) ++
          s.conn.outBuffer.unread.drop [5, 40].sum = s.log.flatMap Exchange.data ∧
        (t.conn.channel.writeAble = true ↔ [5, 40].sum < s.conn.outBuffer.unread.length) ∧
        (t.conn.socketOpen = false ↔
          s.conn.statu = .disconnecting ∧ [5, 40].sum = s.conn.outBuffer.unread.length) := by
  have hrun :
      (run (HttpConn.step (.bare rootLine)) (fresh 1 7) [reading (rootRequest false).encode]).map
      (fun s => (s.conn.socketOpen, s.conn.statu, s.conn.outBuffer.unread.length)) =
        some (true, .disconnecting, 45) := by
    decide +kernel
  obtain ⟨s, hs, hp⟩ := Option.map_eq_some_iff.mp hrun
  simp only [Prod.mk.injEq] at hp
  obtain ⟨hopen, hdis, hlen⟩ := hp
  have hleft : s.conn.outBuffer.unread ≠ [] := by
    intro hnil
    rw [hnil] at hlen
    exact absurd hlen (by decide)
  exact ⟨s, hs, hdis, hlen,
    answers_drained hs (by decide) hopen hleft (by decide) (by rw [hlen]; decide)⟩

end HttpConn

end Flux
