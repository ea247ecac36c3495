import Flux.Http.Consistent
import Flux.Http.RequestLine
import Flux.Http.Server

/-!
# A static file in one piece

`IsFileHandler` looks at a file and `FileHandler` reads it later, and `ReadFile` asks the system
four times in between: to open the file, for its size, for its bytes, and whether all went well.
`FileAnswer` is what the system says, and `readFileCalls` what becomes of it; `readFile_fileRead`
says that this is the `ReadFile` of the server.

`FileHandler` drops the flag with which `ReadFile` says that it failed, and the status stays 200.
`static_whole_iff` says which answers give the file all the same.
-/

namespace Flux

open Lib

namespace Util

/-- What the system says of a file it has opened: the size `tellg` tells, the bytes `read` puts into
the string, and whether the stream is `good` behind it. -/
structure OpenFile where
  size : Nat
  got : Bytes
  good : Bool
  got_le : got.length ≤ size
  good_all : good = true → got.length = size

inductive FileAnswer
  | closed
  /-- `tellg` fails, and `resize` throws: its -1 is no size of a string. -/
  | untold
  | opened (file : OpenFile)

/-- `ReadFile`, call by call: the string is resized before it is read into. -/
def readFileCalls (answer : FileAnswer) (buf : Bytes) : Option (Bool × Bytes) :=
  match answer with
  | .closed => some (false, buf)
  | .untold => none
  | .opened file =>
    let buf := resize buf file.size
    let buf := file.got ++ buf.drop file.got.length
    if file.good = false then some (false, buf) else some (true, buf)

/-- The same as one answer, if `ReadFile` returns. -/
def FileAnswer.fileRead : FileAnswer → Option FileRead
  | .closed => some .closed
  | .untold => none
  | .opened file =>
    if file.good then some (.whole file.got)
    else some (.broken (file.got ++ List.replicate (file.size - file.got.length) 0))

/-- **The answers that give a file of this content.**  It was opened with the size of its content,
what came is the beginning of it, and what did not come is zero, as the string is behind `resize`.
An empty file need not even be opened. -/
def FileAnswer.Delivers (content : Bytes) : FileAnswer → Prop
  | .closed => content = []
  | .untold => False
  | .opened file => file.size = content.length ∧ file.got <+: content ∧
      ∀ b ∈ content.drop file.got.length, b = 0

theorem OpenFile.rest (file : OpenFile) :
    (resize [] file.size).drop file.got.length =
      List.replicate (file.size - file.got.length) 0 := by
  rw [resize, List.take_nil, List.nil_append, List.drop_replicate, List.length_nil, Nat.sub_zero]

/-- **`ReadFile` into an empty string.** -/
theorem readFile_fileRead (answer : FileAnswer) :
    (answer.fileRead.map fun file => readFile file []) = readFileCalls answer [] := by
  cases answer with
  | closed => rfl
  | untold => rfl
  | opened file =>
    simp only [readFileCalls, FileAnswer.fileRead, file.rest]
    cases hg : file.good with
    | false => rfl
    | true =>
      rw [file.good_all hg, Nat.sub_self, List.replicate_zero, List.append_nil]
      rfl

/-- What is left in the string is the content exactly then. -/
theorem readFileCalls_eq_iff {answer : FileAnswer} {r : Bool × Bytes}
    (h : readFileCalls answer [] = some r) (content : Bytes) :
    r.2 = content ↔ answer.Delivers content := by
  cases answer with
  | closed =>
    obtain rfl := Option.some.inj h
    exact eq_comm
  | untold => exact absurd h (by simp [readFileCalls])
  | opened file =>
    have hbuf : r.2 = file.got ++ List.replicate (file.size - file.got.length) 0 := by
      simp only [readFileCalls, file.rest] at h
      split at h <;> exact (congrArg Prod.snd (Option.some.inj h)).symm
    have hle := file.got_le
    rw [hbuf, FileAnswer.Delivers]
    constructor
    · rintro rfl
      refine ⟨?_, List.prefix_append _ _, ?_⟩
      · rw [List.length_append, List.length_replicate]
        omega
      · intro b hb
        rw [List.drop_left] at hb
        exact List.eq_of_mem_replicate hb
    · rintro ⟨hsize, ⟨rest, rfl⟩, hzero⟩
      rw [List.drop_left] at hzero
      rw [List.length_append] at hsize
      have hrest : rest = List.replicate rest.length 0 := List.eq_replicate_of_mem hzero
      rw [hrest, show file.size - file.got.length = rest.length by omega]

end Util

namespace HttpServer

variable (srv : HttpServer) (n : Nat)

/-- **Whole or refused.**  The response has status 200 and all of the content, or an error status
and nothing of what could be read: no body at all, or the error page. -/
def WholeOrRefused (content : Bytes) (resp : HttpResponse) : Prop :=
  (resp.status = 200 ∧ resp.body = content) ∨
    (400 ≤ resp.status ∧
      (resp.body = [] ∨ srv.files n (srv.basedir ++ notFoundPage) = .whole resp.body))

instance (content : Bytes) (resp : HttpResponse) : Decidable (srv.WholeOrRefused n content resp) :=
  inferInstanceAs (Decidable (_ ∨ _))

theorem fileHandler_status (req : HttpRequest) (resp : HttpResponse) :
    (srv.fileHandler n req resp).status = resp.status := by
  unfold fileHandler
  simp only
  split <;> rfl

theorem fileHandler_body (req : HttpRequest) (resp : HttpResponse) :
    (srv.fileHandler n req resp).body =
      (Util.readFile (srv.files n (requestFile srv.basedir req.path)) resp.body).2 := by
  unfold fileHandler
  simp only
  split
  · rename_i h
    rw [h]
  · rename_i h
    rw [h]
    rfl

/-- The answer to a request for a file: its status is 200 whatever became of the file. -/
theorem handled_static {req : HttpRequest}
    (hfile : isFileHandler (srv.isRegular n) srv.basedir req = true) :
    (srv.handled n 200 req).status = 200 ∧ (srv.handled n 200 req).body =
      (Util.readFile (srv.files n (requestFile srv.basedir req.path)) []).2 := by
  have hroute : srv.route n req (.new (200 : Nat)) = srv.fileHandler n req (.new (200 : Nat)) :=
    if_pos hfile
  have hstatus : (srv.fileHandler n req (.new (200 : Nat))).status = 200 :=
    srv.fileHandler_status n req _
  have hhandled : srv.handled n 200 req = srv.fileHandler n req (.new (200 : Nat)) := by
    simp only [handled, hroute, hstatus]
    rw [if_neg (by decide)]
  rw [hhandled]
  exact ⟨hstatus, srv.fileHandler_body n req _⟩

/-- **When a static file is served whole or refused.**  In every sequence of calls, the response to
a finished request that `IsFileHandler` accepts does what it should for exactly the answers of the
system that give the file; any other answer with which `ReadFile` returns sends something else with
status 200. -/
theorem static_whole_iff {bufs : List Buffer} {c c' : HttpContext} {buf buf' : Buffer}
    (hc : run (HttpContext.receive srv.parse) .new bufs = some c)
    (hcall : c.recvHttpRequest srv.parse buf = some (c', buf')) (hover : c'.recvStatus = .over)
    (hfile : isFileHandler (srv.isRegular n) srv.basedir c'.request = true)
    (answer : Util.FileAnswer)
    (hanswer : answer.fileRead = some (srv.files n (requestFile srv.basedir c'.request.path)))
    (content : Bytes) :
    srv.WholeOrRefused n content (srv.handled n c'.respStatus c'.request) ↔
    answer.Delivers content := by
  have hcons := HttpContext.recvHttpRequest_consistent (HttpContext.run_receive_ready hc) hcall
  have hresp : c'.respStatus = 200 := hcons.respStatus_eq (by simp [hover])
  obtain ⟨hstatus, hbody⟩ := srv.handled_static n hfile
  have hread := Util.readFile_fileRead answer
  rw [hanswer, Option.map_some] at hread
  rw [hresp, WholeOrRefused, hstatus, hbody, Util.readFileCalls_eq_iff hread.symm,
    and_iff_right rfl]
  exact or_iff_left (fun h => absurd h.1 (by decide))

/-- A server of the base directory `/www`, and what it finds of the one file there. -/
def oneFile (file : Util.FileRead) : HttpServer :=
  { bare [] with
    basedir := ascii "/www".toList
    parse := HttpContext.parseLine
    isRegular := fun _ name => name = ascii "/www/a".toList
    files := fun _ name => if name = ascii "/www/a".toList then file else .closed }

def pageBuffer : Buffer :=
  (Buffer.new.writeAndPush (ascii "GET /a HTTP/1.1\r\n\r\n".toList)).getD .new

def pageRequest : HttpRequest :=
  { HttpRequest.new with method := ascii "GET".toList, path := ascii "/a".toList }

theorem pageRequest_received (file : Util.FileRead) :
    ∃ buf', HttpContext.new.recvHttpRequest (oneFile file).parse pageBuffer =
      some (⟨200, .over, pageRequest⟩, buf') := by
  have hleft : (HttpContext.new.recvHttpRequest (oneFile .closed).parse pageBuffer).map (·.1) =
      some ⟨200, .over, pageRequest⟩ := by decide +kernel
  obtain ⟨⟨c', buf'⟩, hcall, rfl⟩ := Option.map_eq_some_iff.mp hleft
  exact ⟨buf', hcall⟩

theorem pageRequest_accepted (file : Util.FileRead) :
    isFileHandler ((oneFile file).isRegular 0) (oneFile file).basedir pageRequest = true := by
  have hclosed : isFileHandler ((oneFile .closed).isRegular 0) (oneFile .closed).basedir
      pageRequest =
      true := by decide +kernel
  exact hclosed

theorem pageRequest_file (file : Util.FileRead) :
    (oneFile file).files 0 (requestFile (oneFile file).basedir pageRequest.path) = file := by
  have hname : requestFile (ascii "/www".toList) pageRequest.path = ascii "/www/a".toList := by
    decide
  show (if requestFile (ascii "/www".toList) pageRequest.path = ascii "/www/a".toList then
    file else .closed) = file
  rw [if_pos hname]

/-- A file of one byte that is read. -/
theorem static_whole_one :
    (oneFile (.whole [120])).WholeOrRefused 0 [120]
        ((oneFile (.whole [120])).handled 0 200 pageRequest) ↔
      (Util.FileAnswer.opened ⟨1, [120], true, le_rfl, fun _ => rfl⟩).Delivers [120] := by
  obtain ⟨buf', hcall⟩ := pageRequest_received (.whole [120])
  have hc : run (HttpContext.receive (oneFile (.whole [120])).parse) .new [] = some .new := rfl
  exact static_whole_iff (oneFile (.whole [120])) 0 hc hcall rfl (pageRequest_accepted _)
    (.opened ⟨1, [120], true, le_rfl, fun _ => rfl⟩) (congrArg some (pageRequest_file _).symm) [120]

/-- A file of one byte that cannot be opened any more: status 200 and no body. -/
theorem static_unopened :
    ¬ ∀ (srv : HttpServer) (n : Nat) (bufs : List Buffer) (c c' : HttpContext) (buf buf' : Buffer)
      (answer : Util.FileAnswer) (content : Bytes),
      run (HttpContext.receive srv.parse) .new bufs = some c →
      c.recvHttpRequest srv.parse buf = some (c', buf') → c'.recvStatus = .over →
      isFileHandler (srv.isRegular n) srv.basedir c'.request = true →
      answer.fileRead = some (srv.files n (requestFile srv.basedir c'.request.path)) →
      srv.WholeOrRefused n content (srv.handled n c'.respStatus c'.request) := by
  intro h
  obtain ⟨buf', hcall⟩ := pageRequest_received .closed
  have hresp := h (oneFile .closed) 0 [] .new _ pageBuffer buf' .closed [120] rfl hcall rfl
    (pageRequest_accepted .closed) (congrArg some (pageRequest_file .closed).symm)
  revert hresp
  decide +kernel

end HttpServer

end Flux
