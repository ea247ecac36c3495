import Flux.Http.Response
import Flux.Http.Stream
import Flux.Reactor.ConnectionRun

/-!
# `HttpServer` on one connection

The server is the user of a connection: its message callback is `OnMessage`, its connected callback
puts a new `HttpContext` into the connection, and it sets no other.  A handler sees the request and
the response and not the connection, so what runs between two answers of the kernel is determined,
and an event is a function here.  It is put together from the segments of `Connection`; where one of
them hands control to the message callback, `onMessage` runs to its end.

`OnMessage` answers requests as long as there are bytes, and `Shutdown` calls it again from inside;
the two take a number of rounds, and `unfinished` is what is said when it did not do.

Handlers, files and the expressions of the routes are given by the user and by the system.  They may
depend on how many responses the connection has had before, which stands for all that can change
between two calls.
-/

namespace Flux

open HttpResponse

structure Route where
  re : Bytes → Bool
  functor : Nat → HttpRequest → HttpResponse → HttpResponse

structure HttpServer where
  getRoute : List Route
  postRoute : List Route
  putRoute : List Route
  deleteRoute : List Route
  basedir : Bytes
  /-- What `ParseHttpLine` makes of a line. -/
  parse : Bytes → LineResult
  /-- `Util::IsRegular`, and what `Util::ReadFile` finds. -/
  isRegular : Nat → Bytes → Bool
  files : Nat → Bytes → Util.FileRead
  order : Arrangement

/-- A request that was answered: the request, the response as it was written, its bytes, and whether
`OnMessage` calls `Shutdown` behind it. -/
structure Exchange where
  request : HttpRequest
  response : HttpResponse
  data : Bytes
  closes : Bool
deriving DecidableEq, Repr

namespace HttpServer

variable (srv : HttpServer) (n : Nat)

def notFoundPage : Bytes := ascii "/404.html".toList

def textHtml : Bytes := ascii "text/html".toList

def errorHandler (resp : HttpResponse) : HttpResponse :=
  match Util.readFile (srv.files n (srv.basedir ++ notFoundPage)) [] with
  | (false, _) => resp
  | (true, body) => resp.setContent body textHtml

def fileHandler (req : HttpRequest) (resp : HttpResponse) : HttpResponse :=
  let reqPath := requestFile srv.basedir req.path
  match Util.readFile (srv.files n reqPath) resp.body with
  | (false, body) => { resp with body := body }
  | (true, body) => { resp with body := body }.setHeader contentTypeKey (Util.extMime reqPath)

def dispatcher (req : HttpRequest) (resp : HttpResponse) : List Route → HttpResponse
  | [] => { resp with status := 404 }
  | handler :: handlers =>
    if handler.re req.path then handler.functor n req resp else dispatcher req resp handlers

def route (req : HttpRequest) (resp : HttpResponse) : HttpResponse :=
  if isFileHandler (srv.isRegular n) srv.basedir req then srv.fileHandler n req resp
  else if req.method = ascii "GET".toList ∨ req.method = ascii "HEAD".toList then
    dispatcher n req resp srv.getRoute
  else if req.method = ascii "POST".toList then dispatcher n req resp srv.postRoute
  else if req.method = ascii "PUT".toList then dispatcher n req resp srv.putRoute
  else if req.method = ascii "DELETE".toList then dispatcher n req resp srv.deleteRoute
  else { resp with status := 405 }

/-- `OnMessage` on a request that could not be parsed, up to `MakeResponse`. -/
def reject (status : Nat) (req : HttpRequest) : Exchange :=
  let resp := (srv.errorHandler n (.new status)).complete req
  ⟨req, resp, resp.bytes srv.order req.version, true⟩

/-- The response to a finished request before `MakeResponse`. -/
def handled (status : Nat) (req : HttpRequest) : HttpResponse :=
  let resp := srv.route n req (.new status)
  if 400 ≤ resp.status then srv.errorHandler n resp else resp

/-- `OnMessage` on a finished request, up to `MakeResponse`. -/
def serve (status : Nat) (req : HttpRequest) : Exchange :=
  let resp := (srv.handled n status req).complete req
  ⟨req, resp, resp.bytes srv.order req.version, resp.isShortConnection⟩

def bare (line : Bytes) : HttpServer where
  getRoute := []
  postRoute := []
  putRoute := []
  deleteRoute := []
  basedir := []
  parse l :=
    if l = line ++ [newline] then
      .ok (ascii "GET".toList) (ascii "/".toList) (ascii "HTTP/1.1".toList) []
    else .mismatch
  isRegular _ _ := false
  files _ _ := .closed
  order := ⟨id, fun _ => .refl _⟩

end HttpServer

/-- A connection of the server, with the exchanges on it so far and the number of bytes left in the
input buffer at each return of `OnMessage`. -/
structure HttpConn where
  conn : Connection
  context : HttpContext
  log : List Exchange
  left : List Nat

/-- How an event comes to no end: `OnMessage` needs more rounds than it was given, `std::stol`
throws, a write does not fit into a buffer, or the kernel cannot have answered so. -/
inductive Stop
  | unfinished
  | threw
  | overflow
  | refused
deriving DecidableEq, Repr

namespace HttpConn

def callbacks : Callbacks where
  connected := true
  closed := false
  anyEvent := false
  srvClosed := false

def fresh (connId sockfd : Nat) : HttpConn where
  conn := (Connection.new connId sockfd callbacks).establishedInLoop.conn
  context := .new
  log := []
  left := []

section Segments

variable (hasTimer : Bool) (message : HttpConn → Except Stop HttpConn) (s : HttpConn)

def enter (e : Exec) : Except Stop HttpConn :=
  if .callback .message ∈ e.frames then message { s with conn := e.conn }
    else .ok { s with conn := e.conn }

def release : HttpConn := { s with conn := (s.conn.releaseInLoop hasTimer).conn }

def goOn (e : Exec) : HttpConn :=
  if .releaseCall ∈ e.frames then { s with conn := e.conn }.release hasTimer
    else { s with conn := e.conn }

def shutdown : Except Stop HttpConn :=
  (s.enter message s.conn.shutdownInLoop).map fun s => s.goOn hasTimer s.conn.shutdownTail

def handleClose : Except Stop HttpConn :=
  (s.enter message s.conn.handleClose).map (release hasTimer)

def handleRead : RecvResult → Except Stop HttpConn
  | .again => if s.conn.socketOpen then .ok s else .error .refused
  | .closed | .error => s.shutdown hasTimer message
  | .data data =>
    if s.conn.socketOpen ∧ 0 < data.length ∧ data.length ≤ 65535 then
      match s.conn.recvData data with
      | none => .error .overflow
      | some e => s.enter message e
    else .error .refused

def handleWrite : SendResult → Except Stop HttpConn
  | .sent n =>
    if s.conn.socketOpen then
      match s.conn.sent n with
      | none => .error .refused
      | some e => .ok (s.goOn hasTimer e)
    else .error .refused
  | .error true => .ok s
  | .error false => (s.enter message s.conn.sendFailed).map (release hasTimer)

def writeBlock (send : SendResult) : Except Stop HttpConn :=
  if .send ∈ s.conn.writeTest.frames then s.handleWrite hasTimer message send
  else if .releaseCall ∈ s.conn.writeTest.frames then s.handleClose hasTimer message
  else .ok s

def readBlock (recv : RecvResult) : Except Stop HttpConn :=
  if .recv ∈ s.conn.readTest.frames then s.handleRead hasTimer message recv else .ok s

def handleEvent (revents : BitVec 32) (recv : RecvResult) (send : SendResult) :
    Except Stop HttpConn :=
  let s := { s with conn := { s.conn with channel := s.conn.channel.setREvents revents } }
  (s.readBlock hasTimer message recv).bind fun s => s.writeBlock hasTimer message send

end Segments

section OnMessage

variable (s : HttpConn)

def received (context : HttpContext) (buf : Buffer) : HttpConn :=
  { s with context := context, conn := { s.conn with inBuffer := buf } }

/-- `MakeResponse` sends an exchange, and the context is reset. -/
def answer (e : Exchange) : Except Stop HttpConn :=
  match (Buffer.new.writeAndPush e.data).bind s.conn.sendInLoop with
  | none => .error .overflow
  | some x => .ok { s with conn := x.conn, context := s.context.reset, log := s.log ++ [e] }

def emptied : HttpConn :=
  { s with conn := { s.conn with
    inBuffer := s.conn.inBuffer.moveReadOffset s.conn.inBuffer.readAbleSize le_rfl } }

def returned : HttpConn := { s with left := s.left ++ [s.conn.inBuffer.readAbleSize] }

end OnMessage

def onMessage (srv : HttpServer) (hasTimer : Bool) : Nat → HttpConn → Except Stop HttpConn
  | 0, _ => .error .unfinished
  | rounds + 1, s =>
    if s.conn.inBuffer.readAbleSize = 0 then .ok s.returned
    else
      match s.context.recvHttpRequest srv.parse s.conn.inBuffer with
      | none => .error .threw
      | some (context, buf) =>
        let s := s.received context buf
        if 400 ≤ context.respStatus then
          ((s.answer (srv.reject s.log.length context.respStatus context.request)).bind fun s =>
            s.emptied.shutdown hasTimer (onMessage srv hasTimer rounds)).map returned
        else if context.recvStatus ≠ .over then .ok s.returned
        else
          let e := srv.serve s.log.length context.respStatus context.request
          ((s.answer e).bind fun s =>
            if e.closes then s.shutdown hasTimer (onMessage srv hasTimer rounds) else .ok s).bind
              (onMessage srv hasTimer rounds)

def message (srv : HttpServer) (hasTimer : Bool) (s : HttpConn) : Except Stop HttpConn :=
  s.onMessage srv hasTimer (s.context.pending s.conn.inBuffer + 1)

end HttpConn

/-- What happens to a connection: `HandleEvent` with what was reported and what the kernel answers
where it is asked, or the release by its timer. -/
inductive HttpEvent
  | handleEvent (revents : BitVec 32) (recv : RecvResult) (send : SendResult)
  | release
deriving DecidableEq, Repr

/-- An event, and what `HasTimer` of the loop answers in it. -/
structure HttpInput where
  event : HttpEvent
  hasTimer : Bool
deriving DecidableEq, Repr

namespace HttpConn

def react (srv : HttpServer) (s : HttpConn) (i : HttpInput) : Except Stop HttpConn :=
  match i.event with
  | .handleEvent revents recv send =>
    s.handleEvent i.hasTimer (message srv i.hasTimer) revents recv send
  | .release => .ok (s.release i.hasTimer)

def step (srv : HttpServer) (s : HttpConn) (i : HttpInput) : Option HttpConn :=
  (s.react srv i).toOption

end HttpConn

end Flux
