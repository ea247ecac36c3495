import Flux.Http.Context
import Flux.Http.Static
import Mathlib.Data.List.Nodup

/-!
# `HttpResponse`

The response a handler fills in, and the bytes `MakeResponse` makes of it.  Its headers are an
`unordered_map`, so a key is there at most once, which is part of the structure, and the order in
which they are written is not known: it is an `Arrangement`, any way of listing the pairs of a map.
-/

namespace Flux

namespace Util

def statuMsg : List (Int × String) :=
  [(100, "Continue"), (101, "Switching Protocol"), (102, "Processing"), (103, "Early Hints"),
    (200, "OK"), (201, "Created"), (202, "Accepted"), (203, "Non-Authoritative Information"),
    (204, "No Content"), (205, "Reset Content"), (206, "Partial Content"), (207, "Multi-Status"),
    (208, "Already Reported"), (226, "IM Used"), (300, "Multiple Choice"),
    (301, "Moved Permanently"), (302, "Found"), (303, "See Other"), (304, "Not Modified"),
    (305, "Use Proxy"), (306, "unused"), (307, "Temporary Redirect"), (308, "Permanent Redirect"),
    (400, "Bad Request"), (401, "Unauthorized"), (402, "Payment Required"), (403, "Forbidden"),
    (404, "Not Found"), (405, "Method Not Allowed"), (406, "Not Acceptable"),
    (407, "Proxy Authentication Required"), (408, "Request Timeout"), (409, "Conflict"),
    (410, "Gone"), (411, "Length Required"), (412, "Precondition Failed"),
    (413, "Payload Too Large"), (414, "URI Too Long"), (415, "Unsupported Media Type"),
    (416, "Range Not Satisfiable"), (417, "Expectation Failed"), (418, "I'm a teapot"),
    (421, "Misdirected Request"), (422, "Unprocessable Entity"), (423, "Locked"),
    (424, "Failed Dependency"), (425, "Too Early"), (426, "Upgrade Required"),
    (428, "Precondition Required"), (429, "Too Many Requests"),
    (431, "Request Header Fields Too Large"), (451, "Unavailable For Legal Reasons"),
    (501, "Not Implemented"), (502, "Bad Gateway"), (503, "Service Unavailable"),
    (504, "Gateway Timeout"), (505, "HTTP Version Not Supported"),
    (506, "Variant Also Negotiates"), (507, "Insufficient Storage"), (508, "Loop Detected"),
    (510, "Not Extended"), (511, "Network Authentication Required")]

def mimeMsg : List (String × String) :=
  [(".aac", "audio/aac"), (".abw", "application/x-abiword"), (".arc", "application/x-freearc"),
    (".avi", "video/x-msvideo"), (".azw", "application/vnd.amazon.ebook"),
    (".bin", "application/octet-stream"), (".bmp", "image/bmp"), (".bz", "application/x-bzip"),
    (".bz2", "application/x-bzip2"), (".csh", "application/x-csh"), (".css", "text/css"),
    (".csv", "text/csv"), (".doc", "application/msword"),
    (".docx", "application/vnd.openxmlformats-officedocument.wordprocessingml.document"),
    (".eot", "application/vnd.ms-fontobject"), (".epub", "application/epub+zip"),
    (".gif", "image/gif"), (".htm", "text/html"), (".html", "text/html"),
    (".ico", "image/vnd.microsoft.icon"), (".ics", "text/calendar"),
    (".jar", "application/java-archive"), (".jpeg", "image/jpeg"), (".jpg", "image/jpeg"),
    (".js", "text/javascript"), (".json", "application/json"), (".jsonld", "application/ld+json"),
    (".mid", "audio/midi"), (".midi", "audio/x-midi"), (".mjs", "text/javascript"),
    (".mp3", "audio/mpeg"), (".mpeg", "video/mpeg"),
    (".mpkg", "application/vnd.apple.installer+xml"),
    (".odp", "application/vnd.oasis.opendocument.presentation"),
    (".ods", "application/vnd.oasis.opendocument.spreadsheet"),
    (".odt", "application/vnd.oasis.opendocument.text"), (".oga", "audio/ogg"),
    (".ogv", "video/ogg"), (".ogx", "application/ogg"), (".otf", "font/otf"),
    (".png", "image/png"), (".pdf", "application/pdf"), (".ppt", "application/vnd.ms-powerpoint"),
    (".pptx", "application/vnd.openxmlformats-officedocument.presentationml.presentation"),
    (".rar", "application/x-rar-compressed"), (".rtf", "application/rtf"),
    (".sh", "application/x-sh"), (".svg", "image/svg+xml"),
    (".swf", "application/x-shockwave-flash"), (".tar", "application/x-tar"),
    (".tif", "image/tiff"), (".tiff", "image/tiff"), (".ttf", "font/ttf"), (".txt", "text/plain"),
    (".vsd", "application/vnd.visio"), (".wav", "audio/wav"), (".weba", "audio/webm"),
    (".webm", "video/webm"), (".webp", "image/webp"), (".woff", "font/woff"),
    (".woff2", "font/woff2"), (".xhtml", "application/xhtml+xml"),
    (".xls", "application/vnd.ms-excel"),
    (".xlsx", "application/vnd.openxmlformats-officedocument.spreadsheetml.sheet"),
    (".xml", "application/xml"), (".xul", "application/vnd.mozilla.xul+xml"),
    (".zip", "application/zip"), (".3gp", "video/3gpp"), (".3g2", "video/3gpp2"),
    (".7z", "application/x-7z-compressed")]

def statuDesc (statu : Int) : Bytes :=
  ascii (((statuMsg.find? (·.1 == statu)).map (·.2)).getD "Unknown").toList

def octetStream : Bytes := ascii "application/octet-stream".toList

/-- The last `'.'` of a file name and what is behind it. -/
def extension (filename : Bytes) : Bytes := 46 :: (filename.reverse.takeWhile (· ≠ 46)).reverse

def extMime (filename : Bytes) : Bytes :=
  if 46 ∉ filename then octetStream
  else
    ((mimeMsg.find? fun m => ascii m.1.toList == extension filename).map fun m =>
      ascii m.2.toList).getD octetStream

inductive FileRead
  | closed
  /-- It was opened and its content did not all come; the string has its size by then. -/
  | broken (content : Bytes)
  | whole (content : Bytes)
deriving DecidableEq, Repr

def readFile (file : FileRead) (buf : Bytes) : Bool × Bytes :=
  match file with
  | .closed => (false, buf)
  | .broken content => (false, content)
  | .whole content => (true, content)

end Util

/-! ### Numbers in text -/

/-- `std::to_string` of a number that is not negative. -/
def digits (n : Nat) : Bytes := ascii (Nat.toDigits 10 n)

/-- `std::to_string`. -/
def toText (n : Int) : Bytes := if n < 0 then 45 :: digits n.natAbs else digits n.natAbs

/-! ### Maps with distinct keys -/

namespace StringMap

def Distinct (m : StringMap) : Prop := (m.map Prod.fst).Nodup

instance (m : StringMap) : Decidable m.Distinct := inferInstanceAs (Decidable (List.Nodup _))

theorem has_iff {m : StringMap} {key : Bytes} : m.has key = true ↔ key ∈ m.map Prod.fst := by
  simp [has]

theorem Distinct.insert {m : StringMap} (h : m.Distinct) (key value : Bytes) :
    (m.insert key value).Distinct := by
  unfold StringMap.insert
  split
  · exact h
  · rename_i hno
    have hkey : key ∉ m.map Prod.fst := fun hk => hno (has_iff.mpr hk)
    rw [Distinct, List.map_append, List.nodup_append]
    refine ⟨h, List.nodup_singleton _, ?_⟩
    intro a ha b hb
    rw [List.map_singleton, List.mem_singleton] at hb
    subst hb
    rintro rfl
    exact hkey ha

def values (m : StringMap) (key : Bytes) : List Bytes := (m.filter (·.1 == key)).map Prod.snd

theorem values_cons (kv : Bytes × Bytes) (m : StringMap) (key : Bytes) :
    values (kv :: m) key = (if kv.1 = key then [kv.2] else []) ++ values m key := by
  by_cases hk : kv.1 = key
  · rw [if_pos hk, values, List.filter_cons_of_pos (by simpa using hk)]
    rfl
  · rw [if_neg hk, values, List.filter_cons_of_neg (by simpa using hk)]
    rfl

theorem Distinct.values_eq {m : StringMap} (h : m.Distinct) (key : Bytes) :
    m.values key = if m.has key then [m.get key] else [] := by
  induction m with
  | nil => rfl
  | cons kv m ih =>
    obtain ⟨hno, hd⟩ := List.nodup_cons.mp h
    by_cases hk : kv.1 = key
    · have hnone : values m key = [] := by
        rw [values, List.map_eq_nil_iff, List.filter_eq_nil_iff]
        intro kv' hm he
        exact hno (List.mem_map.mpr ⟨kv', hm, (beq_iff_eq.mp he).trans hk.symm⟩)
      have hget : StringMap.get (kv :: m) key = kv.2 := by
        rw [StringMap.get, List.find?_cons_of_pos (by simpa using hk)]
        rfl
      have hhas : StringMap.has (kv :: m) key = true := by
        rw [StringMap.has, List.any_cons, beq_iff_eq.mpr hk, Bool.true_or]
      rw [values_cons, if_pos hk, hnone, hhas, if_pos rfl, hget, List.append_nil]
    · have hget : StringMap.get (kv :: m) key = StringMap.get m key := by
        rw [StringMap.get, List.find?_cons_of_neg (by simpa using hk), StringMap.get]
      have hhas : StringMap.has (kv :: m) key = StringMap.has m key := by
        rw [StringMap.has, List.any_cons, beq_eq_false_iff_ne.mpr hk, Bool.false_or, StringMap.has]
      rw [values_cons, if_neg hk, hget, hhas]
      exact ih hd

theorem Distinct.mem_iff {m : StringMap} (h : m.Distinct) {key value : Bytes} :
    (key, value) ∈ m ↔ m.has key = true ∧ m.get key = value := by
  have hmem : (key, value) ∈ m ↔ value ∈ m.values key := by
    simp [values]
  rw [hmem, h.values_eq]
  split
  · rename_i hhas
    rw [List.mem_singleton, and_iff_right hhas, eq_comm]
  · rename_i hhas
    exact iff_of_false List.not_mem_nil fun hm => hhas hm.1

end StringMap

/-- The order in which an `unordered_map` is written. -/
structure Arrangement where
  list : StringMap → StringMap
  perm : ∀ m, (list m).Perm m

structure HttpResponse where
  status : Int
  redirectFlag : Bool
  body : Bytes
  redirectUrl : Bytes
  headers : StringMap
  distinct : headers.Distinct
deriving DecidableEq, Repr

namespace HttpResponse

def new (status : Int) : HttpResponse where
  status := status
  redirectFlag := false
  body := []
  redirectUrl := []
  headers := []
  distinct := List.nodup_nil

def setHeader (r : HttpResponse) (key value : Bytes) : HttpResponse :=
  { r with headers := r.headers.insert key value, distinct := r.distinct.insert key value }

def hasHeader (r : HttpResponse) (key : Bytes) : Bool := r.headers.has key

def getHeader (r : HttpResponse) (key : Bytes) : Bytes := r.headers.get key

def contentTypeKey : Bytes := ascii "Content-Type".toList

def setContent (r : HttpResponse) (body type : Bytes) : HttpResponse :=
  { r with body := body }.setHeader contentTypeKey type

def connectionKey : Bytes := ascii "Connection".toList

def keepAlive : Bytes := ascii "keep-alive".toList

def close : Bytes := ascii "close".toList

def locationKey : Bytes := ascii "Location".toList

def isShortConnection (r : HttpResponse) : Bool :=
  !(r.hasHeader connectionKey && r.getHeader connectionKey == keepAlive)

end HttpResponse

def HttpRequest.isShortConnection (r : HttpRequest) : Bool :=
  !(r.hasHeader HttpResponse.connectionKey &&
    r.getHeader HttpResponse.connectionKey == HttpResponse.keepAlive)

namespace HttpResponse

/-! ### `MakeResponse` -/

/-- Its second part, which completes the headers. -/
def complete (req : HttpRequest) (r : HttpResponse) : HttpResponse :=
  let r := r.setHeader connectionKey (if req.isShortConnection then close else keepAlive)
  let r :=
    if r.body ≠ [] ∧ !r.hasHeader HttpRequest.contentLengthKey then
      r.setHeader HttpRequest.contentLengthKey (digits r.body.length)
    else r
  let r :=
    if r.body ≠ [] ∧ !r.hasHeader contentTypeKey then r.setHeader contentTypeKey Util.octetStream
    else r
  if r.redirectFlag then r.setHeader locationKey r.redirectUrl else r

def crlf : Bytes := [carriageReturn, newline]

def statusLine (version : Bytes) (r : HttpResponse) : Bytes :=
  version ++ ascii [' '] ++ toText r.status ++ ascii [' '] ++ Util.statuDesc r.status ++ crlf

def headerLines (order : Arrangement) (r : HttpResponse) : Bytes :=
  (order.list r.headers).flatMap fun head => head.1 ++ HttpContext.headSymbol ++ head.2 ++ crlf

def bytes (order : Arrangement) (version : Bytes) (r : HttpResponse) : Bytes :=
  r.statusLine version ++ r.headerLines order ++ crlf ++ r.body

/-! ### What completing a response leaves -/

section SetHeader

variable (r : HttpResponse) {key key' : Bytes} (value : Bytes)

theorem setHeader_hasHeader_of_ne (hne : key ≠ key') :
    (r.setHeader key value).hasHeader key' = r.hasHeader key' := by
  rw [hasHeader, setHeader, StringMap.insert_has, beq_eq_false_iff_ne.mpr hne, Bool.or_false]
  rfl

theorem setHeader_getHeader_of_ne (hne : key ≠ key') :
    (r.setHeader key value).getHeader key' = r.getHeader key' :=
  StringMap.insert_get_of_ne _ _ _ _ hne

theorem setHeader_hasHeader_self : (r.setHeader key value).hasHeader key = true := by
  rw [hasHeader, setHeader, StringMap.insert_has, beq_self_eq_true, Bool.or_true]

theorem setHeader_getHeader_self : (r.setHeader key value).getHeader key =
    if r.hasHeader key then r.getHeader key else value := by
  cases hc : r.hasHeader key with
  | true => exact StringMap.insert_get_of_has _ _ _ _ hc
  | false => exact StringMap.insert_get_self _ _ _ hc

theorem ite_setHeader_of_ne (p : Prop) [Decidable p] (hne : key ≠ key') :
    (if p then r.setHeader key value else r).hasHeader key' = r.hasHeader key' ∧
      (if p then r.setHeader key value else r).getHeader key' = r.getHeader key' := by
  split
  · exact ⟨r.setHeader_hasHeader_of_ne value hne, r.setHeader_getHeader_of_ne value hne⟩
  · exact ⟨rfl, rfl⟩

end SetHeader

section Complete

variable (req : HttpRequest) (r : HttpResponse)

theorem complete_body : (r.complete req).body = r.body := by
  simp only [complete]
  split_ifs <;> rfl

theorem complete_status : (r.complete req).status = r.status := by
  simp only [complete]
  split_ifs <;> rfl

/-- Behind the first insert no other touches the `Connection` header. -/
theorem complete_connection :
    (r.complete req).hasHeader connectionKey = true ∧ (r.complete req).getHeader connectionKey =
      if r.hasHeader connectionKey then r.getHeader connectionKey
      else if req.isShortConnection then close else keepAlive := by
  have hlen : HttpRequest.contentLengthKey ≠ connectionKey := by decide
  have htype : contentTypeKey ≠ connectionKey := by decide
  have hloc : locationKey ≠ connectionKey := by decide
  simp only [complete]
  rw [(ite_setHeader_of_ne _ _ _ hloc).1, (ite_setHeader_of_ne _ _ _ hloc).2,
    (ite_setHeader_of_ne _ _ _ htype).1, (ite_setHeader_of_ne _ _ _ htype).2,
    (ite_setHeader_of_ne _ _ _ hlen).1, (ite_setHeader_of_ne _ _ _ hlen).2]
  exact ⟨r.setHeader_hasHeader_self _, r.setHeader_getHeader_self _⟩

/-- And the `Content-Length` header is left alone by all but one, which gives the length of a body
that is not empty. -/
theorem complete_contentLength :
    (r.complete req).headers.values HttpRequest.contentLengthKey =
      if r.hasHeader HttpRequest.contentLengthKey then [r.getHeader HttpRequest.contentLengthKey]
      else if r.body ≠ [] then [digits r.body.length] else [] := by
  have hconn : connectionKey ≠ HttpRequest.contentLengthKey := by decide
  have htype : contentTypeKey ≠ HttpRequest.contentLengthKey := by decide
  have hloc : locationKey ≠ HttpRequest.contentLengthKey := by decide
  let r1 := r.setHeader connectionKey (if req.isShortConnection then close else keepAlive)
  let r2 :=
    if r1.body ≠ [] ∧ !r1.hasHeader HttpRequest.contentLengthKey then
      r1.setHeader HttpRequest.contentLengthKey (digits r1.body.length)
    else r1
  have hrest : (r.complete req).hasHeader HttpRequest.contentLengthKey =
        r2.hasHeader HttpRequest.contentLengthKey ∧
      (r.complete req).getHeader HttpRequest.contentLengthKey =
        r2.getHeader HttpRequest.contentLengthKey :=
    ⟨(ite_setHeader_of_ne _ _ _ hloc).1.trans (ite_setHeader_of_ne _ _ _ htype).1,
      (ite_setHeader_of_ne _ _ _ hloc).2.trans (ite_setHeader_of_ne _ _ _ htype).2⟩
  have hhas : r1.hasHeader HttpRequest.contentLengthKey =
      r.hasHeader HttpRequest.contentLengthKey :=
    r.setHeader_hasHeader_of_ne _ hconn
  have hget : r1.getHeader HttpRequest.contentLengthKey =
      r.getHeader HttpRequest.contentLengthKey :=
    r.setHeader_getHeader_of_ne _ hconn
  have hbody : r1.body = r.body := rfl
  rw [(r.complete req).distinct.values_eq]
  change (if (r.complete req).hasHeader HttpRequest.contentLengthKey = true then
    [(r.complete req).getHeader HttpRequest.contentLengthKey] else []) = _
  rw [hrest.1, hrest.2]
  cases hc : r.hasHeader HttpRequest.contentLengthKey with
  | true =>
    have h2 : r2 = r1 := if_neg (by simp [hhas, hc])
    rw [h2, hhas, hget, hc, if_pos rfl, if_pos rfl]
  | false =>
    by_cases hb : r.body = []
    · have h2 : r2 = r1 := if_neg (by simp [hbody, hb])
      rw [h2, hhas, hc, if_neg (not_not.mpr hb)]
      rfl
    · have h2 : r2 = r1.setHeader HttpRequest.contentLengthKey (digits r.body.length) :=
        if_pos ⟨hb, by rw [hhas, hc]; rfl⟩
      rw [h2, setHeader_hasHeader_self, setHeader_getHeader_self, hhas, hc, if_pos hb]
      rfl

/-- A completed response closes the connection if its handler said so, or left it to the request and
the request did. -/
theorem complete_isShortConnection : (r.complete req).isShortConnection =
    if r.hasHeader connectionKey then r.isShortConnection else req.isShortConnection := by
  obtain ⟨hhas, hget⟩ := r.complete_connection req
  rw [isShortConnection, hhas, hget, Bool.true_and]
  cases hc : r.hasHeader connectionKey with
  | true => simp only [if_true, isShortConnection, hc, Bool.true_and]
  | false =>
    cases req.isShortConnection
    · simp
    · simp only [Bool.false_eq_true, if_false, if_true]
      decide

end Complete

end HttpResponse

end Flux
