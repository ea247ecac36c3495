import Flux.Lib.Lexical
import Flux.Http.Util

/-!
# Static files and the base directory

`IsFileHandler` decides on the request path alone, by the level count of `ValidPath`;
`FileHandler` opens the base directory with the path glued to it.  Whether that name stays below
the base directory is a question about walking: `resolve` drops empty components and `"."` and lets
each `".."` remove the component before it, as a file system without symbolic links does.

The two readings differ.  `ValidPath` counts a `"."` as a level gained, it sees no pieces at all in
a path without a `'/'`, and it knows nothing of a path whose first component is glued to the last
one of the base directory.  `Stays` says exactly which paths stay inside all the same, and
`isFileHandler_confined_iff` that these are the ones the server is safe on.

The count is never below the true depth, so the other way round nothing is wrong: a path that is
refused does climb (`validPath_false`).
-/

namespace Flux

open Lib

def dot : Bytes := ascii ['.']

/-- The moves a list of components stands for: `"."` stays in place. -/
def moves (comps : List Bytes) : List (Move Bytes) :=
  comps.filterMap fun c =>
    if c = dot then none else if c = Util.dotdot then some .up else some (.into c)

def resolve (name : Bytes) : List Bytes := walk [] (moves (Util.pieces Util.slash name))

/-- A base directory: an absolute, normalised path without a trailing slash, as its components. -/
structure BaseDir where
  comps : List Bytes
  ne_nil : comps ≠ []
  plain : ∀ c ∈ comps, c ≠ [] ∧ Util.slash ∉ c ∧ (0 : UInt8) ∉ c ∧ c ≠ dot ∧ c ≠ Util.dotdot

namespace BaseDir

def path (base : BaseDir) : Bytes := base.comps.flatMap (Util.slash :: ·)

/-- The name has the base directory as a whole-component prefix once it is resolved. -/
def Contains (base : BaseDir) (name : Bytes) : Prop := base.comps <+: resolve name

instance (base : BaseDir) (name : Bytes) : Decidable (base.Contains name) :=
  inferInstanceAs (Decidable (_ <+: _))

end BaseDir

namespace HttpServer

def indexHtml : Bytes := ascii ['i', 'n', 'd', 'e', 'x', '.', 'h', 't', 'm', 'l']

/-- `req_path` of `IsFileHandler` and of `FileHandler`, which build it alike. -/
def requestFile (basedir path : Bytes) : Bytes :=
  if (basedir ++ path).getLast? = some Util.slash then basedir ++ path ++ indexHtml
  else basedir ++ path

/-- `IsFileHandler`; `isRegular` is what `Util::IsRegular` finds in the file system. -/
def isFileHandler (isRegular : Bytes → Bool) (basedir : Bytes) (req : HttpRequest) : Bool :=
  if basedir = [] then false
  else if req.method ≠ ascii ['G', 'E', 'T'] ∧ req.method ≠ ascii ['H', 'E', 'A', 'D'] then false
  else if !Util.validPath req.path then false
  else if !isRegular (requestFile basedir req.path) then false
  else true

/-- The part of a name the kernel sees: a `std::string` is opened through its C string. -/
def cString (name : Bytes) : Bytes := name.takeWhile (· ≠ 0)

/-- What does not depend on the file system in the decision of `IsFileHandler`. -/
def Served (req : HttpRequest) : Prop :=
  (req.method = ascii ['G', 'E', 'T'] ∨ req.method = ascii ['H', 'E', 'A', 'D']) ∧
    Util.validPath req.path = true

/-- The request path with the index file appended where the server appends it. -/
def indexed (path : Bytes) : Bytes :=
  if path.getLast? = some Util.slash then path ++ indexHtml else path

/-- A path without its first component, from the slash behind it on. -/
def afterHead (q : Bytes) : Bytes := q.dropWhile (· ≠ Util.slash)

/-- **The paths that stay inside a base directory.**  Read on its own, a path goes up a number of
levels once every `".."` is cancelled against an ordinary component before it, and then down some
names.  An empty path or one that starts with a slash must come back down the names of the base
directory it went up.  Any other path has its first component glued to the last name of the base
directory, so what follows must go up at least once, and come back the same way. -/
def Stays (base : List Bytes) (q : Bytes) : Prop :=
  if q = [] ∨ q.head? = some Util.slash then
    base.rtake (net (moves (Util.pieces Util.slash q))).1 <+:
      (net (moves (Util.pieces Util.slash q))).2
  else
    0 < (net (moves (Util.pieces Util.slash (afterHead q)))).1 ∧
      base.rtake (net (moves (Util.pieces Util.slash (afterHead q)))).1 <+:
        (net (moves (Util.pieces Util.slash (afterHead q)))).2

instance (base : List Bytes) (q : Bytes) : Decidable (Stays base q) :=
  inferInstanceAs (Decidable (ite _ _ _))

end HttpServer

/-! ### What `ValidPath` refuses -/

/-- The true depth is counted one component at a time. -/
theorem depth_moves_cons (c : Bytes) (comps : List Bytes) :
    depth (moves (c :: comps)) =
      (if c = dot then 0 else if c = Util.dotdot then -1 else 1) + depth (moves comps) := by
  have hmoves : moves (c :: comps) =
      (if c = dot then [] else if c = Util.dotdot then [.up] else [.into c]) ++ moves comps := by
    rw [moves, List.filterMap_cons]
    split_ifs <;> rfl
  rw [hmoves]
  split_ifs <;> simp only [List.nil_append, List.singleton_append, depth] <;> omega

/-- Where the loop gives up, the true depth is below zero as well: the loop has counted at least as
much. -/
theorem levels_false {level : Int} {comps : List Bytes} (h : Util.levels level comps = false) :
    ∃ pre, pre <+: comps ∧ level + depth (moves pre) < 0 := by
  induction comps generalizing level with
  | nil => exact absurd h (by simp [Util.levels])
  | cons c comps ih =>
    rw [Util.levels] at h
    by_cases hup : c = Util.dotdot
    · have hstep : ∀ pre, depth (moves (c :: pre)) = -1 + depth (moves pre) := by
        intro pre
        rw [depth_moves_cons, if_neg (by rw [hup]; decide), if_pos hup]
      rw [if_pos hup] at h
      by_cases hlow : level - 1 < 0
      · have hone : depth (moves [c]) = -1 := hstep []
        exact ⟨[c], List.prefix_append [c] comps, by omega⟩
      · rw [if_neg hlow] at h
        obtain ⟨pre, hpre, hlt⟩ := ih h
        have hc := hstep pre
        exact ⟨c :: pre, List.cons_prefix_cons.mpr ⟨rfl, hpre⟩, by omega⟩
    · rw [if_neg hup] at h
      obtain ⟨pre, hpre, hlt⟩ := ih h
      -- a `"."` gains nothing, though the loop counts a level for it
      have hc : depth (moves (c :: pre)) ≤ 1 + depth (moves pre) := by
        rw [depth_moves_cons, if_neg hup]
        split <;> omega
      exact ⟨c :: pre, List.cons_prefix_cons.mpr ⟨rfl, hpre⟩, by omega⟩

/-- Without a slash there is nothing to refuse. -/
theorem levels_of_validPath {path : Bytes} (h : Util.validPath path = false) :
    Util.levels 0 (Util.pieces Util.slash path) = false := by
  rw [Util.validPath_eq] at h
  by_cases hs : Util.slash ∈ path
  · rwa [if_pos hs] at h
  · rw [if_neg hs] at h
    exact absurd h (by simp [Util.levels])

/-- **`ValidPath` refuses no legitimate path.**  Some of the components of a path that is refused,
read from the left, climb above the root. -/
theorem validPath_false (path : Bytes) (h : Util.validPath path = false) :
    ∃ pre, pre <+: Util.pieces Util.slash path ∧ depth (moves pre) < 0 := by
  obtain ⟨pre, hpre, hlt⟩ := levels_false (levels_of_validPath h)
  exact ⟨pre, hpre, by omega⟩

/-- `/a/../..`. -/
theorem validPath_false_parent :
    ∃ pre, pre <+: Util.pieces Util.slash (ascii ['/', 'a', '/', '.', '.', '/', '.', '.']) ∧
      depth (moves pre) < 0 :=
  validPath_false _ (by rw [Util.validPath_eq]; decide)

/-- A file below the base directory is not refused for its path: one that never goes above the root,
dots and doubled slashes included, is accepted. -/
theorem validPath_of_below {path : Bytes} (h : (net (moves (Util.pieces Util.slash path))).1 = 0) :
    Util.validPath path = true := by
  by_contra hno
  obtain ⟨pre, hpre, hlt⟩ := levels_false (levels_of_validPath (Bool.eq_false_iff.mpr hno))
  have hpos : 0 < (net (moves (Util.pieces Util.slash path))).1 :=
    (net_pos_iff _).mpr ⟨moves pre, hpre.filterMap _, by omega⟩
  omega

/-! ### Components of a glued name -/

theorem pieces_slash_cons (v : Bytes) :
    Util.pieces Util.slash (Util.slash :: v) = Util.pieces Util.slash v :=
  Util.pieces_append_cons Util.slash [] v

/-- A component in front of the empty string or of a slash is the first piece. -/
theorem pieces_component {w r : Bytes} (hw : w ≠ []) (hs : Util.slash ∉ w)
    (hr : r = [] ∨ r.head? = some Util.slash) :
    Util.pieces Util.slash (w ++ r) = w :: Util.pieces Util.slash r := by
  rcases hr with rfl | hr
  · rw [List.append_nil, Util.pieces_of_notMem hs, if_neg hw]
    rfl
  · obtain ⟨v, rfl⟩ : ∃ v, r = Util.slash :: v := by
      cases r with
      | nil => exact absurd hr (by simp)
      | cons x v => exact ⟨v, by rw [List.head?_cons, Option.some.injEq] at hr; rw [hr]⟩
    rw [Util.pieces_append_cons, Util.pieces_of_notMem hs, if_neg hw, pieces_slash_cons]
    rfl

theorem exists_head {q : Bytes} (hq : q ≠ []) (hs : q.head? ≠ some Util.slash) :
    ∃ f, f ≠ [] ∧ Util.slash ∉ f ∧ q = f ++ HttpServer.afterHead q ∧
      (HttpServer.afterHead q = [] ∨ (HttpServer.afterHead q).head? = some Util.slash) := by
  refine ⟨q.takeWhile (· ≠ Util.slash), ?_, fun h => by simpa using List.mem_takeWhile_imp h,
    List.takeWhile_append_dropWhile.symm, ?_⟩
  · cases q with
    | nil => exact absurd rfl hq
    | cons a q =>
      rw [List.head?_cons, ne_eq, Option.some.injEq] at hs
      rw [List.takeWhile_cons, if_pos (by simpa using hs)]
      exact List.cons_ne_nil _ _
  · cases hd : HttpServer.afterHead q with
    | nil => exact Or.inl rfl
    | cons a r =>
      rw [HttpServer.afterHead] at hd
      have ha := List.head_dropWhile_not (p := (· ≠ Util.slash)) (l := q) (by rw [hd]; simp)
      simp only [hd, List.head_cons] at ha
      exact Or.inr (by simpa using ha)

theorem flatMap_slash_head (cs : List Bytes) :
    cs.flatMap (Util.slash :: ·) = [] ∨
      (cs.flatMap (Util.slash :: ·)).head? = some Util.slash := by
  cases cs with
  | nil => exact Or.inl rfl
  | cons c cs => exact Or.inr rfl

theorem append_head_slash {u q : Bytes} (hu : u = [] ∨ u.head? = some Util.slash)
    (hq : q = [] ∨ q.head? = some Util.slash) :
    u ++ q = [] ∨ (u ++ q).head? = some Util.slash := by
  rcases hu with rfl | hu
  · rwa [List.nil_append]
  · exact Or.inr (by rw [List.head?_append, hu]; rfl)

theorem pieces_flatMap_append {cs : List Bytes} (h : ∀ c ∈ cs, c ≠ [] ∧ Util.slash ∉ c) {q : Bytes}
    (hq : q = [] ∨ q.head? = some Util.slash) :
    Util.pieces Util.slash (cs.flatMap (Util.slash :: ·) ++ q) =
      cs ++ Util.pieces Util.slash q := by
  induction cs with
  | nil => rfl
  | cons c cs ih =>
    obtain ⟨hc, hs⟩ := h c (by simp)
    rw [List.flatMap_cons, List.cons_append, List.cons_append, pieces_slash_cons, List.append_assoc,
      pieces_component hc hs (append_head_slash (flatMap_slash_head cs) hq),
      ih fun d hd => h d (List.mem_cons_of_mem c hd), List.cons_append]

theorem moves_append_plain {cs : List Bytes} (h : ∀ c ∈ cs, c ≠ dot ∧ c ≠ Util.dotdot)
    (rest : List Bytes) : moves (cs ++ rest) = cs.map .into ++ moves rest := by
  induction cs with
  | nil => rfl
  | cons c cs ih =>
    obtain ⟨h1, h2⟩ := h c (by simp)
    have hrest := ih fun d hd => h d (List.mem_cons_of_mem c hd)
    rw [moves] at hrest ⊢
    rw [List.cons_append, List.filterMap_cons_some (by rw [if_neg h1, if_neg h2]), hrest]
    rfl

theorem walk_map_into (s cs : List Bytes) (ms : List (Move Bytes)) :
    walk s (cs.map .into ++ ms) = walk (s ++ cs) ms := by
  induction cs generalizing s with
  | nil => rw [List.append_nil]; rfl
  | cons c cs ih => rw [List.map_cons, List.cons_append, walk, ih, List.append_assoc]; rfl

/-! ### Inside the base directory -/

namespace BaseDir

variable (base : BaseDir)

theorem resolve_append {q : Bytes} (hq : q = [] ∨ q.head? = some Util.slash) :
    resolve (base.path ++ q) = walk base.comps (moves (Util.pieces Util.slash q)) := by
  rw [resolve, path,
    pieces_flatMap_append (fun c hc => ⟨(base.plain c hc).1, (base.plain c hc).2.1⟩) hq,
    moves_append_plain (fun c hc => (base.plain c hc).2.2.2), walk_map_into, List.nil_append]

theorem exists_last : ∃ i l, base.comps = i ++ [l] :=
  ⟨_, _, (List.dropLast_append_getLast base.ne_nil).symm⟩

/-- A component glued to the last name of the base directory is an ordinary one. -/
theorem glued_plain {l f : Bytes} (hl : l ∈ base.comps) (hf : f ≠ []) :
    l ++ f ≠ dot ∧ l ++ f ≠ Util.dotdot := by
  obtain ⟨hne, _, _, hdot, _⟩ := base.plain l hl
  cases l with
  | nil => exact absurd rfl hne
  | cons a l =>
    cases f with
    | nil => exact absurd rfl hf
    | cons b f =>
      constructor
      · intro h
        simp [dot, ascii] at h
      · intro h
        simp only [Util.dotdot, ascii, List.map_cons, List.map_nil, List.cons_append,
          List.cons.injEq] at h
        obtain ⟨ha, h⟩ := h
        cases l with
        | nil => exact hdot (by rw [ha]; rfl)
        | cons c l => simp at h

theorem resolve_glued {i : List Bytes} {l q : Bytes} (hb : base.comps = i ++ [l]) (hq : q ≠ [])
    (hs : q.head? ≠ some Util.slash) :
    ∃ x, l ≠ x ∧ resolve (base.path ++ q) =
      walk (i ++ [x]) (moves (Util.pieces Util.slash (HttpServer.afterHead q))) := by
  have hmem : ∀ c ∈ i, c ∈ base.comps := fun c hc => by rw [hb]; simp [hc]
  have hl : l ∈ base.comps := by rw [hb]; simp
  obtain ⟨f, hf, hfs, hqf, hr⟩ := exists_head hq hs
  refine ⟨l ++ f, fun h => hf (List.self_eq_append_right.mp h), ?_⟩
  have hpath : base.path ++ q =
      i.flatMap (Util.slash :: ·) ++ Util.slash :: (l ++ f ++ HttpServer.afterHead q) := by
    rw [path, hb, List.append_assoc l, ← hqf]
    simp
  rw [resolve, hpath, pieces_flatMap_append (fun c hc =>
      ⟨(base.plain c (hmem c hc)).1, (base.plain c (hmem c hc)).2.1⟩) (Or.inr rfl),
    pieces_slash_cons, pieces_component (fun h => hf (List.append_eq_nil_iff.mp h).2) _ hr,
    List.append_cons, moves_append_plain, walk_map_into, List.nil_append]
  · intro c hc
    rcases List.mem_append.mp hc with hc | hc
    · exact (base.plain c (hmem c hc)).2.2.2
    · rw [List.mem_singleton.mp hc]
      exact base.glued_plain hl hf
  · rw [List.mem_append, not_or]
    exact ⟨(base.plain l hl).2.1, hfs⟩

/-- **A name stays inside the base directory exactly when what is glued to it is a path that
stays.** -/
theorem contains_append_iff (q : Bytes) :
    base.Contains (base.path ++ q) ↔ HttpServer.Stays base.comps q := by
  rw [Contains, HttpServer.Stays]
  by_cases hq : q = [] ∨ q.head? = some Util.slash
  · rw [if_pos hq, base.resolve_append hq, prefix_walk_iff]
  · rw [if_neg hq]
    rw [not_or] at hq
    obtain ⟨i, l, hb⟩ := base.exists_last
    obtain ⟨x, hx, hres⟩ := base.resolve_glued hb hq.1 hq.2
    rw [hres, hb, prefix_walk_sibling_iff hx]

theorem path_getLast_ne : base.path.getLast? ≠ some Util.slash := by
  obtain ⟨i, l, hb⟩ := base.exists_last
  obtain ⟨hne, hs, _⟩ := base.plain l (by rw [hb]; simp)
  have hl : base.path = (i.flatMap (Util.slash :: ·) ++ [Util.slash]) ++ l := by
    rw [path, hb]
    simp
  rw [hl, List.getLast?_append_of_ne_nil _ hne]
  intro h
  exact hs (List.mem_of_getLast? h)

theorem path_ne_nil : base.path ≠ [] := by
  obtain ⟨i, l, hb⟩ := base.exists_last
  rw [path, hb]
  simp

theorem nul_notMem_path : (0 : UInt8) ∉ base.path := by
  rw [path, List.mem_flatMap]
  rintro ⟨c, hc, h⟩
  rcases List.mem_cons.mp h with h | h
  · exact absurd h (by decide)
  · exact (base.plain c hc).2.2.1 h

theorem requestFile_eq (p : Bytes) :
    HttpServer.requestFile base.path p = base.path ++ HttpServer.indexed p := by
  have hlast : (base.path ++ p).getLast? = some Util.slash ↔ p.getLast? = some Util.slash := by
    by_cases hp : p = []
    · subst hp
      rw [List.append_nil]
      exact ⟨fun h => absurd h base.path_getLast_ne, fun h => absurd h (by simp)⟩
    · rw [List.getLast?_append_of_ne_nil _ hp]
  unfold HttpServer.requestFile HttpServer.indexed
  by_cases h : p.getLast? = some Util.slash
  · rw [if_pos (hlast.mpr h), if_pos h, List.append_assoc]
  · rw [if_neg (mt hlast.mp h), if_neg h]

theorem cString_path_append (q : Bytes) :
    HttpServer.cString (base.path ++ q) = base.path ++ HttpServer.cString q := by
  refine List.takeWhile_append_of_pos ?_
  intro a ha
  simpa using fun h : a = 0 => base.nul_notMem_path (h ▸ ha)

end BaseDir

/-! ### The decision -/

namespace HttpServer

theorem isFileHandler_iff (base : BaseDir) (isRegular : Bytes → Bool) (req : HttpRequest) :
    isFileHandler isRegular base.path req = true ↔
      Served req ∧ isRegular (requestFile base.path req.path) = true := by
  unfold isFileHandler Served
  rw [if_neg base.path_ne_nil]
  by_cases hm : req.method = ascii ['G', 'E', 'T'] ∨ req.method = ascii ['H', 'E', 'A', 'D']
  · rw [if_neg fun h => hm.elim h.1 h.2]
    cases Util.validPath req.path <;> cases isRegular (requestFile base.path req.path) <;> simp [hm]
  · rw [if_pos (not_or.mp hm)]
    simp [hm]

/-- **Static files stay inside the base directory exactly on these requests.**  Whatever the file
system reports as a regular file, every name `FileHandler` opens for an accepted request has the
base directory as a whole-component prefix, if and only if the method or `ValidPath` turns the
request down or its path, index file included, is one that stays.  The second half is about the name
as the kernel reads it, up to its first NUL byte. -/
theorem isFileHandler_confined_iff (base : BaseDir) (req : HttpRequest) :
    ((∀ isRegular, isFileHandler isRegular base.path req = true →
        base.Contains (requestFile base.path req.path)) ↔
      ¬ Served req ∨ Stays base.comps (indexed req.path)) ∧
    ((∀ isRegular, isFileHandler isRegular base.path req = true →
        base.Contains (cString (requestFile base.path req.path))) ↔
      ¬ Served req ∨ Stays base.comps (cString (indexed req.path))) := by
  have hacc : ∀ P : Prop, (∀ isRegular, isFileHandler isRegular base.path req = true → P) ↔
      ¬ Served req ∨ P := by
    intro P
    constructor
    · intro h
      by_cases hs : Served req
      · exact Or.inr (h (fun _ => true) ((isFileHandler_iff base _ req).mpr ⟨hs, rfl⟩))
      · exact Or.inl hs
    · rintro (hs | hp) isRegular h
      · exact absurd ((isFileHandler_iff base isRegular req).mp h).1 hs
      · exact hp
  rw [hacc, hacc, base.requestFile_eq, base.cString_path_append, base.contains_append_iff,
    base.contains_append_iff]
  exact ⟨Iff.rfl, Iff.rfl⟩

/-- `GET /./../etc`: the `"."` pays for the `".."`, so a file next to `/www` is served. -/
theorem isFileHandler_escapes :
    ¬ ∀ (base : BaseDir) (req : HttpRequest) (isRegular : Bytes → Bool),
      isFileHandler isRegular base.path req = true →
        base.Contains (requestFile base.path req.path) := by
  intro h
  have hout := h ⟨[ascii ['w', 'w', 'w']], by decide, by decide⟩
    { HttpRequest.new with
      method := ascii ['G', 'E', 'T']
      path := ascii ['/', '.', '/', '.', '.', '/', 'e', 't', 'c'] } (fun _ => true)
    ((isFileHandler_iff _ _ _).mpr ⟨⟨Or.inl rfl, by rw [Util.validPath_eq]; decide⟩, rfl⟩)
  revert hout
  decide

end HttpServer

end Flux
