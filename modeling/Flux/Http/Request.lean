import Flux.Reactor.Buffer

/-!
# `HttpRequest`

The parsed request.  Its two `unordered_map`s are association lists in which the first
value of a key stays, as `unordered_map::insert` has it; nothing in the server depends on
their iteration order.
-/

namespace Flux

def ascii (s : List Char) : Bytes := s.map fun c => c.toNat.toUInt8

abbrev StringMap := List (Bytes × Bytes)

/-- `unordered_map::insert`: a key that is there keeps its value. -/
def StringMap.insert (m : StringMap) (key value : Bytes) : StringMap :=
  if m.any (·.1 == key) then m else m ++ [(key, value)]

/-- `find`, with the empty string for a key that is not there. -/
def StringMap.get (m : StringMap) (key : Bytes) : Bytes :=
  ((m.find? (·.1 == key)).map (·.2)).getD []

def StringMap.has (m : StringMap) (key : Bytes) : Bool := m.any (·.1 == key)

namespace StringMap

section Insert

variable (m : StringMap) (key value key' : Bytes)

theorem insert_has : (m.insert key value).has key' = (m.has key' || key == key') := by
  unfold StringMap.insert
  split
  · rename_i h
    by_cases hk : key = key'
    · subst hk
      rw [show m.has key = true from h]
      rfl
    · rw [beq_eq_false_iff_ne.mpr hk, Bool.or_false]
  · rw [has, List.any_append, has, List.any_cons, List.any_nil, Bool.or_false]

theorem insert_get_of_ne (h : key ≠ key') : (m.insert key value).get key' = m.get key' := by
  unfold StringMap.insert
  split
  · rfl
  · rw [get, List.find?_append, List.find?_cons_of_neg (by simpa using h), List.find?_nil,
      Option.or_none, get]

theorem insert_get_of_has (h : m.has key' = true) : (m.insert key value).get key' = m.get key' := by
  unfold StringMap.insert
  split
  · rfl
  · obtain ⟨kv, hkv⟩ := Option.isSome_iff_exists.mp (List.find?_isSome.mpr (List.any_eq_true.mp h))
    rw [get, List.find?_append, hkv, Option.some_or, get, hkv]

theorem insert_get_self (h : m.has key = false) : (m.insert key value).get key = value := by
  have hany : m.any (·.1 == key) = false := h
  have hnone : m.find? (·.1 == key) = none := by
    rw [List.find?_eq_none]
    exact fun kv hm hk => List.any_eq_false.mp hany kv hm hk
  rw [StringMap.insert, if_neg (by simp [hany]), get, List.find?_append, hnone, Option.none_or,
    List.find?_cons_of_pos (by simp)]
  rfl

end Insert

/-- **Pairs with new keys are taken one and all.** -/
theorem foldl_insert {m kvs : StringMap} (hd : (kvs.map Prod.fst).Nodup)
    (hnew : ∀ kv ∈ kvs, m.has kv.1 = false) :
    kvs.foldl (fun m kv => m.insert kv.1 kv.2) m = m ++ kvs := by
  induction kvs generalizing m with
  | nil => exact (List.append_nil m).symm
  | cons kv kvs ih =>
    obtain ⟨hno, hd⟩ := List.nodup_cons.mp hd
    have hself : m.any (·.1 == kv.1) = false := hnew kv List.mem_cons_self
    have hins : m.insert kv.1 kv.2 = m ++ [kv] := by
      rw [StringMap.insert, if_neg (by simp [hself])]
    rw [List.foldl_cons, ih hd, hins, List.append_assoc]
    · rfl
    · intro kv' hm
      rw [insert_has, hnew kv' (List.mem_cons_of_mem kv hm), Bool.false_or, beq_eq_false_iff_ne]
      exact fun he => hno (he ▸ List.mem_map_of_mem hm)

end StringMap

structure HttpRequest where
  method : Bytes
  path : Bytes
  version : Bytes
  body : Bytes
  headers : StringMap
  params : StringMap
deriving DecidableEq, Repr

namespace HttpRequest

def defaultVersion : Bytes := ascii ['H', 'T', 'T', 'P', '/', '1', '.', '1']

def new : HttpRequest where
  method := []
  path := []
  version := defaultVersion
  body := []
  headers := []
  params := []

def setHeader (r : HttpRequest) (key value : Bytes) : HttpRequest :=
  { r with headers := r.headers.insert key value }

def hasHeader (r : HttpRequest) (key : Bytes) : Bool := r.headers.has key

def getHeader (r : HttpRequest) (key : Bytes) : Bytes := r.headers.get key

def setParam (r : HttpRequest) (key value : Bytes) : HttpRequest :=
  { r with params := r.params.insert key value }

theorem foldl_setParam (r : HttpRequest) (kvs : StringMap) :
    kvs.foldl (fun r kv => r.setParam kv.1 kv.2) r =
      { r with params := kvs.foldl (fun m kv => m.insert kv.1 kv.2) r.params } := by
  induction kvs generalizing r with
  | nil => rfl
  | cons kv kvs ih => rw [List.foldl_cons, ih]; rfl

end HttpRequest

end Flux
