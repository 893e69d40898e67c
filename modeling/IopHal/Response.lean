import IopHal.Bytes

/-!
# Responses

`iop_hal::Response` with its four constructors, the partial map from codes to statuses, and the collected headers: a
map that keeps the first value emplaced under a key (`lookup_emplace`) and is looked up in lower case.
-/

namespace IopHal

inductive NetworkStatus
  | ioError
  | brokenServer
  | brokenClient
  | ok
  | unauthorized
  deriving DecidableEq

def NetworkStatus.value : NetworkStatus → Nat
  | ioError => 0
  | brokenServer => 500
  | brokenClient => 400
  | ok => 200
  | unauthorized => 401

def networkStatus (code : Int) : Option NetworkStatus :=
  if code = 200 then some .ok
  else if code = 500 then some .brokenServer
  else if code = 401 then some .unauthorized
  else none

/-! ### Header maps -/

/-- An `unordered_map` of strings.  The order of the list is the iteration order, which the source leaves open. -/
abbrev Headers := List (Bytes × Bytes)

/-- `emplace`: a key that is there keeps its value. -/
def Headers.emplace (m : Headers) (key value : Bytes) : Headers :=
  if (m.lookup key).isSome then m else m ++ [(key, value)]

theorem Headers.lookup_cons (m : Headers) (k v key : Bytes) :
    ((k, v) :: m).lookup key = if key = k then some v else m.lookup key := by
  rw [List.lookup_cons]
  by_cases hkey : key = k
  · have hbeq : (key == k) = true := by simpa using hkey
    rw [hbeq, if_pos hkey]
  · have hbeq : (key == k) = false := by simpa using hkey
    rw [hbeq, if_neg hkey]

theorem Headers.lookup_emplace (m : Headers) (key value k : Bytes) :
    (m.emplace key value).lookup k = if k = key then (m.lookup key).or (some value) else m.lookup k := by
  unfold emplace
  by_cases hm : (m.lookup key).isSome
  · obtain ⟨v, hv⟩ := Option.isSome_iff_exists.1 hm
    by_cases hk : k = key <;> simp [hk, hv]
  · have hn : m.lookup key = none := Option.not_isSome_iff_eq_none.1 hm
    by_cases hk : k = key
    · simp [hk, hn, List.lookup_append]
    · simp [hn, hk, List.lookup_append]

theorem Headers.nodup_emplace {m : Headers} (h : (m.map Prod.fst).Nodup) (key value : Bytes) :
    ((m.emplace key value).map Prod.fst).Nodup := by
  unfold emplace
  split
  · exact h
  · rename_i hnew
    rw [List.map_append, List.nodup_append]
    refine ⟨h, List.nodup_singleton _, ?_⟩
    rintro k hk k' hk' rfl
    obtain ⟨p, hp, rfl⟩ := List.mem_map.1 hk
    apply hnew
    rw [List.lookup_isSome_iff]
    exact ⟨p, hp, by simpa using (List.mem_singleton.1 hk').symm⟩

/-- `emplace` of one pair after the other -/
def Headers.emplaceAll (m : Headers) (pairs : List (Bytes × Bytes)) : Headers :=
  pairs.foldl (fun m f => m.emplace f.1 f.2) m

/-- Of all values under a key, the first one stays. -/
theorem Headers.lookup_emplaceAll (m : Headers) (pairs : List (Bytes × Bytes)) (key : Bytes) :
    (m.emplaceAll pairs).lookup key = (m.lookup key).or (pairs.lookup key) := by
  induction pairs generalizing m with
  | nil => exact Option.or_none.symm
  | cons f pairs ih =>
    obtain ⟨k, v⟩ := f
    show ((m.emplace k v).emplaceAll pairs).lookup key = _
    rw [ih, lookup_emplace, lookup_cons]
    by_cases hkey : key = k
    · rw [if_pos hkey, if_pos hkey, Option.or_assoc, hkey, Option.some_or]
    · rw [if_neg hkey, if_neg hkey]

theorem Headers.nodup_emplaceAll {m : Headers} (h : (m.map Prod.fst).Nodup) (pairs : List (Bytes × Bytes)) :
    ((m.emplaceAll pairs).map Prod.fst).Nodup := by
  induction pairs generalizing m with
  | nil => exact h
  | cons f pairs ih => exact ih (nodup_emplace h f.1 f.2)

theorem Headers.mem_emplaceAll {m : Headers} {pairs : List (Bytes × Bytes)} {f : Bytes × Bytes}
    (h : f ∈ m.emplaceAll pairs) : f ∈ m ∨ f ∈ pairs := by
  induction pairs generalizing m with
  | nil => exact Or.inl h
  | cons g pairs ih =>
    rcases ih h with h | h
    · have h : f ∈ m.emplace g.1 g.2 := h
      unfold emplace at h
      split at h
      · exact Or.inl h
      · rcases List.mem_append.1 h with h | h
        · exact Or.inl h
        · exact Or.inr (List.mem_cons.2 (Or.inl (List.mem_singleton.1 h)))
    · exact Or.inr (List.mem_cons_of_mem _ h)

/-- Without a key twice, the order is not seen by `lookup`. -/
theorem Headers.lookup_perm {m m' : Headers} (h : m.Perm m') (hnodup : (m.map Prod.fst).Nodup) (key : Bytes) :
    m.lookup key = m'.lookup key := by
  induction h with
  | nil => rfl
  | cons p _ ih =>
    obtain ⟨k, v⟩ := p
    rw [List.map_cons, List.nodup_cons] at hnodup
    rw [lookup_cons, lookup_cons, ih hnodup.2]
  | swap p q m =>
    obtain ⟨k, v⟩ := p
    obtain ⟨l, w⟩ := q
    rw [List.map_cons, List.map_cons, List.nodup_cons, List.mem_cons, not_or] at hnodup
    rw [lookup_cons, lookup_cons, lookup_cons, lookup_cons]
    by_cases hl : key = l
    · have hk : ¬ key = k := by
        rw [hl]
        exact hnodup.1.1
      rw [if_neg hk, if_neg hk]
    · rw [if_neg hl, if_neg hl]
  | trans hfirst _ ih ih' => exact (ih hnodup).trans (ih' ((hfirst.map _).nodup_iff.1 hnodup))

/-! ### Responses -/

structure Response where
  headers : Headers
  promise : Bytes
  code : Int
  status : Option NetworkStatus
  deriving DecidableEq

/-- `Response(payload, status)`.  The code is the status cast to `uint8_t`. -/
def Response.ofPayload (payload : Bytes) (status : NetworkStatus) : Response :=
  ⟨[], payload, status.value % 2 ^ 8, some status⟩

/-- `Response(headers, payload, code)` -/
def Response.ofHeaders (headers : Headers) (payload : Bytes) (code : Int) : Response :=
  ⟨headers, payload, code, networkStatus code⟩

/-- `Response(code)` -/
def Response.ofCode (code : Int) : Response := ⟨[], [], code, networkStatus code⟩

/-- `Response(status)` -/
def Response.ofStatus (status : NetworkStatus) : Response := ⟨[], [], status.value % 2 ^ 8, some status⟩

def Response.header (r : Response) (key : StaticString) : Option Bytes := r.headers.lookup (lower key.text)

/-- Two responses that no caller can tell apart. -/
def Response.Same (r r' : Response) : Prop :=
  r.code = r'.code ∧ r.status = r'.status ∧ r.promise = r'.promise ∧ ∀ key, r.header key = r'.header key

theorem Response.Same.refl (r : Response) : r.Same r := ⟨rfl, rfl, rfl, fun _ => rfl⟩

end IopHal
