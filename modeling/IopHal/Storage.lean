import IopHal.Bytes
import IopHal.Library.Patch

/-!
# Storage

`iop_hal::Storage` of the Linux build: the buffer with its two sizes, the unsigned bounds tests, and the load of
`eeprom.dat`.  An access outside of the buffer is undefined behaviour, so a run that returns has made none.

`storage_run` is the simulation over whole runs: the buffer is the initial one with the successful writes replayed, and
every result is what the last write there says (`Permitted`).
-/

namespace IopHal

open Patch

/-- `iop_hal::Storage`: its size, and the memory behind the buffer or a null pointer. -/
structure Storage where
  size : UInt64
  buffer : Option Bytes
  deriving DecidableEq

/-- What the system answers while `setup` runs. -/
structure SetupAnswers where
  allocates : Bool
  -- what the stream delivers up to its end or an error; nothing if the file cannot be opened
  delivers : Option Bytes
  closes : Bool

namespace Storage

/-- The storage of a fresh process. -/
def fresh : Storage := ⟨0, none⟩

/-- `asRef` and `asMut` -/
def asRef (s : Storage) : Outcome Bytes :=
  match s.buffer with
  | none => .panicked (ascii "Allocation failed")
  | some mem => .returned mem

/-- What `istream::read` extracts.  A size that is negative as a `streamsize` gets nothing. -/
def extracted (content : Bytes) (size : UInt64) : Bytes := if size.toNat < 2 ^ 63 then content.take size.toNat else []

/-- `setup` behind the allocation, with the memory behind `buffer`. -/
def load (answers : SetupAnswers) (s : Storage) (mem : Bytes) (size : UInt64) : Outcome (Bool × Storage) :=
  match answers.delivers with
  | none => .returned (false, { s with buffer := some mem })
  | some content =>
    let got := extracted content size
    if mem.length < got.length then .undefined
    else
      let loaded := { s with buffer := some (patch mem 0 got) }
      if got.length < size.toNat then .returned (false, loaded) else .returned (answers.closes, loaded)

def setup (answers : SetupAnswers) (s : Storage) (size : UInt64) : Outcome (Bool × Storage) :=
  if size = 0 then .panicked (ascii "Storage size is zero")
  else
    match s.buffer with
    | some mem => load answers s mem size
    | none =>
      -- no allocator hands out more than the largest signed number of bytes
      if answers.allocates ∧ size.toNat < 2 ^ 63 then
        load answers { s with size := size } (List.replicate size.toNat NUL) size
      else .returned (false, s)

def get (s : Storage) (address : UInt64) : Outcome (Option UInt8) :=
  if address ≥ s.size then .returned none
  else s.asRef.bind fun mem => (mem[address.toNat]?).elim .undefined fun b => .returned (some b)

def set (s : Storage) (address : UInt64) (val : UInt8) : Outcome (Bool × Storage) :=
  if address ≥ s.size then .returned (false, s)
  else
    s.asRef.bind fun mem =>
      if address.toNat < mem.length then .returned (true, { s with buffer := some (mem.set address.toNat val) })
      else .undefined

/-- `read<SIZE>` -/
def read (s : Storage) (SIZE address : UInt64) : Outcome (Option Bytes) :=
  if s.size < SIZE ∨ address ≥ s.size - SIZE then .returned none
  else
    s.asRef.bind fun mem =>
      if address.toNat + SIZE.toNat ≤ mem.length then
        .returned (some ((mem.drop address.toNat).take SIZE.toNat))
      else .undefined

/-- `write<SIZE>` -/
def write (s : Storage) (SIZE address : UInt64) (array : Vector UInt8 SIZE.toNat) : Outcome (Bool × Storage) :=
  if s.size < SIZE ∨ address ≥ s.size - SIZE then .returned (false, s)
  else
    s.asRef.bind fun mem =>
      if address.toNat + SIZE.toNat ≤ mem.length then
        .returned (true, { s with buffer := some (patch mem address.toNat array.toList) })
      else .undefined

/-- The memory of the storage. -/
def bytes (s : Storage) : Bytes := s.buffer.getD []

end Storage

/-! ### Calls -/

inductive StorageCall
  | set (address : UInt64) (val : UInt8)
  | get (address : UInt64)
  | write (SIZE address : UInt64) (array : Vector UInt8 SIZE.toNat)
  | read (SIZE address : UInt64)

inductive StorageResult
  | flag (ok : Bool)
  | byte (b : Option UInt8)
  | block (array : Option Bytes)

def StorageCall.run (s : Storage) : StorageCall → Outcome (StorageResult × Storage)
  | set address val => (s.set address val).bind fun done => .returned (.flag done.1, done.2)
  | get address => (s.get address).bind fun b => .returned (.byte b, s)
  | write SIZE address array => (s.write SIZE address array).bind fun done => .returned (.flag done.1, done.2)
  | read SIZE address => (s.read SIZE address).bind fun array => .returned (.block array, s)

/-- A storage in use, and the calls so far with their results, the last one first. -/
structure StorageRun where
  storage : Storage
  history : List (StorageCall × StorageResult)

def runStorage (r : StorageRun) : List StorageCall → Outcome StorageRun
  | [] => .returned r
  | call :: calls =>
    (call.run r.storage).bind fun done => runStorage ⟨done.2, (call, done.1) :: r.history⟩ calls

/-! ### What a run may do -/

/-- What a call has written. -/
def stored : StorageCall × StorageResult → Option (Nat × Bytes)
  | (.set address val, .flag true) => some (address.toNat, [val])
  | (.write _ address array, .flag true) => some (address.toNat, array.toList)
  | _ => none

/-- The successful writes of a history, the last one first. -/
def writes (history : List (StorageCall × StorageResult)) : List (Nat × Bytes) := history.filterMap stored

/-- The addresses a call names. -/
def StorageCall.Names : StorageCall → Nat → Prop
  | set address _, i => Covers address.toNat 1 i
  | get address, i => Covers address.toNat 1 i
  | write SIZE address _, i => Covers address.toNat SIZE.toNat i
  | read SIZE address, i => Covers address.toNat SIZE.toNat i

/-- The call has returned neither `false` nor `nullopt`. -/
def StorageResult.Ok : StorageResult → Prop
  | flag ok => ok = true
  | byte b => b ≠ none
  | block array => array ≠ none

/-- What a call may return from a memory of `capacity` bytes with the values `value`: what succeeds stays inside, and
what is read are the values. -/
def Permitted (capacity : Nat) (value : Nat → Option UInt8) (call : StorageCall) (result : StorageResult) : Prop :=
  (result.Ok → ∀ i, call.Names i → i < capacity) ∧
    match call, result with
    | .set _ _, .flag _ => True
    | .write _ _ _, .flag _ => True
    | .get address, .byte b => b = value address.toNat
    | .read SIZE address, .block array =>
      ∀ bs, array = some bs → bs.length = SIZE.toNat ∧ ∀ i < SIZE.toNat, bs[i]? = value (address.toNat + i)
    | _, _ => False

/-! ### Single calls -/

/-- The size that the bounds tests use is that of the memory; a null pointer has none. -/
def Storage.Sound (s : Storage) : Prop := s.size.toNat = s.bytes.length

theorem not_ge_iff_toNat_lt {a b : UInt64} : ¬ a ≥ b ↔ a.toNat < b.toNat := by
  rw [ge_iff_le, UInt64.not_le, UInt64.lt_iff_toNat_lt]

/-- The bounds test of a block.  The difference does not wrap, since it is taken behind the first test. -/
theorem block_fits {size SIZE address : UInt64} (h : ¬ (size < SIZE ∨ address ≥ size - SIZE)) :
    address.toNat + SIZE.toNat < size.toNat := by
  rw [not_or, not_ge_iff_toNat_lt] at h
  obtain ⟨hsize, haddress⟩ := h
  rw [UInt64.lt_iff_toNat_lt, Nat.not_lt] at hsize
  rw [UInt64.toNat_sub_of_le _ _ (UInt64.le_iff_toNat_le.2 hsize)] at haddress
  omega

namespace Storage

variable {s : Storage}

theorem isSome_of_lt {i : Nat} (h : i < s.bytes.length) : s.buffer.isSome := by
  unfold bytes at h
  cases hbuffer : s.buffer with
  | none =>
    rw [hbuffer] at h
    exact absurd h (Nat.not_lt_zero i)
  | some mem => rfl

/-- Behind a bounds test there is a buffer. -/
theorem asRef_of_lt {i : Nat} (h : i < s.bytes.length) : s.asRef = .returned s.bytes := by
  obtain ⟨mem, hmem⟩ := Option.isSome_iff_exists.1 (isSome_of_lt h)
  unfold asRef bytes
  rw [hmem]
  rfl

theorem byte_inside (hs : s.Sound) {address : UInt64} (h : ¬ address ≥ s.size) : address.toNat < s.bytes.length := by
  rw [← hs]
  exact not_ge_iff_toNat_lt.1 h

theorem block_inside (hs : s.Sound) {SIZE address : UInt64} (h : ¬ (s.size < SIZE ∨ address ≥ s.size - SIZE)) :
    address.toNat + SIZE.toNat < s.bytes.length := by
  rw [← hs]
  exact block_fits h

theorem get_eq (hs : s.Sound) (address : UInt64) : s.get address = .returned s.bytes[address.toNat]? := by
  unfold get
  by_cases h : address ≥ s.size
  · have hout : s.bytes.length ≤ address.toNat := by
      rw [← hs]
      exact UInt64.le_iff_toNat_le.1 h
    rw [if_pos h, List.getElem?_eq_none hout]
  · have hin : address.toNat < s.bytes.length := byte_inside hs h
    rw [if_neg h, asRef_of_lt hin, Outcome.bind_returned, List.getElem?_eq_getElem hin]
    rfl

theorem set_cases (hs : s.Sound) (address : UInt64) (val : UInt8) :
    s.set address val = .returned (false, s) ∨
      address.toNat < s.bytes.length ∧
        s.set address val = .returned (true, { s with buffer := some (patch s.bytes address.toNat [val]) }) := by
  unfold set
  by_cases h : address ≥ s.size
  · left
    rw [if_pos h]
  · right
    have hin : address.toNat < s.bytes.length := byte_inside hs h
    refine ⟨hin, ?_⟩
    rw [if_neg h, asRef_of_lt hin, Outcome.bind_returned, if_pos hin, set_eq_patch hin]

theorem read_cases (hs : s.Sound) (SIZE address : UInt64) :
    s.read SIZE address = .returned none ∨
      address.toNat + SIZE.toNat < s.bytes.length ∧
        s.read SIZE address = .returned (some ((s.bytes.drop address.toNat).take SIZE.toNat)) := by
  unfold read
  by_cases h : s.size < SIZE ∨ address ≥ s.size - SIZE
  · left
    rw [if_pos h]
  · right
    have hin : address.toNat + SIZE.toNat < s.bytes.length := block_inside hs h
    refine ⟨hin, ?_⟩
    rw [if_neg h, asRef_of_lt hin, Outcome.bind_returned, if_pos hin.le]

theorem write_cases (hs : s.Sound) (SIZE address : UInt64) (array : Vector UInt8 SIZE.toNat) :
    s.write SIZE address array = .returned (false, s) ∨
      address.toNat + SIZE.toNat < s.bytes.length ∧
        s.write SIZE address array =
          .returned (true, { s with buffer := some (patch s.bytes address.toNat array.toList) }) := by
  unfold write
  by_cases h : s.size < SIZE ∨ address ≥ s.size - SIZE
  · left
    rw [if_pos h]
  · right
    have hin : address.toNat + SIZE.toNat < s.bytes.length := block_inside hs h
    refine ⟨hin, ?_⟩
    rw [if_neg h, asRef_of_lt hin, Outcome.bind_returned, if_pos hin.le]

theorem sound_patch (hs : s.Sound) {start : Nat} {block : Bytes} (h : start + block.length ≤ s.bytes.length) :
    Sound { s with buffer := some (patch s.bytes start block) } := by
  show s.size.toNat = (patch s.bytes start block).length
  rw [length_patch h]
  exact hs

end Storage

/-- All that one call does to a storage. -/
structure CallSpec (s : Storage) (call : StorageCall) (result : StorageResult) (t : Storage) : Prop where
  sound : t.Sound
  allocated : t.buffer.isSome = s.buffer.isSome
  bytes : t.bytes = replay s.bytes (stored (call, result)).toList
  inside : ∀ write ∈ (stored (call, result)).toList, write.1 + write.2.length ≤ s.bytes.length
  permitted : Permitted s.bytes.length (fun i => s.bytes[i]?) call result
  unchanged : ¬ result.Ok → t = s
  frame : ∀ i, ¬ call.Names i → t.bytes[i]? = s.bytes[i]?

section Call

variable {s : Storage}

/-- A call that leaves the storage as it is and stores nothing. -/
theorem callSpec_same (hs : s.Sound) {call : StorageCall} {result : StorageResult}
    (hstored : stored (call, result) = none) (hallowed : Permitted s.bytes.length (fun i => s.bytes[i]?) call result) :
    CallSpec s call result s where
  sound := hs
  allocated := rfl
  bytes := by rw [hstored]; rfl
  inside := by simp [hstored]
  permitted := hallowed
  unchanged := fun _ => rfl
  frame := fun _ _ => rfl

/-- A call that overwrites a block inside the memory. -/
theorem callSpec_patch (hs : s.Sound) (hbuffer : s.buffer.isSome) {call : StorageCall} {start : Nat} {block : Bytes}
    (hstored : stored (call, .flag true) = some (start, block)) (hfits : start + block.length ≤ s.bytes.length)
    (hnames : ∀ i, call.Names i ↔ Covers start block.length i)
    (hallowed : Permitted s.bytes.length (fun i => s.bytes[i]?) call (.flag true)) :
    CallSpec s call (.flag true) { s with buffer := some (patch s.bytes start block) } where
  sound := Storage.sound_patch hs hfits
  allocated := hbuffer.symm
  bytes := by rw [hstored]; rfl
  inside := by simpa [hstored] using hfits
  permitted := hallowed
  unchanged := fun h => absurd rfl h
  frame := by
    intro i hi
    show (patch s.bytes start block)[i]? = s.bytes[i]?
    rw [getElem?_patch hfits, if_neg fun h => hi ((hnames i).2 h)]

theorem StorageCall.run_spec (hs : s.Sound) (call : StorageCall) :
    ∃ result t, call.run s = .returned (result, t) ∧ CallSpec s call result t := by
  cases call with
  | set address val =>
    rcases Storage.set_cases hs address val with h | ⟨hin, h⟩
    · refine ⟨.flag false, s, by rw [run, h]; rfl, callSpec_same hs rfl ⟨?_, trivial⟩⟩
      intro hok
      cases hok
    · refine ⟨.flag true, _, by rw [run, h]; rfl, callSpec_patch hs (Storage.isSome_of_lt hin) rfl hin (fun i => Iff.rfl) ⟨?_, trivial⟩⟩
      intro _ i hi
      exact hi.2.trans_le hin
  | get address =>
    refine ⟨.byte s.bytes[address.toNat]?, s, by rw [run, Storage.get_eq hs]; rfl, callSpec_same hs rfl ⟨?_, rfl⟩⟩
    intro hok i hi
    have hin : address.toNat < s.bytes.length := by
      by_contra hout
      exact hok (List.getElem?_eq_none (Nat.le_of_not_lt hout))
    exact hi.2.trans_le hin
  | write SIZE address array =>
    have hlength : array.toList.length = SIZE.toNat := Vector.length_toList
    rcases Storage.write_cases hs SIZE address array with h | ⟨hin, h⟩
    · refine ⟨.flag false, s, by rw [run, h]; rfl, callSpec_same hs rfl ⟨?_, trivial⟩⟩
      intro hok
      cases hok
    · refine ⟨.flag true, _, by rw [run, h]; rfl,
        callSpec_patch hs (Storage.isSome_of_lt hin) rfl (by rw [hlength]; exact hin.le) ?_ ⟨?_, trivial⟩⟩
      · intro i
        rw [hlength]
        exact Iff.rfl
      · intro _ i hi
        exact hi.2.trans_le hin.le
  | read SIZE address =>
    rcases Storage.read_cases hs SIZE address with h | ⟨hin, h⟩
    · refine ⟨.block none, s, by rw [run, h]; rfl, callSpec_same hs rfl ⟨?_, ?_⟩⟩
      · intro hok
        exact absurd rfl hok
      · intro bs hbs
        cases hbs
    · refine ⟨.block (some ((s.bytes.drop address.toNat).take SIZE.toNat)), s, by rw [run, h]; rfl,
        callSpec_same hs rfl ⟨?_, ?_⟩⟩
      · intro _ i hi
        exact hi.2.trans_le hin.le
      · intro bs hbs
        cases hbs
        constructor
        · rw [List.length_take, List.length_drop]
          omega
        · intro i hi
          exact getElem?_take_drop _ hi

end Call

/-! ### Whole runs -/

/-- What holds of a run that began with the bytes `initial`. -/
structure RunSpec (initial : Bytes) (r : StorageRun) : Prop where
  sound : r.storage.Sound
  bytes : r.storage.bytes = replay initial (writes r.history)
  inside : ∀ write ∈ writes r.history, write.1 + write.2.length ≤ initial.length
  permitted : ∀ recent call result older, r.history = recent ++ (call, result) :: older →
    Permitted initial.length (lastWritten initial (writes older)) call result

section Run

variable {initial : Bytes}

theorem RunSpec.getElem? {r : StorageRun} (h : RunSpec initial r) :
    (fun i => r.storage.bytes[i]?) = lastWritten initial (writes r.history) := by
  funext i
  rw [h.bytes, getElem?_replay h.inside]

theorem RunSpec.length {r : StorageRun} (h : RunSpec initial r) : r.storage.bytes.length = initial.length := by
  rw [h.bytes, length_replay h.inside]

theorem writes_cons (entry : StorageCall × StorageResult) (history : List (StorageCall × StorageResult)) :
    writes (entry :: history) = (stored entry).toList ++ writes history := by
  unfold writes
  cases hentry : stored entry with
  | none => rw [List.filterMap_cons_none hentry]; rfl
  | some write => rw [List.filterMap_cons_some hentry]; rfl

/-- One more call. -/
theorem RunSpec.call {r : StorageRun} (h : RunSpec initial r) {call : StorageCall} {result : StorageResult} {t : Storage}
    (hcall : CallSpec r.storage call result t) : RunSpec initial ⟨t, (call, result) :: r.history⟩ where
  sound := hcall.sound
  bytes := by
    show t.bytes = replay initial (writes ((call, result) :: r.history))
    rw [hcall.bytes, h.bytes, writes_cons, replay, replay, replay, List.foldr_append]
  inside := by
    rw [writes_cons, List.forall_mem_append, ← h.length]
    refine ⟨hcall.inside, ?_⟩
    rw [h.length]
    exact h.inside
  permitted := by
    intro recent c res older hsplit
    cases recent with
    | nil =>
      rw [List.nil_append, List.cons.injEq, Prod.mk.injEq] at hsplit
      obtain ⟨⟨rfl, rfl⟩, rfl⟩ := hsplit
      rw [← h.length, ← h.getElem?]
      exact hcall.permitted
    | cons entry recent =>
      rw [List.cons_append, List.cons.injEq] at hsplit
      exact h.permitted recent c res older hsplit.2

theorem runStorage_spec {r : StorageRun} (h : RunSpec initial r) (calls : List StorageCall) :
    ∃ u, runStorage r calls = .returned u ∧ RunSpec initial u ∧
      u.history.map Prod.fst = calls.reverse ++ r.history.map Prod.fst := by
  induction calls generalizing r with
  | nil => exact ⟨r, rfl, h, rfl⟩
  | cons call calls ih =>
    obtain ⟨result, t, hrun, hcall⟩ := call.run_spec h.sound
    obtain ⟨u, hu, hspec, hcalls⟩ := ih (h.call hcall)
    refine ⟨u, ?_, hspec, ?_⟩
    · rw [runStorage, hrun, Outcome.bind_returned]
      exact hu
    · rw [hcalls, List.reverse_cons, List.append_assoc]
      rfl

end Run

/-! ### From the first `setup` on -/

theorem Storage.load_spec {answers : SetupAnswers} {s t : Storage} {mem : Bytes} {size : UInt64} {ok : Bool}
    (h : load answers s mem size = .returned (ok, t)) : t.size = s.size ∧ t.bytes.length = mem.length := by
  unfold load at h
  cases hdelivers : answers.delivers with
  | none =>
    rw [hdelivers] at h
    cases h
    exact ⟨rfl, rfl⟩
  | some content =>
    rw [hdelivers] at h
    dsimp only at h
    split at h
    · cases h
    · rename_i hfits
      have hlength : (patch mem 0 (extracted content size)).length = mem.length := length_patch (by omega)
      split at h
      · cases h
        exact ⟨rfl, hlength⟩
      · cases h
        exact ⟨rfl, hlength⟩

/-- The first `setup` of a process allocates the size asked for, or nothing. -/
theorem Storage.setup_spec {answers : SetupAnswers} {n : UInt64} {ok : Bool} {s : Storage}
    (h : setup answers fresh n = .returned (ok, s)) : s.Sound ∧ (s.bytes.length = n.toNat ∧ n.toNat < 2 ^ 63 ∨ s = fresh) := by
  unfold setup at h
  split at h
  · cases h
  · dsimp only [fresh] at h
    split at h
    · rename_i hallocates
      obtain ⟨hsize, hlength⟩ := load_spec h
      rw [List.length_replicate] at hlength
      refine ⟨?_, Or.inl ⟨hlength, hallocates.2⟩⟩
      show s.size.toNat = s.bytes.length
      rw [hsize, hlength]
    · cases h
      exact ⟨rfl, Or.inr rfl⟩

/-- Over every run of calls behind the first `setup`, the storage is a byte array of at most `n` bytes: what is read is
the last value written there or the initial one, no call leaves the array, one that fails changes nothing, and one that
succeeds changes nothing but the addresses it names. -/
theorem storage_run {answers : SetupAnswers} {n : UInt64} {ok : Bool} {s : Storage}
    (h : Storage.setup answers .fresh n = .returned (ok, s)) (calls : List StorageCall) :
    s.bytes.length ≤ n.toNat ∧ ∃ r, runStorage ⟨s, []⟩ calls = .returned r ∧
      r.history.map Prod.fst = calls.reverse ∧
      (∀ i, r.storage.bytes[i]? = lastWritten s.bytes (writes r.history) i) ∧
      (∀ recent call result older, r.history = recent ++ (call, result) :: older →
        Permitted s.bytes.length (lastWritten s.bytes (writes older)) call result) ∧
      ∀ call result t, StorageCall.run r.storage call = .returned (result, t) →
        (¬ result.Ok → t = r.storage) ∧ ∀ i, ¬ call.Names i → t.bytes[i]? = r.storage.bytes[i]? := by
  obtain ⟨hsound, hlength⟩ := Storage.setup_spec h
  have hstart : RunSpec s.bytes ⟨s, []⟩ :=
    ⟨hsound, rfl, fun w hw => absurd hw List.not_mem_nil,
      fun _ _ _ _ hsplit => absurd hsplit.symm (List.append_ne_nil_of_right_ne_nil _ (List.cons_ne_nil _ _))⟩
  obtain ⟨r, hrun, hspec, hcalls⟩ := runStorage_spec hstart calls
  refine ⟨?_, r, hrun, ?_, fun i => congrFun hspec.getElem? i, hspec.permitted, ?_⟩
  · rcases hlength with ⟨hlength, -⟩ | rfl
    · exact hlength.le
    · exact Nat.zero_le _
  · rw [hcalls]
    exact List.append_nil _
  · intro call result t hcall
    obtain ⟨result', t', hcall', hspec'⟩ := call.run_spec hspec.sound
    rw [hcall, Outcome.returned.injEq, Prod.mk.injEq] at hcall'
    obtain ⟨rfl, rfl⟩ := hcall'
    exact ⟨hspec'.unchanged, hspec'.frame⟩

/-- A storage of four bytes, two writes that overlap, and a block that does not fit. -/
theorem storage_run_four :
    ∃ r, runStorage ⟨⟨4, some [7, 8, 9, 10]⟩, []⟩
        [.write 2 1 #v[1, 2], .set 2 3, .write 3 3 #v[4, 5, 6], .get 1, .read 2 1] = .returned r ∧
      ∀ i, r.storage.bytes[i]? = lastWritten [7, 8, 9, 10] (writes r.history) i := by
  have hsetup : Storage.setup ⟨true, some [7, 8, 9, 10], true⟩ .fresh 4 =
      .returned (true, ⟨4, some [7, 8, 9, 10]⟩) := by
    decide
  obtain ⟨-, r, hrun, -, hbytes, -⟩ := storage_run hsetup
    [.write 2 1 #v[1, 2], .set 2 3, .write 3 3 #v[4, 5, 6], .get 1, .read 2 1]
  exact ⟨r, hrun, hbytes⟩

end IopHal
