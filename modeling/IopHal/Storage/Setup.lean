import IopHal.Storage.Commit

/-!
# Repeated setups

A process may call `setup` more than once.  Only the first call that gets memory allocates, with the size of that call; a
later one reads `eeprom.dat` with a size of its own.  In every state of a run the size of the bounds tests is that of the
memory, and what goes wrong is a later `setup` with a larger size and a file that is long enough (`setups_inside_iff`).
-/

namespace IopHal

inductive StorageUse
  | setup (answers : SetupAnswers) (size : UInt64)
  | step (s : StorageStep)

def StorageUse.run (p : StorageProcess) : StorageUse → Outcome StorageProcess
  | setup answers size => (p.storage.setup answers size).bind fun done => .returned ⟨done.2, p.file⟩
  | step s => s.run p

def runUses (p : StorageProcess) : List StorageUse → Outcome StorageProcess
  | [] => .returned p
  | use :: uses => (use.run p).bind fun q => runUses q uses

/-- A state of the run of a process, and what comes next in it. -/
def StorageStage (file : Option Bytes) (uses : List StorageUse) (p : StorageProcess) (next : Option StorageUse) : Prop :=
  ∃ before after, uses = before ++ after ∧ runUses ⟨.fresh, file⟩ before = .returned p ∧ next = after.head?

/-- There is a buffer, and both the size of the call and the file have more bytes than it.  A size that is negative as a
`streamsize` loads nothing. -/
def Storage.Overloads (answers : SetupAnswers) (s : Storage) (size : UInt64) : Prop :=
  ∃ mem content, s.buffer = some mem ∧ answers.delivers = some content ∧ size.toNat < 2 ^ 63 ∧
    mem.length < size.toNat ∧ mem.length < content.length

namespace Storage

variable {answers : SetupAnswers} {s t : Storage} {mem : Bytes} {size : UInt64} {ok : Bool}

theorem length_extracted (content : Bytes) (size : UInt64) :
    (extracted content size).length = if size.toNat < 2 ^ 63 then min size.toNat content.length else 0 := by
  unfold extracted
  split
  · exact List.length_take
  · rfl

theorem load_undefined_iff :
    load answers s mem size = .undefined ↔
      ∃ content, answers.delivers = some content ∧ mem.length < (extracted content size).length := by
  unfold load
  cases answers.delivers with
  | none => simp
  | some content =>
    dsimp only
    by_cases hfits : mem.length < (extracted content size).length
    · rw [if_pos hfits]
      exact iff_of_true rfl ⟨content, rfl, hfits⟩
    · rw [if_neg hfits]
      apply iff_of_false
      · intro h
        split at h <;> cases h
      · rintro ⟨other, hother, hlong⟩
        cases hother
        exact hfits hlong

/-- Memory that has just been allocated has room for what is loaded. -/
theorem load_fresh_ne_undefined (h : mem.length = size.toNat) : load answers s mem size ≠ .undefined := by
  rw [Ne, load_undefined_iff]
  rintro ⟨content, -, hlong⟩
  rw [length_extracted, h] at hlong
  split at hlong <;> omega

theorem setup_undefined_iff : s.setup answers size = .undefined ↔ Overloads answers s size := by
  unfold setup Overloads
  by_cases hzero : size = 0
  · subst hzero
    rw [if_pos rfl]
    apply iff_of_false nofun
    rintro ⟨mem, content, -, -, -, hlt, -⟩
    exact Nat.not_lt_zero _ hlt
  · rw [if_neg hzero]
    cases hbuffer : s.buffer with
    | some mem =>
      dsimp only
      rw [load_undefined_iff]
      constructor
      · rintro ⟨content, hcontent, hlong⟩
        rw [length_extracted] at hlong
        split at hlong
        · exact ⟨mem, content, rfl, hcontent, ‹_›, by omega, by omega⟩
        · omega
      · rintro ⟨mem', content, hmem, hcontent, hmax, hsize, hlength⟩
        cases hmem
        refine ⟨content, hcontent, ?_⟩
        rw [length_extracted, if_pos hmax]
        omega
    | none =>
      dsimp only
      apply iff_of_false
      · split
        · exact load_fresh_ne_undefined List.length_replicate
        · exact nofun
      · rintro ⟨mem, content, hmem, -⟩
        cases hmem

/-- A `setup` keeps the size of the bounds tests with the memory, whether it allocates or not. -/
theorem setup_sound (hs : s.Sound) (h : s.setup answers size = .returned (ok, t)) : t.Sound := by
  have hload : ∀ {u : Storage} {mem : Bytes}, u.size.toNat = mem.length → load answers u mem size = .returned (ok, t) →
      t.Sound := by
    intro u mem hu hu'
    obtain ⟨hsize, hlength⟩ := load_spec hu'
    show t.size.toNat = t.bytes.length
    rw [hsize, hlength, hu]
  unfold setup at h
  split at h
  · cases h
  · split at h
    · rename_i mem hmem
      have hbytes : s.bytes = mem := by
        rw [bytes, hmem]
        rfl
      exact hload (hbytes ▸ hs) h
    · split at h
      · exact hload List.length_replicate.symm h
      · cases h
        exact hs

end Storage

section Uses

variable {p q : StorageProcess}

theorem StorageUse.sound (hp : p.storage.Sound) {use : StorageUse} (h : use.run p = .returned q) : q.storage.Sound := by
  cases use with
  | setup answers size =>
    obtain ⟨done, hdone, hq⟩ := Outcome.bind_eq_returned_iff.1 h
    cases hq
    exact Storage.setup_sound hp hdone
  | step s => exact (StorageStep.kept hp h).sound

theorem runUses_sound (hp : p.storage.Sound) {uses : List StorageUse} (h : runUses p uses = .returned q) :
    q.storage.Sound := by
  induction uses generalizing p with
  | nil =>
    cases h
    exact hp
  | cons use uses ih =>
    obtain ⟨r, hr, hq⟩ := Outcome.bind_eq_returned_iff.1 h
    exact ih (StorageUse.sound hp hr) hq

theorem Storage.commit_ne_undefined {s : Storage} (hs : s.Sound) (failure : Option CommitFailure) (file : Option Bytes) :
    (s.commit failure file).1 ≠ .undefined := by
  unfold commit
  cases hbuffer : s.buffer with
  | none =>
    intro h
    contradiction
  | some mem =>
    have hlength : ¬ mem.length < s.size.toNat := by
      rw [Sound, bytes, hbuffer] at hs
      exact hs.le.not_gt
    dsimp only
    rw [if_neg hlength]
    cases failure with
    | none =>
      intro h
      contradiction
    | some f =>
      intro h
      cases f <;> contradiction

/-- The calls and commits of a sound storage stay inside of its memory. -/
theorem StorageStep.run_ne_undefined (hp : p.storage.Sound) (step : StorageStep) : step.run p ≠ .undefined := by
  cases step with
  | call c =>
    obtain ⟨result, t, hrun, -⟩ := c.run_spec hp
    rw [run, hrun]
    exact nofun
  | commit failure =>
    rw [run, Ne, Outcome.bind_eq_undefined_iff]
    exact Storage.commit_ne_undefined hp failure p.file

theorem StorageUse.setup_run_undefined_iff {answers : SetupAnswers} {size : UInt64} :
    (StorageUse.setup answers size).run p = .undefined ↔ Storage.Overloads answers p.storage size := by
  rw [run, Outcome.bind_eq_undefined_iff]
  exact Storage.setup_undefined_iff

/-- Over a whole run of setups, calls and commits the size of the bounds tests is that of the memory and no access leaves
it, exactly if no `setup` of the run finds a buffer that is too short for its size and for the file. -/
theorem setups_inside_iff (file : Option Bytes) (uses : List StorageUse) :
    (∀ p next, StorageStage file uses p next → p.storage.Sound ∧ ∀ use ∈ next, use.run p ≠ .undefined) ↔
      ∀ p answers size, StorageStage file uses p (some (.setup answers size)) → ¬ Storage.Overloads answers p.storage size := by
  have hsound : ∀ p next, StorageStage file uses p next → p.storage.Sound := by
    rintro p next ⟨before, after, -, hrun, -⟩
    have hfresh : Storage.Sound .fresh := rfl
    exact runUses_sound (p := ⟨.fresh, file⟩) hfresh hrun
  constructor
  · intro h p answers size hstage hover
    exact (h p _ hstage).2 _ rfl (StorageUse.setup_run_undefined_iff.2 hover)
  · intro h p next hstage
    refine ⟨hsound p next hstage, fun use huse => ?_⟩
    rw [Option.mem_def] at huse
    subst huse
    cases use with
    | setup answers size =>
      rw [Ne, StorageUse.setup_run_undefined_iff]
      exact h p answers size hstage
    | step s => exact s.run_ne_undefined (hsound p _ hstage)

/-- A storage of one byte is set up again with two, and the file has them. -/
theorem setups_outside :
    ¬ ∀ p next, StorageStage none [.setup ⟨true, some [7, 8], true⟩ 1, .setup ⟨true, some [7, 8], true⟩ 2] p next →
      p.storage.Sound ∧ ∀ use ∈ next, use.run p ≠ .undefined := by
  intro h
  have hrun : runUses ⟨.fresh, none⟩ [.setup ⟨true, some [7, 8], true⟩ 1] = .returned ⟨⟨1, some [7]⟩, none⟩ := rfl
  obtain ⟨-, hinside⟩ := h ⟨⟨1, some [7]⟩, none⟩ (some (.setup ⟨true, some [7, 8], true⟩ 2)) ⟨_, _, rfl, hrun, rfl⟩
  exact hinside _ rfl rfl

end Uses

end IopHal
