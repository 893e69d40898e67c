import IopHal.Library.Patch

/-!
# Memories that are saved and loaded

A working memory is written block by block.  A save replaces what was saved before by the first cells of it, and a load puts what
was saved last over its first cells; the working memory itself is lost now and then.  `Cells` says what both hold, place by place,
and `Represents` that two lists are those cells.
-/

namespace Saves

open Patch

variable {α : Type*}

inductive Event (α : Type*)
  | cleared (size : ℕ)
  | written (start : ℕ) (block : List α)
  | saved (count : ℕ)
  | loaded (count : ℕ)

/-- What the working memory holds at each place, and what is saved for it. -/
structure Cells (α : Type*) where
  working : ℕ → Option α
  saved : ℕ → Option α

namespace Cells

/-- The cells behind one event; `z` is in the cells of a new memory. -/
def after (z : α) (c : Cells α) : Event α → Cells α
  | .cleared size => { c with working := fun i => if i < size then some z else none }
  | .written start block =>
    { c with working := fun i => if Covers start block.length i then block[i - start]? else c.working i }
  | .saved count => { c with saved := fun i => if i < count then c.working i else none }
  | .loaded count => { c with working := fun i => if i < count then c.saved i else c.working i }

/-- No working memory, and this list saved. -/
def start (initial : List α) : Cells α := ⟨fun _ => none, fun i => initial[i]?⟩

/-- The cells behind a log, whose first event is the last one. -/
def ofLog (z : α) (initial : List α) (log : List (Event α)) : Cells α :=
  log.foldr (fun event c => c.after z event) (start initial)

@[simp] theorem ofLog_cons (z : α) (initial : List α) (event : Event α) (log : List (Event α)) :
    ofLog z initial (event :: log) = (ofLog z initial log).after z event := rfl

end Cells

/-! ### Lists of cells -/

/-- The working memory is `mem`, and `file` is saved. -/
structure Represents (c : Cells α) (mem file : List α) : Prop where
  working : ∀ i, c.working i = mem[i]?
  saved : ∀ i, c.saved i = file[i]?

namespace Represents

variable {c : Cells α} {mem file : List α} {z : α}

theorem cleared (h : Represents c mem file) (size : ℕ) :
    Represents (c.after z (.cleared size)) (List.replicate size z) file := by
  refine ⟨fun i => ?_, h.saved⟩
  rw [List.getElem?_replicate]
  rfl

theorem written (h : Represents c mem file) {start : ℕ} {block : List α} (hfits : start + block.length ≤ mem.length) :
    Represents (c.after z (.written start block)) (patch mem start block) file := by
  refine ⟨fun i => ?_, h.saved⟩
  rw [getElem?_patch hfits, ← h.working]
  rfl

theorem saves (h : Represents c mem file) (count : ℕ) :
    Represents (c.after z (.saved count)) mem (mem.take count) := by
  refine ⟨h.working, fun i => ?_⟩
  show (if i < count then c.working i else none) = _
  rw [List.getElem?_take, h.working]

theorem loads (h : Represents c mem file) {count : ℕ} (hmem : count ≤ mem.length) (hfile : count ≤ file.length) :
    Represents (c.after z (.loaded count)) (patch mem 0 (file.take count)) file := by
  refine ⟨fun i => ?_, h.saved⟩
  have hlength : (file.take count).length = count := List.length_take_of_le hfile
  rw [getElem?_patch (by rw [hlength]; omega), hlength, Nat.sub_zero]
  show (if i < count then c.saved i else c.working i) = _
  by_cases hi : i < count
  · rw [if_pos hi, if_pos (by rw [covers_iff]; omega), List.getElem?_take_of_lt hi, h.saved]
  · rw [if_neg hi, if_neg (by rw [covers_iff]; omega), h.working]

end Represents

/-! ### Where a value comes from -/

/-- The event writes the value to this place. -/
def Event.Writes (i : ℕ) (v : α) : Event α → Prop
  | .written start block => Covers start block.length i ∧ block[i - start]? = some v
  | _ => False

/-- The value has been at this place from the beginning, or was written there. -/
def Given (initial : List α) (log : List (Event α)) (i : ℕ) (v : α) : Prop :=
  initial[i]? = some v ∨ ∃ event ∈ log, event.Writes i v

theorem Given.cons {initial : List α} {log : List (Event α)} {i : ℕ} {v : α} (h : Given initial log i v)
    (event : Event α) : Given initial (event :: log) i v :=
  h.imp_right fun ⟨other, hmem, hwrites⟩ => ⟨other, List.mem_cons_of_mem _ hmem, hwrites⟩

/-- No value is invented, and none moves from one place to another. -/
theorem given_of_cells (z : α) (initial : List α) (log : List (Event α)) (i : ℕ) (v : α) :
    ((Cells.ofLog z initial log).working i = some v → v = z ∨ Given initial log i v) ∧
      ((Cells.ofLog z initial log).saved i = some v → v = z ∨ Given initial log i v) := by
  induction log with
  | nil => exact ⟨fun h => (by cases h), fun h => Or.inr (Or.inl h)⟩
  | cons event log ih =>
    have hworking := fun h => (ih.1 h).imp_right fun hgiven => hgiven.cons event
    have hsaved := fun h => (ih.2 h).imp_right fun hgiven => hgiven.cons event
    rw [Cells.ofLog_cons]
    cases event with
    | cleared size =>
      refine ⟨fun h => ?_, hsaved⟩
      by_cases hi : i < size
      · left
        exact (Option.some.inj ((if_pos hi).symm.trans h)).symm
      · cases (if_neg hi).symm.trans h
    | written start block =>
      refine ⟨fun h => ?_, hsaved⟩
      by_cases hi : Covers start block.length i
      · exact Or.inr (Or.inr ⟨_, List.mem_cons_self, hi, (if_pos hi).symm.trans h⟩)
      · exact hworking ((if_neg hi).symm.trans h)
    | saved count =>
      refine ⟨hworking, fun h => ?_⟩
      by_cases hi : i < count
      · exact hworking ((if_pos hi).symm.trans h)
      · cases (if_neg hi).symm.trans h
    | loaded count =>
      refine ⟨fun h => ?_, hsaved⟩
      by_cases hi : i < count
      · exact hsaved ((if_pos hi).symm.trans h)
      · exact hworking ((if_neg hi).symm.trans h)

end Saves
